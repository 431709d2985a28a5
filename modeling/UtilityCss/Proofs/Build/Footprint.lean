import UtilityCss.Build.Delivery
import UtilityCss.Proofs.File.Footprint

/-!
# What a delivery leaves

A delivery is told of its targets and, if it writes one, of the stylesheet; besides these it may make
directories above the stylesheet. It keeps to that (`Delivery.KeepsTo`) unless one of its drafts gets
in the way: a file that stood under the name of a draft is lost with the draft, and the draft of a
stylesheet that cannot be moved stays (`Delivery.keepsTo_iff`). The draft of a target always goes
(`Delivery.toTarget_cases`).
-/

namespace UtilityCss

namespace Job

variable {α : Type} {s : Session}

theorem run_read (f : Tree → Except Failure α) (s : Session) : (read f).run s = (f s.tree, s) := rfl

theorem run_files (failure : FileError → Failure) (m : FileM α) (s : Session) :
    (files failure m).run s =
      ((m.run s.tree).1.mapError failure, { s with tree := (m.run s.tree).2 }) := rfl

end Job

theorem run_bind_pure {ε σ α β : Type} (m : ExceptT ε (StateM σ) α) (f : α → β) (s : σ) :
    (do let x ← m; return f x).run s = ((m.run s).1.map f, (m.run s).2) := by
  rw [run_bind]
  rcases m.run s with ⟨_ | _, _⟩ <;> rfl

namespace Delivery

variable {mode : InjectMode} {css : String} {output target : Path} {targets : List Path}
  {s s' : Session} {place : Place}

/-! ### Targets -/

/-- The targets that came of a delivery changed. -/
def updates : Except Failure Delivery → List Path
  | .ok d    => d.updated
  | .error _ => []

/-- A target that is a file is replaced by its text with the styles, if they change it. -/
theorem run_toTarget_of_isFile (hf : s.tree.isFile target) :
    (toTarget mode css output target).run s = match s.tree.readText target with
      | .error e => (.error (.input target e), s)
      | .ok html =>
        let text := styled mode css output target html
        if text = html then (.ok ⟨none, [], []⟩, s)
        else
          match (FileM.replace target text).run s.tree with
          | (.error e, tree) => (.error (.output target e), { s with tree })
          | (.ok (), tree)   =>
            (.ok ⟨none, [target], []⟩,
              { s with tree, report := s.report ++ [⟨.info, "Updated " ++ target.text⟩] }) := by
  unfold toTarget
  rw [run_bind]
  show (if s.tree.isFile target then _ else _ : Job Delivery).run s = _
  rw [if_pos hf, run_bind, Job.run_read]
  cases s.tree.readText target with
  | error e => rfl
  | ok html =>
      show (if styled mode css output target html = html then _ else _ : Job Delivery).run s =
        if styled mode css output target html = html then _ else _
      split
      · rfl
      rw [run_bind, Job.run_files]
      rcases (FileM.replace target (styled mode css output target html)).run s.tree with
        ⟨_ | _, tree⟩ <;> rfl

/-- A target that is no file is reported. -/
theorem run_toTarget_of_not_isFile (hf : s.tree.isFile target = false) :
    (toTarget mode css output target).run s =
      (.ok ⟨none, [], [.warning "Target HTML file not found" target.text]⟩, s) := by
  unfold toTarget
  rw [run_bind]
  show (if s.tree.isFile target then _ else _ : Job Delivery).run s = _
  rw [hf]
  rfl

/-- Nothing is done to a target, or it is replaced by its text with the styles. -/
theorem toTarget_cases (mode : InjectMode) (css : String) (output target : Path) (s : Session) :
    (∃ r, (toTarget mode css output target).run s = (r, s) ∧ updates r = []) ∨
      ∃ html s', s.tree.readText target = .ok html ∧ styled mode css output target html ≠ html ∧
        (toTarget mode css output target).run s = (.ok ⟨none, [target], []⟩, s') ∧
        (FileM.replace target (styled mode css output target html)).run s.tree = (.ok (), s'.tree) := by
  by_cases hf : s.tree.isFile target
  · rw [run_toTarget_of_isFile hf]
    cases s.tree.readText target with
    | error e => exact .inl ⟨_, rfl, rfl⟩
    | ok html =>
        by_cases hsame : styled mode css output target html = html
        · exact .inl ⟨_, if_pos hsame, rfl⟩
        simp only [if_neg hsame]
        rcases FileM.replacement_of_isFile (styled mode css output target html) hf with
          ⟨e, he⟩ | ⟨t', ht⟩
        · rw [he]
          exact .inl ⟨_, rfl, rfl⟩
        · rw [ht]
          exact .inr ⟨html, _, rfl, hsame, rfl, ht⟩
  · exact .inl ⟨_, run_toTarget_of_not_isFile (Bool.eq_false_iff.2 hf), rfl⟩

theorem eq_of_mem_updates {p : Path}
    (h : p ∈ updates ((toTarget mode css output target).run s).1) : p = target := by
  rcases toTarget_cases mode css output target s with ⟨r, hrun, hr⟩ | ⟨_, _, _, _, hrun, _⟩
  · rw [hrun, hr] at h
    cases h
  · rw [hrun] at h
    exact List.mem_singleton.1 h

theorem replaces_toTarget (mode : InjectMode) (css : String) (output target : Path) (s : Session) :
    Tree.Replaces (updates ((toTarget mode css output target).run s).1) s.tree
      ((toTarget mode css output target).run s).2.tree := by
  rcases toTarget_cases mode css output target s with ⟨r, hrun, hr⟩ | ⟨_, _, _, _, hrun, hreplace⟩
  · rw [hrun, hr]
    exact .refl s.tree
  · rw [hrun]
    exact (Tree.replaces_of_replace hreplace).1

theorem run_toTargets_cons (mode : InjectMode) (css : String) (output target : Path)
    (targets : List Path) (s : Session) :
    (toTargets mode css output (target :: targets)).run s =
      match (toTarget mode css output target).run s with
      | (.error e, s')  => (.error e, s')
      | (.ok first, s') =>
        (((toTargets mode css output targets).run s').1.map fun later =>
            ⟨none, first.updated ++ later.updated, first.diagnostics ++ later.diagnostics⟩,
          ((toTargets mode css output targets).run s').2) := by
  rw [toTargets, run_bind]
  rcases (toTarget mode css output target).run s with ⟨_ | first, s₁⟩
  · rfl
  · exact run_bind_pure _ _ s₁

/-- The targets that are replaced in a row, up to the first failure. -/
def replacedTargets (mode : InjectMode) (css : String) (output : Path) :
    List Path → Session → List Path
  | [],      _ => []
  | p :: ps, s =>
    match (toTarget mode css output p).run s with
    | (.ok d, s')    => d.updated ++ replacedTargets mode css output ps s'
    | (.error _, _) => []

theorem mem_of_mem_replacedTargets {p : Path}
    (h : p ∈ replacedTargets mode css output targets s) : p ∈ targets := by
  induction targets generalizing s with
  | nil => cases h
  | cons target targets ih =>
      have hfirst : p ∈ updates ((toTarget mode css output target).run s).1 → p = target :=
        eq_of_mem_updates
      unfold replacedTargets at h
      rcases hrun : (toTarget mode css output target).run s with ⟨_ | d, s₁⟩
      · rw [hrun] at h
        cases h
      · rw [hrun] at h hfirst
        exact List.mem_cons.2 ((List.mem_append.1 h).imp hfirst ih)

/-- Targets are replaced one after the other, and nothing else is done. -/
theorem replaces_toTargets (mode : InjectMode) (css : String) (output : Path) (targets : List Path)
    (s : Session) :
    Tree.Replaces (replacedTargets mode css output targets s) s.tree
      ((toTargets mode css output targets).run s).2.tree := by
  induction targets generalizing s with
  | nil => exact .refl _
  | cons target targets ih =>
      have hfirst := replaces_toTarget mode css output target s
      rw [run_toTargets_cons]
      unfold replacedTargets
      rcases hrun : (toTarget mode css output target).run s with ⟨_ | d, s₁⟩
      · rw [hrun] at hfirst
        exact hfirst
      · rw [hrun] at hfirst
        exact hfirst.trans (ih s₁)

theorem replacedTargets_of_ok {d : Delivery}
    (h : ((toTargets mode css output targets).run s).1 = .ok d) :
    replacedTargets mode css output targets s = d.updated := by
  induction targets generalizing s d with
  | nil =>
      cases h
      rfl
  | cons target targets ih =>
      rw [run_toTargets_cons] at h
      unfold replacedTargets
      rcases hrun : (toTarget mode css output target).run s with ⟨_ | first, s₁⟩
      · rw [hrun] at h
        cases h
      · rw [hrun] at h
        simp only at h ⊢
        rcases hlater : ((toTargets mode css output targets).run s₁).1 with _ | later
        · rw [hlater] at h
          cases h
        · rw [hlater] at h
          cases h
          rw [ih hlater]

/-! ### The stylesheet -/

/-- The text of the stylesheet. -/
def sheetText (time css : String) : String := header time ++ css ++ "\n"

/-- Puts the stylesheet in a directory that is there. -/
def putStylesheet (output : Path) (css : String) : Job Unit := do
  Job.files (.output output) (FileM.replace output (sheetText (← get).time css))
  Job.say .info ("Wrote " ++ output.text)

theorem run_putStylesheet (output : Path) (css : String) (s : Session) :
    ∃ r, ((putStylesheet output css).run s).1 = r.mapError (.output output) ∧
      (FileM.replace output (sheetText s.time css)).run s.tree =
        (r, ((putStylesheet output css).run s).2.tree) := by
  have hrun : (putStylesheet output css).run s =
      match (FileM.replace output (sheetText s.time css)).run s.tree with
      | (.error e, tree) => (.error (.output output e), { s with tree })
      | (.ok (), tree)   =>
        (.ok (), { s with tree, report := s.report ++ [⟨.info, "Wrote " ++ output.text⟩] }) := by
    unfold putStylesheet
    rw [run_bind]
    show (do
      Job.files (.output output) (FileM.replace output (sheetText s.time css))
      Job.say .info ("Wrote " ++ output.text) : Job Unit).run s = _
    rw [run_bind, Job.run_files]
    rcases (FileM.replace output (sheetText s.time css)).run s.tree with ⟨_ | _, t'⟩ <;> rfl
  rw [hrun]
  rcases (FileM.replace output (sheetText s.time css)).run s.tree with ⟨_ | _, t'⟩ <;>
    exact ⟨_, rfl, rfl⟩

/-- The directories for the stylesheet are made before it is put there. -/
theorem writeStylesheet_eq (output : Path) (css : String) :
    writeStylesheet output css = match output.parent? with
      | some directory => if directory.text.isEmpty then putStylesheet output css
        else do
          Job.files .io (FileM.makeDirectories directory)
          putStylesheet output css
      | none => putStylesheet output css := by
  unfold writeStylesheet
  cases output.parent? with
  | none => rfl
  | some directory => cases h : directory.text.isEmpty <;> simp only [h] <;> rfl

theorem run_makeDirectories_bind (directory : Path) (m : Job Unit) (s : Session) :
    ∃ r t₁, (FileM.makeDirectories directory).run s.tree = (r, t₁) ∧
      ((do Job.files .io (FileM.makeDirectories directory); m).run s =
        match r with
        | .ok ()   => m.run { s with tree := t₁ }
        | .error e => (.error (.io e), { s with tree := t₁ })) := by
  rw [run_bind, Job.run_files]
  rcases (FileM.makeDirectories directory).run s.tree with ⟨_ | _, t₁⟩
  · exact ⟨_, _, rfl, rfl⟩
  · exact ⟨_, _, rfl, rfl⟩

/-- The stylesheet is replaced once there are directories for it, or this fails before. -/
theorem writeStylesheet_cases (output : Path) (css : String) (s : Session) :
    ∃ t₁, Tree.Grows (·.IsAbove output) s.tree t₁ ∧
      ((∃ e, ((writeStylesheet output css).run s).1 = .error e ∧
          ((writeStylesheet output css).run s).2.tree = t₁) ∨
        ∃ r, ((writeStylesheet output css).run s).1 = r.mapError (.output output) ∧
          (FileM.replace output (sheetText s.time css)).run t₁ =
            (r, ((writeStylesheet output css).run s).2.tree)) := by
  have hput := run_putStylesheet output css s
  rw [writeStylesheet_eq]
  split
  · rename_i directory hdirectory
    split
    · exact ⟨_, .refl _, .inr hput⟩
    · have hgrows := (FileM.grows_makeDirectories directory s.tree).mono fun _ =>
        FileM.isAbove_of_parent hdirectory
      obtain ⟨r, t₁, hmake, hrun⟩ := run_makeDirectories_bind directory (putStylesheet output css) s
      rw [hmake] at hgrows
      rw [hrun]
      cases r with
      | error e => exact ⟨t₁, hgrows, .inl ⟨_, rfl, rfl⟩⟩
      | ok => exact ⟨t₁, hgrows, .inr (run_putStylesheet output css { s with tree := t₁ })⟩
  · exact ⟨_, .refl _, .inr hput⟩

/-- What a delivery does before it comes to the targets. -/
def prepare (mode : InjectMode) (css : String) (output : Path) : Job Unit :=
  if mode = .link then writeStylesheet output css else pure ()

theorem run_deliver (mode : InjectMode) (css : String) (output : Path) (targets : List Path)
    (s : Session) :
    (deliver mode css output targets).run s =
      match (prepare mode css output).run s with
      | (.error e, s') => (.error e, s')
      | (.ok (), s')   =>
        (((toTargets mode css output targets).run s').1.map fun d =>
            { d with stylesheet := if mode = .link then some output else none },
          ((toTargets mode css output targets).run s').2) := by
  unfold deliver prepare
  by_cases hmode : mode = .link
  · simp only [if_pos hmode]
    rw [run_bind]
    rcases (writeStylesheet output css).run s with ⟨_ | _, s₁⟩
    · rfl
    · exact run_bind_pure _ _ s₁
  · simp only [if_neg hmode]
    exact run_bind_pure _ _ s

/-- The files that are replaced in a row, up to the first failure. -/
def replaced (mode : InjectMode) (css : String) (output : Path) (targets : List Path) (s : Session) :
    List Path :=
  match (prepare mode css output).run s with
  | (.ok (), s')  =>
    (if mode = .link then [output] else []) ++ replacedTargets mode css output targets s'
  | (.error _, _) => []

/-- What a delivery says that it wrote is what was replaced. -/
theorem replaced_of_ok {d : Delivery}
    (h : ((deliver mode css output targets).run s).1 = .ok d) :
    replaced mode css output targets s = d.stylesheet.toList ++ d.updated := by
  rw [run_deliver] at h
  unfold replaced
  rcases hrun : (prepare mode css output).run s with ⟨_ | _, s₁⟩
  · rw [hrun] at h
    cases h
  · rw [hrun] at h
    simp only at h ⊢
    rcases htargets : ((toTargets mode css output targets).run s₁).1 with _ | later
    · rw [htargets] at h
      cases h
    · rw [htargets] at h
      cases h
      rw [replacedTargets_of_ok htargets]
      by_cases hmode : mode = .link <;> simp [hmode]

/-- The stylesheet stays under the name of its draft. -/
def Stranded (mode : InjectMode) (css : String) (output : Path) (s : Session) : Prop :=
  mode = .link ∧ ((writeStylesheet output css).run s).1 ≠ .ok () ∧
    ((writeStylesheet output css).run s).2.tree.node? output.draft.place =
      some (.file (.text (sheetText s.time css)))

/-- A delivery is told of a place: it is that of the stylesheet or of a target. -/
def Told (mode : InjectMode) (output : Path) (targets : List Path) (place : Place) : Prop :=
  mode = .link ∧ place = output.place ∨ ∃ p ∈ targets, place = p.place

/-- A directory above the stylesheet has been made. -/
def IsNewAbove (mode : InjectMode) (output : Path) (t t' : Tree) (place : Place) : Prop :=
  mode = .link ∧ place.IsAbove output ∧ t.node? place = none ∧ t'.node? place = some .directory

/-- Everything is as before at the places of which a delivery was not told, new directories above the
stylesheet aside. -/
def KeepsTo (mode : InjectMode) (output : Path) (targets : List Path) (t t' : Tree) : Prop :=
  ∀ place, ¬ Told mode output targets place → ¬ IsNewAbove mode output t t' place →
    t'.node? place = t.node? place

theorem told_of_mem_replaced {p : Path} (h : p ∈ replaced mode css output targets s) :
    Told mode output targets p.place := by
  unfold replaced at h
  split at h
  · rcases List.mem_append.1 h with h | h
    · split at h
      · rename_i hmode
        exact .inl ⟨hmode, by rw [List.mem_singleton.1 h]⟩
      · cases h
    · exact .inr ⟨p, mem_of_mem_replacedTargets h, rfl⟩
  · cases h

/-- Directories are made, and then files are replaced or a draft stays. -/
theorem deliver_cases (mode : InjectMode) (css : String) (output : Path) (targets : List Path)
    (s : Session) :
    ∃ t₁, Tree.Grows (fun place => mode = .link ∧ place.IsAbove output) s.tree t₁ ∧
      (Tree.Replaces (replaced mode css output targets s) t₁
          ((deliver mode css output targets).run s).2.tree ∨
        Stranded mode css output s ∧ ((deliver mode css output targets).run s).2.tree =
          t₁.put output.draft.place (.file (.text (sheetText s.time css)))) := by
  rw [run_deliver, replaced, prepare, Stranded]
  by_cases hmode : mode = .link
  · obtain ⟨t₁, hgrows, hcases⟩ := writeStylesheet_cases output css s
    refine ⟨t₁, hgrows.mono fun _ ha => ⟨hmode, ha⟩, ?_⟩
    simp only [if_pos hmode]
    rcases hrun : (writeStylesheet output css).run s with ⟨r, s₁⟩
    rw [hrun] at hcases
    rcases hcases with ⟨e, he, ht⟩ | ⟨r', hr, hreplace⟩
    · cases he
      cases ht
      exact .inl (.refl _)
    simp only at hr hreplace
    have hreplacement := FileM.replacement output (sheetText s.time css) t₁
    rw [hreplace] at hreplacement
    obtain ⟨t', _, _⟩ := s₁
    cases hreplacement with
    | undone e =>
        cases hr
        exact .inl (.refl _)
    | stranded e hd =>
        cases hr
        exact .inr ⟨⟨hmode, nofun, Tree.node?_put_self hd⟩, rfl⟩
    | moved hd hp =>
        cases hr
        exact .inl ((Tree.replaces_of_replace hreplace).1.trans
          (replaces_toTargets mode css output targets _))
  · simp only [if_neg hmode]
    exact ⟨s.tree, .refl _, .inl (replaces_toTargets mode css output targets s)⟩

/-- A stylesheet that cannot be moved ends the delivery. -/
theorem deliver_of_stranded (h : Stranded mode css output s) (targets : List Path) :
    replaced mode css output targets s = [] ∧
      ((deliver mode css output targets).run s).2.tree.node? output.draft.place =
        some (.file (.text (sheetText s.time css))) := by
  obtain ⟨rfl, hfail, hdraft⟩ := h
  rw [run_deliver, replaced, prepare, if_pos rfl]
  rcases hrun : (writeStylesheet output css).run s with ⟨_ | _, s₁⟩
  · rw [hrun] at hdraft
    exact ⟨rfl, hdraft⟩
  · rw [hrun] at hfail
    exact absurd rfl hfail

/-- A delivery keeps to what it is told exactly if no file stood under the name of a draft that was
moved, and no draft of a stylesheet stays. -/
theorem keepsTo_iff (mode : InjectMode) (css : String) (output : Path) (targets : List Path)
    (s : Session) :
    KeepsTo mode output targets s.tree ((deliver mode css output targets).run s).2.tree ↔
      (∀ p ∈ replaced mode css output targets s,
        Told mode output targets p.draft.place ∨ s.tree.node? p.draft.place = none) ∧
      (Stranded mode css output s → Told mode output targets output.draft.place ∨
        s.tree.node? output.draft.place = some (.file (.text (sheetText s.time css)))) := by
  have hstranded := fun h : Stranded mode css output s => deliver_of_stranded h targets
  have htold : ∀ p ∈ replaced mode css output targets s, Told mode output targets p.place :=
    fun _ => told_of_mem_replaced
  obtain ⟨t₁, hgrows, hcases⟩ := deliver_cases mode css output targets s
  generalize ((deliver mode css output targets).run s).2.tree = t' at hstranded hcases ⊢
  constructor
  · intro hkeeps
    -- a place that is as before is not that of a new directory
    have hsame : ∀ place n, t'.node? place = n → n ≠ some .directory →
        Told mode output targets place ∨ s.tree.node? place = n := by
      intro place n hn hdir
      refine or_iff_not_imp_left.2 fun hplace => ?_
      rw [← hn]
      exact (hkeeps place hplace fun ⟨_, _, _, hnew⟩ => hdir (hn ▸ hnew)).symm
    refine ⟨fun p hp => ?_, fun h => hsame _ _ (hstranded h).2 nofun⟩
    refine or_iff_not_imp_left.2 fun hplace => ?_
    have hgone : t'.node? p.draft.place = none := by
      rcases hcases with hreplaces | ⟨h, -⟩
      · refine hreplaces.drafts p hp fun q hq e => hplace ?_
        rw [e]
        exact htold q hq
      · rw [(hstranded h).1] at hp
        cases hp
    exact (hsame _ _ hgone nofun).resolve_left hplace
  · rintro ⟨hdrafts, hsheet⟩ place hplace hnew
    have hgrown : t'.node? place = t₁.node? place → t'.node? place = s.tree.node? place := by
      intro h
      rcases hgrows place with he | ⟨⟨hmode, habove⟩, hnone, hd⟩
      · rw [h, he]
      · exact absurd ⟨hmode, habove, hnone, h.trans hd⟩ hnew
    rcases hcases with hreplaces | ⟨h, ht⟩
    · by_cases hdraft : ∃ p ∈ replaced mode css output targets s, place = p.draft.place
      · obtain ⟨p, hp, rfl⟩ := hdraft
        rw [(hdrafts p hp).resolve_left hplace]
        refine hreplaces.drafts p hp fun q hq e => hplace ?_
        rw [e]
        exact htold q hq
      · push Not at hdraft
        refine hgrown (hreplaces.kept place fun p hp => ⟨fun e => hplace ?_, hdraft p hp⟩)
        rw [e]
        exact htold p hp
    · by_cases hdraft : place = output.draft.place
      · rw [hdraft] at hplace ⊢
        rw [(hstranded h).2, (hsheet h).resolve_left hplace]
      · exact hgrown (by rw [ht, Tree.node?_put_of_ne hdraft])

/-- A file under the name of a draft is lost, and the draft of a stylesheet at a directory stays. -/
theorem not_keepsTo_at_drafts :
    let lost : Tree := (∅ : Tree).put ["a.css.tmp"] (.file (.text "mine"))
    let left : Tree := (∅ : Tree).put ["b.css"] .directory
    ¬ KeepsTo .link ⟨"/a.css"⟩ [] lost
        ((deliver .link ".a {}" ⟨"/a.css"⟩ []).run ⟨lost, [], "now"⟩).2.tree ∧
      ¬ KeepsTo .link ⟨"/b.css"⟩ [] left
        ((deliver .link ".a {}" ⟨"/b.css"⟩ []).run ⟨left, [], "now"⟩).2.tree := by
  constructor
  · intro h
    refine absurd (h ["a.css.tmp"] ?_ ?_) (by decide +kernel)
    · rintro (⟨-, hplace⟩ | ⟨p, hp, -⟩)
      · exact absurd hplace (by decide +kernel)
      · cases hp
    · rintro ⟨-, -, hnone, -⟩
      exact absurd hnone (by decide +kernel)
  · intro h
    refine absurd (h ["b.css.tmp"] ?_ ?_) (by decide +kernel)
    · rintro (⟨-, hplace⟩ | ⟨p, hp, -⟩)
      · exact absurd hplace (by decide +kernel)
      · cases hp
    · rintro ⟨-, -, -, hnew⟩
      exact absurd hnew (by decide +kernel)

end Delivery

end UtilityCss
