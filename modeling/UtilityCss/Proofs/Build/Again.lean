import UtilityCss.Proofs.Build.Footprint
import UtilityCss.Proofs.File.Again
import UtilityCss.Proofs.Markup.Again
import Mathlib.Data.List.DropRight

/-!
# Deliveries done again

A target is settled if a link for it changes nothing more there (`Delivery.Settled`). A delivery of
links settles its targets one after the other and unsettles none: a link that another path to the same
file needs goes beside the first one (`Delivery.settled_of_toTarget`). A stylesheet that was written
once can be written again, and only its own place changes (`Delivery.run_writeStylesheet_of_canHold`).
That is what a delivery leaves (`Delivery.Delivered`), so a second one finds all its targets settled and
leaves them as they are (`Delivery.deliver_again`).
-/

namespace UtilityCss

/-! ### Paths seen from a directory -/

namespace Path

variable {p base : Path}

theorem prefix_trimEnd (pieces : List (List Char)) : trimEnd pieces <+: pieces :=
  List.rdropWhile_prefix _ pieces

theorem suffix_of_dropParts {parts pieces rest : List (List Char)}
    (h : dropParts parts pieces = some rest) : rest <:+ pieces := by
  induction pieces generalizing parts with
  | nil =>
      cases parts with
      | nil =>
          cases h
          exact List.suffix_refl _
      | cons part parts => cases h
  | cons piece pieces ih =>
      cases parts with
      | nil =>
          cases h
          exact List.suffix_refl _
      | cons part parts =>
          rw [dropParts] at h
          split at h
          · exact (ih h).trans (List.suffix_cons piece pieces)
          split at h
          · exact (ih h).trans (List.suffix_cons piece pieces)
          · cases h

theorem toList_text (p : Path) : p.text.toList = p.start.chars ++ ['/'].intercalate p.pieces := by
  rw [start, pieces, splitPieces, List.intercalate_splitOn, chars_append_split]

/-- A path as it is seen from a directory is a part of the path. -/
theorem infix_of_from? {seen : Path} (h : p.from? base = some seen) :
    seen.text.toList <:+: p.text.toList := by
  rw [p.toList_text]
  unfold from? at h
  split at h
  · cases h
    rw [ofPieces, String.toList_ofList]
    exact ((List.prefix_append_right_inj _).2
      (Text.prefix_intercalate (prefix_trimEnd p.pieces))).isInfix
  split at h
  · cases h
  · obtain ⟨rest, hrest, rfl⟩ := Option.map_eq_some_iff.1 h
    rw [ofPieces, String.toList_ofList]
    have hpieces : trimEnd (rest.dropWhile (!leads ·)) <:+: p.pieces :=
      (prefix_trimEnd _).isInfix.trans
        ((List.dropWhile_suffix _).trans (suffix_of_dropParts hrest)).isInfix
    exact (Text.infix_intercalate hpieces).trans (List.suffix_append _ _).isInfix

end Path

/-- Two paths denote one place: both can be followed there. -/
def Tree.Denote (t : Tree) (p q : Path) : Prop :=
  ∃ s s', t.spot p = .ok s ∧ t.spot q = .ok s' ∧ s.place = s'.place

theorem Tree.Denote.place_eq {t : Tree} {p q : Path} (h : t.Denote p q) : p.place = q.place := by
  obtain ⟨s, s', hs, hs', he⟩ := h
  rwa [spot_eq hs, spot_eq hs'] at he

namespace Delivery
open Markup UtilityCss.Tree

variable {css : String} {output target : Path} {targets : List Path} {s s' : Session} {t t' : Tree}
  {d : Delivery}

/-- The reference to a stylesheet is a part of its path. -/
theorem infix_href (h : '\\' ∉ output.text.toList) (target : Path) :
    (href output target).toList <:+: output.text.toList := by
  have hseen : ((target.parent?.bind output.from?).getD output).text.toList <:+:
      output.text.toList := by
    cases hfrom : target.parent?.bind output.from? with
    | none => exact List.infix_refl _
    | some seen =>
        obtain ⟨dir, -, hseen⟩ := Option.bind_eq_some_iff.1 hfrom
        exact Path.infix_of_from? hseen
  unfold href
  rwa [Text.replaceChar_of_not_mem fun hmem => h (hseen.subset hmem)]

/-! ### Targets that are settled -/

/-- A file to which a target leads is a text that a link for the target does not change. -/
def Settled (output : Path) (t : Tree) (target : Path) : Prop :=
  ∀ place c, t.find target = .ok (place, .file c) →
    ∃ html, c = .text html ∧ linkStylesheet html (href output target) = html

theorem Settled.of_toOption_find (h : Settled output t target)
    (hfind : (t'.find target).toOption = (t.find target).toOption) : Settled output t' target := by
  intro place c hc
  rw [hc] at hfind
  cases ht : t.find target with
  | ok found =>
      rw [ht] at hfind
      cases hfind
      exact h place c ht
  | error e =>
      rw [ht] at hfind
      cases hfind

/-- Nothing is done to a target that is settled. -/
theorem run_toTarget_of_settled (h : Settled output s.tree target) (css : String) :
    ∃ ds, (toTarget .link css output target).run s = (.ok ⟨none, [], ds⟩, s) := by
  cases hf : s.tree.isFile target with
  | false => exact ⟨_, run_toTarget_of_not_isFile hf⟩
  | true =>
      obtain ⟨c, hc⟩ := isFile_iff.1 hf
      obtain ⟨html, rfl, hsame⟩ := h _ c hc
      rw [run_toTarget_of_isFile hf, readText_eq_ok_iff.2 hc]
      exact ⟨[], if_pos hsame⟩

/-- A target is settled already, or it is a text that is replaced by the text with the link. -/
theorem settled_or_replace_of_toTarget
    (h : (toTarget .link css output target).run s = (.ok d, s')) :
    s' = s ∧ Settled output s.tree target ∨
      ∃ html, s.tree.find target = .ok (target.place, .file (.text html)) ∧
        (FileM.replace target (linkStylesheet html (href output target))).run s.tree =
          (.ok (), s'.tree) := by
  cases hf : s.tree.isFile target with
  | false =>
      rw [run_toTarget_of_not_isFile hf] at h
      cases h
      refine .inl ⟨rfl, fun place c hc => ?_⟩
      rw [isFile, hc] at hf
      cases hf
  | true =>
      obtain ⟨c, hc⟩ := isFile_iff.1 hf
      rw [run_toTarget_of_isFile hf, readText, hc] at h
      cases c with
      | binary bytes => cases h
      | text html =>
          change (if styled .link css output target html = html then _ else _) = _ at h
          by_cases hsame : styled .link css output target html = html
          · rw [if_pos hsame] at h
            cases h
            refine .inl ⟨rfl, fun place c hfound => ?_⟩
            rw [hc] at hfound
            cases hfound
            exact ⟨html, rfl, hsame⟩
          · rw [if_neg hsame] at h
            split at h
            · cases h
            · rename_i hreplace
              cases h
              exact .inr ⟨html, hc, hreplace⟩

/-- A target is settled, and none that was settled is unsettled. -/
theorem settled_of_toTarget (hhref : ∀ p, Text.Lacks headClose (href output p).toList)
    (h : (toTarget .link css output target).run s = (.ok d, s')) :
    Overwrites s.tree s'.tree ∧ Settled output s'.tree target ∧
      ∀ p, Settled output s.tree p → Settled output s'.tree p := by
  rcases settled_or_replace_of_toTarget h with ⟨rfl, hsettled⟩ | ⟨html, hfind, hreplace⟩
  · exact ⟨.refl _, hsettled, fun _ hp => hp⟩
  have hdirs := sameDirectories_of_replace hreplace
  have hnew := (replaces_of_replace hreplace).2
  refine ⟨overwrites_of_replace (find_eq hfind).2 hreplace, fun place c hc => ?_,
    fun p hp place c hc => ?_⟩
  · have hnode := (find_eq hc).2
    rw [hnew] at hnode
    cases hnode
    exact ⟨_, rfl, linkStylesheet_linkStylesheet html _⟩
  · have hnode := (find_eq hc).2
    have hspot := hdirs.symm.spot (spot_of_find hc)
    by_cases hsame : p.place = target.place
    · -- another path to the file that was replaced
      rw [hsame, hnew] at hnode
      cases hnode
      have hbefore : s.tree.node? p.place = some (.file (.text html)) :=
        hsame ▸ (find_eq hfind).2
      obtain ⟨_, hhtml, hkept⟩ := hp _ _ (find_of_spot hspot hbefore)
      cases hhtml
      exact ⟨_, rfl, linkStylesheet_keeps (hhref p) hkept _⟩
    · have hdraft : p.place ≠ target.draft.place := by
        intro e
        rw [e, node?_draft_of_replace hreplace] at hnode
        cases hnode
      rw [node?_of_replace hreplace hsame hdraft] at hnode
      exact hp _ _ (find_of_spot hspot hnode)

/-- A row of targets is settled. -/
theorem settled_of_toTargets (hhref : ∀ p, Text.Lacks headClose (href output p).toList)
    (h : (toTargets .link css output targets).run s = (.ok d, s')) :
    Overwrites s.tree s'.tree ∧ (∀ p ∈ targets, Settled output s'.tree p) ∧
      ∀ p, Settled output s.tree p → Settled output s'.tree p := by
  induction targets generalizing s d with
  | nil =>
      cases h
      exact ⟨.refl _, nofun, fun _ hp => hp⟩
  | cons target targets ih =>
      rw [run_toTargets_cons] at h
      rcases hfirst : (toTarget .link css output target).run s with ⟨_ | first, s₁⟩
      · rw [hfirst] at h
        cases h
      rw [hfirst] at h
      simp only at h
      obtain ⟨hover, htarget, hkeep⟩ := settled_of_toTarget hhref hfirst
      rcases hlater : (toTargets .link css output targets).run s₁ with ⟨_ | later, s₂⟩
      · rw [hlater] at h
        cases h
      rw [hlater] at h
      cases h
      obtain ⟨hover', htargets, hkeep'⟩ := ih hlater
      exact ⟨hover.trans hover', List.forall_mem_cons.2 ⟨hkeep' target htarget, htargets⟩,
        fun p hp => hkeep' p (hkeep p hp)⟩

/-- Nothing is done to targets that are settled. -/
theorem run_toTargets_of_settled (h : ∀ p ∈ targets, Settled output s.tree p) (css : String) :
    ∃ ds, (toTargets .link css output targets).run s = (.ok ⟨none, [], ds⟩, s) := by
  induction targets with
  | nil => exact ⟨[], rfl⟩
  | cons target targets ih =>
      obtain ⟨htarget, htargets⟩ := List.forall_mem_cons.1 h
      obtain ⟨ds, hfirst⟩ := run_toTarget_of_settled htarget css
      obtain ⟨ds', hlater⟩ := ih htargets
      rw [run_toTargets_cons, hfirst]
      simp only [hlater]
      exact ⟨ds ++ ds', rfl⟩

/-! ### Stylesheets that can be written -/

/-- The stylesheet can be written in a tree: its directory is there, and where the directories are the
same it has been written. -/
structure CanHold (t : Tree) (output : Path) : Prop where
  directory : ∀ dir, output.parent? = some dir → dir.text.isEmpty = false → t.isDirectory dir
  written   : ∃ t₁ t₂ text, SameDirectories t₁ t ∧ (FileM.replace output text).run t₁ = (.ok (), t₂)

theorem CanHold.of_sameDirectories (h : CanHold t output) (hdirs : SameDirectories t t') :
    CanHold t' output := by
  obtain ⟨t₁, t₂, text, hsame, hreplace⟩ := h.written
  refine ⟨fun dir hdir hempty => ?_, t₁, t₂, text, hsame.trans hdirs, hreplace⟩
  exact isDirectory_of_directories (h.directory dir hdir hempty) fun place => (hdirs place).2

theorem run_putStylesheet_of_replace {tree : Tree}
    (h : (FileM.replace output (sheetText s.time css)).run s.tree = (.ok (), tree)) :
    ∃ s', (putStylesheet output css).run s = (.ok (), s') ∧ s'.tree = tree := by
  obtain ⟨r, hr, hreplace⟩ := run_putStylesheet output css s
  rw [h] at hreplace
  obtain ⟨rfl, htree⟩ := Prod.mk.inj hreplace
  exact ⟨_, Prod.ext hr rfl, htree.symm⟩

theorem replace_of_putStylesheet (h : (putStylesheet output css).run s = (.ok (), s')) :
    (FileM.replace output (sheetText s.time css)).run s.tree = (.ok (), s'.tree) := by
  obtain ⟨r, hr, hreplace⟩ := run_putStylesheet output css s
  rw [h] at hr hreplace
  cases r with
  | ok => exact hreplace
  | error e => cases hr

/-- A stylesheet is written once its directory is there. -/
theorem replace_of_writeStylesheet (h : (writeStylesheet output css).run s = (.ok (), s')) :
    ∃ t, (∀ dir, output.parent? = some dir → dir.text.isEmpty = false → t.isDirectory dir) ∧
      (FileM.replace output (sheetText s.time css)).run t = (.ok (), s'.tree) := by
  rw [writeStylesheet_eq] at h
  split at h
  · rename_i directory hdirectory
    rw [hdirectory]
    split at h
    · rename_i hempty
      refine ⟨s.tree, fun dir hdir hnonempty => ?_, replace_of_putStylesheet h⟩
      cases hdir
      rw [hempty] at hnonempty
      cases hnonempty
    · obtain ⟨r, t₁, hmake, hrun⟩ := run_makeDirectories_bind directory (putStylesheet output css) s
      rw [hrun] at h
      cases r with
      | error e => cases h
      | ok =>
          refine ⟨t₁, fun dir hdir hnonempty => ?_, replace_of_putStylesheet h⟩
          cases hdir
          exact FileM.isDirectory_of_makeDirectories hnonempty hmake
  · rename_i hparent
    rw [hparent]
    exact ⟨s.tree, nofun, replace_of_putStylesheet h⟩

/-- A stylesheet that has been written can be written again, and its draft is gone. -/
theorem canHold_of_writeStylesheet (h : (writeStylesheet output css).run s = (.ok (), s')) :
    CanHold s'.tree output ∧ s'.tree.node? output.draft.place = none := by
  obtain ⟨t, hdirectory, hreplace⟩ := replace_of_writeStylesheet h
  have hhold : CanHold t output := ⟨hdirectory, t, s'.tree, _, fun _ => Iff.rfl, hreplace⟩
  exact ⟨hhold.of_sameDirectories (sameDirectories_of_replace hreplace),
    node?_draft_of_replace hreplace⟩

/-- Where a stylesheet can be written, that is all that is done. -/
theorem run_writeStylesheet_of_canHold (h : CanHold s.tree output) (css : String) :
    ∃ s', (writeStylesheet output css).run s = (.ok (), s') ∧
      (FileM.replace output (sheetText s.time css)).run s.tree = (.ok (), s'.tree) := by
  obtain ⟨t₁, t₂, text, hsame, hreplace⟩ := h.written
  obtain ⟨tree, htree⟩ := FileM.exists_run_replace hreplace hsame (sheetText s.time css)
  obtain ⟨s', hput, rfl⟩ := run_putStylesheet_of_replace htree
  refine ⟨s', ?_, htree⟩
  rw [writeStylesheet_eq]
  split
  · rename_i dir hdir
    split
    · exact hput
    · rename_i hempty
      have hthere := h.directory dir hdir (by simpa using hempty)
      rw [run_bind, Job.run_files, FileM.run_makeDirectories_of_isDirectory hthere]
      exact hput
  · exact hput

/-! ### Two deliveries -/

theorem spot_of_canHold (h : CanHold t output) : t.spot output = .ok (t.spotAt output.place) := by
  obtain ⟨t₁, t₂, text, hsame, hreplace⟩ := h.written
  exact hsame.spot (FileM.spot_of_replace hreplace)

/-- What a delivery of links leaves: a stylesheet that can be written again, no draft of it, and targets
that are settled. -/
structure Delivered (output : Path) (targets : List Path) (t : Tree) : Prop where
  holds   : CanHold t output
  noDraft : t.node? output.draft.place = none
  settled : ∀ p ∈ targets, Settled output t p

theorem delivered_of_deliver (hhref : ∀ p, Text.Lacks headClose (href output p).toList)
    (h : (deliver .link css output targets).run s = (.ok d, s')) :
    Delivered output targets s'.tree := by
  rw [run_deliver, prepare, if_pos rfl] at h
  rcases hwrite : (writeStylesheet output css).run s with ⟨_ | _, s₁⟩
  · rw [hwrite] at h
    cases h
  rw [hwrite] at h
  simp only at h
  rcases hrun : (toTargets .link css output targets).run s₁ with ⟨_ | d₁, s₂⟩
  · rw [hrun] at h
    cases h
  rw [hrun] at h
  cases h
  obtain ⟨hhold, hdraft⟩ := canHold_of_writeStylesheet hwrite
  obtain ⟨hover, hsettled, -⟩ := settled_of_toTargets hhref hrun
  exact ⟨hhold.of_sameDirectories hover.directories, hover.absent _ hdraft, hsettled⟩

/-- A delivery to settled targets writes the stylesheet alone. -/
theorem run_deliver_of_delivered (h : Delivered output targets s.tree)
    (htargets : ∀ p ∈ targets, ¬ s.tree.Denote p output) (css : String) :
    ∃ ds s', (deliver .link css output targets).run s = (.ok ⟨some output, [], ds⟩, s') ∧
      ∀ p ∈ targets, (s'.tree.find p).toOption = (s.tree.find p).toOption := by
  obtain ⟨s', hwrite, hreplace⟩ := run_writeStylesheet_of_canHold h.holds css
  have hfind : ∀ p ∈ targets, (s'.tree.find p).toOption = (s.tree.find p).toOption := by
    intro p hp
    refine (sameDirectories_of_replace hreplace).toOption_find fun spot hspot => ?_
    have hplace : p.place ≠ output.place := by
      intro e
      refine htargets p hp ⟨spot, _, hspot, spot_of_canHold h.holds, ?_⟩
      rw [spot_eq hspot]
      exact e
    -- the draft of the stylesheet is gone, and there was none before
    by_cases hdraft : p.place = output.draft.place
    · rw [hdraft, node?_draft_of_replace hreplace, h.noDraft]
    · exact node?_of_replace hreplace hplace hdraft
  obtain ⟨ds, hrun⟩ := run_toTargets_of_settled
    (fun p hp => (h.settled p hp).of_toOption_find (hfind p hp)) css
  refine ⟨ds, s', ?_, hfind⟩
  rw [run_deliver, prepare, if_pos rfl, hwrite]
  simp only [hrun]
  rfl

/-- A delivery of links that has been done is done. If none of its targets denotes the stylesheet that
it has written, a second one, of whatever styles, writes the stylesheet and changes nothing at any
target, since each refers to the stylesheet already or has no end of a head. -/
theorem deliver_again (hslash : '\\' ∉ output.text.toList)
    (hhead : Text.Lacks headClose output.text.toList)
    (h : (deliver .link css output targets).run s = (.ok d, s'))
    (htargets : ∀ p ∈ targets, ¬ s'.tree.Denote p output) (css' : String)
    (report : List ReportLine) (time : String) :
    ∃ d' s'', (deliver .link css' output targets).run ⟨s'.tree, report, time⟩ = (.ok d', s'') ∧
      d'.stylesheet = some output ∧ d'.updated = [] ∧
      (∀ p ∈ targets, (s''.tree.find p).toOption = (s'.tree.find p).toOption) ∧
      ∀ p ∈ targets, ∀ html, s''.tree.readText p = .ok html →
        refersTo html (href output p) ∨ Text.Lacks headClose html.toList := by
  have hdelivered := delivered_of_deliver (fun p => hhead.of_infix (infix_href hslash p)) h
  obtain ⟨ds, s'', hrun, hfind⟩ :=
    run_deliver_of_delivered (s := ⟨s'.tree, report, time⟩) hdelivered htargets css'
  refine ⟨_, s'', hrun, rfl, rfl, hfind, fun p hp html hread => ?_⟩
  have hsettled := (hdelivered.settled p hp).of_toOption_find (hfind p hp)
  obtain ⟨_, he, hsame⟩ := hsettled _ _ (readText_eq_ok_iff.1 hread)
  cases he
  exact refersTo_or_lacks_of_linkStylesheet hsame

/-- A page under two paths, one of which goes through the new directory of the stylesheet, gets a link
for each of them, and then no more. -/
theorem deliver_again_spellings :
    let output : Path := ⟨"/w/css/a.css"⟩
    let targets : List Path := [⟨"/w/a.html"⟩, ⟨"/w/css/../a.html"⟩, ⟨"/w/b.html"⟩]
    let s : Session :=
      ⟨((∅ : Tree).put ["w"] .directory).put ["w", "a.html"] (.file (.text "</HEAD>")), [], "now"⟩
    let s' := ((deliver .link ".a {}" output targets).run s).2
    ((deliver .link ".a {}" output targets).run s).1 =
        .ok ⟨some output, [⟨"/w/a.html"⟩, ⟨"/w/css/../a.html"⟩],
          [.warning "Target HTML file not found" "/w/b.html"]⟩ ∧
      ∃ d' s'', (deliver .link ".b {}" output targets).run ⟨s'.tree, [], "later"⟩ = (.ok d', s'') ∧
        d'.stylesheet = some output ∧ d'.updated = [] ∧
        (∀ p ∈ targets, (s''.tree.find p).toOption = (s'.tree.find p).toOption) ∧
        ∀ p ∈ targets, ∀ html, s''.tree.readText p = .ok html →
          refersTo html (href output p) ∨ Text.Lacks headClose html.toList := by
  intro output targets s s'
  have hok : ((deliver .link ".a {}" output targets).run s).1 =
      .ok ⟨some output, [⟨"/w/a.html"⟩, ⟨"/w/css/../a.html"⟩],
        [.warning "Target HTML file not found" "/w/b.html"]⟩ := by decide +kernel
  have hrun : (deliver .link ".a {}" output targets).run s =
      (((deliver .link ".a {}" output targets).run s).1, s') := (Prod.eta _).symm
  rw [hok] at hrun
  have hplaces : ∀ p ∈ targets, p.place ≠ output.place := by decide +kernel
  exact ⟨hok, deliver_again (by decide) (by decide) hrun
    (fun p hp h => hplaces p hp h.place_eq) ".b {}" [] "later"⟩

end Delivery

end UtilityCss
