import UtilityCss.Build.Delivery
import UtilityCss.Proofs.File.Alike
import UtilityCss.Proofs.Markup.Head

/-!
# Deliveries at two times

The time of a delivery shows in the first line of the stylesheet and nowhere else: from sessions that
differ in their times, and in the first lines of stylesheets of these times, a delivery comes to the
same and leaves such sessions again (`Delivery.blind_deliver`). For this the first line must be
quiet, as a stylesheet may be a target itself; then styles are put behind it alike.
-/

namespace UtilityCss

/-- Sessions at two times that differ at most in the first lines of stylesheets of these times. -/
structure Session.Alike (time time' : String) (s s' : Session) : Prop where
  tree   : s.tree.Alike (Delivery.header time) (Delivery.header time') s'.tree
  report : s.report = s'.report
  time   : s.time = time
  time'  : s'.time = time'

/-- Two jobs that keep sessions at two times alike. -/
abbrev Job.Lockstep {α β : Type} (time time' : String) (Q : α → β → Prop) (m : Job α)
    (m' : Job β) : Prop :=
  UtilityCss.Lockstep (Session.Alike time time') (Session.Alike time time') Q m m'

/-- A job that does the same at two times. -/
abbrev Job.Blind {α : Type} (time time' : String) (m : Job α) : Prop :=
  Job.Lockstep time time' Eq m m

namespace Job

variable {time time' : String} {α : Type} {Q : α → α → Prop}

theorem blind_pure (x : α) : Blind time time' (pure x) := .pure_same rfl

theorem Blind.bind {β : Type} {m : Job α} {f : α → Job β} (h : Blind time time' m)
    (hf : ∀ x, Blind time time' (f x)) : Blind time time' (m >>= f) := by
  refine h.bind_same ?_
  rintro x _ rfl
  exact hf x

theorem blind_say (level : Level) (text : String) : Blind time time' (say level text) := by
  intro s s' h
  refine ⟨.ok rfl, h.tree, ?_, h.time, h.time'⟩
  show s.report ++ [_] = s'.report ++ [_]
  rw [h.report]

theorem lockstep_read {f : Tree → Except Failure α}
    (hf : ∀ t t', t.Alike (Delivery.header time) (Delivery.header time') t' → Together Q (f t) (f t')) :
    Job.Lockstep time time' Q (read f) (read f) :=
  fun s s' h => ⟨hf s.tree s'.tree h.tree, h⟩

theorem lockstep_files (failure : FileError → Failure) {m m' : FileM α}
    (hm : UtilityCss.Lockstep (Tree.Alike (Delivery.header time) (Delivery.header time'))
      (Tree.Alike (Delivery.header time) (Delivery.header time')) Q m m') :
    Job.Lockstep time time' Q (files failure m) (files failure m') := by
  intro s s' h
  obtain ⟨hr, ht⟩ := hm s.tree s'.tree h.tree
  exact ⟨hr.mapError failure, ⟨ht, h.report, h.time, h.time'⟩⟩

end Job

namespace Delivery

variable {time time' : String} {first first' : String} {mode : InjectMode} {css : String}
  {output target : Path} {html html' : String}

theorem styled_append (hq : Markup.IsQuiet first.toList) (html : String) :
    styled mode css output target (first ++ html) =
      first ++ styled mode css output target html := by
  cases mode with
  | inline => exact Markup.inlineStyles_append hq html css
  | link => exact Markup.linkStylesheet_append hq html _

/-- Alike texts are styled alike, and changed by it or not. -/
theorem alike_styled (mode : InjectMode) (css : String) (output target : Path)
    (hq : Markup.IsQuiet first.toList) (hq' : Markup.IsQuiet first'.toList)
    (h : Alike first first' html html') :
    Alike first first' (styled mode css output target html) (styled mode css output target html') ∧
      (styled mode css output target html = html ↔ styled mode css output target html' = html') := by
  cases h with
  | same html => exact ⟨.same _, Iff.rfl⟩
  | behind html =>
      rw [styled_append hq, styled_append hq', String.append_right_inj, String.append_right_inj]
      exact ⟨.behind _, Iff.rfl⟩

theorem blind_writeStylesheet (output : Path) (css : String) :
    Job.Blind time time' (writeStylesheet output css) := by
  have hwrite : Job.Blind time time' (do
      Job.files (.output output) (FileM.replace output (header (← get).time ++ css ++ "\n"))
      Job.say .info ("Wrote " ++ output.text)) := by
    -- the one place where the time is looked at
    refine Lockstep.get.bind_same fun s s' hs => ?_
    have htext : Alike (header time) (header time') (header s.time ++ css ++ "\n")
        (header s'.time ++ css ++ "\n") := by
      rw [hs.time, hs.time', String.append_assoc, String.append_assoc]
      exact .behind _
    exact (Job.lockstep_files _ (FileM.lockstep_replace output htext)).bind_same
      fun _ _ _ => Job.blind_say _ _
  unfold writeStylesheet
  split
  · split
    · exact (Job.lockstep_files _ (FileM.lockstep_makeDirectories _)).bind_same fun _ _ _ => hwrite
    · exact hwrite
  · exact hwrite

variable (hq : Markup.IsQuiet (header time).toList) (hq' : Markup.IsQuiet (header time').toList)

include hq hq'

theorem blind_toTarget (mode : InjectMode) (css : String) (output target : Path) :
    Job.Blind time time' (toTarget mode css output target) := by
  refine Lockstep.get.bind_same fun s s' hs => ?_
  simp only [hs.tree.isFile target]
  split
  · refine (Job.lockstep_read fun t t' ht => (ht.readText target).mapError _).bind_same
      fun html html' hhtml => ?_
    obtain ⟨hstyled, hchanged⟩ := alike_styled mode css output target hq hq' hhtml
    -- the texts may differ in their heads, but both are changed or neither is
    by_cases hsame : styled mode css output target html' = html'
    · rw [if_pos hsame, if_pos (hchanged.2 hsame)]
      exact Job.blind_pure _
    · rw [if_neg hsame, if_neg (mt hchanged.1 hsame)]
      exact (Job.lockstep_files _ (FileM.lockstep_replace target hstyled)).bind_same
        fun _ _ _ => (Job.blind_say _ _).bind fun _ => Job.blind_pure _
  · exact Job.blind_pure _

theorem blind_toTargets (mode : InjectMode) (css : String) (output : Path) (targets : List Path) :
    Job.Blind time time' (toTargets mode css output targets) := by
  induction targets with
  | nil => exact Job.blind_pure _
  | cons p ps ih =>
      exact (blind_toTarget hq hq' mode css output p).bind fun first =>
        ih.bind fun later => Job.blind_pure _

/-- A delivery does the same at two times. -/
theorem blind_deliver (mode : InjectMode) (css : String) (output : Path) (targets : List Path) :
    Job.Blind time time' (deliver mode css output targets) := by
  have htargets (stylesheet : Option Path) : Job.Blind time time' (do
      let d ← toTargets mode css output targets
      return { d with stylesheet }) :=
    (blind_toTargets hq hq' mode css output targets).bind fun d => Job.blind_pure _
  unfold deliver
  split
  · exact (blind_writeStylesheet output css).bind fun _ => htargets _
  · exact htargets _

end Delivery

end UtilityCss
