import UtilityCss.Build.Watch
import Mathlib.Data.List.Basic
import Mathlib.Data.List.Induction

/-!
# What is watched

Files are tracked again and again, while directories come and go. A directory is told by its spelling,
and a call looks for it behind its own working directory. Whether a directory is watched is
decided by the one call that asks for it (`Watcher.call_cases`): after any calls the directories
that have been asked for are those that are watched and those that have been refused, and none is both
(`Watcher.knows_after`). A directory that has been refused is not asked for again, even if it is there
by then; so a call that succeeds may leave files unwatched, and does so exactly if the directory of one
has been refused before (`Watcher.watched_iff_not_refused`).
-/

namespace UtilityCss

namespace Watcher

/-- A call to track files, with the tree as it is then. -/
structure Call where
  tree             : Tree
  workingDirectory : Path
  files            : List Path

/-- The watcher after calls. -/
def after (calls : List Call) : Watcher :=
  calls.foldl (fun w c => (w.track c.tree c.workingDirectory c.files).2) .empty

/-- Where a call looks for a directory. -/
def Call.resolve (c : Call) (d : Path) : Path := c.workingDirectory.join d

/-- What comes of a call after others. -/
def result (past : List Call) (c : Call) : Except Failure Unit :=
  ((after past).track c.tree c.workingDirectory c.files).1

/-- The directories for which a call asks after others. -/
def asked (past : List Call) (c : Call) : List Path :=
  (after (past ++ [c])).directories.drop (after past).directories.length

/-- A call asks for a directory, and it is there. -/
def Watches (past : List Call) (c : Call) (d : Path) : Prop :=
  ∃ d' ∈ asked past c, d'.spelled = d.spelled ∧ c.tree.exists? (c.resolve d')

/-- A call asks for a directory and fails at it. -/
def Refuses (past : List Call) (c : Call) (d : Path) : Prop :=
  ∃ d' ∈ asked past c, d'.spelled = d.spelled ∧ ∃ e, result past c = .error (.watch (c.resolve d') e)

/-- A directory is watched since one of the calls. -/
def Watched (calls : List Call) (d : Path) : Prop :=
  ∃ past c, past ++ [c] <+: calls ∧ Watches past c d

/-- One of the calls has failed at a directory. -/
def Refused (calls : List Call) (d : Path) : Prop :=
  ∃ past c, past ++ [c] <+: calls ∧ Refuses past c d

/-- A directory is among others, however they are spelled. -/
def Knows (known : List Path) (d : Path) : Prop := ∃ d' ∈ known, d'.spelled = d.spelled

/-- The directories of files are among others. -/
def Covers (known files : List Path) : Prop := ∀ p ∈ files, ∀ d, p.parent? = some d → Knows known d

variable {t : Tree} {known files : List Path} {past later calls : List Call} {c : Call} {d : Path}

/-! ### One call -/

theorem knows_append {new : List Path} : Knows (known ++ new) d ↔ Knows known d ∨ Knows new d := by
  simp only [Knows, List.mem_append, or_and_right, exists_or]

theorem knows_singleton {d' : Path} : Knows [d'] d ↔ d'.spelled = d.spelled := by
  simp [Knows]

theorem knows_iff_any : Knows known d ↔ known.any (·.spelled = d.spelled) := by
  simp [Knows]

theorem Covers.cons {p : Path} (h : ∀ d, p.parent? = some d → Knows known d)
    (hfiles : Covers known files) : Covers known (p :: files) :=
  List.forall_mem_cons.2 ⟨h, hfiles⟩

/-- A call asks for directories that are there and for which no call has asked, until it has the
directories of all files or comes to one that is not there. -/
theorem request_cases (t : Tree) (workingDirectory : Path) (known files : List Path) :
    ∃ new, (∀ d ∈ new, t.exists? (workingDirectory.join d) ∧ ¬ Knows known d) ∧
      ((request t workingDirectory known files = (.ok (), known ++ new) ∧
          Covers (known ++ new) files) ∨
        ∃ d e, request t workingDirectory known files =
            (.error (.watch (workingDirectory.join d) e), known ++ new ++ [d]) ∧
          t.find (workingDirectory.join d) = .error e ∧ ¬ Knows (known ++ new) d) := by
  induction files generalizing known with
  | nil => exact ⟨[], nofun, .inl ⟨by rw [List.append_nil]; rfl, nofun⟩⟩
  | cons p files ih =>
      unfold request
      split
      · rename_i hparent
        obtain ⟨new, hnew, ⟨hr, hfiles⟩ | h⟩ := ih known
        · exact ⟨new, hnew, .inl ⟨hr, hfiles.cons (by simp [hparent])⟩⟩
        · exact ⟨new, hnew, .inr h⟩
      rename_i d hparent
      -- what is left of the call when it has the directory of this file
      have hcons : ∀ {l}, Knows l d → Covers l files → Covers l (p :: files) := by
        intro l hd hfiles
        refine hfiles.cons fun d' hd' => ?_
        rwa [Option.some.inj (hparent.symm.trans hd')] at hd
      split
      · rename_i hknown
        rw [← knows_iff_any] at hknown
        obtain ⟨new, hnew, ⟨hr, hfiles⟩ | h⟩ := ih known
        · exact ⟨new, hnew, .inl ⟨hr, hcons (knows_append.2 (.inl hknown)) hfiles⟩⟩
        · exact ⟨new, hnew, .inr h⟩
      rename_i hknown
      rw [← knows_iff_any] at hknown
      split
      · rename_i hfind
        have hthere : t.exists? (workingDirectory.join d) := by rw [Tree.exists?, hfind]; rfl
        obtain ⟨new, hnew, h⟩ := ih (known ++ [d])
        rw [List.append_assoc, List.singleton_append] at h
        refine ⟨d :: new, ?_, h.imp_left fun ⟨hr, hfiles⟩ => ⟨hr, hcons ?_ hfiles⟩⟩
        · refine List.forall_mem_cons.2 ⟨⟨hthere, hknown⟩, fun d' hd' => ?_⟩
          exact ⟨(hnew d' hd').1, fun h => (hnew d' hd').2 (knows_append.2 (.inl h))⟩
        · exact knows_append.2 (.inr ⟨d, List.mem_cons_self, rfl⟩)
      · rename_i e hfind
        refine ⟨[], nofun, .inr ⟨d, e, by rw [List.append_nil], hfind, ?_⟩⟩
        rwa [List.append_nil]

/-! ### Many calls -/

theorem after_concat (past : List Call) (c : Call) : after (past ++ [c]) =
    ((after past).track c.tree c.workingDirectory c.files).2 := by
  rw [after, List.foldl_concat]
  rfl

/-- After other calls, a call asks for directories that are new and there. It has the directories of all
its files then, or it fails at one more. -/
theorem call_cases (past : List Call) (c : Call) :
    ∃ new, (∀ d ∈ new, c.tree.exists? (c.resolve d) ∧ ¬ Knows (after past).directories d) ∧
      ((result past c = .ok () ∧ asked past c = new ∧
          (after (past ++ [c])).directories = (after past).directories ++ new ∧
          Covers (after (past ++ [c])).directories (after (past ++ [c])).files) ∨
        ∃ d e, result past c = .error (.watch (c.resolve d) e) ∧ asked past c = new ++ [d] ∧
          (after (past ++ [c])).directories = (after past).directories ++ (new ++ [d]) ∧
          c.tree.find (c.resolve d) = .error e ∧ ¬ Knows ((after past).directories ++ new) d) := by
  obtain ⟨new, hnew, ⟨hr, hcovers⟩ | ⟨d, e, hr, hfind, hd⟩⟩ :=
    request_cases c.tree c.workingDirectory (after past).directories
      (Path.distinct (c.files.map (canonical c.tree c.workingDirectory)))
  · have hdirs : (after (past ++ [c])).directories = (after past).directories ++ new := by
      rw [after_concat, track, hr]
    refine ⟨new, hnew, .inl ⟨by rw [result, track, hr], ?_, hdirs, ?_⟩⟩
    · rw [asked, hdirs, List.drop_left]
    · rw [after_concat, track, hr]
      exact hcovers
  · have hdirs : (after (past ++ [c])).directories = (after past).directories ++ (new ++ [d]) := by
      rw [after_concat, track, hr, List.append_assoc]
    refine ⟨new, hnew, .inr ⟨d, e, by rw [result, track, hr]; rfl, ?_, hdirs, hfind, hd⟩⟩
    rw [asked, hdirs, List.drop_left]

theorem directories_after (past : List Call) (c : Call) :
    (after (past ++ [c])).directories = (after past).directories ++ asked past c := by
  obtain ⟨new, -, ⟨-, hasked, hdirs, -⟩ | ⟨d, e, -, hasked, hdirs, -⟩⟩ := call_cases past c
  · rw [hdirs, hasked]
  · rw [hdirs, hasked]

/-- A call asks for directories that are new, watches them, and may fail at one more. -/
theorem knows_asked (past : List Call) (c : Call) (d : Path) :
    (Knows (asked past c) d ↔ Watches past c d ∨ Refuses past c d) ∧
      ¬ (Watches past c d ∧ Refuses past c d) ∧
      (Knows (asked past c) d → ¬ Knows (after past).directories d) := by
  obtain ⟨new, hnew, hcases⟩ := call_cases past c
  have hfresh : Knows new d → ¬ Knows (after past).directories d := by
    rintro ⟨d', hd', he⟩ ⟨d₀, hd₀, he₀⟩
    exact (hnew d' hd').2 ⟨d₀, hd₀, he₀.trans he.symm⟩
  rcases hcases with ⟨hresult, hasked, -⟩ | ⟨d', e, hresult, hasked, -, hfind, hd'⟩
  · have hwatches : Watches past c d ↔ Knows new d := by
      rw [Watches, hasked]
      exact ⟨fun ⟨d', hd', he, _⟩ => ⟨d', hd', he⟩, fun ⟨d', hd', he⟩ => ⟨d', hd', he, (hnew d' hd').1⟩⟩
    have hrefuses : ¬ Refuses past c d := by
      rintro ⟨_, _, _, _, h⟩
      rw [hresult] at h
      cases h
    rw [hasked, hwatches, or_iff_left hrefuses]
    exact ⟨Iff.rfl, fun h => hrefuses h.2, hfresh⟩
  · have hwatches : Watches past c d ↔ Knows new d := by
      rw [Watches, hasked]
      constructor
      · rintro ⟨d₁, hd₁, he, hthere⟩
        rcases List.mem_append.1 hd₁ with hd₁ | hd₁
        · exact ⟨d₁, hd₁, he⟩
        · rw [List.mem_singleton.1 hd₁, Tree.exists?, hfind] at hthere
          cases hthere
      · rintro ⟨d₁, hd₁, he⟩
        exact ⟨d₁, List.mem_append_left _ hd₁, he, (hnew d₁ hd₁).1⟩
    have hrefuses : Refuses past c d ↔ d'.spelled = d.spelled := by
      rw [Refuses, hresult, hasked]
      constructor
      · rintro ⟨d₁, hd₁, he, e', h⟩
        rcases List.mem_append.1 hd₁ with hd₁ | hd₁
        · -- two spellings can be looked for in one place, but there the call found something
          have hthere := (hnew d₁ hd₁).1
          have hplace : c.resolve d' = c.resolve d₁ := by injection h with h; injection h
          rw [← hplace, Tree.exists?, hfind] at hthere
          cases hthere
        · rwa [← List.mem_singleton.1 hd₁]
      · exact fun he => ⟨d', List.mem_append_right _ (List.mem_singleton_self d'), he, e, rfl⟩
    rw [hasked, knows_append, knows_singleton, hwatches, hrefuses]
    refine ⟨Iff.rfl, ?_, ?_⟩
    · rintro ⟨⟨d₁, hd₁, he₁⟩, he⟩
      exact hd' (knows_append.2 (.inr ⟨d₁, hd₁, he₁.trans he.symm⟩))
    · rintro (h | he) hknown
      · exact hfresh h hknown
      · obtain ⟨d₀, hd₀, he₀⟩ := hknown
        exact hd' (knows_append.2 (.inl ⟨d₀, hd₀, he₀.trans he.symm⟩))

/-- A call that succeeds has asked for the directories of all its files, or a call before it has. -/
theorem covers_of_ok (h : result past c = .ok ()) :
    Covers (after (past ++ [c])).directories (after (past ++ [c])).files := by
  obtain ⟨new, -, ⟨-, -, -, hcovers⟩ | ⟨d, e, hresult, -⟩⟩ := call_cases past c
  · exact hcovers
  · rw [h] at hresult
    cases hresult

/-- What happened in some of the calls happened before the last or in it. -/
theorem exists_call_concat {P : List Call → Call → Prop} :
    (∃ past' c', past' ++ [c'] <+: past ++ [c] ∧ P past' c') ↔
      (∃ past' c', past' ++ [c'] <+: past ∧ P past' c') ∨ P past c := by
  constructor
  · rintro ⟨past', c', hprefix, h⟩
    rcases List.prefix_concat_iff.1 hprefix with he | hprefix
    · obtain ⟨rfl, hc⟩ := List.append_inj' he rfl
      rw [List.singleton_inj.1 hc] at h
      exact .inr h
    · exact .inl ⟨past', c', hprefix, h⟩
  · rintro (⟨past', c', hprefix, h⟩ | h)
    · exact ⟨past', c', hprefix.trans (List.prefix_append _ _), h⟩
    · exact ⟨past, c, List.prefix_rfl, h⟩

theorem watched_concat : Watched (past ++ [c]) d ↔
    Watched past d ∨ Watches past c d :=
  exists_call_concat

theorem refused_concat : Refused (past ++ [c]) d ↔
    Refused past d ∨ Refuses past c d :=
  exists_call_concat

theorem Refused.append (h : Refused past d) (later : List Call) : Refused (past ++ later) d := by
  obtain ⟨past', c', hprefix, hfail⟩ := h
  exact ⟨past', c', hprefix.trans (List.prefix_append _ _), hfail⟩

/-- The directories that have been asked for are watched or have been refused, and none is both. -/
theorem knows_after (calls : List Call) (d : Path) :
    (Knows (after calls).directories d ↔ Watched calls d ∨ Refused calls d) ∧
      ¬ (Watched calls d ∧ Refused calls d) := by
  induction calls using List.reverseRecOn with
  | nil =>
      have hnone : ∀ (past : List Call) (c : Call), ¬ past ++ [c] <+: [] := by
        simp
      simp [Knows, Watched, Refused, hnone, after, empty]
  | append_singleton past c ih =>
      obtain ⟨hknows, hboth⟩ := ih
      obtain ⟨hasked, hone, hfresh⟩ := knows_asked past c d
      rw [directories_after, knows_append, watched_concat, refused_concat, hknows, hasked]
      rw [hknows, hasked] at hfresh
      refine ⟨or_or_or_comm, ?_⟩
      rintro ⟨hw | hw, hr | hr⟩
      · exact hboth ⟨hw, hr⟩
      · exact hfresh (.inr hr) (.inl hw)
      · exact hfresh (.inl hw) (.inr hr)
      · exact hone ⟨hw, hr⟩

/-- A directory that has been refused is not watched, whatever is tracked later. -/
theorem not_watched_of_refused (h : Refused past d) (later : List Call) :
    ¬ Watched (past ++ later) d :=
  fun hw => (knows_after (past ++ later) d).2 ⟨hw, h.append later⟩

/-- A directory that has been refused is not asked for again. A call that succeeds has all its files
watched exactly if none of their directories has been refused before. -/
theorem watched_iff_not_refused (h : result past c = .ok ()) :
    (∀ d, Refused past d → ¬ Knows (asked past c) d) ∧
      ((∀ p ∈ (after (past ++ [c])).files, ∀ d, p.parent? = some d → Watched (past ++ [c]) d) ↔
        ∀ p ∈ (after (past ++ [c])).files, ∀ d, p.parent? = some d → ¬ Refused past d) := by
  refine ⟨fun d hr hasked => ?_, fun hw p hp d hd hr => ?_, fun hr p hp d hd => ?_⟩
  · exact (knows_asked past c d).2.2 hasked ((knows_after past d).1.2 (.inr hr))
  · exact not_watched_of_refused hr [c] (hw p hp d hd)
  · have hknown := (knows_after (past ++ [c]) d).1.1 (covers_of_ok h p hp d hd)
    rw [refused_concat] at hknown
    rcases hknown with hw | hrefused | ⟨_, _, _, _, hfail⟩
    · exact hw
    · exact absurd hrefused (hr p hp d hd)
    · rw [h] at hfail
      cases hfail

/-- A relative file whose directory is not in the working directory is refused there. Another one, whose
directory is there, is watched in a later call. -/
theorem watched_iff_not_refused_plain :
    let t := ((∅ : Tree).put ["w"] .directory).put ["w", "src"] .directory
    let before : Call := ⟨t, ⟨"/w"⟩, [⟨"late/b.html"⟩]⟩
    let c : Call := ⟨t, ⟨"/w"⟩, [⟨"src/a.html"⟩]⟩
    result [] before = .error (.watch ⟨"/w/late"⟩ .notFound) ∧ result [before] c = .ok () ∧
      (after [before, c]).files = [⟨"/w/src/a.html"⟩] ∧
      (∀ d, Refused [before] d → ¬ Knows (asked [before] c) d) ∧
      ((∀ p ∈ (after [before, c]).files, ∀ d, p.parent? = some d → Watched [before, c] d) ↔
        ∀ p ∈ (after [before, c]).files, ∀ d, p.parent? = some d → ¬ Refused [before] d) := by
  intro t before c
  have h : result [before] c = .ok () := by decide +kernel
  exact ⟨by decide +kernel, h, by decide +kernel, watched_iff_not_refused h⟩

/-- A directory is made after a call has failed at it. The next call succeeds without watching it. -/
theorem not_watched_after_failure :
    let file : Path := ⟨"/late/a.html"⟩
    let before : Call := ⟨∅, ⟨"/"⟩, [file]⟩
    let call : Call := ⟨(∅ : Tree).put ["late"] .directory, ⟨"/"⟩, [file]⟩
    result [before] call = .ok () ∧ call.tree.exists? ⟨"/late"⟩ ∧
      ¬ ∀ p ∈ (after [before, call]).files, ∀ d, p.parent? = some d → Watched [before, call] d := by
  intro file before call
  refine ⟨by decide +kernel, by decide +kernel, fun hw => ?_⟩
  have hrefused : Refused [before] ⟨"/late"⟩ :=
    ⟨[], before, List.prefix_rfl, ⟨"/late"⟩, by decide +kernel, rfl, .notFound, by decide +kernel⟩
  exact not_watched_of_refused hrefused [call]
    (hw file (by decide +kernel) ⟨"/late"⟩ (by decide +kernel))

end Watcher

end UtilityCss
