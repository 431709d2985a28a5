import UtilityCss.Proofs.Text.Between
import UtilityCss.Sheet
import Mathlib.Data.List.Forall2

/-!
# Texts stripped of comments

What a markup comment holds has no influence: the first pass cuts it out with both of its tags
(`cut_commented`), so neither the stripped text nor the sheet depends on it
(`comment_has_no_influence`).

The last pass goes line by line and keeps the head of each line (`splitOn_cutLineComments`,
`cutLineComments_prefix`), and it leaves no `//` but behind a `:` (`slashesFollow_cutLineComments`). So
stripping removes every line comment, and with it nothing but ends of lines (`strip_only_deletes`).

A text is kept as it is exactly if it has no comment of any kind (`strip_eq_self_iff`). An address keeps
its two slashes, since they stand behind a `:`; of three slashes the last two do not, and are taken for
a comment (`strip_addresses_iff`).
-/

namespace UtilityCss.Markup
open Text

variable {p : LinePlace} {s : List Char} {b : Option Char} {c : Char}

/-! ### Markup comments -/

/-- A text with a markup comment in it. -/
def commented (before hidden after : String) : String :=
  before ++ "<!--" ++ hidden ++ "-->" ++ after

section

variable {before hidden hidden' : String}

/-- A markup comment is cut out with all that it holds. -/
theorem cut_commented (hbefore : ¬ "<!--".toList <:+: before.toList)
    (hhidden : ¬ "-->".toList <:+: hidden.toList) (after : String) :
    markupComment.cut (commented before hidden after).toList =
      before.toList ++ markupComment.cut after.toList := by
  have hopen : Unbordered "<!--".toList := by decide
  have hclose : Unbordered "-->".toList := by decide
  have htext : (commented before hidden after).toList =
      before.toList ++ ("<!--".toList ++ (hidden.toList ++ ("-->".toList ++ after.toList))) := by
    simp only [commented, String.toList_append, List.append_assoc]
  rw [htext]
  exact Passage.cut_between hopen hclose (by decide) hbefore hhidden after.toList

/-- **What a markup comment holds has no influence**, neither on the stripped text nor on the sheet that
is made of it. -/
theorem comment_has_no_influence (hbefore : ¬ "<!--".toList <:+: before.toList)
    (hhidden : ¬ "-->".toList <:+: hidden.toList) (hhidden' : ¬ "-->".toList <:+: hidden'.toList)
    (after : String) :
    strip (commented before hidden after) = strip (commented before hidden' after) ∧
      Sheet.ofText (commented before hidden after) false =
        Sheet.ofText (commented before hidden' after) false := by
  have hsame : strip (commented before hidden after) = strip (commented before hidden' after) := by
    simp only [strip, stripChars, cut_commented hbefore hhidden, cut_commented hbefore hhidden']
  refine ⟨hsame, ?_⟩
  simp only [Sheet.ofText, Bool.false_eq_true, if_false, hsame]

/-- A comment that begins comments of every kind and ends in hyphens, in a text that begins one as well. -/
theorem comment_has_no_influence_tangled :
    let before := "<!-<p class='flex'>/"
    let hidden := "> class=\"grid\" /* // <!-- --"
    let after := "* d-[block] */<!-- --><b class='p-[4px]'>-->"
    strip (commented before hidden after) = strip (commented before "" after) ∧
      Sheet.ofText (commented before hidden after) false =
        Sheet.ofText (commented before "" after) false ∧
      strip (commented before hidden after) = "<!-<p class='flex'><b class='p-[4px]'>-->" := by
  intro before hidden after
  have hbefore : ¬ "<!--".toList <:+: before.toList := by decide
  have hhidden : ¬ "-->".toList <:+: hidden.toList := by decide
  have hnone : ¬ "-->".toList <:+: "".toList := by decide
  obtain ⟨hstrip, hsheet⟩ := comment_has_no_influence hbefore hhidden hnone after
  refine ⟨hstrip, hsheet, ?_⟩
  decide +kernel

end

/-! ### Lines -/

/-- A scan begins anew at the end of a line. -/
theorem cutLineComments_append (p : LinePlace) (l s : List Char) :
    cutLineComments p (l ++ '\n' :: s) =
      cutLineComments p l ++ '\n' :: cutLineComments .outside s := by
  have hhead : ∀ l : List Char, (l ++ '\n' :: s).head? = some '/' ↔ l.head? = some '/' := by
    intro l
    cases l <;> simp
  fun_induction cutLineComments p l with
  | case1 p => cases p <;> simp [cutLineComments, LinePlace.after]
  | case2 c l h ih => simp only [List.cons_append, cutLineComments, hhead, h, and_self, if_true, ih]
  | case3 c l h ih => simp only [List.cons_append, cutLineComments, hhead, h, if_false, ih]
  | case4 c l ih => simp only [List.cons_append, cutLineComments, ih]
  | case5 l ih => simp only [List.cons_append, cutLineComments, if_true, ih]
  | case6 c l h ih => simp only [List.cons_append, cutLineComments, h, if_false, ih]

/-- A text is scanned line by line. -/
theorem splitOn_cutLineComments (s : List Char) :
    (cutLineComments .outside s).splitOn '\n' =
      (s.splitOn '\n').map (cutLineComments .outside) := by
  have hrow : ∀ ls : List (List Char), ls ≠ [] → cutLineComments .outside (['\n'].intercalate ls) =
      ['\n'].intercalate (ls.map (cutLineComments .outside)) := by
    intro ls hne
    induction ls with
    | nil => exact absurd rfl hne
    | cons l ls ih =>
        cases ls with
        | nil => simp
        | cons l' ls =>
            simp only [List.intercalate_cons_cons, List.map_cons, List.append_assoc,
              List.singleton_append, cutLineComments_append] at ih ⊢
            rw [ih (List.cons_ne_nil l' ls)]
  have hne : s.splitOn '\n' ≠ [] := List.splitOn_ne_nil _ _
  have hlines := hrow _ hne
  rw [List.intercalate_splitOn] at hlines
  rw [hlines, List.splitOn_intercalate]
  · intro l hl
    obtain ⟨line, hline, rfl⟩ := List.mem_map.1 hl
    exact fun hmem => not_mem_of_mem_splitOn hline ((cutLineComments_sublist _ line).subset hmem)
  · simp

/-- Nothing is kept of a comment before the end of its line. -/
theorem cutLineComments_comment (hs : '\n' ∉ s) : cutLineComments .comment s = [] := by
  induction s with
  | nil => rfl
  | cons c s ih =>
      have hc : c ≠ '\n' := fun e => hs (e ▸ List.mem_cons_self)
      rw [cutLineComments, if_neg hc, ih fun h => hs (List.mem_cons_of_mem c h)]

/-- On one line, what stands before the comment is kept. -/
theorem cutLineComments_prefix (p : LinePlace) (hs : '\n' ∉ s) : cutLineComments p s <+: s := by
  have htail : ∀ {c : Char} {s : List Char}, '\n' ∉ c :: s → '\n' ∉ s :=
    fun hs h => hs (List.mem_cons_of_mem _ h)
  fun_induction cutLineComments p s with
  | case1 => exact List.nil_prefix
  | case2 c s h ih =>
      rw [cutLineComments_comment (htail hs)]
      exact List.nil_prefix
  | case3 c s h ih => exact List.cons_prefix_cons.2 ⟨rfl, ih (htail hs)⟩
  | case4 c s ih => exact List.cons_prefix_cons.2 ⟨rfl, ih (htail hs)⟩
  | case5 s ih => exact absurd List.mem_cons_self hs
  | case6 c s h ih =>
      rw [cutLineComments_comment (htail hs)]
      exact List.nil_prefix

/-- No end of a line is cut out. -/
theorem count_cutLineComments (p : LinePlace) (s : List Char) :
    (cutLineComments p s).count '\n' = s.count '\n' := by
  fun_induction cutLineComments p s with
  | case1 => rfl
  | case2 c s h ih => simp [ih, h.1]
  | case3 c s h ih => simp [List.count_cons, ih]
  | case4 c s ih => simp [List.count_cons, ih]
  | case5 s ih => simp [ih]
  | case6 c s h ih => simp [ih, h]

/-! ### Slashes -/

/-- Every `//` in a text stands right behind one of the characters `allowed`, where `b` is the character
before the text, if there is one. -/
def SlashesFollow (allowed : List Char) (b : Option Char) (s : List Char) : Prop :=
  ∀ l r, s = l ++ '/' :: '/' :: r → ∃ a ∈ allowed, l.getLast?.or b = some a

namespace SlashesFollow

variable {allowed : List Char}

theorem nil (allowed : List Char) (b : Option Char) : SlashesFollow allowed b [] := by
  intro l r h
  simp at h

theorem cons_iff : SlashesFollow allowed b (c :: s) ↔
    (c = '/' → s.head? = some '/' → ∃ a ∈ allowed, b = some a) ∧
      SlashesFollow allowed (some c) s := by
  constructor
  · intro h
    constructor
    · rintro rfl hs
      obtain ⟨r, rfl⟩ := List.head?_eq_some_iff.1 hs
      exact h [] r rfl
    · rintro l r rfl
      have hlast := h (c :: l) r rfl
      rwa [List.getLast?_cons, Option.some_or, ← Option.or_some] at hlast
  · rintro ⟨hhead, hlater⟩ l r h
    cases l with
    | nil =>
        obtain ⟨rfl, rfl⟩ := List.cons.inj h
        exact hhead rfl rfl
    | cons d l =>
        obtain ⟨rfl, rfl⟩ := List.cons.inj h
        rw [List.getLast?_cons, Option.some_or, ← Option.or_some]
        exact hlater l r rfl

instance decidable (allowed : List Char) : (b : Option Char) → (s : List Char) →
    Decidable (SlashesFollow allowed b s)
  | _, []     => isTrue (nil allowed _)
  | b, c :: s =>
    have := decidable allowed (some c) s
    have : Decidable (∃ a ∈ allowed, b = some a) := List.decidableBEx _ allowed
    decidable_of_iff _ cons_iff.symm

end SlashesFollow

/-- A scan that is not in a comment keeps the character that it comes to, but for a slash. -/
theorem head?_cutLineComments (hp : p ≠ .comment) (h : (cutLineComments p s).head? = some '/') :
    s.head? = some '/' := by
  cases s with
  | nil => simp [cutLineComments] at h
  | cons c s =>
      cases p with
      | outside =>
          rw [cutLineComments] at h
          split at h
          · rename_i hc
            rw [hc.1]
            rfl
          · exact h
      | afterColon => exact h
      | comment => exact absurd rfl hp

theorem after_eq_afterColon_iff : LinePlace.after c = .afterColon ↔ c = ':' := by
  unfold LinePlace.after
  split <;> simp_all

theorem after_ne_comment (c : Char) : LinePlace.after c ≠ .comment := by
  unfold LinePlace.after
  split <;> simp

/-- A scan leaves no `//` but behind a `:`. -/
theorem slashesFollow_cutLineComments (hp : p = .afterColon → b = some ':') :
    SlashesFollow [':'] b (cutLineComments p s) := by
  -- the place knows of the character that was kept last only whether it is a `:`
  fun_induction cutLineComments p s generalizing b with
  | case1 => exact .nil _ _
  | case2 c s h ih => exact ih fun hc => absurd hc (by decide)
  | case3 c s h ih =>
      refine SlashesFollow.cons_iff.2 ⟨fun hc hhead => ?_, ih ?_⟩
      · exact absurd ⟨hc, head?_cutLineComments (after_ne_comment c) hhead⟩ h
      · exact fun hc => congrArg some (after_eq_afterColon_iff.1 hc)
  | case4 c s ih =>
      refine SlashesFollow.cons_iff.2 ⟨fun _ _ => ⟨':', List.mem_cons_self, hp rfl⟩, ih ?_⟩
      exact fun hc => congrArg some (after_eq_afterColon_iff.1 hc)
  | case5 s ih =>
      refine SlashesFollow.cons_iff.2 ⟨fun hc => absurd hc (by decide), ih fun hc => ?_⟩
      exact absurd hc (by decide)
  | case6 c s h ih => exact ih fun hc => absurd hc (by decide)

theorem slashesFollow_outside (s : List Char) :
    SlashesFollow [':'] none (cutLineComments .outside s) :=
  slashesFollow_cutLineComments fun hp => absurd hp (by decide)

/-- Where every `//` stands behind a `:` already, a scan keeps the text. -/
theorem cutLineComments_eq_self (h : SlashesFollow [':'] b s)
    (hp : p = .afterColon ∨ p = .outside ∧ b ≠ some ':') : cutLineComments p s = s := by
  have hafter : ∀ c, LinePlace.after c = .afterColon ∨
      LinePlace.after c = .outside ∧ some c ≠ some ':' := by
    intro c
    unfold LinePlace.after
    split
    · exact .inl rfl
    · rename_i hc
      exact .inr ⟨rfl, fun e => hc (Option.some.inj e)⟩
  fun_induction cutLineComments p s generalizing b with
  | case1 => rfl
  | case2 c s hc ih =>
      obtain ⟨a, ha, rfl⟩ := (SlashesFollow.cons_iff.1 h).1 hc.1 hc.2
      rw [List.mem_singleton] at ha
      simp [ha] at hp
  | case3 c s hc ih => rw [ih (SlashesFollow.cons_iff.1 h).2 (hafter c)]
  | case4 c s ih => rw [ih (SlashesFollow.cons_iff.1 h).2 (hafter c)]
  | case5 s ih => simp at hp
  | case6 c s hc ih => simp at hp

theorem cutLineComments_eq_self_iff : cutLineComments .outside s = s ↔ SlashesFollow [':'] none s := by
  constructor
  · intro h
    rw [← h]
    exact slashesFollow_outside s
  · exact fun h => cutLineComments_eq_self h (.inr ⟨rfl, by simp⟩)

/-! ### Stripped texts -/

/-- Stripping keeps a text exactly if each of its passes does. -/
theorem stripChars_eq_self_iff : stripChars s = s ↔
    markupComment.cut s = s ∧ blockComment.cut s = s ∧ cutLineComments .outside s = s := by
  constructor
  · intro h
    -- no pass makes a text longer, so none makes it shorter here
    have hmarkup := markupComment.cut_sublist s
    have hblock := blockComment.cut_sublist (markupComment.cut s)
    have hline := cutLineComments_sublist .outside (blockComment.cut (markupComment.cut s))
    have hlength : (cutLineComments .outside (blockComment.cut (markupComment.cut s))).length =
      s.length := congrArg List.length h
    have hkept : markupComment.cut s = s :=
      hmarkup.eq_of_length_le (hlength ▸ hline.length_le.trans hblock.length_le)
    rw [hkept] at hblock hline hlength
    have hkept' : blockComment.cut s = s := hblock.eq_of_length_le (hlength ▸ hline.length_le)
    rw [hkept'] at hline hlength
    exact ⟨hkept, hkept', hline.eq_of_length hlength⟩
  · rintro ⟨hmarkup, hblock, hline⟩
    rw [stripChars, hmarkup, hblock, hline]

/-- A text is kept exactly if it holds no comment of any kind. -/
theorem strip_eq_self_iff {text : String} : strip text = text ↔
    ¬ Encloses "<!--".toList "-->".toList text.toList ∧
      ¬ Encloses "/*".toList "*/".toList text.toList ∧ SlashesFollow [':'] none text.toList := by
  rw [← Passage.cut_between_eq_self_iff (h := by decide), ← Passage.cut_between_eq_self_iff (h := by decide),
    ← cutLineComments_eq_self_iff, strip, ← String.toList_inj, String.toList_ofList]
  exact stripChars_eq_self_iff

/-- **Stripping only deletes, and it removes every line comment**: what is left holds no `//` but behind
a `:`. In a text without markup comments and block comments it keeps every line, as far as its head. -/
theorem strip_only_deletes (text : String) :
    (strip text).toList.Sublist text.toList ∧
    (∀ l r, (strip text).toList = l ++ ("//".toList ++ r) → l.getLast? = some ':') ∧
    (¬ Encloses "<!--".toList "-->".toList text.toList →
      ¬ Encloses "/*".toList "*/".toList text.toList →
        (strip text).toList.count '\n' = text.toList.count '\n' ∧
        List.Forall₂ (· <+: ·) ((strip text).toList.splitOn '\n') (text.toList.splitOn '\n')) := by
  refine ⟨strip_sublist text, fun l r h => ?_, fun hmarkup hblock => ?_⟩
  · rw [strip, String.toList_ofList, stripChars] at h
    obtain ⟨a, ha, hlast⟩ := slashesFollow_outside _ l r h
    rw [List.mem_singleton.1 ha, Option.or_none] at hlast
    exact hlast
  · have hkept : (strip text).toList = cutLineComments .outside text.toList := by
      have hmarkup : markupComment.cut text.toList = text.toList :=
        Passage.cut_between_eq_self_iff.2 hmarkup
      have hblock : blockComment.cut text.toList = text.toList :=
        Passage.cut_between_eq_self_iff.2 hblock
      rw [strip, String.toList_ofList, stripChars, hmarkup, hblock]
    rw [hkept, splitOn_cutLineComments, List.forall₂_map_left_iff, List.forall₂_same]
    exact ⟨count_cutLineComments .outside text.toList,
      fun line hline => cutLineComments_prefix .outside (not_mem_of_mem_splitOn hline)⟩

/-- Comments on lines one after another, behind slashes, an address and tags without their counterparts. -/
theorem strip_only_deletes_lines :
    let text := "//a\n///b\nhttp://c/ d//e\n:////f\n--> <!-- */ g /* // h\n\n//"
    (strip text).toList = "\n\nhttp://c/ d\n:/\n--> <!-- */ g /* \n\n".toList ∧
      (strip text).toList.count '\n' = text.toList.count '\n' ∧
      List.Forall₂ (· <+: ·) ((strip text).toList.splitOn '\n') (text.toList.splitOn '\n') := by
  intro text
  have hmarkup : markupComment.cut text.toList = text.toList := by decide +kernel
  have hblock : blockComment.cut text.toList = text.toList := by decide +kernel
  obtain ⟨-, -, hlines⟩ := strip_only_deletes text
  exact ⟨by decide +kernel, hlines (Passage.cut_between_eq_self_iff.1 hmarkup)
    (Passage.cut_between_eq_self_iff.1 hblock)⟩

/-! ### Addresses -/

/-- Every longest run of two or more slashes stands right behind a `:`. -/
def RunsFollowColon (s : List Char) : Prop :=
  ∀ l n r, s = l ++ (List.replicate n '/' ++ r) → 2 ≤ n → l.getLast? ≠ some '/' →
    r.head? ≠ some '/' → l.getLast? = some ':'

/-- A `//` stands behind a `:` or within a run, which begins behind one. -/
theorem runsFollowColon_iff : RunsFollowColon s ↔ SlashesFollow [':', '/'] none s := by
  constructor
  · intro h l r hs
    by_cases hl : l.getLast? = some '/'
    · exact ⟨'/', by simp, by rw [Option.or_none, hl]⟩
    · -- the run begins here, and it goes on as long as there are slashes
      have hrun : r.takeWhile (· = '/') = List.replicate (r.takeWhile (· = '/')).length '/' :=
        List.eq_replicate_iff.2 ⟨rfl, fun c hc => by simpa using List.mem_takeWhile_imp hc⟩
      have hsplit : s = l ++ (List.replicate ((r.takeWhile (· = '/')).length + 2) '/' ++
          r.dropWhile (· = '/')) := by
        rw [List.replicate_succ, List.replicate_succ, ← hrun, hs]
        simp
      have hend : (r.dropWhile (· = '/')).head? ≠ some '/' := by
        intro hhead
        simpa [hhead] using List.head?_dropWhile_not (· = '/') r
      refine ⟨':', by simp, ?_⟩
      rw [Option.or_none]
      exact h l _ _ hsplit (by omega) hl hend
  · rintro h l (_ | _ | n) r hs hn hl -
    · omega
    · omega
    · obtain ⟨a, ha, hlast⟩ := h l (List.replicate n '/' ++ r) (by rw [hs]; rfl)
      rw [Option.or_none] at hlast
      rw [List.mem_pair] at ha
      rcases ha with rfl | rfl
      · exact hlast
      · exact absurd hlast hl

instance (s : List Char) : Decidable (RunsFollowColon s) := decidable_of_iff _ runsFollowColon_iff.symm

/-- **Addresses are kept if their slashes are two.** In a text without markup comments and block comments
whose runs of slashes stand behind a `:`, stripping takes a run for a comment exactly if it holds a third
slash: the second one stands behind a slash, not behind the `:`. -/
theorem strip_addresses_iff {text : String} (hmarkup : ¬ "<!--".toList <:+: text.toList)
    (hblock : ¬ "/*".toList <:+: text.toList) (hruns : RunsFollowColon text.toList) :
    strip text = text ↔ ¬ "///".toList <:+: text.toList := by
  rw [strip_eq_self_iff, and_iff_right (not_encloses hmarkup),
    and_iff_right (not_encloses hblock)]
  constructor
  · rintro h ⟨l, r, hs⟩
    have hthird : text.toList = (l ++ ['/']) ++ '/' :: '/' :: r := by
      rw [← hs]
      simp
    obtain ⟨a, ha, hlast⟩ := h _ r hthird
    simp_all
  · intro hthird l r hs
    obtain ⟨a, ha, hlast⟩ := runsFollowColon_iff.1 hruns l r hs
    rw [List.mem_pair] at ha
    rcases ha with rfl | rfl
    · exact ⟨':', List.mem_cons_self, hlast⟩
    · rw [Option.or_none] at hlast
      obtain ⟨l, rfl⟩ := List.getLast?_eq_some_iff.1 hlast
      refine absurd ⟨l, r, ?_⟩ hthird
      rw [hs]
      simp

/-- Addresses of several schemes, with single slashes and ends of lines among them. -/
theorem strip_addresses_iff_schemes :
    let text := "<a href='https://host/a/b'>http://x\n/ws://</a> :/ y"
    ¬ "///".toList <:+: text.toList ∧ strip text = text := by
  intro text
  have hthird : ¬ "///".toList <:+: text.toList := by decide
  exact ⟨hthird, (strip_addresses_iff (by decide) (by decide) (by decide)).2 hthird⟩

/-- The address of a file loses its path. -/
theorem strip_ne_self_of_file :
    let text := "file:///path"
    ¬ "<!--".toList <:+: text.toList ∧ ¬ "/*".toList <:+: text.toList ∧ RunsFollowColon text.toList ∧
      strip text = "file:/" ∧ strip text ≠ text := by
  decide +kernel

end UtilityCss.Markup
