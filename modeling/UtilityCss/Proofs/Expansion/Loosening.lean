import UtilityCss.Proofs.Expansion.Mode
import UtilityCss.Proofs.Expansion.Outcome
import UtilityCss.Proofs.Utility.Variants
import Mathlib.Data.List.Forall2

/-!
# Variants that are enlarged

A utility whose variants are enlarged lets every token through that it let through before
(`Variants.Enlarged.allows`), so a token asks for what it asked for, or it was refused before
(`Loosened.request_eq_or_refused`). Parts that were refused may now be expanded, and their parts in
turn, until a cycle is cut; but the open names of a part are those of the utilities around it, which do
not depend on what becomes of the parts beside it. So a part that had a text is met with the same open
names and has one again, by induction on the expansion before (`keeps_declarationsIn`), and a utility
has the texts of its parts with the new ones between (`sublist_intercalate`). No rule is lost, and
nothing of its text (`loosening_keeps_rules`).
-/

namespace UtilityCss

/-! ### Variants -/

namespace Variants

variable {v v' : Variants} {names names' : List String} {name : String} {media pseudo : Option String}

/-- Variants that are enlarged: by names, or to all. -/
inductive Enlarged : Variants → Variants → Prop where
  | ofNames {names names' : List String} (h : names ⊆ names') :
      Enlarged (.ofNames names) (.ofNames names')
  | only {m m' : OrderedMap String Unit} (h : m.keys ⊆ m'.keys) : Enlarged (.only m) (.only m')
  | all (v : Variants) : Enlarged v .all

/-- Variants that allow every name of others let through what these let through. -/
theorem allows_of_allowsName (hv : v ≠ .all) (h : ∀ name, v.allowsName name → v'.allowsName name)
    (ha : v.allows media pseudo) : v'.allows media pseudo := by
  rw [allows_of_ne_all hv, Bool.or_eq_true, Option.any_eq_true, Option.any_eq_true] at ha
  by_cases hv' : v' = .all
  · rw [hv', allows]
  · rw [allows_of_ne_all hv', Bool.or_eq_true, Option.any_eq_true, Option.any_eq_true]
    exact ha.imp (Exists.imp fun m => And.imp_right (h m)) (Exists.imp fun p => And.imp_right (h p))

/-- Enlarged variants let through what was let through before. -/
theorem Enlarged.allows (h : v.Enlarged v') (ha : v.allows media pseudo) : v'.allows media pseudo := by
  cases h with
  | all v => rfl
  | @only m m' h =>
      have hlist : Variants.only m ≠ .all := Variants.noConfusion
      refine allows_of_allowsName hlist (fun name hname => ?_) ha
      exact OrderedMap.contains_iff.2 (h (OrderedMap.contains_iff.1 hname))
  | @ofNames names names' h =>
      by_cases hstar' : "*" ∈ names'
      · rw [ofNames_of_star hstar']
        rfl
      · have hstar : "*" ∉ names := fun hmem => hstar' (h hmem)
        refine allows_of_allowsName (ofNames_ne_all hstar) (fun name hname => ?_) ha
        rw [allowsName_ofNames hstar] at hname
        exact (allowsName_ofNames hstar').2 (h hname)

end Variants

/-- The same utility, with its variants kept or enlarged. -/
structure Utility.Enlarged (u u' : Utility) : Prop where
  styles   : u'.styles = u.styles
  variants : u'.variants = u.variants ∨ u.variants.Enlarged u'.variants

theorem Utility.Enlarged.admits {u u' : Utility} {t : Token} (h : u.Enlarged u') (ha : u.admits t) :
    u'.admits t := by
  rw [Utility.admits, Bool.or_eq_true] at ha ⊢
  rcases h.variants with e | he
  · rwa [e]
  · exact ha.imp_right he.allows

/-! ### Texts with other texts between -/

theorem Text.sublist_intercalate {l l' : List String}
    (h : List.SublistForall₂ (fun s t => s.toList.Sublist t.toList) l l') :
    (" ".intercalate l).toList.Sublist (" ".intercalate l').toList := by
  induction h with
  | nil => exact List.nil_sublist _
  | @cons s t l l' hs hl ih =>
      by_cases hn : l = []
      · subst hn
        rw [String.intercalate_singleton]
        by_cases hn' : l' = []
        · rwa [hn', String.intercalate_singleton]
        · rw [String.intercalate_cons_of_ne_nil hn', String.toList_append, String.toList_append,
            List.append_assoc]
          exact hs.trans (List.sublist_append_left _ _)
      · have hn' : l' ≠ [] := by
          rintro rfl
          cases hl
          exact hn rfl
        rw [String.intercalate_cons_of_ne_nil hn, String.intercalate_cons_of_ne_nil hn',
          String.toList_append, String.toList_append, String.toList_append, String.toList_append]
        exact (hs.append (List.Sublist.refl _)).append ih
  | @cons_right t l l' _ ih =>
      by_cases hn' : l' = []
      · subst hn'
        exact ih.trans (List.nil_sublist _)
      · rw [String.intercalate_cons_of_ne_nil hn', String.toList_append]
        exact ih.trans (List.sublist_append_right _ _)

namespace Compiler

variable {c c' : Compiler} {token : String} {tokens : List String} {found : List Diagnostic}
  {r r' : Compiled}

/-- The same configuration, but that some utilities have more variants. -/
structure Loosened (c c' : Compiler) : Prop where
  breakpoints : c'.breakpoints = c.breakpoints
  utilities : List.Forall₂ (fun e e' => e'.1 = e.1 ∧ e.2.Enlarged e'.2)
    c.registry.utilities.entries c'.registry.utilities.entries

/-! ### Requests -/

/-- What stands in the one registry under a name stands in the other, kept or enlarged. -/
theorem rel_find?_entries {l l' : List (String × Utility)}
    (h : List.Forall₂ (fun e e' => e'.1 = e.1 ∧ e.2.Enlarged e'.2) l l') (name : String) :
    Option.Rel Utility.Enlarged ((l.find? fun e => e.1 = name).map Prod.snd)
      ((l'.find? fun e => e.1 = name).map Prod.snd) := by
  induction h with
  | nil => exact .none
  | @cons e e' l l' he _ ih =>
      obtain ⟨hname, hutility⟩ := he
      by_cases hn : e.1 = name
      · simpa [hname, hn] using Option.Rel.some hutility
      · simpa [hname, hn] using ih

theorem Loosened.get? (h : c.Loosened c') (name : String) :
    Option.Rel Utility.Enlarged (c.registry.get? name) (c'.registry.get? name) :=
  rel_find?_entries h.utilities name

/-- A token asks for what it asked for before, or it was refused. -/
theorem Loosened.request_eq_or_refused (h : c.Loosened c') (token : String) :
    c'.request token = c.request token ∨ ∃ ds, c.request token = .settled ⟨none, ds⟩ := by
  have hget := h.get? (Token.parse c.breakpoints token).1.name
  simp only [request, h.breakpoints]
  generalize c.registry.get? (Token.parse c.breakpoints token).1.name = o at hget ⊢
  generalize c'.registry.get? (Token.parse c.breakpoints token).1.name = o' at hget ⊢
  cases hget with
  | none => exact .inl rfl
  | @some u u' hutility =>
      cases ha : u.admits (Token.parse c.breakpoints token).1 with
      | false => exact .inr ⟨_, if_pos (by rw [ha]; rfl)⟩
      | true =>
          left
          simp only [ha, hutility.admits ha, hutility.styles]

/-! ### Results -/

/-- Where the first result has a text, so has the second, with all of the first in it. -/
def Keeps (r r' : Compiled) : Prop :=
  ∀ css, r.css = some css → ∃ css', r'.css = some css' ∧ css.toList.Sublist css'.toList

theorem Keeps.refl (r : Compiled) : Keeps r r := fun css h => ⟨css, h, List.Sublist.refl _⟩

theorem keeps_of_none (h : r.css = none) : Keeps r r' := by
  intro css hcss
  cases h.symm.trans hcss

theorem sublistForall₂_texts {f g : String → Compiled} (h : ∀ part ∈ tokens, Keeps (f part) (g part)) :
    List.SublistForall₂ (fun s t => s.toList.Sublist t.toList) (texts (tokens.map f))
      (texts (tokens.map g)) := by
  induction tokens with
  | nil => exact .nil
  | cons part tokens ih =>
      have hrest := ih fun p hp => h p (List.mem_cons_of_mem part hp)
      simp only [texts, List.map_cons] at hrest ⊢
      cases hf : (f part).css with
      | some css =>
          obtain ⟨css', hg, hsub⟩ := h part List.mem_cons_self css hf
          rw [List.filterMap_cons_some hf, List.filterMap_cons_some hg]
          exact .cons hsub hrest
      | none =>
          rw [List.filterMap_cons_none hf]
          cases hg : (g part).css with
          | none => rwa [List.filterMap_cons_none hg]
          | some css' =>
              rw [List.filterMap_cons_some hg]
              exact .cons_right hrest

theorem keeps_assemble {f g : String → Compiled} (hf : ∀ t ∈ texts (tokens.map f), Terminated t)
    (hg : ∀ t ∈ texts (tokens.map g), Terminated t) (h : ∀ part ∈ tokens, Keeps (f part) (g part)) :
    Keeps (assemble token found (tokens.map f)) (assemble token found (tokens.map g)) := by
  have htexts := sublistForall₂_texts h
  rcases assemble_cases token found hf with ⟨-, e⟩ | ⟨hne, e⟩
  · exact keeps_of_none (by rw [e])
  · have hne' : texts (tokens.map g) ≠ [] := by
      intro hnil
      rw [hnil] at htexts
      generalize texts (tokens.map f) = l at htexts hne
      cases htexts
      exact hne rfl
    obtain ⟨hnil, -⟩ | ⟨-, e'⟩ := assemble_cases token found hg
    · exact absurd hnil hne'
    · rw [e, e']
      intro css hcss
      cases hcss
      exact ⟨_, rfl, Text.sublist_intercalate htexts⟩

theorem terminated_of_mem_texts {opened : List String} {t : String}
    (h : t ∈ texts (tokens.map (c.declarationsIn opened))) : Terminated t := by
  obtain ⟨q, hq, hcss⟩ := List.mem_filterMap.1 h
  obtain ⟨part, -, rfl⟩ := List.mem_map.1 hq
  exact (accounts opened part).terminated t hcss

/-- What a token expands to is kept, whatever names are open. -/
theorem keeps_declarationsIn (h : c.Loosened c') (opened : List String) (token : String) :
    Keeps (c.declarationsIn opened token) (c'.declarationsIn opened token) := by
  induction opened, token using expansion_induction (c := c) with
  | settled opened token r hr =>
      rw [declarationsIn_settled hr]
      rcases h.request_eq_or_refused token with e | ⟨ds, hrefused⟩
      · rw [declarationsIn_settled (e.trans hr)]
        exact Keeps.refl r
      · cases hr.symm.trans hrefused
        exact keeps_of_none rfl
  | cut opened token name tokens found hr ho =>
      rw [declarationsIn_cut hr ho]
      exact keeps_of_none rfl
  | parts opened token name tokens found hr ho ih =>
      rcases h.request_eq_or_refused token with e | ⟨ds, hrefused⟩
      · -- the names around each part are the same before and after
        rw [declarationsIn_parts hr ho, declarationsIn_parts (e.trans hr) ho]
        exact keeps_assemble (fun _ => terminated_of_mem_texts) (fun _ => terminated_of_mem_texts) ih
      · cases hr.symm.trans hrefused

theorem sublist_ruleText {pseudo : Option Pseudo} {css css' : String}
    (h : css.toList.Sublist css'.toList) :
    (ruleText token pseudo css).toList.Sublist (ruleText token pseudo css').toList := by
  simp only [ruleText, String.toList_append]
  exact (h.append_left _).append_right _

theorem sublist_wrap {css css' : String} (h : css.toList.Sublist css'.toList) :
    (c.wrap token css).toList.Sublist (c.wrap token css').toList := by
  cases hm : (Token.parse c.breakpoints token).1.media with
  | none =>
      rw [wrap_of_media_none hm, wrap_of_media_none hm]
      exact sublist_ruleText h
  | some m =>
      obtain ⟨w, hw⟩ := Token.get?_of_media hm
      rw [wrap_of_media hm hw, wrap_of_media hm hw]
      simp only [String.toList_append]
      exact ((sublist_ruleText h).append_left _).append_right _

/-- **Enlarging variants loses no rule.**  If some utilities may be used with more variants, or with all
of them, and all else is the same, then a token that compiled to a text still does, in either mode and
also where utilities lead back to themselves; and the text that it had is still there, with others
between its characters at most. -/
theorem loosening_keeps_rules (h : c.Loosened c') (token : String) (mode : EmitMode) {css : String}
    (hcss : (c.compile token mode).css = some css) :
    ∃ css', (c'.compile token mode).css = some css' ∧ css.toList.Sublist css'.toList := by
  rw [compile_css] at hcss ⊢
  obtain ⟨body, hbody, rfl⟩ := Option.map_eq_some_iff.1 hcss
  obtain ⟨body', hbody', hsub⟩ := keeps_declarationsIn h [] token body hbody
  refine ⟨c'.emit token mode body', by rw [hbody', Option.map_some], ?_⟩
  cases mode with
  | declarations => exact hsub
  | rule =>
      show (c.wrap token body).toList.Sublist (c'.wrap token body').toList
      have hwrap : c'.wrap token body' = c.wrap token body' := by rw [wrap, wrap, h.breakpoints]
      rw [hwrap]
      exact sublist_wrap hsub

/-- Two utilities that lead to each other behind modifiers, with variants of their own each, and one
that is never allowed behind a modifier. -/
def gated (v v' : Variants) : Compiler :=
  ((default.register [("card", .compose "md:panel hover:chip block")] v).register
    [("panel", .compose "md:card flex")] v').register [("chip", .compose "grid")] .none

theorem loosened_gated :
    (gated (.ofNames ["hover"]) (.ofNames [])).Loosened (gated (.ofNames ["md", "hover"]) .all) := by
  have hnames : (Variants.ofNames ["hover"]).Enlarged (.ofNames ["md", "hover"]) :=
    .ofNames (List.subset_cons_self _ _)
  exact ⟨rfl, .cons ⟨rfl, rfl, .inr hnames⟩ <| .cons ⟨rfl, rfl, .inr (.all _)⟩ <|
    .cons ⟨rfl, rfl, .inl rfl⟩ .nil⟩

/-- Once `md:panel` is let through, its part `md:card` is cut, but `card` keeps its block. -/
theorem loosening_keeps_rules_gated :
    ∃ css', ((gated (.ofNames ["md", "hover"]) .all).compile "hover:card" .rule).css = some css' ∧
      ".hover\\:card:hover \x7b display: block; \x7d".toList.Sublist css'.toList :=
  loosening_keeps_rules loosened_gated "hover:card" .rule (by decide +kernel)

end Compiler

end UtilityCss
