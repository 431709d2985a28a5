import UtilityCss.Proofs.Expansion.Request
import UtilityCss.Proofs.Markup.Head
import UtilityCss.Proofs.Rule.Written
import Mathlib.Data.List.Induction

/-!
# Declarations that stay in their rule

A text of declarations is read back as it was put together, if no property holds a colon and no value
a semicolon (`rowText_injective`), and also if a value holds a semicolon but no colon: what follows the
semicolon would be no declaration. So what a class is compiled to is a row of declarations with safe
values exactly if the value that it writes is safe, which can fail for math functions alone
(`Compiler.isConfined_iff_isSafe`).
-/

namespace UtilityCss
open Text Value

/-! ### Rows of declarations -/

/-- The tag at which a style block ends, as far as it must be read. -/
def styleEnd : List Char := "</style".toList

/-- The characters at which a declaration or a rule ends, or another rule begins. -/
def breaks : List Char := [';', '\x7b', '\x7d']

/-- A value that ends neither its declaration nor its rule nor the style block around it. -/
def IsSafe (value : String) : Prop :=
  (∀ c ∈ breaks, c ∉ value.toList) ∧ (afterLower? styleEnd value.toList).isSome = false

/-- A text is one or more declarations with safe values and single spaces between. -/
def IsConfined (css : String) : Prop :=
  ∃ ds : List (String × String), ds ≠ [] ∧ css = rowText ds ∧ ∀ d ∈ ds, IsPropertyName d.1 ∧ IsSafe d.2

variable {ds ds' : List (String × String)} {d : String × String} {css : String}

/-- What follows the first declaration of a row. -/
def afterFirst (ds : List (String × String)) : List Char :=
  if ds = [] then [] else ' ' :: (rowText ds).toList

theorem toList_rowText_cons (d : String × String) (ds : List (String × String)) :
    (rowText (d :: ds)).toList =
      d.1.toList ++ ':' :: ' ' :: (d.2.toList ++ ';' :: afterFirst ds) := by
  have htext : ∀ l, (declaration d.1 d.2).toList ++ l =
      d.1.toList ++ ':' :: ' ' :: (d.2.toList ++ ';' :: l) := by
    intro l
    have hcolon : (": " : String).toList = [':', ' '] := rfl
    have hend : (";" : String).toList = [';'] := rfl
    simp only [declaration, String.toList_append, hcolon, hend, List.append_assoc, List.cons_append,
      List.nil_append]
  rw [← htext, rowText, afterFirst, rowText, List.map_cons]
  by_cases hds : ds = []
  · rw [if_pos hds, hds, List.map_nil, String.intercalate_singleton, List.append_nil]
  · have hspace : (" " : String).toList = [' '] := rfl
    rw [if_neg hds, String.intercalate_cons_of_ne_nil (by simpa using hds), String.toList_append,
      String.toList_append, hspace, List.append_assoc]
    rfl

/-- A text that comes to a semicolon before a colon is none that comes to a colon before a semicolon. -/
theorem append_semicolon_ne_append_colon {s s' t t' : List Char} (hs : ':' ∉ s) (hs' : ';' ∉ s') :
    s ++ ';' :: t ≠ s' ++ ':' :: t' := by
  intro h
  rcases List.append_eq_append_iff.1 h with ⟨l, rfl, hl⟩ | ⟨l, rfl, hl⟩
  · cases l with
    | nil => cases hl
    | cons c l =>
        obtain ⟨rfl, -⟩ := List.cons.inj hl
        exact hs' (List.mem_append_right _ List.mem_cons_self)
  · cases l with
    | nil => cases hl
    | cons c l =>
        obtain ⟨rfl, -⟩ := List.cons.inj hl
        exact hs (List.mem_append_right _ List.mem_cons_self)

theorem append_semicolon_ne_afterFirst {s t : List Char} (hs : ':' ∉ s)
    (hnames : ∀ d ∈ ds, IsPropertyName d.1) : s ++ ';' :: t ≠ afterFirst ds := by
  cases ds with
  | nil => simp [afterFirst]
  | cons d ds =>
      have hname := (hnames d List.mem_cons_self).isTame.not_mem (c := ';') (by decide)
      rw [afterFirst, if_neg (List.cons_ne_nil d ds), toList_rowText_cons, ← List.cons_append]
      exact append_semicolon_ne_append_colon hs (List.not_mem_cons_of_ne_of_not_mem (by decide) hname)

theorem rowText_eq_empty (h : rowText ds = "") : ds = [] := by
  cases ds with
  | nil => rfl
  | cons d ds =>
      have htext := toList_rowText_cons d ds
      rw [h] at htext
      simp at htext

theorem rowText_of_afterFirst (h : afterFirst ds = afterFirst ds') : rowText ds = rowText ds' := by
  unfold afterFirst at h
  split at h <;> split at h
  · rename_i hds hds'
    rw [hds, hds']
  · cases h
  · cases h
  · exact String.toList_injective (List.cons.inj h).2

/-- Declarations without colons in their values are read back as declarations without semicolons. -/
theorem rowText_injective (hnames : ∀ d ∈ ds, IsPropertyName d.1) (hcolon : ∀ d ∈ ds, ':' ∉ d.2.toList)
    (hnames' : ∀ d ∈ ds', IsPropertyName d.1) (hend : ∀ d ∈ ds', ';' ∉ d.2.toList)
    (h : rowText ds = rowText ds') : ds = ds' := by
  induction ds' generalizing ds with
  | nil => exact rowText_eq_empty h
  | cons d' ds' ih =>
      cases ds with
      | nil => exact (rowText_eq_empty h.symm).symm
      | cons d ds =>
          obtain ⟨hname, hnames⟩ := List.forall_mem_cons.1 hnames
          obtain ⟨hname', hnames'⟩ := List.forall_mem_cons.1 hnames'
          obtain ⟨hvalue, hcolon⟩ := List.forall_mem_cons.1 hcolon
          obtain ⟨hvalue', hend⟩ := List.forall_mem_cons.1 hend
          have htext := congrArg String.toList h
          rw [toList_rowText_cons, toList_rowText_cons] at htext
          obtain ⟨hproperty, hrest⟩ := (append_cons_inj (hname.isTame.not_mem (by decide))
            (hname'.isTame.not_mem (by decide))).1 htext
          have hrest := (List.cons.inj hrest).2
          by_cases hsemi : ';' ∈ d.2.toList
          · -- what is behind the semicolon comes to the next one before it comes to a colon
            obtain ⟨v, w, hsplit, hv⟩ := List.eq_append_cons_of_mem hsemi
            rw [hsplit, List.append_assoc, List.cons_append] at hrest
            have hlater := ((append_cons_inj hv hvalue').1 hrest).2
            have hw : ':' ∉ w := fun hmem => hvalue
              (hsplit ▸ List.mem_append_right v (List.mem_cons_of_mem _ hmem))
            exact absurd hlater (append_semicolon_ne_afterFirst hw hnames')
          · obtain ⟨hv, hlater⟩ := (append_cons_inj hsemi hvalue').1 hrest
            rw [ih hnames hcolon hnames' hend (rowText_of_afterFirst hlater),
              Prod.ext (String.toList_injective hproperty) (String.toList_injective hv)]

/-- A row of declarations without colons in their values is confined exactly if the values are safe. -/
theorem isConfined_rowText_iff (hne : ds ≠ []) (hnames : ∀ d ∈ ds, IsPropertyName d.1)
    (hcolon : ∀ d ∈ ds, ':' ∉ d.2.toList) : IsConfined (rowText ds) ↔ ∀ d ∈ ds, IsSafe d.2 := by
  constructor
  · rintro ⟨ds', -, htext, hsafe⟩
    have hsame := rowText_injective hnames hcolon (fun d hd => (hsafe d hd).1)
      (fun d hd => (hsafe d hd).2.1 ';' List.mem_cons_self) htext
    rw [hsame]
    exact fun d hd => (hsafe d hd).2
  · exact fun hsafe => ⟨ds, hne, rfl, fun d hd => ⟨hnames d hd, hsafe d hd⟩⟩

/-! ### Important declarations -/

/-- The declarations of a row with the last one marked as important. -/
def markLast (ds : List (String × String)) : List (String × String) :=
  match ds.getLast? with
  | some d => ds.dropLast ++ [(d.1, d.2 ++ " !important")]
  | none   => ds

theorem markLast_concat (ds : List (String × String)) (d : String × String) :
    markLast (ds ++ [d]) = ds ++ [(d.1, d.2 ++ " !important")] := by
  rw [markLast, List.getLast?_concat, List.dropLast_concat]

theorem rowText_concat (ds : List (String × String)) :
    ∃ before, ∀ d, rowText (ds ++ [d]) = before ++ declaration d.1 d.2 := by
  induction ds with
  | nil => exact ⟨"", fun d => by simp [rowText]⟩
  | cons e ds ih =>
      obtain ⟨before, hbefore⟩ := ih
      refine ⟨declaration e.1 e.2 ++ " " ++ before, fun d => ?_⟩
      rw [String.append_assoc, ← hbefore d, List.cons_append, rowText, List.map_cons,
        String.intercalate_cons_of_ne_nil (by simp)]
      rfl

theorem markImportant_rowText (hne : ds ≠ []) :
    Compiler.ruleDeclarations.markImportant (rowText ds) = rowText (markLast ds) := by
  rw [← List.dropLast_concat_getLast hne, markLast_concat]
  obtain ⟨before, hbefore⟩ := rowText_concat ds.dropLast
  rw [hbefore, hbefore, declaration, declaration, ← String.append_assoc,
    markImportant_append_semicolon]
  simp only [String.append_assoc]
  rfl

theorem isMark_of_mem_breaks {c : Char} (h : c ∈ breaks) : isMark c :=
  List.all_eq_true.1 (show breaks.all isMark by decide) c h

/-- A mark of importance makes no value unsafe. -/
theorem isSafe_important {value : String} : IsSafe (value ++ " !important") ↔ IsSafe value := by
  have hmark : (" !important" : String).toList = ' ' :: "!important".toList := rfl
  have hmisses : Misses styleEnd ' ' := by decide
  have hnone : (afterLower? styleEnd "!important".toList).isSome = false := by decide
  have htame : IsTame (" !important" : String).toList := by decide
  rw [IsSafe, IsSafe, String.toList_append, hmark,
    isSome_afterLower?_append_cons hmisses (by decide), hnone, Bool.or_false, ← hmark]
  refine and_congr_left fun _ => forall₂_congr fun c hc => not_congr ?_
  rw [List.mem_append, or_iff_left (htame.not_mem (isMark_of_mem_breaks hc))]

/-- A value without marks is safe. -/
theorem isSafe_of_isTame {value : String} (h : IsTame value.toList) : IsSafe value := by
  refine ⟨fun c hc => h.not_mem (isMark_of_mem_breaks hc), ?_⟩
  have hnone : ∀ s : List Char, '<' ∉ s → (afterLower? styleEnd s).isSome = false := by
    intro s hs
    induction s with
    | nil => rfl
    | cons c s ih =>
        have hc : c ≠ '<' := fun e => hs (e ▸ List.mem_cons_self)
        have hhead : dropPrefixLower? styleEnd (c :: s) = none := Markup.dropPrefixLower?_lt hc
        rw [isSome_afterLower?_cons, hhead, ih fun hmem => hs (List.mem_cons_of_mem c hmem)]
        rfl
  exact hnone _ (h.not_mem (by decide))

/-! ### Compiled classes -/

/-- The name in a token is its last segment, which has no colon. -/
theorem Token.colon_not_mem_lastName (token : String) : ':' ∉ (Token.lastName token).toList := by
  have hlast : ':' ∉ ((split ':' token).getLast?.getD token).toList := by
    have hne : token.toList.splitOn ':' ≠ [] := List.splitOn_ne_nil _ _
    rw [split, List.getLast?_map, List.getLast?_eq_some_getLast hne, Option.map_some,
      Option.getD_some, String.toList_ofList]
    exact not_mem_of_mem_splitOn (List.getLast_mem hne)
  rw [Token.lastName, Token.splitImportant]
  split
  · rename_i r hr
    rw [dropPrefix?_eq_some_iff.1 hr] at hlast
    rw [String.toList_ofList]
    exact fun hmem => hlast (List.mem_append_right _ hmem)
  · exact hlast

/-- The declarations of a rule, with the last one marked as important if asked for. -/
def Rule.row (r : Rule) (value : String) (important : Bool) : List (String × String) :=
  let ds := (r.generator.properties value).map (·, r.generator.written value)
  if important then markLast ds else ds

theorem mem_markLast {value : String} (hds : ∀ d ∈ ds, d.2 = value) (hd : d ∈ markLast ds) :
    (d.2 = value ∨ d.2 = value ++ " !important") ∧ ∃ e ∈ ds, d.1 = e.1 := by
  cases ds using List.reverseRecOn with
  | nil => cases hd
  | append_singleton ds last =>
      rw [markLast_concat] at hd
      rcases List.mem_append.1 hd with hd | hd
      · have hmem := List.mem_append_left [last] hd
        exact ⟨.inl (hds d hmem), d, hmem, rfl⟩
      · have hmem : last ∈ ds ++ [last] := List.mem_append_right _ List.mem_cons_self
        rw [List.mem_singleton.1 hd, hds last hmem]
        exact ⟨.inr rfl, last, hmem, rfl⟩

theorem markLast_ne_nil (h : ds ≠ []) : markLast ds ≠ [] := by
  rw [← List.dropLast_concat_getLast h, markLast_concat]
  exact List.concat_ne_nil _ _

namespace Rule

variable {r : Rule} {value : String} {important : Bool}

theorem row_ne_nil : r.row value important ≠ [] := by
  have hne : (r.generator.properties value).map (·, r.generator.written value) ≠ [] := by
    simpa using r.generator.properties_ne_nil value
  unfold row
  split
  · exact markLast_ne_nil hne
  · exact hne

/-- A row sets the properties of the rule to the value as it is written. -/
theorem mem_row (hd : d ∈ r.row value important) :
    (d.2 = r.generator.written value ∨ d.2 = r.generator.written value ++ " !important") ∧
      d.1 ∈ r.generator.properties value := by
  have hds : ∀ e ∈ (r.generator.properties value).map (·, r.generator.written value),
      e.2 = r.generator.written value ∧ e.1 ∈ r.generator.properties value := by
    intro e he
    obtain ⟨p, hp, rfl⟩ := List.mem_map.1 he
    exact ⟨rfl, hp⟩
  unfold row at hd
  split at hd
  · obtain ⟨hvalue, e, he, hname⟩ := mem_markLast (fun e he => (hds e he).1) hd
    exact ⟨hvalue, hname ▸ (hds e he).2⟩
  · exact ⟨.inl (hds d hd).1, (hds d hd).2⟩

end Rule

namespace Compiler

variable {c : Compiler} {token : String}

/-- Without utilities a token with a text names a rule, whose declarations these are. -/
theorem exists_rule_of_compile (hreg : c.registry = ∅)
    (h : (c.compile token .declarations).css = some css) :
    ∃ rule value important, Rule.ofClass? (Token.lastName token) = some (rule, value) ∧
      rule.accepts value ∧ css = rowText (rule.row value important) := by
  have hnone : c.registry.get? (Token.lastName token) = none := by
    rw [hreg]
    rfl
  have hcss : (ruleDeclarations token (Token.parse c.breakpoints token).1).css = some css := by
    rw [← h, compile, declarationsIn_settled (request_of_get?_eq_none hnone), Compiled.after]
  unfold ruleDeclarations at hcss
  rw [Token.parse_name] at hcss
  split at hcss
  · cases hcss
  · rename_i rule value hclass
    split at hcss
    · rename_i haccepts
      refine ⟨rule, value, (Token.parse c.breakpoints token).1.important, hclass, haccepts, ?_⟩
      have hrow : rule.declarations value = rowText ((rule.generator.properties value).map
          (·, rule.generator.written value)) := by
        rw [Rule.declarations, Generator.declarations_eq, rowText, List.map_map]
        rfl
      have hne : (rule.generator.properties value).map (·, rule.generator.written value) ≠ [] := by
        simpa using rule.generator.properties_ne_nil value
      rw [← Option.some.inj hcss, hrow, Rule.row, markImportant_rowText hne]
      split <;> rfl
    · cases hcss

/-- **What a class is compiled to is the row of its rule, and stays in it exactly if the value is safe as
it is written**. A value that is not is a math function. -/
theorem isConfined_iff_isSafe (hreg : c.registry = ∅)
    (h : (c.compile token .declarations).css = some css) :
    ∃ rule value important, Rule.ofClass? (Token.lastName token) = some (rule, value) ∧
      rule.accepts value ∧ css = rowText (rule.row value important) ∧
      (IsConfined css ↔ IsSafe (rule.generator.written value)) ∧
      (¬ IsConfined css → isMathFunction value.toList) := by
  obtain ⟨rule, value, important, hclass, haccepts, rfl⟩ := exists_rule_of_compile hreg h
  have hconfined : IsConfined (rowText (rule.row value important)) ↔
      IsSafe (rule.generator.written value) := by
    have hvalue : ':' ∉ (rule.generator.written value).toList := by
      rw [Generator.isMark_mem_written (by decide)]
      exact fun hmem => Token.colon_not_mem_lastName token (Rule.mem_of_ofClass? hclass _ hmem)
    have hsafe : ∀ d ∈ rule.row value important,
        (IsSafe d.2 ↔ IsSafe (rule.generator.written value)) := by
      intro d hd
      rcases (Rule.mem_row hd).1 with he | he
      · rw [he]
      · rw [he, isSafe_important]
    rw [isConfined_rowText_iff Rule.row_ne_nil]
    · have hne : rule.row value important ≠ [] := Rule.row_ne_nil
      obtain ⟨d, hd⟩ := List.exists_mem_of_ne_nil _ hne
      exact ⟨fun h => (hsafe d hd).1 (h d hd), fun h e he => (hsafe e he).2 h⟩
    · exact fun d hd => Rule.isPropertyName_of_ofClass? hclass _ (Rule.mem_row hd).2
    · intro d hd
      rcases (Rule.mem_row hd).1 with he | he
      · rwa [he]
      · rw [he, String.toList_append, List.mem_append, not_or]
        exact ⟨hvalue, by decide⟩
  refine ⟨rule, value, important, hclass, haccepts, rfl, hconfined, fun hnot => ?_⟩
  refine (Rule.isTame_or_isMathFunction hclass haccepts).resolve_left fun htame => hnot ?_
  refine hconfined.2 (isSafe_of_isTame fun c hc => ?_)
  by_contra hmark
  have hmark : isMark c := by simpa using hmark
  exact htame.not_mem hmark ((Generator.isMark_mem_written hmark _ _).1 hc)

/-- A spaced call on both sides of a box, marked as important. -/
theorem isConfined_iff_isSafe_sides :
    let css := "padding-left: calc(1px + 2px); padding-right: calc(1px + 2px) !important;"
    default.registry = ∅ ∧ (default.compile "!px-[calc(1px+2px)]" .declarations).css = some css ∧
      ∃ rule value important,
        Rule.ofClass? (Token.lastName "!px-[calc(1px+2px)]") = some (rule, value) ∧
        rule.accepts value ∧ css = rowText (rule.row value important) ∧
        (IsConfined css ↔ IsSafe (rule.generator.written value)) ∧
        (¬ IsConfined css → isMathFunction value.toList) := by
  intro css
  have hrequest : default.request "!px-[calc(1px+2px)]" = .settled ⟨some css, []⟩ := by
    decide +kernel
  have h : (default.compile "!px-[calc(1px+2px)]" .declarations).css = some css :=
    congrArg Compiled.css (declarationsIn_settled hrequest)
  exact ⟨rfl, h, isConfined_iff_isSafe rfl h⟩

/-- A call that closes before its last parenthesis closes the declaration, the rule and the block. -/
theorem not_isConfined_beyond_call :
    default.registry = ∅ ∧
      (default.compile "p-[calc(1px);\x7d</style><b>(x)]" .declarations).css =
        some "padding: calc(1px);\x7d</style><b>(x);" ∧
      ¬ IsConfined "padding: calc(1px);\x7d</style><b>(x);" := by
  have hrequest : default.request "p-[calc(1px);\x7d</style><b>(x)]" =
      .settled ⟨some "padding: calc(1px);\x7d</style><b>(x);", []⟩ := by
    decide +kernel
  refine ⟨rfl, congrArg Compiled.css (declarationsIn_settled hrequest), fun h => ?_⟩
  have hrow : IsConfined (rowText [("padding", "calc(1px);\x7d</style><b>(x)")]) := h
  have hsafe := (isConfined_rowText_iff (List.cons_ne_nil _ _) (by decide) (by decide)).1 hrow
  exact absurd ((hsafe _ List.mem_cons_self).1 ';' List.mem_cons_self) (by decide)

end Compiler

end UtilityCss
