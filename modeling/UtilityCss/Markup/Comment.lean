import UtilityCss.Text.Basic

/-!
# Comments

Markup is stripped of comments before classes are looked for: first of markup comments, then of block
comments, then of line comments. Each pass works on what the one before left, so a comment may arise
where two texts meet. A comment that is not closed is none.

A line comment begins with `//` unless a `:` stands before it, as in an address; it ends before the
end of its line. The main statement is `strip_sublist`: stripping only deletes.
-/

namespace UtilityCss.Markup
open Text

/-- Comments of the markup itself. -/
def markupComment : Passage := .between "<!--".toList "-->".toList (by decide)

/-- Comments of scripts and styles that may span lines. -/
def blockComment : Passage := .between "/*".toList "*/".toList (by decide)

/-- Where a scan for line comments stands. -/
inductive LinePlace where
  /-- At a place where a comment may begin. -/
  | outside
  /-- Behind a `:`. -/
  | afterColon
  /-- Inside a comment. -/
  | comment
deriving DecidableEq, Repr

/-- The place behind a character that stays. -/
def LinePlace.after (c : Char) : LinePlace := if c = ':' then .afterColon else .outside

/-- The text without line comments. -/
def cutLineComments : LinePlace → List Char → List Char
  | _,           []     => []
  | .outside,       c :: s =>
    if c = '/' ∧ s.head? = some '/' then cutLineComments .comment s
    else c :: cutLineComments (.after c) s
  | .afterColon, c :: s => c :: cutLineComments (.after c) s
  | .comment,    c :: s =>
    if c = '\n' then c :: cutLineComments .outside s else cutLineComments .comment s

/-- Text without comments, as a list of characters. -/
def stripChars (s : List Char) : List Char :=
  cutLineComments .outside (blockComment.cut (markupComment.cut s))

/-- Text without comments. -/
def strip (s : String) : String :=
  String.ofList (stripChars s.toList)

theorem cutLineComments_sublist (p : LinePlace) (s : List Char) :
    (cutLineComments p s).Sublist s := by
  fun_induction cutLineComments p s with
  | case1 => exact List.Sublist.slnil
  | case2 c s h ih => exact ih.cons c
  | case3 c s h ih => exact ih.cons_cons c
  | case4 c s ih => exact ih.cons_cons c
  | case5 s ih => exact ih.cons_cons _
  | case6 c s h ih => exact ih.cons c

/-- Stripping only deletes. -/
theorem strip_sublist (s : String) : (strip s).toList.Sublist s.toList := by
  simpa [strip, stripChars] using
    (cutLineComments_sublist _ _).trans ((blockComment.cut_sublist _).trans (markupComment.cut_sublist _))

end UtilityCss.Markup
