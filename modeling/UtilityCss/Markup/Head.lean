import UtilityCss.Text.Basic
import UtilityCss.Text.Case

/-!
# Styles in the head of a document

Styles reach a document just before its `</head>`: as a block of their own, which takes the place of
earlier ones, or as a link, which is added once. Tags are recognised in any case of letters. A document
without `</head>` is left as it is.
-/

namespace UtilityCss.Markup
open Text

/-- The tag before which styles are put. -/
def headClose : List Char := "</head>".toList

/-- The tag that opens a block of this program. -/
def styleOpen : String := "<style data-valcss>"

def styleClose : String := "</style>"

/-- What follows the nearest closing tag of a style block and a line end behind it. -/
def afterStyleClose? (s : List Char) : Option (List Char) :=
  (afterLower? styleClose.toList s).map fun r => (dropPrefix? ['\n'] r).getD r

theorem suffix_of_afterStyleClose? {s r : List Char} (h : afterStyleClose? s = some r) :
    r <:+ s := by
  obtain ⟨t, ht, rfl⟩ := Option.map_eq_some_iff.1 h
  refine List.IsSuffix.trans ?_ (suffix_of_afterLower? ht)
  cases hn : dropPrefix? ['\n'] t with
  | none   => exact List.suffix_refl t
  | some u => exact ⟨['\n'], (dropPrefix?_eq_some_iff.1 hn).symm⟩

/-- A style block of this program. -/
def styleBlock : Passage where
  rest? s := (dropPrefixLower? styleOpen.toList s).bind afterStyleClose?
  shorter {s r} h := by
    obtain ⟨t, ht, hr⟩ := Option.bind_eq_some_iff.1 h
    have h₁ := length_of_dropPrefixLower? ht
    have h₂ := (suffix_of_afterStyleClose? hr).length_le
    have : 0 < styleOpen.toList.length := by decide
    omega
  suffix {s r} h := by
    obtain ⟨t, ht, hr⟩ := Option.bind_eq_some_iff.1 h
    exact (suffix_of_afterStyleClose? hr).trans (suffix_of_dropPrefixLower? ht)

/-- A document with a text put before its first `</head>`. -/
def insertInHead? (text : String) (html : List Char) : Option String :=
  (splitBeforeLower? headClose html).map fun (before, rest) =>
    String.ofList before ++ text ++ String.ofList rest

/-- A document with styles in a block of its own, in place of earlier blocks. -/
def inlineStyles (html css : String) : String :=
  (insertInHead? (styleOpen ++ "\n" ++ css ++ "\n" ++ styleClose ++ "\n")
    (styleBlock.cut html.toList)).getD html

/-- Whether a document refers to an address. -/
def refersTo (html href : String) : Bool :=
  occurs ("href=\"" ++ href ++ "\"").toList html.toList

/-- A document with a link to a stylesheet, unless it refers to it already. -/
def linkStylesheet (html href : String) : String :=
  if refersTo html href then html
  else (insertInHead? ("<link rel=\"stylesheet\" href=\"" ++ href ++ "\">\n") html.toList).getD html

end UtilityCss.Markup
