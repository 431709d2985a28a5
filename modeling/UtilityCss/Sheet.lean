import UtilityCss.Markup.Candidate
import UtilityCss.Markup.ClassAttribute
import UtilityCss.Markup.Comment

/-!
# Stylesheets

The candidates among the class tokens of documents are gathered in a class index, which keeps each
token once, at the place of its first occurrence, and counts its uses. A stylesheet is the rules of
these tokens in that order; a token that does not compile leaves no rule and its diagnostics.
-/

namespace UtilityCss

/-- How a class token is used. -/
structure ClassUse where
  count   : Nat
  /-- The documents that hold the token, in order of first use. -/
  sources : List String
deriving DecidableEq, Repr

/-- The use of a token that is used once more. -/
def ClassUse.again (u : ClassUse) (source : String) : ClassUse :=
  ⟨u.count + 1, if u.sources.contains source then u.sources else u.sources ++ [source]⟩

/-- The class tokens of documents with their uses. -/
structure ClassIndex where
  uses : OrderedMap String ClassUse
deriving DecidableEq

namespace ClassIndex

instance : EmptyCollection ClassIndex := ⟨⟨∅⟩⟩

instance : Inhabited ClassIndex := ⟨∅⟩

def tokens (i : ClassIndex) : List String := i.uses.keys

def size (i : ClassIndex) : Nat := i.uses.size

/-- Counts one use of a token. -/
def addToken (i : ClassIndex) (token source : String) : ClassIndex :=
  ⟨i.uses.insert token (((i.uses.get? token).getD ⟨0, []⟩).again source)⟩

/-- Adds the candidates of a document. -/
def addDocument (i : ClassIndex) (c : Compiler) (document source : String) : ClassIndex :=
  ((Markup.classTokens document).filter c.isCandidate).foldl (·.addToken · source) i

/-- The index of documents, each with the name of its source. -/
def ofDocuments (c : Compiler) (documents : List (String × String)) : ClassIndex :=
  documents.foldl (fun i d => i.addDocument c d.2 d.1) ∅

end ClassIndex

/-- A stylesheet, and what was found while it was made. -/
structure Sheet where
  css         : String
  diagnostics : List Diagnostic
  /-- The number of tokens. -/
  tokens      : Nat
  /-- The number of tokens that have a rule. -/
  compiled    : Nat
deriving DecidableEq, Repr

namespace Sheet

/-- The stylesheet of a list of tokens. -/
def ofTokens (c : Compiler) (tokens : List String) : Sheet :=
  let results := tokens.map (c.compile · .rule)
  let rules := results.filterMap (·.css)
  { css         := "\n".intercalate rules
    diagnostics := results.flatMap (·.diagnostics)
    tokens      := tokens.length
    compiled    := rules.length }

def ofIndex (c : Compiler) (i : ClassIndex) : Sheet := ofTokens c i.tokens

/-- Documents named by their place in a list, from 1 on. -/
def numbered (documents : List String) : List (String × String) :=
  documents.zipIdx.map fun (d, i) => ("document " ++ toString (i + 1), d)

/-- The stylesheet of documents that have no names. -/
def ofDocuments (c : Compiler) (documents : List String) : Sheet :=
  ofIndex c (.ofDocuments c (numbered documents))

/-- The stylesheet of a text in the empty configuration. -/
def ofText (text : String) (keepComments : Bool) : Sheet :=
  ofDocuments .default [if keepComments then text else Markup.strip text]

def warnings (s : Sheet) : List Diagnostic := s.diagnostics.filter (·.isWarning)

end Sheet

/-- The candidates of a document, each once, in order of first occurrence. -/
def Compiler.classesOf (c : Compiler) (document : String) : List String :=
  ((∅ : ClassIndex).addDocument c document "").tokens

end UtilityCss
