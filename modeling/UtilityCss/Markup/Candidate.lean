import UtilityCss.Compiler

/-!
# Candidates

Markup holds class names that are none of this program's business. A token is worth compiling if its
name is a keyword or a registered utility, or if the token has the form of a value in brackets behind
modifiers of plain characters.
-/

namespace UtilityCss

namespace Token

/-- The last segment of a token without its `!`. -/
def lastName (token : String) : String :=
  (splitImportant ((Text.split ':' token).getLast?.getD token)).1

/-- Whether a token is a bracket form behind modifiers. The first bracket opens the value, which may
hold any character, so a `:` behind it divides no segments. -/
def isBracketed (token : String) : Bool :=
  let head := token.toList.takeWhile (· ≠ '[')
  let value := token.toList.dropWhile (· ≠ '[')
  let segments := head.splitOn ':'
  let last := segments.getLast?.getD []
  segments.dropLast.all (fun s => s ≠ [] && s.all Text.isKeyChar) &&
    (Rule.bracketForm? ((Text.dropPrefix? ['!'] last).getD last ++ value)).isSome

end Token

/-- Whether a token found in markup is worth compiling. -/
def Compiler.isCandidate (c : Compiler) (token : String) : Bool :=
  let name := Token.lastName token
  (Rule.ofKeyword? name).isSome || Token.isBracketed token || c.registry.contains name

end UtilityCss
