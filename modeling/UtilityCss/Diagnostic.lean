/-!
# Diagnostics

Problems that stop nothing: a token or a setting that was left out, or one that looks odd. Each names
the text it is about. Diagnostics are returned as values, in the order in which they arose.
-/

namespace UtilityCss

/-- How serious a diagnostic is. -/
inductive Severity where
  /-- What the diagnostic is about had no effect. -/
  | warning
  /-- The result is not affected. -/
  | info
deriving DecidableEq, Repr

/-- A problem found in a token or a setting. -/
structure Diagnostic where
  severity : Severity
  message  : String
  /-- The token, or the name of the setting. -/
  token    : String
deriving DecidableEq, Repr

namespace Diagnostic

def warning (message token : String) : Diagnostic := ⟨.warning, message, token⟩

def info (message token : String) : Diagnostic := ⟨.info, message, token⟩

def isWarning (d : Diagnostic) : Bool := d.severity = .warning

/-- The line that reports a diagnostic. -/
def text (d : Diagnostic) : String :=
  d.message ++ ": \"" ++ d.token ++ "\""

end Diagnostic

end UtilityCss
