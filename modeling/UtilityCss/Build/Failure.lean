import UtilityCss.Config.Basic
import UtilityCss.File.Error
import UtilityCss.File.Pattern
import UtilityCss.Json.Error

/-!
# Why a build fails

Only settings and files make a build fail; a class token never does. Each failure is a cause with its
wording; where a cause passes another one on, that one is its inner cause.
-/

namespace UtilityCss

/-- Why a configuration cannot be had. -/
inductive ConfigFailure where
  /-- The name of the file tells no format. -/
  | unsupported (file : Path)
  | unreadable (file : Path) (cause : FileError)
  | notJson (file : Path) (cause : Json.Error)
  | notYaml (file : Path)
  | faulty (cause : ConfigFault)
  /-- No configuration is in the directory. -/
  | missing (directory : Path)
  /-- A new configuration would stand beside another one. -/
  | occupied (file : Path)
deriving DecidableEq, Repr

namespace ConfigFailure

/-- The files that may hold the configuration of a directory, in the order in which they count. -/
def candidates : List String :=
  ["valcss.config.json", "valcss.config.yaml", "valcss.config.yml"]

/-- The wording of a cause. -/
def message : ConfigFailure → String
  | unsupported p  =>
    "Unsupported config file format: " ++ p.text ++ ". Use .json, .yaml or .yml"
  | unreadable p e => "Failed to read config file " ++ p.text ++ ": " ++ e.message
  | notJson p e    => "Failed to parse JSON config " ++ p.text ++ ": " ++ e.message
  | notYaml p      => "Failed to parse YAML config " ++ p.text
  | faulty f       => f.message
  | missing d      =>
    " / ".intercalate candidates ++ " not found in " ++ d.text ++
      ". Run 'valcss init' to create a default config."
  | occupied p     => p.text ++ " already exists"

end ConfigFailure

/-- Why a build fails. -/
inductive Failure where
  | io (cause : FileError)
  | pattern (cause : PatternError)
  /-- A directory cannot be watched. -/
  | watch (directory : Path) (cause : FileError)
  | input (file : Path) (cause : FileError)
  | output (file : Path) (cause : FileError)
  | config (cause : ConfigFailure)
deriving DecidableEq, Repr

namespace Failure

/-- The wording of the cause that a failure passes on. -/
def inner? : Failure → Option String
  | io e      => some e.message
  | pattern e => some e.message
  | watch d e => some (e.message ++ " about [" ++ Text.quote d.text ++ "]")
  | _         => none

/-- The wording of a failure. -/
def message : Failure → String
  | io e       => "IO error: " ++ e.message
  | pattern e  => "Pattern error: " ++ e.message
  | watch d e  => "Watch error: " ++ e.message ++ " about [" ++ Text.quote d.text ++ "]"
  | input p e  => "Failed to read input file " ++ p.text ++ ": " ++ e.message
  | output p e => "Failed to write output to " ++ p.text ++ ": " ++ e.message
  | config c   => "Configuration error: " ++ c.message

end Failure

end UtilityCss
