import UtilityCss.Breakpoint.Value
import UtilityCss.File.Path
import UtilityCss.Json.Printer
import UtilityCss.Utility.Schema

/-!
# Configurations

A configuration says which files are scanned, where the stylesheet goes and how documents get it, and
holds breakpoints and plugins. All but the files may be left out.
-/

namespace UtilityCss

/-- How styles reach a document. -/
inductive InjectMode where
  /-- As a block in the document. -/
  | inline
  /-- As a stylesheet of their own, with a link to it. -/
  | link
deriving DecidableEq, Repr

namespace InjectMode

def name : InjectMode → String
  | inline => "inline"
  | link   => "link"

def all : List InjectMode := [inline, link]

/-- The modes with their names. -/
def named : List (String × InjectMode) := all.map fun m => (m.name, m)

def ofName? (s : String) : Option InjectMode := all.find? (·.name = s)

end InjectMode

/-- Which documents get the styles, and how. -/
structure Injection where
  mode    : InjectMode
  targets : List String
deriving DecidableEq, Repr

/-- A configuration. -/
structure Config where
  /-- Patterns for the files that are scanned. -/
  files       : List String
  /-- The path of the stylesheet. -/
  output      : String
  inject      : Injection
  breakpoints : OrderedMap String BreakpointValue
  plugins     : List Plugin
deriving DecidableEq

/-- Why a configuration is of no use. -/
inductive ConfigFault where
  | noFiles
  | noOutput
deriving DecidableEq, Repr

def ConfigFault.message : ConfigFault → String
  | noFiles  => "'files' must list at least one pattern"
  | noOutput => "'output' must not be empty"

namespace Injection

/-- What holds for fields that are left out. -/
def default : Injection := ⟨.link, []⟩

def toJson (i : Injection) : Json :=
  .object [("mode", .string i.mode.name), ("targets", .array (i.targets.map .string))]

end Injection

namespace Config

/-- The stylesheet of a configuration that names none. -/
def defaultOutput : String := "valcss-main.css"

/-- The configuration for a new project. -/
def initial : Config where
  files       := ["index.html", "src/**/*.html"]
  output      := defaultOutput
  inject      := ⟨.link, ["index.html"]⟩
  breakpoints := ∅
  plugins     := []

/-- The first fault of a configuration. -/
def fault? (c : Config) : Option ConfigFault :=
  if c.files.isEmpty then some .noFiles
  else if Text.trim c.output.toList = [] then some .noOutput
  else none

def toJson (c : Config) : Json :=
  .object
    [("files", .array (c.files.map .string)),
     ("output", .string c.output),
     ("inject", c.inject.toJson),
     ("breakpoints", .object (c.breakpoints.entries.map fun b => (b.1, b.2.toJson))),
     ("plugins", .array (c.plugins.map Plugin.toJson))]

/-- The text of a configuration in JSON. -/
def toJsonText (c : Config) : String := c.toJson.pretty

/-- The text of the configuration for a new project in YAML. -/
def initialYaml : String :=
  "files:\n" ++ String.join (initial.files.map fun f => "- " ++ f ++ "\n") ++
    "output: " ++ initial.output ++ "\ninject:\n  mode: " ++ initial.inject.mode.name ++
    "\n  targets:\n" ++ String.join (initial.inject.targets.map fun t => "  - " ++ t ++ "\n") ++
    "breakpoints: \x7b\x7d\nplugins: []\n"

end Config

end UtilityCss
