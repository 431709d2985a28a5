import UtilityCss.Build.Job
import UtilityCss.Config.Schema

/-!
# Finding and making configurations

The configuration of a directory is the first of the candidates that is a file there. The end of its
name tells its format. A new one is made only where no candidate is, so it is the one that is found.
-/

namespace UtilityCss.Config

/-- The text of a configuration file. -/
def textOf (t : Tree) (file : Path) : Except ConfigFailure String :=
  (t.readText file).mapError (.unreadable file)

/-- A configuration without faults. -/
def check (c : Config) : Except ConfigFailure Config :=
  match c.fault? with
  | some f => .error (.faulty f)
  | none   => .ok c

/-- The configuration in a file. -/
def ofFile (t : Tree) (file : Path) : Except ConfigFailure Config :=
  match file.extension? with
  | some "json" => do
    let s ← textOf t file
    match ofJsonText s with
    | .ok c    => check c
    | .error e => throw (.notJson file e)
  | some "yaml" | some "yml" => do
    let s ← textOf t file
    match ofYamlText? s with
    | some c => check c
    | none   => throw (.notYaml file)
  | _ => .error (.unsupported file)

/-- The paths at which the configuration of a directory may stand. -/
def candidatePaths (directory : Path) : List Path :=
  ConfigFailure.candidates.map fun name => directory.join ⟨name⟩

/-- The configuration file of a directory. -/
def discover (t : Tree) (directory : Path) : Except ConfigFailure Path :=
  match (candidatePaths directory).find? t.isFile with
  | some p => .ok p
  | none   => .error (.missing directory)

/-- The configuration in a file, or that of a directory, and its path. -/
def load (t : Tree) (file? : Option Path) (directory : Path) :
    Except ConfigFailure (Config × Path) := do
  let file ← match file? with
    | some p => pure p
    | none   => discover t directory
  return (← ofFile t file, file)

/-- Makes the configuration for a new project, in YAML or in JSON. -/
def init (directory : Path) (yaml : Bool) : Job Path := do
  let t := (← get).tree
  if let some p := (candidatePaths directory).find? t.exists? then
    throw (.config (.occupied p))
  let (name, text) :=
    if yaml then ("valcss.config.yaml", initialYaml)
    else ("valcss.config.json", initial.toJsonText)
  let p := directory.join ⟨name⟩
  Job.files (.output p) (FileM.write p (.text text))
  return p

end UtilityCss.Config
