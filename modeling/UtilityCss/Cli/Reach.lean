import UtilityCss.Cli.Run

/-!
# What a command can reach

A command works on a tree that holds what it can reach: what stands below the working directory, below
the directory of the configuration, and below the directories that the configuration names.
-/

namespace UtilityCss.Cli

/-- The path before the first component with a wildcard, without its last component. -/
def fixedPart (pattern : String) : Path :=
  let path : Path := ⟨pattern⟩
  let isFixed (piece : List Char) : Bool := piece.all fun c => c ≠ '*' && c ≠ '?' && c ≠ '['
  .ofPieces path.start (path.pieces.takeWhile isFixed).dropLast

/-- The directories that a build with a configuration reaches from the directory of that. -/
def reachOfConfig (base : Path) (output : Option String) (c : Config) : List Path :=
  let files := (c.inject.targets ++ [output.getD c.output]).map fun s => base.join ⟨s⟩
  c.files.map (fun s => fixedPart (base.join ⟨s⟩).text) ++ files.filterMap (·.parent?)

/-- The directories that a command reaches before it knows the configuration. -/
def reach (c : Command) (workingDirectory : Path) : List Path :=
  match c with
  | .build a =>
    workingDirectory ::
      (a.config.bind fun p => (workingDirectory.join ⟨p⟩).parent?).toList
  | _ => [workingDirectory]

/-- The directories that a command reaches once the configuration can be read off a tree. -/
def reachOfTree (c : Command) (workingDirectory : Path) (t : Tree) : List Path :=
  match c with
  | .build a =>
    let options := optionsOf a workingDirectory
    match (Builder.new options).loadConfig t with
    | .ok (config, p) => reachOfConfig (Build.baseDirectory options p) a.output config
    | .error _        => []
  | _ => []

/-- The changes from one tree to another: directories first, in an order in which they can be made. -/
def changes (old new : Tree) : List (Place × Node) :=
  new.sorted.filter fun e => old.node? e.1 ≠ some e.2

/-- The files of a tree that another one lacks. -/
def removals (old new : Tree) : List Place :=
  (old.sorted.filter fun e => (new.node? e.1).isNone).map (·.1)

end UtilityCss.Cli
