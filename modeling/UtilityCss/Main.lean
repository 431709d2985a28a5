import Std.Time.DateTime.Timestamp
import UtilityCss.Build.Watch
import UtilityCss.Cli.Clock
import UtilityCss.Cli.Reach

/-!
# The program

The outer layer: it reads what the command can reach into a tree, runs the command on the tree, writes
what has changed back, and shows the outcome. Links are followed to files and passed over if they lead
to directories.
-/

namespace UtilityCss.Cli

/-- The names that lead to a path that is spelled in full. -/
def placeOf (path : String) : Place := (Path.mk path).parts

/-- A tree with what stands at an entry of a directory. What cannot be read is passed over. -/
partial def loadEntry (place : Place) (t : Tree) (e : IO.FS.DirEntry) : IO Tree := do
  let here := place ++ [e.fileName]
  try
    match (← e.path.symlinkMetadata).type with
    | .dir   => (← e.path.readDir).foldlM (loadEntry here) (t.put here .directory)
    | .other => return t
    | _      =>
      if ← e.path.isDir then return t
      else return t.put here (.file (.ofBytes (← IO.FS.readBinFile e.path)))
  catch _ => return t

/-- A tree with the directories that lead to a place. -/
def putAbove (t : Tree) (place : Place) : Tree :=
  (List.range place.length).foldl (fun t n => t.put (place.take (n + 1)) .directory) t

/-- A tree with what stands below a directory, unless that has been read. -/
def loadDirectory (loaded : List Place) (t : Tree) (path : Path) : IO (List Place × Tree) := do
  try
    let full ← IO.FS.realPath path.text
    let place := placeOf full.toString
    if loaded.any (·.isPrefixOf place) then return (loaded, t)
    let t ← (← full.readDir).foldlM (loadEntry place) (putAbove t place)
    return (place :: loaded, t)
  catch _ => return (loaded, t)

/-- A tree with what stands below some directories. -/
def loadDirectories (loaded : List Place) (t : Tree) (paths : List Path) :
    IO (List Place × Tree) :=
  paths.foldlM (fun (loaded, t) p => loadDirectory loaded t p) (loaded, t)

/-- The tree that a command works on. -/
def loadTree (c : Command) (workingDirectory : Path) : IO Tree := do
  let (loaded, t) ← loadDirectories [] ∅ (reach c workingDirectory)
  return (← loadDirectories loaded t (reachOfTree c workingDirectory t)).2

/-- Writes the changes of a tree. A file is written beside its place and then moved there. -/
def saveTree (old new : Tree) : IO Unit := do
  for (place, node) in changes old new do
    let path := (Watcher.placePath place).text
    match node with
    | .directory        => IO.FS.createDirAll path
    | .file (.text s)   =>
      IO.FS.writeFile (path ++ ".new") s
      IO.FS.rename (path ++ ".new") path
    | .file (.binary l) => IO.FS.writeBinFile path ⟨l.toArray⟩
  for place in removals old new do
    IO.FS.removeFile (Watcher.placePath place).text

def now : IO Moment := do
  let d := (← Std.Time.Timestamp.now).val
  return ⟨d.second.val, d.nano.val.toNat⟩

/-- Shows a message. -/
def showMessage : Message → IO Unit
  | .plain s => IO.eprintln s
  | .line l  => do
    let level := match l.level with
      | .error => "ERROR"
      | .warn  => " WARN"
      | .info  => " INFO"
    IO.eprintln ((← now).reportStamp ++ " " ++ level ++ " " ++ l.shown)

/-- Everything that comes from a stream. -/
partial def readAll (stream : IO.FS.Stream) (read : ByteArray) : IO ByteArray := do
  let more ← stream.read 65536
  if more.isEmpty then return read else readAll stream (read ++ more)

/-- Builds again whenever a tracked file changes. A failure is shown, and watching goes on. -/
partial def watch (c : Command) (workingDirectory : Path) (b : Builder) (tracked : List Path)
    (seen : Tree) : IO Unit := do
  IO.sleep 150
  let t ← loadTree c workingDirectory
  let changed := tracked.any fun p => t.isFile p && (t.find p).toOption ≠ (seen.find p).toOption
  if !changed then watch c workingDirectory b tracked t
  else
    let (result, b, s) := b.run ⟨t, [], (← now).stamp⟩
    saveTree t s.tree
    s.report.forM fun l => showMessage (.line l)
    match result with
    | .ok r =>
      (resultLines r).forM showMessage
      watch c workingDirectory b r.watched s.tree
    | .error e =>
      showMessage (.line ⟨.error, e.message⟩)
      watch c workingDirectory b tracked s.tree

/-- Runs a command on the files that it can reach. -/
def runProgram (arguments : List String) : IO UInt32 := do
  let workingDirectory : Path := ⟨(← IO.currentDir).toString⟩
  let command? := (Command.ofArguments arguments).toOption
  let t ← match command? with
    | some c => loadTree c workingDirectory
    | none   => pure ∅
  let input ← match command? with
    | some (.pipe _) => readAll (← IO.getStdin) .empty
    | _              => pure .empty
  let (outcome, s) := run arguments (.ofBytes input) workingDirectory ⟨t, [], (← now).stamp⟩
  saveTree t s.tree
  outcome.messages.forM showMessage
  IO.print outcome.output
  match command?, outcome.watching with
  | some c, some (b, tracked) => watch c workingDirectory b tracked s.tree
  | _,      _                 => pure ()
  return UInt32.ofNat outcome.code

end UtilityCss.Cli

def main (arguments : List String) : IO UInt32 := UtilityCss.Cli.runProgram arguments
