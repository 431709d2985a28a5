import UtilityCss.Build.Failure
import UtilityCss.File.Glob

/-!
# Tracking files

Changes of files are noticed through the directories that hold them. A tracked file is named by the
place of its directory and its own name, so that all spellings of it are one. A directory is asked for
once, by its spelling; whether it can be watched is found out then. Relative paths are followed from the
working directory.
-/

namespace UtilityCss

/-- The files that are tracked, and the directories that have been asked for. -/
structure Watcher where
  directories : List Path
  files       : List Path
deriving DecidableEq, Repr

namespace Watcher

def empty : Watcher := ⟨[], []⟩

/-- The path of a place. -/
def placePath (place : Place) : Path := ⟨"/" ++ "/".intercalate place⟩

/-- The name of a file for all its spellings. A file whose directory is not there keeps its
spelling. -/
def canonical (t : Tree) (workingDirectory file : Path) : Path :=
  let directory? := match file.parent? with
    | some d =>
      if d.text.isEmpty then some workingDirectory
      else (t.find (workingDirectory.join d)).toOption.map fun (e : Place × Node) => placePath e.1
    | none   => some workingDirectory
  match directory?, file.name? with
  | some d, some name => d.join ⟨name⟩
  | _,      _         => file

/-- Asks for the directories of files in order, up to the first that cannot be watched. -/
def request (t : Tree) (workingDirectory : Path) (known : List Path) :
    List Path → Except Failure Unit × List Path
  | []      => (.ok (), known)
  | p :: ps =>
    match p.parent? with
    | none   => request t workingDirectory known ps
    | some d =>
      if known.any (·.spelled = d.spelled) then request t workingDirectory known ps
      else
        match t.find (workingDirectory.join d) with
        | .ok _    => request t workingDirectory (known ++ [d]) ps
        | .error e => (.error (.watch (workingDirectory.join d) e), known ++ [d])

/-- Tracks files in place of those before. -/
def track (w : Watcher) (t : Tree) (workingDirectory : Path) (files : List Path) :
    Except Failure Unit × Watcher :=
  let files := Path.distinct (files.map (canonical t workingDirectory))
  let (result, directories) := request t workingDirectory w.directories files
  (result, ⟨directories, files⟩)

end Watcher

end UtilityCss
