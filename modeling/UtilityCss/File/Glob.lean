import UtilityCss.File.Pattern
import UtilityCss.File.Tree

/-!
# Finding files by pattern

A pattern for paths has one pattern for each component. A component without wildcards is looked up as
it is; one with wildcards is matched against the names in a directory, in their order; `**` stands for
everything below a directory, a directory before what stands in it. Found paths are spelled as the
pattern spells them.
-/

namespace UtilityCss

/-- A pattern for paths. -/
structure PathPattern where
  isAbsolute    : Bool
  components    : List Pattern
  /-- Only directories match. -/
  directoryOnly : Bool
deriving DecidableEq

namespace PathPattern

/-- Reads a pattern for paths. The whole text is checked first. -/
def ofText (s : String) : Except PatternError PathPattern := do
  let _ ← Pattern.ofText s.toList
  let path : Path := ⟨s⟩
  let body := if path.isAbsolute then s.toList.drop 1 else s.toList
  let components ← (Path.splitComponents body).mapM Pattern.ofText
  return ⟨path.isAbsolute, components, path.hasEndSlash⟩

/-- A name in a directory. Names in the directory `.` are spelled alone. -/
def child (directory : Path) (name : String) : Path :=
  if directory.text = "." then ⟨name⟩ else directory.join ⟨name⟩

/-- The directory entries `..` and `.`, as far as a pattern with a dot written out matches them. -/
def dotEntries (p : Pattern) : List String :=
  if p.beginsWithDot then ["..", "."].filter p.isMatch else []

/-- Whether a component without wildcards leads anywhere. -/
def leadsOn (t : Tree) (directory : Path) (name : String) : Bool :=
  if name = "." || name = ".." then t.isDirectory directory
  else t.exists? (child directory name)

/-- The names in the directory at a path. -/
def namesIn (t : Tree) (p : Path) : List String :=
  match t.find p with
  | .ok (place, .directory) => t.names place
  | _                       => []

/-- The paths below the directory at a path, with their last names and whether they are
directories. -/
def below (t : Tree) (p : Path) : List (Path × String × Bool) :=
  match t.find p with
  | .ok (place, .directory) =>
    (t.below place).map fun e => (e.1.foldl child p, e.1.getLast?.getD "", e.2 = .directory)
  | _ => []

/-- Patterns without the recursive ones at their head. -/
def dropRecursive (patterns : List Pattern) : List Pattern := patterns.dropWhile (·.isRecursive)

theorem length_dropRecursive_le (patterns : List Pattern) :
    (dropRecursive patterns).length ≤ patterns.length :=
  (List.dropWhile_suffix _).length_le

/-- The paths that components match, seen from a path that is there. -/
def expand (t : Tree) (directoryOnly : Bool) (p : Path) : List Pattern → List Path
  | []        => if directoryOnly && !t.isDirectory p then [] else [p]
  | q :: rest =>
    if q.isRecursive then
      match _h : dropRecursive rest with
      | []         => ((below t p).filter (·.2.2)).map (·.1)
      | q' :: rest' =>
        ((below t p).filter fun e => q'.isMatch e.2.1).flatMap fun e =>
          expand t directoryOnly e.1 rest'
    else
      match q.literal? with
      | some name =>
        if leadsOn t p name then expand t directoryOnly (child p name) rest else []
      | none =>
        if t.isDirectory p then
          (dotEntries q ++ (namesIn t p).filter q.isMatch).flatMap fun name =>
            expand t directoryOnly (child p name) rest
        else []
termination_by patterns => patterns.length
decreasing_by
  · have := length_dropRecursive_le rest
    rw [_h, List.length_cons] at this
    simp only [List.length_cons]
    omega
  all_goals simp

/-- The paths that a pattern matches, in order. -/
def paths (t : Tree) (p : PathPattern) : List Path :=
  expand t p.directoryOnly ⟨if p.isAbsolute then "/" else "."⟩ p.components

end PathPattern

/-- Paths without those that another one before them spells too. -/
def Path.distinct (paths : List Path) : List Path :=
  paths.foldl (fun l p => if l.any (·.spelled = p.spelled) then l else l ++ [p]) []

/-- The files that patterns match, each once, in order of first match. The first pattern that cannot
be read counts. -/
def Tree.filesMatching (t : Tree) (patterns : List String) : Except PatternError (List Path) := do
  let found ← patterns.mapM PathPattern.ofText
  return Path.distinct ((found.flatMap (PathPattern.paths t)).filter t.isFile)

end UtilityCss
