import UtilityCss.Build.Failure
import UtilityCss.File.Tree
import UtilityCss.Text.Terminal

/-!
# Jobs

A job works on the file tree, leaves a report of what it does, and may fail. What it has done before a
failure stays done. The time of the job is given from outside.
-/

namespace UtilityCss

/-- How important a line of a report is. -/
inductive Level where
  | error | warn | info
deriving DecidableEq, Repr

/-- A line of a report. -/
structure ReportLine where
  level : Level
  text  : String
deriving DecidableEq, Repr

/-- The text of a line as it is shown. -/
def ReportLine.shown (l : ReportLine) : String := Text.disarm l.text

/-- What a job works on. -/
structure Session where
  tree   : Tree
  report : List ReportLine
  /-- The time of the job, as it is written. -/
  time   : String
deriving DecidableEq

/-- Work on a session, which may fail. -/
abbrev Job := ExceptT Failure (StateM Session)

namespace Job

/-- Adds a line to the report. -/
def say (level : Level) (text : String) : Job Unit :=
  modify fun s => { s with report := s.report ++ [⟨level, text⟩] }

/-- What can be read off the tree. -/
def read {α : Type} (f : Tree → Except Failure α) : Job α := fun s => (f s.tree, s)

/-- An operation on the tree, whose errors become failures. -/
def files {α : Type} (failure : FileError → Failure) (m : FileM α) : Job α := fun s =>
  let (r, tree) := m.run s.tree
  (r.mapError failure, { s with tree })

end Job

end UtilityCss
