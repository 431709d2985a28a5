import UtilityCss.Build.Job
import UtilityCss.Markup.Head

/-!
# Delivering styles

Styles are delivered to target documents, either as a block in each of them or as a stylesheet with a
link in each. The stylesheet is written first, whether there are targets or not. A target that is no
file is reported and passed over; one that would not change is not written.
-/

namespace UtilityCss

/-- What a delivery did. -/
structure Delivery where
  /-- The stylesheet that was written. -/
  stylesheet  : Option Path
  /-- The targets that were changed. -/
  updated     : List Path
  diagnostics : List Diagnostic
deriving DecidableEq, Repr

namespace Delivery

/-- The first line of a stylesheet. -/
def header (time : String) : String := "/* Generated by valcss v0.3.0 on " ++ time ++ " */\n"

/-- How a target refers to the stylesheet: from the directory of the target if the stylesheet lies
below it, and by its whole path otherwise. -/
def href (output target : Path) : String :=
  let seen := (target.parent?.bind output.from?).getD output
  Text.replaceChar '\\' '/' seen.text

/-- Writes the stylesheet. -/
def writeStylesheet (output : Path) (css : String) : Job Unit := do
  if let some directory := output.parent? then
    if !directory.text.isEmpty then Job.files .io (FileM.makeDirectories directory)
  Job.files (.output output) (FileM.replace output (header (← get).time ++ css ++ "\n"))
  Job.say .info ("Wrote " ++ output.text)

/-- The text of a target with the styles. -/
def styled (mode : InjectMode) (css : String) (output target : Path) (html : String) : String :=
  match mode with
  | .inline => Markup.inlineStyles html css
  | .link   => Markup.linkStylesheet html (href output target)

/-- Brings the styles to one target. -/
def toTarget (mode : InjectMode) (css : String) (output target : Path) : Job Delivery := do
  let t := (← get).tree
  if t.isFile target then
    let html ← Job.read fun t => (t.readText target).mapError (.input target)
    let result := styled mode css output target html
    if result = html then return ⟨none, [], []⟩
    else
      Job.files (.output target) (FileM.replace target result)
      Job.say .info ("Updated " ++ target.text)
      return ⟨none, [target], []⟩
  else return ⟨none, [], [.warning "Target HTML file not found" target.text]⟩

/-- Brings the styles to targets in order. -/
def toTargets (mode : InjectMode) (css : String) (output : Path) : List Path → Job Delivery
  | []      => return ⟨none, [], []⟩
  | p :: ps => do
    let first ← toTarget mode css output p
    let later ← toTargets mode css output ps
    return ⟨none, first.updated ++ later.updated, first.diagnostics ++ later.diagnostics⟩

/-- Delivers styles. -/
def deliver (mode : InjectMode) (css : String) (output : Path) (targets : List Path) :
    Job Delivery := do
  if mode = .link then writeStylesheet output css
  let d ← toTargets mode css output targets
  return { d with stylesheet := if mode = .link then some output else none }

end Delivery

end UtilityCss
