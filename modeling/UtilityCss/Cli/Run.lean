import UtilityCss.Build.Builder
import UtilityCss.Cli.Arguments

/-!
# Running a command

A run reads its arguments, does one command and ends with a code: 0 if all went well, 1 if the command
failed and 2 if the arguments are no command. Stylesheets go to the output; the report of a build, its
diagnostics and all failures go to the messages.
-/

namespace UtilityCss.Cli

/-- A message of a run. -/
inductive Message where
  /-- A line of a report. -/
  | line (l : ReportLine)
  | plain (text : String)
deriving DecidableEq, Repr

/-- What a run shows. -/
structure Outcome where
  code     : Nat
  output   : String
  messages : List Message
  /-- The builder and the files of a build that goes on watching. -/
  watching : Option (Builder × List Path)
deriving DecidableEq

namespace Outcome

/-- A run that ends well. -/
def done (output : String) (messages : List Message) : Outcome := ⟨0, output, messages, none⟩

/-- A run that ends with a failure, which is told last. -/
def failed (messages : List Message) (text : String) : Outcome :=
  ⟨1, "", messages ++ [.plain ("Error: " ++ text)], none⟩

end Outcome

/-- The line that reports a diagnostic. -/
def diagnosticLine (d : Diagnostic) : Message :=
  .line ⟨match d.severity with
    | .warning => .warn
    | .info    => .info, d.text⟩

/-- The lines that report a result. -/
def resultLines (r : BuildResult) : List Message :=
  r.diagnostics.map diagnosticLine ++
    [.line ⟨.info, "Processed " ++ toString r.filesProcessed ++ " files, compiled " ++
      toString r.compiled ++ " of " ++ toString r.tokens ++ " classes"⟩]

/-- The wording of a failure that ends a run, with its inner cause. -/
def failureText (e : Failure) : String :=
  e.message ++ (match e.inner? with
    | some cause => "\n\nCaused by:\n    " ++ cause
    | none       => "")

/-- The options of a build. -/
def optionsOf (a : BuildArguments) (workingDirectory : Path) : BuildOptions :=
  ⟨a.config.map (⟨·⟩), a.output, a.dryRun, workingDirectory⟩

/-- Builds once. -/
def runBuild (a : BuildArguments) (workingDirectory : Path) (s : Session) : Outcome × Session :=
  let (result, s) := UtilityCss.build (optionsOf a workingDirectory) s
  let messages := s.report.map .line
  match result with
  | .ok r    => (.done (if a.dryRun then r.css ++ "\n" else "") (messages ++ resultLines r), s)
  | .error e => (⟨1, "", messages ++ [.line ⟨.error, e.message⟩], none⟩, s)

/-- Builds for the first time; if that goes well, the run goes on watching. -/
def runWatch (a : BuildArguments) (workingDirectory : Path) (s : Session) : Outcome × Session :=
  let (result, builder, s) := (Builder.new (optionsOf a workingDirectory)).run s
  let messages := s.report.map .line
  match result with
  | .ok r    => (⟨0, "", messages ++ resultLines r, some (builder, r.watched)⟩, s)
  | .error e => (.failed messages (failureText e), s)

/-- Makes a configuration. -/
def runInit (yaml : Bool) (workingDirectory : Path) (s : Session) : Outcome × Session :=
  match (Config.init workingDirectory yaml).run s with
  | (.ok p, s)    => (.done "" [.line ⟨.info, "Created " ++ p.text⟩], s)
  | (.error e, s) => (.failed [] (failureText e), s)

/-- Compiles the text of the input. -/
def runPipe (keepComments : Bool) (input : Content) : Outcome :=
  match input with
  | .binary _ => .failed [] FileError.notText.message
  | .text s   =>
    let sheet := Sheet.ofText s keepComments
    .done (if sheet.css.isEmpty then "" else sheet.css ++ "\n")
      (sheet.diagnostics.map diagnosticLine)

/-- Runs a command. -/
def runCommand (c : Command) (input : Content) (workingDirectory : Path) (s : Session) :
    Outcome × Session :=
  match c with
  | .build a =>
    match a.fault? with
    | some f => (.failed [] ("Invalid input: " ++ f.message), s)
    | none   => if a.watch then runWatch a workingDirectory s else runBuild a workingDirectory s
  | .init yaml => runInit yaml workingDirectory s
  | .pipe keep => (runPipe keep input, s)

/-- Runs the program. -/
def run (arguments : List String) (input : Content) (workingDirectory : Path) (s : Session) :
    Outcome × Session :=
  match Command.ofArguments arguments with
  | .ok c    => runCommand c input workingDirectory s
  | .error u =>
    (if u.isAnswer then .done (u.message ++ "\n") [] else ⟨2, "", [.plain u.message], none⟩, s)

end UtilityCss.Cli
