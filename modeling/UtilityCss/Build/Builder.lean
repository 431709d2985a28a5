import UtilityCss.Build.Delivery
import UtilityCss.Compiler.Configuration
import UtilityCss.Config.Load
import UtilityCss.File.Glob
import UtilityCss.Sheet

/-!
# Builds

A build loads the configuration, compiles the classes of the files that it lists, and delivers the
stylesheet. Paths of the configuration are seen from the directory that holds it. A builder keeps its
compiler from one build to the next; each build configures it anew, once the configuration is loaded.
-/

namespace UtilityCss

/-- What a build is asked for. -/
structure BuildOptions where
  /-- The configuration file; without one it is looked for in the working directory. -/
  config           : Option Path
  /-- The path of the stylesheet in place of the configured one. -/
  output           : Option String
  /-- Nothing is written. -/
  dryRun           : Bool
  workingDirectory : Path
deriving DecidableEq, Repr

/-- What a build did. -/
structure BuildResult where
  css            : String
  diagnostics    : List Diagnostic
  filesProcessed : Nat
  tokens         : Nat
  compiled       : Nat
  configPath     : Path
  /-- The files that were read and the configuration. -/
  watched        : List Path
  /-- The files that were written. -/
  written        : List Path
deriving DecidableEq, Repr

def BuildResult.warnings (r : BuildResult) : List Diagnostic := r.diagnostics.filter (·.isWarning)

namespace Build

/-- Documents without their comments, with their paths as names. -/
def readDocuments (t : Tree) (files : List Path) : Except Failure (List (String × String)) :=
  files.mapM fun p => do
    let s ← (t.readText p).mapError (.input p)
    return (p.text, Markup.strip s)

/-- The directory from which the paths of a configuration are seen. -/
def baseDirectory (options : BuildOptions) (configPath : Path) : Path :=
  configPath.parent?.getD options.workingDirectory

/-- Delivers the stylesheet of a configuration. -/
def deliver (options : BuildOptions) (config : Config) (base : Path) (css : String) :
    Job Delivery := do
  let output := base.join ⟨options.output.getD config.output⟩
  let targets := config.inject.targets.map fun p => base.join ⟨p⟩
  let missing :=
    if targets.isEmpty && config.inject.mode = .inline then
      [.warning "No inject targets found" "inject.targets"]
    else []
  let d ← Delivery.deliver config.inject.mode css output targets
  return { d with diagnostics := missing ++ d.diagnostics }

/-- Builds with a loaded configuration and a compiler that is configured by it, `found` being what was
found on the way. -/
def run (options : BuildOptions) (config : Config) (configPath : Path) (compiler : Compiler)
    (found : List Diagnostic) : Job BuildResult := do
  let base := baseDirectory options configPath
  let patterns := config.files.map fun p => (base.join ⟨p⟩).text
  let files ← Job.read fun t => (t.filesMatching patterns).mapError .pattern
  let empty : BuildResult :=
    { css := "", diagnostics := found, filesProcessed := files.length, tokens := 0, compiled := 0
      configPath, watched := files ++ [configPath], written := [] }
  if files.isEmpty then
    let none := Diagnostic.warning "No matching files found" (", ".intercalate config.files)
    return { empty with diagnostics := found ++ [none] }
  Job.say .info ("Generating CSS for " ++ toString files.length ++ " files...")
  let documents ← Job.read fun t => readDocuments t files
  let sheet := Sheet.ofIndex compiler (.ofDocuments compiler documents)
  let built :=
    { empty with
      css := sheet.css, tokens := sheet.tokens, compiled := sheet.compiled
      diagnostics := found ++ sheet.diagnostics }
  if options.dryRun then return built
  let d ← deliver options config base sheet.css
  return { built with
    diagnostics := built.diagnostics ++ d.diagnostics
    written     := d.stylesheet.toList ++ d.updated }

end Build

/-- A compiler that is kept for builds with the same options. -/
structure Builder where
  options  : BuildOptions
  compiler : Compiler
deriving DecidableEq

namespace Builder

def new (options : BuildOptions) : Builder := ⟨options, .default⟩

/-- The configuration of a builder, and its path. -/
def loadConfig (b : Builder) (t : Tree) : Except ConfigFailure (Config × Path) :=
  Config.load t (b.options.config.map b.options.workingDirectory.join) b.options.workingDirectory

/-- Builds once. The compiler is configured even if the build fails after that. -/
def run (b : Builder) (s : Session) : Except Failure BuildResult × Builder × Session :=
  match b.loadConfig s.tree with
  | .error e          => (.error (.config e), b, s)
  | .ok (config, path) =>
    let (compiler, found) := b.compiler.reconfigure config.breakpoints config.plugins
    let (result, s) := (Build.run b.options config path compiler found).run s
    (result, { b with compiler }, s)

end Builder

/-- Builds once with a new compiler. -/
def build (options : BuildOptions) (s : Session) : Except Failure BuildResult × Session :=
  let (result, _, s) := (Builder.new options).run s
  (result, s)

end UtilityCss
