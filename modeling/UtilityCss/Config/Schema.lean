import UtilityCss.Breakpoint.Schema
import UtilityCss.Config.Basic
import UtilityCss.Yaml.Value

/-!
# Configurations as they are written

A configuration is written in JSON or in YAML, with the same fields. In YAML a text may be any scalar,
and a collection that is left out is an empty one; utilities, variants and breakpoints mean what the
JSON value of their node means.
-/

namespace UtilityCss

namespace Injection

/-- The fields of an injection that have been read. -/
structure Draft where
  mode    : Option InjectMode
  targets : Option (List String)

def Draft.empty : Draft := ⟨none, none⟩

/-- The injection of a draft. -/
def Draft.complete (d : Draft) : Injection :=
  ⟨d.mode.getD default.mode, d.targets.getD default.targets⟩

def fields : List (Json.Field Draft) :=
  [⟨"mode", false, (·.mode.isSome), fun depth =>
      (Json.Reader.variant InjectMode.named depth).map fun m d => { d with mode := some m }⟩,
   ⟨"targets", false, (·.targets.isSome), fun depth =>
      (Json.Reader.array (fun _ => .string) depth).map fun l d => { d with targets := some l }⟩]

/-- Reads an injection. -/
def reader (depth : Nat) : Json.Reader Injection :=
  (Json.Reader.record "InjectConfig" fields .empty depth).map Draft.complete

end Injection

namespace Config

/-- The fields of a configuration that have been read. -/
structure Draft where
  files       : Option (List String)
  output      : Option String
  inject      : Option Injection
  breakpoints : Option (OrderedMap String BreakpointValue)
  plugins     : Option (List Plugin)

def Draft.empty : Draft := ⟨none, none, none, none, none⟩

/-- The configuration of a draft. -/
def Draft.complete (d : Draft) : Config where
  files       := d.files.getD []
  output      := d.output.getD defaultOutput
  inject      := d.inject.getD .default
  breakpoints := d.breakpoints.getD ∅
  plugins     := d.plugins.getD []

def fields : List (Json.Field Draft) :=
  [⟨"files", true, (·.files.isSome), fun depth =>
      (Json.Reader.array (fun _ => .string) depth).map fun l d => { d with files := some l }⟩,
   ⟨"output", false, (·.output.isSome), fun _ =>
      Json.Reader.string.map fun s d => { d with output := some s }⟩,
   ⟨"inject", false, (·.inject.isSome), fun depth =>
      (Injection.reader depth).map fun i d => { d with inject := some i }⟩,
   ⟨"breakpoints", false, (·.breakpoints.isSome), fun depth =>
      (BreakpointValue.mapReader depth).map fun m d => { d with breakpoints := some m }⟩,
   ⟨"plugins", false, (·.plugins.isSome), fun depth =>
      (Json.Reader.array Plugin.reader depth).map fun l d => { d with plugins := some l }⟩]

/-- Reads a configuration. -/
def reader (depth : Nat) : Json.Reader Config :=
  (Json.Reader.record "ValcssConfig" fields .empty depth).map Draft.complete

/-- The configuration that a JSON text holds. -/
def ofJsonText (s : String) : Except Json.Error Config := Json.Reader.all reader s

end Config

/-! ### YAML -/

namespace Yaml

/-- A field of a record that is read from a node into a draft. -/
structure Field (σ : Type) where
  name  : String
  isSet : σ → Bool
  /-- Reads the value below the given number of levels of brackets. -/
  read  : Nat → Node → Meaning (σ → σ)

/-- Reads the entries of a record. A field may be given once; other entries are passed over. -/
def recordOf {σ : Type} (fields : List (Field σ)) (depth : Nat) (draft : σ) :
    List (Node × Node) → Meaning σ
  | []          => return draft
  | (k, n) :: l => do
    let name ← k.text
    match fields.find? (·.name = name) with
    | none   => recordOf fields depth draft l
    | some f =>
      if f.isSet draft then failure
      recordOf fields depth ((← f.read depth n) draft) l

/-- Reads a record. -/
def record {σ : Type} (fields : List (Field σ)) (depth : Nat) (draft : σ) (n : Node) :
    Meaning σ := do
  recordOf fields depth draft (← n.entries)

/-- What is there, if anything is. -/
def given {α : Type} : Option α → Meaning α
  | some a => return a
  | none   => failure

/-- Reads a sequence of scalars as texts. -/
def strings (n : Node) : Meaning (List String) := do (← n.items).mapM Node.text

/-- Reads a mapping whose keys are scalars. -/
def map {α : Type} (value : Node → Meaning α) (n : Node) : Meaning (OrderedMap String α) := do
  return .ofList (← (← n.entries).mapM fun (k, v) => return (← k.text, ← value v))

/-- The levels of brackets that a document may have. -/
def maxDepth : Nat := 128

end Yaml

namespace Plugin

def yamlFields : List (Yaml.Field Draft) :=
  [⟨"utilities", (·.utilities.isSome), fun depth n => do
      let m ← Yaml.map (fun v => do Yaml.given (Styles.ofJson? (← v.json (depth - 1)))) n
      return fun d => { d with utilities := some m }⟩,
   ⟨"variants", (·.variants.isSome), fun depth n => do
      let v ← Yaml.given (Variants.ofJson? (← n.json depth))
      return fun d => { d with variants := some v }⟩]

/-- Reads a plugin. -/
def ofYaml (depth : Nat) (n : Yaml.Node) : Yaml.Meaning Plugin := do
  let d ← Yaml.record yamlFields depth ⟨none, none⟩ n
  return ⟨d.utilities.getD ∅, d.variants.getD .none⟩

end Plugin

namespace Injection

/-- The mode that a scalar names: by its tag, if that has a name and the scalar says nothing, and else
by its text. -/
def modeOfScalar? (text : String) (plain : Bool) (tag : Option Yaml.Tag) : Option InjectMode :=
  match tag.bind Yaml.Tag.name? with
  | none      => InjectMode.ofName? text
  | some name =>
    if plain && (text.isEmpty || Yaml.isNull text) then InjectMode.ofName? name else none

/-- Reads a mode. -/
def modeOfYaml (n : Yaml.Node) : Yaml.Meaning InjectMode := do
  match ← n.resolve with
  | .scalar text plain tag => Yaml.given (modeOfScalar? text plain tag)
  | _                      => failure

def yamlFields : List (Yaml.Field Draft) :=
  [⟨"mode", (·.mode.isSome), fun _ n => do
      let m ← modeOfYaml n
      return fun d => { d with mode := some m }⟩,
   ⟨"targets", (·.targets.isSome), fun _ n => do
      let l ← Yaml.strings n
      return fun d => { d with targets := some l }⟩]

/-- Reads an injection. -/
def ofYaml (n : Yaml.Node) : Yaml.Meaning Injection := do
  return (← Yaml.record yamlFields 0 .empty n).complete

end Injection

namespace Config

def yamlFields : List (Yaml.Field Draft) :=
  [⟨"files", (·.files.isSome), fun _ n => do
      let l ← Yaml.strings n
      return fun d => { d with files := some l }⟩,
   ⟨"output", (·.output.isSome), fun _ n => do
      let s ← n.text
      return fun d => { d with output := some s }⟩,
   ⟨"inject", (·.inject.isSome), fun _ n => do
      let i ← Injection.ofYaml n
      return fun d => { d with inject := some i }⟩,
   ⟨"breakpoints", (·.breakpoints.isSome), fun depth n => do
      let m ← Yaml.map (fun v => do Yaml.given (BreakpointValue.ofJson? (← v.json (depth - 1)))) n
      return fun d => { d with breakpoints := some m }⟩,
   ⟨"plugins", (·.plugins.isSome), fun depth n => do
      let l ← (← n.items).mapM (Plugin.ofYaml (depth - 2))
      return fun d => { d with plugins := some l }⟩]

/-- Reads a configuration. -/
def ofYaml (n : Yaml.Node) : Yaml.Meaning Config := do
  let d ← Yaml.record yamlFields (Yaml.maxDepth - 1) .empty n
  if d.files.isNone then failure
  return d.complete

/-- The configuration that a YAML text holds. -/
def ofYamlText? (s : String) : Option Config := do (← Yaml.Document.ofText? s).read? ofYaml

end Config

end UtilityCss
