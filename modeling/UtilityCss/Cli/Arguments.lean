import UtilityCss.Text.Blank

/-!
# Arguments of the command line

The first argument names a command; the others are switches and options of that command. An option has
a value, which follows it or stands in the same argument. The value of an option is settled when the
next switch or option comes, so what is wrong with it is found no earlier; an argument that nothing is
known about is refused at once.
-/

namespace UtilityCss.Cli

/-- A switch or an option. -/
structure Flag where
  name      : String
  /-- The letter that stands for it behind a single hyphen. -/
  letter?   : Option Char
  /-- It is an option. -/
  hasValue  : Bool
  /-- Its value may be empty. -/
  mayBeEmpty : Bool
deriving DecidableEq, Repr

/-- Why arguments are refused, or what they ask for instead of a command. -/
inductive Usage where
  /-- Nothing is known about an argument. -/
  | unknownArgument
  /-- An option has no value, or an empty one that it may not have. -/
  | invalidValue
  /-- A switch has a value. -/
  | tooManyValues
  /-- A switch or an option is given twice. -/
  | repeated
  | unknownCommand
  | missingCommand
  | help
  | version
deriving DecidableEq, Repr

namespace Usage

/-- Whether the arguments are in order and ask for a text only. -/
def isAnswer : Usage → Bool
  | help | version => true
  | _              => false

def message : Usage → String
  | unknownArgument => "error: unexpected argument"
  | invalidValue    => "error: a value is required"
  | tooManyValues   => "error: unexpected value"
  | repeated        => "error: an argument cannot be used twice"
  | unknownCommand  => "error: unrecognized command"
  | missingCommand  => "error: a command is required"
  | version         => "valcss 0.3.0"
  | help            =>
    "Usage: valcss <COMMAND>\n\n" ++
    "build [-c PATH] [-o PATH] [-w] [--dry-run] [-v]   build the stylesheet\n" ++
    "init [--yaml]                                     write a default config\n" ++
    "pipe [--keep-comments]                            read markup, write CSS"

end Usage

/-! ### Flags of a command -/

/-- What has been read of the arguments of a command. -/
structure Given where
  /-- The flags that are settled, with their values. -/
  settled : List (String × String)
  /-- An option that is not settled, with its value if that has come. -/
  pending : Option (Flag × Option String)

namespace Given

def empty : Given := ⟨[], none⟩

def has (g : Given) (name : String) : Bool := g.settled.any (·.1 = name)

def value? (g : Given) (name : String) : Option String :=
  (g.settled.find? (·.1 = name)).map (·.2)

/-- Settles a flag with its value. -/
def give (g : Given) (f : Flag) (value : String) : Except Usage Given :=
  if g.has f.name then .error .repeated
  else if f.hasValue && value.isEmpty && !f.mayBeEmpty then .error .invalidValue
  else .ok { g with settled := g.settled ++ [(f.name, value)] }

/-- Settles what is not settled. -/
def settle (g : Given) : Except Usage Given :=
  match g.pending with
  | none              => .ok g
  | some (_, none)    => .error .invalidValue
  | some (f, some v)  => { g with pending := none }.give f v

/-- An option whose value follows. -/
def await (g : Given) (f : Flag) : Except Usage Given := do
  return { (← g.settle) with pending := some (f, none) }

/-- An option with its value. -/
def setOption (g : Given) (f : Flag) (value : String) : Except Usage Given := do
  (← g.settle).give f value

/-- A switch. Two of them ask for a text and for nothing else. -/
def setSwitch (g : Given) (f : Flag) : Except Usage Given := do
  let g ← g.settle
  if f.name = "help" then throw .help
  else if f.name = "version" then throw .version
  else g.give f ""

/-- The letters of one argument. An option takes the rest of the argument as its value. -/
def setLetters (flags : List Flag) (g : Given) : List Char → Except Usage Given
  | []     => .ok g
  | c :: s =>
    match flags.find? (·.letter? = some c) with
    | none   => .error .unknownArgument
    | some f =>
      if f.hasValue then
        match s with
        | []       => g.await f
        | '=' :: v => g.setOption f (String.ofList v)
        | v        => g.setOption f (String.ofList v)
      else do setLetters flags (← g.setSwitch f) s

/-- A flag by its name, with the value in the same argument if there is one. -/
def setName (flags : List Flag) (g : Given) (name : String) (value? : Option String) :
    Except Usage Given :=
  match flags.find? (·.name = name) with
  | none   => .error .unknownArgument
  | some f =>
    match f.hasValue, value? with
    | true,  some v => g.setOption f v
    | true,  none   => g.await f
    | false, some _ => .error .tooManyValues
    | false, none   => g.setSwitch f

end Given

/-- The forms of an argument. -/
inductive Form where
  /-- Two hyphens and a name, and perhaps a value behind `=`. -/
  | name (name : String) (value? : Option String)
  /-- One hyphen and letters. -/
  | letters (s : List Char)
  /-- Two hyphens alone: no flags follow. -/
  | endOfFlags
  | plain

/-- The form of an argument. -/
def formOf (argument : String) : Form :=
  match argument.toList with
  | ['-', '-']      => .endOfFlags
  | '-' :: '-' :: s =>
    .name (String.ofList (s.takeWhile (· ≠ '=')))
      (match s.dropWhile (· ≠ '=') with
      | _ :: v => some (String.ofList v)
      | []     => none)
  | '-' :: c :: s   => .letters (c :: s)
  | _               => .plain

/-- Reads the arguments of a command. -/
def readFlags (flags : List Flag) (g : Given) : List String → Except Usage Given
  | []     => g.settle
  | a :: l =>
    match formOf a with
    | .name name value? => do readFlags flags (← g.setName flags name value?) l
    | .letters s        => do readFlags flags (← g.setLetters flags s) l
    | .endOfFlags       => if l.isEmpty then g.settle else .error .unknownArgument
    | .plain            =>
      match g.pending with
      | some (f, none) => readFlags flags { g with pending := some (f, some a) } l
      | _              => .error .unknownArgument

/-! ### Commands -/

/-- The arguments of a build. -/
structure BuildArguments where
  config  : Option String
  output  : Option String
  watch   : Bool
  dryRun  : Bool
  verbose : Bool
deriving DecidableEq, Repr

/-- Why the arguments of a build make no sense together. -/
inductive BuildFault where
  | emptyOutput
  | watchedDryRun
deriving DecidableEq, Repr

def BuildFault.message : BuildFault → String
  | emptyOutput   => "Missing value for --output"
  | watchedDryRun => "--watch and --dry-run cannot be combined"

/-- The first fault of the arguments of a build. -/
def BuildArguments.fault? (a : BuildArguments) : Option BuildFault :=
  if a.output.any fun s => Text.trim s.toList = [] then some .emptyOutput
  else if a.watch && a.dryRun then some .watchedDryRun
  else none

/-- A command with its arguments. -/
inductive Command where
  | build (arguments : BuildArguments)
  | init (yaml : Bool)
  | pipe (keepComments : Bool)
deriving DecidableEq, Repr

namespace Command

def helpFlag : Flag := ⟨"help", some 'h', false, true⟩

def buildFlags : List Flag :=
  [⟨"config",  some 'c', true,  false⟩,
   ⟨"output",  some 'o', true,  true⟩,
   ⟨"watch",   some 'w', false, true⟩,
   ⟨"dry-run", none,     false, true⟩,
   ⟨"verbose", some 'v', false, true⟩,
   helpFlag]

def initFlags : List Flag := [⟨"yaml", none, false, true⟩, helpFlag]

def pipeFlags : List Flag := [⟨"keep-comments", none, false, true⟩, helpFlag]

/-- The flags that may stand before a command. -/
def programFlags : List Flag := [helpFlag, ⟨"version", some 'V', false, true⟩]

/-- The names of commands, of which one asks for help. -/
def names : List String := ["build", "init", "pipe", "help"]

/-- Reads the arguments behind the name of a command. -/
def ofName (name : String) (arguments : List String) : Except Usage Command :=
  match name with
  | "build" => do
    let g ← readFlags buildFlags .empty arguments
    return build ⟨g.value? "config", g.value? "output", g.has "watch", g.has "dry-run",
      g.has "verbose"⟩
  | "init" => do return init ((← readFlags initFlags .empty arguments).has "yaml")
  | "pipe" => do return pipe ((← readFlags pipeFlags .empty arguments).has "keep-comments")
  | "help" =>
    match arguments with
    | []     => .error .help
    | [name] => .error (if names.contains name then .help else .unknownCommand)
    | _      => .error .unknownCommand
  | _ => .error .unknownCommand

/-- Reads the arguments of the program. -/
def ofArguments : List String → Except Usage Command
  | []     => .error .missingCommand
  | a :: l =>
    match formOf a with
    | .plain            => ofName a l
    | .name name value? => do
      let _ ← Given.empty.setName programFlags name value?
      ofArguments l
    | .letters s        => do
      let _ ← Given.empty.setLetters programFlags s
      ofArguments l
    | .endOfFlags       =>
      match l with
      | []     => .error .missingCommand
      | b :: _ => .error (if names.contains b then .unknownArgument else .unknownCommand)

end Command

end UtilityCss.Cli
