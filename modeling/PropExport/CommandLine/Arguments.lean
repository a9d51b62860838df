/-!
# Arguments

The command line: options, a command, and the options and operands of the command. Options that
concern every command may stand before or after its name; an option is given at most once in either
place, and the later place wins. An option's value follows it as the next argument, or directly:
after `=` in the long form, with or without `=` in the short form. Short options without a value may
be joined. After `--` only operands follow.
-/

namespace PropExport.CommandLine

/-- What the arguments ask for. -/
inductive Command where
  /-- Compile units, given by the paths of their files. -/
  | compile (units : List String)
  /-- Show the exported lines of a unit, or write them to a file. -/
  | dump (unit : String) (output : Option String)
  deriving DecidableEq, Repr

/-- The options that concern every command. -/
structure Settings where
  buildDir : Option String := none
  config : Option String := none
  verbose : Bool := false
  deriving DecidableEq, Repr

/-- What a run is to do. -/
inductive Invocation where
  | help
  | version
  | run (settings : Settings) (command : Command)
  deriving DecidableEq, Repr

/-- Where in the arguments an argument stands. -/
inductive Place where
  /-- Before the name of a command. -/
  | top
  | compile
  | dump
  deriving DecidableEq, Repr

/-- The options that take a value. -/
inductive Valued where
  | buildDir
  | config
  | output
  deriving DecidableEq, Repr

/-- The options. -/
inductive Choice where
  | valued (option : Valued)
  | verbose
  | help
  | version
  deriving DecidableEq, Repr

/-- What has been given in one place. -/
structure Given where
  settings : Settings := {}
  output : Option String := none
  operands : List String := []

/-- The option with a long name. -/
def ofLong? (place : Place) : String → Option Choice
  | "build-dir" => some (.valued .buildDir)
  | "config" => some (.valued .config)
  | "verbose" => some .verbose
  | "help" => some .help
  | "version" => if place = .top then some .version else none
  | "output" => if place = .dump then some (.valued .output) else none
  | _ => none

/-- The option with a short name. -/
def ofShort? (place : Place) : Char → Option Choice
  | 'b' => some (.valued .buildDir)
  | 'c' => some (.valued .config)
  | 'v' => some .verbose
  | 'h' => some .help
  | 'V' => if place = .top then some .version else none
  | 'o' => if place = .dump then some (.valued .output) else none
  | _ => none

/-- The command with a name. -/
def placeOf? : String → Option Place
  | "compile" => some .compile
  | "dump" => some .dump
  | _ => none

namespace Given

/-- Fills a slot that is still empty. Values are paths, so they are not empty. -/
def fill? (slot : Option String) (value : String) : Option (Option String) :=
  if slot.isSome ∨ value = "" then none else some (some value)

/-- Gives an option its value. -/
def set? (given : Given) (value : String) : Valued → Option Given
  | .buildDir => (fill? given.settings.buildDir value).map fun slot =>
    { given with settings := { given.settings with buildDir := slot } }
  | .config => (fill? given.settings.config value).map fun slot =>
    { given with settings := { given.settings with config := slot } }
  | .output => (fill? given.output value).map fun slot => { given with output := slot }

/-- Asks for a verbose run. -/
def setVerbose? (given : Given) : Option Given :=
  if given.settings.verbose then none
  else some { given with settings := { given.settings with verbose := true } }

/-- Adds an operand, if the place takes one more. -/
def addOperand? (place : Place) (given : Given) (operand : String) : Option Given :=
  let added := { given with operands := given.operands ++ [operand] }
  match place with
  | .top => none
  | .compile => if operand = "" then none else some added
  | .dump => if given.operands.isEmpty then some added else none

end Given

/-- What an argument leads to. -/
inductive Outcome where
  /-- Further arguments are read. An option may be waiting for its value. -/
  | more (given : Given) (waiting : Option Valued)
  | done (invocation : Invocation)

/-- Carries out an option, with a value that is attached to it. -/
def choose (given : Given) (attached : Option String) : Choice → Option Outcome
  | .valued option =>
    match attached with
    | some value => (given.set? value option).map (.more · none)
    | none => some (.more given (some option))
  | .verbose => if attached.isSome then none else given.setVerbose?.map (.more · none)
  | .help => if attached.isSome then none else some (.done .help)
  | .version => if attached.isSome then none else some (.done .version)

/-- Reads joined short options. The rest after an option that takes a value is its value. -/
def readShort (place : Place) (given : Given) : List Char → Option Outcome
  | [] => some (.more given none)
  | c :: cs =>
    match ofShort? place c with
    | none => none
    | some (.valued option) =>
      match cs with
      | [] => choose given none (.valued option)
      | '=' :: value => choose given (some (String.ofList value)) (.valued option)
      | value => choose given (some (String.ofList value)) (.valued option)
    | some choice =>
      match choose given none choice with
      | some (.more given _) => readShort place given cs
      | outcome => outcome

/-- Reads a long option, whose value may follow an equals sign. -/
def readLong (place : Place) (given : Given) (cs : List Char) : Option Outcome := do
  let name := cs.takeWhile (· != '=')
  let choice ← ofLong? place (String.ofList name)
  let attached :=
    match cs.dropWhile (· != '=') with
    | [] => none
    | _ :: value => some (String.ofList value)
  choose given attached choice

/-- The settings given in two places, of which the second wins. -/
def Settings.override (outer inner : Settings) : Settings where
  buildDir := inner.buildDir <|> outer.buildDir
  config := inner.config <|> outer.config
  verbose := inner.verbose || outer.verbose

/-- What the arguments come to at their end. -/
def finish (outer : Settings) (place : Place) (given : Given) : Option Invocation :=
  let settings := outer.override given.settings
  match place, given.operands with
  | .compile, unit :: units => some (.run settings (.compile (unit :: units)))
  | .dump, [unit] => some (.run settings (.dump unit given.output))
  | _, _ => none

/-- Reads the operands after `--`. -/
def readOperands (outer : Settings) (place : Place) (given : Given) :
    List String → Option Invocation
  | [] => finish outer place given
  | arg :: args => do readOperands outer place (← given.addOperand? place arg) args

/-- Reads arguments, given the settings from before the command, what was given since, and the
option that is waiting for its value. Gives nothing if the arguments are wrong. -/
def read (outer : Settings) (place : Place) (given : Given) (waiting : Option Valued) :
    List String → Option Invocation
  | [] => if waiting.isSome then none else finish outer place given
  | arg :: args =>
    match arg.toList, waiting with
    | ['-', '-'], none => readOperands outer place given args
    | '-' :: '-' :: cs, none =>
      match readLong place given cs with
      | none => none
      | some (.done invocation) => some invocation
      | some (.more given waiting) => read outer place given waiting args
    | '-' :: c :: cs, none =>
      match readShort place given (c :: cs) with
      | none => none
      | some (.done invocation) => some invocation
      | some (.more given waiting) => read outer place given waiting args
    | '-' :: _ :: _, some _ => none
    | _, some option =>
      match given.set? arg option with
      | none => none
      | some given => read outer place given none args
    | _, none =>
      if place = .top then
        if arg = "help" then
          match args with
          | [] => some .help
          | [name] => if (placeOf? name).isSome ∨ name = "help" then some .help else none
          | _ => none
        else
          match placeOf? arg with
          | none => none
          | some place => read given.settings place {} none args
      else
        match given.addOperand? place arg with
        | none => none
        | some given => read outer place given none args

/-- Reads the arguments of a run. -/
def parse (args : List String) : Option Invocation :=
  read {} .top {} none args

end PropExport.CommandLine
