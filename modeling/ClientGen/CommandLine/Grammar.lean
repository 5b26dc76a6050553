import ClientGen.Number.Natural

/-!
# Options on a command line

A `Grammar` describes the options of a command; `Grammar.parse` reads arguments against it, from
left to right, and stops at the first problem.

An option gets its value from the same argument (`--name=value`, `-nvalue`, `-n=value`) or from the
next one. In the latter case the value waits and is checked when the next option comes, or at the
end: an argument that is not understood at all is reported before a waiting value that is wrong.
-/

namespace ClientGen.CommandLine

/-- Why a command line is not obeyed. -/
inductive UsageError where
  /-- help is asked for -/
  | help
  /-- the version is asked for -/
  | version
  /-- there are no arguments at all -/
  | nothing
  | unknownCommand (name : String)
  | unknownArgument (argument : String)
  | missingValue (option : String)
  /-- a value is none of the possible ones -/
  | invalidValue (option value : String)
  /-- a value is no number -/
  | invalidNumber (option value : String)
  /-- a value is given to an option that takes none -/
  | needlessValue (option value : String)
  /-- an option is given more than once -/
  | repeated (option : String)
  | missingOption (option : String)
  deriving DecidableEq, Repr

/-- The error for people. -/
def UsageError.message : UsageError → String
  | .help => "usage: swg <generate|validate|inspect|init> [options]"
  | .version => "swg"
  | .nothing => "usage: swg <generate|validate|inspect|init> [options]"
  | .unknownCommand name => "unrecognized subcommand `" ++ name ++ "`"
  | .unknownArgument argument => "unexpected argument `" ++ argument ++ "` found"
  | .missingValue option => "a value is required for `" ++ option ++ "` but none was supplied"
  | .invalidValue option value => "invalid value `" ++ value ++ "` for `" ++ option ++ "`"
  | .invalidNumber option value => "invalid number `" ++ value ++ "` for `" ++ option ++ "`"
  | .needlessValue option value => "unexpected value `" ++ value ++ "` for `" ++ option ++ "` found"
  | .repeated option => "the argument `" ++ option ++ "` cannot be used multiple times"
  | .missingOption option => "the required argument `" ++ option ++ "` was not provided"

/-- What the values of an option are. -/
inductive ValueKind where
  | text
  /-- a text that is not empty -/
  | path
  /-- an unsigned 64-bit integer -/
  | natural
  /-- one of several names -/
  | choice (names : List String)
  deriving DecidableEq, Repr

/-- What an option does. -/
inductive OptionKind where
  /-- is there or not -/
  | flag
  /-- has one value -/
  | single (kind : ValueKind)
  /-- has one value each time it is given -/
  | many (kind : ValueKind)
  | help
  | version
  deriving DecidableEq, Repr

/-- An option. -/
structure OptionSpec where
  /-- the name after two dashes -/
  name : String
  /-- the letter after one dash -/
  letter : Option Char := none
  kind : OptionKind
  required : Bool := false
  deriving DecidableEq, Repr

/-- Does the option take a value? -/
def OptionSpec.takesValue (o : OptionSpec) : Bool :=
  match o.kind with
  | .single _ | .many _ => true
  | _ => false

/-- The options of a command, and the argument that stands without an option. -/
structure Grammar where
  options : List OptionSpec
  positional : Option OptionSpec := none
  deriving Repr

/-- The options that were given with their values, in order. -/
abbrev Given := List (String × String)

/-- Checks a value. -/
def ValueKind.check (kind : ValueKind) (option value : String) : Except UsageError Unit :=
  match kind with
  | .text => .ok ()
  | .path => if value.isEmpty then .error (.missingValue option) else .ok ()
  | .natural =>
    if (Natural.parse? Natural.bound64 value.toList).isSome then .ok ()
    else .error (.invalidNumber option value)
  | .choice names =>
    if value ∈ names then .ok () else .error (.invalidValue option value)

/-- Takes an option with its values. -/
def OptionSpec.take (o : OptionSpec) (values : List String) (given : Given) :
    Except UsageError Given := do
  if o.takesValue && values.isEmpty then throw (.missingValue o.name)
  let isGiven := given.any (·.1 = o.name)
  match o.kind with
  | .help => throw .help
  | .version => throw .version
  | .flag => if isGiven then throw (.repeated o.name) else return given ++ [(o.name, "")]
  | .single kind =>
    if isGiven then throw (.repeated o.name)
    values.forM (kind.check o.name)
    return given ++ values.map ((o.name, ·))
  | .many kind =>
    values.forM (kind.check o.name)
    return given ++ values.map ((o.name, ·))

/-- How far the arguments have been read. -/
structure Progress where
  given : Given := []
  /-- the option whose value waits to be checked, with the value -/
  waiting : Option (OptionSpec × List String) := none
  /-- does the next argument belong to the waiting option? -/
  awaits : Bool := false
  /-- have all options been read? -/
  closed : Bool := false
  /-- was the argument without an option given? -/
  placed : Bool := false
  deriving Repr

namespace Progress

/-- Checks the value that waits. -/
def settle (p : Progress) : Except UsageError Progress :=
  match p.waiting with
  | none => .ok { p with awaits := false }
  | some (o, values) => do
    let given ← o.take values p.given
    return { p with given, waiting := none, awaits := false }

/-- Takes an option after what waits. -/
def take (p : Progress) (o : OptionSpec) (values : List String) : Except UsageError Progress := do
  let p ← p.settle
  return { p with given := ← o.take values p.given }

/-- An option that takes a value, with the value if it is in the same argument. -/
def valued (p : Progress) (o : OptionSpec) : Option String → Except UsageError Progress
  | some value => p.take o [value]
  | none => do
    let p ← p.settle
    return { p with waiting := some (o, []), awaits := true }

end Progress

namespace Grammar

/-- The option of a name. -/
def byName? (g : Grammar) (name : String) : Option OptionSpec := g.options.find? (·.name = name)

/-- The option of a letter. -/
def byLetter? (g : Grammar) (letter : Char) : Option OptionSpec :=
  g.options.find? (·.letter = some letter)

/-- The name and the value in an argument after two dashes. -/
def splitLong (s : List Char) : String × Option String :=
  let name := String.ofList (s.takeWhile (· ≠ '='))
  match s.dropWhile (· ≠ '=') with
  | [] => (name, none)
  | _ :: value => (name, some (String.ofList value))

/-- An argument with two dashes. -/
def long (g : Grammar) (p : Progress) (s : List Char) : Except UsageError Progress :=
  let (name, value) := splitLong s
  match g.byName? name with
  | none => .error (.unknownArgument ("--" ++ name))
  | some o =>
    if o.takesValue then p.valued o value
    else
      match value with
      | some value => .error (.needlessValue o.name value)
      | none => p.take o []

/-- The letters after one dash; what follows the letter of an option with a value is the value. -/
def letters (g : Grammar) : List Char → Progress → Except UsageError Progress
  | [], p => .ok p
  | c :: s, p =>
    match g.byLetter? c with
    | none => .error (.unknownArgument (String.ofList ['-', c]))
    | some o =>
      if o.takesValue then
        match s with
        | [] => p.valued o none
        | '=' :: value => p.valued o (some (String.ofList value))
        | value => p.valued o (some (String.ofList value))
      else do
        let p ← p.take o []
        g.letters s p

/-- An argument that belongs to no option. -/
def place (g : Grammar) (p : Progress) (argument : String) : Except UsageError Progress :=
  match g.positional with
  | some o =>
    if p.placed then .error (.unknownArgument argument)
    else do
      let p ← p.settle
      return { p with waiting := some (o, [argument]), placed := true }
  | none => .error (.unknownArgument argument)

/-- One argument. -/
def step (g : Grammar) (p : Progress) (argument : String) : Except UsageError Progress :=
  if p.closed then g.place p argument
  else
    match argument.toList with
    | ['-', '-'] => .ok { p with closed := true }
    | '-' :: '-' :: s => g.long p s
    | '-' :: c :: s => g.letters (c :: s) p
    | _ =>
      match p.awaits, p.waiting with
      | true, some (o, _) => .ok { p with waiting := some (o, [argument]), awaits := false }
      | _, _ => g.place p argument

/-- The first required option that was not given. -/
def missing? (g : Grammar) (given : Given) : Option String :=
  ((g.options ++ g.positional.toList).find? fun o =>
    o.required && !given.any (·.1 = o.name)).map (·.name)

/-- Reads arguments. -/
def parse (g : Grammar) (arguments : List String) : Except UsageError Given := do
  let p ← arguments.foldlM g.step {}
  let p ← p.settle
  match g.missing? p.given with
  | some name => throw (.missingOption name)
  | none => return p.given

end Grammar

end ClientGen.CommandLine
