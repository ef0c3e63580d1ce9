/-! # ApiChronicle.CommandLine.Arguments

The **form of command-line arguments**: options, flags and operands.

An option is given by its long name, as `--name value` or `--name=value`, or by
its letter, as `-n value`, `-nvalue` or `-n=value`. Letters of flags may be
written together. What starts with a dash is never taken for the value of the
option before it, unless it is a dash alone. After `--` everything is an operand.

Arguments are looked at from left to right, and the first one that settles the
matter does: a request for help or for the program's version, or a misuse.
-/

namespace ApiChronicle.CommandLine

/-- What ends the reading of arguments early. -/
inductive Stop
  | misuse
  | help
  | version
  deriving DecidableEq, Repr

/-- How often an option may be given and what comes with it. -/
inductive Arity
  /-- A flag that may be given once. -/
  | flag
  /-- A flag that may be repeated. -/
  | counter
  /-- An option with a value that may be given once. -/
  | value
  /-- An option with a value that may be repeated. -/
  | values
  /-- A flag that ends the reading. -/
  | stop (stop : Stop)
  deriving DecidableEq, Repr

namespace Arity

/-- Whether a value comes with the option. -/
def takesValue : Arity → Bool
  | value | values => true
  | flag | counter | stop _ => false

/-- Whether the option may be given once only. -/
def isSingle : Arity → Bool
  | flag | value => true
  | counter | values | stop _ => false

end Arity

/-- An option a command knows. -/
structure Opt where
  long : String
  letter : Option Char
  arity : Arity
  /-- Whether a value is acceptable. -/
  accepts : String → Bool

def Opt.flag (long : String) (letter : Option Char) : Opt := ⟨long, letter, .flag, fun _ => true⟩

/-- The arguments a command knows. -/
structure Grammar where
  options : List Opt
  /-- The most operands. -/
  operands : Nat
  /-- Whether an operand is acceptable. -/
  acceptsOperand : String → Bool

/-- The arguments that were given. -/
structure Given where
  /-- The options by long name, each time with its value. -/
  options : List (String × String)
  operands : List String
  deriving Repr

namespace Given

def nothing : Given := ⟨[], []⟩

def has (g : Given) (long : String) : Bool := (g.options.lookup long).isSome

def value? (g : Given) (long : String) : Option String := g.options.lookup long

/-- The values of a repeated option, in order. -/
def values (g : Given) (long : String) : List String :=
  g.options.filterMap fun (name, value) => if name = long then some value else none

end Given

namespace Grammar

def byName? (grammar : Grammar) (long : String) : Option Opt :=
  grammar.options.find? (·.long = long)

def byLetter? (grammar : Grammar) (letter : Char) : Option Opt :=
  grammar.options.find? (·.letter = some letter)

def give (option : Opt) (value : String) (given : Given) : Except Stop Given :=
  match option.arity with
  | .stop stop => .error stop
  | arity =>
    if arity.isSingle && given.has option.long then .error .misuse
    else if arity.takesValue && !option.accepts value then .error .misuse
    else .ok { given with options := given.options ++ [(option.long, value)] }

def giveOperand (grammar : Grammar) (operand : String) (given : Given) : Except Stop Given :=
  if given.operands.length < grammar.operands && grammar.acceptsOperand operand then
    .ok { given with operands := given.operands ++ [operand] }
  else .error .misuse

/-- A name and the value behind its first equals sign. -/
def splitAtEquals (text : List Char) : String × Option String :=
  let name := String.ofList (text.takeWhile (· != '='))
  match text.dropWhile (· != '=') with
  | [] => (name, none)
  | _ :: value => (name, some (String.ofList value))

/-- Take note of a long option. An option that still needs its value is returned. -/
def giveLong (grammar : Grammar) (text : List Char) (given : Given) :
    Except Stop (Given × Option Opt) :=
  let (name, value?) := splitAtEquals text
  match grammar.byName? name with
  | none => .error .misuse
  | some option =>
    match option.arity.takesValue, value? with
    | true, some value => (give option value given).map fun given => (given, none)
    | true, none => .ok (given, some option)
    | false, some _ => .error .misuse
    | false, none => (give option "" given).map fun given => (given, none)

/-- Take note of options by their letters. An option that still needs its value is
returned. -/
def giveLetters (grammar : Grammar) : List Char → Given → Except Stop (Given × Option Opt)
  | [], given => .ok (given, none)
  | letter :: rest, given =>
    match grammar.byLetter? letter with
    | none => .error .misuse
    | some option =>
      if option.arity.takesValue then
        match rest with
        | [] => .ok (given, some option)
        | '=' :: value => (give option (String.ofList value) given).map fun g => (g, none)
        | value => (give option (String.ofList value) given).map fun g => (g, none)
      else
        match give option "" given with
        | .error stop => .error stop
        | .ok given => grammar.giveLetters rest given

/-- Whether an argument starts like an option. -/
def isDashed (argument : String) : Bool :=
  match argument.toList with
  | ['-'] => false
  | '-' :: _ => true
  | _ => false

/-- Read arguments, where `pending` is an option that needs the next one as its
value. -/
def readFrom (grammar : Grammar) (pending : Option Opt) (given : Given) :
    List String → Except Stop Given
  | [] => if pending.isSome then .error .misuse else .ok given
  | argument :: rest =>
    match pending with
    | some option =>
      if isDashed argument then .error .misuse
      else (give option argument given).bind fun given => grammar.readFrom none given rest
    | none =>
      match argument.toList with
      | ['-', '-'] => rest.foldlM (fun given operand => grammar.giveOperand operand given) given
      | '-' :: '-' :: text =>
        (grammar.giveLong text given).bind fun (given, pending) =>
          grammar.readFrom pending given rest
      | '-' :: c :: letters =>
        (grammar.giveLetters (c :: letters) given).bind fun (given, pending) =>
          grammar.readFrom pending given rest
      | _ => (grammar.giveOperand argument given).bind fun given =>
          grammar.readFrom none given rest

/-- Read the arguments of a command. -/
def read (grammar : Grammar) (arguments : List String) : Except Stop Given :=
  grammar.readFrom none .nothing arguments

end Grammar

end ApiChronicle.CommandLine
