import ApiChronicle.Api.Written
import ApiChronicle.Audit.Written
import ApiChronicle.Catalogue.Definition
import ApiChronicle.CommandLine.Arguments
import ApiChronicle.CommandLine.FileTree
import ApiChronicle.Json.Text
import ApiChronicle.JsonSchema.Export

/-! # ApiChronicle.CommandLine

The **commands** of the program: what they ask for and what they answer.

A command names the catalogue it wants to see, is given what was found there, and
answers with a `Plan`: what to print, or what to write to which file. Only the last
step, `Invocation.run`, looks at files, and it reaches them through `Files`.
-/

namespace ApiChronicle.CommandLine

/-! ### Commands -/

/-- Where the result of a command goes. -/
structure Target where
  /-- The file to write; the standard output if none is named. -/
  output : Option String
  /-- Whether the result is indented. -/
  pretty : Bool
  deriving DecidableEq, Repr

inductive Command
  /-- Write the API at one version. -/
  | resolve (catalogue : String) (selection : Selection) (target : Target)
  /-- Write the JSON Schema of one type. -/
  | exportType (catalogue : String) (selection : Selection) (type : String) (target : Target)
  /-- Audit a catalogue. -/
  | check (catalogue : String) (format : String) (strict quiet : Bool)
  /-- List the schema versions. -/
  | versions

/-- What the arguments ask for. -/
inductive Invocation
  | command (command : Command)
  /-- Print how the program is used. -/
  | help
  /-- Print the version of the program. -/
  | version
  /-- The arguments cannot be understood. -/
  | misuse

def programVersion : String := "api-schema 0.1.0"

def usage : String :=
  "\n".intercalate
    ["usage: api-schema [-v] COMMAND",
     "  resolve CATALOGUE [-s VERSION] [-e ENDPOINT] [--auxiliary] [--output FILE] [--pretty]",
     "  export CATALOGUE -t TYPE [-s VERSION] [--auxiliary] [--output FILE] [--pretty]",
     "  check CATALOGUE [--format FORMAT] [--strict] [-q]",
     "  versions"]

/-! ### Reading arguments -/

/-- Options that every command knows. -/
def commonOptions : List Opt :=
  [⟨"verbose", some 'v', .counter, fun _ => true⟩, ⟨"help", some 'h', .stop .help, fun _ => true⟩]

/-- The option for a schema version. -/
def versionOption : Opt :=
  ⟨"schema-version", some 's', .value, fun text => (Version.named? text).isSome⟩

/-- The option for the file to write. -/
def outputOption : Opt := ⟨"output", none, .value, fun path => !path.isEmpty⟩

/-- A command on one catalogue. -/
def onCatalogue (options : List Opt) : Grammar :=
  ⟨options ++ commonOptions, 1, fun path => !path.isEmpty⟩

def resolveGrammar : Grammar := onCatalogue
  [versionOption, ⟨"endpoint", some 'e', .values, fun _ => true⟩, .flag "auxiliary" none,
   outputOption, .flag "pretty" none]

def exportGrammar : Grammar := onCatalogue
  [versionOption, ⟨"type", some 't', .value, fun _ => true⟩, .flag "auxiliary" none,
   outputOption, .flag "pretty" none]

def checkGrammar : Grammar := onCatalogue
  [⟨"format", none, .value, fun _ => true⟩, .flag "strict" none, .flag "quiet" (some 'q')]

def versionsGrammar : Grammar := ⟨commonOptions, 0, fun _ => false⟩

/-- The arguments before the name of a command. -/
def programGrammar : Grammar :=
  ⟨⟨"version", some 'V', .stop .version, fun _ => true⟩ :: commonOptions, 0, fun _ => false⟩

/-- The part of an API that is asked for. Without a version it is the latest. -/
def selectionOf (given : Given) : Selection :=
  let endpoints := given.values "endpoint"
  { version := ((given.value? "schema-version").bind Version.named?).getD .latest
    endpoints := if endpoints.isEmpty then none else some (SortedSet.ofList endpoints)
    includeAuxiliary := given.has "auxiliary" }

/-- Where the result goes. -/
def targetOf (given : Given) : Target := ⟨given.value? "output", given.has "pretty"⟩

/-- The words a command line can begin with. -/
def commandNames : List String := ["resolve", "export", "check", "versions", "help"]

/-- What comes of asking for help. It is about the program or about one of its commands;
no command has commands of its own, so a second word names nothing. -/
def helpOn : List String → Stop
  | [] => .help
  | [topic] => if commandNames.contains topic then .help else .misuse
  | _ => .misuse

/-- The command with a name, from the arguments behind it. -/
def commandOf (name : String) (arguments : List String) : Except Stop Command :=
  match name with
  | "resolve" => do
    let given ← resolveGrammar.read arguments
    match given.operands with
    | [path] => return .resolve path (selectionOf given) (targetOf given)
    | _ => .error .misuse
  | "export" => do
    let given ← exportGrammar.read arguments
    match given.operands, given.value? "type" with
    | [path], some type => return .exportType path (selectionOf given) type (targetOf given)
    | _, _ => .error .misuse
  | "check" => do
    let given ← checkGrammar.read arguments
    match given.operands with
    | [path] =>
      return .check path ((given.value? "format").getD "text") (given.has "strict")
        (given.has "quiet")
    | _ => .error .misuse
  | "versions" => do
    let _ ← versionsGrammar.read arguments
    return .versions
  | "help" => .error (helpOn arguments)
  | _ => .error .misuse

/-- The arguments before the name of the command, and those from there on. -/
def splitAtCommand (arguments : List String) : List String × List String :=
  let isOption := fun argument => Grammar.isDashed argument && argument != "--"
  (arguments.takeWhile isOption, arguments.dropWhile isOption)

/-- What the arguments ask for. -/
def Invocation.ofArguments (arguments : List String) : Invocation :=
  let (options, rest) := splitAtCommand arguments
  let command := do
    let _ ← programGrammar.read options
    match rest with
    | [] => .error .misuse
    | name :: arguments => commandOf name arguments
  match command with
  | .ok command => .command command
  | .error .help => .help
  | .error .version => .version
  | .error .misuse => .misuse

/-! ### Answers -/

/-- What the program prints, and its exit code. -/
structure Answer where
  exitCode : Nat
  stdout : String
  stderr : String
  deriving DecidableEq, Repr

/-- What the program does next. -/
inductive Plan
  | print (answer : Answer)
  | write (path content : String)

namespace Answer

def text (s : String) : Answer := ⟨0, s, ""⟩

/-- Complain and end with an exit code. -/
def complaint (exitCode : Nat) (message : String) : Answer :=
  ⟨exitCode, "", s!"Error: {message}\n"⟩

/-- The answer after a file was written, or could not be. -/
def ofWriting (path : String) (success : Bool) : Answer :=
  if success then ⟨0, "", ""⟩ else ⟨3, "", s!"Error writing to {path}\n"⟩

end Answer

def contentFault : Nat := 2

/-- The exit code of an audit with errors. -/
def auditFault : Nat := 1

/-- The definition in a catalogue. -/
def definitionIn (path : String) : Found → Except LoadError ApiDefinition
  | .missing => .error (.notFound path)
  | .unreadable => .error (.unreadable path)
  | .text content => ApiDefinition.ofText content

/-- Deliver a JSON value. -/
def deliver (target : Target) (value : Json) : Plan :=
  let text := if target.pretty then value.pretty else value.compact
  match target.output with
  | some path => .write path text
  | none => .print (.text (text ++ "\n"))

/-! ### The text of an audit -/

def red (s : String) : String := s!"\x1b[31m{s}\x1b[0m"

def green (s : String) : String := s!"\x1b[32m{s}\x1b[0m"

def yellow (s : String) : String := s!"\x1b[33m{s}\x1b[0m"

/-- The line of a diagnostic. A quiet audit prints errors only. -/
def diagnosticLine? (quiet : Bool) (d : Diagnostic) : Option String :=
  if quiet && d.severity != .error then none
  else
    let colour := match d.severity with
      | .error => red
      | .warning => yellow
    let tag := colour s!"{d.severity.keyword}[{d.finding.code}]"
    let at? := match d.finding.version? with
      | some v => s!" @ {v.text}"
      | none => ""
    some s!"    {tag}: {d.location}{at?} - {d.finding.message}"

/-- The lines of an endpoint. A quiet audit leaves out endpoints without
diagnostics. -/
def endpointLines (quiet : Bool) (e : EndpointAudit) : List String :=
  let icon := if e.isOk then green "✓" else red "✗"
  (if quiet && e.isOk then [] else [s!"  {icon} {e.endpoint} ({e.queries} queries)"]) ++
    e.diagnostics.filterMap (diagnosticLine? quiet)

def summaryLine (a : Audit) : String :=
  let count := a.endpoints.length
  if a.isOk then green s!"✓ {count} endpoints checked, all passed"
  else
    let outcome := s!"{a.passed} passed, {a.failed} failed"
    let errors := a.count .error
    let warnings := a.count .warning
    red s!"✗ {count} endpoints checked: {outcome} ({errors} errors, {warnings} warnings)"

def auditLines (path : String) (quiet : Bool) (a : Audit) : List String :=
  (if quiet then [] else [s!"Checking {path} ...", ""]) ++
    a.endpoints.flatMap (endpointLines quiet) ++
    a.declarations.filterMap (diagnosticLine? quiet) ++ ["", summaryLine a]

/-- Lines as a text. -/
def unlines (lines : List String) : String := String.join (lines.map (· ++ "\n"))

/-! ### Running commands -/

namespace Command

/-- The catalogue a command wants to see. -/
def catalogue? : Command → Option String
  | resolve path _ _ | exportType path _ _ _ | check path _ _ _ => some path
  | versions => none

/-- The API a catalogue offers, or the complaint that there is none. -/
def apiIn (path : String) (found : Found) (selection : Selection) : Except Answer Api := do
  let d ← (definitionIn path found).mapError fun e => .complaint e.exitCode e.message
  (d.build selection).mapError fun e => .complaint contentFault e.message

/-- What to do, given what was found in place of the catalogue. -/
def plan (found : Found) : Command → Plan
  | resolve path selection target =>
    match apiIn path found selection with
    | .error answer => .print answer
    | .ok api => deliver target api.toJson
  | exportType path selection type target =>
    match apiIn path found selection with
    | .error answer => .print answer
    | .ok api =>
      match api.typeDocument type with
      | .error e => .print (.complaint contentFault e.message)
      | .ok document => deliver target document.toJson
  | check path format strict quiet =>
    match definitionIn path found with
    | .error e => .print (.complaint e.exitCode e.message)
    | .ok d =>
      let audit := Audit.ofDefinition d strict
      let stdout :=
        if format = "json" then audit.toJson.pretty ++ "\n"
        else unlines (auditLines path quiet audit)
      .print ⟨if audit.isOk then 0 else auditFault, stdout, ""⟩
  | versions => .print (.text (unlines (Version.all.map Version.text)))

end Command

def Command.run {m : Type → Type} [Monad m] (files : Files m) (command : Command) :
    m Answer := do
  let found ← match command.catalogue? with
    | some path => files.find path
    | none => pure .missing
  match command.plan found with
  | .print answer => return answer
  | .write path content => return .ofWriting path (← files.write path content)

/-- Do what the arguments ask for. -/
def Invocation.run {m : Type → Type} [Monad m] (files : Files m) : Invocation → m Answer
  | command c => c.run files
  | help => return .text (usage ++ "\n")
  | version => return .text (programVersion ++ "\n")
  | misuse => return ⟨contentFault, "", usage ++ "\n"⟩

end ApiChronicle.CommandLine
