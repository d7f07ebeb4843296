import ProviderSchema.Assembly.Generation
import ProviderSchema.CommandLine.Arguments
import ProviderSchema.Configuration.Loading
import ProviderSchema.Configuration.Starter
import ProviderSchema.Files.State
import ProviderSchema.OpenApi.Reading

/-!
# Running commands

What a command does depends only on the files there are. It reads at most two of them, writes at
most one, and reports what it did: `Command.plan` is all of that except the writing itself, and
`FileState.run` is the whole as a function of the state of the files.
-/

namespace ProviderSchema

open OpenApi

/-- How a run ends: the exit code, what is written to the output and what is said. -/
structure Report where
  code : Nat := 0
  output : String := ""
  messages : String := ""
deriving DecidableEq, Repr, Inhabited

/-- A failure, with what caused it. -/
structure Failure where
  message : String
  cause : Option String := none
deriving DecidableEq, Repr, Inhabited

/-- A text with every line but the first indented by four spaces. -/
def indented (text : String) : String :=
  String.ofList (text.toList.flatMap fun c => if c = '\n' then "\n    ".toList else [c])

/-- The report of a failure. -/
def Failure.report (f : Failure) : Report :=
  let cause := match f.cause with
    | some cause => "\n\nCaused by:\n    " ++ indented cause
    | none => ""
  { code := 1, messages := "Error: " ++ f.message ++ cause ++ "\n" }

/-- What is left to do of a command. -/
inductive Plan where
  | report (report : Report)
  /-- Write a text to a file, and report that it is done. -/
  | write (path text : String) (done : Report)

/-! ## Generating -/

/-- The configuration at a path. -/
def loadConfiguration (read : String → Except FileError String) (path : String) :
    Except Failure Configuration :=
  match Configuration.load (read path) with
  | .error e =>
    let cause := match e with
      | .file e => some e.message
      | .unreadable => some ""
      | .invalid _ => none
    .error ⟨e.message path, cause⟩
  | .ok c =>
    match c.checked with
    | .error e => .error { message := e.message path }
    | .ok c => .ok c

/-- The format of the file at a path. -/
def formatOf (path : String) : Format :=
  if PathName.suffix? path = some "json" then .json else .yaml

/-- What is said about a document that is not read. -/
def documentFailure (path : String) (e : ReadingError) : Failure :=
  let line := match e with
    | .json (.malformed line) | .json (.truncated line) => " (line " ++ toString line ++ ")"
    | _ => ""
  { message := path ++ ": " ++ e.message ++ line }

/-- The description at a path, with the lines of its text. -/
def loadDescription (read : String → Except FileError String) (path : String) :
    Except Failure (Description × LineIndex) :=
  match read path with
  | .error e => .error ⟨"failed to read " ++ path, some e.message⟩
  | .ok text =>
    match Description.read (formatOf path) text with
    | .error e => .error (documentFailure path e)
    | .ok d => .ok (d, LineIndex.ofText text)

/-- Why nothing is generated. -/
def generationFailure (e : GenerationError) : Failure :=
  { message := e.message
    cause := match e with
      | .reference e => some e.message
      | _ => none }

/-- The provider that is generated from a document and a configuration. The configuration is read
first. -/
def generateFrom (read : String → Except FileError String) (input config : String) :
    Except Failure Generated :=
  match loadConfiguration read config with
  | .error f => .error f
  | .ok c =>
    match loadDescription read input with
    | .error f => .error f
    | .ok (d, lines) => (generate d c (some lines)).mapError generationFailure

/-- What is said about a provider that was generated. -/
def Generated.summary (g : Generated) : String :=
  let s := g.specification
  "  Provider: " ++ s.provider.name ++ "\n  Resources: " ++ toString s.resources.length
    ++ "\n  Data sources: " ++ toString s.dataSources.length ++ "\n"
    ++ if g.skipped.isEmpty then ""
      else
        "Skipped " ++ toString g.skipped.length ++ ":\n"
          ++ String.join (g.skipped.map fun s => "  " ++ s.kind.name ++ " " ++ s.message ++ "\n")

/-- The text of a specification. -/
def Specification.text (s : Specification) : String := s.toJson.pretty ++ "\n"

/-! ## All commands -/

/-- What is said if the arguments are not understood, and when help is asked for. -/
def usage : String :=
  "Generate a provider schema IR from an OpenAPI 3.x document\n\n"
    ++ "Usage: pir <COMMAND>\n\n"
    ++ "Commands:\n"
    ++ "  generate <INPUT> [--config <CONFIG>] [--output <OUTPUT>]\n"
    ++ "  validate <INPUT> [--config <CONFIG>]\n"
    ++ "  init [--force]\n"
    ++ "  completions <SHELL>\n"

namespace Command

/-- The files that a command reads. -/
def inputs : Command → List String
  | .generate input config _ => [config, input]
  | .validate input config => [config, input]
  | .init _ => [configurationFileName]
  | _ => []

/-- What a command does, given what is read from files. -/
def plan (read : String → Except FileError String) : Command → Plan
  | .generate input config output =>
    match generateFrom read input config with
    | .error f => .report f.report
    | .ok g =>
      let text := g.specification.text
      match output with
      | none => .report { output := text, messages := g.summary }
      | some path => .write path text { messages := "Wrote " ++ path ++ "\n" ++ g.summary }
  | .validate input config =>
    match generateFrom read input config with
    | .error f => .report f.report
    | .ok g =>
      .report { messages := "Valid document and config: " ++ input ++ "\n" ++ g.summary }
  | .init force =>
    let present := match read configurationFileName with
      | .error .notFound => false
      | _ => true
    if present && !force then
      .report (Failure.report
        { message := configurationFileName ++ " already exists. Use --force to overwrite." })
    else
      .write configurationFileName Configuration.starter
        { messages := "Created " ++ configurationFileName ++ "\n" }
  | .completions shell =>
    .report { output := "complete -W '" ++ Text.joinWith " " names ++ "' pir # " ++ shell ++ "\n" }
  | .version => .report { output := "pir 0.3.0\n" }
  | .help => .report { output := usage }

/-- What arguments ask for, given what is read from files. -/
def planOf (read : String → Except FileError String) (arguments : List String) : Plan :=
  match ofArguments? arguments with
  | some command => command.plan read
  | none => .report { code := 2, messages := usage }

end Command

/-- The report of a file that cannot be written. -/
def writeFailure (path : String) : WriteError → Failure
  | .directory e =>
    ⟨"failed to create directory " ++ PathName.parent path, some e.message⟩
  | .file e => ⟨"failed to write " ++ path, some e.message⟩

namespace FileState

/-- The report of a plan that is carried out, and the files after it. -/
def carryOut (s : FileState) : Plan → Report × FileState
  | .report r => (r, s)
  | .write path text done =>
    match s.write path text with
    | .error e => ((writeFailure path e).report, s)
    | .ok s => (done, s)

/-- The report of a run, and the files after it. -/
def run (s : FileState) (arguments : List String) : Report × FileState :=
  s.carryOut (Command.planOf s.read arguments)

end FileState

end ProviderSchema
