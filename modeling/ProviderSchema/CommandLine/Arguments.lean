import ProviderSchema.Configuration.Basic

/-!
# Arguments of the command line

What the program is asked to do. Options may stand before or after the input; a long option takes
its value from the next argument or after an equals sign, a short one also right behind its letter.
After `--` everything is an input. Nothing may be given twice, and no value is empty.
-/

namespace ProviderSchema

/-- What the program is asked to do. -/
inductive Command where
  /-- Generate a provider, into a file or to the output. -/
  | generate (input config : String) (output : Option String)
  /-- Check a description and a configuration. -/
  | validate (input config : String)
  /-- Write a configuration to start from. -/
  | init (force : Bool)
  /-- Write completions for a shell. -/
  | completions (shell : String)
  | version
  | help
deriving DecidableEq, Repr, Inhabited

namespace Command

/-- The shells that completions can be written for. -/
def shells : List String := ["bash", "elvish", "fish", "powershell", "zsh"]

/-- An option with a value, or a flag. -/
structure OptionName where
  long : String
  short : Option Char
  hasValue : Bool
deriving DecidableEq, Repr

/-- The option for the file of the configuration. -/
def configOption : OptionName := ⟨"--config", some 'c', true⟩

/-- The option for the file that is written. -/
def outputOption : OptionName := ⟨"--output", some 'o', true⟩

/-- The flag that lets a file be replaced. -/
def forceOption : OptionName := ⟨"--force", none, false⟩

/-- The arguments of a command. -/
structure Arguments where
  /-- The values of options, by their long names. -/
  options : List (String × String) := []
  inputs : List String := []
deriving DecidableEq, Repr, Inhabited

/-- How reading arguments ends. -/
inductive Parsed (α : Type) where
  | done (value : α)
  | help
  | wrong
deriving Repr

namespace Arguments

/-- The value of an option, or that of a flag if it is given. -/
def value? (a : Arguments) (o : OptionName) : Option String :=
  (a.options.find? fun entry => entry.1 = o.long).map (·.2)

/-- The arguments with the value of an option, which must not be given twice or be empty. -/
def withOption (a : Arguments) (o : OptionName) (value : String) : Option Arguments :=
  if (a.value? o).isSome || (o.hasValue && value = "") then none
  else some { a with options := (o.long, value) :: a.options }

/-- The arguments with an input, of which there are `limit` at most. -/
def withInput (a : Arguments) (limit : Nat) (input : String) : Option Arguments :=
  if limit ≤ a.inputs.length || input = "" then none
  else some { a with inputs := a.inputs ++ [input] }

/-- An argument before and after its first equals sign. -/
def splitValue (argument : List Char) : String × Option String :=
  match argument.dropWhile (· ≠ '=') with
  | [] => (String.ofList argument, none)
  | _ :: value => (String.ofList (argument.takeWhile (· ≠ '=')), some (String.ofList value))

/-- The value that is written right behind the letter of a short option. -/
def attachedValue (rest : List Char) : Option String :=
  match rest with
  | [] => none
  | '=' :: value => some (String.ofList value)
  | value => some (String.ofList value)

/-- The arguments that follow the mark after which everything is an input. -/
def plainInputs (limit : Nat) (a : Arguments) : List String → Parsed Arguments
  | [] => .done a
  | input :: rest =>
    match a.withInput limit input with
    | some a => plainInputs limit a rest
    | none => .wrong

/-- What an argument is. -/
inductive Word where
  /-- The mark after which everything is an input. -/
  | mark
  | help
  | flag (option : OptionName)
  /-- An option, with its value if that is not the next argument. -/
  | valued (option : OptionName) (value : Option String)
  | input (text : String)
  | unknown
deriving Repr

/-- What an argument is, where the given options are known. -/
def classify (known : List OptionName) (argument : String) : Word :=
  match argument.toList with
  | ['-', '-'] => .mark
  | '-' :: '-' :: rest =>
    let (name, value) := splitValue ('-' :: '-' :: rest)
    if name = "--help" then (if value.isNone then .help else .unknown)
    else
      match known.find? fun o => o.long = name with
      | none => .unknown
      | some o =>
        if o.hasValue then .valued o value else if value.isNone then .flag o else .unknown
  | '-' :: letter :: rest =>
    if letter = 'h' then .help
    else
      match known.find? fun o => o.short = some letter with
      | none => .unknown
      | some o => .valued o (attachedValue rest)
  | _ => .input argument

/-- Whether an argument can be the value of the option before it. -/
def canBeValue (argument : String) : Bool :=
  match argument.toList with
  | ['-'] => true
  | '-' :: _ => false
  | _ => true

/-- The arguments of a command that has the given options and `limit` inputs at most. -/
def parse (known : List OptionName) (limit : Nat) (a : Arguments) : List String → Parsed Arguments
  | [] => .done a
  | argument :: rest =>
    match classify known argument with
    | .mark => plainInputs limit a rest
    | .help => .help
    | .unknown => .wrong
    | .flag o =>
      match a.withOption o "" with
      | some a => parse known limit a rest
      | none => .wrong
    | .valued o (some value) =>
      match a.withOption o value with
      | some a => parse known limit a rest
      | none => .wrong
    | .valued o none =>
      match rest with
      | [] => .wrong
      | value :: rest =>
        if canBeValue value then
          match a.withOption o value with
          | some a => parse known limit a rest
          | none => .wrong
        else .wrong
    | .input text =>
      match a.withInput limit text with
      | some a => parse known limit a rest
      | none => .wrong

end Arguments

/-- A command of the given arguments, once they are read. -/
def ofParsed (build : Arguments → Option Command) : Parsed Arguments → Option Command
  | .done a => build a
  | .help => some .help
  | .wrong => none

/-- The configuration that is used. -/
def configOf (a : Arguments) : String := (a.value? configOption).getD configurationFileName

/-- The arguments of `generate`: one input. -/
def ofGenerate? (a : Arguments) : Option Command :=
  match a.inputs with
  | [input] => some (.generate input (configOf a) (a.value? outputOption))
  | _ => none

/-- The arguments of `validate`: one input. -/
def ofValidate? (a : Arguments) : Option Command :=
  match a.inputs with
  | [input] => some (.validate input (configOf a))
  | _ => none

/-- The arguments of `init`, which has no inputs. -/
def ofInit? (a : Arguments) : Option Command := some (.init (a.value? forceOption).isSome)

/-- The arguments of `completions`: one of the shells. -/
def ofCompletions? (a : Arguments) : Option Command :=
  match a.inputs with
  | [shell] => if shell ∈ shells then some (.completions shell) else none
  | _ => none

/-- The names of the commands. -/
def names : List String := ["generate", "validate", "init", "completions", "help"]

/-- What the arguments ask for; nothing if they are not understood. -/
def ofArguments? : List String → Option Command
  | [] => none
  | name :: rest =>
    if name = "generate" then
      ofParsed ofGenerate? (Arguments.parse [configOption, outputOption] 1 {} rest)
    else if name = "validate" then ofParsed ofValidate? (Arguments.parse [configOption] 1 {} rest)
    else if name = "init" then ofParsed ofInit? (Arguments.parse [forceOption] 0 {} rest)
    else if name = "completions" then ofParsed ofCompletions? (Arguments.parse [] 1 {} rest)
    else if name = "help" then
      match rest with
      | [] => some .help
      | [command] => if command ∈ names then some .help else none
      | _ => none
    else if name = "--help" || ['-', 'h'].isPrefixOf name.toList then some .help
    else if name = "--version" || ['-', 'V'].isPrefixOf name.toList then some .version
    else none

end Command

end ProviderSchema
