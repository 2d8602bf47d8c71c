import Workflow.Package.Options

/-!
# Arguments of the command line

What the program can be told to do, and how the arguments tell it. An argument that begins with a hyphen gives options,
in the long form by name or in the short form by letters; any other argument is an operand, and so is everything after
two hyphens that stand alone.
-/

namespace Workflow

/-- How the reports of a validation are written. -/
inductive ReportFormat
  | text
  | json
  deriving DecidableEq

/-- The format with a name. -/
def ReportFormat.ofText? : String → Option ReportFormat
  | "text" => some text
  | "json" => some json
  | _ => none

/-- What the program can be told to do. -/
inductive Command
  | help
  | validate (paths : List String) (strict : Bool) (format : ReportFormat)
  | convert (path output : String) (strict : Bool) (options : Options)
  deriving DecidableEq

/-- The options that arguments can give. -/
inductive OptionName
  | help
  | verbose
  | strict
  | format
  | output
  | moduleName
  | noComments
  | frameworkVersion
  deriving DecidableEq

namespace OptionName

/-- The name of an option, without the hyphens. -/
def long : OptionName → String
  | help => "help"
  | verbose => "verbose"
  | strict => "strict"
  | format => "format"
  | output => "output"
  | moduleName => "module-name"
  | noComments => "no-comments"
  | frameworkVersion => "framework-version"

/-- The letter of an option, if it has one. -/
def short? : OptionName → Option Char
  | help => some 'h'
  | verbose => some 'v'
  | output => some 'o'
  | _ => none

/-- Whether an option takes a value. -/
def takesValue : OptionName → Bool
  | format | output | moduleName | frameworkVersion => true
  | _ => false

/-- The options that go with every command. -/
def common : List OptionName := [help, verbose]

/-- The options of a validation. -/
def ofValidate : List OptionName := common ++ [strict, format]

/-- The options of a conversion. -/
def ofConvert : List OptionName := common ++ [output, strict, moduleName, noComments, frameworkVersion]

end OptionName

/-- Why arguments say nothing that the program could do. -/
inductive UsageError
  | unknownCommand (name : String)
  | missingCommand
  | unknownOption (argument : String)
  | missingValue (option : OptionName)
  | unwantedValue (option : OptionName)
  | repeatedOption (option : OptionName)
  | invalidValue (option : OptionName) (value : String)
  | missingOption (option : OptionName)
  | missingPath
  | emptyPath
  | unwantedOperand (text : String)
  deriving DecidableEq

/-- The wording of a usage error. -/
def UsageError.message : UsageError → String
  | unknownCommand name => "unknown command '" ++ name ++ "'"
  | missingCommand => "no command given"
  | unknownOption argument => "unexpected argument '" ++ argument ++ "'"
  | missingValue option => "option '--" ++ option.long ++ "' needs a value"
  | unwantedValue option => "option '--" ++ option.long ++ "' takes no value"
  | repeatedOption option => "option '--" ++ option.long ++ "' given more than once"
  | invalidValue option value => "invalid value '" ++ value ++ "' for option '--" ++ option.long ++ "'"
  | missingOption option => "option '--" ++ option.long ++ "' is required"
  | missingPath => "no workflow file given"
  | emptyPath => "empty path given"
  | unwantedOperand text => "unexpected argument '" ++ text ++ "'"

/-- What the arguments can be, for a reader. -/
def usage : String :=
  "Usage: flowc validate PATH... [--strict] [--format text|json]\n" ++
  "       flowc convert PATH --output DIR [--strict] [--module-name NAME] [--no-comments]\n" ++
  "                     [--framework-version VERSION]\n"

/-- What arguments are made of. -/
inductive Item
  | operand (text : String)
  | option (name : OptionName) (value : Option String)
  deriving DecidableEq

namespace Item

/-- Whether an argument gives options. A hyphen alone does not. -/
def givesOptions (argument : String) : Bool :=
  match argument.toList with
  | '-' :: _ :: _ => true
  | _ => false

/-- A text cut at its first equals sign. -/
def cutAtEquals (cs : List Char) : String × Option String :=
  match cs.dropWhile (· != '=') with
  | [] => (String.ofList cs, none)
  | _ :: value => (String.ofList (cs.takeWhile (· != '=')), some (String.ofList value))

/-- The items of an argument, with the option at its end that still waits for its value. -/
abbrev Reading := List Item × Option OptionName

/-- Reads an argument that gives an option by name. `cs` is what follows the hyphens. -/
def ofLong (allowed : List OptionName) (cs : List Char) : Except UsageError Reading :=
  let (name, value) := cutAtEquals cs
  match allowed.find? (·.long == name) with
  | none => .error (.unknownOption ("--" ++ name))
  | some o =>
    match value with
    | some v => if o.takesValue then .ok ([.option o (some v)], none) else .error (.unwantedValue o)
    | none => if o.takesValue then .ok ([], some o) else .ok ([.option o none], none)

/-- Reads an argument that gives options by letters. What follows the letter of an option with a value is the value,
after an equals sign or without one. -/
def ofLetters (allowed : List OptionName) : List Char → Except UsageError Reading
  | [] => .ok ([], none)
  | c :: rest =>
    match allowed.find? (·.short? == some c) with
    | none => .error (.unknownOption ("-" ++ c.toString))
    | some o =>
      if o.takesValue then
        match rest with
        | [] => .ok ([], some o)
        | '=' :: value => .ok ([.option o (some (String.ofList value))], none)
        | value => .ok ([.option o (some (String.ofList value))], none)
      else do
        let (items, waiting) ← ofLetters allowed rest
        return (.option o none :: items, waiting)

/-- Reads one argument that gives options. -/
def ofArgument (allowed : List OptionName) (argument : String) : Except UsageError Reading :=
  match argument.toList with
  | '-' :: '-' :: cs => ofLong allowed cs
  | cs => ofLetters allowed cs.tail

/-- Reads arguments. -/
def ofArguments (allowed : List OptionName) : List String → Except UsageError (List Item)
  | [] => .ok []
  | argument :: rest =>
    if argument = "--" then .ok (rest.map .operand)
    else if givesOptions argument then do
      match ← ofArgument allowed argument with
      | (items, none) => return items ++ (← ofArguments allowed rest)
      | (items, some o) =>
        match rest with
        | [] => .error (.missingValue o)
        | value :: rest =>
          if givesOptions value then .error (.missingValue o)
          else return items ++ .option o (some value) :: (← ofArguments allowed rest)
    else return .operand argument :: (← ofArguments allowed rest)

/-- The operands among items. -/
def operands (items : List Item) : List String :=
  items.filterMap fun
    | .operand text => some text
    | _ => none

/-- The values that an option is given with. -/
def given (items : List Item) (o : OptionName) : List (Option String) :=
  items.filterMap fun
    | .option name value => if name = o then some value else none
    | _ => none

/-- Whether an option without a value is given. It may be given once. -/
def flag (items : List Item) (o : OptionName) : Except UsageError Bool :=
  match given items o with
  | [] => .ok false
  | [_] => .ok true
  | _ => .error (.repeatedOption o)

/-- The value of an option, if it is given. It may be given once. -/
def value? (items : List Item) (o : OptionName) : Except UsageError (Option String) :=
  match given items o with
  | [] => .ok none
  | [value] => .ok value
  | _ => .error (.repeatedOption o)

/-- A path, which cannot be empty. -/
def path (text : String) : Except UsageError String :=
  if text.isEmpty then .error .emptyPath else .ok text

end Item

namespace Command

open Item

/-- The validation that items tell. -/
def validateOfItems (items : List Item) : Except UsageError Command := do
  let paths ← (operands items).mapM path
  if paths.isEmpty then .error .missingPath
  let strict ← flag items .strict
  match ← value? items .format with
  | none => return .validate paths strict .text
  | some name =>
    match ReportFormat.ofText? name with
    | some format => return .validate paths strict format
    | none => .error (.invalidValue .format name)

/-- The framework version that items tell. -/
def frameworkOfItems (items : List Item) : Except UsageError FrameworkVersion := do
  match ← value? items .frameworkVersion with
  | none => return .newer
  | some name =>
    match FrameworkVersion.ofText name with
    | .ok version => return version
    | .error _ => .error (.invalidValue .frameworkVersion name)

/-- The conversion that items tell. -/
def convertOfItems (items : List Item) : Except UsageError Command := do
  let source ←
    match operands items with
    | [] => .error .missingPath
    | [text] => path text
    | _ :: text :: _ => .error (.unwantedOperand text)
  let output ←
    match ← value? items .output with
    | none => .error (.missingOption .output)
    | some text => path text
  let strict ← flag items .strict
  let options : Options :=
    { moduleName := ← value? items .moduleName
      includeComments := !(← flag items .noComments)
      framework := ← frameworkOfItems items }
  return .convert source output strict options

/-- The command with a name, as its arguments tell it. -/
def named (name : String) (arguments : List String) : Except UsageError Command := do
  match name with
  | "help" => return .help
  | "validate" =>
    let items ← Item.ofArguments OptionName.ofValidate arguments
    if (given items .help).isEmpty then validateOfItems items else return .help
  | "convert" =>
    let items ← Item.ofArguments OptionName.ofConvert arguments
    if (given items .help).isEmpty then convertOfItems items else return .help
  | _ => .error (.unknownCommand name)

/-- The command that arguments tell. Options that go with every command may stand before its name. -/
def ofArguments : List String → Except UsageError Command
  | [] => .error .missingCommand
  | argument :: rest =>
    if givesOptions argument then do
      let (items, _) ← ofArgument OptionName.common argument
      if (given items .help).isEmpty then ofArguments rest else return .help
    else named argument rest

end Command

end Workflow
