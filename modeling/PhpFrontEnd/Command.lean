import PhpFrontEnd.Folder
import PhpFrontEnd.Json.Printer
import PhpFrontEnd.Lexer.Run
import PhpFrontEnd.Listing.Basic
import PhpFrontEnd.Listing.Document
import PhpFrontEnd.Listing.Report

/-!
# Commands

A file can be listed as tokens, in text or in JSON, or checked for problems only. Problems go to
the error output in both cases; they make a check fail if one of them is fatal, while a listing
succeeds as long as there is a file.

Running a command is a function of the command and of what its path leads to.
-/

namespace PhpFrontEnd

/-- What to do with a file. -/
inductive Action where
  | tokens (json : Bool)
  | check
  deriving DecidableEq

/-- A command and the file it is for. -/
structure Command where
  action : Action
  path : String
  settings : Settings := {}
  deriving DecidableEq

/-- What a command prints and how it ends. -/
structure Outcome where
  exitCode : UInt8
  output : String
  errors : String
  deriving DecidableEq

/-- The current version. -/
def version : String := "0.7.0"

/-! ## Arguments -/

/-- Whether an argument is an option, or would have to be one. A lone dash is not. -/
def Command.isOption (argument : String) : Bool :=
  argument.toList.head? = some '-' && argument != "-"

/-- The word for an action. -/
def Action.name : Action → String
  | .tokens _ => "tokens"
  | .check => "check"

/-- What is wrong with the arguments of a command. -/
inductive UsageError where
  | missingCommand
  | unknownCommand (name : String)
  | missingPath (action : Action)
  | missingEncoding
  | encoding (name : String) (error : UnknownEncoding)
  | repeated (action : Action) (option : String)
  | unexpected (action : Action) (argument : String)

namespace UsageError

/-- Where an argument that looks like an option may stand for itself. -/
def tip (argument : String) : String :=
  if Command.isOption argument then
    s!"  tip: to pass '{argument}' as a value, use '-- {argument}'\n\n"
  else ""

/-- How a command is called. -/
def usageLine (action : Action) : String := s!"Usage: php-syntax {action.name} [OPTIONS] <PATH>"

def message : UsageError → String
  | missingCommand => "a command is missing\n\nUsage: php-syntax <COMMAND>"
  | unknownCommand name => s!"unrecognized subcommand '{name}'\n\nUsage: php-syntax <COMMAND>"
  | missingPath action =>
    "the following required arguments were not provided:\n  <PATH>\n\n" ++
      s!"Usage: php-syntax {action.name} <PATH>"
  | missingEncoding => "a value is required for '--encoding <ENCODING>' but none was supplied"
  | encoding name error =>
    s!"invalid value '{name}' for '--encoding <ENCODING>': {error.message}"
  | repeated action option =>
    s!"the argument '{option}' cannot be used multiple times\n\n{usageLine action}"
  | unexpected action argument =>
    s!"unexpected argument '{argument}' found\n\n{tip argument}{usageLine action}"

/-- What is printed instead of running a command. -/
def outcome (error : UsageError) : Outcome :=
  { exitCode := 2
    output := ""
    errors := s!"error: {error.message}\n\nFor more information, try '--help'.\n" }

end UsageError

namespace Command

/-- Arguments read so far. -/
structure Arguments where
  action : Action
  shortTags : Bool := false
  codePoints : Bool := false
  encoding : Option Encoding := none
  path : Option String := none

namespace Arguments

def setPath (arguments : Arguments) (path : String) : Except UsageError Arguments :=
  if arguments.path.isSome then .error (.unexpected arguments.action path)
  else .ok { arguments with path }

def setEncoding (arguments : Arguments) (name : String) : Except UsageError Arguments :=
  if arguments.encoding.isSome then
    .error (.repeated arguments.action "--encoding <ENCODING>")
  else
    match Encoding.ofName name with
    | .ok encoding => .ok { arguments with encoding }
    | .error error => .error (.encoding name error)

/-- The value in an argument `--encoding=value`. -/
def encodingIn? (argument : String) : Option String :=
  let option := "--encoding=".toList
  if option.isPrefixOf argument.toList then
    some (String.ofList (argument.toList.drop option.length))
  else none

/-- Reads an argument that has its value with it, if it takes one. -/
def set (arguments : Arguments) (argument : String) : Except UsageError Arguments :=
  match argument, arguments.action with
  | "--json", .tokens json =>
    if json then .error (.repeated arguments.action argument)
    else .ok { arguments with action := .tokens true }
  | "--short-tags", action =>
    if arguments.shortTags then .error (.repeated action argument)
    else .ok { arguments with shortTags := true }
  | "--unicode-escapes", action =>
    if arguments.codePoints then .error (.repeated action argument)
    else .ok { arguments with codePoints := true }
  | _, action =>
    match encodingIn? argument with
    | some name => arguments.setEncoding name
    | none =>
      if isOption argument then .error (.unexpected action argument)
      else arguments.setPath argument

/-- Reads arguments. After two dashes every argument is a path. -/
def read (arguments : Arguments) : List String → Except UsageError Arguments
  | [] => .ok arguments
  | "--" :: rest => rest.foldlM setPath arguments
  | ["--encoding"] => .error .missingEncoding
  | "--encoding" :: name :: rest => do
    if isOption name then throw .missingEncoding
    read (← arguments.setEncoding name) rest
  | argument :: rest => do read (← arguments.set argument) rest

/-- The command that arguments make once all of them are read. -/
def command (arguments : Arguments) : Except UsageError Command :=
  match arguments.path with
  | none => .error (.missingPath arguments.action)
  | some path =>
    .ok
      { action := arguments.action
        path
        settings :=
          { encoding := arguments.encoding.getD .utf8
            shortTags := arguments.shortTags
            codePoints := arguments.codePoints } }

end Arguments

/-- The command that some arguments make. -/
def ofArguments : List String → Except UsageError Command
  | [] => .error .missingCommand
  | "tokens" :: rest => do (← Arguments.read { action := .tokens false } rest).command
  | "check" :: rest => do (← Arguments.read { action := .check } rest).command
  | name :: _ => .error (.unknownCommand name)

/-! ## Running -/

/-- Lines, each with its end. -/
def lines (lines : List String) : String := String.join (lines.map (· ++ "\n"))

/-- An outcome with nothing but an error. -/
def failed (error : String) : Outcome := { exitCode := 1, output := "", errors := lines [error] }

/-- Runs a command on the bytes of its file. -/
def runOn (command : Command) (bytes : List UInt8) : Outcome :=
  let source := command.settings.encoding.decode bytes
  let scan := (Lexer.start command.settings source).scan
  let reports := scan.diagnostics.map (·.report command.path source)
  match command.action with
  | .tokens json =>
    { exitCode := 0
      output :=
        if json then lines [(Json.array (scan.tokens.map Token.toJson)).pretty]
        else lines (scan.tokens.map Listing.tokenLine)
      errors := lines reports }
  | .check =>
    if scan.diagnostics.any (·.error.isFatal) then
      { exitCode := 1, output := "", errors := lines reports }
    else
      { exitCode := 0, output := "", errors := lines (reports ++ [s!"OK: {command.path}"]) }

/-- Runs a command on what its path leads to. -/
def run (command : Command) : Place → Outcome
  | .file bytes => command.runOn bytes
  | .folder => failed s!"Error reading {command.path}: Is a directory (os error 21)"
  | .nothing => failed s!"Error: file not found: {command.path}"

/-- What some arguments lead to in a folder. -/
def call (folder : Folder) (arguments : List String) : Outcome :=
  match ofArguments arguments with
  | .ok command => command.run (folder.find command.path)
  | .error error => error.outcome

end Command

end PhpFrontEnd
