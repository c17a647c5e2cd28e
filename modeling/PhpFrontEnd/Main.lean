import PhpFrontEnd.Command

/-!
# The command line

Reads the file of a command, runs the command, and prints what comes of it.
-/

namespace PhpFrontEnd

/-- How the program is called. -/
def usage : String :=
  "Usage: php-syntax tokens [--json] [OPTIONS] <PATH>\n" ++
  "       php-syntax check [OPTIONS] <PATH>\n\n" ++
  "Options:\n" ++
  "  --short-tags           Accept `<?` as an open tag\n" ++
  "  --unicode-escapes      Decode `\\u\x7b...\x7d` escapes\n" ++
  "  --encoding <ENCODING>  Source encoding (utf8, latin1)\n"

/-- Prints an outcome and gives its exit code. -/
def finish (outcome : Outcome) : IO UInt32 := do
  (← IO.getStdout).putStr outcome.output
  (← IO.getStderr).putStr outcome.errors
  return outcome.exitCode.toUInt32

/-- Runs a command on what its path leads to. The number 21 is how a folder answers to being read
like a file. -/
def runCommand (command : Command) : IO UInt32 := do
  match ← (IO.FS.readBinFile command.path).toBaseIO with
  | .ok bytes => finish (command.run (.file bytes.toList))
  | .error (.inappropriateType _ 21 _) => finish (command.run .folder)
  | .error (.inappropriateType ..) | .error (.noFileOrDirectory ..) =>
    finish (command.run .nothing)
  | .error error => finish (Command.failed s!"Error reading {command.path}: {error}")

end PhpFrontEnd

/-- Runs the command that the arguments make. -/
def main (arguments : List String) : IO UInt32 := do
  if arguments = ["--help"] then
    IO.print PhpFrontEnd.usage
    return 0
  match PhpFrontEnd.Command.ofArguments arguments with
  | .ok command => PhpFrontEnd.runCommand command
  | .error error => PhpFrontEnd.finish error.outcome
