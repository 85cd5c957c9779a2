import Graphing.CommandLine.Table

/-!
# The program

Prints what the command leaves behind and ends with its status. Text is colored on
a terminal, unless the environment says otherwise.
-/

namespace Graphing.CommandLine

/-- Whether a setting of the environment is there and not zero. -/
def isOn (setting : Option String) : Bool :=
  setting.elim false fun value => value != "0"

/-- Chooses the ink from the environment. -/
def chooseInk (forced noColor allowed : Option String) (terminal : Bool) : Text.Ink :=
  if isOn forced then .colored
  else if noColor.isSome then .plain
  else if allowed.elim terminal fun value => value != "0" && terminal then .colored
  else .plain

end Graphing.CommandLine

/-- Runs the command. -/
def main (arguments : List String) : IO UInt32 := do
  let stdout ← IO.getStdout
  let stderr ← IO.getStderr
  let ink := Graphing.CommandLine.chooseInk (← IO.getEnv "CLICOLOR_FORCE")
    (← IO.getEnv "NO_COLOR") (← IO.getEnv "CLICOLOR") (← stdout.isTty)
  let response := Graphing.CommandLine.respond ink arguments
  stdout.putStr response.output
  stderr.putStr response.errors
  return response.status.toUInt32
