import CimConsole.Arguments.Commands
import CimConsole.Command
import CimConsole.Shell.Words

/-!
The shell: it runs one command a line in one context, so that a server that was reached
stays, with its changes. A line that fails is told and the next one follows; only `exit`,
`quit` and the end of the lines end the shell.
-/
namespace CimConsole.Shell

open Text

def prompt : String := "wbemcli> "

/-- What a line asks for. -/
inductive Line where
  | blank
  | leave
  | unreadable (e : WordsError)
  | misused (e : Arguments.UsageError)
  | command (c : Command)

/-- The command that words stand for, in the grammar of a line. -/
def readCommand (words : List String) : Except Arguments.UsageError (Option Command) :=
  (Arguments.lineGrammar.read words).map Arguments.command?

def Line.ofString (line : String) : Line :=
  let line := trim line
  if line == "" then .blank
  else if line == "exit" || line == "quit" then .leave
  else
    match words line with
    | .error e => .unreadable e
    | .ok ws =>
      match readCommand ws with
      | .error e => .misused e
      | .ok (some c) => .command c
      | .ok none => .blank

/-- Writes an error as commands do. -/
def complain (s : String) : StateM Context Unit :=
  modify fun c => c.complain ((c.console .text).error s)

/-- Runs a command and tells its failure. -/
def runCommand : Command → StateM Context Unit
  | .shell => complain "Already in the repl"
  | command => do
    match ← command.run.run with
    | .ok () => pure ()
    | .error e => complain e.text

/-- Runs a line; tells whether the next one is wanted. -/
def runLine (line : String) : StateM Context Bool := do
  match Line.ofString line with
  | .leave => return false
  | .blank => pure ()
  | .unreadable e => complain ("Cannot split line: " ++ e.message)
  | .misused e =>
    if e.isAnswer then modify (Context.write (Console.line e.message)) else complain e.message
  | .command c => runCommand c
  return true

/-- Runs lines until one ends the shell; the answer is how many were asked for. -/
def run : List String → StateM Context Nat
  | [] => pure 1
  | line :: rest => do
    if ← runLine line then
      let asked ← run rest
      pure (asked + 1)
    else pure 1

end CimConsole.Shell
