import CimConsole.LogLevel
import CimConsole.Shell

/-!
One run of the program: from the words and the variables that it is started with to a
command in its context, and from the end of the command to the exit code. The texts that
the run wrote stand in the context.
-/
namespace CimConsole

/-- How the program is started. -/
structure Invocation where
  words : List String
  environment : List (String × String) := []
  /-- Whether a terminal shows what is written. -/
  onTerminal : Bool := false

/-- What a run leaves. -/
structure Exit where
  code : UInt32 := 0
  out : String := ""
  err : String := ""
  files : Files := {}

namespace Invocation

/-- The variables that count. -/
def variableNames : List String := ["NO_COLOR", "COLUMNS"] ++ Options.variableNames

def setting? (i : Invocation) (name : String) : Option String := i.environment.lookup name

def terminal (i : Invocation) : Terminal where
  color := i.onTerminal && (i.setting? "NO_COLOR").isNone
  width := Terminal.widthOf (i.setting? "COLUMNS")

/-- The command to run, with its context. -/
def start (i : Invocation) : Except Arguments.UsageError (Command × Context) := do
  let levels ← Arguments.programGrammar.read i.words
  let level := LogLevel.ofFlags (Arguments.times levels "verbose") (Arguments.has levels "quiet")
  match Arguments.command? levels with
  | none => .error (.missingCommand (Arguments.programGrammar.usage [Arguments.programGrammar.name]))
  | some command =>
    pure (command, {
      options := (Arguments.options levels).withEnvironment i.setting?
      terminal := i.terminal
      warns := LogLevel.warn.rank ≤ level.rank })

end Invocation

namespace Exit

/-- What was asked for goes out with success; a misuse is told with exit code 2. -/
def ofUsage (e : Arguments.UsageError) (files : Files) : Exit :=
  if e.isAnswer then { out := e.message ++ "\n", files }
  else { code := 2, err := "error: " ++ e.message ++ "\n", files }

/-- The end of a command, whose failure is told last. -/
def ofRun (result : Except Failure Unit) (c : Context) : Exit :=
  match result with
  | .ok () => { out := c.out, err := c.err, files := c.files }
  | .error e =>
    { code := e.exitCode, out := c.out, err := c.err ++ "Error: " ++ e.text ++ "\n", files := c.files }

end Exit

/-- A run with all input at hand, a line an answer. -/
def Invocation.run (i : Invocation) (input : List String) (files : Files) : Exit :=
  match i.start with
  | .error e => .ofUsage e files
  | .ok (command, context) =>
    let (result, c) := command.run.run.run { context with files, answers := input }
    .ofRun result c

end CimConsole
