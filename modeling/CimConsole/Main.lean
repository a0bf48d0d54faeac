import CimConsole.Program

/-!
The program at a terminal. A command runs as a value on the files that it may read; when
it asks a question in vain, what it wrote is shown, a line is read and the command starts
again with one more answer.
-/
namespace CimConsole.Main

/-- What stands at a path, if anything can be seen there. -/
def entryAt? (path : String) : IO (Option FileEntry) := do
  match ← (IO.FS.readBinFile path).toBaseIO with
  | .ok bytes =>
    match String.fromUTF8? bytes with
    | some s => return some (.text s)
    | none => return some .malformed
  | .error (.inappropriateType ..) => return some .directory
  | .error _ => return none

/-- Adds what stands at some paths. -/
def addEntries (files : Files) (paths : List String) : IO Files := do
  let mut files := files
  for path in paths do
    if let some entry ← entryAt? path then
      files := (files.put path entry).toOption.getD files
  return files

/-- The files that a command with these options may read. -/
def loadFiles (options : Options) : IO Files := do
  let files ← addEntries {} [options.connectionsPath]
  addEntries files (options.repositoryPaths files)

/-- Stores the connections file if it has changed. -/
def storeFiles (path : String) (before after : Files) : IO Unit := do
  match after.read path with
  | .error _ => return ()
  | .ok content =>
    if (before.read path).toOption == some content then return ()
    if let some (folder, _) := Text.cutLast '/' path.toList then
      IO.FS.createDirAll (String.ofList folder)
    IO.FS.writeFile path content

/-- Shows what a text has behind its first characters. -/
def showFrom (stream : IO.FS.Stream) (shown : Nat) (s : String) : IO Unit := do
  stream.putStr (String.ofList (s.toList.drop shown))
  stream.flush

def showTexts (shownOut shownErr : Nat) (out err : String) : IO Unit := do
  showFrom (← IO.getStdout) shownOut out
  showFrom (← IO.getStderr) shownErr err

/-- Runs an action and takes answers from the input as they are asked for. -/
partial def interact {α : Type} (action : StateM Context α) (start : Context)
    (shownOut shownErr : Nat) : IO (α × Context) := do
  let (a, c) := action.run start
  match c.unanswered with
  | none =>
    showTexts shownOut shownErr c.out c.err
    return (a, c)
  | some (out, err) =>
    showTexts shownOut shownErr out err
    let line ← (← IO.getStdin).getLine
    if line.isEmpty then
      showTexts out.length err.length c.out c.err
      return (a, c)
    else
      interact action { start with answers := start.answers ++ [line] } out.length err.length

/-- The context for the next line of the shell: nothing is written or answered yet. -/
def nextContext (c : Context) (files : Files) : Context :=
  { c with files, answers := [], out := "", err := "", unanswered := none }

/-- Runs the lines of the input. -/
partial def runShell (c : Context) : IO Unit := do
  showFrom (← IO.getStderr) 0 Shell.prompt
  let line ← (← IO.getStdin).getLine
  if line.isEmpty then
    showFrom (← IO.getStderr) 0 "\n"
  else
    let files ← loadFiles c.options
    let (goesOn, next) ← interact (Shell.runLine line) (nextContext c files) 0 0
    storeFiles c.options.connectionsPath files next.files
    if goesOn then runShell next

/-- Runs a command to its end; the answer is the exit code. -/
def runCommand (command : Command) (c : Context) : IO UInt32 := do
  let files ← loadFiles c.options
  let (result, last) ← interact command.run.run { c with files } 0 0
  storeFiles c.options.connectionsPath files last.files
  let exit := Exit.ofRun result last
  showTexts last.out.length last.err.length exit.out exit.err
  return exit.code

def invocation (words : List String) : IO Invocation := do
  let environment ← Invocation.variableNames.filterMapM fun name => do
    return (← IO.getEnv name).map fun value => (name, value)
  return { words, environment, onTerminal := ← (← IO.getStdout).isTty }

def run (words : List String) : IO UInt32 := do
  match (← invocation words).start with
  | .error e =>
    let exit := Exit.ofUsage e {}
    showTexts 0 0 exit.out exit.err
    return exit.code
  | .ok (.shell, c) =>
    runShell c
    return 0
  | .ok (command, c) => runCommand command c

end CimConsole.Main

def main (words : List String) : IO UInt32 := do
  try CimConsole.Main.run words
  catch e =>
    (← IO.getStderr).putStrLn ("Error: " ++ toString e)
    return 1
