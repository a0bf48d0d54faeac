import CimConsole.Command.Basic
import CimConsole.Command.Run

/-!
Commands about saved connections. Only the test of a connection reaches for a server.
-/
namespace CimConsole

open Text Document

namespace Connections

/-- A saved connection with its name, for machines. -/
def entryDocument (cs : Connections) (name : String) (c : Connection) : Document :=
  .record ([("name", .text name), ("default", .boolean (cs.default == some name))] ++ c.fields)

def row (cs : Connections) (name : String) (c : Connection) : List String :=
  [if cs.default == some name then "*" else "", name, c.summary, c.defaultNamespace.getD "",
    c.user.getD ""]

/-- All connections in a format. -/
def listText (cs : Connections) (path : String) (console : Console) : String :=
  let entries := cs.definitions.entries
  if console.format.isMachine then
    console.value (.list (entries.map fun (name, c) => cs.entryDocument name c))
  else if entries.isEmpty then Console.line ("No connections defined in " ++ path)
  else
    console.table ["Default", "Name", "Target", "Namespace", "User"]
      (entries.map fun (name, c) => cs.row name c)

/-- One connection for people. -/
def entryLines (cs : Connections) (name kind : String) (c : Connection) : List String :=
  ["name: " ++ name, "kind: " ++ kind, "target: " ++ c.summary]
    ++ (c.defaultNamespace.map ("default-namespace: " ++ ·)).toList
    ++ (c.user.map ("user: " ++ ·)).toList
    ++ (c.timeout.map fun n => "timeout: " ++ toString n.toNat).toList
    ++ (if c.noVerify then ["verify: false"] else [])
    ++ ["default: " ++ if cs.default == some name then "true" else "false"]

end Connections

namespace ConnectionCommand

def load : Run Connections := do
  let c ← get
  Run.orFail (c.options.loadConnections c.files)

/-- Writes the file of the connections. -/
def store (cs : Connections) : Run Unit := do
  let c ← get
  let files ← Run.orFail ((cs.save c.files c.options.connectionsPath).mapError .connections)
  set { c with files }

/-- The name that is given, or one that the user chooses. -/
def chooseName (cs : Connections) (name : Option String) (purpose : String) : Run String := do
  match name with
  | some name => pure name
  | none =>
    if cs.isEmpty then throw (.noConnections (← get).options.connectionsPath)
    else
      let choice ← Run.ask ("Select a connection to " ++ purpose) cs.names
      match choice.bind fun i => cs.names[i]? with
      | some name => pure name
      | none => throw .connectionNotChosen

def run : ConnectionCommand → Run Unit
  | .list => do
    let cs ← load
    Run.write (cs.listText (← get).options.connectionsPath (← Run.console .table))
  | .display name => do
    let cs ← load
    match name.or cs.default with
    | none => throw .noConnectionName
    | some name =>
      let c ← Run.orFail ((cs.get name).mapError .connections)
      let target ← Run.orFail c.target
      let console ← Run.console .text
      Run.write
        (if console.format.isMachine then console.value (cs.entryDocument name c)
        else Console.lines (cs.entryLines name target.kind c))
  | .save name setDefault => do
    match ← Run.orFail (← get).options.connection? with
    | none => throw .nothingToSave
    | some c =>
      let _ ← Run.orFail c.target
      let cs ← load
      let (replaced, cs) ← Run.orFail ((cs.add name c).mapError .connections)
      let cs ← if setDefault then Run.orFail ((cs.setDefault (some name)).mapError .connections)
        else pure cs
      store cs
      Run.write ((← Run.console .text).success
        ((if replaced then "Replaced" else "Saved") ++ " connection '" ++ name ++ "' in "
          ++ (← get).options.connectionsPath))
  | .delete name => do
    let cs ← load
    let name ← chooseName cs name "delete"
    let (_, cs) ← Run.orFail ((cs.delete name).mapError .connections)
    store cs
    Run.write ((← Run.console .text).success ("Deleted connection '" ++ name ++ "'"))
  | .select name => do
    let cs ← load
    let name ← chooseName cs name "make the default"
    let cs ← Run.orFail ((cs.setDefault (some name)).mapError .connections)
    store cs
    Run.write ((← Run.console .text).success ("Default connection is now '" ++ name ++ "'"))
  | .test => do
    let (s, target) ← Run.server
    let _ ← Run.during (.testConnection target.display)
      (s.classNames s.defaultNamespace none false)
    Run.write ((← Run.console .text).success
      ("Connection successful: " ++ target.display ++ " (namespace " ++ s.defaultNamespace ++ ")"))

end ConnectionCommand

end CimConsole
