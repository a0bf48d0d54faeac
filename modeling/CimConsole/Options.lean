import CimConsole.Failure
import CimConsole.Output.Format

/-!
The options that all commands share, and the connection that they stand for: one given
directly, else a saved one by its name, else the default one. Options that are not given
are taken from the environment; blank values there do not count.
-/
namespace CimConsole

open Text

structure Options where
  server : Option String := none
  mockServer : List String := []
  name : Option String := none
  defaultNamespace : Option String := none
  user : Option String := none
  timeout : Option UInt32 := none
  noVerify : Bool := false
  outputFormat : Option OutputFormat := none
  connectionsFile : Option String := none
deriving DecidableEq, Repr, Inhabited

/-- Where a connection comes from. -/
inductive ConnectionSource where
  | options
  | named (name : String)
  | default (name : String)
deriving DecidableEq, Repr

def ConnectionSource.text : ConnectionSource → String
  | .options => "command line"
  | .named name => "connection '" ++ name ++ "'"
  | .default name => "default connection '" ++ name ++ "'"

namespace Options

/-- The variables that stand for options. -/
def variableNames : List String :=
  ["WBEMCLI_SERVER", "WBEMCLI_MOCK_SERVER", "WBEMCLI_NAME", "WBEMCLI_CONNECTIONS_FILE"]

def withEnvironment (o : Options) (env : String → Option String) : Options :=
  let given (name : String) : Option String := (env name).filter fun v => trim v ≠ ""
  { o with
    server := o.server.or (given "WBEMCLI_SERVER")
    mockServer :=
      if o.mockServer.isEmpty then (given "WBEMCLI_MOCK_SERVER").toList else o.mockServer
    name := o.name.or (given "WBEMCLI_NAME")
    connectionsFile := o.connectionsFile.or (given "WBEMCLI_CONNECTIONS_FILE") }

/-- The connection that the options give directly. -/
def connection? (o : Options) : Except Failure (Option Connection) :=
  if o.server.isNone && o.mockServer.isEmpty then .ok none
  else if o.server.isSome && !o.mockServer.isEmpty then .error .twoTargets
  else
    .ok (some {
      server := o.server
      mockServer := o.mockServer
      defaultNamespace := o.defaultNamespace
      user := o.user
      timeout := o.timeout
      noVerify := o.noVerify })

def connectionsPath (o : Options) : String := o.connectionsFile.getD Connections.defaultPath

def loadConnections (o : Options) (files : Files) : Except Failure Connections :=
  (Connections.load files o.connectionsPath).mapError .connections

/-- The repository files that the options or saved connections name. -/
def repositoryPaths (o : Options) (files : Files) : List String :=
  let saved := ((o.loadConnections files).toOption.getD {}).definitions.entries
  listItems (o.mockServer ++ saved.flatMap fun (_, c) => c.mockServer)

/-- The connection to use, if there is one; a default namespace that is given counts more
than a saved one. -/
def resolve (o : Options) (files : Files) :
    Except Failure (Option (ConnectionSource × Connection)) := do
  match ← o.connection? with
  | some c => pure (some (.options, c))
  | none =>
    let saved ← o.loadConnections files
    let chosen : Option (ConnectionSource × String) := match o.name, saved.default with
      | some n, _ => some (.named n, n)
      | none, some d => some (.default d, d)
      | none, none => none
    match chosen with
    | none => pure none
    | some (source, name) =>
      let c ← (saved.get name).mapError Failure.connections
      pure (some (source, { c with defaultNamespace := o.defaultNamespace.or c.defaultNamespace }))

end Options

/-- The target of a connection. -/
def Connection.target (c : Connection) : Except Failure Target :=
  (Target.ofConnection c).mapError (.invalidTarget c.summary)

/-- The server that the options lead to, with its target. -/
def Options.connect (o : Options) (files : Files) : Except Failure (Server × Target) := do
  match ← o.resolve files with
  | none => .error .noTarget
  | some (_, c) =>
    let target ← c.target
    let server ← (target.reach files c.defaultNamespace).mapError Failure.unreachable
    pure (server, target)

end CimConsole
