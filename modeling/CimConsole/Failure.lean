import CimConsole.Connections
import CimConsole.Fanout.Session
import CimConsole.Input.Assignment
import CimConsole.Input.TypedValue
import CimConsole.Pattern.Reader
import CimConsole.Subscription.Action
import CimConsole.Target

/-!
Why a command fails. A failure is told in one line: what failed, and behind colons the
causes under it.
-/
namespace CimConsole

open Text

/-- What a server was asked for. -/
inductive Task where
  | chooseNamespaces
  | listNamespaces
  | findInterop
  | attachManager
  | listInstances (className : String)
  | getClass (name : String)
  | createInstance (className : String)
  | deleteInstance (path : String)
  | testConnection (target : String)
deriving DecidableEq, Repr

def Task.failed : Task → String
  | .chooseNamespaces => "Failed to determine target namespaces"
  | .listNamespaces => "Failed to enumerate namespaces"
  | .findInterop => "Failed to determine the interop namespace"
  | .attachManager => "Failed to attach the subscription manager"
  | .listInstances className => "Failed to list instances of '" ++ className ++ "'"
  | .getClass name => "Failed to get class '" ++ name ++ "'"
  | .createInstance className => "Failed to create instance of '" ++ className ++ "'"
  | .deleteInstance path => "Failed to delete instance " ++ path
  | .testConnection target => "Connection test failed for " ++ target

inductive Failure where
  | server (e : ServerError)
  | during (task : Task) (e : ServerError)
  | session (e : SessionError)
  | subscription (e : SubscriptionError)
  | connections (e : ConnectionError)
  | invalidTarget (summary : String) (e : TargetError)
  | unreachable (e : ReachError)
  | twoTargets
  | noTarget
  | nothingToSave
  | noConnectionName
  | noConnections (path : String)
  | connectionNotChosen
  | invalidPattern (e : PatternError)
  | invalidAssignment (e : AssignmentError)
  | invalidValue (property : String) (e : ValueError)
  | noSuchProperty (name className : String)
  | noSuchClass (name space : String)
  | invalidInstanceName (raw : String) (e : PathError)
  | noKeys (raw : String)
  | noInstances (className space : String)
  | instanceNotChosen
deriving DecidableEq, Repr

namespace Failure

/-- What failed, and the causes under it. -/
def chain : Failure → List String
  | .server e => [e.message]
  | .during task e => [task.failed, e.message]
  | .session e => e.chain
  | .subscription e => [e.message]
  | .connections e => e.chain
  | .invalidTarget summary e => ["Invalid target '" ++ summary ++ "'", e.message]
  | .unreachable e => [e.message]
  | .twoTargets => ["--server and --mock-server are mutually exclusive"]
  | .noTarget =>
    ["No WBEM server specified: use --server, --mock-server, --name or select a default with "
      ++ "'connection select'"]
  | .nothingToSave => ["Nothing to save: give --server or --mock-server"]
  | .noConnectionName => ["No connection name given and no default connection selected"]
  | .noConnections path => ["No connections defined in " ++ path]
  | .connectionNotChosen => ["Connection selection cancelled"]
  | .invalidPattern e => ["invalid class name pattern '" ++ e.text ++ "'", e.message]
  | .invalidAssignment e => [e.message]
  | .invalidValue property e => ["Invalid value for property '" ++ property ++ "'", e.message]
  | .noSuchProperty name className =>
    ["Property '" ++ name ++ "' is not defined in class '" ++ className ++ "'"]
  | .noSuchClass name space => ["Class '" ++ name ++ "' not found in namespace '" ++ space ++ "'"]
  | .invalidInstanceName raw e => ["Invalid instance name '" ++ raw ++ "'", e.message]
  | .noKeys raw =>
    ["Instance name '" ++ raw ++ "' has no key bindings (use --key or CLASSNAME.?)"]
  | .noInstances className space =>
    ["No instances of '" ++ className ++ "' in namespace '" ++ space ++ "'"]
  | .instanceNotChosen => ["Instance selection cancelled"]

def text (f : Failure) : String := join ": " f.chain

/-- The exit code of a run that ends with the failure. -/
def exitCode : Failure → UInt32
  | .invalidTarget _ _ => 2
  | _ => 1

end Failure

end CimConsole
