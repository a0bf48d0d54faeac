import CimConsole.Document.Fields
import CimConsole.Text.Blank

/-!
A saved connection: how a server is reached and with what defaults. A connection names
either a server or the files of a mock server, never both and never nothing.
-/
namespace CimConsole

open Text Document

structure Connection where
  server : Option String := none
  mockServer : List String := []
  defaultNamespace : Option String := none
  user : Option String := none
  timeout : Option UInt32 := none
  noVerify : Bool := false
deriving DecidableEq, Repr, Inhabited

/-- Why a connection cannot be saved under a name. -/
inductive ConnectionFault where
  | emptyName
  | twoTargets
  | noTarget
  | emptyServer
deriving DecidableEq, Repr

def ConnectionFault.message : ConnectionFault → String
  | .emptyName => "name must not be empty"
  | .twoTargets => "server and mock_server are mutually exclusive"
  | .noTarget => "one of server or mock_server is required"
  | .emptyServer => "server must not be empty"

namespace Connection

/-- The first fault of a connection under a name. -/
def fault? (name : String) (c : Connection) : Option ConnectionFault :=
  if trim name == "" then some .emptyName
  else
    match c.server, c.mockServer with
    | some _, _ :: _ => some .twoTargets
    | none, [] => some .noTarget
    | some s, [] => if trim s == "" then some .emptyServer else none
    | none, _ :: _ => none

/-- The server, or the files of the mock server. -/
def summary (c : Connection) : String :=
  match c.server with
  | some s => s
  | none => "mock: " ++ join ", " c.mockServer

def fields (c : Connection) : List (String × Document) :=
  present "server" .text c.server
    ++ shownIf (!c.mockServer.isEmpty) "mock_server" (.list (c.mockServer.map .text))
    ++ present "default_namespace" .text c.defaultNamespace
    ++ present "user" .text c.user
    ++ present "timeout" (fun n => .whole n.toNat) c.timeout
    ++ shownIf c.noVerify "no_verify" (.boolean true)

def document (c : Connection) : Document := .record c.fields

def fieldNames : List String :=
  ["server", "mock_server", "default_namespace", "user", "timeout", "no_verify"]

def ofDocument? (d : Document) : Option Connection := do
  let fs ← d.fields? fieldNames
  some {
    server := ← optional text? "server" fs
    mockServer := ← defaulted (list? text?) [] "mock_server" fs
    defaultNamespace := ← optional text? "default_namespace" fs
    user := ← optional text? "user" fs
    timeout := (← optional (natural? (Nat.pow 2 32)) "timeout" fs).map UInt32.ofNat
    noVerify := ← defaulted boolean? false "no_verify" fs }

end Connection

end CimConsole
