import CimConsole.Connection
import CimConsole.Document.Yaml
import CimConsole.Document.Yaml.Printer
import CimConsole.Files

/-!
The saved connections by their names, with at most one of them as the default. They are
kept in a YAML file; a file that is missing or blank holds none. Every connection in a
file has to be in order, and what comes in later is checked the same way.
-/
namespace CimConsole

open Text Document

structure Connections where
  definitions : NameTable Connection := .empty
  default : Option String := none
deriving DecidableEq, Inhabited

inductive ConnectionError where
  | read (path : String) (cause : FileFault)
  | parse (path : String)
  | write (path : String) (cause : FileFault)
  | notFound (name : String)
  | invalid (name : String) (fault : ConnectionFault)
deriving DecidableEq, Repr

namespace ConnectionError

def message : ConnectionError → String
  | .read path _ => "Failed to read connections file '" ++ path ++ "'"
  | .parse path => "Failed to parse connections file '" ++ path ++ "'"
  | .write path _ => "Failed to write connections file '" ++ path ++ "'"
  | .notFound name => "Connection '" ++ name ++ "' not found in connections file"
  | .invalid name fault => "Invalid connection definition '" ++ name ++ "': " ++ fault.message

/-- The message and the causes under it. -/
def chain (e : ConnectionError) : List String :=
  match e with
  | .read _ cause => [e.message, cause.message]
  | .write _ cause => [e.message, cause.message]
  | e => [e.message]

end ConnectionError

namespace Connections

/-- The file of a working directory when none is named. -/
def defaultPath : String := "wbemcli_connections.yaml"

def check (name : String) (c : Connection) : Except ConnectionError Unit :=
  match c.fault? name with
  | none => .ok ()
  | some fault => .error (.invalid name fault)

/-- The fault of the first connection that has one. -/
def checkAll : List (String × Connection) → Except ConnectionError Unit
  | [] => .ok ()
  | (name, c) :: rest => do
    check name c
    checkAll rest

def document (cs : Connections) : Document :=
  .record <|
    [("connection_definitions", Document.ofTable Connection.document cs.definitions)]
    ++ present "default_connection" .text cs.default

def ofDocument? (d : Document) : Option Connections := do
  let fs ← d.fields? ["connection_definitions", "default_connection"]
  some {
    definitions := ← defaulted (table? Connection.ofDocument?) .empty "connection_definitions" fs
    default := ← optional text? "default_connection" fs }

/-- The connections of a file's text. -/
def ofText? (s : String) : Option Connections :=
  if trim s == "" then some {} else (ofYaml? s).bind ofDocument?

def load (files : Files) (path : String) : Except ConnectionError Connections := do
  if !files.has path then pure {}
  else
    match files.read path with
    | .error cause => .error (.read path cause)
    | .ok content =>
      match ofText? content with
      | none => .error (.parse path)
      | some cs =>
        checkAll cs.definitions.entries
        pure cs

/-- Writes the file and makes the directories above it. -/
def save (cs : Connections) (files : Files) (path : String) : Except ConnectionError Files :=
  match files.makeParents path with
  | .error cause => .error (.write path cause)
  | .ok files =>
    match files.write path cs.document.toYaml with
    | .error cause => .error (.write path cause)
    | .ok files => .ok files

def names (cs : Connections) : List String := cs.definitions.names

def isEmpty (cs : Connections) : Bool := cs.definitions.isEmpty

def get (cs : Connections) (name : String) : Except ConnectionError Connection :=
  match cs.definitions.get? name with
  | some c => .ok c
  | none => .error (.notFound name)

/-- Adds or replaces a connection, and says whether there was one. -/
def add (cs : Connections) (name : String) (c : Connection) :
    Except ConnectionError (Bool × Connections) := do
  check name c
  pure (cs.definitions.contains name, { cs with definitions := cs.definitions.insert name c })

/-- Removes a connection, which then is not the default any more. -/
def delete (cs : Connections) (name : String) :
    Except ConnectionError (Connection × Connections) := do
  let c ← cs.get name
  pure (c, {
    definitions := cs.definitions.erase name
    default := if cs.default = some name then none else cs.default })

/-- Makes a connection the default, or leaves none. -/
def setDefault (cs : Connections) (name : Option String) : Except ConnectionError Connections := do
  match name with
  | none => pure { cs with default := none }
  | some n =>
    let _ ← cs.get n
    pure { cs with default := some n }

end Connections

end CimConsole
