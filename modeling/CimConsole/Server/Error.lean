import CimConsole.Text.Letters

/-!
Why an operation of a server fails: a status code of the protocol, or a cause that lies
outside the protocol. Four status codes speak of one namespace only; after them an
operation can go on with the next namespace.
-/
namespace CimConsole

/-- A status code; zero and the codes from 18 on have no name of their own. -/
structure Status where
  code : UInt16
deriving DecidableEq, Repr, Inhabited

namespace Status

def failed : Status := ⟨1⟩
def invalidNamespace : Status := ⟨3⟩
def invalidParameter : Status := ⟨4⟩
def invalidClass : Status := ⟨5⟩
def notFound : Status := ⟨6⟩
def alreadyExists : Status := ⟨11⟩

def names : List String :=
  ["CIM_ERR_FAILED", "CIM_ERR_ACCESS_DENIED", "CIM_ERR_INVALID_NAMESPACE",
    "CIM_ERR_INVALID_PARAMETER", "CIM_ERR_INVALID_CLASS", "CIM_ERR_NOT_FOUND",
    "CIM_ERR_NOT_SUPPORTED", "CIM_ERR_CLASS_HAS_CHILDREN", "CIM_ERR_CLASS_HAS_INSTANCES",
    "CIM_ERR_INVALID_SUPERCLASS", "CIM_ERR_ALREADY_EXISTS", "CIM_ERR_NO_SUCH_PROPERTY",
    "CIM_ERR_TYPE_MISMATCH", "CIM_ERR_QUERY_LANGUAGE_NOT_SUPPORTED", "CIM_ERR_INVALID_QUERY",
    "CIM_ERR_METHOD_NOT_AVAILABLE", "CIM_ERR_METHOD_NOT_FOUND"]

/-- The symbolic name of a code. -/
def name (s : Status) : String :=
  if s.code = 0 then "CIM_ERR_UNKNOWN" else names.getD (s.code.toNat - 1) "CIM_ERR_UNKNOWN"

def text (s : Status) : String := s.name ++ " (" ++ toString s.code.toNat ++ ")"

end Status

inductive ServerError where
  | status (status : Status) (description : String)
  | model (text : String)
  | connection (text : String)
  | authentication (text : String)
  | timeout (text : String)
deriving DecidableEq, Repr

namespace ServerError

def message : ServerError → String
  | .status s description => s.text ++ ": " ++ description
  | .model text => "model error: " ++ text
  | .connection text => "connection error: " ++ text
  | .authentication text => "authentication error: " ++ text
  | .timeout text => "timeout: " ++ text

def status? : ServerError → Option Status
  | .status s _ => some s
  | _ => none

def isRecoverable (e : ServerError) : Bool :=
  match e.status? with
  | none => false
  | some s =>
    [Status.notFound, .invalidClass, .invalidNamespace, .invalidParameter].contains s

def notFound (what : String) : ServerError := .status .notFound what

def noSuchClass (space name : String) : ServerError :=
  .status .invalidClass ("class '" ++ name ++ "' does not exist in namespace '" ++ space ++ "'")

end ServerError

end CimConsole
