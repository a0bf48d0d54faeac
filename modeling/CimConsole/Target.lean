import CimConsole.Connection
import CimConsole.Files
import CimConsole.Server.Repository
import CimConsole.Target.Url

/-!
What a connection points at: a server by its URL, or a mock server by its repository
files. Only mock servers can be reached.
-/
namespace CimConsole

open Text

inductive Target where
  | server (given : String) (url : Url)
  | mock (files : List String)

inductive TargetError where
  | emptyUrl
  | malformedUrl (raw : String) (cause : UrlError)
  | unsupportedScheme (scheme raw : String)
  | noFiles
  | unknownExtension (file : String)
deriving DecidableEq, Repr

def TargetError.message : TargetError → String
  | .emptyUrl => "Server URL is empty"
  | .malformedUrl raw cause => "Invalid server URL '" ++ raw ++ "': " ++ cause.message
  | .unsupportedScheme scheme raw =>
    "Unsupported scheme '" ++ scheme ++ "' in server URL '" ++ raw ++ "' (use http or https)"
  | .noFiles => "No mock repository files given"
  | .unknownExtension file =>
    "Mock repository file '" ++ file ++ "' must be .yaml, .yml or .json"

/-- Why a target cannot be reached. -/
inductive ReachError where
  | noTransport (given : String)
  | unbuilt (target : String) (cause : RepositoryError)
deriving DecidableEq, Repr

def ReachError.message : ReachError → String
  | .noTransport given =>
    "Cannot connect to " ++ given ++ ": the CIM-XML transport is not part of this build; "
      ++ "use --mock-server to work against a repository file"
  | .unbuilt target cause =>
    join ": " (("Failed to build mock server (" ++ target ++ ")") :: cause.chain)

namespace Target

/-- A server by its URL, with `https` for a missing scheme. -/
def ofServer (raw : String) : Except TargetError Target :=
  let s := trim raw
  if s == "" then .error .emptyUrl
  else
    match Url.read (Url.withScheme s) with
    | .error cause => .error (.malformedUrl raw cause)
    | .ok url =>
      if url.scheme == "http" || url.scheme == "https" then .ok (.server raw url)
      else .error (.unsupportedScheme url.scheme raw)

def isRepositoryName (file : String) : Bool :=
  ["yaml", "yml", "json"].contains (foldCase (Files.extension file))

/-- A mock server by its files, which may be given as comma lists. -/
def ofFiles (files : List String) : Except TargetError Target :=
  match listItems files with
  | [] => .error .noFiles
  | files =>
    match files.find? fun f => !isRepositoryName f with
    | some f => .error (.unknownExtension f)
    | none => .ok (.mock files)

def ofConnection (c : Connection) : Except TargetError Target :=
  match c.server with
  | some s => ofServer s
  | none => ofFiles c.mockServer

def display : Target → String
  | .server _ url => "server: " ++ url.text
  | .mock files => "mock: " ++ join ", " files

def kind : Target → String
  | .server _ url => if url.scheme == "http" then "http" else "https"
  | .mock _ => "mock"

/-- The server that the target stands for. -/
def reach (t : Target) (files : Files) (defaultNamespace : Option String) :
    Except ReachError Server :=
  match t with
  | .server given _ => .error (.noTransport given)
  | .mock paths =>
    (Server.ofFiles files paths defaultNamespace).mapError (.unbuilt t.display)

end Target

end CimConsole
