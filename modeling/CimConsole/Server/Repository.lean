import CimConsole.Document.JsonReader
import CimConsole.Document.Yaml
import CimConsole.Files
import CimConsole.Model.Documents
import CimConsole.Server.Basic

/-!
Servers from repository documents. Several documents are merged namespace by namespace.
A server starts only if every class is declared once, every superclass is declared, and
every instance has a path that no other one has.
-/
namespace CimConsole

open Text Document

structure Repository where
  defaultNamespace : Option String := none
  listsNamespaces : Bool := true
  namespaces : NameTable Namespace := .empty
deriving Inhabited

/-- Why no server comes out of repository documents. -/
inductive RepositoryError where
  | read (path : String) (cause : FileFault)
  | yaml (path : String)
  | json (path : String)
  | invalid (text : String)
deriving DecidableEq, Repr

namespace RepositoryError

def message : RepositoryError → String
  | .read path _ => "failed to read mock repository '" ++ path ++ "'"
  | .yaml path => "failed to parse YAML mock repository '" ++ path ++ "'"
  | .json path => "failed to parse JSON mock repository '" ++ path ++ "'"
  | .invalid reason => "invalid mock repository: " ++ reason

/-- The message and the causes under it. -/
def chain (e : RepositoryError) : List String :=
  match e with
  | .read _ cause => [e.message, cause.message]
  | e => [e.message]

end RepositoryError

namespace Fault

/-- The fields of a fault of some kind. -/
def ofKind? (kind : String) (fields : List (String × Document)) : Option Fault :=
  let message := required (fun d => d.settled.text?) "message" fields
  match kind with
  | "status" =>
    (required (Document.natural? (Nat.pow 2 16)) "code" fields).map fun n => .status (UInt16.ofNat n)
  | "connection" => message.map .connection
  | "authentication" => message.map .authentication
  | "timeout" => message.map .timeout
  | _ => none

def fieldOfKind (kind : String) : String := if kind == "status" then "code" else "message"

/-- A fault has its kind as a field or, in a list, in front. -/
def ofDocument? : Document → Option Fault
  | .record fields =>
    match fields.filter fun f => f.1 == "kind" with
    | [(_, d)] =>
      d.settled.text?.bind fun kind =>
        ((Document.record fields).fields? [fieldOfKind kind]).bind (ofKind? kind)
    | _ => none
  | .list (d :: items) =>
    d.settled.text?.bind fun kind =>
      ((Document.list items).fields? [fieldOfKind kind]).bind (ofKind? kind)
  | _ => none

end Fault

namespace Namespace

def fieldNames : List String := ["fault", "qualifier_decls", "classes", "instances"]

def ofDocument? (d : Document) : Option Namespace := do
  let fs ← d.fields? fieldNames
  some {
    fault := ← optional Fault.ofDocument? "fault" fs
    qualifierDecls := ← defaulted (list? QualifierDecl.ofDocument?) [] "qualifier_decls" fs
    classes := ← defaulted (list? ClassDecl.ofDocument?) [] "classes" fs
    instances := ← defaulted (list? Instance.ofDocument?) [] "instances" fs }

/-- The contents of both; a fault of the second wins. -/
def merge (a b : Namespace) : Namespace where
  fault := b.fault.or a.fault
  qualifierDecls := a.qualifierDecls ++ b.qualifierDecls
  classes := a.classes ++ b.classes
  instances := a.instances ++ b.instances

/-- Checks that no class is declared twice and that superclasses are declared. -/
def checkClasses (ns : Namespace) (space : String) (before : List ClassDecl) :
    List ClassDecl → Except RepositoryError Unit
  | [] => .ok ()
  | c :: rest =>
    if before.any fun b => sameName b.name c.name then
      .error (.invalid ("class '" ++ c.name ++ "' defined twice in namespace '" ++ space ++ "'"))
    else
      match c.superclass with
      | some s =>
        if (ns.class? s).isNone then
          .error (.invalid ("superclass '" ++ s ++ "' of '" ++ c.name
            ++ "' not defined in namespace '" ++ space ++ "'"))
        else checkClasses ns space (before ++ [c]) rest
      | none => checkClasses ns space (before ++ [c]) rest

/-- Puts every instance at its path. -/
def placeInstances (ns : Namespace) (space : String) (before : List ObjectPath) :
    List Instance → Except RepositoryError (List Instance)
  | [] => .ok []
  | x :: rest =>
    match ns.pathFor space x with
    | .error e => .error (.invalid ("namespace '" ++ space ++ "': " ++ e.message))
    | .ok path =>
      if before.any fun p => p.same path then
        .error (.invalid ("duplicate instance " ++ path.display))
      else do
        let others ← placeInstances ns space (before ++ [path]) rest
        pure ({ x with path := some path } :: others)

/-- The namespace as a server holds it. -/
def load (space : String) (ns : Namespace) : Except RepositoryError Namespace := do
  checkClasses ns space [] ns.classes
  let placed ← ns.placeInstances space [] ns.instances
  pure { ns with instances := placed }

end Namespace

namespace Repository

def listing? (d : Document) : Option Bool :=
  match d.case? with
  | some "supported" => some true
  | some "unsupported" => some false
  | _ => none

def fieldNames : List String := ["default_namespace", "namespace_enumeration", "namespaces"]

def ofDocument? (d : Document) : Option Repository := do
  let fs ← d.fields? fieldNames
  some {
    defaultNamespace := ← optional Document.text? "default_namespace" fs
    listsNamespaces := ← defaulted listing? true "namespace_enumeration" fs
    namespaces := ← defaulted (table? Namespace.ofDocument?) .empty "namespaces" fs }

/-- Adds the contents of the second repository to the first. -/
def merge (a b : Repository) : Repository where
  defaultNamespace := a.defaultNamespace.or b.defaultNamespace
  listsNamespaces := a.listsNamespaces && b.listsNamespaces
  namespaces := b.namespaces.entries.foldl (fun t e =>
    t.insert e.1 (Namespace.merge ((t.get? e.1).getD {}) e.2)) a.namespaces

/-- The namespaces under their names without slashes around them. -/
def trimmed (before : List String) : List (String × Namespace) →
    Except RepositoryError (List (String × Namespace))
  | [] => .ok []
  | (name, ns) :: rest =>
    let name := trimMark '/' name
    if before.any fun b => sameName b name then
      .error (.invalid ("namespace '" ++ name ++ "' defined twice with different case"))
    else do
      let others ← trimmed (before ++ [name]) rest
      pure ((name, ns) :: others)

def loadAll : List (String × Namespace) → Except RepositoryError (List (String × Namespace))
  | [] => .ok []
  | (name, ns) :: rest => do
    let ns ← ns.load name
    let others ← loadAll rest
    pure ((name, ns) :: others)

/-- The server of a repository, with its default namespace given or taken from there. -/
def server (r : Repository) (defaultNamespace : Option String) (url : String) :
    Except RepositoryError Server := do
  let named ← trimmed [] r.namespaces.entries
  let loaded ← loadAll named
  pure {
    url
    defaultNamespace := (defaultNamespace.or r.defaultNamespace).getD "root/cimv2"
    listsNamespaces := r.listsNamespaces
    namespaces := loaded }

/-- The repository of one file: JSON if its name says so, else YAML. -/
def ofFile (files : Files) (path : String) : Except RepositoryError Repository :=
  match files.read path with
  | .error cause => .error (.read path cause)
  | .ok content =>
    if sameName (Files.extension path) "json" then
      match (ofJson? content).bind ofDocument? with
      | some r => .ok r
      | none => .error (.json path)
    else
      match (ofYaml? content).bind ofDocument? with
      | some r => .ok r
      | none => .error (.yaml path)

def ofFiles (files : Files) : Repository → List String → Except RepositoryError Repository
  | merged, [] => .ok merged
  | merged, path :: rest => do
    let r ← ofFile files path
    ofFiles files (merged.merge r) rest

end Repository

/-- The server of repository files. -/
def Server.ofFiles (files : Files) (paths : List String) (defaultNamespace : Option String) :
    Except RepositoryError Server := do
  let r ← Repository.ofFiles files {} paths
  r.server defaultNamespace ("mock:" ++ join "," paths)

end CimConsole
