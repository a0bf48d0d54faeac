import CimConsole.Server.Namespace

/-!
A server: its namespaces and the operations on them. Namespaces are found without regard
to letter case and to slashes around the name. Only creating and deleting an instance
change a server, and they return the server that comes out.
-/
namespace CimConsole

open Text

structure Server where
  url : String
  defaultNamespace : String
  listsNamespaces : Bool := true
  namespaces : List (String × Namespace) := []
deriving Inhabited

/-- The names under which the interop namespace is looked for, in this order. -/
def interopNames : List String := ["interop", "root/interop", "root/PG_InterOp"]

/-- Changes the first entry whose name satisfies `p`. -/
def updateFirst {α : Type} (p : String → Bool) (f : α → α) : List (String × α) → List (String × α)
  | [] => []
  | (name, a) :: rest => if p name then (name, f a) :: rest else (name, a) :: updateFirst p f rest

namespace Server

/-- The entry of a namespace, out of order or not. -/
def entry? (s : Server) (name : String) : Option (String × Namespace) :=
  s.namespaces.find? fun e => sameName e.1 (trimMark '/' name)

def noSuchNamespace (name : String) : ServerError :=
  .status .invalidNamespace ("namespace '" ++ name ++ "' does not exist")

/-- The namespace of this name, if it is in order. -/
def readable (s : Server) (name : String) : Except ServerError Namespace :=
  match s.entry? name with
  | none => .error (noSuchNamespace name)
  | some (_, ns) =>
    match ns.fault with
    | some fault => .error (fault.error (trimMark '/' name))
    | none => .ok ns

/-- The namespace of this name for a change, with the name that it is stored under. -/
def writable (s : Server) (name : String) : Except ServerError (String × Namespace) :=
  match s.entry? name with
  | none => .error (noSuchNamespace name)
  | some (own, ns) =>
    match ns.fault with
    | some fault => .error (fault.error own)
    | none => .ok (own, ns)

/-- The server with another state of one namespace. -/
def withNamespace (s : Server) (name : String) (ns : Namespace) : Server :=
  { s with namespaces := updateFirst (sameName · (trimMark '/' name)) (fun _ => ns) s.namespaces }

def interop (s : Server) : Except ServerError String :=
  match interopNames.findSome? fun name => s.namespaces.find? fun e => sameName e.1 name with
  | some (name, _) => .ok name
  | none => .error (.notFound "interop namespace could not be determined")

/-- The names of all namespaces; a server without the namespace model cannot tell. -/
def namespaceNames (s : Server) : Except ServerError (List String) := do
  if !s.listsNamespaces then
    .error (.model "server does not implement the CIM_Namespace model")
  else
    let _ ← s.interop
    pure (s.namespaces.map (·.1))

def classes (s : Server) (space : String) (start : Option String) (deep : Bool)
    (detail : ClassDetail) : Except ServerError (List ClassDecl) := do
  let ns ← s.readable space
  let found ← ns.classesBelow space start deep
  pure (found.filterMap fun c => ns.resolve? detail c.name)

def classNames (s : Server) (space : String) (start : Option String) (deep : Bool) :
    Except ServerError (List String) := do
  let ns ← s.readable space
  let found ← ns.classesBelow space start deep
  pure (found.map ClassDecl.name)

def classNamed (s : Server) (space name : String) (detail : ClassDetail) :
    Except ServerError ClassDecl := do
  let ns ← s.readable space
  match ns.resolve? detail name with
  | some c => pure c
  | none => .error (.notFound ("class '" ++ name ++ "' not found in namespace '" ++ space ++ "'"))

/-- The names of a class and its ancestors. -/
def lineage (ns : Namespace) (name : String) : Except ServerError (List String) :=
  match (ns.superclassChain name).map ClassDecl.name with
  | [] => .error (.notFound ("class '" ++ name ++ "' not found"))
  | names => .ok names

/-- Whether a reference property of the role points to one of the classes. -/
def pointsInto (lineage : List String) (role : Option String) (p : PropertyDecl) : Bool :=
  passes role p.name && p.referenceClass.any fun c => lineage.any fun l => sameName l c

/-- The association classes, complete, that are within a class if one is given. -/
def associationClasses (ns : Namespace) (within : Option String) : List ClassDecl :=
  ((ns.classes.filter fun c => ns.isAssociation c.name).filter fun c =>
    match within with
    | none => true
    | some a => ns.isWithin c.name a).filterMap fun c => ns.resolve? {} c.name

/-- The association classes that refer to a class. -/
def classReferences (s : Server) (space name : String) (filter : AssociationFilter) :
    Except ServerError (List ClassDecl) := do
  let ns ← s.readable space
  let names ← lineage ns name
  pure ((associationClasses ns filter.resultClass).filter fun c =>
    c.references.any (pointsInto names filter.role))

/-- The classes at the far side of an association class, for one near and one far
property. -/
def farClass? (ns : Namespace) (filter : AssociationFilter) (near far : PropertyDecl) :
    Option ClassDecl := do
  if sameName far.name near.name || !passes filter.resultRole far.name then none
  else
    let target ← far.referenceClass
    if filter.resultClass.all fun c => ns.isWithin target c then ns.resolve? {} target else none

/-- Adds a class unless one of its name is there. -/
def addClass (found : List ClassDecl) (c : ClassDecl) : List ClassDecl :=
  if found.any fun d => sameName d.name c.name then found else found ++ [c]

/-- The classes at the far side of associations that refer to a class, each once. -/
def classAssociators (s : Server) (space name : String) (filter : AssociationFilter) :
    Except ServerError (List ClassDecl) := do
  let ns ← s.readable space
  let names ← lineage ns name
  let far := (associationClasses ns filter.associationClass).flatMap fun c =>
    (c.references.filter (pointsInto names filter.role)).flatMap fun near =>
      c.references.filterMap (farClass? ns filter near)
  pure (far.foldl addClass [])

/-- The instance with the listed properties only, if a list is given. -/
def shown (properties : Option (List String)) (x : Instance) : Instance :=
  match properties with
  | none => x
  | some names => x.retain names

/-- The instances of a class and the classes below it. -/
def instances (s : Server) (space name : String) (properties : Option (List String)) :
    Except ServerError (List Instance) := do
  let ns ← s.readable space
  if (ns.class? name).isNone then .error (.noSuchClass space name)
  else
    pure ((ns.instances.filter fun x => ns.isWithin x.className name).map (shown properties))

def instanceNames (s : Server) (space name : String) : Except ServerError (List ObjectPath) := do
  let found ← s.instances space name none
  pure (found.filterMap Instance.path)

def noSuchInstance (path : ObjectPath) : ServerError :=
  .notFound ("instance " ++ path.display ++ " not found")

def get (s : Server) (space : String) (path : ObjectPath) (properties : Option (List String)) :
    Except ServerError Instance := do
  let ns ← s.readable space
  if (ns.class? path.className).isNone then .error (.noSuchClass space path.className)
  else
    match ns.find? path with
    | none => .error (noSuchInstance path)
    | some x => pure (shown properties x)

/-- Stores an instance under the path that its keys give. -/
def create (s : Server) (space : String) (x : Instance) :
    Except ServerError (ObjectPath × Server) := do
  let (own, ns) ← s.writable space
  let path ← ns.pathFor own x
  match ns.find? path with
  | some _ => .error (.status .alreadyExists ("instance " ++ path.display ++ " already exists"))
  | none =>
    let ns := { ns with instances := ns.instances ++ [{ x with path := some path }] }
    pure (path, s.withNamespace space ns)

/-- Removes the first instance that satisfies `p`. -/
def removeFirst (p : Instance → Bool) : List Instance → List Instance
  | [] => []
  | x :: rest => if p x then rest else x :: removeFirst p rest

def delete (s : Server) (space : String) (path : ObjectPath) : Except ServerError Server := do
  let (_, ns) ← s.writable space
  if (ns.class? path.className).isNone then .error (.noSuchClass space path.className)
  else
    match ns.find? path with
    | none => .error (noSuchInstance path)
    | some _ =>
      let ns := { ns with instances := removeFirst (Namespace.isAt path) ns.instances }
      pure (s.withNamespace space ns)

/-- The association instances that refer to an instance. -/
def references (s : Server) (space : String) (path : ObjectPath) (filter : AssociationFilter) :
    Except ServerError (List Instance) := do
  let ns ← s.readable space
  match ns.find? path with
  | none => .error (noSuchInstance path)
  | some _ => pure ((ns.referring path filter.resultClass filter.role).map (·.1))

/-- The instance at the far side of one property of an association instance. -/
def farInstance? (ns : Namespace) (filter : AssociationFilter) (near : String)
    (entry : String × Option Value) : Option Instance := do
  if sameName entry.1 near || !passes filter.resultRole entry.1 then none
  else
    let target ← entry.2.bind Value.path?
    let x ← ns.find? target
    if filter.resultClass.all fun c => ns.isWithin x.className c then some x else none

/-- Equality of paths that may be absent. -/
def samePath (p q : Option ObjectPath) : Bool :=
  match p, q with
  | some p, some q => p.same q
  | none, none => true
  | _, _ => false

/-- Adds an instance unless one with its path is there. -/
def addInstance (found : List Instance) (x : Instance) : List Instance :=
  if found.any fun y => samePath y.path x.path then found else found ++ [x]

/-- The instances at the far side of associations that refer to an instance, each once. -/
def associators (s : Server) (space : String) (path : ObjectPath) (filter : AssociationFilter) :
    Except ServerError (List Instance) := do
  let ns ← s.readable space
  match ns.find? path with
  | none => .error (noSuchInstance path)
  | some _ =>
    let far := (ns.referring path filter.associationClass filter.role).flatMap fun (x, near) =>
      x.properties.entries.filterMap (farInstance? ns filter near)
    pure (far.foldl addInstance [])

def qualifiers (s : Server) (space : String) : Except ServerError (List QualifierDecl) := do
  let ns ← s.readable space
  pure ns.qualifierDecls

def qualifier (s : Server) (space name : String) : Except ServerError QualifierDecl := do
  let ns ← s.readable space
  match ns.qualifierDecls.find? fun q => sameName q.name name with
  | some q => pure q
  | none =>
    .error (.notFound ("qualifier '" ++ name ++ "' not declared in namespace '" ++ space ++ "'"))

end Server

end CimConsole
