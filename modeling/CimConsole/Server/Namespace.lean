import CimConsole.Model.Schema
import CimConsole.Model.Instance
import CimConsole.Server.Error

/-!
One namespace of a server: the declared qualifiers and classes and the stored instances.
A class is returned with the elements of its ancestors merged in. The walk along
superclasses is cut after one class more than the namespace has, so it ends on cycles
too and still meets every class that can be reached.
-/
namespace CimConsole

open Text

/-- What a namespace that is out of order answers to every operation. -/
inductive Fault where
  | status (code : UInt16)
  | connection (text : String)
  | authentication (text : String)
  | timeout (text : String)
deriving DecidableEq, Repr

def Fault.error (space : String) : Fault → ServerError
  | .status code => .status ⟨code⟩ ("simulated failure in namespace '" ++ space ++ "'")
  | .connection text => .connection text
  | .authentication text => .authentication text
  | .timeout text => .timeout text

/-- What a reader of classes asks for. -/
structure ClassDetail where
  localOnly : Bool := false
  qualifiers : Bool := true
  origins : Bool := false
deriving DecidableEq, Repr

/-- Which associations count: their class, the class of the far side or of the result,
the property that holds the near end and the one that holds the far end. -/
structure AssociationFilter where
  associationClass : Option String := none
  resultClass : Option String := none
  role : Option String := none
  resultRole : Option String := none
deriving DecidableEq, Repr

/-- Whether a name passes a filter that may be absent. -/
def passes (filter : Option String) (name : String) : Bool :=
  match filter with
  | none => true
  | some f => sameName f name

/-- Replaces the first element of the same name, or adds the element at the end. -/
def putByName {α : Type} (name : α → String) (x : α) : List α → List α
  | [] => [x]
  | y :: rest => if sameName (name y) (name x) then x :: rest else y :: putByName name x rest

structure Namespace where
  fault : Option Fault := none
  qualifierDecls : List QualifierDecl := []
  classes : List ClassDecl := []
  instances : List Instance := []
deriving Inhabited

namespace Namespace

def class? (ns : Namespace) (name : String) : Option ClassDecl :=
  ns.classes.find? fun c => sameName c.name name

/-- At most so many classes from this one on, each the superclass of the one before. -/
def walk (ns : Namespace) : Nat → Option ClassDecl → List ClassDecl
  | 0, _ => []
  | _, none => []
  | steps + 1, some c => c :: walk ns steps (c.superclass.bind ns.class?)

/-- The class and its ancestors, the nearest first. -/
def superclassChain (ns : Namespace) (name : String) : List ClassDecl :=
  ns.walk (ns.classes.length + 1) (ns.class? name)

/-- Whether a class is the other or derives from it. -/
def isWithin (ns : Namespace) (name ancestor : String) : Bool :=
  (ns.superclassChain name).any fun c => sameName c.name ancestor

/-- A class is an association if it or an ancestor says so. -/
def isAssociation (ns : Namespace) (name : String) : Bool :=
  (ns.superclassChain name).any ClassDecl.isAssociation

/-- The classes below a class, or all; without depth only those directly below it, or
those without superclass. The class itself is not among them. -/
def classesBelow (ns : Namespace) (space : String) (start : Option String) (deep : Bool) :
    Except ServerError (List ClassDecl) :=
  match start with
  | none => .ok (ns.classes.filter fun c => deep || c.superclass.isNone)
  | some parent =>
    if (ns.class? parent).isNone then .error (.noSuchClass space parent)
    else .ok (ns.classes.filter fun c =>
      if deep then !sameName c.name parent && ns.isWithin c.name parent
      else c.superclass.any fun s => sameName s parent)

/-- The elements of one class of a chain, marked with where they come from. -/
def inherit (cls source : ClassDecl) : ClassDecl :=
  let propagated := !sameName source.name cls.name
  { cls with
    properties := source.properties.foldl (fun ps p =>
      putByName PropertyDecl.name { p with origin := some source.name, propagated } ps)
      cls.properties
    methods := source.methods.foldl (fun ms m =>
      putByName MethodDecl.name { m with origin := some source.name, propagated } ms)
      cls.methods }

/-- The class as a reader gets it: with inherited elements unless only its own are asked
for, a nearer declaration in the place of a farther one. -/
def resolve? (ns : Namespace) (detail : ClassDetail) (name : String) : Option ClassDecl :=
  match ns.superclassChain name with
  | [] => none
  | cls :: ancestors =>
    let sources := if detail.localOnly then [cls] else (cls :: ancestors).reverse
    let merged := sources.foldl inherit { cls with properties := [], methods := [] }
    let merged := if detail.qualifiers then merged else merged.withoutQualifiers
    some (if detail.origins then merged else merged.withoutOrigins)

/-- The names of the key properties of a class, inherited ones included. -/
def keyNames (ns : Namespace) (name : String) : List String :=
  match ns.resolve? {} name with
  | none => []
  | some c => (c.properties.filter PropertyDecl.isKey).map PropertyDecl.name

/-- Binds the keys of a class to the values that an instance has for them. -/
def bindKeys (className : String) (x : Instance) :
    List String → ObjectPath → Except ServerError ObjectPath
  | [], path => .ok path
  | key :: rest, path =>
    match x.get? key with
    | none => .error (.status .invalidParameter
        ("instance of '" ++ className ++ "' lacks key property '" ++ key ++ "'"))
    | some v => bindKeys className x rest (path.withKey key v)

/-- The path that an instance has in a namespace of this name. -/
def pathFor (ns : Namespace) (space : String) (x : Instance) : Except ServerError ObjectPath :=
  match ns.class? x.className with
  | none => .error (.noSuchClass space x.className)
  | some cls =>
    match ns.keyNames cls.name with
    | [] => .error (.status .invalidParameter
        ("class '" ++ cls.name ++ "' defines no key properties"))
    | keys => bindKeys cls.name x keys ⟨some space, cls.name, []⟩

/-- Whether an instance is stored under a path equal to this one. -/
def isAt (path : ObjectPath) (x : Instance) : Bool :=
  match x.path with
  | some p => p.same path
  | none => false

def find? (ns : Namespace) (path : ObjectPath) : Option Instance :=
  ns.instances.find? (isAt path)

/-- The first property of the given role that refers to the target. -/
def nearRole? (target : ObjectPath) (role : Option String) (x : Instance) : Option String :=
  (x.properties.entries.find? fun e =>
    passes role e.1 && match e.2.bind Value.path? with
      | some p => p.same target
      | none => false).map (·.1)

/-- The association instances that refer to the target, each with the property that does. -/
def referring (ns : Namespace) (target : ObjectPath) (associationClass role : Option String) :
    List (Instance × String) :=
  ((ns.instances.filter fun x => ns.isAssociation x.className).filter fun x =>
    match associationClass with
    | none => true
    | some c => ns.isWithin x.className c).filterMap fun x =>
      (nearRole? target role x).map fun name => (x, name)

end Namespace

end CimConsole
