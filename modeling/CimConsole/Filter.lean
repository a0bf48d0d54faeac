import CimConsole.Server.Basic
import CimConsole.Text.Whole
import CimConsole.Text.Pieces

/-!
Filters of classes. They are applied to a batch of retrieved classes and all have to
hold. A qualifier counts where its declaration allows it to stand; one that is not
declared may stand anywhere. Descent and leaves are judged inside the batch.
-/
namespace CimConsole

open Text

inductive FilterError where
  | invalidVersion (text : String)
  | subclassOfNotFound (name : String)
deriving DecidableEq, Repr

def FilterError.message : FilterError → String
  | .invalidVersion text =>
    "invalid --since version '" ++ text ++ "': expected three numeric components M.N.U"
  | .subclassOfNotFound name =>
    "class '" ++ name ++ "' given with --subclass-of was not found among the retrieved classes"

/-- Why an operation in one namespace fails. -/
inductive OperationError where
  | server (e : ServerError)
  | filter (e : FilterError)
deriving DecidableEq, Repr

namespace OperationError

def message : OperationError → String
  | .server e => e.message
  | .filter e => e.message

def isRecoverable : OperationError → Bool
  | .server e => e.isRecoverable
  | .filter _ => false

end OperationError

/-- The version of a schema, ordered part by part. -/
structure SchemaVersion where
  major : Nat
  minor : Nat
  update : Nat
deriving DecidableEq, Repr

namespace SchemaVersion

def parts (v : SchemaVersion) : List Nat := [v.major, v.minor, v.update]

def text (v : SchemaVersion) : String := join "." (v.parts.map toString)

/-- The first part that differs decides. -/
def compare (a b : SchemaVersion) : Ordering :=
  (Ord.compare a.major b.major).then
    ((Ord.compare a.minor b.minor).then (Ord.compare a.update b.update))

def atLeast (v least : SchemaVersion) : Bool := v.compare least != .lt

/-- Three numbers of 32 bits between points, blanks around each. -/
def ofText? (s : String) : Option SchemaVersion :=
  match (split '.' (trim s)).map fun part => readNatural? (Nat.pow 2 32 - 1) (trim part) with
  | [some major, some minor, some update] => some ⟨major, minor, update⟩
  | _ => none

end SchemaVersion

/-- The kinds of element that a filter looks at. -/
structure ScopeMask where
  onClass : Bool := false
  onProperty : Bool := false
  onMethod : Bool := false
  onParameter : Bool := false
deriving DecidableEq, Repr

namespace ScopeMask

def everywhere : ScopeMask := ⟨true, true, true, true⟩

def ofScopes (scopes : List Scope) : ScopeMask where
  onClass := scopes.any fun s => [Scope.classDecl, .association, .indication, .any].contains s
  onProperty := scopes.any fun s => [Scope.property, .reference, .any].contains s
  onMethod := scopes.any fun s => [Scope.method, .any].contains s
  onParameter := scopes.any fun s => [Scope.parameter, .any].contains s

end ScopeMask

/-- What the user asks for; what is absent does not filter. -/
structure FilterOptions where
  association : Option Bool := none
  indication : Option Bool := none
  experimental : Option Bool := none
  deprecated : Option Bool := none
  since : Option String := none
  schema : Option String := none
  subclassOf : Option String := none
  leafClasses : Bool := false
deriving DecidableEq, Repr

namespace FilterOptions

/-- The flags in the order in which they are looked up. -/
def flags (o : FilterOptions) : List (String × Option Bool) :=
  [("Association", o.association), ("Indication", o.indication),
    ("Experimental", o.experimental), ("Deprecated", o.deprecated)]

def isActive (o : FilterOptions) : Bool :=
  o.flags.any (·.2.isSome) || o.since.isSome || o.schema.isSome || o.subclassOf.isSome ||
    o.leafClasses

end FilterOptions

inductive Wanted where
  | flag (present : Bool)
  | atLeast (version : SchemaVersion)
deriving DecidableEq, Repr

structure QualifierFilter where
  qualifier : String
  wanted : Wanted
  scope : ScopeMask
deriving DecidableEq, Repr

/-- The filters as they are applied in one namespace. -/
structure FilterSet where
  qualifiers : List QualifierFilter := []
  schema : Option String := none
  subclassOf : Option String := none
  leafClasses : Bool := false
deriving DecidableEq, Repr

/-- Where a qualifier may stand by its declaration. -/
def Server.qualifierScope (s : Server) (space name : String) : Except ServerError ScopeMask :=
  match s.qualifier space name with
  | .ok decl => .ok (ScopeMask.ofScopes decl.scopes)
  | .error e => if e.status? = some .notFound then .ok .everywhere else .error e

namespace FilterSet

def isEmpty (f : FilterSet) : Bool :=
  f.qualifiers.isEmpty && f.schema.isNone && f.subclassOf.isNone && !f.leafClasses

def flagFilters (s : Server) (space : String) :
    List (String × Option Bool) → Except ServerError (List QualifierFilter)
  | [] => .ok []
  | (_, none) :: rest => flagFilters s space rest
  | (name, some present) :: rest => do
    let scope ← s.qualifierScope space name
    let others ← flagFilters s space rest
    pure (⟨name, .flag present, scope⟩ :: others)

/-- The filters that options stand for. The version is read before the server is asked. -/
def build (s : Server) (space : String) (o : FilterOptions) : Except OperationError FilterSet := do
  let since ← match o.since with
    | none => pure none
    | some text =>
      match SchemaVersion.ofText? text with
      | some v => pure (some v)
      | none => .error (.filter (.invalidVersion text))
  let flags ← (flagFilters s space o.flags).mapError .server
  let versions := since.toList.map fun v =>
    QualifierFilter.mk "Version" (.atLeast v) { onClass := true }
  pure {
    qualifiers := flags ++ versions
    schema := o.schema
    subclassOf := o.subclassOf
    leafClasses := o.leafClasses }

end FilterSet

/-- A qualifier is present unless it is false. -/
def Qualifiers.present (qs : Qualifiers) (name : String) : Bool :=
  match qs.find? name with
  | none => false
  | some (.boolean b) => b
  | some _ => true

namespace ClassDecl

/-- Whether an element of the class within the mask carries the qualifier. -/
def carries (c : ClassDecl) (name : String) (scope : ScopeMask) : Bool :=
  (scope.onClass && c.qualifiers.present name)
    || (scope.onProperty && c.properties.any fun p => p.qualifiers.present name)
    || (scope.onMethod && c.methods.any fun m => m.qualifiers.present name)
    || (scope.onParameter && c.methods.any fun m =>
        m.parameters.any fun p => p.qualifiers.present name)

def version? (c : ClassDecl) : Option SchemaVersion :=
  ((c.qualifiers.find? "Version").bind Value.text?).bind SchemaVersion.ofText?

def passesQualifier (c : ClassDecl) (f : QualifierFilter) : Bool :=
  match f.wanted with
  | .flag present => c.carries f.qualifier f.scope == present
  | .atLeast least => c.version?.any fun v => v.atLeast least

/-- Whether the name starts with the schema and `_`. -/
def isInSchema (c : ClassDecl) (schema : String) : Bool :=
  (foldCase (schema ++ "_")).toList.isPrefixOf (foldCase c.name).toList

end ClassDecl

/-- The superclass of a class by the last class of this name in the batch that has one. -/
def parentIn (batch : List ClassDecl) (name : String) : Option String :=
  (batch.reverse.find? fun c => sameName c.name name && c.superclass.isSome).bind
    ClassDecl.superclass

/-- Whether at most so many superclass links inside the batch lead to the root. -/
def descends (batch : List ClassDecl) (root : String) : Nat → String → Bool
  | 0, _ => false
  | steps + 1, name =>
    match parentIn batch name with
    | none => false
    | some parent => sameName parent root || descends batch root steps parent

namespace FilterSet

/-- Whether a class of the batch passes all filters. -/
def admits (f : FilterSet) (batch : List ClassDecl) (c : ClassDecl) : Bool :=
  f.qualifiers.all c.passesQualifier
    && f.schema.all c.isInSchema
    && (f.subclassOf.all fun root => descends batch root (batch.length + 1) c.name)
    && (!f.leafClasses || !batch.any fun d => d.superclass.any fun s => sameName s c.name)

/-- The classes of the batch that pass, in its order. -/
def select (f : FilterSet) (batch : List ClassDecl) : Except FilterError (List ClassDecl) :=
  match f.subclassOf with
  | some root =>
    if batch.any fun c => sameName c.name root then .ok (batch.filter (f.admits batch))
    else .error (.subclassOfNotFound root)
  | none => .ok (batch.filter (f.admits batch))

end FilterSet

/-- What a filtered listing shows of the classes. -/
inductive Selection where
  | classes (found : List ClassDecl)
  | names (found : List String)

/-- Applies filters; classes are shown without qualifiers unless these are kept. -/
def FilterSet.apply (f : FilterSet) (batch : List ClassDecl) (namesOnly keepQualifiers : Bool) :
    Except FilterError Selection := do
  let found ← f.select batch
  if namesOnly then pure (.names (found.map ClassDecl.name))
  else if keepQualifiers then pure (.classes found)
  else pure (.classes (found.map ClassDecl.withoutQualifiers))

end CimConsole
