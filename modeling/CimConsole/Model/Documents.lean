import CimConsole.Document.Fields
import CimConsole.Model.Path
import CimConsole.Model.Schema
import CimConsole.Model.Instance

/-!
Documents of values, paths, classes, instances and qualifier declarations, both ways.
Values carry no mark of their kind: a truth value, a whole number of 64 bits with sign,
any other number, a text, a record with a field `ref` that holds the text of a path,
and a list are told apart in this order. Fields that hold their default are left out.
-/
namespace CimConsole

open Document Number

mutual

def Value.document : Value → Document
  | .boolean b => .boolean b
  | .integer i => .whole i.toInt
  | .real r => .real r
  | .text s => .text s
  | .reference p => .record [("ref", .text p.display)]
  | .array items => .list (valueDocuments items)

def valueDocuments : List Value → List Document
  | [] => []
  | v :: rest => v.document :: valueDocuments rest

end

def ObjectPath.document (p : ObjectPath) : Document := .text p.display

def ObjectPath.ofDocument? (d : Document) : Option ObjectPath :=
  d.text?.bind fun s => (ObjectPath.read s).toOption

/-- The value of a whole number: numbers of 64 bits without sign are reals from the
upper half on. -/
def Value.ofWhole? (i : Int) : Option Value :=
  if -(Int.pow 2 63) ≤ i ∧ i < Int.pow 2 63 then some (.integer (Int64.ofInt i))
  else if 0 ≤ i ∧ i < Int.pow 2 64 then some (.real (Binary64.ofInt i))
  else none

/-- The reference of a record with one field `ref`; other fields do not count. -/
def Value.ofRecord? (fields : List (String × Document)) : Option Value :=
  match fields.filter fun f => f.1 == "ref" with
  | [(_, d)] => (ObjectPath.ofDocument? d.settled).map .reference
  | _ => none

mutual

def Value.ofDocument? : Document → Option Value
  | .null => none
  | .boolean b => some (.boolean b)
  | .whole i => Value.ofWhole? i
  | .real r => some (.real r)
  | .text s => some (.text s)
  | .plain s =>
    match ofWord s with
    | .boolean b => some (.boolean b)
    | .whole i => Value.ofWhole? i
    | .real r => some (.real r)
    | .text s => some (.text s)
    | _ => none
  | .list items => (valuesOfDocuments? items).map .array
  | .record fields => Value.ofRecord? fields

def valuesOfDocuments? : List Document → Option (List Value)
  | [] => some []
  | d :: rest => do
    let v ← Value.ofDocument? d
    let vs ← valuesOfDocuments? rest
    some (v :: vs)

end

namespace Qualifiers

def document (qs : Qualifiers) : Document := Document.ofTable Value.document qs

def fields (qs : Qualifiers) : List (String × Document) :=
  shownIf (!qs.isEmpty) "qualifiers" qs.document

/-- The field of qualifiers in a record. -/
def inFields? (fs : List (String × Document)) : Option Qualifiers :=
  defaulted (table? Value.ofDocument?) .empty "qualifiers" fs

end Qualifiers

namespace PropertyDecl

def document (p : PropertyDecl) : Document :=
  .record <|
    [("name", .text p.name), ("type", .text p.type)]
    ++ shownIf p.isArray "is_array" (.boolean true)
    ++ present "reference_class" .text p.referenceClass
    ++ present "value" Value.document p.value
    ++ p.qualifiers.fields
    ++ present "class_origin" .text p.origin
    ++ shownIf p.propagated "propagated" (.boolean true)

def fieldNames : List String :=
  ["name", "type", "is_array", "reference_class", "value", "qualifiers", "class_origin", "propagated"]

def ofDocument? (d : Document) : Option PropertyDecl := do
  let fs ← d.fields? fieldNames
  some {
    name := ← required text? "name" fs
    type := ← defaulted text? "string" "type" fs
    isArray := ← defaulted boolean? false "is_array" fs
    referenceClass := ← optional text? "reference_class" fs
    value := ← optional Value.ofDocument? "value" fs
    qualifiers := ← Qualifiers.inFields? fs
    origin := ← optional text? "class_origin" fs
    propagated := ← defaulted boolean? false "propagated" fs }

end PropertyDecl

namespace ParameterDecl

def document (p : ParameterDecl) : Document :=
  .record <|
    [("name", .text p.name), ("type", .text p.type)]
    ++ shownIf p.isArray "is_array" (.boolean true)
    ++ present "reference_class" .text p.referenceClass
    ++ p.qualifiers.fields

def fieldNames : List String := ["name", "type", "is_array", "reference_class", "qualifiers"]

def ofDocument? (d : Document) : Option ParameterDecl := do
  let fs ← d.fields? fieldNames
  some {
    name := ← required text? "name" fs
    type := ← defaulted text? "string" "type" fs
    isArray := ← defaulted boolean? false "is_array" fs
    referenceClass := ← optional text? "reference_class" fs
    qualifiers := ← Qualifiers.inFields? fs }

end ParameterDecl

namespace MethodDecl

def document (m : MethodDecl) : Document :=
  .record <|
    [("name", .text m.name), ("type", .text m.returnType)]
    ++ shownIf (!m.parameters.isEmpty) "parameters" (.list (m.parameters.map ParameterDecl.document))
    ++ m.qualifiers.fields
    ++ present "class_origin" .text m.origin
    ++ shownIf m.propagated "propagated" (.boolean true)

def fieldNames : List String :=
  ["name", "type", "parameters", "qualifiers", "class_origin", "propagated"]

def ofDocument? (d : Document) : Option MethodDecl := do
  let fs ← d.fields? fieldNames
  some {
    name := ← required text? "name" fs
    returnType := ← defaulted text? "string" "type" fs
    parameters := ← defaulted (list? ParameterDecl.ofDocument?) [] "parameters" fs
    qualifiers := ← Qualifiers.inFields? fs
    origin := ← optional text? "class_origin" fs
    propagated := ← defaulted boolean? false "propagated" fs }

end MethodDecl

namespace ClassDecl

def document (c : ClassDecl) : Document :=
  .record <|
    [("classname", .text c.name)]
    ++ present "superclass" .text c.superclass
    ++ c.qualifiers.fields
    ++ shownIf (!c.properties.isEmpty) "properties" (.list (c.properties.map PropertyDecl.document))
    ++ shownIf (!c.methods.isEmpty) "methods" (.list (c.methods.map MethodDecl.document))

def fieldNames : List String := ["classname", "superclass", "qualifiers", "properties", "methods"]

def ofDocument? (d : Document) : Option ClassDecl := do
  let fs ← d.fields? fieldNames
  some {
    name := ← required text? "classname" fs
    superclass := ← optional text? "superclass" fs
    qualifiers := ← Qualifiers.inFields? fs
    properties := ← defaulted (list? PropertyDecl.ofDocument?) [] "properties" fs
    methods := ← defaulted (list? MethodDecl.ofDocument?) [] "methods" fs }

end ClassDecl

namespace Instance

def document (x : Instance) : Document :=
  .record <|
    [("classname", .text x.className)]
    ++ present "path" ObjectPath.document x.path
    ++ [("properties", Document.ofTable (Document.ofOption Value.document) x.properties)]

def fieldNames : List String := ["classname", "path", "properties"]

def ofDocument? (d : Document) : Option Instance := do
  let fs ← d.fields? fieldNames
  some {
    className := ← required Document.text? "classname" fs
    path := ← optional ObjectPath.ofDocument? "path" fs
    properties := ← defaulted (table? (option? Value.ofDocument?)) .empty "properties" fs }

end Instance

def Scope.ofDocument? (d : Document) : Option Scope := d.case?.bind Scope.ofCapitals?

namespace QualifierDecl

def document (q : QualifierDecl) : Document :=
  .record <|
    [("name", .text q.name), ("type", .text q.type)]
    ++ shownIf q.isArray "is_array" (.boolean true)
    ++ present "value" Value.document q.value
    ++ [("scopes", .list (q.scopes.map fun s => .text s.capitals))]
    ++ present "overridable" .boolean q.overridable
    ++ present "tosubclass" .boolean q.toSubclass
    ++ present "translatable" .boolean q.translatable

def fieldNames : List String :=
  ["name", "type", "is_array", "value", "scopes", "overridable", "tosubclass", "translatable"]

def ofDocument? (d : Document) : Option QualifierDecl := do
  let fs ← d.fields? fieldNames
  some {
    name := ← required text? "name" fs
    type := ← defaulted text? "string" "type" fs
    isArray := ← defaulted boolean? false "is_array" fs
    value := ← optional Value.ofDocument? "value" fs
    scopes := ← defaulted (list? Scope.ofDocument?) [] "scopes" fs
    overridable := ← optional boolean? "overridable" fs
    toSubclass := ← optional boolean? "tosubclass" fs
    translatable := ← optional boolean? "translatable" fs }

end QualifierDecl

end CimConsole
