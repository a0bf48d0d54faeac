import CimConsole.Document.Scalar

/-!
Reading typed values out of documents. A record with fixed fields may leave out those
that have a default, may have others besides, which do not count, and must not have one
of its own twice; it may also be given as a list of its fields in order. Nothing at all
reads as a record without fields and as an empty list.
-/
namespace CimConsole.Document

open Text Number

def isNull : Document → Bool
  | .null => true
  | .plain s => isNullWord s
  | _ => false

def text? : Document → Option String
  | .text s => some s
  | .plain s => some s
  | _ => none

/-- The name of a case that carries nothing: a text, or the one field of a record with
null under it. -/
def case? : Document → Option String
  | .record [(name, .null)] => some name
  | d => d.text?

def boolean? (d : Document) : Option Bool :=
  match d.settled with
  | .boolean b => some b
  | _ => none

/-- A whole number below a limit. -/
def natural? (limit : Nat) (d : Document) : Option Nat :=
  match d.settled with
  | .whole i => if 0 ≤ i ∧ i.toNat < limit then some i.toNat else none
  | _ => none

def items? : Document → Option (List Document)
  | .list items => some items
  | .plain s => if s == "" then some [] else none
  | _ => none

def list? {α : Type} (decode : Document → Option α) (d : Document) : Option (List α) :=
  d.items?.bind fun items => items.mapM decode

def option? {α : Type} (decode : Document → Option α) (d : Document) : Option (Option α) :=
  if d.isNull then some none else (decode d).map some

/-- The entries of a record whose names are data; of two with one name the later counts. -/
def table? {α : Type} (decode : Document → Option α) : Document → Option (NameTable α)
  | .record fields =>
    (fields.mapM fun f => (decode f.2).map fun v => (f.1, v)).map NameTable.ofList
  | .plain s => if s == "" then some .empty else none
  | _ => none

/-- The fields of a record that has these names for its fields. -/
def fields? (names : List String) : Document → Option (List (String × Document))
  | .record fields =>
    if names.all fun n => (fields.filter fun f => f.1 == n).length ≤ 1 then some fields else none
  | .list items => if items.length ≤ names.length then some (names.zip items) else none
  | .plain s => if s == "" then some [] else none
  | _ => none

/-- A field that must be there. -/
def required {α : Type} (decode : Document → Option α) (name : String)
    (fields : List (String × Document)) : Option α :=
  (fields.lookup name).bind decode

/-- A field that has a default. -/
def defaulted {α : Type} (decode : Document → Option α) (default : α) (name : String)
    (fields : List (String × Document)) : Option α :=
  match fields.lookup name with
  | none => some default
  | some d => decode d

/-- A field that may be absent or null. -/
def optional {α : Type} (decode : Document → Option α) (name : String)
    (fields : List (String × Document)) : Option (Option α) :=
  defaulted (option? decode) none name fields

/-- The one-field record of a present value, for building records. -/
def present {α : Type} (name : String) (encode : α → Document) : Option α → List (String × Document)
  | none => []
  | some a => [(name, encode a)]

/-- A field that is written only if `shown`. -/
def shownIf (shown : Bool) (name : String) (d : Document) : List (String × Document) :=
  if shown then [(name, d)] else []

end CimConsole.Document
