import CimConsole.Number.Binary64
import CimConsole.NameTable

/-!
Documents: the trees that JSON and YAML texts stand for. The fields of a record keep
the order of the text, and a name may occur twice; who reads a record decides what that
means. A plain scalar of YAML has no type of its own, so its text is kept until it is
known what it is read as.
-/
namespace CimConsole

open Number

inductive Document where
  | null
  | boolean (b : Bool)
  | whole (i : Int)
  | real (r : Binary64)
  | text (s : String)
  | plain (s : String)
  | list (items : List Document)
  | record (fields : List (String × Document))

namespace Document

instance : Inhabited Document := ⟨.null⟩

def ofOption {α : Type} (f : α → Document) : Option α → Document
  | none => .null
  | some a => f a

def ofTable {α : Type} (f : α → Document) (t : NameTable α) : Document :=
  .record (t.entries.map fun e => (e.1, f e.2))

/-- The value of the last field of this name. -/
def field? (name : String) : Document → Option Document
  | .record fields => fields.reverse.lookup name
  | _ => none

mutual

/-- The document with the fields of every record in the order of their names, and the
last field of each name only. -/
def sorted : Document → Document
  | .list items => .list (sortedItems items)
  | .record fields => .record ((sortedFields fields).foldl (fun t e => Entries.put e.1 e.2 t) [])
  | d => d

def sortedItems : List Document → List Document
  | [] => []
  | d :: rest => d.sorted :: sortedItems rest

def sortedFields : List (String × Document) → List (String × Document)
  | [] => []
  | (name, d) :: rest => (name, d.sorted) :: sortedFields rest

end

end Document

end CimConsole
