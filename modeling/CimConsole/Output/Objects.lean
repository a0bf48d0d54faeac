import CimConsole.Model.Documents
import CimConsole.Model.Mof
import CimConsole.Output.Table

/-!
What a command finds in one namespace, and its forms: a document, lines with one object
each, MOF texts and a table.
-/
namespace CimConsole

open Text

inductive Objects where
  | classes (found : List ClassDecl)
  | names (found : List String)
  | instances (found : List Instance)
  | paths (found : List ObjectPath)
  | qualifiers (found : List QualifierDecl)
  | counts (found : List (String × Nat))
  | summary (size : Nat)

namespace Objects

def size : Objects → Nat
  | .classes found => found.length
  | .names found => found.length
  | .instances found => found.length
  | .paths found => found.length
  | .qualifiers found => found.length
  | .counts found => found.length
  | .summary size => size

/-- The number of the objects in place of the objects, if only that is asked for. -/
def summarized (only : Bool) (o : Objects) : Objects := if only then .summary o.size else o

def countDocument (count : String × Nat) : Document :=
  .record [("classname", .text count.1), ("count", .whole count.2)]

def document : Objects → Document
  | .classes found => .list (found.map ClassDecl.document)
  | .names found => .list (found.map .text)
  | .instances found => .list (found.map Instance.document)
  | .paths found => .list (found.map ObjectPath.document)
  | .qualifiers found => .list (found.map QualifierDecl.document)
  | .counts found => .list (found.map countDocument)
  | .summary size => .whole size

/-- One line for each object: its name or path. -/
def lines : Objects → List String
  | .classes found => found.map ClassDecl.name
  | .names found => found
  | .instances found => found.map fun x => (x.path.map ObjectPath.display).getD x.className
  | .paths found => found.map ObjectPath.display
  | .qualifiers found => found.map QualifierDecl.name
  | .counts found => found.map fun (name, n) => name ++ ": " ++ toString n
  | .summary size => [toString size]

/-- The names of all properties, each in the first spelling that occurs. -/
def propertyNames (found : List Instance) : List String :=
  (found.flatMap fun x => x.properties.names).foldl
    (fun names n => if names.any (sameName · n) then names else names ++ [n]) []

def displayed (v : Option Value) : String := (v.map Value.display).getD ""

/-- The headers and rows of a table. -/
def table : Objects → List String × List (List String)
  | .classes found =>
    (["Classname", "Superclass", "Qualifiers"],
      found.map fun c => [c.name, c.superclass.getD "", join ", " c.qualifiers.names])
  | .instances found =>
    let columns := propertyNames found
    (columns, found.map fun x => columns.map fun n => displayed (x.get? n))
  | .qualifiers found =>
    (["Name", "Type", "Value", "Array", "Scopes", "Flavors"],
      found.map fun q =>
        [q.name, q.type, displayed q.value, if q.isArray then "true" else "false",
          join ", " (q.scopes.map Scope.text), join ", " (Mof.flavors q)])
  | .counts found => (["Class", "Count"], found.map fun (name, n) => [name, toString n])
  | .names found => (["Classname"], found.map fun n => [n])
  | .paths found => (["Path"], found.map fun p => [p.display])
  | .summary size => (["Count"], [[toString size]])

/-- The MOF texts of the objects that have some, one behind the other. -/
def mof? : Objects → Option String
  | .classes found => some (join "\n" (found.map Mof.ofClass) ++ "\n")
  | .instances found => some (join "\n" (found.map Mof.ofInstance) ++ "\n")
  | .qualifiers found => some (join "" (found.map fun q => Mof.ofQualifierDecl q ++ "\n"))
  | _ => none

end Objects

end CimConsole
