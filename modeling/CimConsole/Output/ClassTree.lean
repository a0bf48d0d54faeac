import CimConsole.Model.Schema
import CimConsole.Text.Pieces

/-!
The tree of classes below others, one class a line and four more characters for each
level. Classes with the same superclass stand in the order of their names in small
letters. A class has one superclass, so no branch is longer than there are classes, unless
superclasses go round in a circle.
-/
namespace CimConsole.ClassTree

open Text

/-- Names in the order of their small letters. -/
def sortedByCase (names : List String) : List String :=
  names.mergeSort fun a b => foldCase a ≤ foldCase b

/-- The classes directly below a class. -/
def children (classes : List ClassDecl) (name : String) : List String :=
  sortedByCase ((classes.filter fun c => c.superclass.any fun s => sameName s name).map
    ClassDecl.name)

/-- The classes without superclass. -/
def roots (classes : List ClassDecl) : List String :=
  sortedByCase ((classes.filter fun c => c.superclass.isNone).map ClassDecl.name)

/-- The lines of what is below a class, to a depth. The depth that `lines` starts with is the number
of classes, and a branch that has an end is no longer. A class on a circle of superclasses, named as a
start, is cut off there, where drawing without a bound would not come to an end. -/
def branches (classes : List ClassDecl) : (depth : Nat) → (indent name : String) → List String
  | 0, _, _ => []
  | depth + 1, indent, name =>
    let below := children classes name
    below.zipIdx.flatMap fun (child, i) =>
      let isLast := i + 1 == below.length
      (indent ++ (if isLast then "└── " else "├── ") ++ child)
        :: branches classes depth (indent ++ if isLast then "    " else "│   ") child

/-- The lines of some classes and all that is below them. -/
def lines (classes : List ClassDecl) (starts : List String) : List String :=
  starts.flatMap fun name => name :: branches classes classes.length "" name

end CimConsole.ClassTree
