import CimConsole.Command.Basic
import CimConsole.Command.Run
import CimConsole.Output.ClassTree

/-!
Commands about classes. A listing with filters retrieves the qualifiers that the filters
look at and shows them only if they are asked for.
-/
namespace CimConsole

open Text

namespace Retrieval

/-- What is asked of the server; filters need the qualifiers. -/
def detail (r : Retrieval) (filtering : Bool) : ClassDetail where
  localOnly := r.localOnly
  qualifiers := !r.noQualifiers || filtering
  origins := r.origins

end Retrieval

namespace ClassCommand

/-- Classes, or their names only. -/
def listed (namesOnly : Bool) (found : List ClassDecl) : Objects :=
  if namesOnly then .names (found.map ClassDecl.name) else .classes found

/-- The classes of a listing in one namespace. -/
def enumerateIn (s : Server) (start : Option String) (deep : Bool) (retrieval : Retrieval)
    (namesOnly : Bool) (filters : FilterOptions) (space : String) :
    Except OperationError Objects := do
  let deep := deep || filters.subclassOf.isSome
  let detail := retrieval.detail filters.isActive
  if filters.isActive then
    let set ← FilterSet.build s space filters
    let batch ← (s.classes space start deep detail).mapError .server
    match ← (set.apply batch namesOnly (!retrieval.noQualifiers)).mapError OperationError.filter with
    | .classes found => pure (.classes found)
    | .names found => pure (.names found)
  else if namesOnly then
    (s.classNames space start deep).mapError .server |>.map .names
  else (s.classes space start deep detail).mapError .server |>.map .classes

/-- The names of a namespace that match a pattern. -/
def findIn (s : Server) (p : Pattern) (space : String) : Except OperationError Objects := do
  let names ← (s.classNames space none true).mapError OperationError.server
  pure (.names (ClassTree.sortedByCase (names.filter p.isMatch)))

/-- The lines of the tree of a class, or of all classes. -/
def treeLines (s : Server) (space : String) (root : Option String) :
    Except Failure (List String) := do
  let classes ← (s.classes space none true { qualifiers := false }).mapError Failure.server
  match root with
  | none => pure (ClassTree.lines classes (ClassTree.roots classes))
  | some name =>
    match classes.find? fun c => sameName c.name name with
    | some c => pure (ClassTree.lines classes [c.name])
    | none => .error (.noSuchClass name space)

def readPattern (text : String) : Run Pattern :=
  Run.orFail ((Pattern.read text).mapError .invalidPattern)

def run : ClassCommand → Run Unit
  | .enumerate start deep retrieval listing namespaces filters => do
    let (s, _) ← Run.server
    let spaces ← Run.chooseSpaces s namespaces false
    Run.inNamespaces (← Run.console .mof) "class" (start.getD "<top-level>") spaces fun space =>
      (enumerateIn s start deep retrieval listing.namesOnly filters space).map
        (·.summarized listing.summary)
  | .get name retrieval namespaces => do
    let (s, _) ← Run.server
    let spaces ← Run.chooseSpaces s namespaces false
    Run.inNamespaces (← Run.console .mof) "class" name spaces fun space =>
      (s.classNamed space name (retrieval.detail false)).mapError .server |>.map
        fun c => .classes [c]
  | .find pattern namespaces => do
    let p ← readPattern pattern
    let (s, _) ← Run.server
    let spaces ← Run.chooseSpaces s namespaces true
    Run.inNamespaces (← Run.console .text) "class" pattern spaces (findIn s p)
  | .references name filter listing namespaces => do
    let (s, _) ← Run.server
    let spaces ← Run.chooseSpaces s namespaces false
    Run.inNamespaces (← Run.console .mof) "class" name spaces fun space =>
      (s.classReferences space name filter).mapError .server |>.map fun found =>
        (listed listing.namesOnly found).summarized listing.summary
  | .associators name filter listing namespaces => do
    let (s, _) ← Run.server
    let spaces ← Run.chooseSpaces s namespaces false
    Run.inNamespaces (← Run.console .mof) "class" name spaces fun space =>
      (s.classAssociators space name filter).mapError .server |>.map fun found =>
        (listed listing.namesOnly found).summarized listing.summary
  | .tree root space => do
    let (s, _) ← Run.server
    let lines ← Run.orFail (treeLines s (space.getD s.defaultNamespace) root)
    Run.write (Console.lines lines)

end ClassCommand

end CimConsole
