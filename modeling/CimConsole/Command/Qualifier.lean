import CimConsole.Command.Class

/-!
Commands about qualifier declarations, which are listed in the order of their names in
small letters.
-/
namespace CimConsole.QualifierCommand

open Text

def enumerateIn (s : Server) (space : String) : Except OperationError Objects := do
  let decls ← (s.qualifiers space).mapError OperationError.server
  pure (.qualifiers (decls.mergeSort fun a b => foldCase a.name ≤ foldCase b.name))

def run : QualifierCommand → Run Unit
  | .enumerate summary namespaces => do
    let (s, _) ← Run.server
    let spaces ← Run.chooseSpaces s namespaces false
    Run.inNamespaces (← Run.console .mof) "qualifier" "*" spaces fun space =>
      (enumerateIn s space).map (·.summarized summary)
  | .get name namespaces => do
    let (s, _) ← Run.server
    let spaces ← Run.chooseSpaces s namespaces false
    Run.inNamespaces (← Run.console .mof) "qualifier" name spaces fun space =>
      (s.qualifier space name).mapError .server |>.map fun q => .qualifiers [q]

end CimConsole.QualifierCommand
