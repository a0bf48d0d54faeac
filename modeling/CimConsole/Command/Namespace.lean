import CimConsole.Command.Class

/-!
Commands about the namespaces of a server.
-/
namespace CimConsole.NamespaceCommand

/-- The names of namespaces in a format. -/
def namesText (console : Console) (names : List String) : String :=
  if console.format.isMachine then console.value (.list (names.map .text))
  else if console.format = .table then console.table ["Namespace"] (names.map fun n => [n])
  else Console.lines names

def run : NamespaceCommand → Run Unit
  | .list summary => do
    let (s, _) ← Run.server
    let names := ClassTree.sortedByCase (← Run.during .listNamespaces s.namespaceNames)
    let console ← Run.console .text
    Run.write
      (if summary then Console.line (toString names.length ++ " namespace(s) returned")
      else namesText console names)
  | .interop => do
    let (s, _) ← Run.server
    let name ← Run.during .findInterop s.interop
    let console ← Run.console .text
    Run.write (if console.format.isMachine then console.value (.text name) else Console.line name)

end CimConsole.NamespaceCommand
