import CimConsole.Server.Basic

/-!
The namespaces that a command runs in: those asked for, in order and with repetitions,
or else the default namespace, or else all namespaces of the server in the order of
their names.
-/
namespace CimConsole

open Text

/-- The namespaces to run in, and what to tell the user about the choice. -/
structure ChosenNamespaces where
  names : List String
  warning : Option String := none
deriving DecidableEq, Repr

/-- The texts in the order of their characters. -/
def sortedNames (names : List String) : List String := names.mergeSort (· ≤ ·)

/-- A server that cannot list its namespaces is used with its default namespace alone. -/
def Server.chooseNamespaces (s : Server) (requested : List String) (all : Bool) :
    Except ServerError ChosenNamespaces :=
  match listItems requested with
  | name :: rest => .ok { names := name :: rest }
  | [] =>
    if !all then .ok { names := [s.defaultNamespace] }
    else
      match s.namespaceNames with
      | .ok names => .ok { names := sortedNames names }
      | .error (.model _) => .ok { names := [s.defaultNamespace] }
      | .error e =>
        if e.status? = some .notFound then
          .ok {
            names := [s.defaultNamespace]
            warning := some ("Interop namespace not found (" ++ e.message
              ++ "); using default namespace '" ++ s.defaultNamespace ++ "'") }
        else .error e

end CimConsole
