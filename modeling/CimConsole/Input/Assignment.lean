import CimConsole.Text.Blank
import CimConsole.Text.Pieces

/-!
Assignments `NAME=VALUE`. The first `=` divides; the name is trimmed and not empty, the
value is kept as it is.
-/
namespace CimConsole

open Text

inductive AssignmentError where
  | emptyName (item : String)
  | noEquals (item : String)
deriving DecidableEq, Repr

def AssignmentError.message : AssignmentError → String
  | .emptyName item => "invalid --property (empty name): " ++ item
  | .noEquals item => "invalid --property (expected NAME=VALUE): " ++ item

def readAssignment (item : String) : Except AssignmentError (String × String) :=
  match cutFirst '=' item.toList with
  | none => .error (.noEquals item)
  | some (before, value) =>
    let name := trim (String.ofList before)
    if name == "" then .error (.emptyName item) else .ok (name, String.ofList value)

def readAssignments (items : List String) : Except AssignmentError (List (String × String)) :=
  items.mapM readAssignment

end CimConsole
