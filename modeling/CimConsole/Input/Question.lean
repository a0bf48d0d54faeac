import CimConsole.Text.Blank
import CimConsole.Text.Pieces
import CimConsole.Text.Whole

/-!
A question with numbered choices. The answer is one line; anything but a number of the
list means that nothing is chosen.
-/
namespace CimConsole.Question

open Text

/-- The question as it is shown. -/
def text (prompt : String) (choices : List String) : String :=
  prompt ++ ":\n"
    ++ join "" (choices.zipIdx.map fun (choice, i) =>
        "  [" ++ toString (i + 1) ++ "] " ++ choice ++ "\n")
    ++ "Enter number (1-" ++ toString choices.length ++ "): "

/-- The place of the choice that a line names. -/
def chosen? (count : Nat) (line : String) : Option Nat :=
  (readNatural? (Nat.pow 2 64 - 1) (trim line)).bind fun n =>
    if 1 ≤ n ∧ n ≤ count then some (n - 1) else none

end CimConsole.Question
