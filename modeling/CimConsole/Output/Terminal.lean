import CimConsole.Text.Letters
import CimConsole.Text.Pieces
import CimConsole.Text.Whole

/-!
What is known of the terminal: its width and whether it shows colours. A coloured text
stands between escape sequences, which have no width. Widths count characters.
-/
namespace CimConsole

open Text

structure Terminal where
  color : Bool := false
  width : Nat := 120
deriving DecidableEq, Repr, Inhabited

/-- The width by the number of columns that is given, within limits. -/
def Terminal.widthOf (columns : Option String) : Nat :=
  match columns.bind (readNatural? (Nat.pow 2 64 - 1)) with
  | some n => max 40 (min n 220)
  | none => 120

/-- What a coloured text is for. -/
inductive Role where
  | primary
  | secondary
  | accent
  | success
  | warning
  | error
  | dim
deriving DecidableEq, Repr

def Role.code : Role → String
  | .primary => "38;5;45"
  | .secondary => "38;5;250"
  | .accent => "38;5;213"
  | .success => "38;5;82"
  | .warning => "38;5;214"
  | .error => "38;5;196"
  | .dim => "2"

def Terminal.paint (t : Terminal) (role : Role) (s : String) : String :=
  if t.color then "\x1b[" ++ role.code ++ "m" ++ s ++ "\x1b[0m" else s

/-- The characters without escape sequences; one ends with its first letter. -/
def plainChars : (inEscape : Bool) → List Char → List Char
  | _, [] => []
  | true, c :: rest => plainChars (!isLetter c) rest
  | false, '\x1b' :: '[' :: rest => plainChars true rest
  | false, c :: rest => c :: plainChars false rest

def plainText (s : String) : String := String.ofList (plainChars false s.toList)

def shownWidth (s : String) : Nat := (plainChars false s.toList).length

/-- At most `n` characters, the last of them an ellipsis if some are left out. -/
def truncate (n : Nat) (s : String) : String :=
  if s.length ≤ n then s
  else if n ≤ 1 then "…"
  else String.ofList (s.toList.take (n - 1)) ++ "…"

/-- The text in exactly `n` columns, unless `n` is zero. -/
def fitted (n : Nat) (s : String) : String :=
  if shownWidth s ≤ n then s ++ repeated ' ' (n - shownWidth s) else truncate n (plainText s)

end CimConsole
