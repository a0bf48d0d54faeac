import CimConsole.Text.Letters

/-!
Whole numbers written in decimal: an optional sign and at least one ASCII digit.
The number is read from the left, so of two faults the one further left is the one
that is reported.
-/
namespace CimConsole.Text

/-- Why a text is not a whole number of a range. -/
inductive WholeFault where
  | empty
  | notADigit
  | tooLarge
  | tooSmall
deriving DecidableEq, Repr

def WholeFault.message : WholeFault → String
  | .empty => "cannot parse integer from empty string"
  | .notADigit => "invalid digit found in string"
  | .tooLarge => "number too large to fit in target type"
  | .tooSmall => "number too small to fit in target type"

def digitValue (c : Char) : Nat := c.toNat - '0'.toNat

/-- Reads digits up to `limit`; the digit that passes it is the fault. -/
def readDigits (limit : Nat) (fault : WholeFault) (acc : Nat) :
    List Char → Except WholeFault Nat
  | [] => .ok acc
  | c :: rest =>
    if isDigit c then
      let next := acc * 10 + digitValue c
      if next ≤ limit then readDigits limit fault next rest else .error fault
    else .error .notADigit

/-- A natural number of at most `limit`; only `+` may stand in front. -/
def readNatural (limit : Nat) : List Char → Except WholeFault Nat
  | [] => .error .empty
  | ['+'] => .error .notADigit
  | ['-'] => .error .notADigit
  | '+' :: rest => readDigits limit .tooLarge 0 rest
  | cs => readDigits limit .tooLarge 0 cs

/-- A whole number from `-bound` to `bound - 1`. -/
def readSigned (bound : Nat) : List Char → Except WholeFault Int
  | [] => .error .empty
  | ['+'] => .error .notADigit
  | ['-'] => .error .notADigit
  | '+' :: rest => (readDigits (bound - 1) .tooLarge 0 rest).map Int.ofNat
  | '-' :: rest => (readDigits bound .tooSmall 0 rest).map fun n => -Int.ofNat n
  | cs => (readDigits (bound - 1) .tooLarge 0 cs).map Int.ofNat

def readNatural? (limit : Nat) (s : String) : Option Nat :=
  (readNatural limit s.toList).toOption

/-- A whole number of 64 bits. -/
def readInt64? (cs : List Char) : Option Int64 :=
  (readSigned (Nat.pow 2 63) cs).toOption.map Int64.ofInt

theorem readDigits_le {limit acc n : Nat} {fault : WholeFault} {cs : List Char}
    (hacc : acc ≤ limit) (h : readDigits limit fault acc cs = .ok n) : n ≤ limit := by
  induction cs generalizing acc with
  | nil =>
    simp only [readDigits, Except.ok.injEq] at h
    exact h ▸ hacc
  | cons c cs ih =>
    simp only [readDigits] at h
    split at h
    · split at h
      · exact ih ‹_› h
      · cases h
    · cases h

end CimConsole.Text
