import CimConsole.Text.Whole

/-!
Digits of bases up to 36, with letters of either case behind the ASCII digits.
-/
namespace CimConsole.Text

/-- The value of a digit in some base of at most 36. -/
def digitInBase? (base : Nat) (c : Char) : Option Nat :=
  let n :=
    if isDigit c then digitValue c
    else if 'a' ≤ c ∧ c ≤ 'z' then c.toNat - 'a'.toNat + 10
    else if 'A' ≤ c ∧ c ≤ 'Z' then c.toNat - 'A'.toNat + 10
    else base
  if n < base then some n else none

def hexDigit? (c : Char) : Option Nat := digitInBase? 16 c

/-- The number of a nonempty text of digits. -/
def natInBase? (base : Nat) (cs : List Char) : Option Nat :=
  if cs.isEmpty then none
  else cs.foldlM (fun n c => (digitInBase? base c).map (n * base + ·)) 0

def lowerHex (n : Nat) : Char :=
  if n < 10 then Char.ofNat ('0'.toNat + n) else Char.ofNat ('a'.toNat + (n - 10))

def upperHex (n : Nat) : Char :=
  if n < 10 then Char.ofNat ('0'.toNat + n) else Char.ofNat ('A'.toNat + (n - 10))

/-- The last digits of a number in base 16. -/
def upperHexText : (digits n : Nat) → List Char
  | 0, _ => []
  | digits + 1, n => upperHexText digits (n / 16) ++ [upperHex (n % 16)]

end CimConsole.Text
