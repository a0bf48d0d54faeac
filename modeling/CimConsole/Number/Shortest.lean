import CimConsole.Number.Binary64

/-!
The shortest decimal that reads back as a given number. Among the grids of 1, 2, …,
17 significant digits the first one with a point inside the interval of reals that
round to the number is taken, and on it the point nearer to the number. Only the two
neighbours of the number on a grid have to be tried: if any point of a grid lies in the
interval, one of them does.
-/
namespace CimConsole.Number

/-- A decimal `digits * 10 ^ exponent`. -/
structure Decimal where
  digits : Nat
  exponent : Int
deriving DecidableEq, Repr

/-- Which of two equally near decimals is taken. -/
inductive Tie where
  | up
  | even
deriving DecidableEq, Repr

namespace Binary64

/-- The exponent of the first significant decimal digit of a positive finite number. -/
def decimalOrder (x : Binary64) : Int :=
  let num := x.mantissa * Nat.pow 2 x.scale
  let den := Nat.pow 2 1074
  if den ≤ num then (digitCount (num / den) : Int) - 1
  else
    let d := digitCount (den / num)
    if den ≤ num * Nat.pow 10 (d - 1) then -((d : Int) - 1) else -(d : Int)

/-- The point of the grid of multiples of `10 ^ k` that is nearest to the number and
rounds to it, if there is one. Lengths are measured in quarters of the last binary
place, so that both ends of the interval are whole. -/
def nearestOnGrid? (tie : Tie) (x : Binary64) (k : Int) : Option Decimal :=
  let quarter := Nat.pow 2 x.scale * Nat.pow 10 (-k).toNat
  let step := Nat.pow 2 1076 * Nat.pow 10 k.toNat
  let value := 4 * x.mantissa * quarter
  let below := if x.fraction = 0 ∧ 1 < x.exponentField then quarter else 2 * quarter
  let above := 2 * quarter
  let closed := x.mantissa % 2 == 0
  let floor := value / step
  let toFloor := value - floor * step
  let toCeiling := (floor + 1) * step - value
  let floorFits := floor ≠ 0 && (toFloor < below || (closed && toFloor == below))
  let ceilingFits := toCeiling < above || (closed && toCeiling == above)
  let preferCeiling := toCeiling < toFloor ||
    (toCeiling == toFloor && (tie == .up || floor % 2 == 1))
  if ceilingFits && (!floorFits || preferCeiling) then some ⟨floor + 1, k⟩
  else if floorFits then some ⟨floor, k⟩
  else none

/-- Moves the zeros at the end of the digits into the exponent. -/
def dropZeros : Nat → Decimal → Decimal
  | 0, d => d
  | fuel + 1, d =>
    if d.digits ≠ 0 ∧ d.digits % 10 = 0 then
      dropZeros fuel ⟨d.digits / 10, d.exponent + 1⟩
    else d

/-- The shortest decimal of a positive finite number. -/
def shortest (tie : Tie) (x : Binary64) : Decimal :=
  let order := x.decimalOrder
  let found := (List.range 17).findSome? fun (n : Nat) => x.nearestOnGrid? tie (order - (n : Int))
  dropZeros 20 (found.getD ⟨0, 0⟩)

end Binary64

end CimConsole.Number
