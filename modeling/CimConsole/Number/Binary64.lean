/-!
Real numbers of 64 bits in the binary interchange format. A finite number is
`mantissa * 2 ^ (scale - 1074)`. Rounding goes to the nearest number and, of two
equally near ones, to the one with the even mantissa. Everything is computed on
natural numbers, so no statement about reals rests on machine arithmetic.
-/
namespace CimConsole.Number

structure Binary64 where
  bits : UInt64
deriving DecidableEq, Repr, Inhabited

namespace Binary64

def exponentField (x : Binary64) : Nat := x.bits.toNat / Nat.pow 2 52 % Nat.pow 2 11

def fraction (x : Binary64) : Nat := x.bits.toNat % Nat.pow 2 52

def isNegative (x : Binary64) : Bool := Nat.pow 2 63 ≤ x.bits.toNat

def isNaN (x : Binary64) : Bool := x.exponentField == 2047 && x.fraction != 0

def isInfinite (x : Binary64) : Bool := x.exponentField == 2047 && x.fraction == 0

def isFinite (x : Binary64) : Bool := x.exponentField != 2047

def isZero (x : Binary64) : Bool := x.exponentField == 0 && x.fraction == 0

def mantissa (x : Binary64) : Nat :=
  if x.exponentField = 0 then x.fraction else x.fraction + Nat.pow 2 52

def scale (x : Binary64) : Nat := x.exponentField - 1

/-- Equality of numbers: both zeros are equal, and no NaN equals anything. -/
def same (x y : Binary64) : Bool :=
  !x.isNaN && !y.isNaN && (x.bits == y.bits || (x.isZero && y.isZero))

/-- The number with the sign given and the other 63 bits of `magnitude`. -/
def ofMagnitude (negative : Bool) (magnitude : Nat) : Binary64 :=
  ⟨UInt64.ofNat (if negative then magnitude + Nat.pow 2 63 else magnitude)⟩

def infinityMagnitude : Nat := 2047 * Nat.pow 2 52

def infinity (negative : Bool) : Binary64 := ofMagnitude negative infinityMagnitude

def nan : Binary64 := ofMagnitude false (infinityMagnitude + Nat.pow 2 51)

def zero (negative : Bool) : Binary64 := ofMagnitude negative 0

/-- The number nearest to `num / den`. A carry out of the mantissa lands in the
exponent field, which is what the next power of two asks for. -/
def ofRatio (negative : Bool) (num den : Nat) : Binary64 :=
  let scaled := num * Nat.pow 2 1074
  let shift := Nat.log2 (scaled / den) - 52
  let unit := den * Nat.pow 2 shift
  let floor := scaled / unit
  let twiceRest := 2 * (scaled % unit)
  let up := unit < twiceRest || (twiceRest == unit && floor % 2 == 1)
  let magnitude := shift * Nat.pow 2 52 + (if up then floor + 1 else floor)
  ofMagnitude negative (min magnitude infinityMagnitude)

def ofNat (n : Nat) : Binary64 := ofRatio false n 1

def ofInt (i : Int) : Binary64 := ofRatio (i < 0) i.natAbs 1

/-- The product of two finite numbers, rounded once. -/
def mul (x y : Binary64) : Binary64 :=
  ofRatio (x.isNegative != y.isNegative)
    (x.mantissa * y.mantissa * Nat.pow 2 (x.scale + y.scale)) (Nat.pow 2 2148)

/-- The quotient of two finite numbers with nonzero divisor, rounded once. -/
def div (x y : Binary64) : Binary64 :=
  ofRatio (x.isNegative != y.isNegative)
    (x.mantissa * Nat.pow 2 x.scale) (y.mantissa * Nat.pow 2 y.scale)

def neg (x : Binary64) : Binary64 := ofMagnitude (!x.isNegative) (x.bits.toNat % Nat.pow 2 63)

/-- The decimal digits of `n`, counted; zero has one. -/
def digitCount (n : Nat) : Nat := (Nat.toDigits 10 n).length

/-- The number nearest to `digits * 10 ^ exponent`. Far outside the range of finite
numbers the answer is known without computing the power. -/
def ofDecimal (negative : Bool) (digits : Nat) (exponent : Int) : Binary64 :=
  let order := digitCount digits + exponent
  if digits = 0 then zero negative
  else if 320 < order then infinity negative
  else if order < -340 then zero negative
  else if 0 ≤ exponent then ofRatio negative (digits * Nat.pow 10 exponent.toNat) 1
  else ofRatio negative digits (Nat.pow 10 (-exponent).toNat)

theorem same_symm (x y : Binary64) : x.same y = y.same x := by
  simp only [same, Bool.beq_comm (a := x.bits), Bool.and_comm (x := x.isZero)]
  cases x.isNaN <;> cases y.isNaN <;> simp

theorem same_self (x : Binary64) : x.same x = !x.isNaN := by
  simp [same]

theorem eq_of_bits_eq {x y : Binary64} (h : x.bits = y.bits) : x = y := by
  cases x
  exact congrArg mk h

/-- Numbers that equal a third one equal each other. -/
theorem same_of_common {x y z : Binary64} (hx : x.same z = true) (hy : y.same z = true) :
    x.same y = true := by
  simp only [same, Bool.and_eq_true, Bool.or_eq_true, beq_iff_eq] at hx hy ⊢
  obtain ⟨⟨hx, -⟩, hxz⟩ := hx
  obtain ⟨⟨hy, -⟩, hyz⟩ := hy
  refine ⟨⟨hx, hy⟩, ?_⟩
  rcases hxz with hxbits | ⟨hxzero, hzero⟩
  · obtain rfl := eq_of_bits_eq hxbits
    exact hyz.imp Eq.symm And.symm
  · rcases hyz with hybits | ⟨hyzero, -⟩
    · exact Or.inr ⟨hxzero, eq_of_bits_eq hybits ▸ hzero⟩
    · exact Or.inr ⟨hxzero, hyzero⟩

end Binary64

end CimConsole.Number
