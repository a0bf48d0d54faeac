import CimConsole.Number.Shortest
import CimConsole.Text.Whole
import CimConsole.Text.Pieces

/-!
Reals as text. Reading takes a sign, digits with at most one point among them and an
optional exponent, or one of the names of infinity and NaN in any letter case. There
are three written forms, all of the fewest digits that read back: the positional form,
which never has an exponent, and the two forms of documents, which are positional for
moderate sizes only and always show a point or an exponent.
-/
namespace CimConsole.Number

open CimConsole.Text

/-- Why a text is not a real. -/
inductive RealFault where
  | empty
  | malformed
deriving DecidableEq, Repr

def RealFault.message : RealFault → String
  | .empty => "cannot parse float from empty string"
  | .malformed => "invalid float literal"

/-- The value of ASCII digits. -/
def natOfDigits (cs : List Char) : Nat := cs.foldl (fun n c => n * 10 + digitValue c) 0

/-- The part of a decimal from `e` on: nothing, or `e`, a sign and digits. -/
def readExponent : List Char → Option Int
  | [] => some 0
  | e :: rest =>
    if e == 'e' || e == 'E' then
      let (negative, digits) := match rest with
        | '+' :: ds => (false, ds)
        | '-' :: ds => (true, ds)
        | ds => (false, ds)
      if digits.isEmpty || !digits.all isDigit then none
      else
        let n : Int := natOfDigits digits
        some (if negative then -n else n)
    else none

/-- A decimal without sign: digits on at least one side of an optional point, then an
optional exponent. -/
def readUnsigned (negative : Bool) (cs : List Char) : Option Binary64 :=
  let whole := cs.takeWhile isDigit
  let rest := cs.dropWhile isDigit
  let (part, rest) := match rest with
    | '.' :: more => (more.takeWhile isDigit, more.dropWhile isDigit)
    | _ => ([], rest)
  if whole.isEmpty && part.isEmpty then none
  else
    (readExponent rest).map fun e =>
      Binary64.ofDecimal negative (natOfDigits (whole ++ part)) (e - (part.length : Int))

def readMagnitude (negative : Bool) (cs : List Char) : Option Binary64 :=
  let lower := cs.map Char.toLower
  if lower == ['i', 'n', 'f'] || lower == ['i', 'n', 'f', 'i', 'n', 'i', 't', 'y'] then
    some (Binary64.infinity negative)
  else if lower == ['n', 'a', 'n'] then some Binary64.nan
  else readUnsigned negative cs

def readReal : List Char → Except RealFault Binary64
  | [] => .error .empty
  | '+' :: rest => (readMagnitude false rest).elim (.error .malformed) .ok
  | '-' :: rest => (readMagnitude true rest).elim (.error .malformed) .ok
  | cs => (readMagnitude false cs).elim (.error .malformed) .ok

def readReal? (s : String) : Option Binary64 := (readReal s.toList).toOption

/-- Digits with the point after the first `n` of them, zeros filled in on either side. -/
def placePoint (digits : String) (n : Int) : String :=
  if n ≤ 0 then "0." ++ repeated '0' (-n).toNat ++ digits
  else
    let cs := digits.toList
    let k := n.toNat
    if cs.length ≤ k then digits ++ repeated '0' (k - cs.length)
    else String.ofList (cs.take k) ++ "." ++ String.ofList (cs.drop k)

def signText (x : Binary64) : String := if x.isNegative then "-" else ""

/-- The positional form; a whole number has no point. -/
def Binary64.positional (x : Binary64) : String :=
  if x.isNaN then "NaN"
  else if x.isInfinite then signText x ++ "inf"
  else if x.isZero then signText x ++ "0"
  else
    let d := x.shortest .up
    let digits := toString d.digits
    signText x ++ placePoint digits (digits.length + d.exponent)

/-- How a document form writes what the other leaves open. -/
structure DocumentForm where
  exponentPlus : String
  nan : String
  infinity : String
  minusInfinity : String

/-- The form of reals in a document: positional for exponents from -5 to 15, with `.0`
after a whole number, and one digit before the point otherwise. -/
def Binary64.inDocument (form : DocumentForm) (x : Binary64) : String :=
  if x.isNaN then form.nan
  else if x.isInfinite then (if x.isNegative then form.minusInfinity else form.infinity)
  else if x.isZero then signText x ++ "0.0"
  else
    let d := x.shortest .even
    let digits := toString d.digits
    let point : Int := digits.length + d.exponent
    if -5 < point ∧ point ≤ 16 then
      signText x ++ placePoint digits point ++ (if (digits.length : Int) ≤ point then ".0" else "")
    else
      let fraction := String.ofList (digits.toList.drop 1)
      let e := point - 1
      signText x ++ String.ofList (digits.toList.take 1)
        ++ (if fraction == "" then "" else "." ++ fraction)
        ++ "e" ++ (if e < 0 then "-" else form.exponentPlus) ++ toString e.natAbs

end CimConsole.Number
