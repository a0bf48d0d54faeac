import CimConsole.Document
import CimConsole.Number.Text
import CimConsole.Text.Digits

/-!
What a plain scalar of YAML stands for when nothing asks for a text: null, a truth
value, a whole number in base 2, 8, 10 or 16, a finite real or a name of infinity and
NaN, and otherwise its text. Digits behind a leading zero stay a text.
-/
namespace CimConsole.Document

open Text Number

def isNullWord (s : String) : Bool := ["", "~", "null", "Null", "NULL"].contains s

def booleanWord? (s : String) : Option Bool :=
  if ["true", "True", "TRUE"].contains s then some true
  else if ["false", "False", "FALSE"].contains s then some false
  else none

/-- A sign, then a zero, then more digits and nothing else. -/
def isZeroLed (cs : List Char) : Bool :=
  let cs := match cs with
    | '-' :: rest | '+' :: rest => rest
    | _ => cs
  match cs with
  | '0' :: c :: rest => (c :: rest).all isDigit
  | _ => false

/-- The number behind a sign, with the mark of its base. -/
def unsignedWord? (cs : List Char) : Option Nat :=
  match cs with
  | '0' :: 'x' :: rest => natInBase? 16 rest
  | '0' :: 'o' :: rest => natInBase? 8 rest
  | '0' :: 'b' :: rest => natInBase? 2 rest
  | _ => natInBase? 10 cs

/-- A whole number that fits into 128 bits. -/
def wholeWord? (cs : List Char) : Option Int :=
  if isZeroLed cs then none
  else
    match cs with
    | '-' :: rest => (unsignedWord? rest).bind fun n => if n ≤ Nat.pow 2 127 then some (-(n : Int)) else none
    | '+' :: rest => positive rest
    | _ => positive cs
where
  positive (cs : List Char) : Option Int :=
    (unsignedWord? cs).bind fun n => if n < Nat.pow 2 128 then some (n : Int) else none

def realWord? (cs : List Char) : Option Binary64 :=
  let unsigned := match cs with
    | '+' :: rest => rest
    | _ => cs
  let doubleSign := match cs with
    | '+' :: '+' :: _ | '+' :: '-' :: _ => true
    | _ => false
  let word := String.ofList cs
  if doubleSign || isZeroLed cs then none
  else if [".inf", ".Inf", ".INF"].contains (String.ofList unsigned) then
    some (Binary64.infinity false)
  else if ["-.inf", "-.Inf", "-.INF"].contains word then some (Binary64.infinity true)
  else if [".nan", ".NaN", ".NAN"].contains word then some Binary64.nan
  else
    match readReal unsigned with
    | .ok r => if r.isFinite then some r else none
    | .error _ => none

def ofWord (s : String) : Document :=
  if isNullWord s then .null
  else
    match booleanWord? s with
    | some b => .boolean b
    | none =>
      match wholeWord? s.toList with
      | some i => .whole i
      | none =>
        match realWord? s.toList with
        | some r => .real r
        | none => .text s

/-- The document itself, or what its plain scalar stands for. -/
def settled : Document → Document
  | .plain s => ofWord s
  | d => d

end CimConsole.Document
