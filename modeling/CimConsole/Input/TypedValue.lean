import CimConsole.Model.Path

/-!
Values given as text by a user, read by the type that the schema declares. Whole numbers
have to lie in the range of their type; unsigned ones of 64 bits only reach as far as
signed ones. A text of another type stands for itself. An array is a comma list.
-/
namespace CimConsole

open Text Number

/-- Why a text is no value of a type. -/
inductive ValueError where
  | notWhole (type raw : String) (cause : WholeFault)
  | outOfRange (type : String) (n : Int)
  | notBoolean (raw : String)
  | notReal (type raw : String) (cause : RealFault)
  | notPath (raw : String) (cause : PathError)
deriving DecidableEq, Repr

def ValueError.message : ValueError → String
  | .notWhole type raw cause => "invalid " ++ type ++ " value '" ++ raw ++ "': " ++ cause.message
  | .outOfRange type n => type ++ " value " ++ toString n ++ " out of range"
  | .notBoolean raw => "invalid boolean value '" ++ raw ++ "'"
  | .notReal type raw cause => "invalid " ++ type ++ " value '" ++ raw ++ "': " ++ cause.message
  | .notPath raw cause => "invalid reference value '" ++ raw ++ "': " ++ cause.message

/-- The least and the greatest number of an integer type. -/
def integerRange? (type : String) : Option (Int × Int) :=
  match type with
  | "uint8" => some (0, Int.pow 2 8 - 1)
  | "uint16" => some (0, Int.pow 2 16 - 1)
  | "uint32" => some (0, Int.pow 2 32 - 1)
  | "uint64" => some (0, Int.pow 2 63 - 1)
  | "sint8" => some (-(Int.pow 2 7), Int.pow 2 7 - 1)
  | "sint16" => some (-(Int.pow 2 15), Int.pow 2 15 - 1)
  | "sint32" => some (-(Int.pow 2 31), Int.pow 2 31 - 1)
  | "sint64" => some (-(Int.pow 2 63), Int.pow 2 63 - 1)
  | _ => none

def trueWords : List String := ["true", "1", "yes", "y"]

def falseWords : List String := ["false", "0", "no", "n"]

namespace Value

def readInteger (raw type : String) (least greatest : Int) : Except ValueError Value :=
  match readSigned (Nat.pow 2 127) (trim raw).toList with
  | .error cause => .error (.notWhole type raw cause)
  | .ok n =>
    if n < least ∨ greatest < n then .error (.outOfRange type n)
    else .ok (.integer (Int64.ofInt n))

/-- One value of a type. The name of the type is compared without regard to case. -/
def readScalar (raw type : String) : Except ValueError Value :=
  match integerRange? (foldCase type) with
  | some (least, greatest) => readInteger raw type least greatest
  | none =>
    match foldCase type with
    | "boolean" =>
      if trueWords.contains (foldCase (trim raw)) then .ok (.boolean true)
      else if falseWords.contains (foldCase (trim raw)) then .ok (.boolean false)
      else .error (.notBoolean raw)
    | "real32" | "real64" =>
      match readReal (trim raw).toList with
      | .ok r => .ok (.real r)
      | .error cause => .error (.notReal type raw cause)
    | "reference" =>
      match ObjectPath.read (trim raw) with
      | .ok p => .ok (.reference p)
      | .error cause => .error (.notPath raw cause)
    | _ => .ok (.text raw)

def readTyped (raw type : String) (isArray : Bool) : Except ValueError Value :=
  if isArray then ((listItems [raw]).mapM fun item => readScalar item type).map .array
  else readScalar raw type

end Value

end CimConsole
