import CimConsole.Text.Letters

/-!
Patterns of class names. A pattern matches a whole name, byte by byte and without regard
to the case of ASCII letters. Matching goes through the pattern once and keeps the rests
of the name that can still be matched; they are all ends of one text, so their lengths
tell them apart.
-/
namespace CimConsole

open Text

abbrev Bytes := List UInt8

/-- A character, or a range of characters, of a class. -/
structure CharRange where
  first : Char
  last : Char
deriving DecidableEq, Repr

inductive Pattern.Piece where
  | char (c : Char)
  | anyByte
  | anything
  | leadingSteps
  | innerSteps
  | trailingSteps
  | oneIn (negated : Bool) (ranges : List CharRange)
  | oneOf (branches : List (List Pattern.Piece))

structure Pattern where
  pieces : List Pattern.Piece

namespace Pattern

def bytesOf (s : String) : Bytes := s.toUTF8.toList

def lowerByte (b : UInt8) : UInt8 := if 0x41 ≤ b && b ≤ 0x5A then b + 0x20 else b

def upperByte (b : UInt8) : UInt8 := if 0x61 ≤ b && b ≤ 0x7A then b - 0x20 else b

def sameByte (a b : UInt8) : Bool := lowerByte a == lowerByte b

def slash : UInt8 := 0x2F

/-- The ranges of bytes of a range of characters: the bytes of the first one with the last
of them joined to the first byte of the last one, and what follows that. -/
def byteRanges (r : CharRange) : List (UInt8 × UInt8) :=
  let single (b : UInt8) : UInt8 × UInt8 := (b, b)
  let first := bytesOf r.first.toString
  let last := bytesOf r.last.toString
  if r.first == r.last then first.map single
  else
    match first.getLast?, last with
    | some a, b :: rest => first.dropLast.map single ++ (a, b) :: rest.map single
    | _, _ => []

def isIn (ranges : List CharRange) (b : UInt8) : Bool :=
  (ranges.flatMap byteRanges).any fun (low, high) =>
    (low ≤ b && b ≤ high) || (low ≤ lowerByte b && lowerByte b ≤ high)
      || (low ≤ upperByte b && upperByte b ≤ high)

/-- The rest behind given bytes. -/
def behind? : (start text : Bytes) → Option Bytes
  | [], text => some text
  | _ :: _, [] => none
  | a :: start, b :: text => if sameByte a b then behind? start text else none

/-- A text and all its ends. -/
def tails : Bytes → List Bytes
  | [] => [[]]
  | b :: rest => (b :: rest) :: tails rest

/-- The ends of all of some texts, which are the ends of the longest of them. -/
def allTails (texts : List Bytes) : List Bytes :=
  match texts with
  | [] => []
  | t :: rest => tails (rest.foldl (fun a b => if a.length < b.length then b else a) t)

/-- What follows each slash. -/
def behindSlashes : Bytes → List Bytes
  | [] => []
  | b :: rest => if b == slash then rest :: behindSlashes rest else behindSlashes rest

/-- One text of each length. -/
def distinct (texts : List Bytes) : List Bytes :=
  texts.foldl
    (fun kept t => if kept.any fun k => k.length == t.length then kept else kept ++ [t]) []

/-- The rests behind one byte that passes. -/
def behindByte (p : UInt8 → Bool) : Bytes → List Bytes
  | [] => []
  | b :: rest => if p b then [rest] else []

mutual

/-- Whether a piece is an alternative among nothing. -/
def Piece.isVoid : Piece → Bool
  | .oneOf branches => allVoid branches
  | _ => false

def isVoid : List Piece → Bool
  | [] => true
  | p :: rest => p.isVoid && isVoid rest

def allVoid : List (List Piece) → Bool
  | [] => true
  | branch :: rest => isVoid branch && allVoid rest

end

mutual

/-- What can be left of the texts behind a piece. Empty alternatives do not count, unless
there is no other. -/
def Piece.rests (texts : List Bytes) : Piece → List Bytes
  | .char c => texts.filterMap (behind? (bytesOf c.toString))
  | .anyByte => texts.flatMap (behindByte fun _ => true)
  | .anything => allTails texts
  | .leadingSteps => distinct (texts.flatMap fun t => t :: behindSlashes t)
  | .innerSteps =>
    distinct (texts.flatMap fun t => (behindByte (· == slash) t).flatMap fun rest =>
      rest :: behindSlashes rest)
  | .trailingSteps => allTails (texts.flatMap (behindByte (· == slash)))
  | .oneIn negated ranges => texts.flatMap (behindByte fun b => isIn ranges b != negated)
  | .oneOf branches => if allVoid branches then texts else distinct (branchRests texts branches)

def rests (texts : List Bytes) : List Piece → List Bytes
  | [] => texts
  | p :: pieces => rests (p.rests texts) pieces

def branchRests (texts : List Bytes) : List (List Piece) → List Bytes
  | [] => []
  | branch :: branches =>
    (if isVoid branch then [] else rests texts branch) ++ branchRests texts branches

end

/-- Whether the pattern matches the whole name. Two stars alone match everything. -/
def isMatch (p : Pattern) (name : String) : Bool :=
  match p.pieces with
  | [.leadingSteps] => true
  | pieces => (rests [bytesOf name] pieces).any List.isEmpty

end Pattern

end CimConsole
