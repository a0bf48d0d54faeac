import CimConsole.Pattern

/-!
The text of patterns: `?` for one byte, `*` for any text, `**` between slashes for any
steps, classes in brackets, alternatives in braces, and a backslash in front of a
character that stands for itself.
-/
namespace CimConsole

inductive PatternFault where
  | unclosedClass
  | invalidRange (first last : Char)
  | unclosedBrace
  | unopenedBrace
  | danglingEscape
deriving DecidableEq, Repr

structure PatternError where
  text : String
  fault : PatternFault
deriving DecidableEq, Repr

def PatternFault.message : PatternFault → String
  | .unclosedClass => "unclosed character class; missing ']'"
  | .invalidRange first last =>
    "invalid range; '" ++ first.toString ++ "' > '" ++ last.toString ++ "'"
  | .unclosedBrace =>
    "unclosed alternate group; missing '\x7d' (maybe escape '\x7b' with '[\x7b]'?)"
  | .unopenedBrace =>
    "unopened alternate group; missing '\x7b' (maybe escape '\x7d' with '[\x7d]'?)"
  | .danglingEscape => "dangling '\\'"

def PatternError.message (e : PatternError) : String :=
  "error parsing glob '" ++ e.text ++ "': " ++ e.fault.message

namespace Pattern

/-- An open brace: the pieces in front of it and the branches that are complete, each
with the last one in front. -/
structure OpenGroup where
  outer : List Piece
  branches : List (List Piece)

/-- How far a text is read. The last piece is in front. -/
structure Progress where
  pieces : List Piece := []
  groups : List OpenGroup := []
  last : Option Char := none

def Progress.add (p : Progress) (piece : Piece) (last : Char) : Progress :=
  { p with pieces := piece :: p.pieces, last := some last }

/-- The ranges of a class up to its closing bracket, the last one in front. -/
def readRanges (first inRange : Bool) (ranges : List CharRange) :
    List Char → Except PatternFault (List CharRange × List Char)
  | [] => .error .unclosedClass
  | c :: rest =>
    if c == ']' && !first then
      .ok (if inRange then ⟨'-', '-'⟩ :: ranges else ranges, rest)
    else if c == '-' && !first && !inRange then readRanges false true ranges rest
    else
      match inRange, ranges with
      | true, r :: others =>
        if c < r.first then .error (.invalidRange r.first c)
        else readRanges false false (⟨r.first, c⟩ :: others) rest
      | _, _ => readRanges false false (⟨c, c⟩ :: ranges) rest

def readClass (cs : List Char) : Except PatternFault (Piece × List Char) := do
  let (negated, body) := match cs with
    | '!' :: rest => (true, rest)
    | '^' :: rest => (true, rest)
    | _ => (false, cs)
  let (ranges, rest) ← readRanges true false [] body
  pure (.oneIn negated ranges.reverse, rest)

def twoStars (p : Progress) : Progress :=
  { p with pieces := .anything :: .anything :: p.pieces, last := some '*' }

/-- The last piece, a slash, made a piece for steps, unless it is one for steps at an end. -/
def stepsInPlace (steps : Piece) (p : Progress) : Progress :=
  match p.pieces with
  | .leadingSteps :: _ => { p with last := some '*' }
  | .trailingSteps :: _ => { p with last := some '*' }
  | _ :: before => { p with pieces := steps :: before, last := some '*' }
  | [] => { p with pieces := [steps], last := some '*' }

/-- Two stars and, where they stand for steps, the slash behind them. -/
def readSteps (p : Progress) (cs : List Char) : Progress × List Char :=
  let inGroup := !p.groups.isEmpty
  if p.pieces.isEmpty then
    match cs with
    | [] => (p.add .leadingSteps '*', [])
    | '/' :: rest => (p.add .leadingSteps '/', rest)
    | _ => (twoStars p, cs)
  else if p.last != some '/' && (!inGroup || (p.last != some ',' && p.last != some '\x7b')) then
    (twoStars p, cs)
  else
    match cs with
    | [] => (stepsInPlace .trailingSteps p, [])
    | '/' :: rest => ({ stepsInPlace .innerSteps p with last := some '/' }, rest)
    | c :: _ =>
      if inGroup && (c == ',' || c == '\x7d') then (stepsInPlace .trailingSteps p, cs)
      else (twoStars p, cs)

/-- Reads a text that is shorter than the fuel. -/
def readPieces : Nat → Progress → List Char → Except PatternFault (List Piece)
  | 0, p, _ => .ok p.pieces.reverse
  | _, p, [] => if p.groups.isEmpty then .ok p.pieces.reverse else .error .unclosedBrace
  | fuel + 1, p, c :: rest =>
    match c, rest with
    | '?', _ => readPieces fuel (p.add .anyByte c) rest
    | '*', '*' :: rest =>
      let (p, rest) := readSteps p rest
      readPieces fuel p rest
    | '*', _ => readPieces fuel (p.add .anything c) rest
    | '[', _ => do
      let (piece, rest) ← readClass rest
      readPieces fuel (p.add piece ']') rest
    | '\x7b', _ =>
      readPieces fuel { pieces := [], groups := ⟨p.pieces, []⟩ :: p.groups, last := some c } rest
    | '\x7d', _ =>
      match p.groups with
      | [] => .error .unopenedBrace
      | g :: groups =>
        let branches := (p.pieces.reverse :: g.branches).reverse
        readPieces fuel { pieces := .oneOf branches :: g.outer, groups, last := some c } rest
    | ',', _ =>
      match p.groups with
      | [] => readPieces fuel (p.add (.char c) c) rest
      | g :: groups =>
        let g := { g with branches := p.pieces.reverse :: g.branches }
        readPieces fuel { pieces := [], groups := g :: groups, last := some c } rest
    | '\\', [] => .error .danglingEscape
    | '\\', e :: rest => readPieces fuel (p.add (.char e) e) rest
    | _, _ => readPieces fuel (p.add (.char c) c) rest

def read (s : String) : Except PatternError Pattern :=
  match readPieces (s.length + 1) {} s.toList with
  | .ok pieces => .ok ⟨pieces⟩
  | .error fault => .error ⟨s, fault⟩

end Pattern

end CimConsole
