import CimConsole.Document.Scalar
import CimConsole.Text.Pieces

/-!
How a text is written in YAML. A text is plain if nothing in it can be taken for syntax
or for a value of another kind. Otherwise it is put between single quotes, or between
double quotes if a character has to be escaped. A text of several lines is written line
by line below a bar, if no line ends in a space.
-/
namespace CimConsole.Yaml

open Text Document

inductive Style where
  | plain
  | single
  | double
  | literal
deriving DecidableEq, Repr

def endsLine (c : Char) : Bool :=
  c == '\n' || c == '\r' || c == '\u0085' || c == '\u2028' || c == '\u2029'

/-- The characters that stand for themselves outside of double quotes. -/
def isPrintable (c : Char) : Bool :=
  let n := c.toNat
  n == 0xA || (0x20 ≤ n && n ≤ 0x7E) || (0xA0 ≤ n && n ≤ 0xD7FF)
    || (0xE000 ≤ n && n ≤ 0xFFFD && n != 0xFEFF)

def separates (c : Char) : Bool := c == ' ' || c == '\t' || endsLine c

/-- Whether what follows a mark makes it syntax: a separator or the end. -/
def separatedAhead : List Char → Bool
  | [] => true
  | c :: _ => separates c

/-- A colon with a separator behind it, or a number sign with one in front. -/
def hasInnerMark : (before : Char) → List Char → Bool
  | _, [] => false
  | before, c :: rest =>
    (c == ':' && separatedAhead rest) || (c == '#' && separates before) || hasInnerMark c rest

/-- A text that cannot stand without quotes for the marks in it. -/
def hasMark : List Char → Bool
  | [] => false
  | c :: rest =>
    ['#', ',', '[', ']', '\x7b', '\x7d', '&', '*', '!', '|', '>', '\'', '"', '%', '@', '\x60'].contains c
      || (['?', ':', '-'].contains c && separatedAhead rest)
      || ['-', '-', '-'].isPrefixOf (c :: rest) || ['.', '.', '.'].isPrefixOf (c :: rest)
      || hasInnerMark c rest

def hasPair (p q : Char → Bool) : List Char → Bool
  | a :: b :: rest => (p a && q b) || hasPair p q (b :: rest)
  | _ => false

def endsIn (c : Char) (cs : List Char) : Bool := cs.getLast? == some c

/-- Texts that can stand between single quotes. -/
def fitsSingle (cs : List Char) : Bool :=
  cs.all isPrintable && !hasPair (· == ' ') endsLine cs && !hasPair endsLine (· == ' ') cs

def fitsPlain (cs : List Char) : Bool :=
  fitsSingle cs && !hasMark cs && !cs.any endsLine && cs.head? != some ' ' && !endsIn ' ' cs

def fitsLiteral (cs : List Char) : Bool :=
  cs.all isPrintable && !hasPair (· == ' ') endsLine cs && !endsIn ' ' cs

/-- Whether a plain scalar with this text reads as the text. -/
def readsAsText (s : String) : Bool :=
  match ofWord s with
  | .text _ => !isZeroLed s.toList
  | _ => false

def Style.ofText (s : String) : Style :=
  let cs := s.toList
  if cs.contains '\n' then if fitsLiteral cs then .literal else .double
  else if fitsPlain cs && readsAsText s then .plain
  else if fitsSingle cs then .single
  else .double

/-- The characters with an escape of their own. -/
def namedEscapes : List (Char × Char) :=
  [('\x00', '0'), ('\x07', 'a'), ('\x08', 'b'), ('\t', 't'), ('\n', 'n'), ('\x0b', 'v'),
    ('\x0c', 'f'), ('\r', 'r'), ('\x1b', 'e'), ('"', '"'), ('\\', '\\'), ('\u0085', 'N'),
    ('\u2028', 'L'), ('\u2029', 'P')]

/-- A character between double quotes. -/
def doubleChar (c : Char) : String :=
  match namedEscapes.lookup c with
  | some name => String.ofList ['\\', name]
  | none =>
    if isPrintable c then c.toString
    else if c.toNat ≤ 0xFF then String.ofList ('\\' :: 'x' :: upperHexText 2 c.toNat)
    else if c.toNat ≤ 0xFFFF then String.ofList ('\\' :: 'u' :: upperHexText 4 c.toNat)
    else String.ofList ('\\' :: 'U' :: upperHexText 8 c.toNat)

def doubleQuoted (s : String) : String := "\"" ++ substitute doubleChar s ++ "\""

/-- What stands behind the bar: the indentation if it cannot be seen from the first line,
and how the text ends. -/
def literalHints (cs : List Char) : String :=
  (match cs with
    | c :: _ => if c == ' ' || endsLine c then "2" else ""
    | [] => "")
  ++ (match cs.reverse with
    | [] => "-"
    | [c] => if endsLine c then "+" else "-"
    | c :: d :: _ => if !endsLine c then "-" else if endsLine d then "+" else "")

/-- A text as a scalar, with the end of its last line. -/
def scalarText (s : String) : String :=
  match Style.ofText s with
  | .plain => s ++ "\n"
  | .single => "'" ++ substitute (fun c => if c == '\'' then "''" else c.toString) s ++ "'\n"
  | .double => doubleQuoted s ++ "\n"
  | .literal =>
    "|" ++ literalHints s.toList ++ "\n" ++ s
      ++ (if s.toList.getLast?.any endsLine then "" else "\n")

/-- The lines of a text, each with the character that ends it. -/
def linesOf : List Char → List (List Char)
  | [] => []
  | c :: rest =>
    if endsLine c then [c] :: linesOf rest
    else
      match linesOf rest with
      | [] => [[c]]
      | line :: lines => (c :: line) :: lines

def scalarLines (s : String) : List String :=
  (linesOf (scalarText s).toList).map String.ofList

/-- Keys on one line of at most 128 bytes need no mark. -/
def isSimpleKey (s : String) : Bool := s.utf8ByteSize ≤ 128 && !s.toList.any endsLine

end CimConsole.Yaml
