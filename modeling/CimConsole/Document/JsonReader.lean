import CimConsole.Document
import CimConsole.Number.Text
import CimConsole.Text.Digits

/-!
Reading JSON texts. At most 127 lists and records may be open at a time, so the reader
recurses over the levels that are left. A number without fraction and exponent is whole
if it fits into 64 bits. Any other number is computed from at most as many digits as fit
into 64 bits, in two roundings: the digits are rounded to a real and that is multiplied
or divided by a power of ten.
-/
namespace CimConsole.Document

open Text Number

/-- A reader takes a value off the front of a text. -/
abbrev Reader (α : Type) := List Char → Option (α × List Char)

def isJsonBlank (c : Char) : Bool := c == ' ' || c == '\n' || c == '\t' || c == '\r'

def skipJsonBlanks (cs : List Char) : List Char := cs.dropWhile isJsonBlank

/-- Four hexadecimal digits. -/
def readUnit : Reader Nat
  | a :: b :: c :: d :: rest => do
    let a ← hexDigit? a
    let b ← hexDigit? b
    let c ← hexDigit? c
    let d ← hexDigit? d
    some (((a * 16 + b) * 16 + c) * 16 + d, rest)
  | _ => none

/-- The character behind `\u`: one unit, or a high and a low surrogate. -/
def readEscapedUnit (cs : List Char) : Option (Char × List Char) := do
  let (unit, rest) ← readUnit cs
  if 0xDC00 ≤ unit ∧ unit ≤ 0xDFFF then none
  else if 0xD800 ≤ unit ∧ unit ≤ 0xDBFF then
    match rest with
    | '\\' :: 'u' :: more =>
      let (low, rest) ← readUnit more
      if 0xDC00 ≤ low ∧ low ≤ 0xDFFF then
        some (Char.ofNat (0x10000 + (unit - 0xD800) * 0x400 + (low - 0xDC00)), rest)
      else none
    | _ => none
  else some (Char.ofNat unit, rest)

/-- The character behind a backslash. -/
def readEscape : Reader Char
  | '"' :: rest => some ('"', rest)
  | '\\' :: rest => some ('\\', rest)
  | '/' :: rest => some ('/', rest)
  | 'b' :: rest => some ('\x08', rest)
  | 'f' :: rest => some ('\x0c', rest)
  | 'n' :: rest => some ('\n', rest)
  | 'r' :: rest => some ('\r', rest)
  | 't' :: rest => some ('\t', rest)
  | 'u' :: rest => readEscapedUnit rest
  | _ => none

/-- The characters up to the closing quote, put in front of it in reverse. The fuel is
at least the length of the text. -/
def readChars : Nat → List Char → Reader (List Char)
  | 0, _, _ => none
  | _, _, [] => none
  | _, before, '"' :: rest => some (before, rest)
  | fuel + 1, before, '\\' :: rest =>
    match readEscape rest with
    | none => none
    | some (c, rest) => readChars fuel (c :: before) rest
  | fuel + 1, before, c :: rest =>
    if c.toNat < 0x20 then none else readChars fuel (c :: before) rest

/-- The rest of a string behind its opening quote. -/
def readString (cs : List Char) : Option (String × List Char) :=
  (readChars (cs.length + 1) [] cs).map fun (before, rest) => (String.ofList before.reverse, rest)

/-- The real for `digits * 10 ^ exponent`, in two roundings; none if it is too large. -/
def scaledReal (negative : Bool) (digits : Nat) (exponent : Int) : Option Binary64 :=
  let power (n : Nat) : Binary64 := Binary64.ofNat (Nat.pow 10 n)
  let significand := Binary64.ofNat digits
  let magnitude :=
    if digits = 0 then significand
    else if 0 ≤ exponent then
      if 308 < exponent then Binary64.infinity false else significand.mul (power exponent.toNat)
    else if exponent < -1400 then Binary64.zero false
    else
      let n := (-exponent).toNat
      let reduced := (List.replicate (n / 308 - (if n % 308 = 0 then 1 else 0)) ()).foldl
        (fun x _ => x.div (power 308)) significand
      reduced.div (power (n - 308 * (n / 308 - (if n % 308 = 0 then 1 else 0))))
  if magnitude.isInfinite then none
  else some (if negative then magnitude.neg else magnitude)

/-- Takes digits while the number fits into 64 bits. The answer has the number, the
count of digits that it took, and what follows. -/
def takeDigits : Nat → Nat → List Char → Nat × Nat × List Char
  | n, count, [] => (n, count, [])
  | n, count, c :: rest =>
    if isDigit c ∧ n * 10 + digitValue c < Nat.pow 2 64 then
      takeDigits (n * 10 + digitValue c) (count + 1) rest
    else (n, count, c :: rest)

/-- The end of a real from its exponent mark on. -/
def readRealEnd (negative : Bool) (digits : Nat) (exponent : Int) (cs : List Char) :
    Option (Document × List Char) := do
  let finish (exponent : Int) (rest : List Char) : Option (Document × List Char) := do
    let r ← scaledReal negative digits exponent
    some (.real r, rest)
  match cs with
  | [] => finish exponent []
  | e :: rest =>
    if e == 'e' || e == 'E' then
      let (minus, ds) := match rest with
        | '+' :: ds => (false, ds)
        | '-' :: ds => (true, ds)
        | ds => (false, ds)
      let shown := ds.takeWhile isDigit
      let rest := ds.dropWhile isDigit
      let n := natOfDigits shown
      if shown.isEmpty then none
      else if Nat.pow 2 31 ≤ n then
        if minus || digits == 0 then some (.real (Binary64.zero negative), rest) else none
      else finish (if minus then exponent - n else exponent + n) rest
    else finish exponent (e :: rest)

/-- The end of a real from its point or its exponent mark on. Digits that no longer fit
are dropped. -/
def readFraction (negative : Bool) (digits : Nat) (exponent : Int) :
    List Char → Option (Document × List Char)
  | '.' :: cs =>
    let (digits, count, rest) := takeDigits digits 0 cs
    if (cs.takeWhile isDigit).isEmpty then none
    else readRealEnd negative digits (exponent - count) (rest.dropWhile isDigit)
  | cs => readRealEnd negative digits exponent cs

/-- A number behind its sign. -/
def readMagnitude (negative : Bool) (cs : List Char) : Option (Document × List Char) :=
  let (n, _, rest) := takeDigits 0 0 cs
  let extra := (rest.takeWhile isDigit).length
  match cs with
  | [] => none
  | '0' :: c :: _ => if isDigit c then none else finish n rest
  | c :: _ =>
    if !isDigit c then none
    else if 0 < extra then readFraction negative n extra (rest.dropWhile isDigit)
    else finish n rest
where
  finish (n : Nat) (rest : List Char) : Option (Document × List Char) :=
    match rest with
    | '.' :: _ | 'e' :: _ | 'E' :: _ => readFraction negative n 0 rest
    | _ =>
      if !negative then some (.whole n, rest)
      else if n = 0 ∨ Nat.pow 2 63 < n then some (.real (Binary64.ofRatio true n 1), rest)
      else some (.whole (-(n : Int)), rest)

/-- The items of a list behind its bracket, with `item` as the reader of one. -/
def readItems (item : Reader Document) : Nat → Reader (List Document)
  | 0, _ => none
  | fuel + 1, cs => do
    let (d, rest) ← item (skipJsonBlanks cs)
    match skipJsonBlanks rest with
    | ',' :: more =>
      let (ds, rest) ← readItems item fuel more
      some (d :: ds, rest)
    | ']' :: rest => some ([d], rest)
    | _ => none

/-- The fields of a record behind its brace. -/
def readFields (item : Reader Document) : Nat → Reader (List (String × Document))
  | 0, _ => none
  | fuel + 1, cs =>
    match skipJsonBlanks cs with
    | '"' :: rest => do
      let (name, rest) ← readString rest
      match skipJsonBlanks rest with
      | ':' :: rest =>
        let (d, rest) ← item (skipJsonBlanks rest)
        match skipJsonBlanks rest with
        | ',' :: more =>
          let (fields, rest) ← readFields item fuel more
          some ((name, d) :: fields, rest)
        | '\x7d' :: rest => some ([(name, d)], rest)
        | _ => none
      | _ => none
    | _ => none

/-- A value with at most so many levels of lists and records. -/
def readJson : Nat → Reader Document
  | _, 'n' :: 'u' :: 'l' :: 'l' :: rest => some (.null, rest)
  | _, 't' :: 'r' :: 'u' :: 'e' :: rest => some (.boolean true, rest)
  | _, 'f' :: 'a' :: 'l' :: 's' :: 'e' :: rest => some (.boolean false, rest)
  | _, '"' :: rest => (readString rest).map fun (s, rest) => (.text s, rest)
  | _, '-' :: rest => readMagnitude true rest
  | 0, '[' :: _ => none
  | 0, '\x7b' :: _ => none
  | levels + 1, '[' :: rest =>
    match skipJsonBlanks rest with
    | ']' :: rest => some (.list [], rest)
    | rest => (readItems (readJson levels) (rest.length + 1) rest).map fun (ds, rest) =>
      (.list ds, rest)
  | levels + 1, '\x7b' :: rest =>
    match skipJsonBlanks rest with
    | '\x7d' :: rest => some (.record [], rest)
    | rest => (readFields (readJson levels) (rest.length + 1) rest).map fun (fs, rest) =>
      (.record fs, rest)
  | _, cs => readMagnitude false cs

/-- The document of a JSON text; blanks may stand around it and nothing else. -/
def ofJson? (s : String) : Option Document := do
  let (d, rest) ← readJson 127 (skipJsonBlanks s.toList)
  if (skipJsonBlanks rest).isEmpty then some d else none

end CimConsole.Document
