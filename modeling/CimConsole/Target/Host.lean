import CimConsole.Text.Pieces
import CimConsole.Text.Digits

/-!
Hosts of URLs: names, IPv4 addresses in any of their spellings, and IPv6 addresses in
brackets. A name whose last label is a number has to be an IPv4 address. Names are
written in ASCII small letters; a label with other letters is written in Punycode.
-/
namespace CimConsole

open Text

/-- Why a text is no URL. -/
inductive UrlError where
  | emptyHost
  | invalidName
  | invalidCharacter
  | invalidPort
  | invalidIpv4
  | invalidIpv6
  | noScheme
deriving DecidableEq, Repr

def UrlError.message : UrlError → String
  | .emptyHost => "empty host"
  | .invalidName => "invalid international domain name"
  | .invalidCharacter => "invalid domain character"
  | .invalidPort => "invalid port number"
  | .invalidIpv4 => "invalid IPv4 address"
  | .invalidIpv6 => "invalid IPv6 address"
  | .noScheme => "relative URL without a base"

namespace Url

/-- The bytes of a text with `%` and two hexadecimal digits taken as one byte. -/
def percentDecode : List Char → List UInt8
  | [] => []
  | '%' :: a :: b :: rest =>
    match hexDigit? a, hexDigit? b with
    | some a, some b => UInt8.ofNat (a * 16 + b) :: percentDecode rest
    | _, _ => 37 :: percentDecode (a :: b :: rest)
  | c :: rest => c.toString.toUTF8.toList ++ percentDecode rest

/-- The text of bytes, if they are valid. -/
def textOfBytes? (bytes : List UInt8) : Option String := String.fromUTF8? ⟨bytes.toArray⟩

/-- Characters that no host name may hold. -/
def isForbidden (c : Char) : Bool :=
  c.toNat ≤ 0x20 || c.toNat == 0x7F || ['%', '#', '/', ':', '<', '>', '?', '@', '[', '\\', ']', '^', '|'].contains c

/-- Small letters of the Latin, Greek and Cyrillic capitals. -/
def smallLetter (c : Char) : Char :=
  let n := c.toNat
  if 0x41 ≤ n ∧ n ≤ 0x5A then Char.ofNat (n + 32)
  else if 0xC0 ≤ n ∧ n ≤ 0xDE ∧ n ≠ 0xD7 then Char.ofNat (n + 32)
  else if 0x391 ≤ n ∧ n ≤ 0x3A9 ∧ n ≠ 0x3A2 then Char.ofNat (n + 32)
  else if 0x410 ≤ n ∧ n ≤ 0x42F then Char.ofNat (n + 32)
  else if 0x400 ≤ n ∧ n ≤ 0x40F then Char.ofNat (n + 80)
  else c

/-- The bias of Punycode after a number was written. -/
def adaptBias (delta points : Nat) (first : Bool) : Nat :=
  let delta := if first then delta / 700 else delta / 2
  reduce 40 (delta + delta / points) 0
where
  reduce : Nat → Nat → Nat → Nat
    | 0, delta, k => k + 36 * delta / (delta + 38)
    | fuel + 1, delta, k =>
      if 455 < delta then reduce fuel (delta / 35) (k + 36) else k + 36 * delta / (delta + 38)

def punycodeDigit (n : Nat) : Char :=
  if n < 26 then Char.ofNat ('a'.toNat + n) else Char.ofNat ('0'.toNat + (n - 26))

/-- A number in the variable-length digits of Punycode. -/
def punycodeNumber (bias : Nat) : Nat → Nat → Nat → List Char
  | 0, _, _ => []
  | fuel + 1, k, q =>
    let t := if k ≤ bias then 1 else if bias + 26 ≤ k then 26 else k - bias
    if q < t then [punycodeDigit q]
    else punycodeDigit (t + (q - t) % (36 - t)) :: punycodeNumber bias fuel (k + 36) ((q - t) / (36 - t))

/-- The state of an encoder: the code point, the distance, the bias, how many characters
are written, and the digits so far. -/
structure Punycode where
  code : Nat
  delta : Nat
  bias : Nat
  handled : Nat
  written : List Char

/-- Writes the characters of the label that have the code point `n`. -/
def punycodePass (basic n : Nat) (label : List Char) (p : Punycode) : Punycode :=
  label.foldl (fun p c =>
    if c.toNat < n then { p with delta := p.delta + 1 }
    else if c.toNat = n then
      { p with
        written := p.written ++ punycodeNumber p.bias 40 36 p.delta
        bias := adaptBias p.delta (p.handled + 1) (p.handled == basic)
        delta := 0
        handled := p.handled + 1 }
    else p) p

def punycodeRun (basic : Nat) (label : List Char) : Nat → Punycode → List Char
  | 0, p => p.written
  | fuel + 1, p =>
    if label.length ≤ p.handled then p.written
    else
      let next := (label.filter fun c => p.code ≤ c.toNat).foldl (fun n c => min n c.toNat) 0x110000
      let p := { p with delta := p.delta + (next - p.code) * (p.handled + 1) }
      let p := punycodePass basic next label p
      punycodeRun basic label fuel { p with delta := p.delta + 1, code := next + 1 }

/-- A label in ASCII. -/
def asciiLabel (label : List Char) : List Char :=
  if label.all fun c => c.toNat < 0x80 then label
  else
    let basic := label.filter fun c => c.toNat < 0x80
    let start := if basic.isEmpty then [] else basic ++ ['-']
    ['x', 'n', '-', '-'] ++
      punycodeRun basic.length label label.length ⟨128, 0, 72, basic.length, start⟩

/-- A host name in ASCII. The tables for international names are not here, only the small letters
of `smallLetter`: a fullwidth letter, a soft hyphen or a capital of another script is encoded as it
stands, where these tables replace or drop it, and a label that starts with `xn--` is kept although
it may be no valid Punycode, where it would be refused. -/
def asciiName (bytes : List UInt8) : Except UrlError String :=
  match textOfBytes? bytes with
  | none => .error .invalidName
  | some s =>
    let cs := s.toList.map smallLetter
    if cs.any fun c => isForbidden c || (0x80 ≤ c.toNat && c.toNat < 0xA0) || c.toNat == 0xFFFD then
      .error .invalidName
    else
      .ok (join "." ((splitChars '.' cs).map fun label => String.ofList (asciiLabel label)))

/-- A part of an IPv4 address in base 16, 8 or 10: no number, one that is too large, or a
number of 32 bits. -/
def ipv4Number (part : String) : Option (Option Nat) :=
  let (base, digits) := match part.toList with
    | '0' :: 'x' :: rest | '0' :: 'X' :: rest => (16, rest)
    | '0' :: c :: rest => (8, c :: rest)
    | cs => (10, cs)
  if part == "" then none
  else
    let values := digits.mapM fun c => digitInBase? base c
    values.map fun ns =>
      let n := ns.foldl (fun n d => n * base + d) 0
      if n < Nat.pow 2 32 then some n else none

/-- Whether the last label, an empty one at the end aside, is a number. -/
def endsInNumber (name : String) : Bool :=
  let last := match (split '.' name).reverse with
    | "" :: last :: _ => last
    | last :: _ => last
    | [] => ""
  (last ≠ "" && last.toList.all isDigit) || (ipv4Number last).isSome

/-- The four parts of an IPv4 address; the last number fills all parts that are left. -/
def ipv4 (name : String) : Except UrlError (List Nat) :=
  let parts := split '.' name
  let parts := if parts.getLast? == some "" then parts.dropLast else parts
  if 4 < parts.length then .error .invalidIpv4
  else
    match parts.mapM fun p => (ipv4Number p).join with
    | none => .error .invalidIpv4
    | some numbers =>
      let heads := numbers.dropLast
      let last := numbers.getLastD 0
      let width := 4 - heads.length
      if Nat.pow 256 width ≤ last || heads.any (256 ≤ ·) then .error .invalidIpv4
      else .ok (heads ++ (List.range width).map fun i => last / Nat.pow 256 (width - 1 - i) % 256)

/-- A decimal number up to 255 without zeros in front. -/
def byteOf? (part : String) : Option Nat :=
  match part.toList with
  | ['0'] => some 0
  | '0' :: _ => none
  | [] => none
  | cs =>
    if cs.all isDigit && cs.length ≤ 3 then
      let n := cs.foldl (fun n c => n * 10 + (c.toNat - '0'.toNat)) 0
      if n ≤ 255 then some n else none
    else none

/-- One or two groups of an IPv6 address; two if an IPv4 address may stand here. -/
def groupOf? (mayBeIpv4 : Bool) (part : String) : Option (List Nat) :=
  if part.toList.contains '.' then
    if mayBeIpv4 then
      match (split '.' part).mapM byteOf? with
      | some [a, b, c, d] => some [a * 256 + b, c * 256 + d]
      | _ => none
    else none
  else
    match part.toList.mapM hexDigit? with
    | some ns =>
      if 1 ≤ ns.length ∧ ns.length ≤ 4 then some [ns.foldl (fun n d => n * 16 + d) 0] else none
    | none => none

/-- The groups between colons; an IPv4 address may be the last. -/
def groupsOf? (mayBeIpv4 : Bool) : List String → Option (List Nat)
  | [] => some []
  | [part] => groupOf? mayBeIpv4 part
  | part :: rest => do
    let g ← groupOf? false part
    let gs ← groupsOf? mayBeIpv4 rest
    some (g ++ gs)

/-- The text before the first `::` and after it. -/
def cutDoubleColon : List Char → Option (List Char × List Char)
  | ':' :: ':' :: rest => some ([], rest)
  | c :: rest => (cutDoubleColon rest).map fun (a, b) => (c :: a, b)
  | [] => none

def sideGroups? (mayBeIpv4 : Bool) (cs : List Char) : Option (List Nat) :=
  if cs.isEmpty then some [] else groupsOf? mayBeIpv4 (split ':' (String.ofList cs))

/-- The eight groups of an IPv6 address; `::` stands for one zero or more. -/
def ipv6 (cs : List Char) : Except UrlError (List Nat) :=
  let groups := match cutDoubleColon cs with
    | none => (sideGroups? true cs).bind fun gs => if gs.length = 8 then some gs else none
    | some (left, right) => do
      let a ← sideGroups? false left
      let b ← sideGroups? true right
      if a.length + b.length ≤ 7 then
        some (a ++ List.replicate (8 - (a.length + b.length)) 0 ++ b)
      else none
  match groups with
  | some gs => .ok gs
  | none => .error .invalidIpv6

def hexText (n : Nat) : String := String.ofList (Nat.toDigits 16 n)

/-- The longest run of at least two zeros, the first of equally long ones: its start and
its length. -/
def zeroRun (groups : List Nat) : Option (Nat × Nat) :=
  let runs := (List.range groups.length).map fun i =>
    (i, ((groups.drop i).takeWhile (· == 0)).length)
  let best := runs.foldl (fun best r => if best.2 < r.2 then r else best) (0, 0)
  if 2 ≤ best.2 then some best else none

def ipv6Text (groups : List Nat) : String :=
  match zeroRun groups with
  | none => join ":" (groups.map hexText)
  | some (start, length) =>
    join ":" ((groups.take start).map hexText) ++ "::"
      ++ join ":" ((groups.drop (start + length)).map hexText)

/-- The text of an address in brackets. -/
def bracketed (cs : List Char) : Except UrlError String :=
  if cs.getLast? == some ']' then
    (ipv6 ((cs.drop 1).dropLast)).map fun gs => "[" ++ ipv6Text gs ++ "]"
  else .error .invalidIpv6

/-- The host of a URL whose scheme is known to the rules. -/
def specialHost (cs : List Char) : Except UrlError String :=
  match cs with
  | [] => .error .emptyHost
  | '[' :: _ => bracketed cs
  | _ => do
    let name ← asciiName (percentDecode cs)
    if name == "" then .error .emptyHost
    else if endsInNumber name then
      (ipv4 name).map fun parts => join "." (parts.map toString)
    else .ok name

end Url

end CimConsole
