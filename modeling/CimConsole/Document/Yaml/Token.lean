import CimConsole.Text.Digits

/-!
The tokens of a YAML text. Indentation is turned into tokens that open and close block
collections. A key without mark is known only when its colon is met, so the place where
it started is remembered, and the tokens that open it are inserted there.
-/
namespace CimConsole.Yaml

open Text

inductive Token where
  | documentStart
  | documentEnd
  | directive
  | blockSequence
  | blockMapping
  | blockEnd
  | flowSequence
  | flowSequenceEnd
  | flowMapping
  | flowMappingEnd
  | blockEntry
  | flowEntry
  | key
  | value
  | alias (name : String)
  | anchor (name : String)
  | tag (text : String)
  | plain (s : String)
  | quoted (s : String)
deriving DecidableEq, Repr

/-- A place in the text. -/
structure Cursor where
  rest : List Char
  index : Nat := 0
  line : Nat := 0
  column : Nat := 0

/-- A token that becomes a key if a colon follows: where it stands among the tokens and
in the text. -/
structure SimpleKey where
  required : Bool
  position : Nat
  index : Nat
  line : Nat
  column : Nat

/-- The state of a scan. The keys in question are kept for every open flow collection,
the innermost first. -/
structure Scan where
  cursor : Cursor
  tokens : Array Token := #[]
  indent : Int := -1
  indents : List Int := []
  keys : List (Option SimpleKey) := [none]
  keyAllowed : Bool := true

def isLineBreak (c : Char) : Bool := c == '\n' || c == '\u2028' || c == '\u2029'

def isSpace (c : Char) : Bool := c == ' ' || c == '\t'

/-- The text with one spelling of line breaks. -/
def unifyBreaks : List Char → List Char
  | '\r' :: '\n' :: rest => '\n' :: unifyBreaks rest
  | '\r' :: rest => '\n' :: unifyBreaks rest
  | c :: rest => (if c == '\u0085' then '\n' else c) :: unifyBreaks rest
  | [] => []

/-- The characters that a YAML text may hold. -/
def isAdmitted (c : Char) : Bool :=
  let n := c.toNat
  n == 9 || n == 10 || n == 13 || (0x20 ≤ n && n ≤ 0x7E) || n == 0x85 ||
    (0xA0 ≤ n && n ≤ 0xFFFD && n != 0xFEFF) || 0x10000 ≤ n

namespace Cursor

def next (k : Cursor) : Cursor :=
  match k.rest with
  | [] => k
  | c :: rest =>
    if isLineBreak c then ⟨rest, k.index + 1, k.line + 1, 0⟩
    else ⟨rest, k.index + 1, k.line, k.column + 1⟩

def skip : Nat → Cursor → Cursor
  | 0, k => k
  | n + 1, k => skip n k.next

def skipWhile (p : Char → Bool) (k : Cursor) : Cursor :=
  skip (k.rest.takeWhile p).length k

/-- The character so many places ahead. -/
def ahead (k : Cursor) (n : Nat) : Option Char := k.rest[n]?

/-- Whether a blank, a line break or the end is so many places ahead. -/
def blankAhead (k : Cursor) (n : Nat) : Bool :=
  match k.ahead n with
  | none => true
  | some c => isSpace c || isLineBreak c

/-- Whether a document marker stands here. -/
def atMarker (k : Cursor) : Bool :=
  k.column == 0 && k.blankAhead 3 &&
    (k.rest.take 3 == ['-', '-', '-'] || k.rest.take 3 == ['.', '.', '.'])

end Cursor

/-- The text of a scalar while it is read: what is settled, and the blanks and line
breaks after it, all in reverse. -/
structure Pending where
  done : List Char := []
  blanks : List Char := []
  brokeLine : Bool := false
  firstBreak : List Char := []
  moreBreaks : List Char := []

namespace Pending

/-- Settles the blanks or the folded line breaks in front of the next character. -/
def settle (p : Pending) : Pending :=
  if p.brokeLine then
    let breaks :=
      if p.firstBreak == ['\n'] then (if p.moreBreaks.isEmpty then [' '] else p.moreBreaks)
      else p.moreBreaks ++ p.firstBreak
    { done := breaks ++ p.done }
  else { done := p.blanks ++ p.done }

def addBlank (p : Pending) (c : Char) : Pending :=
  if p.brokeLine then p else { p with blanks := c :: p.blanks }

def addBreak (p : Pending) (c : Char) : Pending :=
  if p.brokeLine then { p with moreBreaks := c :: p.moreBreaks }
  else { p with brokeLine := true, blanks := [], firstBreak := [c] }

def add (p : Pending) (c : Char) : Pending :=
  let p := p.settle
  { p with done := c :: p.done }

def text (p : Pending) : String := String.ofList p.done.reverse

end Pending

def isFlowIndicator (c : Char) : Bool := [',', '[', ']', '\x7b', '\x7d'].contains c

/-- Reads a plain scalar. Inside flow collections the flow indicators end it. -/
def scanPlain (inFlow : Bool) (indent : Int) : Nat → Cursor → Pending → Option (Cursor × Pending)
  | 0, _, _ => none
  | fuel + 1, k, p =>
    match k.rest with
    | [] => some (k, p)
    | c :: _ =>
      if isSpace c then
        if p.brokeLine && c == '\t' && (k.column : Int) < indent then none
        else scanPlain inFlow indent fuel k.next (p.addBlank c)
      else if isLineBreak c then scanPlain inFlow indent fuel k.next (p.addBreak c)
      else
        let afterBlank := p.brokeLine || !p.blanks.isEmpty
        if afterBlank && (c == '#' || k.atMarker || (!inFlow && (k.column : Int) < indent)) then
          some (k, p)
        else if c == ':' && inFlow &&
            (match k.ahead 1 with
              | some d => isFlowIndicator d || d == '?'
              | none => false) then none
        else if (c == ':' && k.blankAhead 1) || (inFlow && isFlowIndicator c) then some (k, p)
        else scanPlain inFlow indent fuel k.next (p.add c)

/-- The character of a letter behind a backslash. -/
def escaped? (c : Char) : Option Char :=
  match c with
  | '0' => some '\x00'
  | 'a' => some '\x07'
  | 'b' => some '\x08'
  | 't' => some '\t'
  | '\t' => some '\t'
  | 'n' => some '\n'
  | 'v' => some '\x0b'
  | 'f' => some '\x0c'
  | 'r' => some '\r'
  | 'e' => some '\x1b'
  | ' ' => some ' '
  | '"' => some '"'
  | '/' => some '/'
  | '\\' => some '\\'
  | 'N' => some '\u0085'
  | '_' => some '\u00a0'
  | 'L' => some '\u2028'
  | 'P' => some '\u2029'
  | _ => none

def escapeLength? (c : Char) : Option Nat :=
  match c with
  | 'x' => some 2
  | 'u' => some 4
  | 'U' => some 8
  | _ => none

/-- The character of a number in hexadecimal digits. -/
def hexChar? (cs : List Char) : Option Char := do
  let n ← cs.foldlM (fun n c => (hexDigit? c).map (n * 16 + ·)) 0
  if (0xD800 ≤ n && n ≤ 0xDFFF) || 0x10FFFF < n then none else some (Char.ofNat n)

/-- Reads a quoted scalar behind its opening quote. -/
def scanQuoted (double : Bool) : Nat → Cursor → Pending → Option (Cursor × String)
  | 0, _, _ => none
  | fuel + 1, k, p =>
    match k.rest with
    | [] => none
    | c :: _ =>
      if isSpace c then scanQuoted double fuel k.next (p.addBlank c)
      else if isLineBreak c then scanQuoted double fuel k.next (p.addBreak c)
      else if k.atMarker then none
      else if !double && c == '\'' then
        if k.ahead 1 == some '\'' then scanQuoted double fuel (k.skip 2) (p.add '\'')
        else some (k.next, p.settle.text)
      else if double && c == '"' then some (k.next, p.settle.text)
      else if double && c == '\\' then
        match k.ahead 1 with
        | none => none
        | some e =>
          if isLineBreak e then
            scanQuoted double fuel (k.skip 2) { p.settle with brokeLine := true }
          else
            match escaped? e with
            | some d => scanQuoted double fuel (k.skip 2) (p.add d)
            | none =>
              match escapeLength? e with
              | none => none
              | some n =>
                let digits := (k.rest.drop 2).take n
                if digits.length < n then none
                else
                  match hexChar? digits with
                  | none => none
                  | some d => scanQuoted double fuel (k.skip (n + 2)) (p.add d)
      else scanQuoted double fuel k.next (p.add c)

/-- How a block scalar ends: with one line break, with none, or with all that follow. -/
inductive Chomp where
  | clip
  | strip
  | keep
deriving DecidableEq

def chompOf? (c : Char) : Option Chomp :=
  if c == '+' then some .keep else if c == '-' then some .strip else none

/-- The marks behind `|` or `>`: how the scalar ends and how far it is indented. -/
def scanBlockHeader (k : Cursor) : Option (Chomp × Nat × Cursor) :=
  match k.rest with
  | c :: d :: _ =>
    match chompOf? c with
    | some chomp =>
      if d == '0' then none
      else if isDigit d then some (chomp, digitValue d, k.skip 2)
      else some (chomp, 0, k.next)
    | none =>
      if c == '0' then none
      else if isDigit c then
        match chompOf? d with
        | some chomp => some (chomp, digitValue c, k.skip 2)
        | none => some (.clip, digitValue c, k.next)
      else some (.clip, 0, k)
  | [c] =>
    match chompOf? c with
    | some chomp => some (chomp, 0, k.next)
    | none =>
      if c == '0' then none
      else if isDigit c then some (.clip, digitValue c, k.next)
      else some (.clip, 0, k)
  | [] => some (.clip, 0, k)

/-- Skips empty lines of a block scalar and indentation up to `indent`, where zero means
that the indentation is not known yet. The answer has the deepest column and the breaks
in reverse. -/
def scanBreaks (indent : Nat) : Nat → Nat → List Char → Cursor → Option (Nat × List Char × Cursor)
  | 0, _, _, _ => none
  | fuel + 1, deepest, breaks, k =>
    let spaces := (k.rest.takeWhile (· == ' ')).length
    let k := k.skip (if indent = 0 then spaces else min spaces (indent - k.column))
    let deepest := max deepest k.column
    match k.rest with
    | [] => some (deepest, breaks, k)
    | c :: _ =>
      if c == '\t' && (indent == 0 || k.column < indent) then none
      else if isLineBreak c then scanBreaks indent fuel deepest (c :: breaks) k.next
      else some (deepest, breaks, k)

/-- Reads the lines of a block scalar. -/
def scanLines (literal : Bool) (indent : Nat) : Nat → Cursor → (done firstBreak breaks : List Char) →
    (afterBlank : Bool) → Option (List Char × List Char × List Char × Cursor)
  | 0, _, _, _, _, _ => none
  | fuel + 1, k, done, firstBreak, breaks, afterBlank =>
    match k.rest with
    | [] => some (done, firstBreak, breaks, k)
    | c :: _ =>
      if k.column != indent then some (done, firstBreak, breaks, k)
      else
        let done :=
          if !literal && firstBreak == ['\n'] && !afterBlank && !isSpace c then
            if breaks.isEmpty then ' ' :: done else breaks ++ done
          else breaks ++ firstBreak ++ done
        let content := k.rest.takeWhile (!isLineBreak ·)
        let k := k.skip content.length
        let done := content.reverse ++ done
        let (firstBreak, k) := match k.rest with
          | [] => ([], k)
          | b :: _ => ([b], k.next)
        match scanBreaks indent (k.rest.length + 1) 0 [] k with
        | none => none
        | some (_, breaks, k) => scanLines literal indent fuel k done firstBreak breaks (isSpace c)

/-- Reads a block scalar behind its mark. -/
def scanBlock (literal : Bool) (parent : Int) (k : Cursor) : Option (String × Cursor) := do
  let (chomp, increment, k) ← scanBlockHeader k
  let k := k.skipWhile isSpace
  let k := if k.ahead 0 == some '#' then k.skipWhile (!isLineBreak ·) else k
  let k ← match k.rest with
    | [] => some k
    | c :: _ => if isLineBreak c then some k.next else none
  let known := if increment = 0 then 0 else (if 0 ≤ parent then parent.toNat + increment else increment)
  let (deepest, breaks, k) ← scanBreaks known (k.rest.length + 1) 0 [] k
  let indent := if known = 0 then max (max deepest (parent + 1).toNat) 1 else known
  let (done, firstBreak, breaks, k) ← scanLines literal indent (k.rest.length + 1) k [] [] breaks false
  let done := if chomp = .strip then done else firstBreak ++ done
  let done := if chomp = .keep then breaks ++ done else done
  some (String.ofList done.reverse, k)

namespace Scan

def inFlow (s : Scan) : Bool := 1 < s.keys.length

def key? (s : Scan) : Option SimpleKey := s.keys.head?.join

def emit (s : Scan) (t : Token) : Scan := { s with tokens := s.tokens.push t }

def setKey (s : Scan) (key : Option SimpleKey) : Scan := { s with keys := key :: s.keys.tail }

/-- Gives up the key in question; one that the indentation demands cannot be given up. -/
def dropKey (s : Scan) : Option Scan :=
  match s.key? with
  | some key => if key.required then none else some (s.setKey none)
  | none => some s

/-- Remembers that a key may start here. -/
def noteKey (s : Scan) : Option Scan :=
  if s.keyAllowed then do
    let s ← s.dropKey
    some (s.setKey (some {
      required := !s.inFlow && s.indent == (s.cursor.column : Int)
      position := s.tokens.size
      index := s.cursor.index
      line := s.cursor.line
      column := s.cursor.column }))
  else some s

/-- Keys do not reach over a line end or over 1024 characters. -/
def dropStale (s : Scan) : Option Scan := do
  let keys ← s.keys.mapM fun key =>
    match key with
    | none => some none
    | some key =>
      if key.line < s.cursor.line || key.index + 1024 < s.cursor.index then
        if key.required then none else some none
      else some (some key)
  some { s with keys }

/-- Opens a block collection at a column deeper than the current one. -/
def openBlock (s : Scan) (column position : Nat) (t : Token) : Scan :=
  if !s.inFlow && s.indent < (column : Int) then
    { s with
      indents := s.indent :: s.indents
      indent := column
      tokens := s.tokens.insertIdxIfInBounds position t }
  else s

/-- Closes the block collections deeper than a column. -/
def closeBlocks (column : Int) : List Int → Scan → Scan
  | [], s => s
  | outer :: rest, s =>
    if !s.inFlow && column < s.indent then
      closeBlocks column rest { s.emit .blockEnd with indent := outer, indents := rest }
    else s

/-- Skips blanks, comments and line ends in front of a token. -/
def skipGap : Nat → Scan → Scan
  | 0, s => s
  | fuel + 1, s =>
    let k := s.cursor.skipWhile fun c => c == ' ' || (c == '\t' && (s.inFlow || !s.keyAllowed))
    let k := if k.ahead 0 == some '#' then k.skipWhile (!isLineBreak ·) else k
    match k.rest with
    | c :: _ =>
      if isLineBreak c then
        skipGap fuel { s with cursor := k.next, keyAllowed := s.keyAllowed || !s.inFlow }
      else { s with cursor := k }
    | [] => { s with cursor := k }

def isWordChar (c : Char) : Bool := isLetterOrDigit c || c == '_' || c == '-'

/-- The name behind `&` or `*`. -/
def scanName (k : Cursor) : Option (String × Cursor) :=
  let name := k.rest.takeWhile isWordChar
  let after := k.skip name.length
  let ends := after.blankAhead 0 || match after.ahead 0 with
    | some c => ['?', ':', ',', ']', '\x7d', '%', '@', '\x60'].contains c
    | none => true
  if name.isEmpty || !ends then none else some (String.ofList name, after)

/-- A token of one character. -/
def single (s : Scan) (t : Token) : Scan := { s.emit t with cursor := s.cursor.next }

def scanMarker (s : Scan) (t : Token) : Option Scan := do
  let s := closeBlocks (-1) s.indents s
  let s ← s.dropKey
  some { s.emit t with keyAllowed := false, cursor := s.cursor.skip 3 }

def scanEntry (s : Scan) : Option Scan := do
  if !s.inFlow && !s.keyAllowed then none
  else
    let s := s.openBlock s.cursor.column s.tokens.size .blockSequence
    let s ← s.dropKey
    some { s.single .blockEntry with keyAllowed := true }

def scanKey (s : Scan) : Option Scan := do
  if !s.inFlow && !s.keyAllowed then none
  else
    let s := s.openBlock s.cursor.column s.tokens.size .blockMapping
    let s ← s.dropKey
    some { s.single .key with keyAllowed := !s.inFlow }

def scanValue (s : Scan) : Option Scan :=
  match s.key? with
  | some key =>
    let s := { s with tokens := s.tokens.insertIdxIfInBounds key.position .key }
    let s := s.openBlock key.column key.position .blockMapping
    some { (s.setKey none).single .value with keyAllowed := false }
  | none =>
    if !s.inFlow && !s.keyAllowed then none
    else
      let s := s.openBlock s.cursor.column s.tokens.size .blockMapping
      some { s.single .value with keyAllowed := !s.inFlow }

/-- A token that may be a key and has been read up to `k`. -/
def scanned (s : Scan) (t : Token) (k : Cursor) : Option Scan := do
  let s ← s.noteKey
  some { s.emit t with cursor := k, keyAllowed := false }

/-- Whether a plain scalar may start with the characters here. -/
def startsPlain (s : Scan) (c : Char) : Bool :=
  let indicators := ['-', '?', ':', ',', '[', ']', '\x7b', '\x7d', '#', '&', '*', '!', '|', '>',
    '\'', '"', '%', '@', '\x60']
  let spaceAfter := match s.cursor.ahead 1 with
    | some d => isSpace d
    | none => false
  !(isSpace c || indicators.contains c) || (c == '-' && !spaceAfter)
    || (!s.inFlow && (c == '?' || c == ':') && !s.cursor.blankAhead 1)

/-- Reads the token that starts with `c`. -/
def scanToken (s : Scan) (c : Char) : Option Scan := do
  let k := s.cursor
  let fuel := k.rest.length + 1
  if k.column == 0 && c == '%' then
    let s := closeBlocks (-1) s.indents s
    let s ← s.dropKey
    some { s.emit .directive with keyAllowed := false, cursor := k.skipWhile (!isLineBreak ·) }
  else if k.atMarker then scanMarker s (if c == '-' then .documentStart else .documentEnd)
  else if c == '[' || c == '\x7b' then
    let s ← s.noteKey
    let s := s.single (if c == '[' then .flowSequence else .flowMapping)
    some { s with keys := none :: s.keys, keyAllowed := true }
  else if c == ']' || c == '\x7d' then
    let s ← s.dropKey
    let s := s.single (if c == ']' then .flowSequenceEnd else .flowMappingEnd)
    some { s with keys := if s.inFlow then s.keys.tail else s.keys, keyAllowed := false }
  else if c == ',' then
    let s ← s.dropKey
    some { s.single .flowEntry with keyAllowed := true }
  else if c == '-' && k.blankAhead 1 then s.scanEntry
  else if c == '?' && (s.inFlow || k.blankAhead 1) then s.scanKey
  else if c == ':' && (s.inFlow || k.blankAhead 1) then s.scanValue
  else if c == '*' then
    let (name, after) ← scanName k.next
    s.scanned (.alias name) after
  else if c == '&' then
    let (name, after) ← scanName k.next
    s.scanned (.anchor name) after
  else if c == '!' then
    let text := k.rest.takeWhile fun d =>
      !isSpace d && !isLineBreak d && !(s.inFlow && isFlowIndicator d)
    s.scanned (.tag (String.ofList text)) (k.skip text.length)
  else if (c == '|' || c == '>') && !s.inFlow then
    let s ← s.dropKey
    let (text, after) ← scanBlock (c == '|') s.indent k.next
    some { s.emit (.quoted text) with cursor := after, keyAllowed := true }
  else if c == '\'' || c == '"' then
    let (after, text) ← scanQuoted (c == '"') fuel k.next {}
    s.scanned (.quoted text) after
  else if s.startsPlain c then
    let (after, p) ← scanPlain s.inFlow (s.indent + 1) fuel k {}
    let s ← s.scanned (.plain p.text) after
    some { s with keyAllowed := p.brokeLine }
  else none

/-- Reads tokens up to the end of the text. -/
def run : Nat → Scan → Option (Array Token)
  | 0, _ => none
  | fuel + 1, s => do
    let s := s.skipGap (s.cursor.rest.length + 1)
    let s ← s.dropStale
    let s := closeBlocks s.cursor.column s.indents s
    match s.cursor.rest with
    | [] =>
      let s := closeBlocks (-1) s.indents s
      let s ← s.dropKey
      some s.tokens
    | c :: _ =>
      let s ← s.scanToken c
      run fuel s

end Scan

/-- The tokens of a text. -/
def tokens? (s : String) : Option (List Token) :=
  let cs := match s.toList with
    | '\ufeff' :: rest => rest
    | cs => cs
  if cs.all isAdmitted then
    let cs := unifyBreaks cs
    (Scan.run (cs.length + 1) { cursor := { rest := cs } }).map Array.toList
  else none

end CimConsole.Yaml
