import CimConsole.Arguments.Grammar

/-!
Reading a command line by a grammar. The words are taken in order; a value given to an
option is judged when the next item follows or the line ends, and what a command lacks is
judged at its end, the inner commands before the outer ones. Behind `--` only words by
their position follow. A word that starts with a dash is never the value of an option.
-/
namespace CimConsole.Arguments

open Text

/-- How often an item occurs, with its values. -/
structure Found where
  times : Nat := 0
  values : List String := []
deriving DecidableEq, Repr

/-- What was found at one command. -/
structure Level where
  command : String
  found : List (String × Found)
deriving DecidableEq, Repr

/-- A reading of the words behind one command. -/
structure Scan where
  found : List (String × Found) := []
  /-- An item that is not judged yet. -/
  pending : Option (Item × List String) := none
  position : Nat := 0
  wordsOnly : Bool := false

/-- A command in its place: the commands before it and the options that it shares. -/
structure Place where
  grammar : Grammar
  path : List String
  inherited : List Item

def Accepts.check (item : Item) (value : String) : Except UsageError Unit :=
  match item.accepts with
  | .anything => .ok ()
  | .nonempty => if value == "" then .error (.unusableValue item none) else .ok ()
  | .natural limit =>
    match readSigned (Nat.pow 2 63) value.toList with
    | .ok n => if 0 ≤ n ∧ n ≤ limit then .ok () else .error (.malformedValue item value)
    | .error _ => .error (.malformedValue item value)
  | .oneOf words =>
    if words.contains value then .ok () else .error (.unusableValue item (some value))

/-- Adds an occurrence of an item. -/
def occur (item : Item) (values : List String) (found : List (String × Found)) :
    Except UsageError (List (String × Found)) := do
  let before := (found.lookup item.id).getD {}
  let others := found.filter fun e => e.1 != item.id
  if item.takesValue && values.isEmpty then .error (.unusableValue item none)
  else if (item.arity = .single || item.arity = .flag) && 0 < before.times then
    .error (.conflict item.shown item.shown)
  else
    values.forM (Accepts.check item)
    pure ((item.id, ⟨before.times + 1, before.values ++ values⟩) :: others)

namespace Scan

/-- Judges the pending item. -/
def settle (s : Scan) : Except UsageError Scan :=
  match s.pending with
  | none => .ok s
  | some (item, values) =>
    (occur item values s.found).map fun found => { s with found, pending := none }

/-- Whether the next word is the value of an option. -/
def awaitsValue (s : Scan) : Bool :=
  match s.pending with
  | some (_, []) => true
  | _ => false

end Scan

namespace Place

def helpItem : Item := Item.flag "help" "help" (some 'h') []

def versionItem : Item := Item.flag "version" "version" (some 'V') []

def options (p : Place) : List Item :=
  p.grammar.options ++ p.inherited ++ [helpItem]
    ++ (if p.grammar.hasVersion then [versionItem] else [])

/-- The place of a command below. -/
def below (p : Place) (g : Grammar) : Place where
  grammar := g
  path := p.path ++ [g.name]
  inherited := p.grammar.options.filter Item.shared ++ p.inherited

def usage (p : Place) : String := p.grammar.usage p.path

/-- An option without value. -/
def useFlag (p : Place) (item : Item) (s : Scan) : Except UsageError Scan := do
  let s ← s.settle
  if item = helpItem then .error (.help p.usage)
  else if item = versionItem then .error (.version (join "-" p.path))
  else
    let found ← occur item [] s.found
    pure { s with found }

/-- An option with the value that is attached to it, or with the next word. -/
def useOption (item : Item) (attached : Option String) (s : Scan) : Except UsageError Scan := do
  let s ← s.settle
  match attached with
  | none => pure { s with pending := some (item, []) }
  | some value =>
    let found ← occur item [value] s.found
    pure { s with found }

/-- An option by its long name, with a value behind `=` if there is one. -/
def readLong (p : Place) (body : List Char) (s : Scan) : Except UsageError Scan :=
  let (name, value) : String × Option String := match cutFirst '=' body with
    | some (name, value) => (String.ofList name, some (String.ofList value))
    | none => (String.ofList body, none)
  match p.options.find? fun i => i.longs.contains name with
  | none => .error (.unknownArgument (String.ofList ('-' :: '-' :: body)))
  | some item =>
    if item.takesValue then useOption item value s
    else if value.isSome then .error (.surplusValue item)
    else p.useFlag item s

/-- Options by their letters; behind one with a value the rest is the value. -/
def readShort (p : Place) : List Char → Scan → Except UsageError Scan
  | [], s => .ok s
  | c :: rest, s =>
    match p.options.find? fun i => i.short == some c with
    | none => .error (.unknownArgument (String.ofList ['-', c]))
    | some item =>
      if item.takesValue then
        match rest with
        | [] => useOption item none s
        | '=' :: value => useOption item (some (String.ofList value)) s
        | value => useOption item (some (String.ofList value)) s
      else do
        let s ← p.useFlag item s
        readShort p rest s

/-- A word by its position. -/
def readWord (p : Place) (word : String) (s : Scan) : Except UsageError Scan :=
  match p.grammar.words[s.position]? with
  | some item => do
    let s ← s.settle
    pure { s with pending := some (item, [word]), position := s.position + 1 }
  | none =>
    if p.grammar.commands.isEmpty || (s.wordsOnly && (p.grammar.command? word).isSome) then
      .error (.unknownArgument word)
    else .error (.unknownCommand word)

/-- Anything but a command. -/
def readItem (p : Place) (word : String) (s : Scan) : Except UsageError Scan :=
  if s.wordsOnly then p.readWord word s
  else
    match word.toList with
    | ['-', '-'] => .ok { s with wordsOnly := true }
    | '-' :: '-' :: body => p.readLong body s
    | '-' :: c :: rest => p.readShort (c :: rest) s
    | _ =>
      match s.pending with
      | some (item, []) => .ok { s with pending := some (item, [word]) }
      | _ => p.readWord word s

/-- The end of what belongs to a command. -/
def close (p : Place) (s : Scan) (hasCommand : Bool) : Except UsageError Level := do
  let s ← s.settle
  let has (id : String) : Bool := (s.found.lookup id).isSome
  if !hasCommand && !p.grammar.commands.isEmpty then
    if s.found.isEmpty then .error (.nothingGiven p.usage) else .error (.missingCommand p.usage)
  else
    match p.grammar.conflicts.find? fun (a, b) => has a && has b with
    | some (a, b) => .error (.conflict a b)
    | none =>
      match (p.grammar.options ++ p.grammar.words).find? fun i => i.required && !has i.id with
      | some item => .error (.missing item)
      | none => .ok ⟨p.grammar.name, s.found⟩

def hasHelp (p : Place) : Bool := p.grammar.hasHelpWord && !p.grammar.commands.isEmpty

/-- What the word `help` and the words behind it answer: each has to name a command. -/
def help (p : Place) : List String → UsageError
  | [] => .help p.usage
  | word :: rest =>
    match p.grammar.command? word with
    | some g => help (p.below g) rest
    | none =>
      if word == "help" && p.hasHelp then
        match rest with
        | [] => .help p.usage
        | other :: _ => .unknownCommand other
      else .unknownCommand word

/-- Reads the words behind a command; the levels come outermost first. -/
def read (p : Place) (s : Scan) : List String → Except UsageError (List Level)
  | [] => (p.close s false).map fun level => [level]
  | word :: rest =>
    let mayBeCommand := !s.wordsOnly && !s.awaitsValue
    if mayBeCommand && word == "help" && p.hasHelp then .error (p.help rest)
    else
      match if mayBeCommand then p.grammar.command? word else none with
      | some g => do
        let inner ← read (p.below g) {} rest
        let level ← p.close s true
        pure (level :: inner)
      | none => do
        let s ← p.readItem word s
        read p s rest

end Place

/-- What was found at each command of a line, outermost first. -/
def Grammar.read (g : Grammar) (words : List String) : Except UsageError (List Level) :=
  Place.read ⟨g, [g.name], []⟩ {} words

/-! Of an item that occurs at several commands the innermost occurrences count. -/

def find? (levels : List Level) (id : String) : Option Found :=
  levels.reverse.findSome? fun level => level.found.lookup id

def has (levels : List Level) (id : String) : Bool := (find? levels id).isSome

def times (levels : List Level) (id : String) : Nat := ((find? levels id).map Found.times).getD 0

def values (levels : List Level) (id : String) : List String :=
  ((find? levels id).map Found.values).getD []

def value? (levels : List Level) (id : String) : Option String := (values levels id).head?

end CimConsole.Arguments
