import CimConsole.Model.Value

/-!
The text of object paths: `//host` which is dropped, `/namespace:`, the class name, and
behind a `.` the bindings `Key="v",Other=3`. A quoted value is a string, unless it reads
as the path of an instance. The reader recurses into quoted values, which are shorter
than the text that holds them, so the length of the text is fuel enough.
-/
namespace CimConsole

open Text Number

/-- Why a text is no object path. -/
inductive PathError where
  | empty
  | invalidClassName (name : String)
  | malformedKey (text : String)
  | unterminatedString
  | invalidValue (text : String)
deriving DecidableEq, Repr

def PathError.message : PathError → String
  | .empty => "object path is empty"
  | .invalidClassName name => "invalid class name '" ++ name ++ "' in object path"
  | .malformedKey text => "malformed key binding '" ++ text ++ "' in object path"
  | .unterminatedString => "unterminated string value in object path"
  | .invalidValue text => "unsupported key value '" ++ text ++ "' in object path"

namespace ObjectPath

/-- A key value as it stands in the text. -/
inductive RawValue where
  | quoted (cs : List Char)
  | bare (cs : List Char)

/-- The rest of a quoted value behind its opening quote: the content with the
backslashes taken out, and what follows the closing quote. -/
def readQuoted : List Char → Option (List Char × List Char)
  | [] => none
  | '"' :: rest => some ([], rest)
  | '\\' :: c :: rest => (readQuoted rest).map fun (content, after) => (c :: content, after)
  | '\\' :: [] => none
  | c :: rest => (readQuoted rest).map fun (content, after) => (c :: content, after)

/-- The value behind an `=` and what follows it. -/
def readRaw : List Char → Except PathError (RawValue × List Char)
  | '"' :: rest =>
    match readQuoted rest with
    | none => .error .unterminatedString
    | some (content, after) => .ok (.quoted content, after)
  | cs =>
    .ok (.bare (dropBothWhile isBlank (cs.takeWhile (· != ','))), cs.dropWhile (· != ','))

/-- The bindings of a text in its order. The fuel is at least the length of the text. -/
def readBindings : Nat → List Char → Except PathError (List (String × RawValue))
  | 0, _ => .ok []
  | _, [] => .ok []
  | fuel + 1, cs => do
    match cutFirst '=' cs with
    | none => .error (.malformedKey (String.ofList cs))
    | some (before, after) =>
      let name := dropBothWhile isBlank before
      if !isIdentifier name then .error (.malformedKey (String.ofList name))
      else
        let (value, rest) ← readRaw after
        match rest with
        | [] => pure [(String.ofList name, value)]
        | ',' :: more =>
          let others ← readBindings fuel more
          pure ((String.ofList name, value) :: others)
        | _ => .error (.malformedKey (String.ofList cs))

/-- The value that an unquoted text stands for. -/
def readBare (cs : List Char) : Except PathError Value :=
  let s := String.ofList cs
  if sameName s "true" then .ok (.boolean true)
  else if sameName s "false" then .ok (.boolean false)
  else
    match readInt64? cs with
    | some i => .ok (.integer i)
    | none =>
      match readReal? s with
      | some r => .ok (.real r)
      | none => .error (.invalidValue s)

/-- The text behind the host of a path, if it has one. -/
def dropHost (raw cs : List Char) : Except PathError (List Char) :=
  match cs with
  | '/' :: '/' :: rest =>
    match rest.dropWhile (· != '/') with
    | [] => .error (.invalidClassName (String.ofList raw))
    | found => .ok found
  | _ => .ok cs

/-- Namespace and class name. -/
def readHead (head : List Char) : Option String × List Char :=
  match cutLast ':' head with
  | none => (none, head)
  | some (before, name) =>
    let space := before.dropWhile (· == '/')
    (if space.isEmpty then none else some (String.ofList space), name)

/-- The value of a key, with `embedded` as the reader of quoted paths. -/
def readValue (embedded : List Char → Except PathError ObjectPath) :
    RawValue → Except PathError Value
  | .bare cs => readBare cs
  | .quoted cs =>
    match embedded cs with
    | .ok p => .ok (if cs.contains '=' && !p.namesClass then .reference p
        else .text (String.ofList cs))
    | .error _ => .ok (.text (String.ofList cs))

def bindKeys (embedded : List Char → Except PathError ObjectPath) :
    List (String × RawValue) → Except PathError (List (String × Value))
  | [] => .ok []
  | (name, raw) :: rest => do
    let value ← readValue embedded raw
    let others ← bindKeys embedded rest
    pure ((name, value) :: others)

/-- Namespace, class name and the bindings of a text, their values unread. -/
def readParts (raw : List Char) :
    Except PathError (Option String × String × List (String × RawValue)) := do
  let cs := dropBothWhile isBlank raw
  if cs.isEmpty then .error .empty
  else
    let cs ← dropHost raw cs
    let (head, keys) := (cutFirst '.' cs).getD (cs, [])
    let (space, name) := readHead head
    if !isIdentifier name then .error (.invalidClassName (String.ofList name))
    else
      let raws ← readBindings keys.length keys
      pure (space, String.ofList name, raws)

/-- The path of a text no longer than the fuel. -/
def readWithin : Nat → List Char → Except PathError ObjectPath
  | 0, _ => .error .empty
  | fuel + 1, raw => do
    let (space, name, raws) ← readParts raw
    let bound ← bindKeys (readWithin fuel) raws
    pure ⟨space, name, bound.foldl (fun keys e => Entries.put e.1 e.2 keys) []⟩

def read (s : String) : Except PathError ObjectPath := readWithin s.toList.length s.toList

end ObjectPath

end CimConsole
