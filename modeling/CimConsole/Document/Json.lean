import CimConsole.Document
import CimConsole.Number.Text
import CimConsole.Text.Digits

/-!
JSON texts of documents: on one line without blanks, or with one item a line and two
spaces for each level. Reals that are not finite have no JSON text and are written as
`null`.
-/
namespace CimConsole.Document

open Text Number

/-- Reals in JSON have a signed exponent. -/
def jsonReals : DocumentForm := ⟨"+", "null", "null", "null"⟩

/-- The text of one character between JSON quotes. -/
def jsonChar (c : Char) : String :=
  if c == '"' then "\\\""
  else if c == '\\' then "\\\\"
  else if c == '\n' then "\\n"
  else if c == '\r' then "\\r"
  else if c == '\t' then "\\t"
  else if c == '\x08' then "\\b"
  else if c == '\x0c' then "\\f"
  else if c.toNat < 0x20 then
    String.ofList ['\\', 'u', '0', '0', lowerHex (c.toNat / 16), lowerHex (c.toNat % 16)]
  else c.toString

def jsonText (s : String) : String := "\"" ++ substitute jsonChar s ++ "\""

mutual

/-- The document on one line. -/
def toJson : Document → String
  | .null => "null"
  | .boolean b => if b then "true" else "false"
  | .whole i => toString i
  | .real r => r.inDocument jsonReals
  | .text s => jsonText s
  | .plain s => jsonText s
  | .list items => "[" ++ join "," (jsonItems items) ++ "]"
  | .record fields => "\x7b" ++ join "," (jsonFields fields) ++ "\x7d"

def jsonItems : List Document → List String
  | [] => []
  | d :: rest => d.toJson :: jsonItems rest

def jsonFields : List (String × Document) → List String
  | [] => []
  | (name, d) :: rest => (jsonText name ++ ":" ++ d.toJson) :: jsonFields rest

end

mutual

/-- The document with one item a line, its first line standing at the given depth. -/
def toPrettyJson (depth : Nat) : Document → String
  | .list [] => "[]"
  | .record [] => "\x7b\x7d"
  | .list (d :: rest) =>
    let lineStart := "\n" ++ repeated ' ' (2 * depth + 2)
    "[" ++ lineStart ++ join ("," ++ lineStart) (d.toPrettyJson (depth + 1) :: prettyItems (depth + 1) rest)
      ++ "\n" ++ repeated ' ' (2 * depth) ++ "]"
  | .record ((name, d) :: rest) =>
    let lineStart := "\n" ++ repeated ' ' (2 * depth + 2)
    "\x7b" ++ lineStart ++
      join ("," ++ lineStart)
        ((jsonText name ++ ": " ++ d.toPrettyJson (depth + 1)) :: prettyFields (depth + 1) rest)
      ++ "\n" ++ repeated ' ' (2 * depth) ++ "\x7d"
  | .null => "null"
  | .boolean b => if b then "true" else "false"
  | .whole i => toString i
  | .real r => r.inDocument jsonReals
  | .text s => jsonText s
  | .plain s => jsonText s

def prettyItems (depth : Nat) : List Document → List String
  | [] => []
  | d :: rest => d.toPrettyJson depth :: prettyItems depth rest

def prettyFields (depth : Nat) : List (String × Document) → List String
  | [] => []
  | (name, d) :: rest =>
    (jsonText name ++ ": " ++ d.toPrettyJson depth) :: prettyFields depth rest

end

end CimConsole.Document
