import CimConsole.Document.Yaml.Style
import CimConsole.Document.Json

/-!
YAML texts of documents: one item or field a line, two more spaces for each level. The
items of a list stand under the name of their field. A collection in a list starts on
the line of its dash. Lists and records without content are written `[]` and braces.
-/
namespace CimConsole.Document

open Text Number Yaml

/-- Reals in YAML have no sign before a positive exponent. -/
def yamlReals : DocumentForm := ⟨"", ".nan", ".inf", "-.inf"⟩

/-- A line one level deeper; nothing is put into an empty line. -/
def indented (line : String) : String :=
  if line.toList.all endsLine then line else "  " ++ line

/-- Lines with a mark in front of the first of them and the others one level deeper. -/
def behindMark (mark : String) : List String → List String
  | [] => []
  | line :: lines => (mark ++ line) :: lines.map indented

/-- The lines of a field whose value has these lines. -/
def yamlField (name : String) (value : Document) (lines : List String) : List String :=
  if isSimpleKey name then
    let key := trimEndMark '\n' (scalarText name) ++ ":"
    match value with
    | .list (_ :: _) => (key ++ "\n") :: lines
    | .record (_ :: _) => (key ++ "\n") :: lines.map indented
    | _ => behindMark (key ++ " ") lines
  else behindMark "? " (scalarLines name) ++ behindMark ": " lines

mutual

/-- The lines of a document, the first of which starts where the document does. -/
def yamlLines : Document → List String
  | .null => ["null\n"]
  | .boolean b => [(if b then "true" else "false") ++ "\n"]
  | .whole i => [toString i ++ "\n"]
  | .real r => [r.inDocument yamlReals ++ "\n"]
  | .text s => scalarLines s
  | .plain s => scalarLines s
  | .list [] => ["[]\n"]
  | .list items => yamlItems items
  | .record [] => ["\x7b\x7d\n"]
  | .record fields => yamlFields fields

def yamlItems : List Document → List String
  | [] => []
  | d :: rest => behindMark "- " d.yamlLines ++ yamlItems rest

def yamlFields : List (String × Document) → List String
  | [] => []
  | (name, d) :: rest => yamlField name d d.yamlLines ++ yamlFields rest

end

/-- The whole text; the lines of a scalar are indented although it is in no collection. -/
def toYaml (d : Document) : String :=
  match d with
  | .text s => join "" (behindMark "" (scalarLines s))
  | .plain s => join "" (behindMark "" (scalarLines s))
  | d => join "" d.yamlLines

end CimConsole.Document
