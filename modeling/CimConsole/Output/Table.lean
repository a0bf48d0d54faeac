import CimConsole.Output.Terminal
import CimConsole.Text.Blank

/-!
Tables with two spaces between columns and a rule below the headers, and titles in a box.
A column is as wide as its widest cell. If the table does not fit the terminal, the widest
columns are narrowed first, none below eight characters, until it does.
-/
namespace CimConsole

open Text

namespace Table

/-- The cells of a row for so many columns. -/
def cells (columns : Nat) (row : List String) : List String :=
  (List.range columns).map fun i => row.getD i ""

/-- The width of the widest cell of a column. -/
def naturalWidth (rows : List (List String)) (i : Nat) (header : String) : Nat :=
  rows.foldl (fun w row => max w (shownWidth (row.getD i ""))) header.length

def naturalWidths (headers : List String) (rows : List (List String)) : List Nat :=
  headers.zipIdx.map fun (header, i) => naturalWidth rows i header

/-- The width of a line of columns with these widths. -/
def lineWidth (widths : List Nat) : Nat := widths.foldl (· + ·) 0 + (widths.length - 1) * 2

/-- Takes the overflow off columns in order, as much as each can give. -/
def narrowed : (overflow : Nat) → List (Nat × Nat) → List (Nat × Nat)
  | _, [] => []
  | overflow, (i, width) :: rest =>
    let cut := min (width - 8) overflow
    (i, width - cut) :: narrowed (overflow - cut) rest

/-- The columns with their widths, the widest first. -/
def widestFirst (widths : List Nat) : List (Nat × Nat) :=
  (widths.zipIdx.map fun (w, i) => (i, w)).mergeSort fun a b => b.2 ≤ a.2

/-- The widths for a terminal. -/
def fittedWidths (limit : Nat) (widths : List Nat) : List Nat :=
  let columns := narrowed (lineWidth widths - limit) (widestFirst widths)
  (List.range widths.length).map fun i => (columns.lookup i).getD 0

def line (widths : List Nat) (row : List String) : String :=
  trimEnd (join "  " (List.zipWith fitted widths row))

def rule (widths : List Nat) : String := join "  " (widths.map (repeated '-'))

end Table

/-- The lines of a table; none without columns. -/
def tableLines (t : Terminal) (headers : List String) (rows : List (List String)) : List String :=
  if headers.isEmpty then []
  else
    let widths := Table.fittedWidths t.width (Table.naturalWidths headers rows)
    [t.paint .accent (Table.line widths headers), t.paint .dim (Table.rule widths)]
      ++ rows.map fun row => Table.line widths (Table.cells headers.length row)

def tableText (t : Terminal) (headers : List String) (rows : List (List String)) : String :=
  join "\n" (tableLines t headers rows)

/-- A title and an optional subtitle in a box. -/
def boxText (t : Terminal) (title : String) (subtitle : Option String) : String :=
  let inner := match subtitle with
    | some s => t.paint .primary title ++ "  " ++ t.paint .secondary s
    | none => t.paint .primary title
  let limit := max (t.width - 4) 10
  let inner := if limit < shownWidth inner then truncate limit (plainText inner) else inner
  let edge := repeated '─' (shownWidth inner + 2)
  "┌" ++ edge ++ "┐\n│ " ++ inner ++ " │\n└" ++ edge ++ "┘"

end CimConsole
