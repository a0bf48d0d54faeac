/-!
White space of a text, which is the Unicode property `White_Space`, and the
trimming of texts by it. The main small facts say that trimming only drops blanks
at the ends.
-/
namespace CimConsole.Text

/-- The characters with the Unicode property `White_Space`. -/
def isBlank (c : Char) : Bool :=
  let n := c.toNat
  (0x9 ≤ n && n ≤ 0xD) || n == 0x20 || n == 0x85 || n == 0xA0 || n == 0x1680 ||
    (0x2000 ≤ n && n ≤ 0x200A) || n == 0x2028 || n == 0x2029 || n == 0x202F ||
    n == 0x205F || n == 0x3000

/-- Drops the longest suffix of characters that satisfy `p`. -/
def dropEndWhile (p : Char → Bool) (cs : List Char) : List Char :=
  (cs.reverse.dropWhile p).reverse

/-- Drops characters that satisfy `p` at both ends. -/
def dropBothWhile (p : Char → Bool) (cs : List Char) : List Char :=
  dropEndWhile p (cs.dropWhile p)

def trimEnd (s : String) : String := String.ofList (dropEndWhile isBlank s.toList)

def trim (s : String) : String := String.ofList (dropBothWhile isBlank s.toList)

/-- Drops every `c` at both ends of a text. -/
def trimMark (c : Char) (s : String) : String :=
  String.ofList (dropBothWhile (· == c) s.toList)

def trimStartMark (c : Char) (s : String) : String :=
  String.ofList (s.toList.dropWhile (· == c))

def trimEndMark (c : Char) (s : String) : String :=
  String.ofList (dropEndWhile (· == c) s.toList)

theorem dropEndWhile_append_takeWhile (p : Char → Bool) (cs : List Char) :
    dropEndWhile p cs ++ (cs.reverse.takeWhile p).reverse = cs := by
  rw [dropEndWhile, ← List.reverse_append, List.takeWhile_append_dropWhile,
    List.reverse_reverse]

theorem length_dropEndWhile_le (p : Char → Bool) (cs : List Char) :
    (dropEndWhile p cs).length ≤ cs.length := by
  have h := congrArg List.length (dropEndWhile_append_takeWhile p cs)
  rw [List.length_append] at h
  omega

end CimConsole.Text
