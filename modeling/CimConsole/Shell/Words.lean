import CimConsole.Text.Pieces

/-!
The words of a line. Blanks stand between words, quotes keep them inside one, and a
backslash takes the next character as it is; in front of the end of a line it joins two
lines. A `#` in front of a word begins a comment. Between single quotes nothing is
special, and between double ones a backslash only before what is special there.
-/
namespace CimConsole.Shell

/-- Where a reader stands, with the word so far, its last character in front. -/
inductive Stand where
  | gap
  | comment
  | bare (word : List Char)
  | single (word : List Char)
  | double (word : List Char)
deriving DecidableEq, Repr

inductive WordsError where
  | openQuote
deriving DecidableEq, Repr

def WordsError.message : WordsError → String
  | .openQuote => "missing closing quote"

def isGap (c : Char) : Bool := c == ' ' || c == '\t' || c == '\n'

/-- What a backslash between double quotes takes as it is. -/
def isSpecialInQuotes (c : Char) : Bool := c == '$' || c == '\x60' || c == '"' || c == '\\'

namespace Stand

/-- The word so far, which is empty between words. -/
def word : Stand → List Char
  | .gap | .comment => []
  | .bare w | .single w | .double w => w

/-- The stand behind a character that is not special. -/
def take (c : Char) : Stand → Stand
  | .gap => .bare [c]
  | .comment => .comment
  | .bare w => .bare (c :: w)
  | .single w => .single (c :: w)
  | .double w => .double (c :: w)

def finished (word : List Char) : String := String.ofList word.reverse

/-- The words of the characters behind a stand, the word so far among them. -/
def words (stand : Stand) (cs : List Char) : Except WordsError (List String) :=
  match stand, cs with
  | .gap, [] | .comment, [] => .ok []
  | .bare w, [] => .ok [finished w]
  | .single _, [] | .double _, [] => .error .openQuote
  | .comment, c :: rest => words (if c == '\n' then .gap else .comment) rest
  | .single w, c :: rest => words (if c == '\'' then .bare w else .single (c :: w)) rest
  | .double _, ['\\'] => .error .openQuote
  | .double w, '\\' :: c :: rest =>
    if c == '\n' then words (.double w) rest
    else if isSpecialInQuotes c then words (.double (c :: w)) rest
    else words (.double (c :: '\\' :: w)) rest
  | .double w, c :: rest => words (if c == '"' then .bare w else .double (c :: w)) rest
  | stand, ['\\'] => .ok [finished ('\\' :: stand.word)]
  | stand, '\\' :: c :: rest => if c == '\n' then words stand rest else words (stand.take c) rest
  | stand, '\'' :: rest => words (.single stand.word) rest
  | stand, '"' :: rest => words (.double stand.word) rest
  | .gap, '#' :: rest => words .comment rest
  | .gap, c :: rest => words (if isGap c then .gap else .bare [c]) rest
  | .bare w, c :: rest =>
    if isGap c then (words .gap rest).map (finished w :: ·) else words (.bare (c :: w)) rest

end Stand

/-- The words of a line. -/
def words (line : String) : Except WordsError (List String) := Stand.gap.words line.toList

end CimConsole.Shell
