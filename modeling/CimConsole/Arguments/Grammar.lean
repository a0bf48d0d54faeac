import CimConsole.Text.Pieces
import CimConsole.Text.Whole

/-!
Grammars of command lines: options with a dash, words by their position, and commands
below commands. An option may be shared, which means that it may also stand behind the
commands below the one that declares it.
-/
namespace CimConsole.Arguments

open Text

/-- How often an option may occur, and whether it has a value. -/
inductive Arity where
  | flag
  | count
  | single
  | many
deriving DecidableEq, Repr

inductive Accepts where
  | anything
  | nonempty
  | natural (limit : Nat)
  | oneOf (words : List String)
deriving DecidableEq, Repr

/-- An option, or a word in a position if it has no name. -/
structure Item where
  id : String
  short : Option Char := none
  longs : List String := []
  arity : Arity := .single
  accepts : Accepts := .anything
  required : Bool := false
  shared : Bool := false
deriving DecidableEq, Repr

namespace Item

def takesValue (i : Item) : Bool :=
  match i.arity with
  | .flag | .count => false
  | .single | .many => true

def flag (id long : String) (short : Option Char) (aliases : List String) : Item where
  id
  short
  longs := long :: aliases
  arity := .flag

def valued (id long : String) (short : Option Char) (aliases : List String) : Item where
  id
  short
  longs := long :: aliases

def repeatable (i : Item) : Item := { i with arity := .many }

def needed (i : Item) : Item := { i with required := true }

def everywhere (i : Item) : Item := { i with shared := true }

def word (id : String) : Item := { id }

/-- How an item is named in messages. -/
def shown (i : Item) : String :=
  match i.longs with
  | long :: _ => "--" ++ long
  | [] => "<" ++ i.id ++ ">"

end Item

structure Grammar where
  name : String
  options : List Item := []
  words : List Item := []
  /-- Pairs of options that exclude each other. -/
  conflicts : List (String × String) := []
  /-- Whether the word `help` stands for a command of its own. -/
  hasHelpWord : Bool := true
  hasVersion : Bool := false
  commands : List Grammar := []

namespace Grammar

/-- The command of this name. -/
def command? (g : Grammar) (word : String) : Option Grammar :=
  g.commands.find? fun c => c.name == word

/-- One line that tells what may follow a command. -/
def usage (g : Grammar) (path : List String) : String :=
  let rest := if g.commands.isEmpty then g.words.map fun i => "<" ++ i.id ++ ">"
    else ["<" ++ join "|" (g.commands.map Grammar.name) ++ ">"]
  join " " ("Usage:" :: path ++ "[OPTIONS]" :: rest)

end Grammar

/-- Why a command line does not fit a grammar, or what it asks for in place of a run. -/
inductive UsageError where
  | help (usage : String)
  | version (program : String)
  | nothingGiven (usage : String)
  | missingCommand (usage : String)
  | unknownCommand (word : String)
  | unknownArgument (word : String)
  | surplusValue (item : Item)
  | unusableValue (item : Item) (value : Option String)
  | malformedValue (item : Item) (value : String)
  | conflict (item other : String)
  | missing (item : Item)
deriving DecidableEq, Repr

def UsageError.message : UsageError → String
  | .help usage => usage
  | .version program => program ++ " 0.1.0"
  | .nothingGiven usage => usage
  | .missingCommand usage => "a command is required\n" ++ usage
  | .unknownCommand word => "unrecognized command '" ++ word ++ "'"
  | .unknownArgument word => "unexpected argument '" ++ word ++ "'"
  | .surplusValue item => "unexpected value for '" ++ item.shown ++ "'"
  | .unusableValue item none => "a value is required for '" ++ item.shown ++ "'"
  | .unusableValue item (some value) => "invalid value '" ++ value ++ "' for '" ++ item.shown ++ "'"
  | .malformedValue item value => "invalid value '" ++ value ++ "' for '" ++ item.shown ++ "'"
  | .conflict item other => "'" ++ item ++ "' cannot be used with '" ++ other ++ "'"
  | .missing item => "'" ++ item.shown ++ "' is required"

/-- What was asked for is shown, and nothing went wrong. -/
def UsageError.isAnswer : UsageError → Bool
  | .help _ | .version _ => true
  | _ => false

end CimConsole.Arguments
