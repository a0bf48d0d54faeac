import CimConsole.Document.Yaml.Printer
import CimConsole.Output.Format
import CimConsole.Output.Objects
import CimConsole.Server.Error

/-!
The texts that commands write. Results of several namespaces stand in sections, in the
order of the namespaces; for machines they are one list of records. Success is told to
people only.
-/
namespace CimConsole

open Text

structure Console where
  format : OutputFormat
  terminal : Terminal := {}
deriving DecidableEq, Repr

namespace Console

def line (s : String) : String := s ++ "\n"

def title (c : Console) (title : String) (subtitle : Option String) : String :=
  line (boxText c.terminal title subtitle)

def table (c : Console) (headers : List String) (rows : List (List String)) : String :=
  line (tableText c.terminal headers rows)

/-- A document as JSON if that is the format, and as YAML otherwise. -/
def value (c : Console) (d : Document) : String :=
  let text := match c.format with
    | .json => d.toPrettyJson 0
    | _ => d.toYaml
  line (trimEnd text)

def warning (c : Console) (s : String) : String :=
  line (c.terminal.paint .warning "Warning:" ++ " " ++ s)

def error (c : Console) (s : String) : String :=
  line (c.terminal.paint .error "Error:" ++ " " ++ s)

def success (c : Console) (s : String) : String :=
  if c.format.isMachine then "" else line (c.terminal.paint .success s)

def lines (items : List String) : String := join "" (items.map line)

/-- The objects of one namespace for people. -/
def objects (c : Console) (objectType : String) (o : Objects) : String :=
  match o, c.format with
  | .summary size, _ => line (toString size ++ " " ++ objectType ++ "(s) returned")
  | o, .table => c.table o.table.1 o.table.2
  | o, .mof => o.mof?.getD (lines o.lines)
  | o, _ => lines o.lines

/-- The objects of one of several namespaces. -/
def headed (c : Console) (objectType space : String) (o : Objects) : String :=
  line (c.terminal.paint .primary ("Namespace: " ++ space)) ++ c.objects objectType o ++ "\n"

def sectionDocument (space : String) (o : Objects) : Document :=
  .record [("namespace", .text space), ("objects", o.document)]

/-- The namespaces in which something came out. -/
def found (results : List (String × Option Objects)) : List (String × Objects) :=
  results.filterMap fun (space, o) => o.map fun o => (space, o)

/-- The results of a session, whose failed namespaces have none. -/
def results (c : Console) (objectType : String) (all : List (String × Option Objects)) : String :=
  let several := 1 < all.length
  if c.format.isMachine then
    if several then c.value (.list ((found all).map fun (space, o) => sectionDocument space o))
    else join "" ((found all).map fun (_, o) => c.value o.document)
  else
    join "" ((found all).map fun (space, o) =>
      if several then c.headed objectType space o else c.objects objectType o)

/-- The failures of a session. -/
def failures (c : Console) (objectType target : String) (all : List (String × ServerError)) :
    String :=
  line (c.terminal.paint .error (objectType ++ " '" ++ target ++ "' failed in "
      ++ toString all.length ++ " namespace(s):"))
    ++ c.table ["Namespace", "Error"] (all.map fun (space, e) => [space, e.message])

end Console

end CimConsole
