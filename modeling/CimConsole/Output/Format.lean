/-!
The formats of output. Two of them are for machines and carry nothing but data.
-/
namespace CimConsole

inductive OutputFormat where
  | mof
  | table
  | text
  | json
  | yaml
deriving DecidableEq, Repr

namespace OutputFormat

def all : List OutputFormat := [.mof, .table, .text, .json, .yaml]

def name : OutputFormat → String
  | .mof => "mof"
  | .table => "table"
  | .text => "text"
  | .json => "json"
  | .yaml => "yaml"

def ofName? (s : String) : Option OutputFormat := all.find? fun f => f.name == s

def isMachine : OutputFormat → Bool
  | .json | .yaml => true
  | _ => false

end OutputFormat

end CimConsole
