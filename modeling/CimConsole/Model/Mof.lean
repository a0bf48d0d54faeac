import CimConsole.Model.Schema
import CimConsole.Model.Instance

/-!
MOF texts of classes, instances and qualifier declarations, with one element a line and
no folding of long lines.
-/
namespace CimConsole.Mof

open Text

/-- The text of one character between quotes. -/
def escapeChar (c : Char) : String :=
  if c == '\\' then "\\\\"
  else if c == '"' then "\\\""
  else if c == '\n' then "\\n"
  else if c == '\t' then "\\t"
  else c.toString

def quoted (s : String) : String := "\"" ++ substitute escapeChar s ++ "\""

mutual

def ofValue : Value → String
  | .text s => quoted s
  | .reference p => quoted p.display
  | .array items => "\x7b" ++ join ", " (ofValues items) ++ "\x7d"
  | .boolean b => (Value.boolean b).display
  | .integer i => (Value.integer i).display
  | .real r => (Value.real r).display

def ofValues : List Value → List String
  | [] => []
  | v :: rest => ofValue v :: ofValues rest

end

/-- Three spaces for each level. -/
def indent (levels : Nat) : String := repeated ' ' (3 * levels)

/-- The bracketed line of qualifiers; a flag that is true stands without value. -/
def ofQualifiers (before : String) (qs : Qualifiers) : String :=
  if qs.isEmpty then ""
  else
    let parts := qs.entries.map fun (name, value) =>
      match value with
      | .boolean true => name
      | value => name ++ " ( " ++ ofValue value ++ " )"
    before ++ "[" ++ join ",\n " parts ++ "]\n"

def typeText (type : String) (referenceClass : Option String) : String :=
  match referenceClass with
  | some c => c ++ " REF"
  | none => type

def arrayMark (isArray : Bool) : String := if isArray then "[]" else ""

def defaultText : Option Value → String
  | none => ""
  | some v => " = " ++ ofValue v

def ofProperty (p : PropertyDecl) : String :=
  "\n" ++ ofQualifiers (indent 2) p.qualifiers ++ indent 1 ++ typeText p.type p.referenceClass
    ++ " " ++ p.name ++ arrayMark p.isArray ++ defaultText p.value ++ ";\n"

def ofParameter (p : ParameterDecl) : String :=
  "\n" ++ ofQualifiers (indent 3) p.qualifiers ++ indent 2 ++ typeText p.type p.referenceClass
    ++ " " ++ p.name ++ arrayMark p.isArray

def ofMethod (m : MethodDecl) : String :=
  "\n" ++ ofQualifiers (indent 2) m.qualifiers ++ indent 1 ++ m.returnType ++ " " ++ m.name
    ++ "(" ++ join "," (m.parameters.map ofParameter) ++ ");\n"

def ofClass (c : ClassDecl) : String :=
  ofQualifiers "" c.qualifiers ++ "class " ++ c.name
    ++ (match c.superclass with
      | some s => " : " ++ s
      | none => "")
    ++ " \x7b\n" ++ join "" (c.properties.map ofProperty) ++ join "" (c.methods.map ofMethod)
    ++ "\n\x7d;\n"

/-- One property of an instance on a line of its own. -/
def ofEntry (name : String) (value : Option Value) : String :=
  indent 1 ++ name ++ " = " ++ (value.map ofValue).getD "NULL" ++ ";\n"

def ofInstance (x : Instance) : String :=
  "instance of " ++ x.className ++ " \x7b\n"
    ++ join "" (x.properties.entries.map fun (name, value) => ofEntry name value) ++ "\x7d;\n"

/-- The flavors that a declaration settles. -/
def flavors (d : QualifierDecl) : List String :=
  (match d.overridable with
    | some true => ["EnableOverride"]
    | some false => ["DisableOverride"]
    | none => [])
  ++ (match d.toSubclass with
    | some true => ["ToSubclass"]
    | some false => ["Restricted"]
    | none => [])
  ++ (if d.translatable == some true then ["Translatable"] else [])

def ofQualifierDecl (d : QualifierDecl) : String :=
  "Qualifier " ++ d.name ++ " : " ++ d.type ++ arrayMark d.isArray ++ defaultText d.value
    ++ ",\n" ++ indent 1 ++ "Scope(" ++ join ", " (d.scopes.map Scope.text) ++ ")"
    ++ (if (flavors d).isEmpty then ""
      else ",\n" ++ indent 1 ++ "Flavor(" ++ join ", " (flavors d) ++ ")")
    ++ ";\n"

end CimConsole.Mof
