import CimConsole.Model.Value

/-!
What a schema declares: classes with their properties and methods, and qualifiers. Names
of elements are looked up without regard to letter case and keep the spelling of their
declaration.
-/
namespace CimConsole

open Text

/-- The values of the qualifiers of one element. -/
abbrev Qualifiers := NameTable Value

/-- A qualifier that is present and holds the value true. -/
def Qualifiers.flagged (qs : Qualifiers) (name : String) : Bool :=
  (qs.find? name).bind Value.boolean? == some true

structure PropertyDecl where
  name : String
  type : String := "string"
  isArray : Bool := false
  referenceClass : Option String := none
  value : Option Value := none
  qualifiers : Qualifiers := .empty
  origin : Option String := none
  propagated : Bool := false
deriving Inhabited

structure ParameterDecl where
  name : String
  type : String := "string"
  isArray : Bool := false
  referenceClass : Option String := none
  qualifiers : Qualifiers := .empty
deriving Inhabited

structure MethodDecl where
  name : String
  returnType : String := "string"
  parameters : List ParameterDecl := []
  qualifiers : Qualifiers := .empty
  origin : Option String := none
  propagated : Bool := false
deriving Inhabited

structure ClassDecl where
  name : String
  superclass : Option String := none
  qualifiers : Qualifiers := .empty
  properties : List PropertyDecl := []
  methods : List MethodDecl := []
deriving Inhabited

/-- The kinds of element that a qualifier may stand on. -/
inductive Scope where
  | classDecl
  | association
  | indication
  | property
  | reference
  | method
  | parameter
  | any
deriving DecidableEq, Repr

structure QualifierDecl where
  name : String
  type : String := "string"
  isArray : Bool := false
  value : Option Value := none
  scopes : List Scope := []
  overridable : Option Bool := none
  toSubclass : Option Bool := none
  translatable : Option Bool := none
deriving Inhabited

namespace Scope

def text : Scope → String
  | .classDecl => "class"
  | .association => "association"
  | .indication => "indication"
  | .property => "property"
  | .reference => "reference"
  | .method => "method"
  | .parameter => "parameter"
  | .any => "any"

def all : List Scope :=
  [.classDecl, .association, .indication, .property, .reference, .method, .parameter, .any]

/-- The name of a scope in documents: its text in capitals. -/
def capitals (s : Scope) : String := String.ofList (s.text.toList.map Char.toUpper)

def ofCapitals? (name : String) : Option Scope := all.find? fun s => s.capitals == name

end Scope

def PropertyDecl.isKey (p : PropertyDecl) : Bool := p.qualifiers.flagged "Key"

namespace ClassDecl

def property? (c : ClassDecl) (name : String) : Option PropertyDecl :=
  c.properties.find? fun p => sameName p.name name

/-- Whether the class itself carries the association qualifier. -/
def isAssociation (c : ClassDecl) : Bool := c.qualifiers.flagged "Association"

def references (c : ClassDecl) : List PropertyDecl :=
  c.properties.filter fun p => p.referenceClass.isSome

/-- The class without qualifiers at any level. -/
def withoutQualifiers (c : ClassDecl) : ClassDecl :=
  { c with
    qualifiers := .empty
    properties := c.properties.map fun p => { p with qualifiers := .empty }
    methods := c.methods.map fun m =>
      { m with
        qualifiers := .empty
        parameters := m.parameters.map fun p => { p with qualifiers := .empty } } }

def withoutOrigins (c : ClassDecl) : ClassDecl :=
  { c with
    properties := c.properties.map fun p => { p with origin := none }
    methods := c.methods.map fun m => { m with origin := none } }

end ClassDecl

end CimConsole
