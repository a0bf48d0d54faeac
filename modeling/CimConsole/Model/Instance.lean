import CimConsole.Model.Value

/-!
Instances: a class name, the values of properties, and the path once the instance has
one. A property may be present without a value.
-/
namespace CimConsole

open Text

structure Instance where
  className : String
  path : Option ObjectPath := none
  properties : NameTable (Option Value) := .empty
deriving Inhabited

namespace Instance

/-- The value of a property; none also if the property is present without a value. -/
def get? (x : Instance) (name : String) : Option Value := (x.properties.find? name).join

def text? (x : Instance) (name : String) : Option String := (x.get? name).bind Value.text?

def path? (x : Instance) (name : String) : Option ObjectPath := (x.get? name).bind Value.path?

/-- Sets a property under the spelling that it already has. -/
def set (x : Instance) (name : String) (value : Option Value) : Instance :=
  { x with properties := x.properties.insert ((x.properties.spelling? name).getD name) value }

def withProperty (x : Instance) (name : String) (value : Value) : Instance :=
  x.set name (some value)

/-- The instance with no properties but the named ones. -/
def retain (x : Instance) (names : List String) : Instance :=
  { x with properties := x.properties.filter fun k _ => names.any fun n => sameName n k }

end Instance

end CimConsole
