/-!
Which endpoints and subscriptions a listing shows by who owns them.
-/
namespace CimConsole

inductive Ownership where
  | owned
  | permanent
  | all
deriving DecidableEq, Repr

namespace Ownership

def text : Ownership → String
  | .owned => "owned"
  | .permanent => "permanent"
  | .all => "all"

def ofText? (s : String) : Option Ownership := [owned, permanent, all].find? fun o => o.text == s

def includes (o : Ownership) (owned : Bool) : Bool :=
  match o with
  | .owned => owned
  | .permanent => !owned
  | .all => true

/-- What an object is called by whether it is owned. -/
def label (owned : Bool) : String := (if owned then Ownership.owned else .permanent).text

end Ownership

end CimConsole
