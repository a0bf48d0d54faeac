import CimConsole.Text.Pieces

/-!
Names of listener destinations and indication filters. A manager of subscriptions marks
what it owns by a name made of the kind, its own id and a label, with colons between
them. Ids and labels hold no colon, so an owned name tells its manager. Every other name
is permanent.
-/
namespace CimConsole

open Text

/-- What a subscription joins. -/
inductive EndpointKind where
  | destination
  | filter
deriving DecidableEq, Repr

namespace EndpointKind

def text : EndpointKind → String
  | .destination => "destination"
  | .filter => "filter"

def className : EndpointKind → String
  | .destination => "CIM_ListenerDestinationCIMXML"
  | .filter => "CIM_IndicationFilter"

/-- The property of a subscription that refers to an endpoint of this kind. -/
def role : EndpointKind → String
  | .destination => "Handler"
  | .filter => "Filter"

end EndpointKind

def subscriptionClass : String := "CIM_IndicationSubscription"

/-- The id of a manager when none is given. -/
def defaultManagerId : String := "defaultpywbemcliSubMgr"

inductive IdentityError where
  | empty (kind : EndpointKind)
  | containsColon (kind : EndpointKind) (identity : String)
  | invalidManagerId (id : String)
  | reservedStart (kind : EndpointKind) (name ownedStart : String)
deriving DecidableEq, Repr

def IdentityError.message : IdentityError → String
  | .empty kind => kind.text ++ " identity must not be empty"
  | .containsColon kind identity =>
    "owned " ++ kind.text ++ " identity '" ++ identity ++ "' must not contain ':'"
  | .invalidManagerId id =>
    "subscription manager id '" ++ id ++ "' must be non-empty and must not contain ':'"
  | .reservedStart kind name ownedStart =>
    "permanent " ++ kind.text ++ " Name '" ++ name ++ "' uses the reserved owned prefix '"
      ++ ownedStart ++ "'"

/-- How every owned name of a kind starts for one manager. -/
def ownedStart (kind : EndpointKind) (manager : String) : String :=
  "pywbem" ++ kind.text ++ ":" ++ manager ++ ":"

/-- A text that can stand between the colons of an owned name. -/
def isNamePart (s : String) : Bool := s ≠ "" && !s.toList.contains ':'

structure OwnedName where
  kind : EndpointKind
  manager : String
  label : String
  manager_isNamePart : isNamePart manager = true
  label_isNamePart : isNamePart label = true
deriving DecidableEq

namespace OwnedName

def ofParts (kind : EndpointKind) (manager label : String) : Except IdentityError OwnedName :=
  if hm : isNamePart manager then
    if hl : isNamePart label then .ok ⟨kind, manager, label, hm, hl⟩
    else if label = "" then .error (.empty kind)
    else .error (.containsColon kind label)
  else .error (.invalidManagerId manager)

def name (o : OwnedName) : String := ownedStart o.kind o.manager ++ o.label

/-- The owned name of this kind and manager that a text is. -/
def ofName? (kind : EndpointKind) (manager name : String) : Option OwnedName :=
  (dropStart? (ownedStart kind manager) name).bind fun label => (ofParts kind manager label).toOption

end OwnedName

/-- What the name of an endpoint is for one manager. -/
inductive Identity where
  | owned (o : OwnedName)
  | permanent (name : String)
deriving DecidableEq

namespace Identity

def classify (kind : EndpointKind) (manager name : String) : Identity :=
  match OwnedName.ofName? kind manager name with
  | some o => .owned o
  | none => .permanent name

def isOwned : Identity → Bool
  | .owned _ => true
  | .permanent _ => false

/-- What a user types for it: the label alone if it is owned. -/
def typed : Identity → String
  | .owned o => o.label
  | .permanent name => name

end Identity

end CimConsole
