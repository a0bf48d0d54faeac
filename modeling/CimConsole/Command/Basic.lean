import CimConsole.Filter
import CimConsole.Subscription.Ownership
import CimConsole.Subscription.Identity

/-!
The commands, in groups by what they are about. Namespaces are given as comma lists, and
none given means the default that the command has.
-/
namespace CimConsole

/-- What is retrieved of classes. -/
structure Retrieval where
  localOnly : Bool := false
  noQualifiers : Bool := false
  origins : Bool := false
deriving DecidableEq, Repr

/-- What is shown of what is found: all, names, or how much it is. -/
structure Listing where
  namesOnly : Bool := false
  summary : Bool := false
deriving DecidableEq, Repr

inductive ClassCommand where
  | enumerate (start : Option String) (deep : Bool) (retrieval : Retrieval) (listing : Listing)
      (namespaces : List String) (filters : FilterOptions)
  | get (name : String) (retrieval : Retrieval) (namespaces : List String)
  | find (pattern : String) (namespaces : List String)
  | references (name : String) (filter : AssociationFilter) (listing : Listing)
      (namespaces : List String)
  | associators (name : String) (filter : AssociationFilter) (listing : Listing)
      (namespaces : List String)
  | tree (root space : Option String)
deriving DecidableEq, Repr

/-- An instance as a user names it: a path, a class with the bindings of its keys, or a
class followed by `.?` to choose among its instances. -/
structure InstanceName where
  text : String
  keys : List String := []
deriving DecidableEq, Repr

inductive InstanceCommand where
  | enumerate (className : String) (properties : List String) (listing : Listing)
      (namespaces : List String)
  | get (name : InstanceName) (properties : List String) (namespaces : List String)
  | create (className : String) (assignments : List String) (space : Option String)
  | delete (name : InstanceName) (space : Option String)
  | references (name : InstanceName) (filter : AssociationFilter) (listing : Listing)
      (namespaces : List String)
  | associators (name : InstanceName) (filter : AssociationFilter) (listing : Listing)
      (namespaces : List String)
  | count (pattern : String) (namespaces : List String)
deriving DecidableEq, Repr

inductive QualifierCommand where
  | enumerate (summary : Bool) (namespaces : List String)
  | get (name : String) (namespaces : List String)
deriving DecidableEq, Repr

inductive NamespaceCommand where
  | list (summary : Bool)
  | interop
deriving DecidableEq, Repr

/-- What a listing of endpoints or subscriptions shows. -/
structure OwnedListing where
  ownership : Ownership := .all
  listing : Listing := {}
deriving DecidableEq, Repr

inductive SubscriptionCommand where
  | addDestination (identity url : String) (owned : Bool)
  | addFilter (identity query language : String) (sources : List String) (owned : Bool)
  | addSubscription (destination filter : String) (owned select : Bool)
  | list (l : OwnedListing)
  | listEndpoints (kind : EndpointKind) (l : OwnedListing)
  | listSubscriptions (l : OwnedListing)
  | removeEndpoint (kind : EndpointKind) (identity : String) (select : Bool)
  | removeSubscription (destination filter : String) (associated select : Bool)
  | removeServer
deriving DecidableEq, Repr

inductive ConnectionCommand where
  | list
  | display (name : Option String)
  | save (name : String) (setDefault : Bool)
  | delete (name : Option String)
  | select (name : Option String)
  | test
deriving DecidableEq, Repr

inductive Command where
  | classes (c : ClassCommand)
  | instances (c : InstanceCommand)
  | qualifiers (c : QualifierCommand)
  | namespaces (c : NamespaceCommand)
  | subscriptions (manager : String) (c : SubscriptionCommand)
  | connections (c : ConnectionCommand)
  | shell
deriving DecidableEq, Repr

end CimConsole
