import CimConsole.Subscription.Action
import CimConsole.Target.Url

/-!
The rules of subscriptions. An identity that a user types is the full name of a permanent
endpoint or the label of an owned one. A permanent subscription joins permanent endpoints
only, an endpoint in use is not removed, and a subscription is found by its endpoints.
-/
namespace CimConsole

open Text

/-- An endpoint as it is listed, with how many subscriptions refer to it. -/
structure EndpointListing where
  stored : Instance
  owned : Bool
  identity : String
  references : Nat

/-- A subscription as it is listed, with the endpoints that still exist. -/
structure SubscriptionListing where
  stored : Instance
  owned : Bool
  destination : Option Instance
  filter : Option Instance

/-- The paths of what an action removed. -/
structure RemovedObjects where
  subscriptions : List ObjectPath := []
  filters : List ObjectPath := []
  destinations : List ObjectPath := []

namespace RemovedObjects

def isEmpty (r : RemovedObjects) : Bool :=
  r.subscriptions.isEmpty && r.filters.isEmpty && r.destinations.isEmpty

def addEndpoint (r : RemovedObjects) (kind : EndpointKind) (path : ObjectPath) : RemovedObjects :=
  match kind with
  | .destination => { r with destinations := r.destinations ++ [path] }
  | .filter => { r with filters := r.filters ++ [path] }

end RemovedObjects

/-- Whether a subscription refers to an endpoint in the role of its kind. -/
def refersTo (kind : EndpointKind) (endpoint subscription : Instance) : Bool :=
  match subscription.path? kind.role, endpoint.path with
  | some r, some p => r.same p
  | _, _ => false

/-- How an endpoint is named among candidates. -/
def Instance.pathText (x : Instance) : String :=
  match x.path with
  | some p => p.display
  | none => x.className

namespace Manager

/-- A subscription on one line: who owns it and the paths of its endpoints. -/
def summary (mgr : Manager) (subscription : Instance) : String :=
  let endpoint (kind : EndpointKind) : String :=
    match subscription.path? kind.role with
    | some p => p.display
    | none => "<missing>"
  "(" ++ (if mgr.ownsSubscription subscription then "owned" else "permanent") ++ ", "
    ++ endpoint .destination ++ ", " ++ endpoint .filter ++ ")"

/-- The endpoints of a kind that an identity means, the permanent ones first. A full owned
name means owned endpoints only. -/
def matching (mgr : Manager) (kind : EndpointKind) (identity : String) (all : List Instance) :
    List Instance :=
  let start := ownedStart kind mgr.id
  if (dropStart? start identity).isSome then
    all.filter fun x => x.endpointName == identity && mgr.owns kind x
  else
    let found := all.filter fun x =>
      x.endpointName == identity || x.endpointName == start ++ identity
    found.filter (!mgr.owns kind ·) ++ found.filter (mgr.owns kind ·)

def findByIdentity (mgr : Manager) (s : Server) (kind : EndpointKind) (identity : String) :
    Except ServerError (List Instance) := do
  let all ← mgr.endpoints s kind
  pure (mgr.matching kind identity all)

variable {m : Type → Type} [Monad m]

/-- One of the candidates: the only one, or the one that the user chooses if asked to. -/
def single (chooser : Chooser m) (subject : Subject) (identity : String) (select : Bool)
    (describe : Instance → String) (candidates : List Instance) : Action m Instance := do
  match candidates with
  | [] => throw (.notFound subject identity)
  | [x] => pure x
  | _ =>
    let choices := candidates.map describe
    if !select then throw (.ambiguous subject identity choices)
    else
      let prompt := "Select a " ++ subject.text ++ " for identity '" ++ identity ++ "'"
      match (← Action.choose chooser prompt choices).bind fun i => candidates[i]? with
      | some x => pure x
      | none => throw (.selectionCancelled subject)

def resolveSingle (chooser : Chooser m) (kind : EndpointKind) (identity : String)
    (select : Bool) (candidates : List Instance) : Action m Instance :=
  single chooser (.endpoint kind) identity select Instance.pathText candidates

def resolveIdentity (mgr : Manager) (chooser : Chooser m) (kind : EndpointKind)
    (identity : String) (select : Bool) : Action m Instance := do
  let candidates ← Action.query fun s => mgr.findByIdentity s kind identity
  resolveSingle chooser kind identity select candidates

/-- The name for a new owned endpoint. -/
def newOwnedName (mgr : Manager) (kind : EndpointKind) (identity : String)
    (existing : List Instance) : Except SubscriptionError String :=
  match OwnedName.ofParts kind mgr.id identity with
  | .error e => .error (.badIdentity e)
  | .ok o =>
    if existing.any fun x => x.endpointName == o.name then .error (.duplicateOwned kind identity)
    else .ok o.name

/-- The name for a new permanent endpoint. -/
def newPermanentName (mgr : Manager) (kind : EndpointKind) (identity : String)
    (existing : List Instance) : Except SubscriptionError String :=
  let start := ownedStart kind mgr.id
  if identity == "" then .error (.badIdentity (.empty kind))
  else if (dropStart? start identity).isSome then
    .error (.badIdentity (.reservedStart kind identity start))
  else if existing.any fun x => !mgr.owns kind x && x.endpointName == identity then
    .error (.duplicatePermanent kind identity)
  else .ok identity

def newName (mgr : Manager) (kind : EndpointKind) (identity : String) (owned : Bool) :
    Action m String := do
  let existing ← Action.query fun s => mgr.endpoints s kind
  if owned then liftExcept (mgr.newOwnedName kind identity existing)
  else liftExcept (mgr.newPermanentName kind identity existing)
where
  liftExcept : Except SubscriptionError String → Action m String
    | .ok name => pure name
    | .error e => throw e

def addDestination (mgr : Manager) (identity url : String) (owned : Bool) : Action m Instance := do
  match Url.listenerUrl? url with
  | none => throw (.invalidListenerUrl url)
  | some normal =>
    let name ← mgr.newName .destination identity owned
    mgr.create (mgr.destination name normal owned)

def addFilter (mgr : Manager) (identity : String) (query : Query) (owned : Bool) :
    Action m Instance := do
  let name ← mgr.newName .filter identity owned
  mgr.create (mgr.filter name query)

/-- Joins a destination and a filter. -/
def addSubscription (mgr : Manager) (chooser : Chooser m) (destination filter : String)
    (owned select : Bool) : Action m Instance := do
  let d ← mgr.resolveIdentity chooser .destination destination select
  let f ← mgr.resolveIdentity chooser .filter filter select
  if !owned && (mgr.owns .destination d || mgr.owns .filter f) then
    throw (.ownershipViolation d.endpointName f.endpointName)
  else
    match d.path, f.path with
    | some dp, some fp => mgr.create (subscription dp fp)
    | _, _ => throw (.server (.model "endpoint instance returned without a path"))

/-- Removes an endpoint that no subscription refers to. -/
def removeEndpoint (mgr : Manager) (chooser : Chooser m) (kind : EndpointKind)
    (identity : String) (select : Bool) : Action m ObjectPath := do
  let target ← mgr.resolveIdentity chooser kind identity select
  let subscriptions ← Action.query mgr.subscriptions
  let count := (subscriptions.filter (refersTo kind target)).length
  if 0 < count then throw (.inUse kind target.endpointName count)
  else
    match target.path with
    | none => throw (.server (.model (kind.text ++ " instance returned without a path")))
    | some path =>
      mgr.delete path
      pure path

/-- Removes an endpoint that no remaining subscription refers to and notes its path. -/
def removeUnused (mgr : Manager) (remaining : List Instance) (kind : EndpointKind)
    (endpoint : Instance) (removed : RemovedObjects) : Action m RemovedObjects := do
  if remaining.any (refersTo kind endpoint) then pure removed
  else
    match endpoint.path with
    | none => pure removed
    | some path =>
      mgr.delete path
      pure (removed.addEndpoint kind path)

/-- Removes the subscription of two endpoints and, if asked to, those of them that no other
subscription refers to. -/
def removeSubscription (mgr : Manager) (chooser : Chooser m) (destination filter : String)
    (associated select : Bool) : Action m RemovedObjects := do
  let d ← mgr.resolveIdentity chooser .destination destination select
  let f ← mgr.resolveIdentity chooser .filter filter select
  let all ← Action.query mgr.subscriptions
  let found := all.filter fun x => refersTo .destination d x && refersTo .filter f x
  if found.isEmpty then throw (.subscriptionNotFound d.endpointName f.endpointName)
  else
    let x ← single chooser .subscription destination select mgr.summary found
    let removed ← match x.path with
      | none => pure {}
      | some path => do
        mgr.delete path
        pure { subscriptions := [path] }
    if !associated then pure removed
    else
      let remaining ← Action.query mgr.subscriptions
      let removed ← mgr.removeUnused remaining .destination d removed
      mgr.removeUnused remaining .filter f removed

/-- Removes the owned subscriptions of a list. -/
def removeOwnedSubscriptions (mgr : Manager) : List Instance → RemovedObjects →
    Action m RemovedObjects
  | [], removed => pure removed
  | x :: rest, removed => do
    match mgr.ownsSubscription x, x.path with
    | true, some path =>
      mgr.delete path
      mgr.removeOwnedSubscriptions rest
        { removed with subscriptions := removed.subscriptions ++ [path] }
    | _, _ => mgr.removeOwnedSubscriptions rest removed

/-- Removes the owned endpoints of a list that no remaining subscription refers to. -/
def removeOwnedEndpoints (mgr : Manager) (remaining : List Instance) (kind : EndpointKind) :
    List Instance → RemovedObjects → Action m RemovedObjects
  | [], removed => pure removed
  | x :: rest, removed => do
    let removed ← if mgr.owns kind x then mgr.removeUnused remaining kind x removed else pure removed
    mgr.removeOwnedEndpoints remaining kind rest removed

/-- Removes everything that the manager owns. -/
def removeServer (mgr : Manager) : Action m RemovedObjects := do
  let all ← Action.query mgr.subscriptions
  let removed ← mgr.removeOwnedSubscriptions all {}
  let remaining ← Action.query mgr.subscriptions
  let filters ← Action.query fun s => mgr.endpoints s .filter
  let removed ← mgr.removeOwnedEndpoints remaining .filter filters removed
  let destinations ← Action.query fun s => mgr.endpoints s .destination
  mgr.removeOwnedEndpoints remaining .destination destinations removed

def listEndpoints (mgr : Manager) (s : Server) (kind : EndpointKind) :
    Except ServerError (List EndpointListing) := do
  let subscriptions ← mgr.subscriptions s
  let all ← mgr.endpoints s kind
  pure (all.map fun x =>
    let identity := mgr.classify kind x.endpointName
    { stored := x
      owned := identity.isOwned
      identity := identity.typed
      references := (subscriptions.filter (refersTo kind x)).length })

/-- The endpoint of a subscription in one role, if it is there. -/
def endpointOf (mgr : Manager) (s : Server) (kind : EndpointKind) (subscription : Instance) :
    Except ServerError (Option Instance) :=
  match subscription.path? kind.role with
  | some p => mgr.resolve s p
  | none => .ok none

def listSubscriptions (mgr : Manager) (s : Server) :
    Except ServerError (List SubscriptionListing) := do
  let all ← mgr.subscriptions s
  all.mapM fun x => do
    let destination ← mgr.endpointOf s .destination x
    let filter ← mgr.endpointOf s .filter x
    pure { stored := x, owned := mgr.ownsSubscription x, destination, filter }

end Manager

end CimConsole
