import CimConsole.Command.Basic
import CimConsole.Command.Run
import CimConsole.Subscription.Resolver

/-!
Commands about destinations, filters and subscriptions. What is listed is chosen by who
owns it.
-/
namespace CimConsole

open Text

/-- How many objects of a kind there are by who owns them. -/
structure OwnedCount where
  object : String
  owned : Nat
  permanent : Nat
deriving DecidableEq, Repr

namespace OwnedCount

def ofList (object : String) (owned : List Bool) : OwnedCount where
  object
  owned := owned.count true
  permanent := owned.count false

def all (c : OwnedCount) : Nat := c.owned + c.permanent

def pick (c : OwnedCount) : Ownership → Nat
  | .owned => c.owned
  | .permanent => c.permanent
  | .all => c.all

def document (c : OwnedCount) : Document :=
  .record [("object", .text c.object), ("owned", .whole c.owned),
    ("permanent", .whole c.permanent), ("all", .whole c.all)]

def row (c : OwnedCount) : List String :=
  [c.object, toString c.owned, toString c.permanent, toString c.all]

end OwnedCount

namespace RemovedObjects

def document (r : RemovedObjects) : Document :=
  let paths (ps : List ObjectPath) : Document := .list (ps.map ObjectPath.document)
  .record [("subscriptions", paths r.subscriptions), ("filters", paths r.filters),
    ("destinations", paths r.destinations)]

/-- What was removed, one line for each object. -/
def text (r : RemovedObjects) (console : Console) : String :=
  let lines (label : String) (ps : List ObjectPath) : String :=
    join "" (ps.map fun p => console.success ("Removed " ++ label ++ " " ++ p.display))
  if console.format.isMachine then console.value r.document
  else
    lines "subscription" r.subscriptions ++ lines "filter" r.filters
      ++ lines "destination" r.destinations

end RemovedObjects

/-- The rows of a listing with the instances behind them. -/
structure InstanceTable where
  headers : List String
  rows : List (List String)
  instances : List Instance

namespace InstanceTable

/-- The property that shows what an endpoint is. -/
def detailName : EndpointKind → String
  | .destination => "Destination"
  | .filter => "Query"

def ofEndpoints (kind : EndpointKind) (found : List EndpointListing) : InstanceTable where
  headers := ["Ownership", "Identity", "Name", detailName kind, "Subscriptions"]
  rows := found.map fun l =>
    [Ownership.label l.owned, l.identity, (l.stored.text? "Name").getD "",
      (l.stored.text? (detailName kind)).getD "", toString l.references]
  instances := found.map EndpointListing.stored

def endpointText (x : Option Instance) (name : String) : Option String := x.bind (·.text? name)

def ofSubscriptions (found : List SubscriptionListing) : InstanceTable where
  headers := ["Ownership", "Handler", "Destination", "Filter", "Query"]
  rows := found.map fun l =>
    [Ownership.label l.owned, (endpointText l.destination "Name").getD "<missing>",
      (endpointText l.destination "Destination").getD "",
      (endpointText l.filter "Name").getD "<missing>", (endpointText l.filter "Query").getD ""]
  instances := found.map SubscriptionListing.stored

/-- The listing as it is asked for. -/
def text (t : InstanceTable) (console : Console) (objectType : String) (listing : Listing) :
    String :=
  let paths := t.instances.filterMap Instance.path
  if listing.summary then
    Console.line (toString t.instances.length ++ " " ++ objectType ++ "(s) returned")
  else if listing.namesOnly then
    if console.format.isMachine then console.value (.list (paths.map ObjectPath.document))
    else Console.lines (paths.map ObjectPath.display)
  else
    match console.format with
    | .json | .yaml => console.value (.list (t.instances.map Instance.document))
    | .mof => Console.lines (t.instances.map Mof.ofInstance)
    | .table | .text => console.table t.headers t.rows

end InstanceTable

namespace SubscriptionCommand

/-- Runs an action on the server and keeps what becomes of the server. -/
def act {α : Type} (a : Action (StateM Context) α) : Run α := do
  let (s, _) ← Run.server
  let (result, s) ← ExceptT.lift (a.run.run s)
  Run.keep s
  match result with
  | .ok x => pure x
  | .error e => throw (.subscription e)

def ask {α : Type} (f : Server → Except ServerError α) : Run α := act (Action.query f)

/-- Tells that an object was added. -/
def addedText (console : Console) (objectType : String) (owned : Bool) (x : Instance) : String :=
  if console.format.isMachine then console.value x.document
  else
    console.success ("Added " ++ Ownership.label owned ++ " " ++ objectType ++ ": " ++ x.pathText)

/-- The numbers of all objects by who owns them. -/
def counts (mgr : Manager) : Run (List OwnedCount) := do
  let destinations ← ask (mgr.listEndpoints · .destination)
  let filters ← ask (mgr.listEndpoints · .filter)
  let subscriptions ← ask mgr.listSubscriptions
  pure [.ofList "destinations" (destinations.map (·.owned)),
    .ofList "filters" (filters.map (·.owned)),
    .ofList "subscriptions" (subscriptions.map (·.owned))]

def countsText (mgr : Manager) (console : Console) (l : OwnedListing) (cs : List OwnedCount) :
    String :=
  if console.format.isMachine then console.value (.list (cs.map OwnedCount.document))
  else if l.listing.summary then
    Console.lines (cs.map fun c => c.object ++ ": " ++ toString (c.pick l.ownership))
  else
    console.title ("Subscription manager " ++ mgr.id) (some ("interop namespace " ++ mgr.interop))
      ++ console.table ["Object", "Owned", "Permanent", "All"] (cs.map OwnedCount.row)

def permanentWarning : String :=
  "Both endpoints are permanent; the subscription was created as permanent "
    ++ "and is not removed by remove-server"

def runFor (mgr : Manager) (defaultSpace : String) (console : Console) :
    SubscriptionCommand → Run Unit
  | .addDestination identity url owned => do
    let x ← act (mgr.addDestination identity url owned)
    Run.write (addedText console EndpointKind.destination.text owned x)
  | .addFilter identity query language sources owned => do
    let sources := match listItems sources with
      | [] => [defaultSpace]
      | names => names
    let x ← act (mgr.addFilter identity ⟨query, language, sources⟩ owned)
    Run.write (addedText console EndpointKind.filter.text owned x)
  | .addSubscription destination filter owned select => do
    let x ← act (mgr.addSubscription Context.ask destination filter owned select)
    let isOwned := mgr.ownsSubscription x
    if owned && !isOwned then Run.complain (console.warning permanentWarning)
    Run.write (addedText console Subject.subscription.text isOwned x)
  | .list l => do
    let cs ← counts mgr
    Run.write (countsText mgr console l cs)
  | .listEndpoints kind l => do
    let found ← ask (mgr.listEndpoints · kind)
    let shown := found.filter fun e => l.ownership.includes e.owned
    Run.write ((InstanceTable.ofEndpoints kind shown).text console kind.text l.listing)
  | .listSubscriptions l => do
    let found ← ask mgr.listSubscriptions
    let shown := found.filter fun e => l.ownership.includes e.owned
    Run.write
      ((InstanceTable.ofSubscriptions shown).text console Subject.subscription.text l.listing)
  | .removeEndpoint kind identity select => do
    let path ← act (mgr.removeEndpoint Context.ask kind identity select)
    Run.write (console.success ("Removed " ++ kind.text ++ " " ++ path.display))
  | .removeSubscription destination filter associated select => do
    let removed ← act (mgr.removeSubscription Context.ask destination filter associated select)
    Run.write (removed.text console)
  | .removeServer => do
    let removed ← act mgr.removeServer
    Run.write
      (if removed.isEmpty then Console.line "No owned subscriptions, filters or destinations"
      else removed.text console)

def run (manager : String) (c : SubscriptionCommand) : Run Unit := do
  let (s, _) ← Run.server
  let mgr ← Run.during .attachManager (s.attach manager)
  runFor mgr s.defaultNamespace (← Run.console .table) c

end SubscriptionCommand

end CimConsole
