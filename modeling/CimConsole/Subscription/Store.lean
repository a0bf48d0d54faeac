import CimConsole.Server.Basic
import CimConsole.Subscription.Identity

/-!
The destinations, filters and subscriptions of a server, which are instances in its
interop namespace, as one manager of subscriptions sees them.
-/
namespace CimConsole

/-- A manager of subscriptions attached to a server. -/
structure Manager where
  id : String
  interop : String
  serverUrl : String
deriving DecidableEq, Repr

/-- Attaches a manager; the server needs an interop namespace. -/
def Server.attach (s : Server) (id : String) : Except ServerError Manager :=
  s.interop.map fun interop => { id, interop, serverUrl := s.url }

/-- The name of an endpoint, empty if it has none that is a text. -/
def Instance.endpointName (x : Instance) : String := (x.text? "Name").getD ""

namespace Manager

def classify (m : Manager) (kind : EndpointKind) (name : String) : Identity :=
  Identity.classify kind m.id name

def owns (m : Manager) (kind : EndpointKind) (x : Instance) : Bool :=
  (x.text? "Name").any fun name => (m.classify kind name).isOwned

/-- Whether the endpoint that a subscription refers to is owned, by the name in the path. -/
def ownsEnd (m : Manager) (kind : EndpointKind) (subscription : Instance) : Bool :=
  (((subscription.path? kind.role).bind fun p => p.key? "Name").bind Value.text?).any
    fun name => (m.classify kind name).isOwned

/-- A subscription is owned if its destination or its filter is. -/
def ownsSubscription (m : Manager) (subscription : Instance) : Bool :=
  m.ownsEnd .destination subscription || m.ownsEnd .filter subscription

def endpoints (m : Manager) (s : Server) (kind : EndpointKind) : Except ServerError (List Instance) :=
  s.instances m.interop kind.className none

def subscriptions (m : Manager) (s : Server) : Except ServerError (List Instance) :=
  s.instances m.interop subscriptionClass none

/-- The instance that a reference points to, if it exists. -/
def resolve (m : Manager) (s : Server) (path : ObjectPath) : Except ServerError (Option Instance) :=
  match s.get m.interop path none with
  | .ok x => .ok (some x)
  | .error e => if e.isRecoverable then .ok none else .error e

/-- An instance without anything but the keys that name its system. -/
def systemInstance (m : Manager) (className : String) : Instance :=
  (((({ className } : Instance).withProperty "SystemCreationClassName"
    (.text "CIM_ComputerSystem")).withProperty "SystemName" (.text m.serverUrl)).withProperty
      "CreationClassName" (.text className))

/-- A listener destination; owned ones do not outlive the server's run. -/
def destination (m : Manager) (name url : String) (owned : Bool) : Instance :=
  (((m.systemInstance EndpointKind.destination.className).withProperty "Name" (.text name)
    |>.withProperty "Destination" (.text url))
    |>.withProperty "PersistenceType" (.integer (if owned then 3 else 2)))
    |>.withProperty "Protocol" (.integer 2)

/-- What an indication filter selects. -/
structure Query where
  text : String
  language : String
  namespaces : List String
deriving DecidableEq, Repr

def filter (m : Manager) (name : String) (query : Query) : Instance :=
  ((((m.systemInstance EndpointKind.filter.className).withProperty "Name" (.text name)
    |>.withProperty "Query" (.text query.text))
    |>.withProperty "QueryLanguage" (.text query.language))
    |>.withProperty "SourceNamespaces" (.array (query.namespaces.map .text)))
    |>.withProperty "IndividualSubscriptionSupported" (.boolean true)

def subscription (destination filter : ObjectPath) : Instance :=
  (((((({ className := subscriptionClass } : Instance).withProperty "Filter" (.reference filter))
    |>.withProperty "Handler" (.reference destination))
    |>.withProperty "OnFatalErrorPolicy" (.integer 2))
    |>.withProperty "FailureTriggerTimeInterval" (.integer 60))
    |>.withProperty "SubscriptionState" (.integer 2))
    |>.withProperty "RepeatNotificationPolicy" (.integer 2)

end Manager

end CimConsole
