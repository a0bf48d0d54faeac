import CimConsole.Subscription.Store

/-!
Actions on the subscriptions of a server. An action keeps the server as its state, also
when it fails, and may ask the user to choose among candidates; how the user is asked is
left to the monad below.
-/
namespace CimConsole

open Text

/-- What an action is about. -/
inductive Subject where
  | endpoint (kind : EndpointKind)
  | subscription
deriving DecidableEq, Repr

def Subject.text : Subject → String
  | .endpoint kind => kind.text
  | .subscription => "subscription"

inductive SubscriptionError where
  | server (e : ServerError)
  | badIdentity (e : IdentityError)
  | notFound (subject : Subject) (identity : String)
  | ambiguous (subject : Subject) (identity : String) (candidates : List String)
  | selectionCancelled (subject : Subject)
  | ownershipViolation (destination filter : String)
  | duplicatePermanent (kind : EndpointKind) (name : String)
  | duplicateOwned (kind : EndpointKind) (identity : String)
  | inUse (kind : EndpointKind) (name : String) (count : Nat)
  | subscriptionNotFound (destination filter : String)
  | invalidListenerUrl (url : String)
deriving DecidableEq, Repr

def SubscriptionError.message : SubscriptionError → String
  | .server e => e.message
  | .badIdentity e => e.message
  | .notFound subject identity =>
    "no " ++ subject.text ++ " found for identity '" ++ identity ++ "'"
  | .ambiguous subject identity candidates =>
    "identity '" ++ identity ++ "' matches " ++ toString candidates.length ++ " " ++ subject.text
      ++ "s; use --select to choose one of:\n  " ++ join "\n  " candidates
  | .selectionCancelled subject => subject.text ++ " selection cancelled"
  | .ownershipViolation destination filter =>
    "permanent subscription cannot reference owned objects: destination Name '" ++ destination
      ++ "', filter Name '" ++ filter ++ "'"
  | .duplicatePermanent kind name =>
    "permanent " ++ kind.text ++ " with Name '" ++ name ++ "' already exists"
  | .duplicateOwned kind identity => "owned " ++ kind.text ++ " '" ++ identity ++ "' already exists"
  | .inUse kind name count =>
    kind.text ++ " '" ++ name ++ "' is referenced by " ++ toString count ++ " subscription(s)"
  | .subscriptionNotFound destination filter =>
    "no subscription with destination '" ++ destination ++ "' and filter '" ++ filter ++ "'"
  | .invalidListenerUrl url =>
    "invalid listener URL '" ++ url ++ "' (expected [http|https://]host[:port])"

/-- Asks the user to choose: a prompt, the choices, and the place of the one taken. -/
abbrev Chooser (m : Type → Type) := String → List String → m (Option Nat)

abbrev Action (m : Type → Type) := ExceptT SubscriptionError (StateT Server m)

namespace Action

variable {m : Type → Type} [Monad m] {α : Type}

/-- Asks the server. -/
def query (f : Server → Except ServerError α) : Action m α := do
  match f (← get) with
  | .ok a => pure a
  | .error e => throw (.server e)

/-- Changes the server. -/
def change (f : Server → Except ServerError (α × Server)) : Action m α := do
  match f (← get) with
  | .ok (a, s) =>
    set s
    pure a
  | .error e => throw (.server e)

/-- Asks the user. -/
def choose (chooser : Chooser m) (prompt : String) (choices : List String) :
    Action m (Option Nat) :=
  ExceptT.lift (StateT.lift (chooser prompt choices))

end Action

namespace Manager

variable {m : Type → Type} [Monad m]

/-- Stores an instance and reads it back. -/
def create (mgr : Manager) (x : Instance) : Action m Instance := do
  let path ← Action.change fun s => s.create mgr.interop x
  Action.query fun s => s.get mgr.interop path none

def delete (mgr : Manager) (path : ObjectPath) : Action m Unit :=
  Action.change fun s => (s.delete mgr.interop path).map fun s => ((), s)

end Manager

end CimConsole
