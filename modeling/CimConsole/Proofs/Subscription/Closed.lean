import CimConsole.Proofs.Subscription.Rules
import CimConsole.Subscription.Resolver

/-!
What the operations of a manager are made of. They ask the server and the user, and change the
server only where they create or delete an instance. A property of actions that those steps have,
and whatever is put together from actions that have it, is a property of all operations.
-/
namespace CimConsole

namespace Action

variable {σ : Type}

/-- A property of whatever is put together from actions with it and changes nothing itself. -/
structure Closed (chooser : Chooser (StateM σ)) (C : (α : Type) → Action (StateM σ) α → Prop) :
    Prop where
  pure : ∀ {α : Type} (x : α), C α (Pure.pure x)
  throw : ∀ {α : Type} (e : SubscriptionError), C α (MonadExcept.throw e)
  query : ∀ {α : Type} (f : Server → Except ServerError α), C α (Action.query f)
  choose : ∀ prompt choices, C (Option Nat) (Action.choose chooser prompt choices)
  bind : ∀ {α β : Type} {a : Action (StateM σ) α} {f : α → Action (StateM σ) β},
    C α a → (∀ x, C β (f x)) → C β (a >>= f)

theorem Preserves.closed (I : Server → Prop) (chooser : Chooser (StateM σ)) :
    Closed chooser fun _ a => Preserves I a where
  pure := Preserves.pure
  throw := Preserves.throw
  query := Preserves.query
  choose _ _ := Ensures.choose fun _ _ hs => hs
  bind := Preserves.bind

/-- The action keeps what holds of the user, whether it succeeds or fails. -/
def KeepsUser (U : σ → Prop) {α : Type} (a : Action (StateM σ) α) : Prop :=
  ∀ s user, U user → U (outcome a s user).2

namespace KeepsUser

variable {α β : Type} {U : σ → Prop}

theorem bind {a : Action (StateM σ) α} {f : α → Action (StateM σ) β} (ha : KeepsUser U a)
    (hf : ∀ x, KeepsUser U (f x)) : KeepsUser U (a >>= f) := by
  intro s user huser
  have hfirst := ha s user huser
  rw [outcome_bind]
  cases h : outcome a s user with
  | mk result user' =>
    obtain ⟨r, t⟩ := result
    rw [h] at hfirst
    cases r with
    | ok x => exact hf x t user' hfirst
    | error e => exact hfirst

theorem query (f : Server → Except ServerError α) :
    KeepsUser U (Action.query f : Action (StateM σ) α) := by
  intro s user huser
  rw [outcome_query]
  cases f s <;> exact huser

theorem change (f : Server → Except ServerError (α × Server)) :
    KeepsUser U (Action.change f : Action (StateM σ) α) := by
  intro s user huser
  rw [outcome_change]
  cases f s <;> exact huser

/-- Only the way in which the user is asked matters. -/
theorem closed {chooser : Chooser (StateM σ)}
    (hask : ∀ prompt choices user, U user → U ((chooser prompt choices).run user).2) :
    Closed chooser fun _ a => KeepsUser U a where
  pure _ _ _ huser := huser
  throw _ _ _ huser := huser
  query := query
  choose prompt choices _ user huser := hask prompt choices user huser
  bind := bind

end KeepsUser

end Action

namespace Manager

open CimConsole.Action (Closed)

variable {σ : Type} {mgr : Manager} {chooser : Chooser (StateM σ)}
  {C : (α : Type) → Action (StateM σ) α → Prop} (hC : Closed chooser C)

section Reading

variable {kind : EndpointKind} {identity : String} {select : Bool}

include hC

theorem closed_single {subject : Subject} {describe : Instance → String}
    {candidates : List Instance} :
    C Instance (single chooser subject identity select describe candidates) := by
  unfold single
  split
  · exact hC.throw _
  · exact hC.pure _
  · dsimp only
    split
    · exact hC.throw _
    · refine hC.bind (hC.choose _ _) fun i => ?_
      split
      · exact hC.pure _
      · exact hC.throw _

theorem closed_resolveIdentity :
    C Instance (mgr.resolveIdentity chooser kind identity select) :=
  hC.bind (hC.query _) fun _ => closed_single hC

theorem closed_newName {owned : Bool} : C String (mgr.newName kind identity owned) := by
  have hlift : ∀ answer : Except SubscriptionError String, C String (newName.liftExcept answer) := by
    intro answer
    cases answer with
    | ok name => exact hC.pure name
    | error e => exact hC.throw e
  refine hC.bind (hC.query _) fun existing => ?_
  split
  · exact hlift _
  · exact hlift _

end Reading

section Adding

include hC

theorem closed_addDestination (hcreate : ∀ x, C Instance (mgr.create x)) {identity url : String}
    {owned : Bool} : C Instance (mgr.addDestination identity url owned) := by
  unfold addDestination
  split
  · exact hC.throw _
  · exact hC.bind (closed_newName hC) fun name => hcreate _

theorem closed_addFilter (hcreate : ∀ x, C Instance (mgr.create x)) {identity : String}
    {query : Query} {owned : Bool} : C Instance (mgr.addFilter identity query owned) :=
  hC.bind (closed_newName hC) fun _ => hcreate _

theorem closed_addSubscription (hcreate : ∀ dp fp, C Instance (mgr.create (subscription dp fp)))
    {destination filter : String} {owned select : Bool} :
    C Instance (mgr.addSubscription chooser destination filter owned select) := by
  refine hC.bind (closed_resolveIdentity hC) fun d => hC.bind (closed_resolveIdentity hC) fun f => ?_
  split
  · exact hC.throw _
  split
  · exact hcreate _ _
  · exact hC.throw _

end Adding

section Loops

/-! Only the paths of what these remove have to be looked at. -/

include hC

theorem closed_removeUnused (remaining : List Instance) (kind : EndpointKind) (e : Instance)
    (removed : RemovedObjects) (hdelete : ∀ p, e.path = some p → C Unit (mgr.delete p)) :
    C RemovedObjects (mgr.removeUnused remaining kind e removed) := by
  unfold removeUnused
  split
  · exact hC.pure _
  split
  · exact hC.pure _
  · next p hp => exact hC.bind (hdelete p hp) fun _ => hC.pure _

theorem closed_removeOwnedSubscriptions {xs : List Instance} {removed : RemovedObjects}
    (hdelete : ∀ x ∈ xs, mgr.ownsSubscription x = true → ∀ p, x.path = some p →
      C Unit (mgr.delete p)) :
    C RemovedObjects (mgr.removeOwnedSubscriptions xs removed) := by
  induction xs generalizing removed with
  | nil => exact hC.pure removed
  | cons x rest ih =>
    have hrest : ∀ removed, C RemovedObjects (mgr.removeOwnedSubscriptions rest removed) :=
      fun _ => ih fun y hy => hdelete y (List.mem_cons_of_mem _ hy)
    rw [removeOwnedSubscriptions]
    split
    · next p howned hp =>
      exact hC.bind (hdelete x List.mem_cons_self howned p hp) fun _ => hrest _
    · exact hrest removed

theorem closed_removeOwnedEndpoints {remaining xs : List Instance} {kind : EndpointKind}
    {removed : RemovedObjects}
    (hdelete : ∀ x ∈ xs, mgr.owns kind x = true → ∀ p, x.path = some p → C Unit (mgr.delete p)) :
    C RemovedObjects (mgr.removeOwnedEndpoints remaining kind xs removed) := by
  induction xs generalizing removed with
  | nil => exact hC.pure removed
  | cons x rest ih =>
    have hrest : ∀ removed,
        C RemovedObjects (mgr.removeOwnedEndpoints remaining kind rest removed) :=
      fun _ => ih fun y hy => hdelete y (List.mem_cons_of_mem _ hy)
    rw [removeOwnedEndpoints]
    split
    · next howned =>
      exact hC.bind (closed_removeUnused hC remaining kind x removed
        (hdelete x List.mem_cons_self howned)) hrest
    · exact hC.bind (hC.pure removed) hrest

end Loops

section Removing

variable {identity : String} {select : Bool} (hdelete : ∀ p, C Unit (mgr.delete p))

include hC hdelete

theorem closed_removeEndpoint {kind : EndpointKind} :
    C ObjectPath (mgr.removeEndpoint chooser kind identity select) := by
  refine hC.bind (closed_resolveIdentity hC) fun target => hC.bind (hC.query _) fun all => ?_
  dsimp only
  split
  · exact hC.throw _
  split
  · exact hC.throw _
  · exact hC.bind (hdelete _) fun _ => hC.pure _

theorem closed_removeSubscription {destination filter : String} {associated : Bool} :
    C RemovedObjects (mgr.removeSubscription chooser destination filter associated select) := by
  refine hC.bind (closed_resolveIdentity hC) fun d => hC.bind (closed_resolveIdentity hC) fun f => ?_
  refine hC.bind (hC.query _) fun all => ?_
  dsimp only
  split
  · exact hC.throw _
  have hassociated : ∀ removed : RemovedObjects, C RemovedObjects
      (if !associated then pure removed
      else do
        let remaining ← Action.query mgr.subscriptions
        let removed ← mgr.removeUnused remaining .destination d removed
        mgr.removeUnused remaining .filter f removed) := by
    intro removed
    split
    · exact hC.pure _
    · exact hC.bind (hC.query _) fun remaining =>
        hC.bind (closed_removeUnused hC remaining .destination d removed fun p _ => hdelete p)
          fun removed => closed_removeUnused hC remaining .filter f removed fun p _ => hdelete p
  refine hC.bind (closed_single hC) fun x => ?_
  split
  · exact hC.bind (hC.pure _) hassociated
  · exact hC.bind (hdelete _) fun _ => hC.bind (hC.pure _) hassociated

theorem closed_removeServer : C RemovedObjects mgr.removeServer := by
  have hsubscriptions : ∀ (xs : List Instance) (removed : RemovedObjects),
      C RemovedObjects (mgr.removeOwnedSubscriptions xs removed) :=
    fun xs _ => closed_removeOwnedSubscriptions hC fun x _ _ p _ => hdelete p
  have hendpoints : ∀ (remaining : List Instance) (kind : EndpointKind) (xs : List Instance)
      (removed : RemovedObjects),
      C RemovedObjects (mgr.removeOwnedEndpoints remaining kind xs removed) :=
    fun remaining kind xs _ => closed_removeOwnedEndpoints hC fun x _ _ p _ => hdelete p
  refine hC.bind (hC.query _) fun all => hC.bind (hsubscriptions all _) fun removed => ?_
  refine hC.bind (hC.query _) fun remaining => hC.bind (hC.query _) fun filters => ?_
  refine hC.bind (hendpoints remaining .filter filters removed) fun removed => ?_
  exact hC.bind (hC.query _) fun destinations => hendpoints remaining .destination _ removed

end Removing

end Manager

end CimConsole
