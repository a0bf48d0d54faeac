import CimConsole.Proofs.Subscription.Closed
import CimConsole.Proofs.Subscription.Operations

/-!
Referential integrity of subscriptions: whatever managers do to a server, one after the other,
every stored subscription keeps its destination and its filter.
-/
namespace CimConsole

open Text

/-- The operations of a manager that change a server. -/
inductive SubscriptionCall where
  | addDestination (identity url : String) (owned : Bool)
  | addFilter (identity : String) (query : Manager.Query) (owned : Bool)
  | addSubscription (destination filter : String) (owned select : Bool)
  | removeEndpoint (kind : EndpointKind) (identity : String) (select : Bool)
  | removeSubscription (destination filter : String) (associated select : Bool)
  | removeServer

namespace Manager

variable {σ : Type}

def perform (mgr : Manager) (chooser : Chooser (StateM σ)) :
    SubscriptionCall → Action (StateM σ) Unit
  | .addDestination identity url owned => do
    let _ ← mgr.addDestination identity url owned
  | .addFilter identity query owned => do
    let _ ← mgr.addFilter identity query owned
  | .addSubscription destination filter owned select => do
    let _ ← mgr.addSubscription chooser destination filter owned select
  | .removeEndpoint kind identity select => do
    let _ ← mgr.removeEndpoint chooser kind identity select
  | .removeSubscription destination filter associated select => do
    let _ ← mgr.removeSubscription chooser destination filter associated select
  | .removeServer => do
    let _ ← mgr.removeServer

theorem closed_perform {mgr : Manager} {chooser : Chooser (StateM σ)}
    {C : (α : Type) → Action (StateM σ) α → Prop} (hC : Action.Closed chooser C)
    (hcreate : ∀ x, C Instance (mgr.create x)) (hdelete : ∀ p, C Unit (mgr.delete p))
    (call : SubscriptionCall) : C Unit (mgr.perform chooser call) := by
  cases call with
  | addDestination identity url owned =>
    exact hC.bind (closed_addDestination hC hcreate) fun _ => hC.pure _
  | addFilter identity query owned =>
    exact hC.bind (closed_addFilter hC hcreate) fun _ => hC.pure _
  | addSubscription destination filter owned select =>
    exact hC.bind (closed_addSubscription hC fun _ _ => hcreate _) fun _ => hC.pure _
  | removeEndpoint kind identity select =>
    exact hC.bind (closed_removeEndpoint hC hdelete) fun _ => hC.pure _
  | removeSubscription destination filter associated select =>
    exact hC.bind (closed_removeSubscription hC hdelete) fun _ => hC.pure _
  | removeServer => exact hC.bind (closed_removeServer hC hdelete) fun _ => hC.pure _

theorem preserves_perform (mgr : Manager) (chooser : Chooser (StateM σ))
    (call : SubscriptionCall) :
    Action.Preserves (fun s => s.Sound mgr.interop) (mgr.perform chooser call) := by
  cases call with
  | addDestination identity url owned => exact preserves_addDestination.unit
  | addFilter identity query owned => exact preserves_addFilter.unit
  | addSubscription destination filter owned select => exact preserves_addSubscription.unit
  | removeEndpoint kind identity select => exact preserves_removeEndpoint.unit
  | removeSubscription destination filter associated select =>
    exact preserves_removeSubscription.unit
  | removeServer => exact preserves_removeServer.unit

section Keyed

variable {mgr : Manager} {interop : String}

theorem preserves_create_keyed (x : Instance) :
    Action.Preserves (fun s => s.interop = .ok interop ∧ s.Keyed)
      (mgr.create x : Action (StateM σ) Instance) := by
  apply ensures_create (fun s hs => hs)
  intro s own ns p hs hns hpath hfree
  constructor
  · rw [hns.interop_withNamespace, hs.1]
  · exact hs.2.withNamespace hns ((hs.2.of_holds hns).add hpath hfree)

theorem preserves_delete_keyed (p : ObjectPath) :
    Action.Preserves (fun s => s.interop = .ok interop ∧ s.Keyed)
      (mgr.delete p : Action (StateM σ) Unit) := by
  apply ensures_delete (fun s hs => hs)
  intro s own ns y hs hns hfound
  constructor
  · rw [hns.interop_withNamespace, hs.1]
  · exact hs.2.withNamespace hns ((hs.2.of_holds hns).sublist (Server.removeFirst_sublist _ _))

theorem preserves_perform_keyed (mgr : Manager) (chooser : Chooser (StateM σ))
    (call : SubscriptionCall) :
    Action.Preserves (fun s => s.interop = .ok interop ∧ s.Keyed) (mgr.perform chooser call) :=
  closed_perform (Action.Preserves.closed _ chooser) preserves_create_keyed
    preserves_delete_keyed call

end Keyed

end Manager

/-- One operation by the manager with this id, and how its user chooses. -/
structure ManagerStep (σ : Type) where
  manager : String
  chooser : Chooser (StateM σ)
  call : SubscriptionCall

namespace Server

variable {σ : Type}

/-- The namespace of this name is there and satisfies `φ`. -/
def At (s : Server) (name : String) (φ : Namespace → Prop) : Prop :=
  ∃ own ns, s.entry? name = some (own, ns) ∧ φ ns

instance (s : Server) (name : String) (φ : Namespace → Prop) [DecidablePred φ] :
    Decidable (s.At name φ) :=
  match h : s.entry? name with
  | none => .isFalse fun ⟨own, ns, hns, _⟩ => by simp [h] at hns
  | some (own, ns) =>
    decidable_of_iff (φ ns) ⟨fun hφ => ⟨own, ns, h, hφ⟩, fun ⟨own', ns', hns, hφ⟩ => by
      obtain ⟨-, rfl⟩ := Prod.mk.inj (Option.some.inj (h.symm.trans hns))
      exact hφ⟩

/-- The server and the user behind a step. A server without an interop namespace takes none. -/
def afterStep (state : Server × σ) (step : ManagerStep σ) : Server × σ :=
  match state.1.attach step.manager with
  | .error _ => state
  | .ok mgr =>
    let ((_, t), user) := (mgr.perform step.chooser step.call).outcome state.1 state.2
    (t, user)

def afterSteps (s : Server) (user : σ) (steps : List (ManagerStep σ)) : Server :=
  (steps.foldl afterStep (s, user)).1

/-- What the operation of a step keeps holds behind the step. -/
theorem afterStep_of_preserves {I : Server → Prop} {interop : String} {state : Server × σ}
    {step : ManagerStep σ} (hinterop : state.1.interop = .ok interop)
    (hperform : Action.Preserves I
      (Manager.perform ⟨step.manager, interop, state.1.url⟩ step.chooser step.call))
    (h : I state.1) : I (afterStep state step).1 := by
  have hend := hperform state.1 state.2 h
  rw [afterStep, attach_of_interop hinterop]
  dsimp only
  cases ho : (Manager.perform ⟨step.manager, interop, state.1.url⟩ step.chooser
      step.call).outcome state.1 state.2 with
  | mk result user =>
    obtain ⟨r, t⟩ := result
    rw [ho] at hend
    cases r with
    | ok x => exact hend
    | error e => exact hend

/-- What every operation of a manager of the interop namespace keeps holds behind all steps. -/
theorem afterSteps_of_preserves {I : Server → Prop} {interop : String}
    (hinterop : ∀ s, I s → s.interop = .ok interop)
    (hperform : ∀ (mgr : Manager) (chooser : Chooser (StateM σ)) (call : SubscriptionCall),
      mgr.interop = interop → Action.Preserves I (mgr.perform chooser call))
    {s : Server} (h : I s) (user : σ) (steps : List (ManagerStep σ)) :
    I (s.afterSteps user steps) := by
  have hall : ∀ state : Server × σ, I state.1 → I (steps.foldl Server.afterStep state).1 := by
    induction steps with
    | nil => exact fun state hs => hs
    | cons step rest ih =>
      intro state hs
      exact ih _ (afterStep_of_preserves (hinterop state.1 hs) (hperform _ _ _ rfl) hs)
  exact hall (s, user) h

theorem Sound.afterSteps {s : Server} {interop : String} (h : s.Sound interop) (user : σ)
    (steps : List (ManagerStep σ)) : (s.afterSteps user steps).Sound interop :=
  afterSteps_of_preserves (fun _ hs => hs.interop_eq)
    (fun mgr chooser call hmgr => hmgr ▸ mgr.preserves_perform chooser call) h user steps

/-- The paths of instances are told apart behind any steps. -/
theorem Keyed.afterSteps {s : Server} {interop : String} (h : s.Keyed)
    (hinterop : s.interop = .ok interop) (user : σ) (steps : List (ManagerStep σ)) :
    (s.afterSteps user steps).interop = .ok interop ∧ (s.afterSteps user steps).Keyed :=
  afterSteps_of_preserves (fun _ hs => hs.1)
    (fun mgr chooser call _ => mgr.preserves_perform_keyed chooser call) ⟨hinterop, h⟩ user steps

/-- Referential integrity of subscriptions. If no two of the classes are related, and the paths
of endpoints equal themselves, then a server on which every subscription refers to a stored
destination and a stored filter is such a server after any steps of any managers, whatever
their users choose and whether a step succeeds or fails. -/
theorem intact_after_steps {r : Repository} {default : Option String} {url : String}
    {s : Server} (hload : r.server default url = .ok s) {interop : String}
    (hinterop : s.interop = .ok interop)
    (hintact : s.At interop fun ns => ns.Unrelated ∧ ns.Reflexive ∧ ns.Intact) (user : σ)
    (steps : List (ManagerStep σ)) :
    (s.afterSteps user steps).interop = .ok interop ∧
      (s.afterSteps user steps).At interop Namespace.Intact := by
  obtain ⟨own, ns, hns, hunrelated, hreflexive, hsubscriptions⟩ := hintact
  have hkeyed : ns.Keyed own := keyed_of_repository hload _ (List.mem_of_find?_eq_some hns)
  have hsound : s.Sound interop :=
    ⟨hinterop, own, ns, hns, hkeyed, hunrelated, hreflexive, hsubscriptions⟩
  obtain ⟨hlater, own', ns', hns', hlinked⟩ := hsound.afterSteps user steps
  exact ⟨hlater, own', ns', hns', hlinked.intact⟩

/-- The classes of the interop namespace with their keys. -/
def indicationClasses : List ClassDecl :=
  let key (name : String) : PropertyDecl :=
    { name, qualifiers := .ofList [("Key", .boolean true)] }
  let systemKeys := ["SystemCreationClassName", "SystemName", "CreationClassName", "Name"]
  [{ name := "CIM_ListenerDestination", properties := systemKeys.map key },
    { name := EndpointKind.destination.className, superclass := some "CIM_ListenerDestination" },
    { name := EndpointKind.filter.className, properties := systemKeys.map key },
    { name := subscriptionClass, properties := ["Filter", "Handler"].map key }]

def endpointOn (system : Value) (kind : EndpointKind) (name : String) : Instance where
  className := kind.className
  properties := .ofList [("SystemCreationClassName", some (.text "CIM_ComputerSystem")),
    ("SystemName", some system), ("CreationClassName", some (.text kind.className)),
    ("Name", some (.text name))]

/-- A repository with a destination on a system of this name and with a filter. -/
def indicationRepository (system : Value) : Repository where
  namespaces := .ofList [("interop", {
    classes := indicationClasses
    instances := [endpointOn system .destination "d", endpointOn (.text "host") .filter "f"] })]

/-- A subscription joins the destination and the filter of a repository; the filter cannot be
removed while it is there. -/
theorem intact_after_addSubscription :
    ∃ s, (indicationRepository (.text "host")).server none "mock" = .ok s ∧
      s.At "interop" (fun ns => ns.Unrelated ∧ ns.Reflexive ∧ ns.Intact) ∧
      (s.afterSteps () [⟨"manager", fun _ _ => pure none, .addSubscription "d" "f" true false⟩,
        ⟨"other", fun _ _ => pure none, .removeEndpoint .filter "f" false⟩]).At "interop"
          Namespace.Intact := by
  have hrepository : ∃ s, (indicationRepository (.text "host")).server none "mock" = .ok s ∧
      s.interop.toOption = some "interop" ∧
      s.At "interop" (fun ns => ns.Unrelated ∧ ns.Reflexive ∧ ns.Intact) :=
    exists_ok_of_any (by decide +kernel)
  obtain ⟨s, hload, hinterop, hintact⟩ := hrepository
  exact ⟨s, hload, hintact, (intact_after_steps hload (toOption_eq_some.1 hinterop) hintact () _).2⟩

/-- With a NaN in the key of a destination its path does not equal itself, and a subscription
is left without the destination that it was made for. -/
theorem not_intact_after_addSubscription :
    ∃ s, (indicationRepository (.reference
        ⟨none, "TST_Scale", [("Factor", .real Number.Binary64.nan)]⟩)).server none "mock" = .ok s ∧
      s.interop.toOption = some "interop" ∧
      s.At "interop" (fun ns => ns.Unrelated ∧ ns.Intact ∧
        ns.keyNames subscriptionClass = ["Filter", "Handler"] ∧
        ∀ kind ∈ [EndpointKind.destination, .filter], ns.keyNames kind.className =
          ["SystemCreationClassName", "SystemName", "CreationClassName", "Name"]) ∧
      ¬ (s.afterSteps ()
        [⟨"manager", fun _ _ => pure none, .addSubscription "d" "f" true false⟩]).At
          "interop" Namespace.Intact :=
  exists_ok_of_any (by decide +kernel)

end Server

end CimConsole
