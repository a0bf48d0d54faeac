import CimConsole.Proofs.Subscription.Integrity
import CimConsole.Proofs.Subscription.Ownership
import CimConsole.Proofs.Subscription.Sweep

/-!
Removing everything that a manager owns. Three loops delete the owned subscriptions, the owned
filters and the owned destinations. An endpoint is kept if a remaining subscription refers to it;
but such a subscription would be owned and gone, so no owned endpoint is kept.
-/
namespace CimConsole

open Text

namespace Namespace

/-- What removing needs: the three classes are declared and not related, its name is among the keys
of every endpoint (a class may take it out of the keys that it inherits), no stored path holds a
NaN, and no subscription refers by a path with two keys that differ in letter case only. -/
structure Removable (ns : Namespace) : Prop where
  declared : ∀ name ∈ roleClasses, (ns.class? name).isSome = true
  unrelated : ns.Unrelated
  named : ∀ kind, ∀ e ∈ ns.endpoints kind, ∃ key ∈ ns.keyNames e.className,
    sameName key "Name" = true ∧ e.text? key = e.text? "Name"
  plain : ∀ x ∈ ns.instances, ∀ p ∈ x.path, p.Tabled ∧ p.anyReal Number.Binary64.isNaN = false
  distinct : ∀ x ∈ ns.subscriptions, ∀ kind : EndpointKind, ∀ r ∈ x.path? kind.role,
    CaseDistinct r.keys

instance (ns : Namespace) : Decidable ns.Removable :=
  decidable_of_iff
    ((∀ name ∈ roleClasses, (ns.class? name).isSome = true) ∧ ns.Unrelated ∧
      (∀ kind, ∀ e ∈ ns.endpoints kind, ∃ key ∈ ns.keyNames e.className,
        sameName key "Name" = true ∧ e.text? key = e.text? "Name") ∧
      (∀ x ∈ ns.instances, ∀ p ∈ x.path, p.Tabled ∧ p.anyReal Number.Binary64.isNaN = false) ∧
      ∀ x ∈ ns.subscriptions, ∀ kind : EndpointKind, ∀ r ∈ x.path? kind.role, CaseDistinct r.keys)
    ⟨fun ⟨a, b, c, d, e⟩ => ⟨a, b, c, d, e⟩, fun h => ⟨h.1, h.2, h.3, h.4, h.5⟩⟩

variable {ns : Namespace}

theorem Removable.same_self (h : ns.Removable) :
    ∀ x ∈ ns.instances, ∀ p ∈ x.path, p.same p = true :=
  fun x hx p hp => ObjectPath.same_self (h.plain x hx p hp).1 (h.plain x hx p hp).2

theorem Removable.without (h : ns.Removable) (p : Instance → Bool) : (ns.without p).Removable := by
  constructor
  case declared => exact h.declared
  case unrelated => exact h.unrelated.instances _
  case named =>
    intro kind e he
    rw [endpoints_without] at he
    obtain ⟨key, hkey, hname, hvalue⟩ := h.named kind e (List.mem_of_mem_filter he)
    have hkeys : (ns.without p).keyNames e.className = ns.keyNames e.className := by
      simp only [keyNames, resolve?, Namespace.without, superclassChain_instances]
    exact ⟨key, hkeys ▸ hkey, hname, hvalue⟩
  case plain => exact fun x hx => h.plain x (List.mem_of_mem_filter hx)
  case distinct =>
    intro x hx
    rw [subscriptions_without] at hx
    exact h.distinct x (List.mem_of_mem_filter hx)

end Namespace

namespace Manager

open CimConsole.Action (outcome outcome_bind_ok outcome_query_ok)

variable {σ : Type} {mgr : Manager} {s : Server} {own : String} {ns : Namespace}

/-- Whether an instance is a subscription that the manager owns. -/
def ownedSubscription (mgr : Manager) (ns : Namespace) (x : Instance) : Bool :=
  mgr.ownsSubscription x && ns.isWithin x.className subscriptionClass

/-- Whether an instance is an endpoint of a kind that the manager owns. -/
def ownedEndpoint (mgr : Manager) (ns : Namespace) (kind : EndpointKind) (x : Instance) : Bool :=
  mgr.owns kind x && ns.isWithin x.className kind.className

/-- Whether the manager owns an instance in any role. -/
def ownedInstance (mgr : Manager) (ns : Namespace) (x : Instance) : Bool :=
  mgr.ownedSubscription ns x || mgr.ownedEndpoint ns .filter x ||
    mgr.ownedEndpoint ns .destination x

/-- The paths of what the manager owns, in the order in which it is stored. -/
def ownedPaths (mgr : Manager) (ns : Namespace) : RemovedObjects where
  subscriptions := (ns.subscriptions.filter mgr.ownsSubscription).filterMap Instance.path
  filters := ((ns.endpoints .filter).filter (mgr.owns .filter)).filterMap Instance.path
  destinations :=
    ((ns.endpoints .destination).filter (mgr.owns .destination)).filterMap Instance.path

@[simp] theorem ownedEndpoint_without (p : Instance → Bool) (kind : EndpointKind) :
    mgr.ownedEndpoint (ns.without p) kind = mgr.ownedEndpoint ns kind := by
  funext x
  rw [ownedEndpoint, ownedEndpoint, Namespace.isWithin_without]

section Declared

variable (hns : s.Holds mgr.interop own ns)
  (hdeclared : ∀ name ∈ roleClasses, (ns.class? name).isSome = true)

include hns hdeclared

theorem subscriptions_eq : mgr.subscriptions s = .ok ns.subscriptions :=
  Server.instances_eq_ok.2 ⟨own, ns, hns, hdeclared _ subscriptionClass_mem_roleClasses, rfl⟩

theorem endpoints_eq (kind : EndpointKind) : mgr.endpoints s kind = .ok (ns.endpoints kind) :=
  Server.instances_eq_ok.2 ⟨own, ns, hns, hdeclared _ (className_mem_roleClasses kind), rfl⟩

end Declared

section Removing

variable (hns : s.Holds mgr.interop own ns) (hkeyed : ns.Keyed own) (hremovable : ns.Removable)

include hns hremovable hkeyed

theorem outcome_removeOwnedSubscriptions (removed : RemovedObjects) (user : σ) :
    outcome (mgr.removeOwnedSubscriptions ns.subscriptions removed :
        Action (StateM σ) RemovedObjects) s user =
      ((.ok { removed with subscriptions := removed.subscriptions ++
          (ns.subscriptions.filter mgr.ownsSubscription).filterMap Instance.path },
        s.withNamespace mgr.interop (ns.without (mgr.ownedSubscription ns))), user) := by
  have h := sweeps_removeOwnedSubscriptions.outcome_without
    (fun x => ns.isWithin x.className subscriptionClass) hns hkeyed
    hremovable.same_self (fun _ _ _ => trivial) removed user
  rw [foldl_addSubscription, ← List.filter_filter] at h
  exact h

theorem outcome_removeOwnedEndpoints {remaining : List Instance} {kind : EndpointKind}
    (hunused : ∀ x ∈ ns.endpoints kind, mgr.owns kind x = true →
      remaining.any (refersTo kind x) = false) (removed : RemovedObjects) (user : σ) :
    outcome (mgr.removeOwnedEndpoints remaining kind (ns.endpoints kind) removed :
        Action (StateM σ) RemovedObjects) s user =
      ((.ok ((((ns.endpoints kind).filter (mgr.owns kind)).filterMap Instance.path).foldl
          (fun r p => r.addEndpoint kind p) removed),
        s.withNamespace mgr.interop (ns.without (mgr.ownedEndpoint ns kind))), user) := by
  have h := (sweeps_removeOwnedEndpoints remaining kind).outcome_without
    (fun x => ns.isWithin x.className kind.className) hns hkeyed hremovable.same_self
    (fun x hx hwithin => hunused x (Namespace.mem_endpoints.2 ⟨hx, hwithin⟩)) removed user
  rw [← List.filter_filter] at h
  exact h

end Removing

section Roles

variable (hkeyed : ns.Keyed own) (hremovable : ns.Removable) {kind other : EndpointKind}

include hremovable

theorem not_ownedSubscription {x : Instance} (hx : x ∈ ns.endpoints kind) :
    mgr.ownedSubscription ns x = false := by
  have hkind := Namespace.mem_endpoints.1 hx
  rw [ownedSubscription, Bool.and_eq_false_iff]
  refine Or.inr (Bool.eq_false_iff.2 fun hsub => ?_)
  exact hremovable.unrelated.not_subscription hkind ⟨hkind.1, hsub⟩

theorem not_ownedEndpoint (hne : kind ≠ other) {x : Instance} (hx : x ∈ ns.endpoints kind) :
    mgr.ownedEndpoint ns other x = false := by
  have hkind := Namespace.mem_endpoints.1 hx
  rw [ownedEndpoint, Bool.and_eq_false_iff]
  refine Or.inr (Bool.eq_false_iff.2 fun hother => ?_)
  exact hne (hremovable.unrelated.kind_eq hkind ⟨hkind.1, hother⟩)

include hkeyed

/-- No subscription that is left refers to an owned endpoint. -/
theorem unused_of_owns {x : Instance} (hx : x ∈ ns.endpoints kind) (howns : mgr.owns kind x = true) :
    (ns.without (mgr.ownedSubscription ns)).subscriptions.any (refersTo kind x) = false := by
  rw [List.any_eq_false]
  intro z hz hrefers
  rw [Namespace.subscriptions_without, List.mem_filter] at hz
  obtain ⟨hz, hkept⟩ := hz
  obtain ⟨p, hp, hfor⟩ := hkeyed.placed x (Namespace.mem_endpoints.1 hx).1
  obtain ⟨key, hkey, hname, hvalue⟩ := hremovable.named kind x hx
  have hend : mgr.ownsEnd kind z = true := ownsEnd_of_refersTo howns hp hfor hkey hname hvalue
    (hremovable.distinct z hz kind) hrefers
  have howned : mgr.ownsSubscription z = true := by
    rw [ownsSubscription]
    cases kind <;> simp [hend]
  rw [ownedSubscription, howned, (Namespace.mem_subscriptions.1 hz).2] at hkept
  cases hkept

end Roles

/-- Removing all that a manager owns takes exactly that away and returns its paths. -/
theorem outcome_removeServer (hns : s.Holds mgr.interop own ns) (hkeyed : ns.Keyed own)
    (hremovable : ns.Removable) (user : σ) :
    outcome (mgr.removeServer : Action (StateM σ) RemovedObjects) s user =
      ((.ok (mgr.ownedPaths ns),
        s.withNamespace mgr.interop (ns.without (mgr.ownedInstance ns))), user) := by
  -- the namespace without owned subscriptions, and the one without owned filters as well
  obtain ⟨ns₁, hns₁⟩ : ∃ n, n = ns.without (mgr.ownedSubscription ns) := ⟨_, rfl⟩
  obtain ⟨ns₂, hns₂⟩ : ∃ n, n = ns₁.without (mgr.ownedEndpoint ns₁ .filter) := ⟨_, rfl⟩
  have hheld₁ : (s.withNamespace mgr.interop ns₁).Holds mgr.interop own ns₁ :=
    hns.withNamespace (hns₁ ▸ hns.2)
  have hheld₂ : (s.withNamespace mgr.interop ns₂).Holds mgr.interop own ns₂ :=
    hns.withNamespace (hns₂ ▸ hheld₁.2)
  have hkeyed₁ : ns₁.Keyed own := hns₁ ▸ hkeyed.without _
  have hkeyed₂ : ns₂.Keyed own := hns₂ ▸ hkeyed₁.without _
  have hremovable₁ : ns₁.Removable := hns₁ ▸ hremovable.without _
  have hremovable₂ : ns₂.Removable := hns₂ ▸ hremovable₁.without _
  have hendpoints₁ : ∀ kind, ns₁.endpoints kind = ns.endpoints kind := fun kind =>
    hns₁ ▸ Namespace.endpoints_without_eq fun x hx => not_ownedSubscription hremovable hx
  have hendpoints₂ : ns₂.endpoints .destination = ns.endpoints .destination := by
    rw [← hendpoints₁, hns₂]
    exact Namespace.endpoints_without_eq fun x hx => not_ownedEndpoint hremovable₁ (by decide) hx
  have hunused : ∀ kind, ∀ x ∈ ns.endpoints kind, mgr.owns kind x = true →
      ns₁.subscriptions.any (refersTo kind x) = false :=
    fun kind x hx howns => hns₁ ▸ unused_of_owns hkeyed hremovable hx howns
  have hsubscriptions := outcome_removeOwnedSubscriptions hns hkeyed hremovable {} user
  have hfilters := fun removed => outcome_removeOwnedEndpoints hheld₁ hkeyed₁ hremovable₁
    (fun x hx => hunused .filter x (hendpoints₁ .filter ▸ hx)) removed user
  have hdestinations := fun removed => outcome_removeOwnedEndpoints hheld₂ hkeyed₂ hremovable₂
    (fun x hx => hunused .destination x (hendpoints₂ ▸ hx)) removed user
  rw [← hns₁] at hsubscriptions
  simp only [← hns₂, hns.withNamespace_withNamespace] at hfilters
  simp only [hns.withNamespace_withNamespace] at hdestinations
  rw [removeServer, outcome_bind_ok (outcome_query_ok (subscriptions_eq hns hremovable.declared)),
    outcome_bind_ok hsubscriptions,
    outcome_bind_ok (outcome_query_ok (subscriptions_eq hheld₁ hremovable₁.declared)),
    outcome_bind_ok (outcome_query_ok (endpoints_eq hheld₁ hremovable₁.declared .filter)),
    outcome_bind_ok (hfilters _),
    outcome_bind_ok (outcome_query_ok (endpoints_eq hheld₂ hremovable₂.declared .destination)),
    hdestinations, hendpoints₁, hendpoints₂]
  have hleft : ns₂.without (mgr.ownedEndpoint ns₂ .destination) =
      ns.without (mgr.ownedInstance ns) := by
    rw [hns₂, hns₁]
    simp only [ownedEndpoint_without, Namespace.without_without]
    rfl
  rw [hleft, foldl_addEndpoint, foldl_addEndpoint]
  rfl

@[simp] theorem ownedInstance_without (p : Instance → Bool) :
    mgr.ownedInstance (ns.without p) = mgr.ownedInstance ns := by
  funext x
  simp only [ownedInstance, ownedSubscription, Namespace.isWithin_without, ownedEndpoint_without]

/-- No subscription is left that the manager owns. -/
theorem ownsSubscription_without {x : Instance}
    (hx : x ∈ (ns.without (mgr.ownedInstance ns)).subscriptions) :
    mgr.ownsSubscription x = false := by
  rw [Namespace.subscriptions_without, List.mem_filter] at hx
  obtain ⟨hx, hkept⟩ := hx
  simp only [ownedInstance, ownedSubscription, (Namespace.mem_subscriptions.1 hx).2, Bool.and_true,
    Bool.not_or, Bool.and_eq_true, Bool.not_eq_true'] at hkept
  exact hkept.1.1

/-- No endpoint is left that the manager owns. -/
theorem owns_without {kind : EndpointKind} {x : Instance}
    (hx : x ∈ (ns.without (mgr.ownedInstance ns)).endpoints kind) : mgr.owns kind x = false := by
  rw [Namespace.endpoints_without, List.mem_filter] at hx
  obtain ⟨hx, hkept⟩ := hx
  have hwithin := (Namespace.mem_endpoints.1 hx).2
  simp only [ownedInstance, Bool.not_or, Bool.and_eq_true, Bool.not_eq_true'] at hkept
  have hnot : mgr.ownedEndpoint ns kind x = false := by
    cases kind with
    | destination => exact hkept.2
    | filter => exact hkept.1.2
  rwa [ownedEndpoint, hwithin, Bool.and_true] at hnot

/-- Where everything owned was taken away, nothing more is. -/
theorem ownedPaths_without : mgr.ownedPaths (ns.without (mgr.ownedInstance ns)) = {} := by
  have hempty : ∀ (xs : List Instance) (test : Instance → Bool), (∀ x ∈ xs, test x = false) →
      (xs.filter test).filterMap Instance.path = [] := by
    intro xs test h
    rw [List.filter_eq_nil_iff.2 fun x hx => by simp [h x hx], List.filterMap_nil]
  rw [ownedPaths, hempty _ _ fun x hx => ownsSubscription_without hx,
    hempty _ _ fun x hx => owns_without hx, hempty _ _ fun x hx => owns_without hx]

theorem map_some_paths (hkeyed : ns.Keyed own) {xs : List Instance}
    (hxs : ∀ x ∈ xs, x ∈ ns.instances) :
    (xs.filterMap Instance.path).map some = xs.map Instance.path := by
  induction xs with
  | nil => rfl
  | cons x rest ih =>
    obtain ⟨p, hp, -⟩ := hkeyed.placed x (hxs x List.mem_cons_self)
    rw [List.filterMap_cons, hp, List.map_cons, List.map_cons, hp,
      ih fun y hy => hxs y (List.mem_cons_of_mem _ hy)]

/-- Removing what a manager owns is exact. On every server that a loaded one becomes by calls, with
an interop namespace as it has to be, the removal succeeds. It takes away the owned subscriptions
and the owned endpoints, all of them, and leaves the other instances in their order and the rest of
the server as it was; it returns the paths of what it took, each once. A second removal takes
nothing. -/
theorem removeServer_exact {r : Repository} {default : Option String} {url : String}
    {s₀ s : Server} (hload : r.server default url = .ok s₀) (calls : List StoreCall)
    (hs : s₀.afterCalls calls = s) (mgr : Manager) (hns : s.Holds mgr.interop own ns)
    (hremovable : ns.Removable) (user : σ) :
    ∃ removed t,
      outcome (mgr.removeServer : Action (StateM σ) RemovedObjects) s user =
        ((.ok removed, t), user) ∧
      s.DifferIn t own ns
        { ns with instances := ns.instances.filter fun x => !mgr.ownedInstance ns x } ∧
      (∀ kind, ∃ all, mgr.endpoints t kind = .ok all ∧ ∀ x ∈ all, mgr.owns kind x = false) ∧
      removed.subscriptions.map some =
        (ns.subscriptions.filter mgr.ownsSubscription).map Instance.path ∧
      removed.filters.map some =
        ((ns.endpoints .filter).filter (mgr.owns .filter)).map Instance.path ∧
      removed.destinations.map some =
        ((ns.endpoints .destination).filter (mgr.owns .destination)).map Instance.path ∧
      outcome (mgr.removeServer : Action (StateM σ) RemovedObjects) t user =
        ((.ok {}, t), user) := by
  have hkeyed : ns.Keyed own :=
    (hs ▸ (Server.keyed_of_repository hload).afterCalls calls : s.Keyed).of_holds hns
  have hlater : (s.withNamespace mgr.interop (ns.without (mgr.ownedInstance ns))).Holds mgr.interop
      own (ns.without (mgr.ownedInstance ns)) := hns.withNamespace hns.2
  have hremovable' := hremovable.without (mgr.ownedInstance ns)
  have hsecond := outcome_removeServer hlater (hkeyed.without _) hremovable' user
  have hleft : (ns.without (mgr.ownedInstance ns)).without
      (mgr.ownedInstance (ns.without (mgr.ownedInstance ns))) =
      ns.without (mgr.ownedInstance ns) := by
    simp only [ownedInstance_without, Namespace.without_without, Bool.or_self]
  rw [ownedPaths_without, hleft, hlater.withNamespace_self] at hsecond
  refine ⟨_, _, outcome_removeServer hns hkeyed hremovable user, hns.differIn _, fun kind => ?_,
    ?_, ?_, ?_, hsecond⟩
  · exact ⟨_, endpoints_eq hlater hremovable'.declared kind, fun x hx => owns_without hx⟩
  · exact map_some_paths hkeyed fun x hx =>
      List.mem_of_mem_filter (List.mem_of_mem_filter hx)
  · exact map_some_paths hkeyed fun x hx =>
      List.mem_of_mem_filter (List.mem_of_mem_filter hx)
  · exact map_some_paths hkeyed fun x hx =>
      List.mem_of_mem_filter (List.mem_of_mem_filter hx)

/-- A repository with a destination and two filters, one of them owned by a manager. -/
def ownedRepository : Repository where
  namespaces := .ofList [("interop", {
    classes := Server.indicationClasses
    instances := [Server.endpointOn (.text "host") .destination "d",
      Server.endpointOn (.text "host") .filter "f",
      Server.endpointOn (.text "host") .filter "pywbemfilter:manager:f"] })]

/-- The path of an endpoint in a namespace that is not told. -/
def pathOn (kind : EndpointKind) (name : String) : ObjectPath where
  nameSpace := none
  className := kind.className
  keys := [("CreationClassName", .text kind.className), ("Name", .text name),
    ("SystemCreationClassName", .text "CIM_ComputerSystem"), ("SystemName", .text "host")]

/-- The calls that join the destination and each of the filters. -/
def subscribing : List StoreCall :=
  ["f", "pywbemfilter:manager:f"].map fun name =>
    .create "interop" (subscription (pathOn .destination "d") (pathOn .filter name))

/-- The owned filter goes and the subscription that refers to it; a second removal takes nothing. -/
theorem removeServer_exact_of_filter :
    ∃ s₀ removed t, ownedRepository.server none "mock" = .ok s₀ ∧
      outcome ((Manager.mk "manager" "interop" "mock").removeServer :
          Action (StateM Unit) RemovedObjects) (s₀.afterCalls subscribing) () =
        ((.ok removed, t), ()) ∧
      removed.subscriptions.length = 1 ∧ removed.filters.length = 1 ∧
      removed.destinations.length = 0 ∧
      outcome ((Manager.mk "manager" "interop" "mock").removeServer :
          Action (StateM Unit) RemovedObjects) t () = ((.ok {}, t), ()) := by
  have hrepository : ∃ s₀, ownedRepository.server none "mock" = .ok s₀ ∧
      (s₀.afterCalls subscribing).At "interop" fun ns => ns.fault = none ∧ ns.Removable ∧
        let mgr : Manager := ⟨"manager", "interop", "mock"⟩
        (ns.subscriptions.filter mgr.ownsSubscription).length = 1 ∧
        ((ns.endpoints .filter).filter (mgr.owns .filter)).length = 1 ∧
        ((ns.endpoints .destination).filter (mgr.owns .destination)).length = 0 :=
    exists_ok_of_any (by decide +kernel)
  obtain ⟨s₀, hload, own, ns, hentry, hfault, hremovable, hsubscriptions, hfilters, hdestinations⟩ :=
    hrepository
  obtain ⟨removed, t, hfirst, -, -, hsubs, hfils, hdests, hsecond⟩ :=
    removeServer_exact hload subscribing rfl ⟨"manager", "interop", "mock"⟩ ⟨hentry, hfault⟩
      hremovable ()
  refine ⟨s₀, removed, t, hload, hfirst, ?_, ?_, ?_, hsecond⟩
  · simpa [hsubscriptions] using congrArg List.length hsubs
  · simpa [hfilters] using congrArg List.length hfils
  · simpa [hdestinations] using congrArg List.length hdests

/-- A repository in which a class of filters declares its name anew, and not as a key. The path of
an owned filter of that class does not tell its name, and a subscription refers to it. -/
def unnamedRepository : Repository where
  namespaces := .ofList [("interop", {
    classes := Server.indicationClasses ++ [{
      name := "TST_Filter"
      superclass := some EndpointKind.filter.className
      properties := [{ name := "Name" }] }]
    instances := [Server.endpointOn (.text "host") .destination "d",
      { Server.endpointOn (.text "host") .filter "pywbemfilter:manager:f" with
        className := "TST_Filter" },
      subscription (pathOn .destination "d") { pathOn .filter "" with
        className := "TST_Filter"
        keys := [("CreationClassName", .text EndpointKind.filter.className),
          ("SystemCreationClassName", .text "CIM_ComputerSystem"),
          ("SystemName", .text "host")] }] })]

/-- The subscription does not show that its filter is owned, so it stays and the filter with it. -/
theorem removeServer_keeps_owned_filter :
    ∃ s, unnamedRepository.server none "mock" = .ok s ∧
      (s.At "interop" fun ns => ns.fault = none ∧
        (∀ name ∈ roleClasses, (ns.class? name).isSome = true) ∧ ns.Unrelated ∧
        (∀ kind : EndpointKind, "Name" ∈ ns.keyNames kind.className) ∧
        (∀ x ∈ ns.instances, ∀ p ∈ x.path,
          p.Tabled ∧ p.anyReal Number.Binary64.isNaN = false) ∧
        ∀ x ∈ ns.subscriptions, ∀ kind : EndpointKind, ∀ r ∈ x.path? kind.role,
          CaseDistinct r.keys) ∧
      let mgr : Manager := ⟨"manager", "interop", "mock"⟩
      (outcome (mgr.removeServer : Action (StateM Unit) RemovedObjects) s ()).1.2.At "interop"
        fun ns => ((ns.endpoints .filter).any (mgr.owns .filter)) = true :=
  exists_ok_of_any (by decide +kernel)

end Manager

end CimConsole
