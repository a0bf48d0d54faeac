import CimConsole.Proofs.Subscription.Additions

/-!
How long permanent endpoints stay. A manager removes with a server what it owns, and it tells what
it owns by names. So an endpoint that was added as a permanent one stays behind every such removal
by a manager that does not count its name as owned; the one that added it never does, as the name
was refused otherwise. No removal deletes it in place of another instance either: its path equals
none of the others.
-/
namespace CimConsole

open Text

namespace Namespace

variable {ns : Namespace} {x z : Instance} {p q : ObjectPath}

/-- What is known of a namespace around an instance that may be stored there: its path equals none
of the others, and it counts as an endpoint of these kinds only. -/
structure Around (x : Instance) (p : ObjectPath) (kinds : EndpointKind → Prop) (ns : Namespace) :
    Prop where
  apart : ∀ z ∈ ns.instances, z ≠ x → ∀ q, z.path = some q → p.same q = false
  kind : ∀ kind : EndpointKind, ns.isWithin x.className kind.className = true → kinds kind

variable {kinds : EndpointKind → Prop}

theorem Around.sublist (h : ns.Around x p kinds) {kept : List Instance}
    (hsub : kept.Sublist ns.instances) : Around x p kinds { ns with instances := kept } where
  apart z hz := h.apart z (hsub.subset hz)
  kind other hother := h.kind other (by rwa [isWithin_instances] at hother)

/-- An instance that is stored keeps its place free of new ones. -/
theorem Around.add (h : ns.Around x p kinds) (hx : x ∈ ns.instances) (hp : x.path = some p)
    (hfree : ns.find? q = none) (hz : z.path = some q) :
    Around x p kinds { ns with instances := ns.instances ++ [z] } where
  apart y hy hne r hr := by
    rcases List.mem_append.1 hy with hold | hnew
    · exact h.apart y hold hne r hr
    · obtain rfl := List.mem_singleton.1 hnew
      obtain rfl := Option.some.inj (hz.symm.trans hr)
      have hnone := List.find?_eq_none.1 hfree x hx
      rwa [isAt_of_path hp, Bool.not_eq_true] at hnone
  kind other hother := h.kind other (by rwa [isWithin_instances] at hother)

end Namespace

theorem Identity.not_isOwned_of_dropStart? {kind : EndpointKind} {manager name : String}
    (h : dropStart? (ownedStart kind manager) name = none) :
    (Identity.classify kind manager name).isOwned = false := by
  rw [Identity.classify, OwnedName.ofName?, h]
  rfl

namespace Server

/-- Whether an instance is stored or not, nothing else stands where it does. -/
structure Guarded (s : Server) (interop : String) (x : Instance) (p : ObjectPath)
    (kinds : EndpointKind → Prop) : Prop where
  interop_eq : s.interop = .ok interop
  around : s.At interop (Namespace.Around x p kinds)

variable {s : Server} {space own className : String} {ns : Namespace} {x y z : Instance}
  {p q : ObjectPath} {kinds : EndpointKind → Prop}

theorem Guarded.of_holds (h : s.Guarded space x p kinds) (hns : s.Holds space own ns) :
    ns.Around x p kinds := by
  obtain ⟨own', ns', hentry, haround⟩ := h.around
  obtain ⟨rfl, rfl⟩ := Prod.mk.inj (Option.some.inj (hentry.symm.trans hns.1))
  exact haround

theorem Guarded.withNamespace (h : s.Guarded space x p kinds) (hns : s.Holds space own ns)
    {ns' : Namespace} (hfault : ns'.fault = none) (haround : ns'.Around x p kinds) :
    (s.withNamespace space ns').Guarded space x p kinds := by
  refine ⟨?_, own, ns', (hns.withNamespace hfault).1, haround⟩
  rw [hns.interop_withNamespace, h.interop_eq]

theorem Guarded.remove (h : s.Guarded space x p kinds) (hns : s.Holds space own ns)
    (q : ObjectPath) :
    (s.withNamespace space
      { ns with instances := removeFirst (Namespace.isAt q) ns.instances }).Guarded
        space x p kinds :=
  h.withNamespace hns hns.2 ((h.of_holds hns).sublist (removeFirst_sublist _ _))

/-- An instance that is listed at an equal path is the one that is guarded. -/
theorem Guarded.apart (h : s.Guarded space x p kinds) {xs : List Instance}
    (hxs : s.Lists space className xs) (hz : z ∈ xs) (hne : z ≠ x) (hq : z.path = some q) :
    p.same q = false := by
  obtain ⟨own, ns, hns, hmem, -⟩ := (hxs.mem_iff z).1 hz
  exact (h.of_holds hns).apart z hmem hne q hq

end Server

namespace Manager

open CimConsole.Action (Closed Ensures Preserves outcome outcome_bind_eq_ok)

variable {σ α : Type} {mgr : Manager} {className : String} {x : Instance} {p : ObjectPath}
  {kinds : EndpointKind → Prop}

/-- Nobody owns an instance without references as a subscription. -/
theorem not_ownsSubscription_of_flat (mgr : Manager) (hflat : x.All Value.Flat) :
    mgr.ownsSubscription x = false := by
  have hpath : ∀ name, x.path? name = none := by
    intro name
    rw [Instance.path?]
    cases hget : x.get? name with
    | none => rfl
    | some v =>
      rw [Instance.get?, Option.join_eq_some_iff] at hget
      obtain ⟨spelled, hmem⟩ := Entries.mem_of_find? hget
      exact (hflat _ hmem v rfl).path?_eq_none
  simp [ownsSubscription, ownsEnd, hpath]

section Keeping

/-- Nothing that is created takes the place of an instance that is stored. -/
theorem preserves_create_stored (hp : x.path = some p) (z : Instance) :
    Preserves (fun s => s.Guarded mgr.interop x p kinds ∧ s.Stores mgr.interop className x)
      (mgr.create z : Action (StateM σ) Instance) := by
  apply ensures_create (fun s hs => hs)
  intro s own ns q hs hns hpath hfree
  obtain ⟨hguarded, hstored⟩ := hs
  rw [Server.stores_iff hns] at hstored
  have hlater : (s.withNamespace mgr.interop
      { ns with instances := ns.instances ++ [{ z with path := some q }] }).Holds mgr.interop own
      { ns with instances := ns.instances ++ [{ z with path := some q }] } := hns.withNamespace hns.2
  constructor
  · exact hguarded.withNamespace hns hns.2 ((hguarded.of_holds hns).add hstored.1 hp hfree rfl)
  · exact (Server.stores_iff hlater x).2 ((Namespace.stores_add ns _ x _).2 (Or.inl hstored))

theorem preserves_delete_guarded (q : ObjectPath) :
    Preserves (fun s => s.Guarded mgr.interop x p kinds)
      (mgr.delete q : Action (StateM σ) Unit) :=
  ensures_delete (fun _ hs => hs) fun _ _ _ _ hs hns _ => hs.remove hns q

/-- Deleting another path does not delete the instance. -/
theorem preserves_delete_stored (hp : x.path = some p) {q : ObjectPath} (hq : p.same q = false) :
    Preserves (fun s => s.Guarded mgr.interop x p kinds ∧ s.Stores mgr.interop className x)
      (mgr.delete q : Action (StateM σ) Unit) := by
  apply ensures_delete (fun s hs => hs)
  intro s own ns y hs hns hfound
  refine ⟨hs.1.remove hns q, (hns.removed hfound).kept className x hs.2 ?_⟩
  rintro rfl
  have hat := List.find?_some hfound
  rw [Namespace.isAt_of_path hp, hq] at hat
  cases hat

/-- Listing the instances of a class and going on with the list, where the instance does not count
and only the paths of what counts matter. -/
theorem preserves_list_stored {listClass : String} {counts : Instance → Bool}
    (hx : ∀ s : Server, s.Guarded mgr.interop x p kinds → s.Stores mgr.interop listClass x →
      counts x = false)
    {f : List Instance → Action (StateM σ) α}
    (hf : ∀ xs, (∀ z ∈ xs, counts z = true → ∀ q, z.path = some q → p.same q = false) →
      Preserves (fun s => s.Guarded mgr.interop x p kinds ∧ s.Stores mgr.interop className x)
        (f xs)) :
    Preserves (fun s => s.Guarded mgr.interop x p kinds ∧ s.Stores mgr.interop className x)
      ((Action.query fun s => s.instances mgr.interop listClass none) >>= f) := by
  refine Ensures.bind (ensures_list fun s hs => hs) fun xs => ?_
  refine (Ensures.assume (hf xs)).mono (fun s hs => ⟨?_, hs.2⟩) (fun _ s hs => hs) fun s hs => hs
  obtain ⟨hlists, hguarded, -⟩ := hs
  intro z hz hcounts q hq
  refine hguarded.apart hlists hz ?_ hq
  rintro rfl
  rw [hx s hguarded ((hlists.mem_iff z).1 hz)] at hcounts
  cases hcounts

/-- What a manager does not own stays when it removes what it owns. -/
theorem preserves_removeServer_stored (hp : x.path = some p) (hflat : x.All Value.Flat)
    (howns : ∀ kind, kinds kind → mgr.owns kind x = false) :
    Preserves (fun s => s.Guarded mgr.interop x p kinds ∧ s.Stores mgr.interop className x)
      (mgr.removeServer : Action (StateM σ) RemovedObjects) := by
  have hclosed := Preserves.closed
    (fun s => s.Guarded mgr.interop x p kinds ∧ s.Stores mgr.interop className x)
    (fun _ _ => pure none : Chooser (StateM σ))
  have hkind : ∀ (kind : EndpointKind) (s : Server), s.Guarded mgr.interop x p kinds →
      s.Stores mgr.interop kind.className x → mgr.owns kind x = false := by
    intro kind s hguarded hstored
    obtain ⟨own, ns, hns, -, hwithin⟩ := hstored
    exact howns kind ((hguarded.of_holds hns).kind kind hwithin)
  apply preserves_list_stored (fun _ _ _ => mgr.not_ownsSubscription_of_flat hflat)
  intro all hall
  apply Preserves.bind (closed_removeOwnedSubscriptions hclosed fun z hz howned q hq =>
    preserves_delete_stored hp (hall z hz howned q hq))
  intro removed
  apply Preserves.bind (Preserves.query _)
  intro remaining
  apply preserves_list_stored (hkind .filter)
  intro filters hfilters
  apply Preserves.bind (closed_removeOwnedEndpoints hclosed fun z hz howned q hq =>
    preserves_delete_stored hp (hfilters z hz howned q hq))
  intro removed'
  apply preserves_list_stored (hkind .destination)
  intro destinations hdestinations
  exact closed_removeOwnedEndpoints hclosed fun z hz howned q hq =>
    preserves_delete_stored hp (hdestinations z hz howned q hq)

end Keeping

end Manager

/-- Whether a call removes an endpoint or a subscription that is named in it. -/
def SubscriptionCall.removesNamed : SubscriptionCall → Bool
  | .removeEndpoint .. | .removeSubscription .. => true
  | _ => false

namespace Manager

open CimConsole.Action (Preserves)

variable {σ : Type} {mgr : Manager} {className : String} {x : Instance} {p : ObjectPath}
  {kinds : EndpointKind → Prop}

theorem preserves_perform_guarded (mgr : Manager) (chooser : Chooser (StateM σ))
    {call : SubscriptionCall} (hcall : call.removesNamed = true) :
    Preserves (fun s => s.Guarded mgr.interop x p kinds) (mgr.perform chooser call) := by
  have hclosed := Preserves.closed (fun s => s.Guarded mgr.interop x p kinds) chooser
  cases call with
  | removeEndpoint kind identity select =>
    exact (closed_removeEndpoint hclosed preserves_delete_guarded).unit
  | removeSubscription destination filter associated select =>
    exact (closed_removeSubscription hclosed preserves_delete_guarded).unit
  | _ => cases hcall

theorem preserves_perform_stored (mgr : Manager) (chooser : Chooser (StateM σ))
    {call : SubscriptionCall} (hp : x.path = some p) (hflat : x.All Value.Flat)
    (hcall : call.removesNamed = false)
    (howns : call = .removeServer → ∀ kind, kinds kind → mgr.owns kind x = false) :
    Preserves (fun s => s.Guarded mgr.interop x p kinds ∧ s.Stores mgr.interop className x)
      (mgr.perform chooser call) := by
  have hclosed := Preserves.closed
    (fun s => s.Guarded mgr.interop x p kinds ∧ s.Stores mgr.interop className x) chooser
  have hcreate : ∀ z, Preserves
      (fun s => s.Guarded mgr.interop x p kinds ∧ s.Stores mgr.interop className x)
      (mgr.create z : Action (StateM σ) Instance) := preserves_create_stored hp
  cases call with
  | addDestination identity url owned => exact (closed_addDestination hclosed hcreate).unit
  | addFilter identity query owned => exact (closed_addFilter hclosed hcreate).unit
  | addSubscription destination filter owned select =>
    exact (closed_addSubscription hclosed fun _ _ => hcreate _).unit
  | removeServer => exact (preserves_removeServer_stored hp hflat (howns rfl)).unit
  | removeEndpoint kind identity select => cases hcall
  | removeSubscription destination filter associated select => cases hcall

end Manager

namespace Server

open CimConsole.Action (Preserves)

variable {σ : Type} {s t : Server} {interop className : String} {x : Instance} {p : ObjectPath}
  {kinds : EndpointKind → Prop} {user : σ} {steps : List (ManagerStep σ)}

/-- What holds is still true behind each of the steps that removes what is named in it. -/
def KeptByRemovals (s : Server) (user : σ) (steps : List (ManagerStep σ)) (φ : Server → Prop) :
    Prop :=
  ∀ front step back, steps = front ++ step :: back → step.call.removesNamed = true →
    φ (s.afterSteps user front) → φ (s.afterSteps user (front ++ [step]))

theorem KeptByRemovals.of_forall {φ : Server → Prop}
    (h : ∀ step ∈ steps, step.call.removesNamed = false) : s.KeptByRemovals user steps φ := by
  intro front step back hsplit hcall _
  rw [h step (by simp [hsplit])] at hcall
  cases hcall

theorem Guarded.afterStep {state : Server × σ} {step : ManagerStep σ}
    (h : state.1.Guarded interop x p kinds) (hstored : state.1.Stores interop className x)
    (hp : x.path = some p) (hflat : x.All Value.Flat)
    (hkept : step.call.removesNamed = true → (afterStep state step).1.Stores interop className x)
    (hnames : step.call = .removeServer → ∀ kind, kinds kind →
      (Identity.classify kind step.manager x.endpointName).isOwned = false) :
    (Server.afterStep state step).1.Guarded interop x p kinds ∧
      (Server.afterStep state step).1.Stores interop className x := by
  cases hcall : step.call.removesNamed with
  | true =>
    refine ⟨?_, hkept hcall⟩
    exact afterStep_of_preserves h.interop_eq
      (Manager.preserves_perform_guarded _ step.chooser hcall) h
  | false =>
    refine afterStep_of_preserves h.interop_eq
      (Manager.preserves_perform_stored _ step.chooser hp hflat hcall ?_) ⟨h, hstored⟩
    intro hserver kind hkind
    rw [← Manager.isOwned_endpointName]
    exact hnames hserver kind hkind

/-- Behind any steps the instance stands, if no step removes it by name and no manager that
removes a server counts its name as owned. -/
theorem Guarded.afterSteps (h : s.Guarded interop x p kinds)
    (hstored : s.Stores interop className x) (hp : x.path = some p) (hflat : x.All Value.Flat)
    (hkept : s.KeptByRemovals user steps fun s => s.Stores interop className x)
    (hnames : ∀ step ∈ steps, step.call = .removeServer → ∀ kind, kinds kind →
      (Identity.classify kind step.manager x.endpointName).isOwned = false) :
    (s.afterSteps user steps).Stores interop className x := by
  induction steps generalizing s user with
  | nil => exact hstored
  | cons step rest ih =>
    have hstep : (Server.afterStep (s, user) step).1.Guarded interop x p kinds ∧
        (Server.afterStep (s, user) step).1.Stores interop className x :=
      Guarded.afterStep h hstored hp hflat
        (fun hcall => hkept [] step rest rfl hcall hstored) (hnames step List.mem_cons_self)
    obtain ⟨hguarded, hstill⟩ := hstep
    refine ih hguarded hstill ?_ fun other hother => hnames other (List.mem_cons_of_mem _ hother)
    intro front other back hsplit hcall hbefore
    exact hkept (step :: front) other back (congrArg (List.cons step) hsplit) hcall hbefore

end Server

/-- A new permanent endpoint. -/
inductive NewEndpoint where
  | destination (identity url : String)
  | filter (identity : String) (query : Manager.Query)

namespace NewEndpoint

open CimConsole.Action (outcome outcome_bind_eq_ok)

def kind : NewEndpoint → EndpointKind
  | destination .. => .destination
  | filter .. => .filter

def identity : NewEndpoint → String
  | destination identity _ => identity
  | filter identity _ => identity

/-- The manager adds the endpoint as a permanent one. -/
def add {m : Type → Type} [Monad m] (mgr : Manager) : NewEndpoint → Action m Instance
  | destination identity url => mgr.addDestination identity url false
  | filter identity query => mgr.addFilter identity query false

variable {σ : Type} {mgr : Manager} {e : NewEndpoint} {s t : Server} {user user' : σ}
  {x : Instance}

theorem of_add (h : outcome (e.add mgr : Action (StateM σ) Instance) s user =
      ((.ok x, t), user')) :
    ∃ y p, s.create mgr.interop y = .ok (p, t) ∧ x = { y with path := some p } ∧
      y.className = e.kind.className ∧ y.endpointName = e.identity ∧ y.All Value.Flat ∧
      dropStart? (ownedStart e.kind mgr.id) e.identity = none := by
  cases e with
  | destination identity url =>
    simp only [add, Manager.addDestination] at h
    split at h
    · cases h
    · next normal _ =>
      obtain ⟨name, _, _, hname, hmade⟩ := outcome_bind_eq_ok.1 h
      obtain ⟨rfl, rfl, hunreserved, rfl⟩ := Manager.of_newName_permanent hname
      obtain ⟨p, hcreate, rfl⟩ := Manager.of_create (mgr.plain_destination _ _ _) hmade
      exact ⟨_, p, hcreate, rfl, rfl, mgr.endpointName_destination _ _ _,
        mgr.flat_destination _ _ _, hunreserved⟩
  | filter identity query =>
    obtain ⟨name, _, _, hname, hmade⟩ := outcome_bind_eq_ok.1 h
    obtain ⟨rfl, rfl, hunreserved, rfl⟩ := Manager.of_newName_permanent hname
    obtain ⟨p, hcreate, rfl⟩ := Manager.of_create (mgr.plain_filter _ _) hmade
    exact ⟨_, p, hcreate, rfl, rfl, mgr.endpointName_filter _ _, mgr.flat_filter _ _, hunreserved⟩

/-- A permanent endpoint that was just added stands, and its path equals none of the others: theirs
did not equal it. -/
theorem guarded_of_add (hinterop : s.interop = .ok mgr.interop) (hkeyed : s.Keyed)
    (h : outcome (e.add mgr : Action (StateM σ) Instance) s user = ((.ok x, t), user')) :
    ∃ p, x.path = some p ∧ t.Guarded mgr.interop x p
        (fun kind => s.Below mgr.interop e.kind.className kind.className) ∧
      t.Stores mgr.interop e.kind.className x := by
  obtain ⟨y, p, hcreate, rfl, hclass, -, hflat, -⟩ := of_add h
  obtain ⟨own, ns, hns, hpath, hfree, rfl⟩ := Server.create_eq_ok.1 hcreate
  have hlater : (s.withNamespace mgr.interop
      { ns with instances := ns.instances ++ [{ y with path := some p }] }).Holds mgr.interop own
      { ns with instances := ns.instances ++ [{ y with path := some p }] } := hns.withNamespace hns.2
  refine ⟨p, rfl, ⟨?_, own, _, hlater.1, ?_⟩, ?_⟩
  · rw [hns.interop_withNamespace, hinterop]
  · constructor
    · intro z hz hne q hq
      have hold : z ∈ ns.instances := by
        rcases List.mem_append.1 hz with hold | hnew
        · exact hold
        · exact absurd (List.mem_singleton.1 hnew) hne
      have hplaced : ns.Keyed own := hkeyed.of_holds hns
      exact hplaced.apart_of_free hpath hfree (hflat.of_pathFor hpath) z hold q hq
    · intro kind hwithin
      rw [Namespace.isWithin_instances] at hwithin
      exact ⟨own, ns, hns, hclass ▸ hwithin⟩
  · refine (Server.stores_iff hlater _).2 ?_
    refine (Namespace.stores_add ns _ _ _).2 (Or.inr ⟨rfl, ?_⟩)
    obtain ⟨cls, hdeclared, -⟩ := Namespace.of_pathFor hpath
    rw [← hclass]
    exact Namespace.isWithin_self (by rw [hdeclared]; rfl)

end NewEndpoint

namespace Server

variable {σ : Type}

/-- Permanent endpoints stay when servers are removed. A repository is loaded, managers take any
steps, and one of them adds a permanent destination or filter. Behind any further steps of any
managers that endpoint is still stored, if no removal of a named endpoint or subscription took it
away, and if its name is not an owned name for a manager that removed the server: of the kind of the
endpoint, or of the other kind too should its class be one of that kind. Of the manager that
added it nothing has to be known. -/
theorem permanent_after_steps {r : Repository} {default : Option String} {url interop : String}
    {s₀ s t : Server} (hload : r.server default url = .ok s₀) (hinterop : s₀.interop = .ok interop)
    (user user₁ user₂ : σ) (before after : List (ManagerStep σ))
    (hs : s₀.afterSteps user before = s) {adder : String} {mgr : Manager}
    (hmgr : s.attach adder = .ok mgr) (e : NewEndpoint) {x : Instance}
    (hadd : Action.outcome (e.add mgr) s user₁ = ((.ok x, t), user₂))
    (hkept : t.KeptByRemovals user₂ after fun s => s.Stores interop e.kind.className x)
    (hnames : ∀ step ∈ after, step.call = .removeServer → ∀ kind : EndpointKind,
      s.Below interop e.kind.className kind.className → (step.manager, kind) ≠ (adder, e.kind) →
      (Identity.classify kind step.manager e.identity).isOwned = false) :
    (t.afterSteps user₂ after).Stores interop e.kind.className x := by
  obtain ⟨hlater, hkeyed⟩ := (keyed_of_repository hload).afterSteps hinterop user before
  rw [hs] at hlater hkeyed
  obtain rfl : Manager.mk adder interop s.url = mgr :=
    Except.ok.inj ((attach_of_interop hlater adder).symm.trans hmgr)
  obtain ⟨y, q, -, hx, -, hname, hflat, hunreserved⟩ := NewEndpoint.of_add hadd
  obtain ⟨p, hp, hguarded, hstored⟩ := NewEndpoint.guarded_of_add hlater hkeyed hadd
  have hname' : x.endpointName = e.identity := by rw [hx, ← hname]; rfl
  have hflat' : x.All Value.Flat := by rw [hx]; exact hflat
  refine hguarded.afterSteps hstored hp hflat' hkept ?_
  intro step hstep hserver kind hkind
  rw [hname']
  by_cases hown : (step.manager, kind) = (adder, e.kind)
  · -- the manager that added it refuses names that start as its owned names do
    obtain ⟨hid, hown⟩ := Prod.mk.inj hown
    rw [hid, hown]
    exact Identity.not_isOwned_of_dropStart? hunreserved
  · exact hnames step hstep hserver kind hkind hown

/-- A manager adds a permanent filter beside an owned one, and removes the server; so does another
manager. The permanent filter is still stored. -/
theorem permanent_after_removeServer :
    ∃ s x t, (indicationRepository (.text "host")).server none "mock" = .ok s ∧
      Action.outcome ((NewEndpoint.filter "g" ⟨"", "WQL", []⟩).add ⟨"manager", "interop", "mock"⟩)
        (s.afterSteps ()
          [⟨"manager", fun _ _ => pure none, .addFilter "o" ⟨"", "WQL", []⟩ true⟩]) () =
          ((.ok x, t), ()) ∧
      (t.afterSteps () [⟨"other", fun _ _ => pure none, .removeServer⟩,
        ⟨"manager", fun _ _ => pure none, .removeServer⟩]).Stores "interop"
          EndpointKind.filter.className x := by
  have hrepository : ∃ s, (indicationRepository (.text "host")).server none "mock" = .ok s ∧
      let before := s.afterSteps ()
        [⟨"manager", fun _ _ => pure none, .addFilter "o" ⟨"", "WQL", []⟩ true⟩]
      s.interop.toOption = some "interop" ∧
      (before.attach "manager").toOption = some ⟨"manager", "interop", "mock"⟩ ∧
      (Action.outcome ((NewEndpoint.filter "g" ⟨"", "WQL", []⟩).add
        ⟨"manager", "interop", "mock"⟩) before ()).1.1.toOption.isSome :=
    exists_ok_of_any (by decide +kernel)
  obtain ⟨s, hload, hinterop, hattach, hadded⟩ := hrepository
  obtain ⟨x, hx⟩ := Option.isSome_iff_exists.1 hadded
  refine ⟨s, x, _, hload, Prod.ext (Prod.ext (toOption_eq_some.1 hx) rfl) rfl, ?_⟩
  refine permanent_after_steps hload (toOption_eq_some.1 hinterop) () () () _ _ rfl
    (toOption_eq_some.1 hattach) (.filter "g" ⟨"", "WQL", []⟩)
    (Prod.ext (Prod.ext (toOption_eq_some.1 hx) rfl) rfl) (KeptByRemovals.of_forall ?_) ?_
  · decide
  · intro step hstep _ kind _ _
    have hmanager : step.manager ∈ ["other", "manager"] := List.mem_map_of_mem hstep
    have hnone : ∀ id ∈ ["other", "manager"], ∀ kind : EndpointKind,
        (Identity.classify kind id "g").isOwned = false := by
      decide
    exact hnone _ hmanager kind

/-- A manager adds the endpoint as a permanent one, and a manager takes it away with the server. -/
def TakenAway (r : Repository) (e : NewEndpoint) (adder remover : String) : Prop :=
  isNamePart adder = true ∧ isNamePart remover = true ∧
  ∃ s x t, r.server none "mock" = .ok s ∧
    Action.outcome (e.add ⟨adder, "interop", "mock"⟩) s () = ((.ok x, t), ()) ∧
    t.Stores "interop" e.kind.className x ∧
    ¬ (t.afterSteps () [⟨remover, fun _ _ => pure none, .removeServer⟩]).Stores "interop"
        e.kind.className x

theorem takenAway_of_any {r : Repository} {e : NewEndpoint} {adder remover : String}
    (hadder : isNamePart adder = true) (hremover : isNamePart remover = true)
    (h : ((r.server none "mock").toOption.any fun s =>
      let added := (Action.outcome (e.add ⟨adder, "interop", "mock"⟩) s ()).1
      decide (s.interop.toOption = some "interop" ∧
        (added.1.toOption.any fun x => decide (x.endpointName = e.identity)) ∧
        (added.2.afterSteps () [⟨remover, fun _ _ => pure none, .removeServer⟩]).At "interop"
          fun ns => ∀ z ∈ ns.instances, z.endpointName ≠ e.identity)) = true) :
    TakenAway r e adder remover := by
  obtain ⟨s, hload, hinterop, hadded, own, ns, hentry, hgone⟩ := exists_ok_of_any h
  obtain ⟨x, hx, hname⟩ := exists_ok_of_any hadded
  obtain ⟨p, -, -, hstored⟩ := NewEndpoint.guarded_of_add (toOption_eq_some.1 hinterop)
    (keyed_of_repository hload) (Prod.ext (Prod.ext hx rfl) rfl)
  refine ⟨hadder, hremover, s, x, _, hload, Prod.ext (Prod.ext hx rfl) rfl, hstored, ?_⟩
  rintro ⟨own', ns', hns, hmem, -⟩
  obtain ⟨rfl, rfl⟩ := Prod.mk.inj (Option.some.inj (hentry.symm.trans hns.1))
  exact hgone x hmem hname

/-- Another manager takes away a permanent filter whose name is one of its own owned names. If
filters are destinations, the manager that added it takes away a filter whose name is one of its
owned names of destinations. -/
theorem permanent_not_after_removeServer :
    TakenAway (indicationRepository (.text "host"))
        (.filter "pywbemfilter:manager:g" ⟨"", "WQL", []⟩) "other" "manager" ∧
      TakenAway filtersAsDestinations
        (.filter "pywbemdestination:manager:g" ⟨"", "WQL", []⟩) "manager" "manager" :=
  ⟨takenAway_of_any (by decide) (by decide) (by decide +kernel),
    takenAway_of_any (by decide) (by decide) (by decide +kernel)⟩

end Server

end CimConsole
