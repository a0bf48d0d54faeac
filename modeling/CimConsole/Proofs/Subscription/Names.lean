import CimConsole.Proofs.Subscription.Closed
import CimConsole.Proofs.Subscription.Integrity
import CimConsole.Proofs.Subscription.Ownership

/-!
Names of endpoints. A new endpoint gets a name that no stored one of its kind has, whoever owns
it: an owned name is compared with all names, and a permanent one only with the names that the
manager does not own, but it does not start as those start. Removing takes names away. So names
that are pairwise different stay so, and an identity means at most two endpoints.
-/
namespace CimConsole

open Text

namespace Namespace

/-- No class of destinations, filters or subscriptions derives from another one whose instances
are endpoints. -/
def Apart (ns : Namespace) : Prop :=
  ∀ kind : EndpointKind, ∀ a ∈ roleClasses, a ≠ kind.className →
    ns.isWithin a kind.className = false

/-- The names of stored destinations are pairwise different, and so are those of filters. -/
def NamesDistinct (ns : Namespace) : Prop :=
  ∀ kind : EndpointKind, ((ns.endpoints kind).map Instance.endpointName).Nodup

instance (ns : Namespace) : Decidable ns.Apart :=
  inferInstanceAs (Decidable (∀ _ : EndpointKind, ∀ a ∈ roleClasses, _ → _))

instance (ns : Namespace) : Decidable ns.NamesDistinct :=
  inferInstanceAs (Decidable (∀ _ : EndpointKind, List.Nodup _))

variable {ns : Namespace}

theorem Apart.instances (h : ns.Apart) (xs : List Instance) :
    Apart { ns with instances := xs } := by
  intro kind a ha hne
  rw [isWithin_instances]
  exact h kind a ha hne

theorem NamesDistinct.sublist (h : ns.NamesDistinct) {kept : List Instance}
    (hsub : kept.Sublist ns.instances) : NamesDistinct { ns with instances := kept } := by
  intro kind
  refine (h kind).sublist (List.Sublist.map _ ?_)
  simp only [endpoints, isWithin_instances]
  exact hsub.filter _

/-- Names stay different with one more instance if none of its kind has its name. -/
theorem NamesDistinct.add (h : ns.NamesDistinct) {x : Instance}
    (hfree : ∀ kind : EndpointKind, ns.isWithin x.className kind.className = true →
      ∀ y, ns.Stores kind.className y → y.endpointName ≠ x.endpointName) :
    NamesDistinct { ns with instances := ns.instances ++ [x] } := by
  intro kind
  have hsplit : endpoints { ns with instances := ns.instances ++ [x] } kind =
      ns.endpoints kind ++ [x].filter fun x => ns.isWithin x.className kind.className := by
    simp only [endpoints, isWithin_instances, List.filter_append]
  rw [hsplit, List.map_append, List.nodup_append]
  refine ⟨h kind, (List.pairwise_singleton _ _).sublist (List.filter_sublist.map _), ?_⟩
  intro name hname other hother
  obtain ⟨y, hy, rfl⟩ := List.mem_map.1 hname
  obtain ⟨z, hz, rfl⟩ := List.mem_map.1 hother
  obtain ⟨hz, hwithin⟩ := List.mem_filter.1 hz
  obtain rfl := List.mem_singleton.1 hz
  exact hfree kind hwithin y (mem_endpoints.1 hy)

end Namespace

namespace Manager

variable {mgr : Manager} {kind : EndpointKind} {identity name : String}

/-- The name of what a manager owns starts as all of its owned names do. -/
theorem start_of_owns {x : Instance} (h : mgr.owns kind x = true) :
    (dropStart? (ownedStart kind mgr.id) x.endpointName).isSome = true := by
  obtain ⟨o, rfl, hmanager, hname⟩ := owns_iff.1 h
  rw [Option.isSome_iff_exists]
  refine ⟨o.label, dropStart?_eq_some_iff.2 ?_⟩
  rw [Instance.endpointName, hname, Option.getD_some, OwnedName.name, hmanager]

theorem newOwnedName_free {existing : List Instance}
    (h : mgr.newOwnedName kind identity existing = .ok name) :
    ∀ x ∈ existing, x.endpointName ≠ name := by
  unfold newOwnedName at h
  split at h
  · cases h
  · split at h
    · cases h
    · next hnone =>
      obtain rfl := Except.ok.inj h
      intro x hx heq
      exact hnone (List.any_eq_true.2 ⟨x, hx, beq_iff_eq.2 heq⟩)

theorem newPermanentName_free {existing : List Instance}
    (h : mgr.newPermanentName kind identity existing = .ok name) :
    ∀ x ∈ existing, x.endpointName ≠ name := by
  unfold newPermanentName at h
  dsimp only at h
  split at h
  · cases h
  split at h
  · cases h
  · next hstart =>
    split at h
    · cases h
    · next hnone =>
      obtain rfl := Except.ok.inj h
      intro x hx heq
      -- an endpoint that the check passes over is owned, and its name starts as this one must not
      cases howns : mgr.owns kind x with
      | true => exact hstart (heq ▸ start_of_owns howns)
      | false => exact hnone (List.any_eq_true.2 ⟨x, hx, by simp [howns, heq]⟩)

theorem endpointName_destination (mgr : Manager) (name url : String) (owned : Bool) :
    (mgr.destination name url owned).endpointName = name := by
  have hget : (mgr.destination name url owned).get? "Name" = some (.text name) := by
    rw [destination]
    iterate 3 rw [Instance.get?_withProperty_of_not_sameName _ _ (by decide)]
    apply Instance.get?_withProperty_self
    rw [systemInstance]
    iterate 3 rw [Instance.find?_withProperty_of_not_sameName _ _ (by decide)]
    rfl
  rw [Instance.endpointName, Instance.text?, hget]
  rfl

theorem endpointName_filter (mgr : Manager) (name : String) (query : Query) :
    (mgr.filter name query).endpointName = name := by
  have hget : (mgr.filter name query).get? "Name" = some (.text name) := by
    rw [filter]
    iterate 4 rw [Instance.get?_withProperty_of_not_sameName _ _ (by decide)]
    apply Instance.get?_withProperty_self
    rw [systemInstance]
    iterate 3 rw [Instance.find?_withProperty_of_not_sameName _ _ (by decide)]
    rfl
  rw [Instance.endpointName, Instance.text?, hget]
  rfl

/-- What an identity means among endpoints whose names are pairwise different. -/
theorem of_matching (mgr : Manager) (kind : EndpointKind) (identity : String)
    {all : List Instance} (h : (all.map Instance.endpointName).Nodup) :
    ((mgr.matching kind identity all).map Instance.endpointName).Nodup ∧
      ∀ x ∈ mgr.matching kind identity all,
        x.endpointName = identity ∨ x.endpointName = ownedStart kind mgr.id ++ identity := by
  unfold matching
  dsimp only
  split
  · refine ⟨h.sublist (List.filter_sublist.map _), fun x hx => Or.inl ?_⟩
    have htest := (List.mem_filter.1 hx).2
    rw [Bool.and_eq_true, beq_iff_eq] at htest
    exact htest.1
  · generalize hfound : (all.filter fun x => x.endpointName == identity ||
      x.endpointName == ownedStart kind mgr.id ++ identity) = found
    have hperm := List.perm_append_comm.trans (List.filter_append_perm (mgr.owns kind) found)
    constructor
    · rw [(hperm.map _).nodup_iff, ← hfound]
      exact h.sublist (List.filter_sublist.map _)
    · intro x hx
      rw [hperm.mem_iff, ← hfound] at hx
      simpa using (List.mem_filter.1 hx).2

/-- Among endpoints with different names an identity means at most two. -/
theorem findByIdentity_of_nodup {s : Server} {all : List Instance}
    (hall : mgr.endpoints s kind = .ok all) (h : (all.map Instance.endpointName).Nodup) :
    ∃ found, mgr.findByIdentity s kind identity = .ok found ∧ found.length ≤ 2 ∧
      (∀ x ∈ found, x ∈ all ∧ (x.endpointName = identity ∨
        x.endpointName = ownedStart kind mgr.id ++ identity)) ∧
      (found.countP fun x => x.endpointName == identity) ≤ 1 ∧
      (found.countP fun x => x.endpointName == ownedStart kind mgr.id ++ identity) ≤ 1 := by
  obtain ⟨hfound, hmeant⟩ := of_matching mgr kind identity h
  have hcount : ∀ name, ((mgr.matching kind identity all).countP fun x =>
      x.endpointName == name) ≤ 1 := by
    intro name
    have hle := List.nodup_iff_count.1 hfound name
    rwa [List.count, List.countP_map] at hle
  refine ⟨_, by rw [findByIdentity, hall]; rfl, ?_, fun x hx => ⟨mem_of_mem_matching hx,
    hmeant x hx⟩, hcount _, hcount _⟩
  have hsubset : (mgr.matching kind identity all).map Instance.endpointName ⊆
      [identity, ownedStart kind mgr.id ++ identity] := by
    intro name hname
    obtain ⟨x, hx, rfl⟩ := List.mem_map.1 hname
    simpa using hmeant x hx
  simpa using hfound.length_le_of_subset hsubset

end Manager

namespace Server

/-- The interop namespace has this name, its classes stand apart and its endpoints have
different names. -/
structure WellNamed (s : Server) (interop : String) : Prop where
  interop_eq : s.interop = .ok interop
  named : s.At interop fun ns => ns.Apart ∧ ns.NamesDistinct

/-- No stored endpoint of a kind has this name. -/
def Free (s : Server) (space : String) (kind : EndpointKind) (name : String) : Prop :=
  ∀ x, s.Stores space kind.className x → x.endpointName ≠ name

variable {s : Server} {space own : String} {ns ns' : Namespace}

theorem WellNamed.of_holds (h : s.WellNamed space) (hns : s.Holds space own ns) :
    ns.Apart ∧ ns.NamesDistinct := by
  obtain ⟨own', ns', hentry, hnamed⟩ := h.named
  obtain ⟨rfl, rfl⟩ := Prod.mk.inj (Option.some.inj (hentry.symm.trans hns.1))
  exact hnamed

theorem WellNamed.withNamespace (h : s.WellNamed space) (hns : s.Holds space own ns)
    (hfault : ns'.fault = none) (hnamed : ns'.Apart ∧ ns'.NamesDistinct) :
    (s.withNamespace space ns').WellNamed space := by
  refine ⟨?_, own, ns', (hns.withNamespace hfault).1, hnamed⟩
  rw [hns.interop_withNamespace, h.interop_eq]

end Server

namespace Manager

open CimConsole.Action (Ensures Preserves)

variable {σ : Type} {mgr : Manager} {kind : EndpointKind}

section Adding

/-- A name that is given to a new endpoint is free. -/
theorem ensures_newName_free {identity : String} {owned : Bool} :
    Ensures (fun s => s.WellNamed mgr.interop)
      (mgr.newName kind identity owned : Action (StateM σ) String)
      (fun name s => s.Free mgr.interop kind name ∧ s.WellNamed mgr.interop)
      fun s => s.WellNamed mgr.interop := by
  refine Ensures.bind (ensures_list fun s hs => hs) fun existing => ?_
  have hlift : ∀ answer : Except SubscriptionError String,
      (∀ name, answer = .ok name → ∀ x ∈ existing, x.endpointName ≠ name) →
      Ensures (fun s => s.Lists mgr.interop kind.className existing ∧ s.WellNamed mgr.interop)
        (newName.liftExcept answer : Action (StateM σ) String)
        (fun name s => s.Free mgr.interop kind name ∧ s.WellNamed mgr.interop)
        fun s => s.WellNamed mgr.interop := by
    intro answer hanswer
    cases answer with
    | error e => exact Ensures.throw fun s hs => hs.2
    | ok name =>
      refine Ensures.pure fun s hs => ⟨fun x hx => ?_, hs.2⟩
      exact hanswer name rfl x ((hs.1.mem_iff x).2 hx)
  cases owned with
  | true => exact hlift _ fun name h => newOwnedName_free h
  | false => exact hlift _ fun name h => newPermanentName_free h

/-- An endpoint can be added under a name that is free. -/
theorem ensures_create_named {x : Instance} {name : String}
    (hclass : x.className = kind.className) (hname : x.endpointName = name) :
    Ensures (fun s => s.Free mgr.interop kind name ∧ s.WellNamed mgr.interop)
      (mgr.create x : Action (StateM σ) Instance) (fun _ s => s.WellNamed mgr.interop)
      fun s => s.WellNamed mgr.interop := by
  refine ensures_create (fun s hs => hs.2) fun s own ns p hs hns _ _ => ?_
  obtain ⟨hfree, hnamed⟩ := hs
  obtain ⟨hapart, hdistinct⟩ := hnamed.of_holds hns
  refine hnamed.withNamespace hns hns.2 ⟨hapart.instances _, hdistinct.add ?_⟩
  intro other hwithin y hy
  have hsame : kind = other := by
    apply Decidable.not_not.1
    intro hne
    have hnot := hapart other kind.className (className_mem_roleClasses kind)
      fun heq => hne (className_injective heq)
    rw [← hclass, hwithin] at hnot
    cases hnot
  subst hsame
  exact fun heq => hfree y ((Server.stores_iff hns y).2 hy) (heq.trans hname)

/-- A subscription is no endpoint, so adding one leaves the names as they are. -/
theorem preserves_create_unnamed {x : Instance} (hclass : x.className = subscriptionClass) :
    Preserves (fun s => s.WellNamed mgr.interop) (mgr.create x : Action (StateM σ) Instance) := by
  refine ensures_create (fun s hs => hs) fun s own ns p hs hns _ _ => ?_
  obtain ⟨hapart, hdistinct⟩ := hs.of_holds hns
  refine hs.withNamespace hns hns.2 ⟨hapart.instances _, hdistinct.add ?_⟩
  intro kind hwithin
  have hnot := hapart kind subscriptionClass subscriptionClass_mem_roleClasses
    (className_ne_subscriptionClass kind).symm
  rw [← hclass, hwithin] at hnot
  cases hnot

end Adding

/-- Deleting whatever path takes names away. -/
theorem preserves_delete_named (p : ObjectPath) :
    Preserves (fun s => s.WellNamed mgr.interop) (mgr.delete p : Action (StateM σ) Unit) := by
  apply ensures_delete (fun s hs => hs)
  intro s own ns y hs hns hfound
  obtain ⟨hapart, hdistinct⟩ := hs.of_holds hns
  have hkept := hdistinct.sublist (Server.removeFirst_sublist (Namespace.isAt p) ns.instances)
  exact hs.withNamespace hns hns.2 ⟨hapart.instances _, hkept⟩

/-- Every operation keeps the names of endpoints different. -/
theorem preserves_perform_named (mgr : Manager) (chooser : Chooser (StateM σ))
    (call : SubscriptionCall) :
    Preserves (fun s => s.WellNamed mgr.interop) (mgr.perform chooser call) := by
  cases call with
  | addDestination identity url owned =>
    refine Preserves.unit ?_
    unfold addDestination
    split
    · exact Preserves.throw _
    · next normal _ =>
      refine Ensures.bind ensures_newName_free fun name => ?_
      exact ensures_create_named rfl (endpointName_destination mgr name normal owned)
  | addFilter identity query owned =>
    refine Preserves.unit (Ensures.bind ensures_newName_free fun name => ?_)
    exact ensures_create_named rfl (endpointName_filter mgr name query)
  | addSubscription destination filter owned select =>
    exact (closed_addSubscription (Preserves.closed _ chooser)
      fun _ _ => preserves_create_unnamed rfl).unit
  | removeEndpoint kind identity select =>
    exact (closed_removeEndpoint (Preserves.closed _ chooser) preserves_delete_named).unit
  | removeSubscription destination filter associated select =>
    exact (closed_removeSubscription (Preserves.closed _ chooser) preserves_delete_named).unit
  | removeServer =>
    exact (closed_removeServer (Preserves.closed _ chooser) preserves_delete_named).unit

end Manager

namespace Server

variable {σ : Type}

/-- Names of endpoints stay different. If no class of the three derives from one of the endpoint
classes, and the names of destinations are pairwise different and those of filters too, then they
are after any steps of any managers, whatever ids they have and whether a step succeeds or fails.
Where endpoints of a kind can be listed, an identity then means at most two of them for a manager:
one that has it as its name and one that has it as its label. -/
theorem names_distinct_after_steps {s t : Server} {interop : String}
    (hinterop : s.interop = .ok interop)
    (hnames : s.At interop fun ns => ns.Apart ∧ ns.NamesDistinct) (user : σ)
    (steps : List (ManagerStep σ)) (ht : s.afterSteps user steps = t) :
    t.interop = .ok interop ∧ t.At interop Namespace.NamesDistinct ∧
      ∀ (id : String) (mgr : Manager) (kind : EndpointKind) (identity : String)
        (all : List Instance), t.attach id = .ok mgr → mgr.endpoints t kind = .ok all →
        ∃ found, mgr.findByIdentity t kind identity = .ok found ∧ found.length ≤ 2 ∧
          (∀ x ∈ found, x ∈ all ∧ (x.endpointName = identity ∨
            x.endpointName = ownedStart kind mgr.id ++ identity)) ∧
          (found.countP fun x => x.endpointName == identity) ≤ 1 ∧
          (found.countP fun x => x.endpointName == ownedStart kind mgr.id ++ identity) ≤ 1 := by
  have hlater : t.WellNamed interop := ht ▸ afterSteps_of_preserves (fun _ hs => hs.interop_eq)
    (fun mgr chooser call hmgr => hmgr ▸ mgr.preserves_perform_named chooser call)
    ⟨hinterop, hnames⟩ user steps
  obtain ⟨own, ns, hns, -, hdistinct⟩ := hlater.named
  refine ⟨hlater.interop_eq, ⟨own, ns, hns, hdistinct⟩, fun id mgr kind identity all hmgr hall => ?_⟩
  have hmgr : Manager.mk id interop t.url = mgr :=
    Except.ok.inj ((attach_of_interop hlater.interop_eq id).symm.trans hmgr)
  obtain ⟨own', ns', hns', -, hinstances⟩ := instances_eq_ok.1 hall
  have hnamed : t.WellNamed mgr.interop := hmgr ▸ hlater
  refine Manager.findByIdentity_of_nodup hall ?_
  rw [hinstances]
  exact (hnamed.of_holds hns').2 kind

/-- A manager adds a filter, and another one a permanent filter of the same full name. -/
def addingFilters : List (ManagerStep Unit) :=
  [⟨"manager", fun _ _ => pure none, .addFilter "f" ⟨"", "WQL", []⟩ true⟩,
    ⟨"other:", fun _ _ => pure none, .addFilter "pywbemfilter:manager:f" ⟨"", "WQL", []⟩ false⟩]

/-- The second filter is refused. The label of the first one is the name of a permanent filter as
well, and means both. -/
theorem names_distinct_after_addFilter :
    ∃ s t, (indicationRepository (.text "host")).server none "mock" = .ok s ∧
      s.afterSteps () addingFilters = t ∧
      t.At "interop" Namespace.NamesDistinct ∧
      ∃ found, (Manager.mk "manager" "interop" "mock").findByIdentity t .filter "f" = .ok found ∧
        found.length = 2 ∧ (found.countP fun x => x.endpointName == "f") ≤ 1 := by
  have hrepository : ∃ s, (indicationRepository (.text "host")).server none "mock" = .ok s ∧
      s.interop.toOption = some "interop" ∧
      s.At "interop" (fun ns => ns.Apart ∧ ns.NamesDistinct) ∧
      let t := s.afterSteps () addingFilters
      let mgr : Manager := ⟨"manager", "interop", "mock"⟩
      (t.attach "manager").toOption = some mgr ∧ (mgr.endpoints t .filter).toOption.isSome ∧
        (mgr.findByIdentity t .filter "f").toOption.map List.length = some 2 :=
    exists_ok_of_any (by decide +kernel)
  obtain ⟨s, hload, hinterop, hnames, hattach, hlisted, hlength⟩ := hrepository
  obtain ⟨all, hall⟩ := Option.isSome_iff_exists.1 hlisted
  obtain ⟨-, hdistinct, hfind⟩ :=
    names_distinct_after_steps (toOption_eq_some.1 hinterop) hnames () _ rfl
  obtain ⟨found, hfound, -, -, hcount, -⟩ :=
    hfind "manager" _ .filter "f" all (toOption_eq_some.1 hattach) (toOption_eq_some.1 hall)
  rw [hfound] at hlength
  exact ⟨s, _, hload, rfl, hdistinct, found, hfound, Option.some.inj hlength, hcount⟩

/-- A repository with a destination and a filter in which filters are destinations too. -/
def filtersAsDestinations : Repository where
  namespaces := .ofList [("interop", {
    classes := indicationClasses.map fun c =>
      if c.name = EndpointKind.filter.className then
        { c with superclass := some EndpointKind.destination.className }
      else c
    instances := [endpointOn (.text "host") .destination "d",
      endpointOn (.text "host") .filter "f"] })]

/-- If filters are destinations, a filter may get the name of a destination. -/
theorem names_not_distinct_after_addFilter :
    ∃ s, filtersAsDestinations.server none "mock" = .ok s ∧
      s.interop.toOption = some "interop" ∧ s.At "interop" Namespace.NamesDistinct ∧
      let t := s.afterSteps ()
        [⟨"manager", fun _ _ => pure none, .addFilter "d" ⟨"", "WQL", []⟩ false⟩]
      ¬ t.At "interop" Namespace.NamesDistinct ∧
        (((Manager.mk "manager" "interop" "mock").findByIdentity t .destination "d").toOption.map
          List.length) = some 2 :=
  exists_ok_of_any (by decide +kernel)

end Server

end CimConsole
