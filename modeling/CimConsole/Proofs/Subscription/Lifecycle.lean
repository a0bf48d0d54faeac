import CimConsole.Proofs.Server.Reachable
import CimConsole.Proofs.Subscription.Additions
import CimConsole.Proofs.Subscription.Removal

/-!
A destination, a filter and a subscription of both, added one after the other and removed
together. Both identities mean the new endpoints alone, and no subscription but the new one refers
to them. So the removal finds the three instances, takes them and nothing else, and the server is
what it was.
-/
namespace CimConsole

open Text

namespace Manager

open CimConsole.Action (outcome outcome_bind_ok outcome_bind_eq_ok outcome_query_ok)

variable {σ : Type} {mgr : Manager} {s t : Server} {own destination filter : String}
  {ns : Namespace} {d f x : Instance} {dp fp xp : ObjectPath} {user user' : σ}

/-- A destination, a filter and a subscription of both, added one after the other. -/
def addJoined {m : Type → Type} [Monad m] (mgr : Manager) (chooser : Chooser m)
    (destination url : String) (ownedDestination : Bool) (filter : String) (query : Query)
    (ownedFilter owned select : Bool) : Action m (Instance × Instance × Instance) := do
  let d ← mgr.addDestination destination url ownedDestination
  let f ← mgr.addFilter filter query ownedFilter
  let x ← mgr.addSubscription chooser destination filter owned select
  pure (d, f, x)

/-- A new endpoint is what its identity means, once nothing else of its kind was added. -/
theorem New.outcome_resolveIdentity {kind : EndpointKind} {identity : String} {p : ObjectPath}
    (h : mgr.New kind identity own ns x p) (hns : s.Holds mgr.interop own ns)
    (hunknown : mgr.matching kind identity (ns.endpoints kind) = []) {xs : List Instance}
    (honly : (xs.filter fun y => ns.isWithin y.className kind.className) = [x])
    (chooser : Chooser (StateM σ)) (select : Bool) :
    outcome (mgr.resolveIdentity chooser kind identity select)
        (s.withNamespace mgr.interop (ns.adding xs)) user =
      ((.ok x, s.withNamespace mgr.interop (ns.adding xs)), user) := by
  have hall : mgr.endpoints (s.withNamespace mgr.interop (ns.adding xs)) kind =
      .ok (ns.endpoints kind ++ [x]) := by
    rw [← honly]
    exact Server.instances_adding hns xs h.declared
  exact Manager.outcome_resolveIdentity hall (h.matching_append hunknown)

section Roles

variable (hunrelated : ns.Unrelated) (hd : mgr.New .destination destination own ns d dp)
  (hf : mgr.New .filter filter own ns f fp) {xs : List Instance}
  (hxs : ∀ x ∈ xs, x.className = subscriptionClass ∧ (ns.class? subscriptionClass).isSome = true)

include hunrelated hd hf hxs

/-- Each of the instances that are added has one role. -/
theorem filter_role {className : String} (hname : className ∈ roleClasses) :
    (d :: f :: xs).filter (fun y => ns.isWithin y.className className) =
      (d :: f :: xs).filter fun y => y.className = className := by
  refine hunrelated.filter_isWithin hname fun y hy => ?_
  simp only [List.mem_cons] at hy
  rcases hy with rfl | rfl | hy
  · rw [hd.className_eq]
    exact ⟨className_mem_roleClasses _, hd.declared⟩
  · rw [hf.className_eq]
    exact ⟨className_mem_roleClasses _, hf.declared⟩
  · rw [(hxs y hy).1]
    exact ⟨subscriptionClass_mem_roleClasses, (hxs y hy).2⟩

theorem filter_endpoint (kind : EndpointKind) :
    (d :: f :: xs).filter (fun y => ns.isWithin y.className kind.className) =
      [match kind with | .destination => d | .filter => f] := by
  have hnone : (xs.filter fun y => y.className = kind.className) = [] := by
    refine List.filter_eq_nil_iff.2 fun y hy => ?_
    rw [(hxs y hy).1, decide_eq_false (className_ne_subscriptionClass kind).symm]
    simp
  rw [filter_role hunrelated hd hf hxs (className_mem_roleClasses kind), List.filter_cons,
    List.filter_cons, hnone, hd.className_eq, hf.className_eq]
  cases kind <;> rfl

theorem filter_subscription :
    (d :: f :: xs).filter (fun y => ns.isWithin y.className subscriptionClass) = xs := by
  have hall : (xs.filter fun y => y.className = subscriptionClass) = xs :=
    List.filter_eq_self.2 fun y hy => decide_eq_true (hxs y hy).1
  rw [filter_role hunrelated hd hf hxs subscriptionClass_mem_roleClasses, List.filter_cons,
    List.filter_cons, hall, hd.className_eq, hf.className_eq]
  rfl

end Roles

/-- The subscription of two endpoints that are found is made of their paths. -/
theorem of_addSubscription {chooser : Chooser (StateM σ)} {owned select : Bool}
    (hd : outcome (mgr.resolveIdentity chooser .destination destination select) s user =
      ((.ok d, s), user))
    (hf : outcome (mgr.resolveIdentity chooser .filter filter select) s user = ((.ok f, s), user))
    (hdp : d.path = some dp) (hfp : f.path = some fp) (hplain : (subscription dp fp).Plain)
    (h : outcome (mgr.addSubscription chooser destination filter owned select) s user =
      ((.ok x, t), user')) :
    ∃ xp, s.create mgr.interop (subscription dp fp) = .ok (xp, t) ∧
      x = { subscription dp fp with path := some xp } := by
  rw [addSubscription, outcome_bind_ok hd, outcome_bind_ok hf] at h
  split at h
  · cases h
  · rw [hdp, hfp] at h
    exact of_create hplain h

/-- A destination, a filter and a subscription of both that were added to a namespace. -/
structure Added (mgr : Manager) (destination filter own : String) (ns : Namespace)
    (d f x : Instance) (dp fp xp : ObjectPath) : Prop where
  first : mgr.New .destination destination own ns d dp
  second : mgr.New .filter filter own ns f fp
  path : x.path = some xp
  className_eq : x.className = subscriptionClass
  handler : x.path? EndpointKind.destination.role = some dp
  filter : x.path? EndpointKind.filter.role = some fp
  same_self : xp.same xp = true
  declared : (ns.class? subscriptionClass).isSome = true
  keyed : (ns.adding [d, f, x]).Keyed own

section Adding

variable (hns : s.Holds mgr.interop own ns) (hkeyed : ns.Keyed own) (hunrelated : ns.Unrelated)
  (hdestination : mgr.matching .destination destination (ns.endpoints .destination) = [])
  (hfilter : mgr.matching .filter filter (ns.endpoints .filter) = [])

include hns hkeyed hunrelated hdestination hfilter

theorem added_of_addJoined {chooser : Chooser (StateM σ)} {url : String} {query : Query}
    {ownedDestination ownedFilter owned select : Bool}
    (h : outcome (mgr.addJoined chooser destination url ownedDestination filter query ownedFilter
      owned select) s user = ((.ok (d, f, x), t), user')) :
    ∃ dp fp xp, mgr.Added destination filter own ns d f x dp fp xp ∧
      t = s.withNamespace mgr.interop (ns.adding [d, f, x]) := by
  obtain ⟨d', _, _, hdone, h⟩ := outcome_bind_eq_ok.1 h
  obtain ⟨f', _, _, hfdone, h⟩ := outcome_bind_eq_ok.1 h
  obtain ⟨x', _, user₃, hxdone, h⟩ := outcome_bind_eq_ok.1 h
  obtain ⟨⟨⟩, rfl⟩ := Prod.mk.inj h
  have hheld : ∀ xs, (s.withNamespace mgr.interop (ns.adding xs)).Holds mgr.interop own
      (ns.adding xs) := fun xs => hns.withNamespace hns.2
  obtain ⟨dp, hd, rfl⟩ := new_of_addDestination hns hdone
  obtain ⟨fp, hf, rfl⟩ := new_of_addFilter (hheld [d]) hfdone
  have hkeyed₂ : (ns.adding [d, f]).Keyed own := by
    have h := hf.keyed (hd.keyed hkeyed)
    rwa [Namespace.adding_adding] at h
  replace hf := hf.of_adding
  -- both identities are found again, so the subscription is that of the two
  have honly : ∀ kind : EndpointKind,
      ([d, f].filter fun y => ns.isWithin y.className kind.className) =
        [match kind with | .destination => d | .filter => f] :=
    filter_endpoint hunrelated hd hf (by simp)
  have hplain := plain_subscription hd.plain hf.plain
  rw [hns.withNamespace_withNamespace, Namespace.adding_adding, List.singleton_append] at hxdone
  obtain ⟨xp, hcreate, rfl⟩ := of_addSubscription
    (hd.outcome_resolveIdentity hns hdestination (honly .destination) chooser select)
    (hf.outcome_resolveIdentity hns hfilter (honly .filter) chooser select) hd.path hf.path hplain
    hxdone
  obtain ⟨own', ns', hns', hpath, hfree, rfl⟩ := Server.create_eq_ok.1 hcreate
  obtain ⟨rfl, rfl⟩ := (hheld [d, f]).unique hns'
  refine ⟨dp, fp, xp, ?_, ?_⟩
  · constructor
    case first => exact hd
    case second => exact hf
    case path => rfl
    case className_eq => exact (Instance.className_placed _ _).trans (className_subscription dp fp)
    case handler => exact (Instance.path?_placed _ _ _).trans (path?_handler dp fp)
    case filter => exact (Instance.path?_placed _ _ _).trans (path?_filter dp fp)
    case same_self => exact hplain.same_path hpath
    case declared =>
      obtain ⟨cls, hclass, -⟩ := Namespace.of_pathFor hpath
      exact Option.isSome_iff_exists.2 ⟨cls, hclass⟩
    case keyed =>
      have hkeyed₃ := hkeyed₂.add hpath hfree
      rwa [← Namespace.adding, Namespace.adding_adding] at hkeyed₃
  · rw [← Namespace.adding, Namespace.adding_adding, hns.withNamespace_withNamespace]
    rfl

end Adding

section Removing

variable (h : mgr.Added destination filter own ns d f x dp fp xp)

include h

theorem Added.isSubscription : ∀ y ∈ [x], y.className = subscriptionClass ∧
    (ns.class? subscriptionClass).isSome = true := by
  simpa only [List.mem_singleton, forall_eq] using ⟨h.className_eq, h.declared⟩

/-- The subscription that was added is the only one of the two endpoints. -/
theorem Added.filter_refersTo
    (hunused : ns.subscriptions.any (refersTo .destination d) = false) :
    ((ns.subscriptions ++ [x]).filter fun z =>
      refersTo .destination d z && refersTo .filter f z) = [x] := by
  have hothers : (ns.subscriptions.filter fun z =>
      refersTo .destination d z && refersTo .filter f z) = [] := by
    refine List.filter_eq_nil_iff.2 fun z hz hrefers => ?_
    exact List.any_eq_false.1 hunused z hz (Bool.and_eq_true_iff.1 hrefers).1
  have hdestination : refersTo .destination d x = true :=
    refersTo_eq_true.2 ⟨dp, dp, h.handler, h.first.path, h.first.same_self⟩
  have hfilter : refersTo .filter f x = true :=
    refersTo_eq_true.2 ⟨fp, fp, h.filter, h.second.path, h.second.same_self⟩
  rw [List.filter_append, hothers, List.filter_cons, hdestination, hfilter]
  rfl

variable (hns : s.Holds mgr.interop own ns)

include hns

/-- The subscription goes first, then the destination and the filter. -/
theorem Added.delete :
    (s.withNamespace mgr.interop (ns.adding [d, f, x])).delete mgr.interop xp =
        .ok (s.withNamespace mgr.interop (ns.adding [d, f])) ∧
      (s.withNamespace mgr.interop (ns.adding [d, f])).delete mgr.interop dp =
        .ok (s.withNamespace mgr.interop (ns.adding [f])) ∧
      (s.withNamespace mgr.interop (ns.adding [f])).delete mgr.interop fp = .ok s := by
  have hkeyed₂ : (ns.adding [d, f]).Keyed own := h.keyed.sublist (by simp [Namespace.adding])
  have hkeyed₁ : (ns.adding [f]).Keyed own := h.keyed.sublist (by simp [Namespace.adding])
  have hlast := Server.delete_adding hns [] [] hkeyed₁ h.second.path h.second.same_self
  rw [List.append_nil, Namespace.adding_nil, hns.withNamespace_self] at hlast
  exact ⟨Server.delete_adding hns [d, f] [] h.keyed h.path h.same_self,
    Server.delete_adding hns [] [f] hkeyed₂ h.first.path h.first.same_self, hlast⟩

variable (hunrelated : ns.Unrelated)

include hunrelated

theorem Added.subscriptions :
    mgr.subscriptions (s.withNamespace mgr.interop (ns.adding [d, f, x])) =
        .ok (ns.subscriptions ++ [x]) ∧
      mgr.subscriptions (s.withNamespace mgr.interop (ns.adding [d, f])) =
        .ok ns.subscriptions := by
  have hthree := Server.instances_adding hns [d, f, x] h.declared
  have htwo := Server.instances_adding hns [d, f] h.declared
  rw [filter_subscription hunrelated h.first h.second h.isSubscription] at hthree
  rw [filter_subscription hunrelated h.first h.second (by simp), List.append_nil] at htwo
  exact ⟨hthree, htwo⟩

omit h hns hunrelated

theorem outcome_removeUnused {kind : EndpointKind} {remaining : List Instance} {e : Instance}
    {p : ObjectPath} {removed : RemovedObjects}
    (hunused : remaining.any (refersTo kind e) = false) (hpath : e.path = some p)
    (hdelete : s.delete mgr.interop p = .ok t) :
    outcome (mgr.removeUnused remaining kind e removed : Action (StateM σ) RemovedObjects) s user =
      ((.ok (removed.addEndpoint kind p), t), user) := by
  rw [removeUnused, hunused, hpath]
  exact outcome_bind_ok (outcome_delete hdelete)

include h hns hunrelated

/-- The removal finds the three that were added, and takes them one after the other. -/
theorem Added.outcome_removeSubscription (hkeyed : ns.Keyed own) (hresolved : ns.Resolved)
    (hdestination : mgr.matching .destination destination (ns.endpoints .destination) = [])
    (hfilter : mgr.matching .filter filter (ns.endpoints .filter) = [])
    (chooser : Chooser (StateM σ)) (select : Bool) (user : σ) :
    outcome (mgr.removeSubscription chooser destination filter true select)
        (s.withNamespace mgr.interop (ns.adding [d, f, x])) user =
      ((.ok { subscriptions := [xp], filters := [fp], destinations := [dp] }, s), user) := by
  have honly := filter_endpoint hunrelated h.first h.second h.isSubscription
  have hunused := hresolved.unused hkeyed h.first
  obtain ⟨hall, hremaining⟩ := h.subscriptions hns hunrelated
  obtain ⟨hthird, hfirst, hsecond⟩ := h.delete hns
  rw [removeSubscription,
    outcome_bind_ok (h.first.outcome_resolveIdentity hns hdestination (honly .destination) _ _),
    outcome_bind_ok (h.second.outcome_resolveIdentity hns hfilter (honly .filter) _ _),
    outcome_bind_ok (outcome_query_ok hall)]
  simp only [h.filter_refersTo hunused, single, List.isEmpty_cons, Bool.false_eq_true, if_false,
    pure_bind, h.path, Bool.not_true]
  rw [outcome_bind_ok (outcome_delete hthird), outcome_bind_ok (outcome_query_ok hremaining),
    outcome_bind_ok (outcome_removeUnused hunused h.first.path hfirst),
    outcome_removeUnused (hresolved.unused hkeyed h.second) h.second.path hsecond]
  rfl

end Removing

theorem find?_of_endpointOf {kind : EndpointKind} {e : Instance} (hns : s.Holds mgr.interop own ns)
    (h : mgr.endpointOf s kind x = .ok (some e)) :
    ∃ r e, x.path? kind.role = some r ∧ ns.find? r = some e := by
  unfold endpointOf at h
  split at h
  · next r hr =>
    unfold resolve at h
    split at h
    · next found hget =>
      obtain ⟨own', ns', hns', -, hfound⟩ := Server.get_eq_ok.1 hget
      obtain ⟨-, rfl⟩ := hns.unique hns'
      exact ⟨r, found, hr, hfound⟩
    · split at h <;> cases h
  · cases h

/-- Removing a subscription with what belongs to it undoes adding all of it. Take any server that a
loaded one becomes by calls, on which no two of the three classes are related and the endpoints of
all subscriptions exist. If a destination, a filter and a subscription of both are added under
identities that meant none, each owned or not, then removing the subscription with its endpoints
succeeds. Nobody is asked for a choice, exactly the three paths come back, and the server is the
one from before. -/
theorem removeSubscription_addJoined (hs : s.Reachable) (mgr : Manager)
    (hunrelated : s.At mgr.interop Namespace.Unrelated) {all : List Instance}
    (hall : mgr.subscriptions s = .ok all)
    (hendpoints : ∀ z ∈ all, ∀ kind, ∃ e, mgr.endpointOf s kind z = .ok (some e))
    (hdestination : mgr.findByIdentity s .destination destination = .ok [])
    (hfilter : mgr.findByIdentity s .filter filter = .ok []) {chooser : Chooser (StateM σ)}
    {url : String} {query : Query} {ownedDestination ownedFilter owned select : Bool}
    (hadded : outcome (mgr.addJoined chooser destination url ownedDestination filter query
      ownedFilter owned select) s user = ((.ok (d, f, x), t), user')) :
    ∃ dp fp xp, d.path = some dp ∧ f.path = some fp ∧ x.path = some xp ∧
      ∀ (τ : Type) (chooser : Chooser (StateM τ)) (select : Bool) (user : τ),
        outcome (mgr.removeSubscription chooser destination filter true select) t user =
          ((.ok { subscriptions := [xp], filters := [fp], destinations := [dp] }, s), user) := by
  obtain ⟨own, ns, hns, -, rfl⟩ := Server.instances_eq_ok.1 hall
  obtain ⟨own', ns', hentry, hunrelated⟩ := hunrelated
  obtain ⟨rfl, rfl⟩ := Prod.mk.inj (Option.some.inj (hentry.symm.trans hns.1))
  have hunknown : ∀ {kind identity}, mgr.findByIdentity s kind identity = .ok [] →
      mgr.matching kind identity (ns'.endpoints kind) = [] := by
    intro kind identity h
    obtain ⟨found, hlist, h⟩ := bind_eq_ok.1 h
    obtain ⟨own, ns, hns', -, rfl⟩ := Server.instances_eq_ok.1 hlist
    obtain ⟨rfl, rfl⟩ := hns.unique hns'
    exact Except.ok.inj h
  have hkeyed := hs.keyed.of_holds hns
  have hresolved : ns'.Resolved := fun z hz kind => by
    obtain ⟨e, he⟩ := hendpoints z hz kind
    exact find?_of_endpointOf hns he
  obtain ⟨dp, fp, xp, hthree, rfl⟩ := added_of_addJoined hns hkeyed hunrelated
    (hunknown hdestination) (hunknown hfilter) hadded
  exact ⟨dp, fp, xp, hthree.first.path, hthree.second.path, hthree.path, fun τ chooser select user =>
    hthree.outcome_removeSubscription hns hunrelated hkeyed hresolved (hunknown hdestination)
      (hunknown hfilter) chooser select user⟩

/-- Beside other subscriptions, a manager adds an owned destination and a permanent filter. -/
def addingBeside : Action (StateM Unit) (Instance × Instance × Instance) :=
  addJoined ⟨"manager", "interop", "mock"⟩ (fun _ _ => pure none) "e" "http://host:5988" true "g"
    ⟨"", "WQL", []⟩ false true false

/-- They are taken away again with their subscription, and the other subscriptions stay. -/
theorem removeSubscription_addJoined_beside_others :
    ∃ s₀ all t removed, ownedRepository.server none "mock" = .ok s₀ ∧
      (Manager.mk "manager" "interop" "mock").subscriptions (s₀.afterCalls subscribing) = .ok all ∧
      all.length = 2 ∧ (outcome addingBeside (s₀.afterCalls subscribing) ()).1.2 = t ∧
      outcome ((Manager.mk "manager" "interop" "mock").removeSubscription (fun _ _ => pure none) "e"
        "g" true false : Action (StateM Unit) RemovedObjects) t () =
          ((.ok removed, s₀.afterCalls subscribing), ()) ∧
      removed.subscriptions.length = 1 ∧ removed.filters.length = 1 ∧
      removed.destinations.length = 1 := by
  have hrepository : ∃ s₀, ownedRepository.server none "mock" = .ok s₀ ∧
      let s := s₀.afterCalls subscribing
      let mgr : Manager := ⟨"manager", "interop", "mock"⟩
      s.At "interop" Namespace.Unrelated ∧
        ((mgr.subscriptions s).toOption.any fun all => all.length == 2 && all.all fun z =>
          decide (∀ kind, (mgr.endpointOf s kind z).toOption.join.isSome)) = true ∧
        (mgr.findByIdentity s .destination "e").toOption.map List.length = some 0 ∧
        (mgr.findByIdentity s .filter "g").toOption.map List.length = some 0 ∧
        (outcome addingBeside s ()).1.1.toOption.isSome :=
    exists_ok_of_any (by decide +kernel)
  obtain ⟨s₀, hload, hunrelated, hlisted, hd, hf, hadded⟩ := hrepository
  obtain ⟨all, hall, hlisted⟩ := (Option.any_eq_true _ _).1 hlisted
  obtain ⟨hlength, hresolved⟩ := Bool.and_eq_true_iff.1 hlisted
  have hnone : ∀ {answer : Except ServerError (List Instance)},
      answer.toOption.map List.length = some 0 → answer = .ok [] := by
    intro answer h
    obtain ⟨xs, hxs, hlength⟩ := Option.map_eq_some_iff.1 h
    rw [toOption_eq_some.1 hxs, List.eq_nil_of_length_eq_zero hlength]
  have hendpoints : ∀ z ∈ all, ∀ kind, ∃ e,
      (Manager.mk "manager" "interop" "mock").endpointOf (s₀.afterCalls subscribing) kind z =
        .ok (some e) := by
    intro z hz kind
    have hboth := of_decide_eq_true (List.all_eq_true.1 hresolved z hz)
    obtain ⟨e, he⟩ := Option.isSome_iff_exists.1 (hboth kind)
    exact ⟨e, toOption_eq_some.1 (Option.join_eq_some_iff.1 he)⟩
  obtain ⟨⟨d, f, x⟩, hadded⟩ := Option.isSome_iff_exists.1 hadded
  obtain ⟨dp, fp, xp, -, -, -, hremove⟩ := removeSubscription_addJoined
    ⟨_, _, _, s₀, subscribing, hload, rfl⟩ ⟨"manager", "interop", "mock"⟩ hunrelated
    (toOption_eq_some.1 hall) hendpoints (hnone hd) (hnone hf)
    (Prod.ext (Prod.ext (toOption_eq_some.1 hadded) rfl) rfl)
  exact ⟨s₀, all, _, _, hload, toOption_eq_some.1 hall, by simpa using hlength, rfl,
    hremove Unit (fun _ _ => pure none) false (), rfl, rfl, rfl⟩

end Manager

end CimConsole
