import CimConsole.Proofs.Subscription.Integrity
import CimConsole.Proofs.Subscription.Sweep

/-!
Failures of a manager. An operation looks up what it needs and changes the server after that. What
it still does behind its first change cannot fail there: what was created is read back, the classes
that are listed are declared, and an endpoint that was found is stored until it is deleted, since
neither the subscription nor the other endpoint is the same instance. So an operation that fails
has changed nothing.
-/
namespace CimConsole

open Text

namespace Namespace

/-- The three classes are declared and not related, and no stored path holds a NaN. -/
structure Orderly (ns : Namespace) : Prop where
  declared : ∀ name ∈ roleClasses, (ns.class? name).isSome = true
  unrelated : ns.Unrelated
  plain : ∀ x ∈ ns.instances, ∀ p ∈ x.path, p.Tabled ∧ p.anyReal Number.Binary64.isNaN = false

instance (ns : Namespace) : Decidable ns.Orderly :=
  decidable_of_iff
    ((∀ name ∈ roleClasses, (ns.class? name).isSome = true) ∧ ns.Unrelated ∧
      ∀ x ∈ ns.instances, ∀ p ∈ x.path, p.Tabled ∧ p.anyReal Number.Binary64.isNaN = false)
    ⟨fun ⟨a, b, c⟩ => ⟨a, b, c⟩, fun h => ⟨h.1, h.2, h.3⟩⟩

variable {ns : Namespace}

theorem Orderly.same_self (h : ns.Orderly) : ∀ x ∈ ns.instances, ∀ p ∈ x.path, p.same p = true :=
  fun x hx p hp => ObjectPath.same_self (h.plain x hx p hp).1 (h.plain x hx p hp).2

theorem Orderly.sublist (h : ns.Orderly) {kept : List Instance} (hsub : kept.Sublist ns.instances) :
    Orderly { ns with instances := kept } where
  declared := h.declared
  unrelated := h.unrelated.instances kept
  plain x hx := h.plain x (hsub.mem hx)

end Namespace

namespace Server

/-- The namespace of this name is in order, in all that the operations of a manager rely on. -/
def Ready (s : Server) (space : String) : Prop :=
  ∃ own ns, s.Holds space own ns ∧ ns.Keyed own ∧ ns.Orderly

/-- All namespaces are keyed, and the one of this name is orderly; it may be out of order. -/
structure Tidy (s : Server) (space : String) : Prop where
  keyed : s.Keyed
  orderly : s.At space Namespace.Orderly

variable {s t : Server} {space own a b className : String} {ns : Namespace} {x y : Instance}
  {p : ObjectPath}

theorem Tidy.of_holds (h : s.Tidy space) (hns : s.Holds space own ns) : ns.Orderly := by
  obtain ⟨own', ns', hentry, horderly⟩ := h.orderly
  obtain ⟨-, rfl⟩ := Prod.mk.inj (Option.some.inj (hentry.symm.trans hns.1))
  exact horderly

theorem Tidy.ready (h : s.Tidy space) (hns : s.Holds space own ns) : s.Ready space :=
  ⟨own, ns, hns, h.keyed.of_holds hns, h.of_holds hns⟩

theorem Ready.exists_lists (h : s.Ready space) (hname : className ∈ roleClasses) :
    ∃ xs, s.instances space className none = .ok xs ∧ s.Lists space className xs := by
  obtain ⟨own, ns, hns, -, horderly⟩ := h
  exact ⟨_, instances_eq_ok.2 ⟨own, ns, hns, horderly.declared _ hname, rfl⟩, own, ns, hns, rfl⟩

/-- What is stored as one of the three is not stored as another one. -/
theorem Ready.ne_of_stores (h : s.Ready space) (ha : a ∈ roleClasses) (hb : b ∈ roleClasses)
    (hab : a ≠ b) (hx : s.Stores space a x) (hy : s.Stores space b y) : x ≠ y := by
  obtain ⟨own, ns, hns, -, horderly⟩ := h
  rw [stores_iff hns] at hx hy
  rintro rfl
  have hnot := horderly.unrelated.not_within ha hb hab hx.2
  rw [hy.2] at hnot
  cases hnot

/-- The path of a stored instance can be deleted, and this instance is gone then. -/
theorem Ready.delete (h : s.Ready space) (hy : s.Stores space className y)
    (hp : y.path = some p) :
    ∃ t, s.delete space p = .ok t ∧ t.Ready space ∧ s.Removed t space y := by
  obtain ⟨own, ns, hns, hkeyed, horderly⟩ := h
  obtain ⟨hmem, -⟩ := (stores_iff hns y).1 hy
  have hself := horderly.same_self y hmem p hp
  obtain ⟨before, after, hsplit⟩ := List.append_of_mem hmem
  have hdelete := delete_stored hns hkeyed hsplit hp hself
  obtain ⟨own', ns', z, hns', -, hfound, ht⟩ := delete_eq_ok.1 hdelete
  obtain ⟨rfl, rfl⟩ := hns.unique hns'
  obtain rfl := hkeyed.find?_eq hmem hp hself hfound
  have hfewer : (before ++ after).Sublist ns.instances :=
    hsplit ▸ List.Sublist.append_left (List.sublist_cons_self z after) before
  exact ⟨_, hdelete, ⟨own, _, hns.withNamespace hns.2, hkeyed.sublist hfewer,
    horderly.sublist hfewer⟩, ht ▸ hns.removed hfound⟩

end Server

/-- A failure of the action leaves this server as it is. -/
def Action.Atomic {σ α : Type} (s : Server) (a : Action (StateM σ) α) : Prop :=
  Ensures (· = s) a (fun _ _ => True) (· = s)

namespace Manager

open CimConsole.Action (Ensures Atomic)

variable {σ : Type} {mgr : Manager} {s₀ : Server} {P E : Server → Prop}

section Adding

/-- What is created is read back, so creating an instance fails before it changes anything. -/
theorem atomic_create {x : Instance} (hx : x.Plain) :
    Atomic s₀ (mgr.create x : Action (StateM σ) Instance) := by
  refine Ensures.bind (R := fun p t => s₀.create mgr.interop x = .ok (p, t))
    (Ensures.change (fun s p t hs hc => hs ▸ hc) fun s hs => hs) fun p => ?_
  refine Ensures.query_total fun t hc => ?_
  obtain ⟨own, ns, -, hpath, -, -⟩ := Server.create_eq_ok.1 hc
  exact ⟨_, Server.get_created hc (hx.same_path hpath), trivial⟩

theorem atomic_addDestination {identity url : String} {owned : Bool} :
    Atomic s₀ (mgr.addDestination identity url owned : Action (StateM σ) Instance) := by
  unfold addDestination
  split
  · exact Ensures.throw fun s hs => hs
  · exact Ensures.bind (ensures_newName fun s hs => hs) fun name =>
      atomic_create (plain_destination mgr _ _ _)

theorem atomic_addFilter {identity : String} {query : Query} {owned : Bool} :
    Atomic s₀ (mgr.addFilter identity query owned : Action (StateM σ) Instance) :=
  Ensures.bind (ensures_newName fun _ hs => hs) fun _ => atomic_create (plain_filter mgr _ _)

/-- A subscription holds the paths of its endpoints and else only whole numbers. -/
theorem plain_subscription {dp fp : ObjectPath} (hd : (Value.reference dp).Plain)
    (hf : (Value.reference fp).Plain) : (subscription dp fp).Plain := by
  rw [subscription]
  apply Instance.All.withProperty _ _ (Value.Flat.integer _).plain
  apply Instance.All.withProperty _ _ (Value.Flat.integer _).plain
  apply Instance.All.withProperty _ _ (Value.Flat.integer _).plain
  apply Instance.All.withProperty _ _ (Value.Flat.integer _).plain
  exact ((Instance.all_bare _).withProperty _ hf).withProperty _ hd

theorem atomic_addSubscription {chooser : Chooser (StateM σ)} {destination filter : String}
    {owned select : Bool} (htidy : s₀.Tidy mgr.interop) :
    Atomic s₀ (mgr.addSubscription chooser destination filter owned select) := by
  refine Ensures.bind (ensures_resolveIdentity fun s hs => hs) fun d => ?_
  refine Ensures.bind (ensures_resolveIdentity fun s hs => hs.2) fun f => ?_
  split
  · exact Ensures.throw fun s hs => hs.2.2
  split
  · next dp fp hd hf =>
    rintro s user ⟨⟨own, ns, hns, hfs⟩, hds, rfl⟩
    rw [Server.stores_iff hns] at hds
    have horderly := htidy.of_holds hns
    exact atomic_create (plain_subscription (horderly.plain d hds.1 dp hd)
      (horderly.plain f hfs.1 fp hf)) s user rfl
  · exact Ensures.throw fun s hs => hs.2.2

end Adding

section Removing

theorem ensures_delete_ready {className : String} {y : Instance} {p : ObjectPath}
    (hp : y.path = some p)
    (hP : ∀ s, P s → s.Ready mgr.interop ∧ s.Stores mgr.interop className y)
    {Q : Server → Prop}
    (hQ : ∀ s t, P s → t.Ready mgr.interop → s.Removed t mgr.interop y → Q t) :
    Ensures P (mgr.delete p : Action (StateM σ) Unit) (fun _ s => Q s) E := by
  refine Ensures.change_total fun s hs => ?_
  obtain ⟨hready, hstored⟩ := hP s hs
  obtain ⟨t, hdelete, hlater, hremoved⟩ := hready.delete hstored hp
  exact ⟨(), t, by rw [hdelete]; rfl, hQ s t hs hlater hremoved⟩

theorem atomic_removeEndpoint {chooser : Chooser (StateM σ)} {kind : EndpointKind}
    {identity : String} {select : Bool} :
    Atomic s₀ (mgr.removeEndpoint chooser kind identity select) := by
  refine Ensures.bind (ensures_resolveIdentity fun s hs => hs) fun target => ?_
  refine Ensures.bind (ensures_list fun s hs => hs.2) fun subscriptions => ?_
  dsimp only
  split
  · exact Ensures.throw fun s hs => hs.2.2
  split
  · exact Ensures.throw fun s hs => hs.2.2
  · exact Ensures.bind (R := fun _ _ => True)
      (Ensures.change (fun _ _ _ _ _ => trivial) fun s hs => hs.2.2) fun _ =>
        Ensures.pure fun _ _ => trivial

/-- A stored endpoint can be removed. -/
theorem ensures_removeUnused_ready {remaining : List Instance} {kind : EndpointKind}
    {e : Instance} {removed : RemovedObjects}
    (hP : ∀ s t, s.Ready mgr.interop → P s → s.Stores mgr.interop kind.className e →
      s.Removed t mgr.interop e → P t) :
    Ensures (fun s => s.Ready mgr.interop ∧ s.Stores mgr.interop kind.className e ∧ P s)
      (mgr.removeUnused remaining kind e removed : Action (StateM σ) RemovedObjects)
      (fun _ s => s.Ready mgr.interop ∧ P s) E := by
  unfold removeUnused
  split
  · exact Ensures.pure fun s hs => ⟨hs.1, hs.2.2⟩
  split
  · exact Ensures.pure fun s hs => ⟨hs.1, hs.2.2⟩
  · next p hp =>
    refine Ensures.bind (ensures_delete_ready hp (fun s hs => ⟨hs.1, hs.2.1⟩)
      (Q := fun s => s.Ready mgr.interop ∧ P s) fun s t hs ht hremoved => ?_)
      fun _ => Ensures.pure fun s hs => hs
    exact ⟨ht, hP s t hs.1 hs.2.2 hs.2.1 hremoved⟩

/-- Once the subscription is gone the removal goes through. -/
theorem ensures_removeAssociated_ready {associated : Bool} {d f : Instance}
    {removed : RemovedObjects} :
    Ensures (fun s => s.Ready mgr.interop ∧
        s.Stores mgr.interop EndpointKind.destination.className d ∧
        s.Stores mgr.interop EndpointKind.filter.className f)
      (if !associated then pure removed
      else do
        let remaining ← Action.query mgr.subscriptions
        let removed ← mgr.removeUnused remaining .destination d removed
        mgr.removeUnused remaining .filter f removed : Action (StateM σ) RemovedObjects)
      (fun _ _ => True) E := by
  split
  · exact Ensures.pure fun s hs => trivial
  refine Ensures.bind (Ensures.query_total fun s hs => ?_) fun remaining =>
    Ensures.bind (ensures_removeUnused_ready
      (P := fun s => s.Stores mgr.interop EndpointKind.filter.className f) ?_) fun removed =>
        (ensures_removeUnused_ready (P := fun _ => True) fun _ _ _ _ _ _ => trivial).mono
          (fun s hs => ⟨hs.1, hs.2, trivial⟩) (fun _ _ _ => trivial) fun s hs => hs
  · obtain ⟨xs, hxs, -⟩ := hs.1.exists_lists subscriptionClass_mem_roleClasses
    exact ⟨xs, hxs, hs⟩
  · intro s t hready hf hd hremoved
    exact hremoved.kept _ f hf (hready.ne_of_stores (className_mem_roleClasses _)
      (className_mem_roleClasses _) (by decide) hf hd)

theorem atomic_removeSubscription {chooser : Chooser (StateM σ)} {destination filter : String}
    {associated select : Bool} (htidy : s₀.Tidy mgr.interop) :
    Atomic s₀ (mgr.removeSubscription chooser destination filter associated select) := by
  refine Ensures.bind (ensures_resolveIdentity fun s hs => hs) fun d => ?_
  refine Ensures.bind (ensures_resolveIdentity fun s hs => hs.2) fun f => ?_
  refine Ensures.bind (ensures_list fun s hs => hs.2.2) fun all => ?_
  dsimp only
  split
  · exact Ensures.throw fun s hs => hs.2.2.2
  refine Ensures.bind (ensures_single fun s hs => hs.2.2.2) fun x => ?_
  have hfound : ∀ s : Server, (x ∈ all.filter (fun x => refersTo .destination d x &&
        refersTo .filter f x) ∧ s.Lists mgr.interop subscriptionClass all ∧
        s.Stores mgr.interop EndpointKind.filter.className f ∧
        s.Stores mgr.interop EndpointKind.destination.className d ∧ s = s₀) →
      s.Ready mgr.interop ∧ s.Stores mgr.interop subscriptionClass x ∧
        s.Stores mgr.interop EndpointKind.destination.className d ∧
        s.Stores mgr.interop EndpointKind.filter.className f := by
    rintro s ⟨hx, hlists, ⟨own, ns, hns, hf⟩, hd, rfl⟩
    exact ⟨htidy.ready hns, (hlists.mem_iff x).1 (List.mem_filter.1 hx).1, hd,
      own, ns, hns, hf⟩
  split
  · refine Ensures.bind (Ensures.pure fun s hs => ?_) fun removed => ensures_removeAssociated_ready
    exact ⟨(hfound s hs).1, (hfound s hs).2.2⟩
  · next p hp =>
    refine Ensures.bind (ensures_delete_ready hp (fun s hs => ⟨(hfound s hs).1, (hfound s hs).2.1⟩)
      (Q := fun s => s.Ready mgr.interop ∧
        s.Stores mgr.interop EndpointKind.destination.className d ∧
        s.Stores mgr.interop EndpointKind.filter.className f) ?_) fun _ =>
      Ensures.bind (Ensures.pure fun s hs => hs) fun removed => ensures_removeAssociated_ready
    intro s t hs ht hremoved
    obtain ⟨hready, hx, hd, hf⟩ := hfound s hs
    have hne : ∀ {kind : EndpointKind} {e : Instance}, s.Stores mgr.interop kind.className e →
        e ≠ x := fun he => hready.ne_of_stores (className_mem_roleClasses _)
      subscriptionClass_mem_roleClasses (className_ne_subscriptionClass _) he hx
    exact ⟨ht, hremoved.kept _ d hd (hne hd), hremoved.kept _ f hf (hne hf)⟩

/-- The loop over endpoints deletes the owned ones that no remaining subscription refers to. -/
theorem sweeps_removeOwnedEndpoints_unused (remaining : List Instance) (kind : EndpointKind) :
    mgr.Sweeps (fun _ => True) (fun x => mgr.owns kind x && !remaining.any (refersTo kind x))
      (fun removed p => removed.addEndpoint kind p)
      (mgr.removeOwnedEndpoints remaining kind : _ → _ → Action (StateM σ) RemovedObjects) := by
  constructor
  case nil => exact fun removed => rfl
  case skip =>
    intro x rest removed htest
    rw [removeOwnedEndpoints]
    cases howns : mgr.owns kind x with
    | false => rfl
    | true =>
      have hused : remaining.any (refersTo kind x) = true := by simpa [howns] using htest
      rw [if_pos rfl, removeUnused, if_pos hused, pure_bind]
  case take =>
    intro x rest removed p _ htest hp
    obtain ⟨howns, hunused⟩ := Bool.and_eq_true_iff.1 htest
    rw [removeOwnedEndpoints, howns, if_pos rfl, removeUnused, if_neg (by simpa using hunused), hp]
    simp only [bind_assoc, pure_bind]

/-- A loop over all that is stored of a class goes through. -/
theorem Sweeps.ensures_ready {test : Instance → Bool}
    {note : RemovedObjects → ObjectPath → RemovedObjects}
    {loop : List Instance → RemovedObjects → Action (StateM σ) RemovedObjects}
    (h : mgr.Sweeps (fun _ => True) test note loop) {className : String} {xs : List Instance}
    {removed : RemovedObjects} :
    Ensures (fun s => s.Ready mgr.interop ∧ s.Lists mgr.interop className xs) (loop xs removed)
      (fun _ s => s.Ready mgr.interop) E := by
  rintro s user ⟨⟨own, ns, hns, hkeyed, horderly⟩, own', ns', hns', rfl⟩
  obtain ⟨-, rfl⟩ := hns.unique hns'
  rw [h.outcome_without _ hns hkeyed horderly.same_self fun _ _ _ => trivial]
  exact ⟨own, _, hns.withNamespace hns.2, hkeyed.without _, horderly.sublist List.filter_sublist⟩

theorem ensures_list_ready {className : String} (hname : className ∈ roleClasses) :
    Ensures (fun s => s.Ready mgr.interop)
      (Action.query fun s => s.instances mgr.interop className none :
        Action (StateM σ) (List Instance))
      (fun xs s => s.Ready mgr.interop ∧ s.Lists mgr.interop className xs) E := by
  refine Ensures.query_total fun s hs => ?_
  obtain ⟨xs, hxs, hlists⟩ := hs.exists_lists hname
  exact ⟨xs, hxs, hs, hlists⟩

theorem atomic_removeServer (htidy : s₀.Tidy mgr.interop) :
    Atomic s₀ (mgr.removeServer : Action (StateM σ) RemovedObjects) := by
  refine Ensures.bind (ensures_list fun s hs => hs) fun all => ?_
  refine Ensures.bind (R := fun _ s => s.Ready mgr.interop) ?_ fun removed => ?_
  · rintro s user ⟨hlists, rfl⟩
    have ⟨own, ns, hns, _⟩ := hlists
    exact sweeps_removeOwnedSubscriptions.ensures_ready s user ⟨htidy.ready hns, hlists⟩
  refine Ensures.bind (ensures_list_ready subscriptionClass_mem_roleClasses) fun remaining => ?_
  refine Ensures.bind ((ensures_list_ready (className_mem_roleClasses .filter)).mono
    (fun s hs => hs.1) (fun _ s hs => hs) fun s hs => hs) fun filters => ?_
  refine Ensures.bind (sweeps_removeOwnedEndpoints_unused _ _).ensures_ready fun removed => ?_
  refine Ensures.bind (ensures_list_ready (className_mem_roleClasses .destination))
    fun destinations => ?_
  exact (sweeps_removeOwnedEndpoints_unused _ _).ensures_ready.mono (fun s hs => hs)
    (fun _ _ _ => trivial) fun s hs => hs

end Removing

/-- No operation fails once it has changed something. -/
theorem atomic_perform (htidy : s₀.Tidy mgr.interop) (chooser : Chooser (StateM σ))
    (call : SubscriptionCall) : Atomic s₀ (mgr.perform chooser call) := by
  have hunit : ∀ {α : Type} {a : Action (StateM σ) α}, Atomic s₀ a → Atomic s₀ (do let _ ← a) :=
    fun h => Ensures.bind h fun _ => Ensures.pure fun _ _ => trivial
  cases call with
  | addDestination identity url owned => exact hunit atomic_addDestination
  | addFilter identity query owned => exact hunit atomic_addFilter
  | addSubscription destination filter owned select => exact hunit (atomic_addSubscription htidy)
  | removeEndpoint kind identity select => exact hunit atomic_removeEndpoint
  | removeSubscription destination filter associated select =>
    exact hunit (atomic_removeSubscription htidy)
  | removeServer => exact hunit (atomic_removeServer htidy)

end Manager

end CimConsole
