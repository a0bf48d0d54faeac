import CimConsole.Proofs.Subscription.Endpoints
import CimConsole.Proofs.Subscription.Rules
import CimConsole.Proofs.Subscription.Sound

/-!
What the operations of a manager ensure. Each of them leaves the interop namespace of a server
linked, also when it fails on the way: what is added refers to endpoints that were just found,
and an endpoint is only removed while no stored subscription refers to it.
-/
namespace CimConsole

open Text

namespace Manager

open CimConsole.Action (Ensures Preserves)

variable {σ : Type} {mgr : Manager} {P E : Server → Prop}

/-- Creating an instance ensures what putting it at its path does; reading it back changes
nothing. -/
theorem ensures_create {x : Instance} {Q : Server → Prop} (hE : ∀ s, P s → Q s)
    (hadd : ∀ s own ns p, P s → s.Holds mgr.interop own ns → ns.pathFor own x = .ok p →
      ns.find? p = none → Q (s.withNamespace mgr.interop
        { ns with instances := ns.instances ++ [{ x with path := some p }] })) :
    Ensures P (mgr.create x : Action (StateM σ) Instance) (fun _ s => Q s) Q := by
  refine Ensures.bind (R := fun _ s => Q s) (Ensures.change (fun s p t hs hc => ?_) hE) fun p => ?_
  · obtain ⟨own, ns, hns, hpath, hfree, rfl⟩ := Server.create_eq_ok.1 hc
    exact hadd s own ns p hs hns hpath hfree
  · exact Ensures.query (fun s y hs _ => hs) fun s hs => hs

theorem ensures_delete {p : ObjectPath} {Q : Server → Prop} (hE : ∀ s, P s → E s)
    (hremove : ∀ s own ns y, P s → s.Holds mgr.interop own ns → ns.find? p = some y →
      Q (s.withNamespace mgr.interop
        { ns with instances := Server.removeFirst (Namespace.isAt p) ns.instances })) :
    Ensures P (mgr.delete p : Action (StateM σ) Unit) (fun _ s => Q s) E := by
  refine Ensures.change (fun s u t hs hd => ?_) hE
  cases hdelete : s.delete mgr.interop p with
  | error e => simp [hdelete, Except.map] at hd
  | ok made =>
    obtain rfl : made = t := by simpa [hdelete, Except.map] using hd
    obtain ⟨own, ns, y, hns, -, hfound, rfl⟩ := Server.delete_eq_ok.1 hdelete
    exact hremove s own ns y hs hns hfound

section Reading

variable {chooser : Chooser (StateM σ)} {kind : EndpointKind} {identity : String}

theorem ensures_list {className : String} (hE : ∀ s, P s → E s) :
    Ensures P (Action.query fun s => s.instances mgr.interop className none :
        Action (StateM σ) (List Instance))
      (fun xs s => s.Lists mgr.interop className xs ∧ P s) E := by
  refine Ensures.query (fun s xs hs hxs => ⟨?_, hs⟩) hE
  obtain ⟨own, ns, hns, -, rfl⟩ := Server.instances_eq_ok.1 hxs
  exact ⟨own, ns, hns, rfl⟩

theorem mem_of_mem_matching {all : List Instance} {x : Instance}
    (h : x ∈ mgr.matching kind identity all) : x ∈ all := by
  unfold matching at h
  dsimp only at h
  split at h
  · exact (List.mem_filter.1 h).1
  · rcases List.mem_append.1 h with h | h
    · exact (List.mem_filter.1 (List.mem_filter.1 h).1).1
    · exact (List.mem_filter.1 (List.mem_filter.1 h).1).1

/-- Whoever chooses, one of the candidates comes out. -/
theorem ensures_single {subject : Subject} {select : Bool} {describe : Instance → String}
    {candidates : List Instance} (hE : ∀ s, P s → E s) :
    Ensures P (single chooser subject identity select describe candidates)
      (fun x s => x ∈ candidates ∧ P s) E := by
  unfold single
  split
  · exact Ensures.throw hE
  · exact Ensures.pure fun s hs => ⟨List.mem_singleton_self _, hs⟩
  · dsimp only
    split
    · exact Ensures.throw hE
    · refine Ensures.bind (R := fun _ s => P s) (Ensures.choose fun i s hs => hs) fun i => ?_
      split
      · next x hx =>
        obtain ⟨i, -, hi⟩ := Option.bind_eq_some_iff.1 hx
        exact Ensures.pure fun s hs => ⟨List.mem_of_getElem? hi, hs⟩
      · exact Ensures.throw hE

/-- An identity means a stored endpoint of its kind. -/
theorem ensures_resolveIdentity {select : Bool} (hE : ∀ s, P s → E s) :
    Ensures P (mgr.resolveIdentity chooser kind identity select)
      (fun x s => s.Stores mgr.interop kind.className x ∧ P s) E := by
  refine Ensures.bind
    (R := fun xs s => (∀ x ∈ xs, s.Stores mgr.interop kind.className x) ∧ P s) ?_ fun xs => ?_
  · refine Ensures.query (fun s xs hs hxs => ⟨fun x hx => ?_, hs⟩) hE
    obtain ⟨all, hall, hxs⟩ := bind_eq_ok.1 hxs
    obtain rfl := Except.ok.inj hxs
    obtain ⟨own, ns, hns, -, rfl⟩ := Server.instances_eq_ok.1 hall
    have hlists : s.Lists mgr.interop kind.className _ := ⟨own, ns, hns, rfl⟩
    exact (hlists.mem_iff x).1 (mem_of_mem_matching hx)
  · refine (ensures_single fun s hs => hE s hs.2).mono (fun s hs => hs) ?_ fun s hs => hs
    exact fun x s hs => ⟨hs.2.1 x hs.1, hs.2.2⟩

theorem ensures_newName {owned : Bool} (hE : ∀ s, P s → E s) :
    Ensures P (mgr.newName kind identity owned : Action (StateM σ) String) (fun _ s => P s) E := by
  have hlift : ∀ answer : Except SubscriptionError String,
      Ensures P (newName.liftExcept answer : Action (StateM σ) String) (fun _ s => P s) E := by
    intro answer
    cases answer with
    | ok name => exact Ensures.pure fun s hs => hs
    | error e => exact Ensures.throw hE
  refine Ensures.bind (R := fun _ s => P s) (Ensures.query (fun s _ hs _ => hs) hE) fun xs => ?_
  split
  · exact hlift _
  · exact hlift _

end Reading

section Adding

/-- An endpoint whose path equals itself can be added. -/
theorem preserves_create_endpoint (kind : EndpointKind) {x : Instance} (hx : x.Plain)
    (hclass : x.className = kind.className) :
    Preserves (fun s => s.Sound mgr.interop) (mgr.create x : Action (StateM σ) Instance) := by
  refine ensures_create (fun s hs => hs) fun s own ns p hs hns hpath hfree => ?_
  have hlinked := hs.linked_of_holds hns
  refine hs.withNamespace hns hns.2 (hlinked.add hpath hfree (fun _ _ => hx.same_path hpath)
    fun hsub => ?_)
  have hnot := hlinked.unrelated _ (className_mem_roleClasses kind) _
    subscriptionClass_mem_roleClasses (className_ne_subscriptionClass kind)
  rw [← hclass, hsub] at hnot
  cases hnot

/-- A subscription can be added while its endpoints are stored. -/
theorem ensures_create_subscription {d f : Instance} {dp fp : ObjectPath}
    (hd : d.path = some dp) (hf : f.path = some fp) :
    Ensures (fun s => s.Stores mgr.interop EndpointKind.filter.className f ∧
        s.Stores mgr.interop EndpointKind.destination.className d ∧ s.Sound mgr.interop)
      (mgr.create (subscription dp fp) : Action (StateM σ) Instance)
      (fun _ s => s.Sound mgr.interop) fun s => s.Sound mgr.interop := by
  refine ensures_create (fun s hs => hs.2.2) fun s own ns p hs hns hpath hfree => ?_
  obtain ⟨hfs, hds, hsound⟩ := hs
  rw [Server.stores_iff hns] at hfs hds
  have hlinked := hsound.linked_of_holds hns
  refine hsound.withNamespace hns hns.2
    (hlinked.add hpath hfree (fun kind hkind => ?_) fun _ kind => ?_)
  · have hnot := hlinked.unrelated _ subscriptionClass_mem_roleClasses _
      (className_mem_roleClasses kind) (className_ne_subscriptionClass kind).symm
    have hclass : (subscription dp fp).className = subscriptionClass := rfl
    rw [← hclass, hkind] at hnot
    cases hnot
  · cases kind with
    | destination =>
      refine ⟨d, hds, ?_⟩
      rw [refersTo, path?_handler, hd]
      exact hlinked.reflexive _ d dp hds hd
    | filter =>
      refine ⟨f, hfs, ?_⟩
      rw [refersTo, path?_filter, hf]
      exact hlinked.reflexive _ f fp hfs hf

theorem preserves_addDestination {identity url : String} {owned : Bool} :
    Preserves (fun s => s.Sound mgr.interop)
      (mgr.addDestination identity url owned : Action (StateM σ) Instance) := by
  unfold addDestination
  split
  · exact Ensures.throw fun s hs => hs
  · refine Ensures.bind (ensures_newName fun s hs => hs) fun name => ?_
    exact preserves_create_endpoint .destination (plain_destination mgr _ _ _) rfl

theorem preserves_addFilter {identity : String} {query : Query} {owned : Bool} :
    Preserves (fun s => s.Sound mgr.interop)
      (mgr.addFilter identity query owned : Action (StateM σ) Instance) := by
  refine Ensures.bind (ensures_newName fun s hs => hs) fun name => ?_
  exact preserves_create_endpoint .filter (plain_filter mgr _ _) rfl

theorem preserves_addSubscription {chooser : Chooser (StateM σ)} {destination filter : String}
    {owned select : Bool} :
    Preserves (fun s => s.Sound mgr.interop)
      (mgr.addSubscription chooser destination filter owned select) := by
  refine Ensures.bind (ensures_resolveIdentity fun s hs => hs) fun d => ?_
  refine Ensures.bind (ensures_resolveIdentity fun s hs => hs.2) fun f => ?_
  split
  · exact Ensures.throw fun s hs => hs.2.2
  · split
    · next dp fp hd hf => exact ensures_create_subscription hd hf
    · exact Ensures.throw fun s hs => hs.2.2

end Adding

section Removing

variable {Q : Server → Prop}

/-- Deleting the path of an unused endpoint removes that endpoint and nothing else. -/
theorem ensures_delete_endpoint {kind : EndpointKind} {e : Instance} {p : ObjectPath}
    (hp : e.path = some p)
    (hP : ∀ s, P s → s.Sound mgr.interop ∧ s.Stores mgr.interop kind.className e ∧
      s.Unused mgr.interop kind e)
    (hQ : ∀ s t, P s → t.Sound mgr.interop → s.Removed t mgr.interop e → Q t) :
    Ensures P (mgr.delete p : Action (StateM σ) Unit) (fun _ s => Q s)
      fun s => s.Sound mgr.interop := by
  refine ensures_delete (fun s hs => (hP s hs).1) fun s own ns y hs hns hfound => ?_
  obtain ⟨hsound, hstored, hunused⟩ := hP s hs
  have hlinked := hsound.linked_of_holds hns
  have he := (Server.stores_iff hns e).1 hstored
  obtain rfl : y = e := hlinked.keyed.find?_eq he.1 hp (hlinked.reflexive kind e p he hp) hfound
  obtain ⟨hlater, hremoved⟩ := hsound.remove hns hfound (fun other z hother hz => by
    obtain rfl := hlinked.unrelated.kind_eq he hother
    exact hunused z ((Server.stores_iff hns z).2 hz)) rfl
  exact hQ s _ hs hlater hremoved

/-- Deleting the path of a subscription removes some subscription. -/
theorem ensures_delete_subscription {p : ObjectPath}
    (hP : ∀ s, P s → s.Sound mgr.interop ∧ s.Below mgr.interop p.className subscriptionClass)
    (hQ : ∀ s t y, P s → t.Sound mgr.interop → s.Stores mgr.interop subscriptionClass y →
      s.Removed t mgr.interop y → Q t) :
    Ensures P (mgr.delete p : Action (StateM σ) Unit) (fun _ s => Q s)
      fun s => s.Sound mgr.interop := by
  refine ensures_delete (fun s hs => (hP s hs).1) fun s own ns y hs hns hfound => ?_
  obtain ⟨hsound, own', ns', hns', hbelow⟩ := hP s hs
  obtain ⟨-, rfl⟩ := hns.unique hns'
  have hlinked := hsound.linked_of_holds hns
  have hmem : y ∈ ns.instances := List.mem_of_find?_eq_some hfound
  have hy : ns.Stores subscriptionClass y :=
    ⟨hmem, by rwa [hlinked.keyed.isWithin_isAt hmem (List.find?_some hfound)]⟩
  obtain ⟨hlater, hremoved⟩ := hsound.remove hns hfound (fun kind z hkind _ =>
    absurd hy (hlinked.unrelated.not_subscription hkind)) rfl
  exact hQ s _ y hs hlater ((Server.stores_iff hns y).2 hy) hremoved

/-- All stored subscriptions are in a list. -/
def Remaining (mgr : Manager) (remaining : List Instance) (s : Server) : Prop :=
  ∀ z, s.Stores mgr.interop subscriptionClass z → z ∈ remaining

theorem unused_of_remaining {s : Server} {remaining : List Instance} {kind : EndpointKind}
    {e : Instance} (h : mgr.Remaining remaining s)
    (hnone : remaining.any (refersTo kind e) = false) : s.Unused mgr.interop kind e := by
  intro z hz
  rw [List.any_eq_false] at hnone
  exact Bool.eq_false_iff.2 (hnone z (h z hz))

theorem preserves_removeEndpoint {chooser : Chooser (StateM σ)} {kind : EndpointKind}
    {identity : String} {select : Bool} :
    Preserves (fun s => s.Sound mgr.interop) (mgr.removeEndpoint chooser kind identity select) := by
  refine Ensures.bind (ensures_resolveIdentity fun s hs => hs) fun target => ?_
  refine Ensures.bind (ensures_list fun s hs => hs.2) fun subscriptions => ?_
  dsimp only
  split
  · exact Ensures.throw fun s hs => hs.2.2
  · next hcount =>
    split
    · exact Ensures.throw fun s hs => hs.2.2
    · next p hp =>
      refine Ensures.bind (R := fun _ s => s.Sound mgr.interop) ?_ fun _ =>
        Ensures.pure fun s hs => hs
      refine ensures_delete_endpoint hp (fun s hs => ⟨hs.2.2, hs.2.1, ?_⟩) fun s t _ ht _ => ht
      have hnone : subscriptions.any (refersTo kind target) = false := by
        rw [List.any_eq_false]
        intro z hz hrefers
        have hmem : z ∈ subscriptions.filter (refersTo kind target) :=
          List.mem_filter.2 ⟨hz, hrefers⟩
        exact hcount (List.length_pos_of_mem hmem)
      exact unused_of_remaining (fun z hz => (hs.1.mem_iff z).2 hz) hnone

/-- Removing an endpoint unless a remaining subscription refers to it. What is known of other
instances is still known. -/
theorem ensures_removeUnused {remaining : List Instance} {kind : EndpointKind} {e : Instance}
    {removed : RemovedObjects}
    (hP : ∀ s t, P s → s.Stores mgr.interop kind.className e → s.Sound mgr.interop →
      s.Removed t mgr.interop e → P t) :
    Ensures (fun s => s.Stores mgr.interop kind.className e ∧ s.Sound mgr.interop ∧
        mgr.Remaining remaining s ∧ P s)
      (mgr.removeUnused remaining kind e removed : Action (StateM σ) RemovedObjects)
      (fun _ s => s.Sound mgr.interop ∧ mgr.Remaining remaining s ∧ P s)
      fun s => s.Sound mgr.interop := by
  unfold removeUnused
  split
  · exact Ensures.pure fun s hs => hs.2
  · next hnone =>
    split
    · exact Ensures.pure fun s hs => hs.2
    · next p hp =>
      refine Ensures.bind
        (R := fun _ s => s.Sound mgr.interop ∧ mgr.Remaining remaining s ∧ P s) ?_
        fun _ => Ensures.pure fun s hs => hs
      refine ensures_delete_endpoint hp (fun s hs => ⟨hs.2.1, hs.1, ?_⟩)
        fun s t hs ht hremoved => ?_
      · exact unused_of_remaining hs.2.2.1 (Bool.eq_false_iff.2 hnone)
      · exact ⟨ht, fun z hz => hs.2.2.1 z (hremoved.fewer _ z hz),
          hP s t hs.2.2.2 hs.1 hs.2.1 hremoved⟩

/-- Once a subscription is gone, both of its endpoints are removed unless another one refers to
them. -/
theorem ensures_removeAssociated {associated : Bool} {d f : Instance} {removed : RemovedObjects} :
    Ensures (fun s => s.Stores mgr.interop EndpointKind.filter.className f ∧
        s.Stores mgr.interop EndpointKind.destination.className d ∧ s.Sound mgr.interop)
      (if !associated then pure removed
      else do
        let remaining ← Action.query mgr.subscriptions
        let removed ← mgr.removeUnused remaining .destination d removed
        mgr.removeUnused remaining .filter f removed : Action (StateM σ) RemovedObjects)
      (fun _ s => s.Sound mgr.interop) fun s => s.Sound mgr.interop := by
  split
  · exact Ensures.pure fun s hs => hs.2.2
  refine Ensures.bind (ensures_list fun s hs => hs.2.2) fun remaining => ?_
  refine Ensures.bind (R := fun _ s => s.Sound mgr.interop ∧ mgr.Remaining remaining s ∧
    s.Stores mgr.interop EndpointKind.filter.className f) ?_ fun removed => ?_
  · refine (ensures_removeUnused ?_).mono (fun s hs => ⟨hs.2.2.1, hs.2.2.2,
      fun z hz => (hs.1.mem_iff z).2 hz, hs.2.1⟩) (fun _ s hs => hs) fun s hs => hs
    intro s t hf hd hsound hremoved
    refine hremoved.kept _ f hf ?_
    rintro rfl
    cases hsound.kind_eq hf hd
  · exact (ensures_removeUnused (P := fun _ => True) fun _ _ _ _ _ _ => trivial).mono
      (fun s hs => ⟨hs.2.2, hs.1, hs.2.1, trivial⟩) (fun _ s hs => hs.1) fun s hs => hs

theorem preserves_removeSubscription {chooser : Chooser (StateM σ)} {destination filter : String}
    {associated select : Bool} :
    Preserves (fun s => s.Sound mgr.interop)
      (mgr.removeSubscription chooser destination filter associated select) := by
  refine Ensures.bind (ensures_resolveIdentity fun s hs => hs) fun d => ?_
  refine Ensures.bind (ensures_resolveIdentity fun s hs => hs.2) fun f => ?_
  refine Ensures.bind (ensures_list fun s hs => hs.2.2) fun all => ?_
  dsimp only
  split
  · exact Ensures.throw fun s hs => hs.2.2.2
  refine Ensures.bind (ensures_single fun s hs => hs.2.2.2) fun x => ?_
  split
  · exact Ensures.bind (Ensures.pure fun s hs => hs.2.2) fun removed => ensures_removeAssociated
  · next p hp =>
    refine Ensures.bind (ensures_delete_subscription (fun s hs => ?_) ?_) fun _ =>
      Ensures.bind (Ensures.pure fun s hs => hs) fun removed => ensures_removeAssociated
    · have hx := (hs.2.1.mem_iff x).1 (List.mem_filter.1 hs.1).1
      exact ⟨hs.2.2.2.2, hs.2.2.2.2.below_path hx hp⟩
    · -- both endpoints are still stored when the subscription is gone
      intro s t y hs ht hy hremoved
      obtain ⟨-, -, hf, hd, hsound⟩ := hs
      refine ⟨hremoved.kept _ f hf ?_, hremoved.kept _ d hd ?_, ht⟩
      · rintro rfl
        exact hsound.not_subscription hf hy
      · rintro rfl
        exact hsound.not_subscription hd hy

/-- The paths of a list name subscriptions, stored or not. -/
def NameSubscriptions (mgr : Manager) (xs : List Instance) (s : Server) : Prop :=
  ∀ x ∈ xs, ∀ p, x.path = some p → s.Below mgr.interop p.className subscriptionClass

theorem ensures_removeOwnedSubscriptions {xs : List Instance} {removed : RemovedObjects} :
    Ensures (fun s => s.Sound mgr.interop ∧ mgr.NameSubscriptions xs s)
      (mgr.removeOwnedSubscriptions xs removed : Action (StateM σ) RemovedObjects)
      (fun _ s => s.Sound mgr.interop) fun s => s.Sound mgr.interop := by
  induction xs generalizing removed with
  | nil => exact Ensures.pure fun s hs => hs.1
  | cons x rest ih =>
    rw [removeOwnedSubscriptions]
    split
    · next p _ hp =>
      refine Ensures.bind (ensures_delete_subscription (fun s hs => ?_) ?_) fun _ => ih
      · exact ⟨hs.1, hs.2 x List.mem_cons_self p hp⟩
      · intro s t y hs ht _ hremoved
        refine ⟨ht, fun z hz q hq => hremoved.below _ _ ?_⟩
        exact hs.2 z (List.mem_cons_of_mem _ hz) q hq
    · exact ih.mono (fun s hs => ⟨hs.1, fun z hz => hs.2 z (List.mem_cons_of_mem _ hz)⟩)
        (fun _ s hs => hs) fun s hs => hs

/-- The endpoints of a list are stored until they are removed, one after the other. -/
theorem ensures_removeOwnedEndpoints {remaining xs : List Instance} {kind : EndpointKind}
    {removed : RemovedObjects} (hnodup : xs.Nodup) :
    Ensures (fun s => (∀ x ∈ xs, s.Stores mgr.interop kind.className x) ∧
        s.Sound mgr.interop ∧ mgr.Remaining remaining s)
      (mgr.removeOwnedEndpoints remaining kind xs removed : Action (StateM σ) RemovedObjects)
      (fun _ s => s.Sound mgr.interop ∧ mgr.Remaining remaining s)
      fun s => s.Sound mgr.interop := by
  induction xs generalizing removed with
  | nil => exact Ensures.pure fun s hs => hs.2
  | cons x rest ih =>
    obtain ⟨hx, hrest⟩ := List.nodup_cons.1 hnodup
    rw [removeOwnedEndpoints]
    have htail : ∀ s : Server, (∀ z ∈ x :: rest, s.Stores mgr.interop kind.className z) →
        ∀ z ∈ rest, s.Stores mgr.interop kind.className z :=
      fun s hs z hz => hs z (List.mem_cons_of_mem _ hz)
    split
    · refine Ensures.bind ((ensures_removeUnused
        (P := fun s => ∀ z ∈ rest, s.Stores mgr.interop kind.className z) ?_).mono
          ?_ ?_ fun s hs => hs) fun _ => ih hrest
      · intro s t hs _ _ hremoved z hz
        refine hremoved.kept _ z (hs z hz) ?_
        rintro rfl
        exact hx hz
      · exact fun s hs => ⟨hs.1 x List.mem_cons_self, hs.2.1, hs.2.2, htail s hs.1⟩
      · exact fun _ s hs => ⟨hs.2.2, hs.1, hs.2.1⟩
    · exact Ensures.bind (Ensures.pure fun s hs => ⟨htail s hs.1, hs.2⟩) fun _ => ih hrest

/-- Listing all endpoints of a kind prepares for removing the owned ones of them. -/
theorem ensures_listEndpoints {remaining : List Instance} {kind : EndpointKind} :
    Ensures (fun s => s.Sound mgr.interop ∧ mgr.Remaining remaining s)
      (Action.query fun s => mgr.endpoints s kind : Action (StateM σ) (List Instance))
      (fun xs s => xs.Nodup ∧ (∀ x ∈ xs, s.Stores mgr.interop kind.className x) ∧
        s.Sound mgr.interop ∧ mgr.Remaining remaining s)
      fun s => s.Sound mgr.interop :=
  (ensures_list fun _ hs => hs.1).mono (fun _ hs => hs)
    (fun _ _ hs => ⟨hs.2.1.nodup hs.1, fun x hx => (hs.1.mem_iff x).1 hx, hs.2⟩) fun _ hs => hs

theorem preserves_removeServer :
    Preserves (fun s => s.Sound mgr.interop)
      (mgr.removeServer : Action (StateM σ) RemovedObjects) := by
  refine Ensures.bind (ensures_list fun s hs => hs) fun all => ?_
  refine Ensures.bind (ensures_removeOwnedSubscriptions.mono ?_ (fun _ s hs => hs)
    fun s hs => hs) fun removed => ?_
  · intro s hs
    refine ⟨hs.2, fun x hx p hp => ?_⟩
    exact hs.2.below_path ((hs.1.mem_iff x).1 hx) hp
  refine Ensures.bind (ensures_list fun s hs => hs) fun remaining => ?_
  refine Ensures.bind (ensures_listEndpoints.mono ?_ (fun _ s hs => hs) fun s hs => hs)
    fun filters => Ensures.bind (Ensures.assume ensures_removeOwnedEndpoints) fun removed => ?_
  · exact fun s hs => ⟨hs.2, fun z hz => (hs.1.mem_iff z).2 hz⟩
  refine Ensures.bind ensures_listEndpoints fun destinations => Ensures.assume fun hnodup => ?_
  exact (ensures_removeOwnedEndpoints hnodup).mono (fun s hs => hs) (fun _ s hs => hs.1)
    fun s hs => hs

end Removing

end Manager

end CimConsole
