import CimConsole.Proofs.Subscription.Links
import CimConsole.Proofs.Subscription.Rules

/-!
Loops that delete. Such a loop goes over a list of instances made before and deletes by path, one
instance after the other. Stored paths equal themselves and no path equals that of a later
instance, so each deletion takes the instance that it is meant for, and what is left are the
instances that were not marked, in their order.
-/
namespace CimConsole

open Text

namespace Namespace

/-- The namespace without the instances that pass a test. -/
def without (ns : Namespace) (p : Instance → Bool) : Namespace :=
  { ns with instances := ns.instances.filter fun x => !p x }

variable {ns : Namespace} {own : String} {p q : Instance → Bool}

@[simp] theorem isWithin_without (name ancestor : String) :
    (ns.without p).isWithin name ancestor = ns.isWithin name ancestor :=
  isWithin_instances ns _ name ancestor

theorem without_without : (ns.without p).without q = ns.without fun x => p x || q x := by
  simp only [without, List.filter_filter, Bool.not_or]
  simp only [Bool.and_comm]

theorem endpoints_without (kind : EndpointKind) :
    (ns.without p).endpoints kind = (ns.endpoints kind).filter fun x => !p x := by
  simp only [endpoints, isWithin_without]
  simp only [without, List.filter_filter, Bool.and_comm]

/-- Endpoints are all left if none of them passes. -/
theorem endpoints_without_eq {kind : EndpointKind} (h : ∀ x ∈ ns.endpoints kind, p x = false) :
    (ns.without p).endpoints kind = ns.endpoints kind := by
  rw [endpoints_without, List.filter_eq_self.2 fun x hx => by rw [h x hx]; rfl]

theorem subscriptions_without :
    (ns.without p).subscriptions = ns.subscriptions.filter fun x => !p x := by
  simp only [subscriptions, isWithin_without]
  simp only [without, List.filter_filter, Bool.and_comm]

theorem Keyed.without (h : ns.Keyed own) (p : Instance → Bool) : (ns.without p).Keyed own :=
  h.sublist List.filter_sublist

end Namespace

namespace Manager

open CimConsole.Action (outcome_bind_ok)

variable {σ : Type} {mgr : Manager} {s : Server} {own : String} {ns : Namespace}

theorem outcome_delete {p : ObjectPath} {t : Server} {user : σ}
    (h : s.delete mgr.interop p = .ok t) :
    Action.outcome (mgr.delete p : Action (StateM σ) Unit) s user = ((.ok (), t), user) := by
  rw [delete, Action.outcome_change, h]
  rfl

/-- A loop over instances with `P` that deletes those that pass a test and notes their paths. -/
structure Sweeps (mgr : Manager) (P : Instance → Prop) (test : Instance → Bool)
    (note : RemovedObjects → ObjectPath → RemovedObjects)
    (loop : List Instance → RemovedObjects → Action (StateM σ) RemovedObjects) : Prop where
  nil : ∀ removed, loop [] removed = pure removed
  skip : ∀ x rest removed, test x = false → loop (x :: rest) removed = loop rest removed
  take : ∀ x rest removed p, P x → test x = true → x.path = some p →
    loop (x :: rest) removed = do
      mgr.delete p
      loop rest (note removed p)

/-- A loop over the instances of one sort deletes exactly those of them that pass its test. The
instances in front of the ones that are left to look at have been kept. -/
theorem Sweeps.outcome {P : Instance → Prop} {test : Instance → Bool}
    {note : RemovedObjects → ObjectPath → RemovedObjects}
    {loop : List Instance → RemovedObjects → Action (StateM σ) RemovedObjects}
    (h : mgr.Sweeps P test note loop) (within : Instance → Bool) {kept rest : List Instance}
    (hns : s.Holds mgr.interop own ns) (hkeyed : ns.Keyed own)
    (hinstances : ns.instances = kept ++ rest)
    (hself : ∀ x ∈ rest, ∀ p ∈ x.path, p.same p = true)
    (hP : ∀ x ∈ rest, within x = true → P x) (removed : RemovedObjects) (user : σ) :
    Action.outcome (loop (rest.filter within) removed) s user =
      ((.ok (((rest.filter fun x => test x && within x).filterMap Instance.path).foldl note removed),
        s.withNamespace mgr.interop { ns with
          instances := kept ++ rest.filter fun x => !(test x && within x) }), user) := by
  induction rest generalizing kept ns s removed with
  | nil =>
    have hsame : { ns with instances := kept ++ [] } = ns := by rw [← hinstances]
    rw [List.filter_nil, h.nil, List.filter_nil, List.filter_nil, hsame, hns.withNamespace_self]
    rfl
  | cons x rest ih =>
    have hself' : ∀ y ∈ rest, ∀ p ∈ y.path, p.same p = true :=
      fun y hy => hself y (List.mem_cons_of_mem _ hy)
    have hP' : ∀ y ∈ rest, within y = true → P y := fun y hy => hP y (List.mem_cons_of_mem _ hy)
    cases hmark : test x && within x with
    | false =>
      have hloop : loop ((x :: rest).filter within) removed = loop (rest.filter within) removed := by
        cases hwithin : within x with
        | false => rw [List.filter_cons_of_neg (by simp [hwithin])]
        | true =>
          rw [List.filter_cons_of_pos hwithin]
          exact h.skip x _ removed (by simpa [hwithin] using hmark)
      have hsplit : ns.instances = (kept ++ [x]) ++ rest := by simpa using hinstances
      have hrest := ih hns hkeyed hsplit hself' hP' removed
      rw [hloop, hrest]
      simp only [List.filter_cons, hmark, Bool.not_false, Bool.false_eq_true, if_true, if_false,
        List.append_assoc, List.singleton_append]
    | true =>
      obtain ⟨htest, hwithin⟩ := Bool.and_eq_true_iff.1 hmark
      have hmem : x ∈ ns.instances := hinstances ▸ List.mem_append_right _ List.mem_cons_self
      obtain ⟨p, hp, -⟩ := hkeyed.placed x hmem
      have hdelete := Server.delete_stored hns hkeyed hinstances hp (hself x List.mem_cons_self p hp)
      have hfewer : (kept ++ rest).Sublist ns.instances :=
        hinstances ▸ List.Sublist.append_left (List.sublist_cons_self x rest) kept
      have hlater : (s.withNamespace mgr.interop { ns with instances := kept ++ rest }).Holds
          mgr.interop own { ns with instances := kept ++ rest } := hns.withNamespace hns.2
      have hrest := ih hlater (hkeyed.sublist hfewer) rfl hself' hP' (note removed p)
      rw [List.filter_cons_of_pos hwithin, h.take x _ removed p
        (hP x List.mem_cons_self hwithin) htest hp, outcome_bind_ok (outcome_delete hdelete), hrest,
        hns.withNamespace_withNamespace]
      simp only [List.filter_cons, hmark, Bool.not_true, Bool.false_eq_true, if_true, if_false,
        List.filterMap_cons, hp, List.foldl_cons]

/-- The loop over all instances of one sort. -/
theorem Sweeps.outcome_without {P : Instance → Prop} {test : Instance → Bool}
    {note : RemovedObjects → ObjectPath → RemovedObjects}
    {loop : List Instance → RemovedObjects → Action (StateM σ) RemovedObjects}
    (h : mgr.Sweeps P test note loop) (within : Instance → Bool)
    (hns : s.Holds mgr.interop own ns) (hkeyed : ns.Keyed own)
    (hself : ∀ x ∈ ns.instances, ∀ p ∈ x.path, p.same p = true)
    (hP : ∀ x ∈ ns.instances, within x = true → P x) (removed : RemovedObjects) (user : σ) :
    Action.outcome (loop (ns.instances.filter within) removed) s user =
      ((.ok (((ns.instances.filter fun x => test x && within x).filterMap Instance.path).foldl note
          removed),
        s.withNamespace mgr.interop (ns.without fun x => test x && within x)), user) :=
  h.outcome within hns hkeyed (List.nil_append _).symm hself hP removed user

theorem sweeps_removeOwnedSubscriptions : mgr.Sweeps (fun _ => True) mgr.ownsSubscription
    (fun removed p => { removed with subscriptions := removed.subscriptions ++ [p] })
    (mgr.removeOwnedSubscriptions : _ → _ → Action (StateM σ) RemovedObjects) := by
  constructor
  case nil => exact fun removed => rfl
  case skip =>
    intro x rest removed htest
    rw [removeOwnedSubscriptions, htest]
  case take =>
    intro x rest removed p _ htest hp
    rw [removeOwnedSubscriptions, htest, hp]

/-- While no remaining subscription refers to an owned endpoint, all of those are deleted. -/
theorem sweeps_removeOwnedEndpoints (remaining : List Instance) (kind : EndpointKind) :
    mgr.Sweeps (fun x => mgr.owns kind x = true → remaining.any (refersTo kind x) = false)
      (mgr.owns kind) (fun removed p => removed.addEndpoint kind p)
      (mgr.removeOwnedEndpoints remaining kind : _ → _ → Action (StateM σ) RemovedObjects) := by
  constructor
  case nil => exact fun removed => rfl
  case skip =>
    intro x rest removed htest
    rw [removeOwnedEndpoints, htest]
    rfl
  case take =>
    intro x rest removed p hunused htest hp
    rw [removeOwnedEndpoints, htest, if_pos rfl, removeUnused, hunused htest, hp]
    simp only [Bool.false_eq_true, if_false, bind_assoc, pure_bind]

theorem foldl_addSubscription (ps : List ObjectPath) (removed : RemovedObjects) :
    ps.foldl (fun r p => { r with subscriptions := r.subscriptions ++ [p] }) removed =
      { removed with subscriptions := removed.subscriptions ++ ps } := by
  induction ps generalizing removed with
  | nil => simp
  | cons p rest ih => simp [ih]

theorem foldl_addEndpoint (kind : EndpointKind) (ps : List ObjectPath)
    (removed : RemovedObjects) :
    ps.foldl (fun r p => r.addEndpoint kind p) removed =
      match kind with
      | .destination => { removed with destinations := removed.destinations ++ ps }
      | .filter => { removed with filters := removed.filters ++ ps } := by
  induction ps generalizing removed with
  | nil => cases kind <;> simp
  | cons p rest ih =>
    rw [List.foldl_cons, ih]
    cases kind <;> simp [RemovedObjects.addEndpoint]

end Manager

end CimConsole
