import CimConsole.Proofs.Subscription.Atomic
import CimConsole.Proofs.Subscription.Names

/-!
What adding an endpoint does. The new instance stands at the end of the namespace, at a path that
was free, and is the only one that its identity means if that meant none before, whoever owns it.
Where the references of all subscriptions point to something stored, none of them refers to the new
endpoint: equality of paths goes on to a path whose values equal nothing but themselves, so the
path of what such a reference points to would equal the new one.
-/
namespace CimConsole

open Text

namespace Namespace

/-- Both references of every subscription point to something that is stored. -/
def Resolved (ns : Namespace) : Prop :=
  ∀ x ∈ ns.subscriptions, ∀ kind : EndpointKind,
    ∃ r e, x.path? kind.role = some r ∧ ns.find? r = some e

/-- The namespace with further instances at its end. -/
def adding (ns : Namespace) (xs : List Instance) : Namespace :=
  { ns with instances := ns.instances ++ xs }

variable {ns : Namespace} {own : String} {xs ys : List Instance}

@[simp] theorem isWithin_adding (name ancestor : String) :
    (ns.adding xs).isWithin name ancestor = ns.isWithin name ancestor :=
  isWithin_instances ns _ name ancestor

@[simp] theorem pathFor_adding (space : String) (x : Instance) :
    (ns.adding xs).pathFor space x = ns.pathFor space x :=
  pathFor_instances ns _ space x

@[simp] theorem adding_nil : ns.adding [] = ns := by
  rw [adding, List.append_nil]

@[simp] theorem adding_adding : (ns.adding xs).adding ys = ns.adding (xs ++ ys) := by
  simp only [adding, List.append_assoc]

/-- Of instances of the very classes, those below one class are those of that class. -/
theorem Unrelated.filter_isWithin (h : ns.Unrelated) {className : String}
    (hname : className ∈ roleClasses)
    (hxs : ∀ x ∈ xs, x.className ∈ roleClasses ∧ (ns.class? x.className).isSome = true) :
    xs.filter (fun x => ns.isWithin x.className className) =
      xs.filter fun x => x.className = className := by
  refine List.filter_congr fun x hx => ?_
  obtain ⟨hrole, hdeclared⟩ := hxs x hx
  have hself := isWithin_self hdeclared
  by_cases heq : x.className = className
  · rw [decide_eq_true heq, ← heq, hself]
  · rw [decide_eq_false heq, h.not_within hrole hname heq hself]

theorem find?_of_adding {p : ObjectPath} (h : (ns.adding xs).find? p = none) :
    ns.find? p = none := by
  rw [Namespace.find?, adding, List.find?_append, Option.or_eq_none_iff] at h
  exact h.1

end Namespace

namespace Server

variable {s : Server} {name own : String} {ns : Namespace}

/-- What was added is listed behind what was there. -/
theorem instances_adding (hns : s.Holds name own ns) (xs : List Instance) {className : String}
    (h : (ns.class? className).isSome = true) :
    (s.withNamespace name (ns.adding xs)).instances name className none =
      .ok ((ns.instances.filter fun x => ns.isWithin x.className className) ++
        xs.filter fun x => ns.isWithin x.className className) := by
  refine instances_eq_ok.2 ⟨own, ns.adding xs, hns.withNamespace hns.2, h, ?_⟩
  simp only [Namespace.isWithin_adding]
  rw [Namespace.adding, List.filter_append]

/-- Deleting one of the instances that were added leaves the others. -/
theorem delete_adding (hns : s.Holds name own ns) (front rest : List Instance) {x : Instance} {p : ObjectPath}
    (hkeyed : (ns.adding (front ++ x :: rest)).Keyed own) (hpath : x.path = some p)
    (hself : p.same p = true) :
    (s.withNamespace name (ns.adding (front ++ x :: rest))).delete name p =
      .ok (s.withNamespace name (ns.adding (front ++ rest))) := by
  have hlater : (s.withNamespace name (ns.adding (front ++ x :: rest))).Holds name own
      (ns.adding (front ++ x :: rest)) := hns.withNamespace hns.2
  have hsplit : (ns.adding (front ++ x :: rest)).instances =
      (ns.instances ++ front) ++ x :: rest := (List.append_assoc _ _ _).symm
  rw [delete_stored hlater hkeyed hsplit hpath hself, hns.withNamespace_withNamespace,
    List.append_assoc]
  rfl

end Server

theorem refersTo_eq_true {kind : EndpointKind} {e z : Instance} : refersTo kind e z = true ↔
    ∃ r p, z.path? kind.role = some r ∧ e.path = some p ∧ r.same p = true := by
  unfold refersTo
  cases z.path? kind.role <;> cases e.path <;> simp

namespace Manager

open CimConsole.Action (outcome outcome_bind_ok outcome_bind_eq_ok outcome_query_ok
  outcome_query_eq_ok outcome_change_eq_ok)

variable {σ : Type} {mgr : Manager} {kind : EndpointKind} {identity : String} {s t : Server}
  {own : String} {ns : Namespace} {user user' : σ}

section Naming

theorem dropStart?_of_isNamePart (h : isNamePart identity = true) :
    dropStart? (ownedStart kind mgr.id) identity = none := by
  rw [Option.eq_none_iff_forall_ne_some]
  intro rest hrest
  rw [dropStart?_eq_some_iff] at hrest
  have hcolon : ':' ∈ identity.toList := by simp [hrest, ownedStart]
  simp [isNamePart, hcolon] at h

theorem of_newOwnedName {existing : List Instance} {name : String}
    (h : mgr.newOwnedName kind identity existing = .ok name) :
    dropStart? (ownedStart kind mgr.id) identity = none ∧
      name = ownedStart kind mgr.id ++ identity := by
  unfold newOwnedName at h
  split at h
  · cases h
  · next o ho =>
    obtain ⟨rfl, hmanager, rfl⟩ := OwnedName.ofParts_eq_ok_iff.1 ho
    split at h
    · cases h
    · obtain rfl := Except.ok.inj h
      exact ⟨dropStart?_of_isNamePart o.label_isNamePart, by rw [OwnedName.name, hmanager]⟩

theorem of_newPermanentName {existing : List Instance} {name : String}
    (h : mgr.newPermanentName kind identity existing = .ok name) :
    dropStart? (ownedStart kind mgr.id) identity = none ∧ name = identity := by
  unfold newPermanentName at h
  dsimp only at h
  split at h
  · cases h
  split at h
  · cases h
  · next hstart =>
    split at h
    · cases h
    · exact ⟨by simpa using hstart, (Except.ok.inj h).symm⟩

theorem outcome_liftExcept (answer : Except SubscriptionError String) :
    outcome (newName.liftExcept answer : Action (StateM σ) String) s user = ((answer, s), user) := by
  cases answer <;> rfl

/-- A permanent endpoint is added under its identity, which does not start as owned names do. -/
theorem of_newName_permanent {name : String}
    (h : outcome (mgr.newName kind identity false : Action (StateM σ) String) s user =
      ((.ok name, t), user')) :
    s = t ∧ user = user' ∧ dropStart? (ownedStart kind mgr.id) identity = none ∧
      name = identity := by
  obtain ⟨existing, _, _, hlist, h⟩ := outcome_bind_eq_ok.1 h
  obtain ⟨-, rfl, rfl⟩ := outcome_query_eq_ok.1 hlist
  simp only [Bool.false_eq_true, if_false, outcome_liftExcept, Prod.mk.injEq] at h
  obtain ⟨hstart, hname⟩ := of_newPermanentName h.1.1
  exact ⟨h.1.2, h.2, hstart, hname⟩

/-- An identity under which something is added does not start as owned names do. -/
theorem of_newName {owned : Bool} {name : String}
    (h : outcome (mgr.newName kind identity owned : Action (StateM σ) String) s user =
      ((.ok name, t), user')) :
    s = t ∧ user = user' ∧ dropStart? (ownedStart kind mgr.id) identity = none ∧
      (name = identity ∨ name = ownedStart kind mgr.id ++ identity) := by
  cases owned with
  | true =>
    obtain ⟨existing, _, _, hlist, h⟩ := outcome_bind_eq_ok.1 h
    obtain ⟨-, rfl, rfl⟩ := outcome_query_eq_ok.1 hlist
    simp only [if_true, outcome_liftExcept, Prod.mk.injEq] at h
    obtain ⟨hstart, hname⟩ := of_newOwnedName h.1.1
    exact ⟨h.1.2, h.2, hstart, Or.inr hname⟩
  | false =>
    obtain ⟨hs, huser, hstart, hname⟩ := of_newName_permanent h
    exact ⟨hs, huser, hstart, Or.inl hname⟩

end Naming

section Adding

/-- An instance that can be added as an endpoint under an identity. -/
structure New (mgr : Manager) (kind : EndpointKind) (identity own : String) (ns : Namespace)
    (x : Instance) (p : ObjectPath) : Prop where
  path : x.path = some p
  className_eq : x.className = kind.className
  named : x.endpointName = identity ∨ x.endpointName = ownedStart kind mgr.id ++ identity
  unreserved : dropStart? (ownedStart kind mgr.id) identity = none
  placed : ns.pathFor own x = .ok p
  free : ns.find? p = none
  plain : (Value.reference p).Plain
  exact : ∀ e ∈ p.keys, e.2.Exact
  spelled : ∀ a b v, sameName a b = true → p.key? a = some v → p.key? b = some v

variable {x : Instance} {p : ObjectPath} {xs : List Instance}

theorem New.same_self (h : mgr.New kind identity own ns x p) : p.same p = true :=
  ObjectPath.same_self h.plain.1 h.plain.2

theorem New.of_adding (h : mgr.New kind identity own (ns.adding xs) x p) :
    mgr.New kind identity own ns x p :=
  { h with
    placed := by simpa using h.placed
    free := Namespace.find?_of_adding h.free }

theorem New.keyed (h : mgr.New kind identity own ns x p) (hkeyed : ns.Keyed own) :
    (ns.adding [x]).Keyed own := by
  have hx : { x with path := some p } = x := by rw [← h.path]
  have hadd := hkeyed.add h.placed h.free
  rwa [hx] at hadd

theorem New.declared (h : mgr.New kind identity own ns x p) :
    (ns.class? kind.className).isSome = true := by
  obtain ⟨cls, hclass, -⟩ := Namespace.of_pathFor h.placed
  rw [← h.className_eq, hclass]
  rfl

theorem of_create {y : Instance} (hx : x.Plain)
    (h : outcome (mgr.create x : Action (StateM σ) Instance) s user = ((.ok y, t), user')) :
    ∃ p, s.create mgr.interop x = .ok (p, t) ∧ y = { x with path := some p } := by
  obtain ⟨p, _, _, hchange, hquery⟩ := outcome_bind_eq_ok.1 h
  obtain ⟨hget, rfl, rfl⟩ := outcome_query_eq_ok.1 hquery
  have hcreate := (outcome_change_eq_ok.1 hchange).1
  obtain ⟨own, ns, -, hpath, -⟩ := Server.create_eq_ok.1 hcreate
  exact ⟨p, hcreate,
    Except.ok.inj (hget.symm.trans (Server.get_created hcreate (hx.same_path hpath)))⟩

/-- What is created as an endpoint stands at the end of the namespace, at a path that was free. -/
theorem new_of_create {name : String} {y : Instance} (hns : s.Holds mgr.interop own ns)
    (hflat : x.All Value.Flat) (hspelled : x.Spelled)
    (hclass : x.className = kind.className) (hname : x.endpointName = name)
    (hunreserved : dropStart? (ownedStart kind mgr.id) identity = none)
    (hnamed : name = identity ∨ name = ownedStart kind mgr.id ++ identity)
    (h : outcome (mgr.create x : Action (StateM σ) Instance) s user = ((.ok y, t), user')) :
    ∃ p, mgr.New kind identity own ns y p ∧ t = s.withNamespace mgr.interop (ns.adding [y]) := by
  have hplain : x.Plain := hflat.mono fun _ => Value.Flat.plain
  obtain ⟨p, hcreate, rfl⟩ := of_create hplain h
  obtain ⟨own', ns', hns', hpath, hfree, rfl⟩ := Server.create_eq_ok.1 hcreate
  obtain ⟨rfl, rfl⟩ := hns.unique hns'
  refine ⟨p, ?_, rfl⟩
  constructor
  case path => rfl
  case className_eq => exact hclass
  case named => exact hname ▸ hnamed
  case unreserved => exact hunreserved
  case placed => rwa [Namespace.pathFor_placed]
  case free => exact hfree
  case plain => exact hplain.reference_path hpath
  case exact => exact fun e he => (hflat.of_pathFor hpath e he).exact
  case spelled => exact hspelled.key?_pathFor hpath

theorem new_of_addDestination {url : String} {owned : Bool} (hns : s.Holds mgr.interop own ns)
    (h : outcome (mgr.addDestination identity url owned : Action (StateM σ) Instance) s user =
      ((.ok x, t), user')) :
    ∃ p, mgr.New .destination identity own ns x p ∧
      t = s.withNamespace mgr.interop (ns.adding [x]) := by
  unfold addDestination at h
  split at h
  · cases h
  · obtain ⟨name, _, _, hname, h⟩ := outcome_bind_eq_ok.1 h
    obtain ⟨rfl, rfl, hunreserved, hnamed⟩ := of_newName hname
    exact new_of_create hns (mgr.flat_destination _ _ _) (mgr.spelled_destination _ _ _) rfl
      (mgr.endpointName_destination _ _ _) hunreserved hnamed h

theorem new_of_addFilter {query : Query} {owned : Bool} (hns : s.Holds mgr.interop own ns)
    (h : outcome (mgr.addFilter identity query owned : Action (StateM σ) Instance) s user =
      ((.ok x, t), user')) :
    ∃ p, mgr.New .filter identity own ns x p ∧
      t = s.withNamespace mgr.interop (ns.adding [x]) := by
  obtain ⟨name, _, _, hname, h⟩ := outcome_bind_eq_ok.1 h
  obtain ⟨rfl, rfl, hunreserved, hnamed⟩ := of_newName hname
  exact new_of_create hns (mgr.flat_filter _ _) (mgr.spelled_filter _ _) rfl
    (mgr.endpointName_filter _ _) hunreserved hnamed h

end Adding

section Finding

variable {x : Instance} {p : ObjectPath} {all : List Instance}

/-- A new endpoint is the only one that its identity means, if that meant none before. -/
theorem New.matching_append (h : mgr.New kind identity own ns x p)
    (hnone : mgr.matching kind identity all = []) :
    mgr.matching kind identity (all ++ [x]) = [x] := by
  simp only [matching, h.unreserved, Option.isSome_none, Bool.false_eq_true, if_false] at hnone ⊢
  obtain ⟨hpermanent, howned⟩ := List.append_eq_nil_iff.1 hnone
  have hmeant : (x.endpointName == identity ||
      x.endpointName == ownedStart kind mgr.id ++ identity) = true := by
    simpa using h.named
  simp only [List.filter_append, hpermanent, howned, List.nil_append, List.filter_cons, hmeant,
    if_true, List.filter_nil]
  cases mgr.owns kind x <;> rfl

theorem outcome_resolveIdentity {chooser : Chooser (StateM σ)} {select : Bool}
    (hall : mgr.endpoints s kind = .ok all) (hfound : mgr.matching kind identity all = [x]) :
    outcome (mgr.resolveIdentity chooser kind identity select) s user = ((.ok x, s), user) := by
  have hquery : mgr.findByIdentity s kind identity = .ok [x] := by
    rw [findByIdentity, hall, ok_bind, hfound]
    rfl
  rw [resolveIdentity, outcome_bind_ok (outcome_query_ok hquery)]
  rfl

end Finding

end Manager

namespace Namespace

variable {mgr : Manager} {kind : EndpointKind} {identity own : String} {ns : Namespace}
  {x : Instance} {p : ObjectPath}

/-- No subscription refers to an endpoint that is new: what its reference points to stands at a path
that would equal the new one. -/
theorem Resolved.unused (h : ns.Resolved) (hkeyed : ns.Keyed own)
    (hx : mgr.New kind identity own ns x p) : ns.subscriptions.any (refersTo kind x) = false := by
  rw [List.any_eq_false]
  intro z hz hrefers
  obtain ⟨r, p', hr, hp', hsame⟩ := refersTo_eq_true.1 hrefers
  obtain rfl := Option.some.inj (hx.path.symm.trans hp')
  obtain ⟨r', e, hr', hfound⟩ := h z hz kind
  obtain rfl := Option.some.inj (hr.symm.trans hr')
  have he := List.mem_of_find?_eq_some hfound
  obtain ⟨q, hq, hfor⟩ := hkeyed.placed e he
  have hat : q.same r = true := isAt_of_path hq ▸ List.find?_some hfound
  obtain ⟨-, -, hspace, -⟩ := of_pathFor hx.placed
  obtain ⟨-, -, hspace', -⟩ := of_pathFor hfor
  have hequal : q.same p = true := ObjectPath.same_trans hat hsame
    (by rw [hspace, hspace']; exact agreeingSpaces_self _) hx.exact hx.spelled
  have hfree := List.find?_eq_none.1 hx.free e he
  rw [isAt_of_path hq, hequal] at hfree
  exact hfree rfl

end Namespace

end CimConsole
