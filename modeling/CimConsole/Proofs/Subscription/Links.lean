import CimConsole.Proofs.Server.Lineage
import CimConsole.Subscription.Resolver

/-!
How subscriptions hang on what they join, in one namespace. A namespace is linked if every
subscription in it refers to a destination and to a filter that are stored there. Adding an
instance keeps it linked if what the instance refers to is there, and removing one if nothing
refers to it. Paths of endpoints have to equal themselves, or else a reference to an endpoint
would not equal the path that it was copied from.
-/
namespace CimConsole

open Text

/-- The classes of destinations, filters and subscriptions. -/
def roleClasses : List String :=
  [EndpointKind.destination.className, EndpointKind.filter.className, subscriptionClass]

theorem className_mem_roleClasses (kind : EndpointKind) : kind.className ∈ roleClasses := by
  cases kind <;> decide

theorem subscriptionClass_mem_roleClasses : subscriptionClass ∈ roleClasses := by decide

theorem className_ne_subscriptionClass (kind : EndpointKind) :
    kind.className ≠ subscriptionClass := by
  cases kind <;> decide

theorem className_injective {kind other : EndpointKind} (h : kind.className = other.className) :
    kind = other := by
  cases kind <;> cases other <;> first | rfl | exact absurd h (by decide)

instance (φ : EndpointKind → Prop) [DecidablePred φ] : Decidable (∀ kind, φ kind) :=
  decidable_of_iff (φ .destination ∧ φ .filter)
    ⟨fun h kind => by cases kind with | destination => exact h.1 | filter => exact h.2,
      fun h => ⟨h _, h _⟩⟩

theorem ObjectPath.sameName_of_same {p q : ObjectPath} (h : p.same q = true) :
    sameName p.className q.className = true := by
  obtain ⟨space, name, keys⟩ := p
  rw [ObjectPath.same, ObjectPath.isLeftOf] at h
  simp only [Bool.and_eq_true] at h
  exact h.1.1.2

namespace Namespace

/-- No two of the classes are related by inheritance. -/
def Unrelated (ns : Namespace) : Prop :=
  ∀ a ∈ roleClasses, ∀ b ∈ roleClasses, a ≠ b → ns.isWithin a b = false

/-- An instance of a class, or of one below it, is stored. -/
def Stores (ns : Namespace) (className : String) (x : Instance) : Prop :=
  x ∈ ns.instances ∧ ns.isWithin x.className className = true

/-- The stored endpoints of a kind, in their order. -/
def endpoints (ns : Namespace) (kind : EndpointKind) : List Instance :=
  ns.instances.filter fun x => ns.isWithin x.className kind.className

/-- The stored subscriptions, in their order. -/
def subscriptions (ns : Namespace) : List Instance :=
  ns.instances.filter fun x => ns.isWithin x.className subscriptionClass

theorem mem_endpoints {ns : Namespace} {kind : EndpointKind} {x : Instance} :
    x ∈ ns.endpoints kind ↔ ns.Stores kind.className x := by
  rw [endpoints, List.mem_filter, Stores]

theorem mem_subscriptions {ns : Namespace} {x : Instance} :
    x ∈ ns.subscriptions ↔ ns.Stores subscriptionClass x := by
  rw [subscriptions, List.mem_filter, Stores]

/-- Every stored subscription refers to a stored destination as its handler and to a stored
filter as its filter. -/
def Intact (ns : Namespace) : Prop :=
  ∀ x, ns.Stores subscriptionClass x → ∀ kind : EndpointKind,
    ∃ e, ns.Stores kind.className e ∧ refersTo kind e x = true

theorem intact_iff (ns : Namespace) :
    ns.Intact ↔ ∀ x ∈ ns.instances, ns.isWithin x.className subscriptionClass = true →
      ∀ kind ∈ [EndpointKind.destination, .filter], ∃ e ∈ ns.instances,
        ns.isWithin e.className kind.className = true ∧ refersTo kind e x = true := by
  constructor
  · intro h x hx hwithin kind _
    obtain ⟨e, ⟨he, hkind⟩, hrefers⟩ := h x ⟨hx, hwithin⟩ kind
    exact ⟨e, he, hkind, hrefers⟩
  · rintro h x ⟨hx, hwithin⟩ kind
    obtain ⟨e, he, hkind, hrefers⟩ := h x hx hwithin kind (by cases kind <;> decide)
    exact ⟨e, ⟨he, hkind⟩, hrefers⟩

instance (ns : Namespace) : Decidable ns.Intact := decidable_of_iff _ (intact_iff ns).symm

instance (ns : Namespace) : Decidable ns.Unrelated :=
  inferInstanceAs (Decidable (∀ a ∈ roleClasses, ∀ b ∈ roleClasses, a ≠ b → _))

/-- The paths of stored destinations and filters equal themselves. -/
def Reflexive (ns : Namespace) : Prop :=
  ∀ (kind : EndpointKind) (e : Instance) (p : ObjectPath), ns.Stores kind.className e →
    e.path = some p → p.same p = true

theorem reflexive_iff (ns : Namespace) :
    ns.Reflexive ↔ ∀ e ∈ ns.instances, ∀ kind ∈ [EndpointKind.destination, .filter],
      ns.isWithin e.className kind.className = true →
        (e.path.all fun p => p.same p) = true := by
  constructor
  · intro h e he kind _ hwithin
    rw [Option.all_eq_true]
    exact fun p hp => h kind e p ⟨he, hwithin⟩ hp
  · rintro h kind e p ⟨he, hwithin⟩ hp
    have hall := h e he kind (by cases kind <;> decide) hwithin
    rw [hp] at hall
    exact hall

instance (ns : Namespace) : Decidable ns.Reflexive := decidable_of_iff _ (reflexive_iff ns).symm

structure Linked (own : String) (ns : Namespace) : Prop where
  keyed : ns.Keyed own
  unrelated : ns.Unrelated
  reflexive : ns.Reflexive
  intact : ns.Intact

variable {ns : Namespace} {own : String}

/-- No class is below two of the classes. -/
theorem Unrelated.not_within (h : ns.Unrelated) {name a b : String} (ha : a ∈ roleClasses)
    (hb : b ∈ roleClasses) (hab : a ≠ b) (hwithin : ns.isWithin name a = true) :
    ns.isWithin name b = false := by
  rw [Bool.eq_false_iff]
  intro hb'
  rcases isWithin_linear hwithin hb' with hlin | hlin
  · rw [h a ha b hb hab] at hlin
    cases hlin
  · rw [h b hb a ha hab.symm] at hlin
    cases hlin

/-- An instance has no two of the roles. -/
theorem Unrelated.kind_eq (h : ns.Unrelated) {kind other : EndpointKind} {x : Instance}
    (hkind : ns.Stores kind.className x) (hother : ns.Stores other.className x) : kind = other := by
  apply Decidable.not_not.1
  intro hne
  have hclass : kind.className ≠ other.className := fun heq => hne (className_injective heq)
  have hnot := h.not_within (className_mem_roleClasses kind) (className_mem_roleClasses other)
    hclass hkind.2
  rw [hother.2] at hnot
  cases hnot

theorem Unrelated.not_subscription (h : ns.Unrelated) {kind : EndpointKind} {x : Instance}
    (hkind : ns.Stores kind.className x) : ¬ ns.Stores subscriptionClass x := by
  intro hsub
  have hnot := h.not_within (className_mem_roleClasses kind) subscriptionClass_mem_roleClasses
    (className_ne_subscriptionClass kind) hkind.2
  rw [hsub.2] at hnot
  cases hnot

theorem isWithin_pathFor {x : Instance} {p : ObjectPath} (h : ns.pathFor own x = .ok p)
    (ancestor : String) : ns.isWithin p.className ancestor = ns.isWithin x.className ancestor := by
  obtain ⟨cls, hclass, -, hname, -, -⟩ := of_pathFor h
  rw [isWithin, isWithin, superclassChain, superclassChain, hname, class?_name hclass, hclass]

/-- What stands at a path is of the class in the path. -/
theorem Keyed.isWithin_isAt (h : ns.Keyed own) {x : Instance} (hx : x ∈ ns.instances)
    {p : ObjectPath} (hat : isAt p x = true) (ancestor : String) :
    ns.isWithin x.className ancestor = ns.isWithin p.className ancestor := by
  obtain ⟨q, hq, hfor⟩ := h.placed x hx
  rw [isAt_of_path hq] at hat
  rw [← isWithin_pathFor hfor, isWithin_congr (ObjectPath.sameName_of_same hat)]

/-- The instance at a path that equals itself is the one that is found there. -/
theorem Keyed.find?_eq (h : ns.Keyed own) {x y : Instance} {p : ObjectPath}
    (hx : x ∈ ns.instances) (hp : x.path = some p) (hself : p.same p = true)
    (hy : ns.find? p = some y) : y = x :=
  Option.some.inj (hy.symm.trans (h.find?_path hx hp hself))

section Changes

variable {x y : Instance} {p : ObjectPath}

theorem stores_add (ns : Namespace) (x z : Instance) (className : String) :
    Stores { ns with instances := ns.instances ++ [x] } className z ↔
      ns.Stores className z ∨ z = x ∧ ns.isWithin x.className className = true := by
  rw [Stores, Stores, isWithin_instances, List.mem_append, List.mem_singleton]
  constructor
  · rintro ⟨hz | rfl, hwithin⟩
    · exact Or.inl ⟨hz, hwithin⟩
    · exact Or.inr ⟨rfl, hwithin⟩
  · rintro (⟨hz, hwithin⟩ | ⟨rfl, hwithin⟩)
    · exact ⟨Or.inl hz, hwithin⟩
    · exact ⟨Or.inr rfl, hwithin⟩

theorem stores_of_stores_remove {className : String} {z : Instance}
    (hz : Stores { ns with instances := Server.removeFirst (isAt p) ns.instances } className z) :
    ns.Stores className z := by
  obtain ⟨hmem, hwithin⟩ := hz
  rw [isWithin_instances] at hwithin
  exact ⟨(Server.removeFirst_sublist _ _).subset hmem, hwithin⟩

theorem stores_remove_of_ne (hfound : ns.find? p = some y) {className : String} {z : Instance}
    (hz : ns.Stores className z) (hne : z ≠ y) :
    Stores { ns with instances := Server.removeFirst (isAt p) ns.instances } className z := by
  obtain ⟨before, after, hsplit, hremove, -, -⟩ := Server.removeFirst_split hfound
  obtain ⟨hmem, hwithin⟩ := hz
  refine ⟨?_, by rw [isWithin_instances, hwithin]⟩
  rw [hsplit, List.mem_append, List.mem_cons] at hmem
  rw [hremove, List.mem_append]
  rcases hmem with hmem | rfl | hmem
  · exact Or.inl hmem
  · exact absurd rfl hne
  · exact Or.inr hmem

theorem Unrelated.instances (h : ns.Unrelated) (xs : List Instance) :
    Unrelated { ns with instances := xs } := by
  intro a ha b hb hab
  rw [isWithin_instances]
  exact h a ha b hb hab

/-- A namespace stays linked with one more instance if that is no endpoint with a path that
differs from itself and no subscription without its endpoints. -/
theorem Linked.add (h : ns.Linked own) (hpath : ns.pathFor own x = .ok p)
    (hfree : ns.find? p = none)
    (hself : ∀ kind : EndpointKind, ns.isWithin x.className kind.className = true →
      p.same p = true)
    (hrefers : ns.isWithin x.className subscriptionClass = true → ∀ kind : EndpointKind,
      ∃ e, ns.Stores kind.className e ∧ refersTo kind e x = true) :
    Linked own { ns with instances := ns.instances ++ [{ x with path := some p }] } := by
  constructor
  case keyed => exact h.keyed.add hpath hfree
  case unrelated => exact h.unrelated.instances _
  case reflexive =>
    intro kind e q he hq
    rcases (stores_add ns _ e _).1 he with he | ⟨rfl, hwithin⟩
    · exact h.reflexive kind e q he hq
    · obtain rfl := Option.some.inj hq
      exact hself kind hwithin
  case intact =>
    intro z hz kind
    obtain ⟨e, he, hrefer⟩ : ∃ e, ns.Stores kind.className e ∧ refersTo kind e z = true := by
      rcases (stores_add ns _ z _).1 hz with hz | ⟨rfl, hwithin⟩
      · exact h.intact z hz kind
      · exact hrefers hwithin kind
    exact ⟨e, (stores_add ns _ e _).2 (Or.inl he), hrefer⟩

/-- A namespace stays linked without an instance that no subscription needs. -/
theorem Linked.remove (h : ns.Linked own) (hfound : ns.find? p = some y)
    (hunused : ∀ (kind : EndpointKind) (z : Instance), ns.Stores kind.className y →
      ns.Stores subscriptionClass z → refersTo kind y z = false) :
    Linked own { ns with instances := Server.removeFirst (isAt p) ns.instances } := by
  constructor
  case keyed => exact h.keyed.sublist (Server.removeFirst_sublist _ _)
  case unrelated => exact h.unrelated.instances _
  case reflexive =>
    intro kind e q he hq
    exact h.reflexive kind e q (stores_of_stores_remove he) hq
  case intact =>
    intro z hz kind
    have hz' := stores_of_stores_remove hz
    obtain ⟨e, he, hrefer⟩ := h.intact z hz' kind
    refine ⟨e, stores_remove_of_ne hfound he ?_, hrefer⟩
    rintro rfl
    rw [hunused kind z he hz'] at hrefer
    cases hrefer

end Changes

end Namespace

end CimConsole
