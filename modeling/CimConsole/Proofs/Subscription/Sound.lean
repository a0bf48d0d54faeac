import CimConsole.Proofs.Subscription.Links

/-!
Servers whose interop namespace is linked, and what removing one instance does to them. Which
namespace is the interop namespace never changes, and which classes derive from which neither,
so what was said of a stored instance before another one is removed is still true of it after.
-/
namespace CimConsole

open Text

namespace Server

/-- The interop namespace has this name and is linked. -/
structure Sound (s : Server) (interop : String) : Prop where
  interop_eq : s.interop = .ok interop
  linked : ∃ own ns, s.entry? interop = some (own, ns) ∧ ns.Linked own

/-- An instance of a class is stored in a namespace. -/
def Stores (s : Server) (space className : String) (x : Instance) : Prop :=
  ∃ own ns, s.Holds space own ns ∧ ns.Stores className x

variable {s : Server} {space own : String} {ns ns' : Namespace}

/-- Which namespace is the interop namespace depends on their names only. -/
theorem interop_eq_of_names (s : Server) :
    s.interop =
      match interopNames.findSome? fun name => (s.namespaces.map (·.1)).find? (sameName · name) with
      | some name => .ok name
      | none => .error (.notFound "interop namespace could not be determined") := by
  have hname : (interopNames.findSome? fun name =>
      s.namespaces.find? fun e => sameName e.1 name).map (·.1) =
      interopNames.findSome? fun name => (s.namespaces.map (·.1)).find? (sameName · name) := by
    rw [List.map_findSome?]
    congr 1
    funext name
    rw [List.find?_map]
    rfl
  rw [← hname, interop]
  cases interopNames.findSome? fun name => s.namespaces.find? fun e => sameName e.1 name <;> rfl

theorem interop_congr {t : Server}
    (h : t.namespaces.map (·.1) = s.namespaces.map (·.1)) : t.interop = s.interop := by
  rw [interop_eq_of_names, interop_eq_of_names, h]

/-- Another state of one namespace leaves the interop namespace what it is. -/
theorem Holds.interop_withNamespace {name : String} (h : s.Holds name own ns) (ns' : Namespace) :
    (s.withNamespace name ns').interop = s.interop := by
  obtain ⟨before, after, hsplit, ht⟩ := h.differIn ns'
  apply interop_congr
  rw [ht, hsplit]
  simp

theorem Sound.linked_of_holds (h : s.Sound space) (hns : s.Holds space own ns) :
    ns.Linked own := by
  obtain ⟨own', ns', hentry, hlinked⟩ := h.linked
  obtain ⟨rfl, rfl⟩ := Prod.mk.inj (Option.some.inj (hentry.symm.trans hns.1))
  exact hlinked

theorem Sound.withNamespace (h : s.Sound space) (hns : s.Holds space own ns)
    (hfault : ns'.fault = none) (hlinked : ns'.Linked own) :
    (s.withNamespace space ns').Sound space := by
  refine ⟨?_, own, ns', (hns.withNamespace hfault).1, hlinked⟩
  rw [hns.interop_withNamespace, h.interop_eq]

theorem attach_of_interop (h : s.interop = .ok space) (id : String) :
    s.attach id = .ok ⟨id, space, s.url⟩ := by
  rw [attach, h]
  rfl

end Server

namespace Server

variable {s t : Server} {space : String}

/-- A class derives from another one, or is it, in a namespace. -/
def Below (s : Server) (space name ancestor : String) : Prop :=
  ∃ own ns, s.Holds space own ns ∧ ns.isWithin name ancestor = true

/-- `xs` are the stored instances of a class in their order. -/
def Lists (s : Server) (space className : String) (xs : List Instance) : Prop :=
  ∃ own ns, s.Holds space own ns ∧
    xs = ns.instances.filter fun x => ns.isWithin x.className className

/-- An endpoint that no stored subscription refers to. -/
def Unused (s : Server) (space : String) (kind : EndpointKind) (e : Instance) : Prop :=
  ∀ z, s.Stores space subscriptionClass z → refersTo kind e z = false

/-- What is left of the instances of a server without one of them. -/
structure Removed (s t : Server) (space : String) (y : Instance) : Prop where
  fewer : ∀ className z, t.Stores space className z → s.Stores space className z
  kept : ∀ className z, s.Stores space className z → z ≠ y → t.Stores space className z
  below : ∀ name ancestor, s.Below space name ancestor → t.Below space name ancestor

theorem stores_iff {own className : String} {ns : Namespace} (hns : s.Holds space own ns)
    (x : Instance) : s.Stores space className x ↔ ns.Stores className x := by
  constructor
  · rintro ⟨own', ns', hns', hx⟩
    obtain ⟨-, rfl⟩ := hns.unique hns'
    exact hx
  · exact fun hx => ⟨own, ns, hns, hx⟩

theorem Lists.mem_iff {className : String} {xs : List Instance} (h : s.Lists space className xs)
    (x : Instance) : x ∈ xs ↔ s.Stores space className x := by
  obtain ⟨own, ns, hns, rfl⟩ := h
  rw [stores_iff hns, List.mem_filter]
  rfl

/-- No endpoint is listed twice. -/
theorem Sound.nodup (h : s.Sound space) {kind : EndpointKind} {xs : List Instance}
    (hxs : s.Lists space kind.className xs) : xs.Nodup := by
  obtain ⟨own, ns, hns, rfl⟩ := hxs
  have hlinked := h.linked_of_holds hns
  refine (hlinked.keyed.distinct.filter _).imp_of_mem fun {x y} hx _ hdistinct => ?_
  rintro rfl
  obtain ⟨hmem, hwithin⟩ := List.mem_filter.1 hx
  obtain ⟨p, hp, -⟩ := hlinked.keyed.placed x hmem
  have hself := hlinked.reflexive kind x p ⟨hmem, hwithin⟩ hp
  rw [hdistinct p p hp hp] at hself
  cases hself

theorem Sound.below_path (h : s.Sound space) {className : String} {x : Instance} {p : ObjectPath}
    (hx : s.Stores space className x) (hp : x.path = some p) :
    s.Below space p.className className := by
  obtain ⟨own, ns, hns, hmem, hwithin⟩ := hx
  obtain ⟨q, hq, hfor⟩ := (h.linked_of_holds hns).keyed.placed x hmem
  obtain rfl := Option.some.inj (hq.symm.trans hp)
  exact ⟨own, ns, hns, by rwa [Namespace.isWithin_pathFor hfor]⟩

theorem Sound.not_subscription (h : s.Sound space) {kind : EndpointKind} {x : Instance}
    (hx : s.Stores space kind.className x) : ¬ s.Stores space subscriptionClass x := by
  obtain ⟨own, ns, hns, hx⟩ := hx
  rw [stores_iff hns]
  exact (h.linked_of_holds hns).unrelated.not_subscription hx

theorem Sound.kind_eq (h : s.Sound space) {kind other : EndpointKind} {x : Instance}
    (hx : s.Stores space kind.className x) (hx' : s.Stores space other.className x) :
    kind = other := by
  obtain ⟨own, ns, hns, hx⟩ := hx
  exact (h.linked_of_holds hns).unrelated.kind_eq hx ((stores_iff hns x).1 hx')

theorem Holds.removed {own : String} {ns : Namespace} {p : ObjectPath} {y : Instance}
    (hns : s.Holds space own ns) (hfound : ns.find? p = some y) :
    s.Removed (s.withNamespace space
      { ns with instances := removeFirst (Namespace.isAt p) ns.instances }) space y := by
  have hlater : (s.withNamespace space
      { ns with instances := removeFirst (Namespace.isAt p) ns.instances }).Holds space own
      { ns with instances := removeFirst (Namespace.isAt p) ns.instances } := hns.withNamespace hns.2
  constructor
  case fewer =>
    intro className z hz
    rw [stores_iff hlater] at hz
    exact (stores_iff hns z).2 (Namespace.stores_of_stores_remove hz)
  case kept =>
    intro className z hz hne
    rw [stores_iff hns] at hz
    exact (stores_iff hlater z).2 (Namespace.stores_remove_of_ne hfound hz hne)
  case below =>
    rintro name ancestor ⟨own', ns', hns', hwithin⟩
    obtain ⟨-, rfl⟩ := hns.unique hns'
    exact ⟨own, _, hlater, by rwa [Namespace.isWithin_instances]⟩

/-- Removing an instance that no subscription needs leaves a server sound. -/
theorem Sound.remove (h : s.Sound space) {own : String} {ns : Namespace} {p : ObjectPath}
    {y : Instance} (hns : s.Holds space own ns) (hfound : ns.find? p = some y)
    (hunused : ∀ (kind : EndpointKind) (z : Instance), ns.Stores kind.className y →
      ns.Stores subscriptionClass z → refersTo kind y z = false)
    (ht : t = s.withNamespace space
      { ns with instances := removeFirst (Namespace.isAt p) ns.instances }) :
    t.Sound space ∧ s.Removed t space y := by
  subst ht
  have hlinked := (h.linked_of_holds hns).remove hfound hunused
  exact ⟨h.withNamespace hns hns.2 hlinked, hns.removed hfound⟩

end Server

end CimConsole
