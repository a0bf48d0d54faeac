import CimConsole.Proofs.Answer
import CimConsole.Server.Basic

/-!
What the operations of a server do when they succeed. Each of them finds one namespace that
is in order; creating and deleting put another state of it in its place and leave the rest of
the server as it was. What a namespace says about classes and paths depends on its classes
only, so it is the same before and after.
-/
namespace CimConsole

open Text

theorem updateFirst_append {α : Type} (p : String → Bool) (f : α → α) {name : String} {a : α}
    {before : List (String × α)} (after : List (String × α))
    (hbefore : ∀ e ∈ before, p e.1 = false) (hname : p name = true) :
    updateFirst p f (before ++ (name, a) :: after) = before ++ (name, f a) :: after := by
  induction before with
  | nil => simp [updateFirst, hname]
  | cons e before ih =>
    have he : p e.1 = false := hbefore e List.mem_cons_self
    simp [updateFirst, he, ih fun d hd => hbefore d (List.mem_cons_of_mem _ hd)]

namespace Server

/-- A namespace that operations reach by this name: it is stored as `own` and is in order. -/
def Holds (s : Server) (name own : String) (ns : Namespace) : Prop :=
  s.entry? name = some (own, ns) ∧ ns.fault = none

/-- Two servers that differ in nothing but the state of one namespace. -/
def DifferIn (s t : Server) (own : String) (ns ns' : Namespace) : Prop :=
  ∃ before after, s.namespaces = before ++ (own, ns) :: after ∧
    t = { s with namespaces := before ++ (own, ns') :: after }

variable {s t : Server} {name own : String} {ns ns' : Namespace}

theorem readable_eq_ok : s.readable name = .ok ns ↔ ∃ own, s.Holds name own ns := by
  unfold readable Holds
  cases s.entry? name with
  | none => simp
  | some e =>
    obtain ⟨own, found⟩ := e
    cases hf : found.fault with
    | some fault => simpa [hf] using fun heq : found = ns => by simp [← heq, hf]
    | none => simpa [hf] using fun heq : found = ns => by simp [← heq, hf]

theorem writable_eq_ok : s.writable name = .ok (own, ns) ↔ s.Holds name own ns := by
  unfold writable Holds
  cases s.entry? name with
  | none => simp
  | some e =>
    obtain ⟨stored, found⟩ := e
    cases hf : found.fault with
    | some fault => simpa [hf] using fun _ heq => by simp [← heq, hf]
    | none => simpa [hf] using fun _ heq => by simp [← heq, hf]

theorem Holds.unique {own' : String} (h : s.Holds name own ns) (h' : s.Holds name own' ns') :
    own = own' ∧ ns = ns' := by
  have heq := h.1.symm.trans h'.1
  exact Prod.mk.inj (Option.some.inj heq)

/-- Where the namespace of a name stands. -/
theorem Holds.split (h : s.Holds name own ns) :
    ∃ before after, s.namespaces = before ++ (own, ns) :: after ∧
      sameName own (trimMark '/' name) = true ∧
      ∀ e ∈ before, sameName e.1 (trimMark '/' name) = false := by
  obtain ⟨hname, before, after, hsplit, hbefore⟩ := List.find?_eq_some_iff_append.1 h.1
  exact ⟨before, after, hsplit, hname, fun e he => by simpa using hbefore e he⟩

theorem withNamespace_eq {before after : List (String × Namespace)} (ns' : Namespace)
    (hsplit : s.namespaces = before ++ (own, ns) :: after)
    (hname : sameName own (trimMark '/' name) = true)
    (hbefore : ∀ e ∈ before, sameName e.1 (trimMark '/' name) = false) :
    s.withNamespace name ns' = { s with namespaces := before ++ (own, ns') :: after } := by
  rw [Server.withNamespace, hsplit,
    updateFirst_append (sameName · (trimMark '/' name)) _ after hbefore hname]

theorem Holds.differIn (h : s.Holds name own ns) (ns' : Namespace) :
    s.DifferIn (s.withNamespace name ns') own ns ns' := by
  obtain ⟨before, after, hsplit, hname, hbefore⟩ := h.split
  exact ⟨before, after, hsplit, withNamespace_eq ns' hsplit hname hbefore⟩

theorem Holds.mem_withNamespace (h : s.Holds name own ns) {e : String × Namespace}
    (he : e ∈ (s.withNamespace name ns').namespaces) : e = (own, ns') ∨ e ∈ s.namespaces := by
  obtain ⟨before, after, hsplit, ht⟩ := h.differIn ns'
  rw [ht] at he
  rw [hsplit]
  rcases List.mem_append.1 he with he | he
  · exact Or.inr (List.mem_append_left _ he)
  · rcases List.mem_cons.1 he with he | he
    · exact Or.inl he
    · exact Or.inr (List.mem_append_right _ (List.mem_cons_of_mem _ he))

theorem Holds.withNamespace (h : s.Holds name own ns) (hfault : ns'.fault = none) :
    (s.withNamespace name ns').Holds name own ns' := by
  obtain ⟨before, after, hsplit, hname, hbefore⟩ := h.split
  refine ⟨?_, hfault⟩
  unfold entry?
  rw [withNamespace_eq ns' hsplit hname hbefore]
  exact List.find?_eq_some_iff_append.2 ⟨hname, before, after, rfl, fun e he => by
    simpa using hbefore e he⟩

/-- Of two states that are put in the place of one namespace the later counts. -/
theorem Holds.withNamespace_withNamespace (h : s.Holds name own ns) (a b : Namespace) :
    (s.withNamespace name a).withNamespace name b = s.withNamespace name b := by
  obtain ⟨before, after, hsplit, hname, hbefore⟩ := h.split
  rw [withNamespace_eq a hsplit hname hbefore, withNamespace_eq b rfl hname hbefore,
    withNamespace_eq b hsplit hname hbefore]

theorem Holds.withNamespace_self (h : s.Holds name own ns) : s.withNamespace name ns = s := by
  obtain ⟨before, after, hsplit, hname, hbefore⟩ := h.split
  rw [withNamespace_eq ns hsplit hname hbefore, ← hsplit]

/-- Putting the state of a namespace back undoes any change of it. -/
theorem Holds.withNamespace_back (h : s.Holds name own ns) (ns' : Namespace) :
    (s.withNamespace name ns').withNamespace name ns = s := by
  rw [h.withNamespace_withNamespace, h.withNamespace_self]

theorem create_eq_ok {x : Instance} {path : ObjectPath} :
    s.create name x = .ok (path, t) ↔ ∃ own ns, s.Holds name own ns ∧
      ns.pathFor own x = .ok path ∧ ns.find? path = none ∧
      t = s.withNamespace name
        { ns with instances := ns.instances ++ [{ x with path := some path }] } := by
  unfold create
  simp only [bind_eq_ok, Prod.exists, writable_eq_ok]
  constructor
  · rintro ⟨own, ns, hns, p, hp, h⟩
    split at h
    · cases h
    · next hfree =>
      obtain ⟨rfl, rfl⟩ := Prod.mk.inj (Except.ok.inj h)
      exact ⟨own, ns, hns, hp, hfree, rfl⟩
  · rintro ⟨own, ns, hns, hp, hfree, rfl⟩
    exact ⟨own, ns, hns, path, hp, by rw [hfree]; rfl⟩

theorem get_eq_ok {path : ObjectPath} {x : Instance} :
    s.get name path none = .ok x ↔ ∃ own ns, s.Holds name own ns ∧
      (ns.class? path.className).isSome ∧ ns.find? path = some x := by
  unfold get
  simp only [bind_eq_ok, readable_eq_ok]
  constructor
  · rintro ⟨ns, ⟨own, hns⟩, h⟩
    split at h
    · cases h
    · next hclass =>
      split at h
      · cases h
      · next y hfound =>
        obtain rfl : y = x := Except.ok.inj h
        exact ⟨own, ns, hns, by simpa [Option.isSome_iff_ne_none] using hclass, hfound⟩
  · rintro ⟨own, ns, hns, hclass, hfound⟩
    refine ⟨ns, ⟨own, hns⟩, ?_⟩
    rw [if_neg (by simpa [Option.isSome_iff_ne_none] using hclass), hfound]
    rfl

theorem delete_eq_ok {path : ObjectPath} :
    s.delete name path = .ok t ↔ ∃ own ns x, s.Holds name own ns ∧
      (ns.class? path.className).isSome ∧ ns.find? path = some x ∧
      t = s.withNamespace name
        { ns with instances := removeFirst (Namespace.isAt path) ns.instances } := by
  unfold delete
  simp only [bind_eq_ok, Prod.exists, writable_eq_ok]
  constructor
  · rintro ⟨own, ns, hns, h⟩
    split at h
    · cases h
    · next hclass =>
      split at h
      · cases h
      · next x hfound =>
        obtain rfl := Except.ok.inj h
        exact ⟨own, ns, x, hns, by simpa [Option.isSome_iff_ne_none] using hclass, hfound, rfl⟩
  · rintro ⟨own, ns, x, hns, hclass, hfound, rfl⟩
    refine ⟨own, ns, hns, ?_⟩
    rw [if_neg (by simpa [Option.isSome_iff_ne_none] using hclass), hfound]
    rfl

/-- Where nothing stands, nothing is deleted. -/
theorem delete_missing {path : ObjectPath} (hns : s.Holds name own ns)
    (hclass : (ns.class? path.className).isSome = true) (hfree : ns.find? path = none) :
    s.delete name path = .error (noSuchInstance path) := by
  rw [delete, writable_eq_ok.2 hns, ok_bind]
  dsimp only
  rw [if_neg (by simpa [Option.isSome_iff_ne_none] using hclass), hfree]

theorem instances_eq_ok {className : String} {xs : List Instance} :
    s.instances name className none = .ok xs ↔ ∃ own ns, s.Holds name own ns ∧
      (ns.class? className).isSome ∧
      xs = ns.instances.filter fun x => ns.isWithin x.className className := by
  unfold instances
  simp only [bind_eq_ok, readable_eq_ok]
  constructor
  · rintro ⟨ns, ⟨own, hns⟩, h⟩
    split at h
    · cases h
    · next hclass =>
      refine ⟨own, ns, hns, by simpa [Option.isSome_iff_ne_none] using hclass, ?_⟩
      have hall : (shown none : Instance → Instance) = id := rfl
      rw [← Except.ok.inj h, hall, List.map_id]
  · rintro ⟨own, ns, hns, hclass, rfl⟩
    refine ⟨ns, ⟨own, hns⟩, ?_⟩
    have hall : (shown none : Instance → Instance) = id := rfl
    rw [if_neg (by simpa [Option.isSome_iff_ne_none] using hclass), hall, List.map_id]
    rfl

theorem removeFirst_append {p : Instance → Bool} {before : List Instance} {x : Instance}
    (after : List Instance) (hbefore : ∀ y ∈ before, p y = false) (hx : p x = true) :
    removeFirst p (before ++ x :: after) = before ++ after := by
  induction before with
  | nil => simp [removeFirst, hx]
  | cons y before ih =>
    have hy : p y = false := hbefore y List.mem_cons_self
    simp [removeFirst, hy, ih fun z hz => hbefore z (List.mem_cons_of_mem _ hz)]

theorem removeFirst_sublist (p : Instance → Bool) (xs : List Instance) :
    (removeFirst p xs).Sublist xs := by
  induction xs with
  | nil => exact List.Sublist.slnil
  | cons x rest ih =>
    rw [removeFirst]
    split
    · exact List.sublist_cons_self x rest
    · exact ih.cons_cons x

/-- The first instance at a path is the one that is found there. -/
theorem removeFirst_split {path : ObjectPath} {x : Instance} (h : ns.find? path = some x) :
    ∃ before after, ns.instances = before ++ x :: after ∧
      removeFirst (Namespace.isAt path) ns.instances = before ++ after ∧
      Namespace.isAt path x = true ∧ ∀ y ∈ before, Namespace.isAt path y = false := by
  obtain ⟨hx, before, after, hsplit, hbefore⟩ := List.find?_eq_some_iff_append.1 h
  have hnone : ∀ y ∈ before, Namespace.isAt path y = false := fun y hy => by
    simpa using hbefore y hy
  refine ⟨before, after, hsplit, ?_, hx, hnone⟩
  rw [hsplit, removeFirst_append after hnone hx]

end Server

end CimConsole
