import CimConsole.Proofs.Server.Inheritance

/-!
Ways up from a class. A class has one superclass, so of two ways up from it one goes on where the
other ends. If the class at the end of a way lies on no cycle, then there is no other way to it, and
no class is met twice on this one, whatever cycles there are elsewhere.
-/
namespace CimConsole

open Text

namespace Namespace

variable {ns : Namespace} {top a b c d e : ClassDecl} {parent : String}
  {way back chain : List ClassDecl}

/-- The classes from one up to another, which is not among them, each the superclass of the one
before. -/
inductive Ascent (ns : Namespace) (top : ClassDecl) : ClassDecl → List ClassDecl → Prop where
  | here : Ascent ns top top []
  | up {c d : ClassDecl} {parent : String} {way : List ClassDecl}
      (hparent : c.superclass = some parent) (hd : d ∈ ns.classes)
      (hname : sameName d.name parent = true) (h : Ascent ns top d way) : Ascent ns top c (c :: way)

theorem Validated.parent_eq (h : ns.Validated) {other : String}
    (hparent : c.superclass = some parent) (hd : d ∈ ns.classes)
    (hdname : sameName d.name parent = true) (hother : c.superclass = some other)
    (he : e ∈ ns.classes) (hename : sameName e.name other = true) : d = e := by
  obtain rfl := Option.some.inj (hparent.symm.trans hother)
  exact h.distinct.eq_of_sameName hd he (sameName_trans hdname (sameName_symm hename))

theorem Ascent.trans (h : ns.Ascent b c way) (hback : ns.Ascent a b back) :
    ns.Ascent a c (way ++ back) := by
  induction h with
  | here => exact hback
  | up hparent hd hname _ ih => exact .up hparent hd hname ih

theorem Ascent.mem_classes (h : ns.Ascent top c way) (hc : c ∈ ns.classes) :
    ∀ b ∈ way, b ∈ ns.classes := by
  induction h with
  | here => exact fun b hb => absurd hb List.not_mem_nil
  | up _ hd _ _ ih =>
    intro b hb
    rcases List.mem_cons.1 hb with rfl | hb
    · exact hc
    · exact ih hd b hb

theorem Ascent.top_mem (h : ns.Ascent top c way) (hc : c ∈ ns.classes) : top ∈ ns.classes := by
  induction h with
  | here => exact hc
  | up _ hd _ _ ih => exact ih hd

/-- From every class of a way the rest of it leads on, and the beginning leads there. -/
theorem Ascent.split (h : ns.Ascent top c way) (hb : b ∈ way) :
    ∃ before after, way = before ++ after ∧ ns.Ascent b c before ∧ ns.Ascent top b after := by
  induction h with
  | here => cases hb
  | @up c d parent way hparent hd hname h ih =>
    rcases List.mem_cons.1 hb with rfl | hb
    · exact ⟨[], b :: way, rfl, .here, .up hparent hd hname h⟩
    · obtain ⟨before, after, rfl, hbefore, hafter⟩ := ih hb
      exact ⟨c :: before, after, rfl, .up hparent hd hname hbefore, hafter⟩

theorem Ascent.descendsFrom (h : ns.Ascent top c way) (hne : way ≠ []) :
    DescendsFrom ns.classes top.name c := by
  induction h with
  | here => exact absurd rfl hne
  | up hparent hd hname h ih =>
    cases h with
    | here => exact .direct hparent (sameName_symm hname)
    | up => exact .further hparent hd hname (ih (List.cons_ne_nil _ _))

theorem Ascent.eq_or_descendsFrom (h : ns.Ascent top c way) :
    c = top ∨ DescendsFrom ns.classes top.name c := by
  cases h with
  | here => exact Or.inl rfl
  | up hparent hd hname h =>
    exact Or.inr ((Ascent.up hparent hd hname h).descendsFrom (List.cons_ne_nil _ _))

/-- A class descends from another one if there is a way up to it. -/
theorem descendsFrom_iff_ascent (htop : top ∈ ns.classes) :
    DescendsFrom ns.classes top.name c ↔ ∃ way, way ≠ [] ∧ ns.Ascent top c way := by
  constructor
  · intro hdescends
    induction hdescends with
    | direct hparent hroot =>
      exact ⟨_, List.cons_ne_nil _ _, .up hparent htop (sameName_symm hroot) .here⟩
    | further hparent hd hname _ ih =>
      obtain ⟨way, -, hway⟩ := ih
      exact ⟨_, List.cons_ne_nil _ _, .up hparent hd hname hway⟩
  · rintro ⟨way, hne, hway⟩
    exact hway.descendsFrom hne

/-- Of two ways up one goes on where the other ends. -/
theorem Ascent.linear (h : ns.Validated) (ha : ns.Ascent a c way) (hb : ns.Ascent b c back) :
    (∃ rest, ns.Ascent b a rest ∧ back = way ++ rest) ∨
      ∃ rest, ns.Ascent a b rest ∧ way = back ++ rest := by
  induction ha generalizing back with
  | here => exact Or.inl ⟨back, hb, rfl⟩
  | up hparent hd hname ha ih =>
    cases hb with
    | here => exact Or.inr ⟨_, .up hparent hd hname ha, rfl⟩
    | up hparent' hd' hname' hb =>
      obtain rfl := h.parent_eq hparent hd hname hparent' hd' hname'
      rcases ih hb with ⟨rest, hrest, rfl⟩ | ⟨rest, hrest, rfl⟩
      · exact Or.inl ⟨rest, hrest, rfl⟩
      · exact Or.inr ⟨rest, hrest, rfl⟩

theorem Ascent.eq_nil (htop : ¬ DescendsFrom ns.classes top.name top)
    (h : ns.Ascent top top way) : way = [] :=
  Decidable.byContradiction fun hne => htop (h.descendsFrom hne)

/-- There is one way to a class on no cycle. -/
theorem Ascent.unique (h : ns.Validated) (htop : ¬ DescendsFrom ns.classes top.name top)
    (hway : ns.Ascent top c way) (hback : ns.Ascent top c back) : way = back := by
  rcases hway.linear h hback with ⟨rest, hrest, rfl⟩ | ⟨rest, hrest, rfl⟩
  · rw [hrest.eq_nil htop, List.append_nil]
  · rw [hrest.eq_nil htop, List.append_nil]

/-- On a way to a class on no cycle no class is met twice. -/
theorem Ascent.nodup (h : ns.Validated) (htop : ¬ DescendsFrom ns.classes top.name top)
    (hway : ns.Ascent top c way) : (way ++ [top]).Nodup := by
  induction hway with
  | here => exact List.nodup_singleton _
  | @up c d parent way hparent hd hname hway ih =>
    have hall : ns.Ascent top c (c :: way) := .up hparent hd hname hway
    rw [List.cons_append, List.nodup_cons]
    refine ⟨fun hmem => ?_, ih⟩
    rcases List.mem_append.1 hmem with hmem | hmem
    · -- from the second time on the way would be shorter
      obtain ⟨before, after, rfl, -, hafter⟩ := hway.split hmem
      have hlength := congrArg List.length (hall.unique h htop hafter)
      simp only [List.length_cons, List.length_append] at hlength
      omega
    · obtain rfl := List.mem_singleton.1 hmem
      exact List.cons_ne_nil _ _ (hall.eq_nil htop)

theorem Ascent.length_lt (h : ns.Validated) (htop : ¬ DescendsFrom ns.classes top.name top)
    (hway : ns.Ascent top c way) (hc : c ∈ ns.classes) : way.length < ns.classes.length := by
  have hsubset : way ++ [top] ⊆ ns.classes := by
    intro b hb
    rcases List.mem_append.1 hb with hb | hb
    · exact hway.mem_classes hc b hb
    · exact List.mem_singleton.1 hb ▸ hway.top_mem hc
  have hlength := ((hway.nodup h htop).subperm hsubset).length_le
  rw [List.length_append, List.length_singleton] at hlength
  omega

theorem Ascent.ancestry (hway : ns.Ascent top c way) (hchain : ns.Ancestry top chain) :
    ns.Ancestry c (way ++ chain) := by
  induction hway with
  | here => exact hchain
  | up hparent hd hname _ ih => exact .under hparent hd hname ih

/-- All ancestors of a class are the classes on a way up and the one at its end. -/
theorem Ancestry.exists_ascent (h : ns.Ancestry c chain) :
    ∃ top way, ns.Ascent top c way ∧ top.superclass = none ∧ chain = way ++ [top] := by
  induction h with
  | top htop => exact ⟨_, [], .here, htop, rfl⟩
  | under hparent hd hname _ ih =>
    obtain ⟨top, way, hway, htop, rfl⟩ := ih
    exact ⟨top, _, .up hparent hd hname hway, htop, rfl⟩

theorem not_descendsFrom_of_top (htop : top.superclass = none) {root : String} :
    ¬ DescendsFrom ns.classes root top := by
  intro hdescends
  cases hdescends with
  | direct hparent => simp [htop] at hparent
  | further hparent => simp [htop] at hparent

theorem Validated.walk_of_ancestry (h : ns.Validated) (hchain : ns.Ancestry c chain) {n : Nat}
    (hlength : chain.length ≤ n) : ns.walk n (some c) = chain := by
  induction hchain generalizing n with
  | top htop =>
    obtain ⟨n, rfl⟩ : ∃ m, n = m + 1 := ⟨n - 1, by simp at hlength; omega⟩
    rw [walk, htop, Option.bind_none]
    cases n <;> rfl
  | under hparent hd hname _ ih =>
    obtain ⟨n, rfl⟩ : ∃ m, n = m + 1 := ⟨n - 1, by simp at hlength; omega⟩
    rw [walk, hparent, Option.bind_some, h.class?_eq hd hname, ih (by simpa using hlength)]

/-- Where the way up ends at a class without superclass, the chain of a class is that way. -/
theorem Validated.superclassChain_eq (h : ns.Validated) (hc : c ∈ ns.classes)
    (hchain : ns.Ancestry c chain) : ns.superclassChain c.name = chain := by
  obtain ⟨top, way, hway, htop, rfl⟩ := hchain.exists_ascent
  have hlength := hway.length_lt h (not_descendsFrom_of_top htop) hc
  rw [superclassChain, h.class?_eq hc (sameName_refl _), h.walk_of_ancestry hchain]
  rw [List.length_append, List.length_singleton]
  omega

end Namespace

end CimConsole
