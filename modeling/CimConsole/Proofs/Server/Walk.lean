import CimConsole.Proofs.Server.Inheritance

/-!
The walk along superclasses, cycles included. It is cut by its length and not where a class comes
back, so on a cycle it goes round until one class more than the namespace has was met. By then it has
met every class that links lead to at all: of two ways to a class the shorter one does not meet a
class twice.
-/
namespace CimConsole

open Text

namespace Namespace

variable {ns : Namespace} {own name other parent ancestor : String} {c d e : ClassDecl} {i j n : Nat}
  {met found : List ClassDecl}

/-- So many superclass links lead from a name to a class, each to a declared class; with none the
name is that of the class. -/
inductive Reaches (ns : Namespace) : String → Nat → ClassDecl → Prop where
  | here {name : String} {c : ClassDecl} (hc : c ∈ ns.classes) (hname : sameName c.name name = true) :
      Reaches ns name 0 c
  | up {name parent : String} {n : Nat} {c d : ClassDecl} (hc : c ∈ ns.classes)
      (hname : sameName c.name name = true) (hparent : c.superclass = some parent)
      (h : Reaches ns parent n d) : Reaches ns name (n + 1) d

/-- The walk as a loop, from the classes that were met and the one that comes next: it stops where no
class is left, or where more classes were met than there are. -/
inductive Walks (ns : Namespace) : List ClassDecl → Option ClassDecl → List ClassDecl → Prop where
  | ended {met : List ClassDecl} : Walks ns met none met
  | cut {met : List ClassDecl} {c : ClassDecl} (hmet : ns.classes.length < met.length) :
      Walks ns met (some c) met
  | goesOn {met found : List ClassDecl} {c : ClassDecl} (hmet : met.length ≤ ns.classes.length)
      (h : Walks ns (met ++ [c]) (c.superclass.bind ns.class?) found) : Walks ns met (some c) found

/-- The loop ends wherever it is entered, and adds the classes of the walk that is left. -/
theorem walks_iff {next : Option ClassDecl} (hn : met.length + n = ns.classes.length + 1) :
    ns.Walks met next found ↔ found = met ++ ns.walk n next := by
  induction n generalizing met next with
  | zero =>
    have hcut : ns.classes.length < met.length := by omega
    rw [walk, List.append_nil]
    constructor
    · intro h
      cases h with
      | ended => rfl
      | cut => rfl
      | goesOn hmet => omega
    · rintro rfl
      cases next with
      | none => exact .ended
      | some c => exact .cut hcut
  | succ n ih =>
    cases next with
    | none =>
      rw [walk, List.append_nil]
      · constructor
        · rintro ⟨⟩
          rfl
        · rintro rfl
          exact .ended
      · exact Nat.succ_ne_zero n
    | some c =>
      have hnext : (met ++ [c]).length + n = ns.classes.length + 1 := by
        rw [List.length_append, List.length_singleton]
        omega
      rw [walk, List.append_cons, ← ih hnext]
      constructor
      · intro h
        cases h with
        | cut hmet => omega
        | goesOn _ h => exact h
      · exact .goesOn (by omega)

theorem length_walk_le (n : Nat) (start : Option ClassDecl) : (ns.walk n start).length ≤ n := by
  induction n generalizing start with
  | zero => exact Nat.le_refl 0
  | succ n ih =>
    cases start with
    | none => exact Nat.zero_le _
    | some c => exact Nat.succ_le_succ (ih _)

theorem Reaches.congr (hname : sameName name other = true) (h : ns.Reaches name n d) :
    ns.Reaches other n d := by
  cases h with
  | here hc hcname => exact .here hc (sameName_trans hcname hname)
  | up hc hcname hparent h => exact .up hc (sameName_trans hcname hname) hparent h

/-- Links from a class that was reached lead on. -/
theorem Reaches.trans (h : ns.Reaches name i c) (hname : sameName c.name other = true)
    (hon : ns.Reaches other j d) : ns.Reaches name (j + i) d := by
  induction h with
  | here hc hcname => exact hon.congr (sameName_trans (sameName_symm hname) hcname)
  | up hd hdname hparent _ ih => exact .up hd hdname hparent (ih hname)

theorem Reaches.mem_classes (h : ns.Reaches name n d) : d ∈ ns.classes := by
  induction h with
  | here hc _ => exact hc
  | up _ _ _ _ ih => exact ih

/-- The class of the name that links start from. -/
theorem Reaches.exists_start (h : ns.Reaches name n d) :
    ∃ c ∈ ns.classes, sameName c.name name = true := by
  cases h with
  | here hc hname => exact ⟨d, hc, hname⟩
  | up hc hname _ _ => exact ⟨_, hc, hname⟩

theorem Validated.eq_or_descendsFrom (h : ns.Validated) (hc : c ∈ ns.classes)
    (hname : sameName c.name name = true) (hreach : ns.Reaches name n d) :
    d = c ∨ DescendsFrom ns.classes d.name c := by
  induction hreach generalizing c with
  | here hd hdname =>
    exact Or.inl (h.distinct.eq_of_sameName hd hc (sameName_trans hdname (sameName_symm hname)))
  | up he hename hparent hon ih =>
    obtain rfl := h.distinct.eq_of_sameName hc he (sameName_trans hname (sameName_symm hename))
    obtain ⟨next, hnext, hnextname⟩ := hon.exists_start
    rcases ih hnext hnextname with rfl | hdescends
    · exact Or.inr (.direct hparent (sameName_symm hnextname))
    · exact Or.inr (.further hparent hnext hnextname hdescends)

theorem Validated.class?_eq_some_iff (h : ns.Validated) :
    ns.class? name = some c ↔ c ∈ ns.classes ∧ sameName c.name name = true :=
  ⟨mem_of_class?, fun ⟨hc, hname⟩ => h.class?_eq hc hname⟩

theorem Validated.reaches_zero_iff (h : ns.Validated) :
    ns.Reaches name 0 d ↔ ns.class? name = some d := by
  rw [h.class?_eq_some_iff]
  constructor
  · rintro ⟨⟩
    next hd hname => exact ⟨hd, hname⟩
  · rintro ⟨hd, hname⟩
    exact .here hd hname

theorem Validated.reaches_succ_iff (h : ns.Validated) : ns.Reaches name (n + 1) d ↔
    ∃ c parent, ns.class? name = some c ∧ c.superclass = some parent ∧ ns.Reaches parent n d := by
  constructor
  · intro hreach
    cases hreach with
    | up hc hname hparent hon => exact ⟨_, _, h.class?_eq hc hname, hparent, hon⟩
  · rintro ⟨c, parent, hc, hparent, hon⟩
    obtain ⟨hmem, hname⟩ := mem_of_class? hc
    exact .up hmem hname hparent hon

/-- What a walk meets at a place is what so many links lead to. -/
theorem Validated.getElem?_walk (h : ns.Validated) :
    (ns.walk n (ns.class? name))[i]? = some d ↔ i < n ∧ ns.Reaches name i d := by
  induction n generalizing i name with
  | zero => simp [walk]
  | succ n ih =>
    cases i with
    | zero =>
      rw [h.reaches_zero_iff]
      cases ns.class? name <;> simp [walk]
    | succ i =>
      rw [h.reaches_succ_iff, Nat.succ_lt_succ_iff]
      cases ns.class? name with
      | none => simp [walk]
      | some c =>
        rw [walk, List.getElem?_cons_succ]
        cases hparent : c.superclass with
        | none => cases n <;> simp [walk, hparent]
        | some parent => simp [ih, hparent]

/-- The chain of a name has the classes that links lead to from it, no matter how many. -/
theorem Validated.mem_superclassChain_iff_reaches (h : ns.Validated) :
    d ∈ ns.superclassChain name ↔ ∃ i, ns.Reaches name i d := by
  constructor
  · intro hd
    obtain ⟨i, hi⟩ := List.mem_iff_getElem?.1 hd
    exact ⟨i, (h.getElem?_walk.1 hi).2⟩
  · rintro ⟨i, hreach⟩
    obtain ⟨c, hc, hname⟩ := hreach.exists_start
    have hchain : ns.superclassChain name = ns.superclassChain c.name := by
      rw [superclassChain, superclassChain, class?_congr hname]
    rw [hchain, h.mem_superclassChain_iff hc]
    exact ⟨hreach.mem_classes, h.eq_or_descendsFrom hc hname hreach⟩

theorem Validated.isWithin_iff_reaches (h : ns.Validated) :
    ns.isWithin name ancestor = true ↔
      ∃ i c, ns.Reaches name i c ∧ sameName c.name ancestor = true := by
  rw [Namespace.isWithin_iff]
  simp only [h.mem_superclassChain_iff_reaches]
  exact ⟨fun ⟨c, ⟨i, hreach⟩, hname⟩ => ⟨i, c, hreach, hname⟩,
    fun ⟨i, c, hreach, hname⟩ => ⟨c, ⟨i, hreach⟩, hname⟩⟩

/-- The walk along superclasses is exact whatever cycles there are. Its loop ends from every name,
with at most one class more than there are; it meets at each place the class that so many links lead
to, and by its end every class that any number of links leads to. So a class is within another one
if links lead there, which is transitive, and an undeclared class is within none. -/
theorem superclassChain_exact (hchecked : ns.checkClasses own [] ns.classes = .ok ())
    (name : String) :
    (∀ found, ns.Walks [] (ns.class? name) found ↔ found = ns.superclassChain name) ∧
    (ns.superclassChain name).length ≤ ns.classes.length + 1 ∧
    (∀ i c, (ns.superclassChain name)[i]? = some c ↔
      i < ns.classes.length + 1 ∧ ns.Reaches name i c) ∧
    (∀ c, c ∈ ns.superclassChain name ↔ ∃ i, ns.Reaches name i c) ∧
    (∀ ancestor, ns.isWithin name ancestor = true ↔
      ∃ i c, ns.Reaches name i c ∧ sameName c.name ancestor = true) ∧
    (∀ middle top, ns.isWithin name middle = true → ns.isWithin middle top = true →
      ns.isWithin name top = true) ∧
    (ns.class? name = none → ∀ ancestor, ns.isWithin name ancestor = false) := by
  have hvalid := validated_of_checkClasses hchecked
  refine ⟨fun found => ?_, length_walk_le _ _, fun i c => hvalid.getElem?_walk,
    fun c => hvalid.mem_superclassChain_iff_reaches, fun ancestor => hvalid.isWithin_iff_reaches,
    fun middle top hmiddle htop => ?_, fun hnone ancestor => ?_⟩
  · exact walks_iff (Nat.zero_add _)
  · obtain ⟨i, c, hc, hcname⟩ := hvalid.isWithin_iff_reaches.1 hmiddle
    obtain ⟨j, d, hd, hdname⟩ := hvalid.isWithin_iff_reaches.1 htop
    exact hvalid.isWithin_iff_reaches.2 ⟨j + i, d, hc.trans hcname hd, hdname⟩
  · rw [isWithin, superclassChain, hnone, walk]
    · rfl
    · exact Nat.succ_ne_zero _

/-- Two classes below each other, one class that leads to them, and one below itself. -/
def whirl : Namespace where
  classes :=
    [{ name := "TST_Entry", superclass := some "tst_left" },
      { name := "TST_Left", superclass := some "TST_RIGHT" },
      { name := "TST_Right", superclass := some "TST_Left" },
      { name := "TST_Self", superclass := some "TST_Self" }]

/-- The chains go round: the length bound is met, and nothing that can be reached is missing. -/
theorem superclassChain_exact_of_whirl :
    whirl.checkClasses "root" [] whirl.classes = .ok () ∧
    (∀ found, whirl.Walks [] (whirl.class? "tst_entry") found →
      found.map ClassDecl.name =
        ["TST_Entry", "TST_Left", "TST_Right", "TST_Left", "TST_Right"]) ∧
    (∀ i c, whirl.Reaches "tst_entry" i c → c.name ≠ "TST_Self") ∧
    (∀ i c, whirl.Reaches "tst_self" i c → c.name = "TST_Self") ∧
    ∀ top, whirl.isWithin "tst_right" top = true → whirl.isWithin "tst_entry" top = true := by
  have hchecked : whirl.checkClasses "root" [] whirl.classes = .ok () := rfl
  have hentry : (whirl.superclassChain "tst_entry").map ClassDecl.name =
      ["TST_Entry", "TST_Left", "TST_Right", "TST_Left", "TST_Right"] := rfl
  have hself : (whirl.superclassChain "tst_self").map ClassDecl.name =
      ["TST_Self", "TST_Self", "TST_Self", "TST_Self", "TST_Self"] := rfl
  obtain ⟨hends, -, -, hmem, -, htrans, -⟩ := superclassChain_exact hchecked "tst_entry"
  obtain ⟨-, -, -, hmemSelf, -⟩ := superclassChain_exact hchecked "tst_self"
  refine ⟨hchecked, fun found hfound => ?_, fun i c hreach hname => ?_, fun i c hreach => ?_,
    fun top htop => htrans "tst_right" top (by decide +kernel) htop⟩
  · rw [(hends found).1 hfound, hentry]
  · have hnamed := List.mem_map_of_mem (f := ClassDecl.name) ((hmem c).2 ⟨i, hreach⟩)
    rw [hentry, hname] at hnamed
    revert hnamed
    decide
  · have hnamed := List.mem_map_of_mem (f := ClassDecl.name) ((hmemSelf c).2 ⟨i, hreach⟩)
    rw [hself] at hnamed
    simpa using hnamed

end Namespace

end CimConsole
