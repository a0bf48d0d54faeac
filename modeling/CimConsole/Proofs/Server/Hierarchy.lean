import CimConsole.Proofs.Filter.Selection
import CimConsole.Proofs.Server.Lineage

/-!
The class hierarchy of a namespace whose classes were checked when it was loaded: no two of them
have one name, and every superclass is declared. The walk along superclasses then meets exactly the
classes from which a class descends, on cycles too. Where no class descends from itself, the
classes below a class are the ones that descend from it.
-/
namespace CimConsole

open Text

/-- No class descends from itself. -/
def Acyclic (classes : List ClassDecl) : Prop :=
  ∀ c ∈ classes, ¬ DescendsFrom classes c.name c

theorem acyclic_iff {classes : List ClassDecl} (h : DistinctNames classes) : Acyclic classes ↔
    ∀ c ∈ classes, descends classes c.name (classes.length + 1) c.name = false :=
  forall₂_congr fun c hc => by rw [← descends_iff h hc, Bool.not_eq_true]

section Descent

variable {batch : List ClassDecl} {root other : String} {c r : ClassDecl}

theorem DescendsFrom.congr (h : DescendsFrom batch root c) (hname : sameName root other = true) :
    DescendsFrom batch other c := by
  induction h with
  | direct hparent hroot => exact .direct hparent (sameName_trans hroot hname)
  | further hparent hd hdname _ ih => exact .further hparent hd hdname ih

/-- What descends from a class descends from whatever that class descends from. -/
theorem DescendsFrom.trans (h : DescendsFrom batch root c) (hr : r ∈ batch)
    (hname : sameName r.name root = true) (htop : DescendsFrom batch other r) :
    DescendsFrom batch other c := by
  induction h with
  | direct hparent hroot =>
    exact .further hparent hr (sameName_trans hname (sameName_symm hroot)) htop
  | further hparent hd hdname _ ih => exact .further hparent hd hdname ih

/-- Somewhere on the way up stands a class right below the root. -/
theorem DescendsFrom.exists_child (h : DescendsFrom batch root c) (hc : c ∈ batch) :
    ∃ d ∈ batch, (∃ parent, d.superclass = some parent ∧ sameName parent root = true) ∧
      (c = d ∨ DescendsFrom batch d.name c) := by
  induction h with
  | @direct c parent hparent hroot => exact ⟨c, hc, ⟨parent, hparent, hroot⟩, Or.inl rfl⟩
  | @further c d parent hparent hd hname _ ih =>
    obtain ⟨top, htop, hbelow, hway⟩ := ih hd
    refine ⟨top, htop, hbelow, Or.inr ?_⟩
    rcases hway with rfl | hway
    · exact .direct hparent (sameName_symm hname)
    · exact .further hparent hd hname hway

end Descent

namespace Namespace

/-- What is checked of the classes of a namespace. -/
structure Validated (ns : Namespace) : Prop where
  distinct : DistinctNames ns.classes
  declared : ∀ c ∈ ns.classes, ∀ parent, c.superclass = some parent →
    (ns.class? parent).isSome = true

variable {ns : Namespace} {space name root : String} {c : ClassDecl}

theorem of_checkClasses {before cs : List ClassDecl}
    (h : ns.checkClasses space before cs = .ok ()) (hbefore : DistinctNames before) :
    DistinctNames (before ++ cs) ∧
      ∀ c ∈ cs, ∀ parent, c.superclass = some parent → (ns.class? parent).isSome = true := by
  induction cs generalizing before with
  | nil => exact ⟨by rwa [List.append_nil], fun c hc => absurd hc List.not_mem_nil⟩
  | cons c rest ih =>
    rw [checkClasses] at h
    split at h
    · cases h
    · next hnew =>
      have hdistinct : DistinctNames (before ++ [c]) := by
        refine List.pairwise_append.2 ⟨hbefore, List.pairwise_singleton _ _, fun b hb d hd => ?_⟩
        obtain rfl := List.mem_singleton.1 hd
        exact Bool.eq_false_iff.2 fun hname => hnew (List.any_eq_true.2 ⟨b, hb, hname⟩)
      have hrest : ns.checkClasses space (before ++ [c]) rest = .ok () ∧
          ∀ parent, c.superclass = some parent → (ns.class? parent).isSome = true := by
        cases hsuper : c.superclass with
        | none => exact ⟨by simpa [hsuper] using h, nofun⟩
        | some parent =>
          simp only [hsuper] at h
          split at h
          · cases h
          · next hfound =>
            refine ⟨h, fun other hother => ?_⟩
            obtain rfl := Option.some.inj hother
            simpa [Option.isSome_iff_ne_none] using hfound
      obtain ⟨hall, hdeclared⟩ := ih hrest.1 hdistinct
      refine ⟨by simpa using hall, fun d hd => ?_⟩
      rcases List.mem_cons.1 hd with rfl | hd
      · exact hrest.2
      · exact hdeclared d hd

theorem validated_of_checkClasses (h : ns.checkClasses space [] ns.classes = .ok ()) :
    ns.Validated := by
  obtain ⟨hdistinct, hdeclared⟩ := of_checkClasses h List.Pairwise.nil
  exact ⟨hdistinct, hdeclared⟩

theorem mem_of_class? (h : ns.class? name = some c) :
    c ∈ ns.classes ∧ sameName c.name name = true :=
  ⟨List.mem_of_find?_eq_some h, by simpa using List.find?_some h⟩

/-- Every class is found under every spelling of its name. -/
theorem Validated.class?_eq (h : ns.Validated) (hc : c ∈ ns.classes)
    (hname : sameName c.name name = true) : ns.class? name = some c := by
  cases hfound : ns.class? name with
  | none => exact absurd hname (List.find?_eq_none.1 hfound c hc)
  | some d =>
    obtain ⟨hd, hdname⟩ := mem_of_class? hfound
    rw [h.distinct.eq_of_sameName hd hc (sameName_trans hdname (sameName_symm hname))]

/-- The classes that the walk meets above a class are the ones that links lead to. -/
theorem Validated.exists_mem_walk_iff (h : ns.Validated) (hc : c ∈ ns.classes) (n : Nat) :
    (∃ d ∈ ns.walk n (c.superclass.bind ns.class?), sameName d.name root = true) ↔
      descends ns.classes root n c.name = true := by
  induction n generalizing c with
  | zero => simp [walk, descends]
  | succ n ih =>
    rw [descends_succ_iff, parentIn_eq h.distinct hc (sameName_refl _)]
    cases hparent : c.superclass with
    | none => simp [walk]
    | some parent =>
      obtain ⟨d, hd⟩ := Option.isSome_iff_exists.1 (h.declared c hc parent hparent)
      obtain ⟨hmem, hname⟩ := mem_of_class? hd
      have hroot : sameName d.name root = sameName parent root := by
        rw [Bool.eq_iff_iff]
        exact ⟨sameName_trans (sameName_symm hname), sameName_trans hname⟩
      simp only [Option.bind_some, hd, walk, List.mem_cons, exists_eq_or_imp, ih hmem, hroot,
        descends_congr hname, Option.some.injEq, exists_eq_left']

/-- A class is within another one if it is that class or descends from it. -/
theorem Validated.isWithin_iff (h : ns.Validated) (hc : c ∈ ns.classes) :
    ns.isWithin c.name root = true ↔
      sameName c.name root = true ∨ DescendsFrom ns.classes root c := by
  have hfuel : descends ns.classes root ns.classes.length c.name = true ↔
      DescendsFrom ns.classes root c := by
    rw [← descends_iff h.distinct hc]
    exact ⟨fun hless => descends_mono hless (Nat.le_succ _), descends_length⟩
  rw [Namespace.isWithin_iff, superclassChain, h.class?_eq hc (sameName_refl _), walk]
  simp only [List.mem_cons, exists_eq_or_imp, h.exists_mem_walk_iff hc, hfuel]

/-- The root of a descent is declared. -/
theorem Validated.class?_root (h : ns.Validated) (hc : c ∈ ns.classes)
    (hdescends : DescendsFrom ns.classes root c) : (ns.class? root).isSome = true := by
  induction hdescends with
  | direct hparent hroot =>
    rw [← class?_congr hroot]
    exact h.declared _ hc _ hparent
  | further hparent hd hname _ ih => exact ih hd

/-- The classes below a class, at any depth. -/
def descendants (ns : Namespace) (root : String) : List ClassDecl :=
  ns.classes.filter fun c => !sameName c.name root && ns.isWithin c.name root

theorem classesBelow_deep (hroot : (ns.class? root).isSome = true) :
    ns.classesBelow space (some root) true = .ok (ns.descendants root) := by
  obtain ⟨r, hr⟩ := Option.isSome_iff_exists.1 hroot
  simp [classesBelow, hr, descendants]

theorem Validated.mem_descendants (h : ns.Validated) (hacyclic : Acyclic ns.classes) :
    c ∈ ns.descendants root ↔ c ∈ ns.classes ∧ DescendsFrom ns.classes root c := by
  rw [descendants, List.mem_filter]
  refine and_congr_right fun hc => ?_
  rw [Bool.and_eq_true, h.isWithin_iff hc, Bool.not_eq_true']
  constructor
  · rintro ⟨hname, hsame | hdescends⟩
    · rw [hname] at hsame
      cases hsame
    · exact hdescends
  · intro hdescends
    refine ⟨Bool.eq_false_iff.2 fun hname => ?_, Or.inr hdescends⟩
    exact hacyclic c hc (hdescends.congr (sameName_symm hname))

end Namespace

end CimConsole
