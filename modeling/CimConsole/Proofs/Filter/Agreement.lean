import CimConsole.Proofs.Filter.Retrieval

/-!
The class hierarchy of a namespace, however it is asked for: by walking up from every class, by
filtering classes that were returned, level by level, or through the instances of a class. All of
these see descent along superclasses, and all of them without regard to letter case.
-/
namespace CimConsole

open Text

namespace Namespace

variable {ns : Namespace} {space root name : String} {c : ClassDecl}

/-- The classes right below a class. -/
def children (ns : Namespace) (root : String) : List ClassDecl :=
  ns.classes.filter fun c => c.superclass.any fun s => sameName s root

theorem classesBelow_shallow (hroot : (ns.class? root).isSome = true) :
    ns.classesBelow space (some root) false = .ok (ns.children root) := by
  obtain ⟨r, hr⟩ := Option.isSome_iff_exists.1 hroot
  simp [classesBelow, hr, children]

theorem mem_children : c ∈ ns.children root ↔
    c ∈ ns.classes ∧ ∃ parent, c.superclass = some parent ∧ sameName parent root = true := by
  simp [children, Option.any_eq_true]

/-- What descends from a class is right below it, or descends from something right below it. -/
theorem Validated.mem_descendants_iff (h : ns.Validated) (hacyclic : Acyclic ns.classes)
    (hroot : (ns.class? root).isSome = true) :
    c ∈ ns.descendants root ↔ ∃ d ∈ ns.children root, c = d ∨ c ∈ ns.descendants d.name := by
  obtain ⟨r, hr⟩ := Option.isSome_iff_exists.1 hroot
  obtain ⟨hr, hrname⟩ := mem_of_class? hr
  simp only [h.mem_descendants hacyclic, mem_children]
  constructor
  · rintro ⟨hc, hdescends⟩
    obtain ⟨d, hd, hbelow, hway⟩ := hdescends.exists_child hc
    exact ⟨d, ⟨hd, hbelow⟩, hway.imp_right fun hway => ⟨hc, hway⟩⟩
  · rintro ⟨d, ⟨hd, parent, hparent, hroot⟩, hway⟩
    have htop : DescendsFrom ns.classes root d := .direct hparent hroot
    rcases hway with rfl | ⟨hc, hdescends⟩
    · exact ⟨hd, htop⟩
    · exact ⟨hc, hdescends.trans hd (sameName_refl _) htop⟩

/-- A deep listing from a start above a class has the class and all that descends from it. -/
theorem Validated.exists_test (h : ns.Validated) (hacyclic : Acyclic ns.classes)
    (hroot : ns.class? root = some c) (start : Option String)
    (hstart : ∀ top, start = some top → DescendsFrom ns.classes top c) :
    ∃ test, ns.classesBelow space start true = .ok (ns.classes.filter test) ∧
      (∀ d ∈ ns.classes, DescendsFrom ns.classes root d → test d = true) ∧
      ∃ r ∈ ns.classes, sameName r.name root = true ∧ test r = true := by
  obtain ⟨hc, hname⟩ := mem_of_class? hroot
  cases start with
  | none => exact ⟨_, rfl, fun _ _ _ => by simp, c, hc, hname, by simp⟩
  | some top =>
    have habove := hstart top rfl
    have hkept : ∀ d ∈ ns.classes, DescendsFrom ns.classes top d →
        (!sameName d.name top && ns.isWithin d.name top) = true := by
      intro d hd hdescends
      exact (List.mem_filter.1 ((h.mem_descendants hacyclic).2 ⟨hd, hdescends⟩)).2
    refine ⟨_, classesBelow_deep (h.class?_root hc habove), fun d hd hdescends => ?_, c, hc, hname,
      hkept c hc habove⟩
    exact hkept d hd (hdescends.trans hc hname habove)

/-- A name is within a class if it names that class or one that descends from it. -/
theorem Validated.isWithin_iff_descendants (h : ns.Validated) (hacyclic : Acyclic ns.classes)
    (hroot : ns.class? root = some c) : ns.isWithin name root = true ↔
      sameName name root = true ∨ ∃ d ∈ ns.descendants root, sameName name d.name = true := by
  constructor
  · intro hwithin
    cases hfound : ns.class? name with
    | none => simp [isWithin, superclassChain, hfound, walk] at hwithin
    | some d =>
      obtain ⟨hd, hname⟩ := mem_of_class? hfound
      rw [← isWithin_congr hname, h.isWithin_iff hd] at hwithin
      rcases hwithin with hsame | hdescends
      · exact Or.inl (sameName_trans (sameName_symm hname) hsame)
      · exact Or.inr ⟨d, (h.mem_descendants hacyclic).2 ⟨hd, hdescends⟩, sameName_symm hname⟩
  · rintro (hsame | ⟨d, hd, hsame⟩)
    · obtain ⟨hc, hname⟩ := mem_of_class? hroot
      rw [isWithin_congr (sameName_trans hsame (sameName_symm hname)), h.isWithin_iff hc]
      exact Or.inl hname
    · obtain ⟨hd, hdescends⟩ := (h.mem_descendants hacyclic).1 hd
      rw [isWithin_congr hsame, h.isWithin_iff hd]
      exact Or.inr hdescends

end Namespace

namespace Server

variable {s : Server} {space own root : String} {ns : Namespace} {c : ClassDecl}

/-- A deep listing below a class has the names that filtering any deep listing with the class in it
by descent selects. It has what is right below the class and what is below that, and the instances
of the class are the ones of the class itself and of the classes listed. -/
theorem hierarchy_agrees (h : s.Holds space own ns)
    (hchecked : ns.checkClasses own [] ns.classes = .ok ()) (hacyclic : Acyclic ns.classes)
    (hroot : ns.class? root = some c) (start : Option String)
    (hstart : ∀ top, start = some top → DescendsFrom ns.classes top c) (detail : ClassDetail)
    (properties : Option (List String)) :
    ∃ below children batch, s.classNames space (some root) true = .ok below ∧
      s.classNames space (some root) false = .ok children ∧
      s.classes space start true detail = .ok batch ∧
      below.Sublist (ns.classes.map ClassDecl.name) ∧
      (∀ keep, FilterSet.apply { subclassOf := some root } batch true keep = .ok (.names below)) ∧
      (∀ child ∈ children, ∃ deeper, s.classNames space (some child) true = .ok deeper) ∧
      (∀ name, name ∈ below ↔ ∃ child ∈ children, name = child ∨
        ∃ deeper, s.classNames space (some child) true = .ok deeper ∧ name ∈ deeper) ∧
      s.instances space root properties = .ok ((ns.instances.filter fun x =>
        sameName x.className root || below.any (sameName x.className)).map (shown properties)) := by
  have hvalid := Namespace.validated_of_checkClasses hchecked
  have hisSome : (ns.class? root).isSome = true := Option.isSome_iff_exists.2 ⟨c, hroot⟩
  have hdeeper : ∀ d ∈ ns.children root, s.classNames space (some d.name) true =
      .ok ((ns.descendants d.name).map ClassDecl.name) := by
    intro d hd
    have hfound := hvalid.class?_eq (Namespace.mem_children.1 hd).1 (sameName_refl _)
    rw [h.classNames_eq, Namespace.classesBelow_deep (Option.isSome_iff_exists.2 ⟨d, hfound⟩)]
    rfl
  obtain ⟨test, hbatch, htest, hkept⟩ := hvalid.exists_test hacyclic hroot start hstart
  refine ⟨(ns.descendants root).map ClassDecl.name, (ns.children root).map ClassDecl.name,
    ns.retrieve detail (ns.classes.filter test), ?listed, ?shallow, ?retrieved,
    List.filter_sublist.map _, ?selected, ?further, ?union, ?shown⟩
  case listed => rw [h.classNames_eq, Namespace.classesBelow_deep hisSome]; rfl
  case shallow => rw [h.classNames_eq, Namespace.classesBelow_shallow hisSome]; rfl
  case retrieved => rw [h.classes_eq, hbatch]; rfl
  case selected =>
    intro keep
    rw [FilterSet.apply_eq, hvalid.select_subclassOf hacyclic detail htest hkept]
    have hnames : ((ns.descendants root).map (ns.shownAs detail)).map ClassDecl.name =
        (ns.descendants root).map ClassDecl.name := by
      rw [List.map_map]
      exact List.map_congr_left fun d hd =>
        (hvalid.shownAs_eq detail (List.mem_filter.1 hd).1).1
    exact congrArg (fun names => Except.ok (Selection.names names)) hnames
  case further =>
    intro child hchild
    obtain ⟨d, hd, rfl⟩ := List.mem_map.1 hchild
    exact ⟨_, hdeeper d hd⟩
  case union =>
    intro name
    simp only [List.mem_map, hvalid.mem_descendants_iff hacyclic hisSome]
    constructor
    · rintro ⟨_, ⟨d, hd, rfl | hbelow⟩, rfl⟩
      · exact ⟨_, ⟨_, hd, rfl⟩, Or.inl rfl⟩
      · exact ⟨_, ⟨d, hd, rfl⟩, Or.inr ⟨_, hdeeper d hd, List.mem_map_of_mem hbelow⟩⟩
    · rintro ⟨_, ⟨d, hd, rfl⟩, rfl | ⟨deeper, hlisted, hname⟩⟩
      · exact ⟨d, ⟨d, hd, Or.inl rfl⟩, rfl⟩
      · obtain rfl := Except.ok.inj ((hdeeper d hd).symm.trans hlisted)
        obtain ⟨e, he, rfl⟩ := List.mem_map.1 hname
        exact ⟨e, ⟨d, hd, Or.inr he⟩, rfl⟩
  case shown =>
    have hpred : (fun x : Instance => ns.isWithin x.className root) = fun x =>
        sameName x.className root ||
          ((ns.descendants root).map ClassDecl.name).any (sameName x.className) := by
      funext x
      rw [Bool.eq_iff_iff, hvalid.isWithin_iff_descendants hacyclic hroot]
      simp
    rw [instances, readable_eq_ok.2 ⟨own, h⟩, ok_bind, hroot, hpred]
    rfl

/-- Below a class that is spelled in another letter case, as seen from its superclass. -/
theorem hierarchy_agrees_below_left :
    ∃ batch found, ofKin.classNames "root/kin" (some "TST_LEFT") true = .ok ["TST_Leaf"] ∧
      ofKin.classes "root/kin" (some "tst_BASE") true {} = .ok batch ∧
      FilterSet.apply { subclassOf := some "TST_LEFT" } batch true true =
        .ok (.names ["TST_Leaf"]) ∧
      ofKin.instances "root/kin" "TST_LEFT" none = .ok found ∧
      found.map Instance.className = ["tst_leaf", "TST_LEFT"] := by
  have hleft : kin.class? "TST_LEFT" = some { name := "TST_Left", superclass := some "tst_base" } :=
    rfl
  have hacyclic : Acyclic kin.classes := (acyclic_iff (by decide +kernel)).2 (by decide +kernel)
  have hlisted : ofKin.classNames "root/kin" (some "TST_LEFT") true = .ok ["TST_Leaf"] := rfl
  have hholds : ofKin.Holds "root/kin" "root/kin" kin := ⟨rfl, rfl⟩
  have hchecked : kin.checkClasses "root/kin" [] kin.classes = .ok () := rfl
  have hstart : ∀ top, some "tst_BASE" = some top →
      DescendsFrom kin.classes top { name := "TST_Left", superclass := some "tst_base" } := by
    rintro top ⟨⟩
    exact .direct rfl (by decide +kernel)
  obtain ⟨below, children, batch, hbelow, -, hbatch, -, hfiltered, -, -, hinstances⟩ :=
    hierarchy_agrees hholds hchecked hacyclic hleft (some "tst_BASE") hstart {} none
  obtain rfl := Except.ok.inj (hbelow.symm.trans hlisted)
  exact ⟨batch, _, hbelow, hbatch, hfiltered true, hinstances, by decide +kernel⟩

end Server

end CimConsole
