import CimConsole.Command.Class
import CimConsole.Proofs.Server.Hierarchy

/-!
Filters on classes that a server returned. A returned class has the name and the superclass of its
declaration whatever else was asked for, so a batch of returned classes has the hierarchy of the
declarations, as far as it goes. Qualifiers are what a server takes off a class last but for the
origins, so taking them off behind the filters is as good as not asking for them.
-/
namespace CimConsole

open Text

namespace ClassDecl

theorem withoutOrigins_withoutQualifiers (c : ClassDecl) :
    c.withoutQualifiers.withoutOrigins = c.withoutOrigins.withoutQualifiers := by
  simp [withoutQualifiers, withoutOrigins, Function.comp_def]

end ClassDecl

namespace Namespace

variable {ns : Namespace} {own space name root : String} {c r : ClassDecl} {detail : ClassDetail}

theorem foldl_inherit (sources : List ClassDecl) (c : ClassDecl) :
    (sources.foldl inherit c).name = c.name ∧
      (sources.foldl inherit c).superclass = c.superclass := by
  induction sources generalizing c with
  | nil => exact ⟨rfl, rfl⟩
  | cons source rest ih => exact ih (inherit c source)

theorem foldl_inherit_qualifiers (sources : List ClassDecl) (c : ClassDecl) :
    (sources.foldl inherit c).qualifiers = c.qualifiers := by
  induction sources generalizing c with
  | nil => rfl
  | cons source rest ih => exact ih (inherit c source)

/-- A class is returned under the name and with the superclass of its declaration. -/
theorem exists_resolve? (h : ns.class? name = some c) (detail : ClassDetail) :
    ∃ r, ns.resolve? detail name = some r ∧ r.name = c.name ∧ r.superclass = c.superclass := by
  rw [resolve?, superclassChain, h, walk]
  dsimp only
  obtain ⟨hname, hsuper⟩ := foldl_inherit
    (if detail.localOnly then [c]
      else (c :: ns.walk ns.classes.length (c.superclass.bind ns.class?)).reverse)
    { c with properties := [], methods := [] }
  refine ⟨_, rfl, ?_, ?_⟩
  · cases detail.qualifiers <;> cases detail.origins <;> exact hname
  · cases detail.qualifiers <;> cases detail.origins <;> exact hsuper

/-- A class that is returned without qualifiers is the one with them, and these taken off. -/
theorem resolve?_withoutQualifiers (ns : Namespace) (localOnly origins : Bool) (name : String) :
    ns.resolve? ⟨localOnly, false, origins⟩ name =
      (ns.resolve? ⟨localOnly, true, origins⟩ name).map ClassDecl.withoutQualifiers := by
  unfold resolve?
  cases ns.superclassChain name with
  | nil => rfl
  | cons cls ancestors =>
    cases origins with
    | true => rfl
    | false => exact congrArg some (ClassDecl.withoutOrigins_withoutQualifiers _)

/-- The classes as a reader gets them. -/
def retrieve (ns : Namespace) (detail : ClassDetail) (classes : List ClassDecl) : List ClassDecl :=
  classes.filterMap fun c => ns.resolve? detail c.name

theorem retrieve_keeping (ns : Namespace) (localOnly keep origins : Bool)
    (classes : List ClassDecl) :
    ns.retrieve ⟨localOnly, keep, origins⟩ classes =
      if keep then ns.retrieve ⟨localOnly, true, origins⟩ classes
      else (ns.retrieve ⟨localOnly, true, origins⟩ classes).map ClassDecl.withoutQualifiers := by
  cases keep with
  | true => rfl
  | false => simp only [retrieve, List.map_filterMap, resolve?_withoutQualifiers, Bool.false_eq_true,
      if_false]

/-- Classes are shown as they are retrieved for filters, without qualifiers that are not wanted. -/
theorem retrieve_detail (ns : Namespace) (retrieval : Retrieval) (classes : List ClassDecl) :
    ns.retrieve (retrieval.detail false) classes =
      if !retrieval.noQualifiers then ns.retrieve (retrieval.detail true) classes
      else (ns.retrieve (retrieval.detail true) classes).map ClassDecl.withoutQualifiers := by
  have hforced : retrieval.detail true = ⟨retrieval.localOnly, true, retrieval.origins⟩ := by
    simp [Retrieval.detail]
  have howned : retrieval.detail false =
      ⟨retrieval.localOnly, !retrieval.noQualifiers, retrieval.origins⟩ := by
    simp [Retrieval.detail]
  rw [hforced, howned]
  exact retrieve_keeping ..

/-- A declared class as a reader gets it. -/
def shownAs (ns : Namespace) (detail : ClassDetail) (c : ClassDecl) : ClassDecl :=
  (ns.resolve? detail c.name).getD c

theorem Validated.resolve?_eq (h : ns.Validated) (detail : ClassDetail) (hc : c ∈ ns.classes) :
    ns.resolve? detail c.name = some (ns.shownAs detail c) := by
  obtain ⟨r, hr, -⟩ := exists_resolve? (h.class?_eq hc (sameName_refl _)) detail
  rw [shownAs, hr, Option.getD_some]

theorem Validated.shownAs_eq (h : ns.Validated) (detail : ClassDetail) (hc : c ∈ ns.classes) :
    (ns.shownAs detail c).name = c.name ∧ (ns.shownAs detail c).superclass = c.superclass := by
  obtain ⟨r, hr, hsame⟩ := exists_resolve? (h.class?_eq hc (sameName_refl _)) detail
  rwa [shownAs, hr, Option.getD_some]

/-- A class is returned with its own qualifiers, and with none of its ancestors. -/
theorem Validated.qualifiers_shownAs (h : ns.Validated) (hkept : detail.qualifiers = true)
    (hc : c ∈ ns.classes) : (ns.shownAs detail c).qualifiers = c.qualifiers := by
  have hqualifiers := foldl_inherit_qualifiers
    (if detail.localOnly then [c]
      else (c :: ns.walk ns.classes.length (c.superclass.bind ns.class?)).reverse)
    { c with properties := [], methods := [] }
  rw [shownAs, resolve?, superclassChain, h.class?_eq hc (sameName_refl _), walk]
  dsimp only
  rw [hkept, Option.getD_some]
  cases detail.origins <;> exact hqualifiers

/-- What is returned for declared classes, one for each. -/
theorem Validated.retrieve_eq_map (h : ns.Validated) (detail : ClassDetail)
    {classes : List ClassDecl} (hclasses : ∀ c ∈ classes, c ∈ ns.classes) :
    ns.retrieve detail classes = classes.map (ns.shownAs detail) := by
  induction classes with
  | nil => rfl
  | cons c rest ih =>
    have hrest := ih fun d hd => hclasses d (List.mem_cons_of_mem _ hd)
    rw [retrieve] at hrest ⊢
    rw [List.filterMap_cons, h.resolve?_eq detail (hclasses c List.mem_cons_self), List.map_cons,
      hrest]

theorem Validated.map_name_retrieve (h : ns.Validated) (detail : ClassDetail)
    {classes : List ClassDecl} (hclasses : ∀ c ∈ classes, c ∈ ns.classes) :
    (ns.retrieve detail classes).map ClassDecl.name = classes.map ClassDecl.name := by
  rw [h.retrieve_eq_map detail hclasses, List.map_map]
  exact List.map_congr_left fun c hc => (h.shownAs_eq detail (hclasses c hc)).1

theorem mem_of_classesBelow {start : Option String} {deep : Bool} {found : List ClassDecl}
    (h : ns.classesBelow space start deep = .ok found) : ∀ c ∈ found, c ∈ ns.classes := by
  unfold classesBelow at h
  cases start with
  | none =>
    obtain rfl := Except.ok.inj h
    exact fun c hc => (List.mem_filter.1 hc).1
  | some parent =>
    dsimp only at h
    split at h
    · cases h
    · obtain rfl := Except.ok.inj h
      exact fun c hc => (List.mem_filter.1 hc).1

/-- The classes of a batch are told apart by their names as the declarations are. -/
theorem Validated.distinct_retrieve (h : ns.Validated) (detail : ClassDetail)
    (test : ClassDecl → Bool) : DistinctNames (ns.retrieve detail (ns.classes.filter test)) := by
  have hnames : ∀ {cs ds : List ClassDecl}, cs.map ClassDecl.name = ds.map ClassDecl.name →
      DistinctNames ds → DistinctNames cs := by
    intro cs ds hsame hds
    have hmapped : (ds.map ClassDecl.name).Pairwise fun a b => sameName a b = false :=
      List.pairwise_map.2 hds
    exact List.pairwise_map.1 (hsame ▸ hmapped)
  refine hnames (h.map_name_retrieve detail fun c hc => (List.mem_filter.1 hc).1) ?_
  exact h.distinct.sublist List.filter_sublist

/-- In a batch that has all classes below a root, the returned classes descend from the root as the
declared ones do. -/
theorem Validated.descendsFrom_shownAs_iff (h : ns.Validated) (detail : ClassDetail)
    {test : ClassDecl → Bool}
    (htest : ∀ c ∈ ns.classes, DescendsFrom ns.classes root c → test c = true)
    (hc : c ∈ ns.classes) :
    DescendsFrom (ns.retrieve detail (ns.classes.filter test)) root (ns.shownAs detail c) ↔
      DescendsFrom ns.classes root c := by
  have hbatch : ns.retrieve detail (ns.classes.filter test) =
      (ns.classes.filter test).map (ns.shownAs detail) :=
    h.retrieve_eq_map detail fun c hc => (List.mem_filter.1 hc).1
  rw [hbatch]
  constructor
  · intro hdescends
    generalize hr : ns.shownAs detail c = r at hdescends
    induction hdescends generalizing c with
    | direct hparent hroot =>
      rw [← hr, (h.shownAs_eq detail hc).2] at hparent
      exact .direct hparent hroot
    | further hparent hmem hname _ ih =>
      obtain ⟨d, hd, hd'⟩ := List.mem_map.1 hmem
      obtain ⟨hd, -⟩ := List.mem_filter.1 hd
      rw [← hr, (h.shownAs_eq detail hc).2] at hparent
      rw [← hd', (h.shownAs_eq detail hd).1] at hname
      exact .further hparent hd hname (ih hd hd')
  · intro hdescends
    induction hdescends with
    | direct hparent hroot => exact .direct ((h.shownAs_eq detail hc).2.trans hparent) hroot
    | @further c d parent hparent hd hname hway ih =>
      refine .further ((h.shownAs_eq detail hc).2.trans hparent)
        (List.mem_map_of_mem (List.mem_filter.2 ⟨hd, htest d hd hway⟩)) ?_ (ih hd)
      rwa [(h.shownAs_eq detail hd).1]

/-- What filtering by descent admits of such a batch. -/
theorem Validated.admits_shownAs_iff (h : ns.Validated) (detail : ClassDetail)
    {test : ClassDecl → Bool}
    (htest : ∀ c ∈ ns.classes, DescendsFrom ns.classes root c → test c = true)
    (hc : c ∈ ns.classes) (hkept : test c = true) :
    FilterSet.admits { subclassOf := some root } (ns.retrieve detail (ns.classes.filter test))
        (ns.shownAs detail c) = true ↔ DescendsFrom ns.classes root c := by
  have hmem : ns.shownAs detail c ∈ ns.retrieve detail (ns.classes.filter test) := by
    rw [h.retrieve_eq_map detail fun c hc => (List.mem_filter.1 hc).1]
    exact List.mem_map_of_mem (List.mem_filter.2 ⟨hc, hkept⟩)
  rw [FilterSet.admits_iff (h.distinct_retrieve detail test) hmem,
    ← h.descendsFrom_shownAs_iff detail htest hc]
  refine ⟨fun hholds => hholds.subclassOf root rfl, fun hdescends => ?_⟩
  exact
    { qualifiers := fun q hq => absurd hq List.not_mem_nil
      schema := fun schema hschema => nomatch hschema
      subclassOf := fun other hother => Option.some.inj hother ▸ hdescends
      leafClasses := fun hleaf => nomatch hleaf }

/-- From a batch that has a class and all classes below it, filtering by descent selects the
classes below it. -/
theorem Validated.select_subclassOf (h : ns.Validated) (hacyclic : Acyclic ns.classes)
    (detail : ClassDetail) {test : ClassDecl → Bool}
    (htest : ∀ c ∈ ns.classes, DescendsFrom ns.classes root c → test c = true)
    (hroot : ∃ r ∈ ns.classes, sameName r.name root = true ∧ test r = true) :
    FilterSet.select { subclassOf := some root }
        (ns.retrieve detail (ns.classes.filter test)) =
      .ok ((ns.descendants root).map (ns.shownAs detail)) := by
  have hbatch : ns.retrieve detail (ns.classes.filter test) =
      (ns.classes.filter test).map (ns.shownAs detail) :=
    h.retrieve_eq_map detail fun c hc => (List.mem_filter.1 hc).1
  refine FilterSet.select_eq_ok.2 ⟨?_, ?_⟩
  · rintro other ⟨hsome, hnone⟩
    obtain rfl := Option.some.inj hsome
    obtain ⟨r, hr, hname, hkept⟩ := hroot
    rw [hbatch] at hnone
    have hmissing := hnone _ (List.mem_map_of_mem (List.mem_filter.2 ⟨hr, hkept⟩))
    rw [(h.shownAs_eq detail hr).1, hname] at hmissing
    cases hmissing
  · have hbelow : ns.descendants root = ns.classes.filter fun c =>
        FilterSet.admits { subclassOf := some root }
          (ns.retrieve detail (ns.classes.filter test)) (ns.shownAs detail c) && test c := by
      refine List.filter_congr fun c hc => ?_
      have hmem : c ∈ ns.descendants root ↔ _ := h.mem_descendants hacyclic
      rw [descendants, List.mem_filter, and_iff_right hc, and_iff_right hc] at hmem
      rw [Bool.eq_iff_iff, hmem, Bool.and_eq_true]
      constructor
      · intro hdescends
        have hkept := htest c hc hdescends
        exact ⟨(h.admits_shownAs_iff detail htest hc hkept).2 hdescends, hkept⟩
      · rintro ⟨hadmitted, hkept⟩
        exact (h.admits_shownAs_iff detail htest hc hkept).1 hadmitted
    rw [hbelow, ← List.filter_filter, hbatch, List.filter_map]
    rfl

end Namespace

namespace Server

variable {s : Server} {space own : String} {ns : Namespace}

theorem Holds.classes_eq (h : s.Holds space own ns) (start : Option String) (deep : Bool)
    (detail : ClassDetail) : s.classes space start deep detail =
      (ns.classesBelow space start deep).map (ns.retrieve detail) := by
  rw [classes, readable_eq_ok.2 ⟨own, h⟩, ok_bind]
  cases ns.classesBelow space start deep <;> rfl

theorem Holds.classNames_eq (h : s.Holds space own ns) (start : Option String) (deep : Bool) :
    s.classNames space start deep =
      (ns.classesBelow space start deep).map (List.map ClassDecl.name) := by
  rw [classNames, readable_eq_ok.2 ⟨own, h⟩, ok_bind]
  cases ns.classesBelow space start deep <;> rfl

/-- Asking for qualifiers that filters look at shows in nothing that they select: it is part of
what is listed without filters. -/
theorem selection_sublist (h : s.Holds space own ns)
    (hchecked : ns.checkClasses own [] ns.classes = .ok ()) (start : Option String) (deep : Bool)
    (retrieval : Retrieval) (f : FilterSet) {batch : List ClassDecl}
    (hbatch : s.classes space start deep (retrieval.detail true) = .ok batch) :
    ∃ listed names, s.classes space start deep (retrieval.detail false) = .ok listed ∧
      s.classNames space start deep = .ok names ∧
      (∀ shown, f.apply batch false (!retrieval.noQualifiers) = .ok shown →
        ∃ found, shown = .classes found ∧ found.Sublist listed) ∧
      ∀ shown, f.apply batch true (!retrieval.noQualifiers) = .ok shown →
        ∃ found, shown = .names found ∧ found.Sublist names := by
  have hvalid := Namespace.validated_of_checkClasses hchecked
  rw [h.classes_eq] at hbatch
  obtain ⟨below, hbelow, rfl⟩ := map_eq_ok.1 hbatch
  have hforced : retrieval.detail true = ⟨retrieval.localOnly, true, retrieval.origins⟩ := by
    simp [Retrieval.detail]
  have howned : retrieval.detail false =
      ⟨retrieval.localOnly, !retrieval.noQualifiers, retrieval.origins⟩ := by
    simp [Retrieval.detail]
  refine ⟨_, _, by rw [h.classes_eq, hbelow]; rfl, by rw [h.classNames_eq, hbelow]; rfl, ?_, ?_⟩
  · intro shown hshown
    obtain ⟨found, hfound, rfl⟩ := map_eq_ok.1 ((f.apply_eq _ _ _).symm.trans hshown)
    have hpart : found.Sublist (ns.retrieve (retrieval.detail true) below) :=
      (FilterSet.select_eq_ok.1 hfound).2 ▸ List.filter_sublist
    refine ⟨_, rfl, ?_⟩
    rw [howned, ns.retrieve_keeping, ← hforced]
    split
    · exact hpart
    · exact hpart.map _
  · intro shown hshown
    obtain ⟨found, hfound, rfl⟩ := map_eq_ok.1 ((f.apply_eq _ _ _).symm.trans hshown)
    have hpart : found.Sublist (ns.retrieve (retrieval.detail true) below) :=
      (FilterSet.select_eq_ok.1 hfound).2 ▸ List.filter_sublist
    refine ⟨_, rfl, ?_⟩
    rw [← hvalid.map_name_retrieve (retrieval.detail true) (Namespace.mem_of_classesBelow hbelow)]
    exact hpart.map _

/-- A class with two classes below it and a third one below one of these. Superclasses and the
classes of instances are spelled in other letter case than the declarations. -/
def kin : Namespace where
  classes :=
    [{ name := "TST_Base"
       qualifiers := .ofList [("Deprecated", .boolean true)]
       properties := [{ name := "Id", qualifiers := .ofList [("Key", .boolean true)] }] },
      { name := "TST_Left", superclass := some "tst_base" },
      { name := "TST_Right", superclass := some "TST_BASE"
        qualifiers := .ofList [("Deprecated", .boolean true)] },
      { name := "TST_Leaf", superclass := some "tst_LEFT"
        qualifiers := .ofList [("Deprecated", .boolean true)] }]
  instances :=
    [{ className := "tst_leaf" }, { className := "TST_Right" }, { className := "TST_LEFT" }]

def ofKin : Server where
  url := "mock:kin"
  defaultNamespace := "root/kin"
  namespaces := [("root/kin", kin)]

/-- Deprecated classes are selected and shown without the qualifier that tells them. -/
theorem selection_sublist_of_deprecated :
    ∃ batch listed names found,
      ofKin.classes "root/kin" (some "tst_base") true
        (Retrieval.detail { noQualifiers := true } true) = .ok batch ∧
      ofKin.classes "root/kin" (some "tst_base") true
        (Retrieval.detail { noQualifiers := true } false) = .ok listed ∧
      ofKin.classNames "root/kin" (some "tst_base") true = .ok names ∧
      FilterSet.apply { qualifiers := [⟨"Deprecated", .flag true, .everywhere⟩] } batch false false =
        .ok (.classes found) ∧
      found.map ClassDecl.name = ["TST_Right", "TST_Leaf"] ∧ found.Sublist listed ∧
      ["TST_Right", "TST_Leaf"].Sublist names := by
  let deprecated : FilterSet := { qualifiers := [⟨"Deprecated", .flag true, .everywhere⟩] }
  obtain ⟨batch, hbatch, hselected⟩ : ∃ batch, ofKin.classes "root/kin" (some "tst_base") true
        (Retrieval.detail { noQualifiers := true } true) = .ok batch ∧
      (deprecated.select batch).toOption.map (List.map ClassDecl.name) =
        some ["TST_Right", "TST_Leaf"] := exists_ok_of_any (by decide +kernel)
  obtain ⟨found, hfound, hnames⟩ := Option.map_eq_some_iff.1 hselected
  rw [toOption_eq_some] at hfound
  obtain ⟨listed, names, hlisted, hall, hclasses, hnamed⟩ := selection_sublist ⟨rfl, rfl⟩ rfl
    (some "tst_base") true { noQualifiers := true } deprecated hbatch
  have happly : ∀ namesOnly, deprecated.apply batch namesOnly false =
      .ok (.ofClasses namesOnly false found) := fun namesOnly => by
    rw [FilterSet.apply_eq, hfound]
    rfl
  obtain ⟨_, hshown, hpart⟩ := hclasses _ (happly false)
  obtain ⟨_, hshown', hpart'⟩ := hnamed _ (happly true)
  obtain rfl := Selection.classes.inj hshown
  obtain rfl := Selection.names.inj hshown'
  refine ⟨batch, listed, names, _, hbatch, hlisted, hall, happly false, ?_, hpart, hnames ▸ hpart'⟩
  exact (List.map_map ..).trans hnames

end Server

end CimConsole
