import CimConsole.Proofs.Answer
import CimConsole.Proofs.Filter.Descent

/-!
What filters select from a batch of classes. Each kind of filter has a meaning of its own, said
without the code that tests for it; a set of filters selects the classes that all of them hold
for, in the order of the batch. So filters do not disturb each other: together they select what
each of them selects alone, and fewer or weaker filters never lose a class.
-/
namespace CimConsole

open Text

namespace SchemaVersion

/-- The first part that differs is less. -/
def Precedes (v w : SchemaVersion) : Prop :=
  v.major < w.major ∨ v.major = w.major ∧
    (v.minor < w.minor ∨ v.minor = w.minor ∧ v.update < w.update)

theorem atLeast_iff (v least : SchemaVersion) : v.atLeast least = true ↔ ¬ v.Precedes least := by
  have hcompare : v.compare least = .lt ↔ v.Precedes least := by
    simp only [compare, Ordering.then_eq_lt, Nat.compare_eq_lt, Nat.compare_eq_eq, Precedes]
  rw [atLeast, bne_iff_ne, ne_eq, hcompare]

theorem not_precedes_trans {u v w : SchemaVersion} (huv : ¬ u.Precedes v) (hvw : ¬ v.Precedes w) :
    ¬ u.Precedes w := by
  unfold Precedes at *
  omega

end SchemaVersion

theorem Qualifiers.present_iff (qs : Qualifiers) (name : String) :
    Qualifiers.present qs name = true ↔ ∃ v, qs.find? name = some v ∧ v ≠ .boolean false := by
  unfold Qualifiers.present
  cases qs.find? name with
  | none => simp
  | some v =>
    cases v with
    | boolean b => simp
    | integer i => simp
    | real r => simp
    | text s => simp
    | reference p => simp
    | array items => simp

namespace ClassDecl

/-- The qualifiers of an element of a class that is within a mask. -/
inductive HasElement (c : ClassDecl) (scope : ScopeMask) : Qualifiers → Prop where
  | ofClass (h : scope.onClass = true) : HasElement c scope c.qualifiers
  | ofProperty {p : PropertyDecl} (h : scope.onProperty = true) (hp : p ∈ c.properties) :
      HasElement c scope p.qualifiers
  | ofMethod {m : MethodDecl} (h : scope.onMethod = true) (hm : m ∈ c.methods) :
      HasElement c scope m.qualifiers
  | ofParameter {m : MethodDecl} {p : ParameterDecl} (h : scope.onParameter = true)
      (hm : m ∈ c.methods) (hp : p ∈ m.parameters) : HasElement c scope p.qualifiers

/-- An element of the class within the mask carries the qualifier, and not as false. -/
def Carries (c : ClassDecl) (name : String) (scope : ScopeMask) : Prop :=
  ∃ qs, c.HasElement scope qs ∧ ∃ v, qs.find? name = some v ∧ v ≠ .boolean false

theorem carries_iff (c : ClassDecl) (name : String) (scope : ScopeMask) :
    c.carries name scope = true ↔ c.Carries name scope := by
  simp only [carries, Bool.or_eq_true, Bool.and_eq_true, List.any_eq_true]
  constructor
  · rintro (((⟨h, hp⟩ | ⟨h, p, hmem, hp⟩) | ⟨h, m, hmem, hp⟩) | ⟨h, m, hm, p, hmem, hp⟩)
    · exact ⟨_, .ofClass h, (Qualifiers.present_iff _ _).1 hp⟩
    · exact ⟨_, .ofProperty h hmem, (Qualifiers.present_iff _ _).1 hp⟩
    · exact ⟨_, .ofMethod h hmem, (Qualifiers.present_iff _ _).1 hp⟩
    · exact ⟨_, .ofParameter h hm hmem, (Qualifiers.present_iff _ _).1 hp⟩
  · rintro ⟨qs, helement, hv⟩
    have hp := (Qualifiers.present_iff qs name).2 hv
    cases helement with
    | ofClass h => exact Or.inl (Or.inl (Or.inl ⟨h, hp⟩))
    | ofProperty h hmem => exact Or.inl (Or.inl (Or.inr ⟨h, _, hmem, hp⟩))
    | ofMethod h hmem => exact Or.inl (Or.inr ⟨h, _, hmem, hp⟩)
    | ofParameter h hm hmem => exact Or.inr ⟨h, _, hm, _, hmem, hp⟩

/-- The name begins with the schema and `_`, whatever the letter case. -/
def InSchema (c : ClassDecl) (schema : String) : Prop :=
  ∃ start rest, c.name = start ++ rest ∧ sameName start (schema ++ "_") = true

theorem isInSchema_iff (c : ClassDecl) (schema : String) :
    c.isInSchema schema = true ↔ c.InSchema schema := by
  rw [isInSchema, List.isPrefixOf_iff_prefix, foldCase, foldCase, String.toList_ofList,
    String.toList_ofList, List.prefix_map_iff]
  constructor
  · rintro ⟨start, ⟨rest, hname⟩, hstart⟩
    refine ⟨String.ofList start, String.ofList rest, ?_, ?_⟩
    · rw [← String.ofList_append, hname, String.ofList_toList]
    · rw [sameName_iff, foldCase, foldCase, String.toList_ofList, hstart]
  · rintro ⟨start, rest, hname, hstart⟩
    refine ⟨start.toList, ⟨rest.toList, by rw [hname, String.toList_append]⟩, ?_⟩
    rw [sameName_iff, foldCase, foldCase, String.ofList_inj] at hstart
    exact hstart.symm

/-- The version that a class says it is of. -/
def IsOfVersion (c : ClassDecl) (v : SchemaVersion) : Prop :=
  ∃ text, c.qualifiers.find? "Version" = some (.text text) ∧ SchemaVersion.ofText? text = some v

theorem version?_eq_some (c : ClassDecl) (v : SchemaVersion) :
    c.version? = some v ↔ c.IsOfVersion v := by
  simp only [version?, IsOfVersion, Option.bind_eq_some_iff]
  constructor
  · rintro ⟨text, ⟨value, hvalue, htext⟩, hv⟩
    cases value with
    | text s =>
      obtain rfl := Option.some.inj htext
      exact ⟨s, hvalue, hv⟩
    | boolean | integer | real | reference | array => cases htext
  · rintro ⟨text, hvalue, hv⟩
    exact ⟨text, ⟨.text text, hvalue, rfl⟩, hv⟩

end ClassDecl

/-- What a filter of qualifiers asks of a class. -/
def QualifierFilter.Holds (f : QualifierFilter) (c : ClassDecl) : Prop :=
  match f.wanted with
  | .flag present => present = true ↔ c.Carries f.qualifier f.scope
  | .atLeast least => ∃ v, c.IsOfVersion v ∧ ¬ v.Precedes least

theorem passesQualifier_iff (c : ClassDecl) (f : QualifierFilter) :
    c.passesQualifier f = true ↔ f.Holds c := by
  obtain ⟨qualifier, wanted, scope⟩ := f
  cases wanted with
  | flag present =>
    rw [ClassDecl.passesQualifier, QualifierFilter.Holds, beq_iff_eq, Bool.eq_iff_iff,
      ClassDecl.carries_iff]
    exact Iff.comm
  | atLeast least =>
    rw [ClassDecl.passesQualifier, QualifierFilter.Holds]
    simp only [Option.any_eq_true, SchemaVersion.atLeast_iff, ClassDecl.version?_eq_some]

/-- The second filter is the first, or asks for a version that is not above the other one. -/
def QualifierFilter.Entails (q r : QualifierFilter) : Prop :=
  r = q ∨ ∃ v w, q.wanted = .atLeast v ∧ r.wanted = .atLeast w ∧ ¬ v.Precedes w

theorem QualifierFilter.Entails.holds {q r : QualifierFilter} (h : q.Entails r) {c : ClassDecl}
    (hq : q.Holds c) : r.Holds c := by
  rcases h with rfl | ⟨v, w, hv, hw, hvw⟩
  · exact hq
  · rw [Holds, hv] at hq
    obtain ⟨u, hu, huv⟩ := hq
    rw [Holds, hw]
    exact ⟨u, hu, SchemaVersion.not_precedes_trans huv hvw⟩

/-- No class of the batch has the class as its superclass. -/
def IsLeaf (batch : List ClassDecl) (c : ClassDecl) : Prop :=
  ∀ d ∈ batch, ∀ parent, d.superclass = some parent → sameName parent c.name = false

namespace FilterSet

/-- All filters of the set hold for a class of the batch. -/
structure Holds (f : FilterSet) (batch : List ClassDecl) (c : ClassDecl) : Prop where
  qualifiers : ∀ q ∈ f.qualifiers, q.Holds c
  schema : ∀ schema, f.schema = some schema → c.InSchema schema
  subclassOf : ∀ root, f.subclassOf = some root → DescendsFrom batch root c
  leafClasses : f.leafClasses = true → IsLeaf batch c

variable {f g : FilterSet} {batch found : List ClassDecl} {c : ClassDecl}

theorem admits_iff (hdistinct : DistinctNames batch) (hc : c ∈ batch) :
    f.admits batch c = true ↔ f.Holds batch c := by
  have hleaf : (!f.leafClasses || !batch.any fun d => d.superclass.any fun s =>
      sameName s c.name) = true ↔ (f.leafClasses = true → IsLeaf batch c) := by
    simp [IsLeaf, Option.any_eq_false, Decidable.imp_iff_not_or]
  rw [admits, Bool.and_eq_true, Bool.and_eq_true, Bool.and_eq_true, List.all_eq_true,
    Option.all_eq_true, Option.all_eq_true, hleaf]
  simp only [passesQualifier_iff, ClassDecl.isInSchema_iff, descends_iff hdistinct hc]
  exact ⟨fun ⟨⟨⟨h1, h2⟩, h3⟩, h4⟩ => ⟨h1, h2, h3, h4⟩, fun h => ⟨⟨⟨h.1, h.2⟩, h.3⟩, h.4⟩⟩

/-- The root of the descent is missing in the batch. -/
def LacksRoot (f : FilterSet) (batch : List ClassDecl) (root : String) : Prop :=
  f.subclassOf = some root ∧ ∀ c ∈ batch, sameName c.name root = false

theorem select_eq_error {e : FilterError} :
    f.select batch = .error e ↔ ∃ root, e = .subclassOfNotFound root ∧ f.LacksRoot batch root := by
  unfold select
  cases hroot : f.subclassOf with
  | none => simp [LacksRoot, hroot]
  | some root =>
    dsimp only
    split
    · next hany =>
      obtain ⟨c, hc, hname⟩ := List.any_eq_true.1 hany
      refine ⟨nofun, ?_⟩
      rintro ⟨other, -, hsome, hnone⟩
      obtain rfl := Option.some.inj (hroot.symm.trans hsome)
      rw [hnone c hc] at hname
      cases hname
    · next hany =>
      have hnone : ∀ c ∈ batch, sameName c.name root = false := by simpa using hany
      constructor
      · rintro ⟨⟩
        exact ⟨root, rfl, hroot, hnone⟩
      · rintro ⟨other, rfl, hsome, -⟩
        obtain rfl := Option.some.inj (hroot.symm.trans hsome)
        rfl

theorem select_eq_ok : f.select batch = .ok found ↔
    (∀ root, ¬ f.LacksRoot batch root) ∧ found = batch.filter (f.admits batch) := by
  have hlacks : (∀ root, ¬ f.LacksRoot batch root) ↔ ∀ e, f.select batch ≠ .error e := by
    simp only [ne_eq, select_eq_error]
    exact ⟨fun h e ⟨root, _, hroot⟩ => h root hroot, fun h root hroot => h _ ⟨root, rfl, hroot⟩⟩
  rw [hlacks]
  unfold select
  cases f.subclassOf with
  | none => simp [eq_comm]
  | some root =>
    dsimp only
    split
    · simp [eq_comm]
    · simp

theorem mem_selected (h : f.select batch = .ok found) :
    c ∈ found ↔ c ∈ batch ∧ f.admits batch c = true := by
  rw [(select_eq_ok.1 h).2, List.mem_filter]

/-- The filters of a set one by one. -/
def parts (f : FilterSet) : List FilterSet :=
  f.qualifiers.map (fun q => { qualifiers := [q] }) ++
    f.schema.toList.map (fun schema => { schema := some schema }) ++
    f.subclassOf.toList.map (fun root => { subclassOf := some root }) ++
    if f.leafClasses then [{ leafClasses := true }] else []

theorem forall_mem_parts {P : FilterSet → Prop} : (∀ g ∈ f.parts, P g) ↔
    (∀ q ∈ f.qualifiers, P { qualifiers := [q] }) ∧
    (∀ schema, f.schema = some schema → P { schema := some schema }) ∧
    (∀ root, f.subclassOf = some root → P { subclassOf := some root }) ∧
    (f.leafClasses = true → P { leafClasses := true }) := by
  have hleaf : (∀ g ∈ (if f.leafClasses then [({ leafClasses := true } : FilterSet)] else []), P g) ↔
      (f.leafClasses = true → P { leafClasses := true }) := by
    cases f.leafClasses <;> simp
  simp only [parts, List.forall_mem_append, List.forall_mem_map, Option.mem_toList, hleaf, and_assoc]

/-- A set admits a class if each of its filters does. -/
theorem admits_iff_parts : f.admits batch c = true ↔ ∀ g ∈ f.parts, g.admits batch c = true := by
  rw [forall_mem_parts]
  cases hleaf : f.leafClasses <;> simp [admits, hleaf, Option.all_eq_true, and_assoc]

/-- A root that is missing is missed by the one filter of the set that asks for it. -/
theorem lacksRoot_iff_parts {root : String} :
    f.LacksRoot batch root ↔ ∃ g ∈ f.parts, g.LacksRoot batch root := by
  constructor
  · rintro ⟨hsome, hnone⟩
    exact ⟨{ subclassOf := some root }, by simp [parts, hsome], rfl, hnone⟩
  · rintro ⟨g, hg, hlacks⟩
    have hall : ∀ g ∈ f.parts, g.LacksRoot batch root → f.LacksRoot batch root := by
      rw [forall_mem_parts]
      simp +contextual [LacksRoot]
    exact hall g hg hlacks

/-- Filters lose nothing that each of them keeps alone. -/
theorem select_eq_ok_parts (h : f.select batch = .ok found) :
    (∀ g ∈ f.parts, g.select batch = .ok (batch.filter (g.admits batch))) ∧
      ∀ c, c ∈ found ↔ c ∈ batch ∧ ∀ g ∈ f.parts, c ∈ batch.filter (g.admits batch) := by
  have hroots := (select_eq_ok.1 h).1
  constructor
  · intro g hg
    exact select_eq_ok.2 ⟨fun root hlacks => hroots root (lacksRoot_iff_parts.2 ⟨g, hg, hlacks⟩), rfl⟩
  · intro c
    rw [mem_selected h, admits_iff_parts]
    refine and_congr_right fun hc => forall₂_congr fun g _ => ?_
    rw [List.mem_filter, and_iff_right hc]

/-- Each filter of the first set is entailed by one of the second. -/
structure Loosens (g f : FilterSet) : Prop where
  qualifiers : ∀ r ∈ g.qualifiers, ∃ q ∈ f.qualifiers, q.Entails r
  schema : g.schema = none ∨ g.schema = f.schema
  subclassOf : g.subclassOf = none ∨ g.subclassOf = f.subclassOf
  leafClasses : g.leafClasses = true → f.leafClasses = true

theorem Loosens.admits (h : g.Loosens f) (hf : f.admits batch c = true) :
    g.admits batch c = true := by
  simp only [FilterSet.admits, Bool.and_eq_true, List.all_eq_true] at hf ⊢
  obtain ⟨⟨⟨hqualifiers, hschema⟩, hroot⟩, hleaf⟩ := hf
  refine ⟨⟨⟨fun r hr => ?_, ?_⟩, ?_⟩, ?_⟩
  · obtain ⟨q, hq, hentails⟩ := h.qualifiers r hr
    have hholds := (passesQualifier_iff c q).1 (hqualifiers q hq)
    exact (passesQualifier_iff c r).2 (hentails.holds hholds)
  · rcases h.schema with hnone | hsame
    · rw [hnone]
      rfl
    · rwa [hsame]
  · rcases h.subclassOf with hnone | hsame
    · rw [hnone]
      rfl
    · rwa [hsame]
  · cases hg : g.leafClasses with
    | false => rfl
    | true => rwa [h.leafClasses hg] at hleaf

/-- Looser filters lose no class and fail no more often. -/
theorem Loosens.select (h : g.Loosens f) (hf : f.select batch = .ok found) :
    ∃ more, g.select batch = .ok more ∧ found.Sublist more := by
  obtain ⟨hroots, rfl⟩ := select_eq_ok.1 hf
  refine ⟨batch.filter (g.admits batch), select_eq_ok.2 ⟨fun root hlacks => ?_, rfl⟩, ?_⟩
  · rcases h.subclassOf with hnone | hsame
    · exact absurd (hnone.symm.trans hlacks.1) nofun
    · exact hroots root ⟨hsame.symm.trans hlacks.1, hlacks.2⟩
  · have hboth : batch.filter (f.admits batch) =
        (batch.filter (g.admits batch)).filter (f.admits batch) := by
      rw [List.filter_filter]
      refine List.filter_congr fun c _ => ?_
      cases hc : f.admits batch c with
      | false => rfl
      | true => simp [h.admits hc]
    rw [hboth]
    exact List.filter_sublist

/-- A class carries a qualifier or does not. -/
theorem admits_flag (name : String) (scope : ScopeMask) (batch : List ClassDecl) (c : ClassDecl) :
    FilterSet.admits { qualifiers := [⟨name, .flag false, scope⟩] } batch c =
      !FilterSet.admits { qualifiers := [⟨name, .flag true, scope⟩] } batch c := by
  simp [FilterSet.admits, ClassDecl.passesQualifier]

end FilterSet

/-- How a selection of classes is shown. -/
def Selection.ofClasses (namesOnly keepQualifiers : Bool) (found : List ClassDecl) : Selection :=
  if namesOnly then .names (found.map ClassDecl.name)
  else .classes (if keepQualifiers then found else found.map ClassDecl.withoutQualifiers)

namespace FilterSet

variable {batch : List ClassDecl}

theorem apply_eq (f : FilterSet) (batch : List ClassDecl) (namesOnly keepQualifiers : Bool) :
    f.apply batch namesOnly keepQualifiers =
      (f.select batch).map (Selection.ofClasses namesOnly keepQualifiers) := by
  unfold apply
  cases f.select batch with
  | error e => rfl
  | ok found => cases namesOnly <;> cases keepQualifiers <;> rfl

/-- What filters do in a batch of classes with different names. They fail exactly if the root of
the descent is missing. Else they select, in the order of the batch, the classes that all of them
hold for; that is what they select one by one and in common; and looser filters select no less.
A flag and its contrary share the batch between them. -/
theorem selects_in_batch (hdistinct : DistinctNames batch) (f : FilterSet) :
    (∀ namesOnly keepQualifiers e, f.apply batch namesOnly keepQualifiers = .error e ↔
      ∃ root, e = .subclassOfNotFound root ∧ f.LacksRoot batch root) ∧
    (∀ namesOnly keepQualifiers shown, f.apply batch namesOnly keepQualifiers = .ok shown ↔
      ∃ found, f.select batch = .ok found ∧ shown = .ofClasses namesOnly keepQualifiers found) ∧
    (∀ found, f.select batch = .ok found →
      found.Sublist batch ∧ (∀ c, c ∈ found ↔ c ∈ batch ∧ f.Holds batch c) ∧
      (∀ g ∈ f.parts, ∃ alone, g.select batch = .ok alone) ∧
      (∀ c, c ∈ found ↔
        c ∈ batch ∧ ∀ g ∈ f.parts, ∀ alone, g.select batch = .ok alone → c ∈ alone) ∧
      ∀ g : FilterSet, g.Loosens f → ∃ more, g.select batch = .ok more ∧ found.Sublist more) ∧
    ∀ name scope, ∃ carrying lacking,
      FilterSet.select { qualifiers := [⟨name, .flag true, scope⟩] } batch = .ok carrying ∧
      FilterSet.select { qualifiers := [⟨name, .flag false, scope⟩] } batch = .ok lacking ∧
      carrying.Sublist batch ∧ lacking.Sublist batch ∧ (carrying ++ lacking).Perm batch ∧
      ∀ c ∈ batch, c ∈ carrying ↔ c ∉ lacking := by
  refine ⟨fun namesOnly keepQualifiers e => ?fails, fun namesOnly keepQualifiers shown => ?shows,
    fun found hfound => ?selects, fun name scope => ?flags⟩
  case fails =>
    rw [apply_eq, ← select_eq_error]
    cases f.select batch <;> simp [Except.map]
  case shows =>
    rw [apply_eq]
    cases f.select batch <;> simp [Except.map, eq_comm]
  case selects =>
    obtain ⟨halone, hmem⟩ := select_eq_ok_parts hfound
    refine ⟨?_, fun c => ?_, fun g hg => ⟨_, halone g hg⟩, fun c => ?_, fun g hg => hg.select hfound⟩
    · rw [(select_eq_ok.1 hfound).2]
      exact List.filter_sublist
    · rw [mem_selected hfound]
      exact and_congr_right fun hc => admits_iff hdistinct hc
    · rw [hmem]
      refine and_congr_right fun _ => forall₂_congr fun g hg => ?_
      rw [halone g hg]
      simp
  case flags =>
    have hroots : ∀ present root,
        ¬ FilterSet.LacksRoot { qualifiers := [⟨name, .flag present, scope⟩] } batch root :=
      fun _ _ hlacks => nomatch hlacks.1
    refine ⟨_, _, select_eq_ok.2 ⟨hroots true, rfl⟩, select_eq_ok.2 ⟨hroots false, rfl⟩,
      List.filter_sublist, List.filter_sublist, ?_, fun c hc => ?_⟩
    · simp only [funext (admits_flag name scope batch)]
      exact List.filter_append_perm _ _
    · simp [List.mem_filter, hc, admits_flag]

/-- Two classes that derive from each other, a third one below them and one aside. -/
def loop : List ClassDecl :=
  [{ name := "TST_Left", superclass := some "TST_Right" },
    { name := "TST_Right", superclass := some "tst_left" },
    { name := "TST_Leaf", superclass := some "TST_LEFT"
      qualifiers := .ofList [("Experimental", .boolean true)] },
    { name := "TSTX_Other" }]

/-- On a cycle every class descends from every other one and from itself; only the third class is
a leaf below it. A root that is missing in the batch makes the filters fail. -/
theorem selects_in_loop :
    DistinctNames loop ∧
    FilterSet.apply { subclassOf := some "TST_Missing" } loop true true =
      .error (.subclassOfNotFound "TST_Missing") ∧
    (∃ found, FilterSet.select { schema := some "tst", subclassOf := some "tst_right" } loop =
        .ok found ∧ found.map ClassDecl.name = ["TST_Left", "TST_Right", "TST_Leaf"] ∧
      ∀ c ∈ found, DescendsFrom loop "tst_right" c ∧ c.InSchema "tst") ∧
    ∃ found, FilterSet.select { subclassOf := some "TST_Right", leafClasses := true } loop =
        .ok found ∧ found.map ClassDecl.name = ["TST_Leaf"] ∧ ∀ c ∈ found, IsLeaf loop c := by
  have hdistinct : DistinctNames loop := by decide +kernel
  obtain ⟨-, -, hbelow, -⟩ :=
    selects_in_batch hdistinct { schema := some "tst", subclassOf := some "tst_right" }
  obtain ⟨-, -, hleaves, -⟩ :=
    selects_in_batch hdistinct { subclassOf := some "TST_Right", leafClasses := true }
  obtain ⟨hfails, -⟩ := selects_in_batch hdistinct { subclassOf := some "TST_Missing" }
  refine ⟨hdistinct, (hfails _ _ _).2 ⟨_, rfl, rfl, by decide +kernel⟩, ?_, ?_⟩
  · obtain ⟨found, hfound, hnames⟩ : ∃ found,
        FilterSet.select { schema := some "tst", subclassOf := some "tst_right" } loop = .ok found ∧
        found.map ClassDecl.name = ["TST_Left", "TST_Right", "TST_Leaf"] :=
      exists_ok_of_any (by decide +kernel)
    refine ⟨found, hfound, hnames, fun c hc => ?_⟩
    obtain ⟨-, hholds⟩ := ((hbelow found hfound).2.1 c).1 hc
    exact ⟨hholds.subclassOf _ rfl, hholds.schema _ rfl⟩
  · obtain ⟨found, hfound, hnames⟩ : ∃ found,
        FilterSet.select { subclassOf := some "TST_Right", leafClasses := true } loop = .ok found ∧
        found.map ClassDecl.name = ["TST_Leaf"] := exists_ok_of_any (by decide +kernel)
    refine ⟨found, hfound, hnames, fun c hc => ?_⟩
    exact (((hleaves found hfound).2.1 c).1 hc).2.leafClasses rfl

end FilterSet

end CimConsole
