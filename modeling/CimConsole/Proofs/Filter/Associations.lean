import CimConsole.Proofs.Filter.Retrieval
import CimConsole.Proofs.Server.Inheritance

/-!
Which classes are associations. A server asks a class and all of its ancestors. A filter asks the
class alone, as it was returned, and a class is returned without the qualifiers of its ancestors.
The two agree if and only if everything below an association says of itself that it is one.
-/
namespace CimConsole

open Text

/-- A qualifier that holds a boolean, if anything, is present where it is true. -/
theorem Qualifiers.present_eq_flagged {qs : Qualifiers} {name : String}
    (h : ∀ v, qs.find? name = some v → ∃ b, v = .boolean b) : qs.present name = qs.flagged name := by
  unfold present flagged
  cases hfound : qs.find? name with
  | none => rfl
  | some v =>
    obtain ⟨b, rfl⟩ := h v hfound
    cases b <;> rfl

/-- The qualifier may stand at classes of some kind, and at nothing else. -/
structure QualifierDecl.OnlyAtClasses (q : QualifierDecl) : Prop where
  somewhere : q.scopes ≠ []
  only : ∀ scope ∈ q.scopes, scope ∈ [Scope.classDecl, .association, .indication]

theorem QualifierDecl.OnlyAtClasses.mask_eq {q : QualifierDecl} (h : q.OnlyAtClasses) :
    ScopeMask.ofScopes q.scopes = { onClass := true } := by
  have hnone : ∀ others : List Scope,
      (∀ scope ∈ [Scope.classDecl, .association, .indication], scope ∉ others) →
      (q.scopes.any fun scope => others.contains scope) = false := by
    intro others hothers
    refine List.any_eq_false.2 fun scope hscope => ?_
    simpa using hothers scope (h.only scope hscope)
  obtain ⟨scope, hscope⟩ := List.exists_mem_of_ne_nil _ h.somewhere
  have hclass : (q.scopes.any fun scope =>
      [Scope.classDecl, .association, .indication, .any].contains scope) = true :=
    List.any_eq_true.2 ⟨scope, hscope, List.contains_iff_mem.2
      (List.mem_append_left [Scope.any] (h.only scope hscope))⟩
  rw [ScopeMask.ofScopes, hclass, hnone _ (by decide), hnone _ (by decide), hnone _ (by decide)]

namespace Namespace

variable {ns : Namespace} {c : ClassDecl} {detail : ClassDetail}

/-- For the server the associations are the classes that say so and all that is below them. -/
theorem Validated.isAssociation_iff (h : ns.Validated) (hc : c ∈ ns.classes) :
    ns.isAssociation c.name = true ↔ c.isAssociation = true ∨
      ∃ top ∈ ns.classes, top.isAssociation = true ∧ DescendsFrom ns.classes top.name c := by
  simp only [isAssociation, List.any_eq_true, h.mem_superclassChain_iff hc]
  constructor
  · rintro ⟨top, ⟨htop, rfl | hbelow⟩, hflag⟩
    · exact .inl hflag
    · exact .inr ⟨top, htop, hflag, hbelow⟩
  · rintro (hflag | ⟨top, htop, hflag, hbelow⟩)
    · exact ⟨c, ⟨hc, .inl rfl⟩, hflag⟩
    · exact ⟨top, ⟨htop, .inr hbelow⟩, hflag⟩

/-- What is below an association says of itself that it is one. -/
def AssociationsSaySo (ns : Namespace) : Prop :=
  ∀ c ∈ ns.classes, ∀ top ∈ ns.classes, top.isAssociation = true →
    DescendsFrom ns.classes top.name c → c.isAssociation = true

theorem Validated.associationsSaySo_iff (h : ns.Validated) : ns.AssociationsSaySo ↔
    ∀ c ∈ ns.classes, ns.isAssociation c.name = c.isAssociation := by
  constructor
  · intro hall c hc
    rw [Bool.eq_iff_iff, h.isAssociation_iff hc, or_iff_left_iff_imp]
    rintro ⟨top, htop, hflag, hbelow⟩
    exact hall c hc top htop hflag hbelow
  · intro heq c hc top htop hflag hbelow
    rw [← heq c hc]
    exact (h.isAssociation_iff hc).2 (.inr ⟨top, htop, hflag, hbelow⟩)

/-- Classes with different names are selected alike if the names that are selected are the same. -/
theorem Validated.eq_of_map_filter (h : ns.Validated) {p q : ClassDecl → Bool}
    (heq : (ns.classes.filter p).map ClassDecl.name = (ns.classes.filter q).map ClassDecl.name) :
    ∀ c ∈ ns.classes, p c = q c := by
  have himp : ∀ {p q : ClassDecl → Bool},
      (ns.classes.filter p).map ClassDecl.name = (ns.classes.filter q).map ClassDecl.name →
      ∀ c ∈ ns.classes, p c = true → q c = true := by
    intro p q heq c hc hp
    have hmem : c.name ∈ (ns.classes.filter q).map ClassDecl.name :=
      heq ▸ List.mem_map_of_mem (List.mem_filter.2 ⟨hc, hp⟩)
    obtain ⟨d, hd, hname⟩ := List.mem_map.1 hmem
    obtain ⟨hd, hq⟩ := List.mem_filter.1 hd
    exact h.distinct.eq_of_sameName hd hc (hname ▸ sameName_refl _) ▸ hq
  exact fun c hc => Bool.eq_iff_iff.2 ⟨himp heq c hc, himp heq.symm c hc⟩

/-- Qualifiers that tell associations hold booleans. -/
def AssociationsBoolean (ns : Namespace) : Prop :=
  ∀ c ∈ ns.classes, ∀ v, c.qualifiers.find? "Association" = some v → ∃ b, v = .boolean b

/-- The filter selects what says of itself that it is an association, or what does not. -/
theorem Validated.select_association (h : ns.Validated) (hboolean : ns.AssociationsBoolean)
    (hkept : detail.qualifiers = true) {classes : List ClassDecl}
    (hclasses : ∀ c ∈ classes, c ∈ ns.classes) (wanted : Bool) :
    FilterSet.select { qualifiers := [⟨"Association", .flag wanted, { onClass := true }⟩] }
        (ns.retrieve detail classes) =
      .ok (ns.retrieve detail (classes.filter fun c => c.isAssociation == wanted)) := by
  have hsome : ∀ c ∈ classes.filter fun c => c.isAssociation == wanted, c ∈ ns.classes :=
    fun c hc => hclasses c (List.mem_filter.1 hc).1
  rw [h.retrieve_eq_map detail hclasses, h.retrieve_eq_map detail hsome]
  have hroots : ∀ root, ¬ FilterSet.LacksRoot
      { qualifiers := [⟨"Association", .flag wanted, { onClass := true }⟩] }
      (classes.map (ns.shownAs detail)) root := fun _ hlacks => nomatch hlacks.1
  refine FilterSet.select_eq_ok.2 ⟨hroots, ?_⟩
  rw [List.filter_map]
  refine congrArg (List.map (ns.shownAs detail)) (List.filter_congr fun c hc => ?_)
  have hpresent : (ns.shownAs detail c).qualifiers.present "Association" = c.isAssociation := by
    rw [h.qualifiers_shownAs hkept (hclasses c hc),
      Qualifiers.present_eq_flagged (hboolean c (hclasses c hc)), ClassDecl.isAssociation]
  simp [FilterSet.admits, ClassDecl.passesQualifier, ClassDecl.carries, hpresent]

end Namespace

namespace ClassCommand

variable {s : Server} {space own : String} {ns : Namespace} {decl : QualifierDecl}

theorem map_name_of_listed_eq {namesOnly : Bool} {found others : List ClassDecl}
    (h : listed namesOnly found = listed namesOnly others) :
    found.map ClassDecl.name = others.map ClassDecl.name := by
  cases namesOnly with
  | true => exact Objects.names.inj h
  | false => exact congrArg _ (Objects.classes.inj h)

theorem build_association (hdeclared : s.qualifier space "Association" = .ok decl)
    (honly : decl.OnlyAtClasses) (wanted : Bool) :
    FilterSet.build s space { association := some wanted } =
      .ok { qualifiers := [⟨"Association", .flag wanted, { onClass := true }⟩] } := by
  have hscope : s.qualifierScope space "Association" = .ok { onClass := true } := by
    rw [Server.qualifierScope, hdeclared, ← honly.mask_eq]
  have hflags : FilterSet.flagFilters s space
      (FilterOptions.flags { association := some wanted }) =
        .ok [⟨"Association", .flag wanted, { onClass := true }⟩] := by
    rw [FilterOptions.flags, FilterSet.flagFilters, hscope]
    rfl
  rw [FilterSet.build, hflags]
  rfl

/-- A listing with filters shows what they select of the classes with their qualifiers, with or
without these. -/
theorem enumerateIn_filtered {start : Option String} {deep namesOnly : Bool}
    {retrieval : Retrieval} {filters : FilterOptions} {set : FilterSet} {batch found : List ClassDecl}
    (hactive : filters.isActive = true) (hset : FilterSet.build s space filters = .ok set)
    (hbatch : s.classes space start (deep || filters.subclassOf.isSome) (retrieval.detail true) =
      .ok batch) (hfound : set.select batch = .ok found) :
    enumerateIn s start deep retrieval namesOnly filters space = .ok (listed namesOnly
      (if !retrieval.noQualifiers then found else found.map ClassDecl.withoutQualifiers)) := by
  have hnames : (found.map ClassDecl.withoutQualifiers).map ClassDecl.name =
      found.map ClassDecl.name := by
    rw [List.map_map]
    rfl
  rw [enumerateIn, hactive, if_pos rfl, hset, ok_bind, hbatch]
  simp only [Except.mapError, ok_bind, FilterSet.apply_eq, hfound, Except.map]
  cases namesOnly with
  | true =>
    cases retrieval.noQualifiers with
    | true => exact congrArg (Except.ok ∘ Objects.names) hnames.symm
    | false => rfl
  | false => cases retrieval.noQualifiers <;> rfl

/-- What is listed with the filter: of the classes that are listed without it those that say of
themselves that they are associations, or those that do not. -/
theorem enumerateIn_association (h : s.Holds space own ns) (hvalid : ns.Validated)
    (hdeclared : s.qualifier space "Association" = .ok decl) (honly : decl.OnlyAtClasses)
    (hboolean : ns.AssociationsBoolean) {start : Option String} {deep : Bool}
    {below : List ClassDecl} (hbelow : ns.classesBelow space start deep = .ok below)
    (retrieval : Retrieval) (namesOnly wanted : Bool) :
    enumerateIn s start deep retrieval namesOnly { association := some wanted } space =
      .ok (listed namesOnly (ns.retrieve (retrieval.detail false)
        (below.filter fun c => c.isAssociation == wanted))) := by
  have hbatch : s.classes space start (deep || false) (retrieval.detail true) =
      .ok (ns.retrieve (retrieval.detail true) below) := by
    rw [h.classes_eq, Bool.or_false, hbelow]
    rfl
  have hqualifiers : (retrieval.detail true).qualifiers = true := by simp [Retrieval.detail]
  have hselect := hvalid.select_association hboolean hqualifiers
    (Namespace.mem_of_classesBelow hbelow) wanted
  rw [enumerateIn_filtered rfl (build_association hdeclared honly wanted) hbatch hselect]
  rw [ns.retrieve_detail]

/-- The deep listing with the filter has the classes that say of themselves that they are
associations, or those that do not. The server takes as associations these classes and all that is
below them. So the two agree exactly if everything below an association says so itself. -/
theorem associations_listed (h : s.Holds space own ns)
    (hchecked : ns.checkClasses own [] ns.classes = .ok ())
    (hdeclared : s.qualifier space "Association" = .ok decl) (honly : decl.OnlyAtClasses)
    (hboolean : ns.AssociationsBoolean) (retrieval : Retrieval) (namesOnly : Bool) :
    (∀ wanted, enumerateIn s none true retrieval namesOnly { association := some wanted } space =
      .ok (listed namesOnly (ns.retrieve (retrieval.detail false)
        (ns.classes.filter fun c => c.isAssociation == wanted)))) ∧
    (∀ c ∈ ns.classes, ns.isAssociation c.name = true ↔ c.isAssociation = true ∨
      ∃ top ∈ ns.classes, top.isAssociation = true ∧ DescendsFrom ns.classes top.name c) ∧
    ((∀ wanted, enumerateIn s none true retrieval namesOnly { association := some wanted } space =
      .ok (listed namesOnly (ns.retrieve (retrieval.detail false)
        (ns.classes.filter fun c => ns.isAssociation c.name == wanted)))) ↔
      ns.AssociationsSaySo) := by
  have hvalid := Namespace.validated_of_checkClasses hchecked
  have hall : ns.classesBelow space none true = .ok ns.classes := by
    simp [Namespace.classesBelow]
  have hlisted := enumerateIn_association h hvalid hdeclared honly hboolean hall retrieval namesOnly
  refine ⟨hlisted, fun c hc => hvalid.isAssociation_iff hc, ?_⟩
  simp only [hlisted, hvalid.associationsSaySo_iff]
  constructor
  · intro hagree
    have hnames := map_name_of_listed_eq (Except.ok.inj (hagree true))
    have hsome : ∀ {p : ClassDecl → Bool}, ∀ c ∈ ns.classes.filter p, c ∈ ns.classes :=
      fun c hc => (List.mem_filter.1 hc).1
    rw [hvalid.map_name_retrieve _ hsome, hvalid.map_name_retrieve _ hsome] at hnames
    intro c hc
    simpa using (hvalid.eq_of_map_filter hnames c hc).symm
  · intro heq wanted
    have hsame : (ns.classes.filter fun c => c.isAssociation == wanted) =
        ns.classes.filter fun c => ns.isAssociation c.name == wanted :=
      List.filter_congr fun c hc => by rw [heq c hc]
    rw [hsame]

def link : ClassDecl where
  name := "TST_Link"
  qualifiers := .ofList [("Association", .boolean true)]
  properties := [{ name := "Of", type := "reference", referenceClass := some "TST_Person"
                   qualifiers := .ofList [("Key", .boolean true)] }]

def subLink : ClassDecl where
  name := "TST_SubLink"
  superclass := some "tst_link"

def noLink : ClassDecl where
  name := "TST_NoLink"
  superclass := some "TST_SubLink"
  qualifiers := .ofList [("Association", .boolean false)]

/-- An association with one class below it that says nothing and one that says it is none. -/
def links : Namespace where
  qualifierDecls := [{ name := "Association", type := "boolean", scopes := [.association] }]
  classes :=
    [{ name := "TST_Person"
       properties := [{ name := "Name", qualifiers := .ofList [("Key", .boolean true)] }] },
      link, subLink, noLink]

def ofLinks : Server where
  url := "mock:links"
  defaultNamespace := "root/cimv2"
  namespaces := [("root/cimv2", links)]

theorem ofLinks_holds : ofLinks.Holds "root/cimv2" "root/cimv2" links := ⟨rfl, rfl⟩

theorem links_checked : links.checkClasses "root/cimv2" [] links.classes = .ok () := rfl

theorem links_boolean : links.AssociationsBoolean := by
  have hvalues : ∀ c ∈ links.classes, (c.qualifiers.find? "Association").all fun v =>
      v.boolean?.isSome := by decide +kernel
  intro c hc v hv
  have hboolean := hvalues c hc
  rw [hv, Option.all_some] at hboolean
  cases v with
  | boolean b => exact ⟨b, rfl⟩
  | integer | real | text | reference | array => cases hboolean

theorem links_declared : ∃ decl, ofLinks.qualifier "root/cimv2" "Association" = .ok decl ∧
    decl.OnlyAtClasses := by
  obtain ⟨decl, hdeclared, hscopes⟩ : ∃ decl,
      ofLinks.qualifier "root/cimv2" "Association" = .ok decl ∧ decl.scopes = [.association] :=
    exists_ok_of_any (by decide +kernel)
  exact ⟨decl, hdeclared, by rw [hscopes]; decide, by rw [hscopes]; decide⟩

/-- Both classes below the association are listed among the others, though the server takes them
as associations. -/
theorem associations_listed_of_links :
    enumerateIn ofLinks none true {} true { association := some true } "root/cimv2" =
      .ok (.names ["TST_Link"]) ∧
    enumerateIn ofLinks none true {} true { association := some false } "root/cimv2" =
      .ok (.names ["TST_Person", "TST_SubLink", "TST_NoLink"]) ∧
    links.isAssociation "TST_SubLink" = true ∧ links.isAssociation "TST_NoLink" = true := by
  obtain ⟨decl, hdeclared, honly⟩ := links_declared
  obtain ⟨hlisted, hserver, -⟩ :=
    associations_listed ofLinks_holds links_checked hdeclared honly links_boolean {} true
  have hlink : link ∈ links.classes ∧ link.isAssociation = true :=
    ⟨by simp [links], by decide +kernel⟩
  have hsub : DescendsFrom links.classes "TST_Link" subLink := .direct rfl (by decide +kernel)
  have hno : DescendsFrom links.classes "TST_Link" noLink :=
    .further rfl (by simp [links]) (by decide +kernel) hsub
  refine ⟨?_, ?_, (hserver subLink (by simp [links])).2 (.inr ⟨link, hlink.1, hlink.2, hsub⟩),
    (hserver noLink (by simp [links])).2 (.inr ⟨link, hlink.1, hlink.2, hno⟩)⟩
  · rw [hlisted, listed, if_pos rfl]
    exact congrArg (Except.ok ∘ Objects.names) (by decide +kernel)
  · rw [hlisted, listed, if_pos rfl]
    exact congrArg (Except.ok ∘ Objects.names) (by decide +kernel)

/-- The filter and the server differ on a class that inherits being an association: it is not
listed, but found among the associations that refer to a class. -/
theorem inherited_association_not_listed :
    ofLinks.Holds "root/cimv2" "root/cimv2" links ∧
    links.checkClasses "root/cimv2" [] links.classes = .ok () ∧ Acyclic links.classes ∧
    (∃ decl, ofLinks.qualifier "root/cimv2" "Association" = .ok decl ∧ decl.OnlyAtClasses) ∧
    links.AssociationsBoolean ∧
    enumerateIn ofLinks none true {} true { association := some true } "root/cimv2" =
      .ok (.names ["TST_Link"]) ∧
    ∃ found, ofLinks.classReferences "root/cimv2" "TST_Person" {} = .ok found ∧
      found.map ClassDecl.name = ["TST_Link", "TST_SubLink", "TST_NoLink"] := by
  have hacyclic : Acyclic links.classes := (acyclic_iff (by decide +kernel)).2 (by decide +kernel)
  have hbelow : links.classesBelow "root/cimv2" none true = .ok links.classes := rfl
  obtain ⟨decl, hdeclared, honly⟩ := links_declared
  refine ⟨ofLinks_holds, links_checked, hacyclic, ⟨decl, hdeclared, honly⟩, links_boolean, ?_,
    exists_ok_of_any (by decide +kernel)⟩
  have hvalid := Namespace.validated_of_checkClasses links_checked
  rw [enumerateIn_association ofLinks_holds hvalid hdeclared honly links_boolean hbelow, listed,
    if_pos rfl]
  exact congrArg (Except.ok ∘ Objects.names) (by decide +kernel)

end ClassCommand

end CimConsole
