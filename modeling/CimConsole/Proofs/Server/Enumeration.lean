import CimConsole.Proofs.Filter.Retrieval
import CimConsole.Proofs.Server.Spelling

/-!
What is listed, read one by one. A listing goes through all that is stored and a reading takes the
first match, so the two agree where nothing that comes earlier matches. Loading sees to that for
classes, by their names, and for instances, by their paths. It does not compare declarations of
qualifiers, so of two with one name the first one is read for both.
-/
namespace CimConsole

open Text

/-- The classes of every namespace of a loaded server were checked. -/
theorem Server.validated_of_repository {r : Repository} {default : Option String} {url : String}
    {s : Server} (h : r.server default url = .ok s) {own : String} {ns : Namespace}
    (hns : (own, ns) ∈ s.namespaces) : ns.Validated := by
  obtain ⟨given, hload⟩ := Repository.of_server h hns
  obtain ⟨⟨⟩, hchecked, hload⟩ := bind_eq_ok.1 hload
  obtain ⟨placed, -, hload⟩ := bind_eq_ok.1 hload
  obtain rfl := Except.ok.inj hload
  have hvalid := Namespace.validated_of_checkClasses hchecked
  exact ⟨hvalid.distinct, hvalid.declared⟩

namespace Namespace

variable {ns : Namespace} {name : String} {c : ClassDecl} {detail : ClassDetail}

/-- A class that was returned is returned again under its own name. -/
theorem resolve?_self (h : ns.resolve? detail name = some c) :
    ns.resolve? detail c.name = some c := by
  cases hfound : ns.class? name with
  | none => simp [resolve?, superclassChain, hfound, walk] at h
  | some d =>
    obtain ⟨r, hr, hname, -⟩ := exists_resolve? hfound detail
    obtain rfl := Option.some.inj (hr.symm.trans h)
    rw [← h, hname]
    exact resolve?_congr (mem_of_class? hfound).2 detail

end Namespace

namespace Server

variable {s : Server} {space own className : String} {ns : Namespace}

theorem Holds.instances_eq_ok (h : s.Holds space own ns) {properties : Option (List String)}
    {xs : List Instance} : s.instances space className properties = .ok xs ↔
      (ns.class? className).isSome = true ∧
        xs = (ns.instances.filter fun x => ns.isWithin x.className className).map
          (shown properties) := by
  rw [instances, readable_eq_ok.2 ⟨own, h⟩, ok_bind]
  cases ns.class? className with
  | none => simp
  | some c =>
    constructor
    · exact fun hxs => ⟨rfl, (Except.ok.inj hxs).symm⟩
    · rintro ⟨-, rfl⟩
      rfl

/-- A stored instance at a path that equals itself is read under this path. -/
theorem Holds.get_stored (h : s.Holds space own ns) (hkeyed : ns.Keyed own) {x : Instance}
    {p : ObjectPath} (hx : x ∈ ns.instances) (hp : x.path = some p) (hself : p.same p = true)
    (properties : Option (List String)) : s.get space p properties = .ok (shown properties x) := by
  obtain ⟨p', hp', hfor⟩ := hkeyed.placed x hx
  obtain rfl := Option.some.inj (hp.symm.trans hp')
  obtain ⟨cls, hclass, -, hname, -⟩ := Namespace.of_pathFor hfor
  rw [get, readable_eq_ok.2 ⟨own, h⟩, ok_bind, hname, Namespace.class?_name hclass,
    hkeyed.find?_path hx hp hself]
  rfl

theorem path_shown (properties : Option (List String)) (x : Instance) :
    (shown properties x).path = x.path := by
  cases properties <;> rfl

theorem Holds.qualifier_eq_ok (h : s.Holds space own ns) {name : String} {q : QualifierDecl} :
    s.qualifier space name = .ok q ↔
      (ns.qualifierDecls.find? fun d => sameName d.name name) = some q := by
  rw [qualifier, readable_eq_ok.2 ⟨own, h⟩, ok_bind]
  cases ns.qualifierDecls.find? fun d => sameName d.name name with
  | none => simp
  | some d =>
    constructor
    · exact fun hd => congrArg some (Except.ok.inj hd)
    · exact fun hd => congrArg Except.ok (Option.some.inj hd)

/-- Declarations of qualifiers are read as they are listed if, and only if, those of one name do
not differ. -/
theorem Holds.qualifiers_read_iff (h : s.Holds space own ns) :
    (∀ q ∈ ns.qualifierDecls, s.qualifier space q.name = .ok q) ↔
      ∀ p ∈ ns.qualifierDecls, ∀ q ∈ ns.qualifierDecls, sameName p.name q.name = true → p = q := by
  simp only [h.qualifier_eq_ok]
  constructor
  · intro hread p hp q hq hname
    have hpred : (fun d : QualifierDecl => sameName d.name p.name) =
        fun d => sameName d.name q.name :=
      funext fun d => sameName_congr_right hname d.name
    have hfirst := hread p hp
    rw [hpred, hread q hq] at hfirst
    exact (Option.some.inj hfirst).symm
  · intro hsame q hq
    cases hfound : ns.qualifierDecls.find? fun d => sameName d.name q.name with
    | none => exact absurd (sameName_refl q.name) (List.find?_eq_none.1 hfound q hq)
    | some p =>
      have hname : sameName p.name q.name = true := by simpa using List.find?_some hfound
      rw [hsame p (List.mem_of_find?_eq_some hfound) q hq hname]

/-- On a loaded server every class that a full listing has is read under its name as it was listed,
and so is every instance under its path unless there is a NaN in it. With declarations of qualifiers
it is so if, and only if, those of one name do not differ. -/
theorem listed_is_read {r : Repository} {default : Option String} {url : String}
    (hload : r.server default url = .ok s) (h : s.Holds space own ns) :
    (∀ detail, ∃ classes, s.classes space none true detail = .ok classes ∧
      classes.map ClassDecl.name = ns.classes.map ClassDecl.name ∧
      ∀ c ∈ classes, s.classNamed space c.name detail = .ok c) ∧
    (∀ className properties xs, s.instances space className properties = .ok xs →
      ∀ x ∈ xs, ∃ p, x.path = some p ∧
        (p.Tabled → p.anyReal Number.Binary64.isNaN = false →
          s.get space p properties = .ok x)) ∧
    ∃ qualifiers, s.qualifiers space = .ok qualifiers ∧
      ((∀ q ∈ qualifiers, s.qualifier space q.name = .ok q) ↔
        ∀ p ∈ qualifiers, ∀ q ∈ qualifiers, sameName p.name q.name = true → p = q) := by
  have hkeyed : ns.Keyed own := (keyed_of_repository hload).of_holds h
  have hvalid := validated_of_repository hload (List.mem_of_find?_eq_some h.1)
  refine ⟨fun detail => ?_, fun className properties xs hxs x hx => ?_, ?_⟩
  · have hall : ns.classesBelow space none true = .ok ns.classes := by
      simp [Namespace.classesBelow]
    refine ⟨ns.retrieve detail ns.classes, by rw [h.classes_eq, hall]; rfl,
      hvalid.map_name_retrieve detail fun c hc => hc, fun c hc => ?_⟩
    obtain ⟨d, -, hd⟩ := List.mem_filterMap.1 hc
    rw [classNamed, readable_eq_ok.2 ⟨own, h⟩, ok_bind, Namespace.resolve?_self hd]
    rfl
  · obtain ⟨-, rfl⟩ := h.instances_eq_ok.1 hxs
    obtain ⟨y, hy, rfl⟩ := List.mem_map.1 hx
    have hstored := List.mem_of_mem_filter hy
    obtain ⟨p, hp, -⟩ := hkeyed.placed y hstored
    refine ⟨p, by rw [path_shown, hp], fun htabled hreal => ?_⟩
    exact h.get_stored hkeyed hstored hp (ObjectPath.same_self htabled hreal) properties
  · refine ⟨ns.qualifierDecls, ?_, h.qualifiers_read_iff⟩
    rw [qualifiers, readable_eq_ok.2 ⟨own, h⟩]
    rfl

/-- A repository that declares one qualifier. -/
def declaring (name type : String) : Repository where
  namespaces := .ofList [("/root/cimv2/", { qualifierDecls := [{ name, type }] })]

/-- The server with one disk where a qualifier is declared too. -/
def markedDisks : Server :=
  (diskServer ["sda"]).withNamespace "root/cimv2" {
    qualifierDecls := [{ name := "MaxLen", type := "uint32" }]
    classes := [diskClass]
    instances := [{ disk "sda" with path := some (diskPath "sda") }] }

/-- The class is read as it is listed, and so are the disk and the qualifier. -/
theorem listed_is_read_of_disk :
    (∃ c, markedDisks.classes "ROOT/cimv2" none true { localOnly := true } = .ok [c] ∧
      markedDisks.classNamed "ROOT/cimv2" c.name { localOnly := true } = .ok c) ∧
    markedDisks.get "ROOT/cimv2" (diskPath "sda") (some []) =
      .ok { className := "tst_disk", path := some (diskPath "sda") } ∧
    markedDisks.qualifier "ROOT/cimv2" "MaxLen" = .ok { name := "MaxLen", type := "uint32" } := by
  have hload : (diskRepository.merge (declaring "MaxLen" "uint32")).server none "mock" =
      .ok markedDisks := rfl
  have hholds : markedDisks.Holds "ROOT/cimv2" "root/cimv2" _ := ⟨rfl, rfl⟩
  obtain ⟨hclasses, hinstances, qualifiers, hqualifiers, hdeclared⟩ := listed_is_read hload hholds
  refine ⟨?_, ?_, ?_⟩
  · obtain ⟨classes, hlisted, hnames, hread⟩ := hclasses { localOnly := true }
    obtain ⟨c, rfl, -⟩ := List.map_eq_singleton_iff.1 hnames
    exact ⟨c, hlisted, hread c List.mem_cons_self⟩
  · have hlisted : markedDisks.instances "ROOT/cimv2" "TST_Disk" (some []) =
        .ok [{ className := "tst_disk", path := some (diskPath "sda") }] := rfl
    obtain ⟨p, hp, hread⟩ := hinstances _ _ _ hlisted _ List.mem_cons_self
    obtain rfl := Option.some.inj hp
    exact hread (by decide) rfl
  · have hlisted : markedDisks.qualifiers "ROOT/cimv2" =
        .ok [{ name := "MaxLen", type := "uint32" }] := rfl
    obtain rfl := Except.ok.inj (hlisted.symm.trans hqualifiers)
    have hread := hdeclared.2 fun p hp q hq _ => by
      rw [List.mem_singleton.1 hp, List.mem_singleton.1 hq]
    exact hread { name := "MaxLen", type := "uint32" } List.mem_cons_self

/-- Two files declare a qualifier in different letters and with different types. Both declarations
are listed, and the first is read under either name. -/
theorem listed_not_read :
    ∃ s q, ((declaring "MaxLen" "uint32").merge (declaring "MAXLEN" "uint64")).server none "mock" =
        .ok s ∧ s.qualifiers "root/cimv2" = .ok [{ name := "MaxLen", type := "uint32" }, q] ∧
      s.qualifier "root/cimv2" q.name = .ok { name := "MaxLen", type := "uint32" } ∧
      s.qualifier "root/cimv2" q.name ≠ .ok q := by
  refine ⟨_, { name := "MAXLEN", type := "uint64" }, rfl, rfl, rfl, fun h => ?_⟩
  have htype := congrArg (fun a => a.toOption.map QualifierDecl.type) h
  exact absurd htype (by decide)

end Server

end CimConsole
