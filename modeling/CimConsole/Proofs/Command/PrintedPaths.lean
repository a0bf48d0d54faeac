import CimConsole.Command.Instance
import CimConsole.Proofs.Model.PathText
import CimConsole.Proofs.Server.Binding

/-!
Printed paths given back. A listing of names prints the path of each instance. If the namespace has
no dot in its name, and the names of the class and of its keys are such as paths admit, the text
reads back: as the same path, or without the namespace if that has the empty name. Both are equal
to the same stored paths, as all of these have the namespace that they are stored in, so what is
found is the instance that was listed.
-/
namespace CimConsole

open Text

namespace Repository

/-- Namespaces are loaded under names without slashes around them, no two of which differ in letter
case only. -/
theorem of_trimmed {before : List String} {entries named : List (String × Namespace)}
    (h : trimmed before entries = .ok named) :
    (∀ e ∈ named, trimMark '/' e.1 = e.1) ∧
      (∀ b ∈ before, ∀ e ∈ named, sameName b e.1 = false) ∧
      named.Pairwise fun a b => sameName a.1 b.1 = false := by
  induction entries generalizing before named with
  | nil =>
    obtain rfl := Except.ok.inj h
    simp
  | cons entry rest ih =>
    obtain ⟨name, ns⟩ := entry
    simp only [trimmed] at h
    split at h
    · cases h
    · next hnew =>
      obtain ⟨others, hothers, h⟩ := bind_eq_ok.1 h
      obtain rfl := Except.ok.inj h
      obtain ⟨htrimmed, hbefore, hdistinct⟩ := ih hothers
      refine ⟨?_, ?_, ?_⟩
      · intro e he
        rcases List.mem_cons.1 he with rfl | he
        · rw [trimMark, trimMark, String.toList_ofList, dropBothWhile_dropBothWhile]
        · exact htrimmed e he
      · intro b hb e he
        rcases List.mem_cons.1 he with rfl | he
        · exact Bool.eq_false_iff.2 fun hsame => hnew (List.any_eq_true.2 ⟨b, hb, hsame⟩)
        · exact hbefore b (List.mem_append_left _ hb) e he
      · refine List.pairwise_cons.2 ⟨fun e he => ?_, hdistinct⟩
        exact hbefore _ (List.mem_append_right _ (List.mem_singleton_self _)) e he

theorem names_of_loadAll {named loaded : List (String × Namespace)}
    (h : loadAll named = .ok loaded) : loaded.map (·.1) = named.map (·.1) := by
  induction named generalizing loaded with
  | nil =>
    obtain rfl := Except.ok.inj h
    rfl
  | cons e rest ih =>
    obtain ⟨ns, -, h⟩ := bind_eq_ok.1 h
    obtain ⟨others, hothers, h⟩ := bind_eq_ok.1 h
    obtain rfl := Except.ok.inj h
    rw [List.map_cons, List.map_cons, ih hothers]

end Repository

namespace Server

variable {r : Repository} {default : Option String} {url name : String} {s : Server}
  {ns : Namespace}

/-- Every namespace of a loaded server is found under its own name. -/
theorem entry?_of_mem (h : r.server default url = .ok s) (hmem : (name, ns) ∈ s.namespaces) :
    s.entry? name = some (name, ns) := by
  obtain ⟨named, hnamed, h⟩ := bind_eq_ok.1 h
  obtain ⟨loaded, hloaded, h⟩ := bind_eq_ok.1 h
  obtain rfl := Except.ok.inj h
  have hmem : (name, ns) ∈ loaded := hmem
  obtain ⟨htrimmed, -, hdistinct⟩ := Repository.of_trimmed hnamed
  have hnames := Repository.names_of_loadAll hloaded
  have htrim : trimMark '/' name = name := by
    have hname : name ∈ named.map (·.1) := hnames ▸ List.mem_map.2 ⟨_, hmem, rfl⟩
    obtain ⟨e, he, rfl⟩ := List.mem_map.1 hname
    exact htrimmed e he
  have hpairwise : loaded.Pairwise fun a b => sameName a.1 b.1 = false := by
    have hmapped : (named.map (·.1)).Pairwise fun a b => sameName a b = false :=
      List.pairwise_map.2 hdistinct
    rw [← hnames] at hmapped
    exact List.pairwise_map.1 hmapped
  obtain ⟨before, after, hsplit⟩ := List.append_of_mem hmem
  rw [ entry?, htrim]
  refine List.find?_eq_some_iff_append.2 ⟨sameName_refl name, before, after, hsplit, ?_⟩
  intro e he
  rw [hsplit] at hpairwise
  have hother := (List.pairwise_append.1 hpairwise).2.2 e he _ List.mem_cons_self
  rw [hother]
  rfl

end Server

/-- A truth value, a whole number or a text without an equals sign. -/
def Value.Printable : Value → Prop
  | .boolean _ | .integer _ => True
  | .text s => '=' ∉ s.toList
  | _ => False

instance (v : Value) : Decidable v.Printable :=
  match v with
  | .boolean _ | .integer _ => .isTrue trivial
  | .text s => inferInstanceAs (Decidable ('=' ∉ s.toList))
  | .real _ | .reference _ | .array _ => .isFalse id

theorem Value.Printable.writable {v : Value} (h : v.Printable) : v.Writable := by
  cases v with
  | boolean b => exact .boolean b
  | integer i => exact .integer i
  | text s =>
    refine .text s fun p hread => ?_
    by_contra hkeys
    exact h (ObjectPath.equals_mem_of_read hread hkeys)
  | real _ | reference _ | array _ => exact h.elim

theorem Value.Printable.mapSpaces_eq {v : Value} (h : v.Printable)
    (f : Option String → Option String) : v.mapSpaces f = v := by
  cases v with
  | boolean _ | integer _ | text _ | real _ => rfl
  | reference _ | array _ => exact h.elim

namespace ObjectPath

variable {p : ObjectPath}

theorem mapSpaces_of_printable (h : ∀ e ∈ p.keys, e.2.Printable)
    (f : Option String → Option String) :
    p.mapSpaces f = ⟨f p.nameSpace, p.className, p.keys⟩ := by
  obtain ⟨space, name, keys⟩ := p
  have hkeys : keys.map (fun e => (e.1, e.2.mapSpaces f)) = keys := by
    rw [List.map_congr_left fun e he => by rw [(h e he).mapSpaces_eq f], List.map_id']
  rw [ObjectPath.mapSpaces, mapSpacesUnder_eq_map, hkeys]

/-- A path equals another one with another namespace that agrees with its own, if it equals that
one with the namespace that it has. -/
theorem same_of_agreeing {u : ObjectPath} {space : Option String}
    (hp : agreeingSpaces u.nameSpace p.nameSpace = true)
    (hspace : agreeingSpaces u.nameSpace space = true) :
    u.same ⟨space, p.className, p.keys⟩ = u.same p := by
  obtain ⟨a, name, keys⟩ := u
  obtain ⟨b, other, bindings⟩ := p
  rw [same, same, isLeftOf, isLeftOf]
  rw [hp, hspace]

/-- The text of a path with keys ends with no question mark. -/
theorem dropEnd?_display (hp : p.Writable) (hkeys : p.keys ≠ []) :
    dropEnd? ".?" p.display = none := by
  obtain @⟨space, name, keys, -, -, -, -, hvalues⟩ := hp
  obtain ⟨c, hc, -, hmark⟩ := last_bindingText hvalues hkeys
  have hlast : (ObjectPath.mk space name keys).display.toList.getLast? = some c := by
    rw [toList_display, if_neg hkeys, List.append_cons]
    exact getLast?_append_some _ hc
  rw [dropEnd?, Option.map_eq_none_iff]
  rw [← List.head?_reverse] at hlast
  obtain ⟨rest, hrest⟩ := List.head?_eq_some_iff.1 hlast
  rw [hrest]
  have hne : ('?' == c) = false := beq_eq_false_iff_ne.2 hmark.symm
  simp [after?, hne]

end ObjectPath

namespace InstanceName

variable {p q : ObjectPath}

/-- The text of a path with keys is taken for the path, and nobody is asked. -/
theorem resolve_display (hp : p.Writable) (hkeys : p.keys ≠ [])
    (hread : ObjectPath.read p.display = .ok q) (hq : q.keys ≠ []) (s : Server) (space : String) :
    (InstanceName.mk p.display []).resolve s space = pure q := by
  have htrim : trim p.display = p.display := by
    rw [trim, ObjectPath.dropBothWhile_display hp, String.ofList_toList]
  have hclass : q.namesClass = false := by simpa [ObjectPath.namesClass] using hq
  have hpath : (InstanceName.mk p.display []).path = .ok q := by
    simp only [path, htrim, hread, hclass]
    rfl
  simp only [resolve, htrim, ObjectPath.dropEnd?_display hp hkeys, hpath]
  rfl

end InstanceName

namespace Namespace

variable {ns : Namespace} {name ancestor : String}

theorem class?_isSome_of_isWithin (h : ns.isWithin name ancestor = true) :
    (ns.class? ancestor).isSome = true := by
  obtain ⟨c, hc, hname⟩ := isWithin_iff.1 h
  have hself : ns.class? c.name = some c :=
    class?_of_mem_walk (fun d hd => class?_name hd) hc
  rw [← class?_congr hname, hself]
  rfl

end Namespace

namespace Server

variable {s : Server} {space own className : String} {ns : Namespace} {x : Instance}
  {p : ObjectPath}

/-- A listing of names has the path of every instance of the class. -/
theorem Holds.exists_listed (hns : s.Holds space own ns) (hx : x ∈ ns.instances)
    (hp : x.path = some p) (hwithin : ns.isWithin x.className className = true) :
    ∃ paths, s.instanceNames space className = .ok paths ∧ p ∈ paths := by
  have hdeclared : (ns.class? className).isSome = true :=
    Namespace.class?_isSome_of_isWithin hwithin
  have hinstances : s.instances space className none =
      .ok (ns.instances.filter fun y => ns.isWithin y.className className) :=
    instances_eq_ok.2 ⟨own, ns, hns, hdeclared, rfl⟩
  refine ⟨_, bind_eq_ok.2 ⟨_, hinstances, rfl⟩, ?_⟩
  exact List.mem_filterMap.2 ⟨x, List.mem_filter.2 ⟨hx, hwithin⟩, hp⟩

/-- What a path gets, so does the one without the namespace if that has the empty name. -/
theorem Holds.get_bare (hns : s.Holds space own ns) (hkeyed : ns.Keyed own)
    (hx : x ∈ ns.instances) (hp : x.path = some p) (hself : p.same p = true) :
    s.get space ⟨bareSpace p.nameSpace, p.className, p.keys⟩ none = .ok x := by
  have hspaces : ∀ y ∈ ns.instances, ∀ u, y.path = some u → u.nameSpace = some own := by
    intro y hy u hu
    obtain ⟨u', hu', hfor⟩ := hkeyed.placed y hy
    obtain rfl := Option.some.inj (hu.symm.trans hu')
    obtain ⟨-, -, hspace, -⟩ := Namespace.of_pathFor hfor
    exact hspace
  have hspace := hspaces x hx p hp
  obtain ⟨p', hp', hfor⟩ := hkeyed.placed x hx
  obtain rfl := Option.some.inj (hp.symm.trans hp')
  obtain ⟨cls, hdeclared, -, hname, -⟩ := Namespace.of_pathFor hfor
  refine get_eq_ok.2 ⟨own, ns, hns, ?_, ?_⟩
  · rw [hname, Namespace.class?_name hdeclared]
    rfl
  · refine hkeyed.find?_of_same_iff hx hp hself fun y hy u hu => ?_
    have hagree : agreeingSpaces u.nameSpace p.nameSpace = true := by
      rw [hspaces y hy u hu, hspace]
      exact agreeingSpaces_self _
    have hbare : agreeingSpaces u.nameSpace (bareSpace p.nameSpace) = true := by
      rw [hspaces y hy u hu, hspace]
      exact ObjectPath.agreeingSpaces_bareSpace _
    exact ObjectPath.same_of_agreeing hagree hbare

/-- Nothing is listed in a namespace that is out of order. -/
theorem instanceNames_of_fault (hentry : s.entry? space = some (own, ns)) (hfault : ns.fault ≠ none)
    (className : String) : (s.instanceNames space className).toOption = none := by
  obtain ⟨fault, hfault⟩ := Option.ne_none_iff_exists'.1 hfault
  have hunreadable : s.readable space = .error (fault.error (trimMark '/' space)) := by
    simp only [readable, hentry, hfault]
  rw [instanceNames, instances, hunreadable]
  rfl

/-- Printed paths can be given back. Let an instance of a loaded server have key values that are
truth values, whole numbers or texts without an equals sign, in a namespace without a dot in its
name, and let the names of its class and of its keys be such as paths admit. Then the text of its
path reads as a path, which a command takes from that text without asking. If the namespace is in
order, every listing of names in it that covers the class of the instance prints that text, and
the path gets the instance; if not, nothing is listed. -/
theorem printed_path_reads_back {r : Repository} {default : Option String} {url name : String}
    {s : Server} (hload : r.server default url = .ok s) {ns : Namespace}
    (hns : (name, ns) ∈ s.namespaces) (hdot : '.' ∉ name.toList) {x : Instance}
    (hx : x ∈ ns.instances) {p : ObjectPath} (hp : x.path = some p)
    (hvalues : ∀ e ∈ p.keys, e.2.Printable) (hclass : isIdentifier p.className.toList = true)
    (hkeys : ∀ e ∈ p.keys, isIdentifier e.1.toList = true) :
    ∃ q, ObjectPath.read p.display = .ok q ∧
      (∀ space, (InstanceName.mk p.display []).resolve s space = pure q) ∧
      (ns.fault = none →
        (∀ className, ns.isWithin x.className className = true →
          ∃ paths, s.instanceNames name className = .ok paths ∧
            p.display ∈ (Objects.paths paths).lines) ∧
        s.get name q none = .ok x) ∧
      (ns.fault ≠ none → ∀ className, (s.instanceNames name className).toOption = none) := by
  have hentry := entry?_of_mem hload hns
  have hkeyed : ns.Keyed name := keyed_of_repository hload _ hns
  obtain ⟨p', hp', hfor⟩ := hkeyed.placed x hx
  obtain rfl := Option.some.inj (hp.symm.trans hp')
  obtain ⟨cls, -, hspace, -, hordered, -⟩ := Namespace.of_pathFor hfor
  have hne : p.keys ≠ [] := Namespace.keys_ne_nil_of_pathFor hfor
  have hwritable : p.Writable := by
    obtain ⟨space, className, keys⟩ := p
    refine .mk (fun a ha => ?_) hclass hordered hkeys fun e he => (hvalues e he).writable
    obtain rfl : name = a := Option.some.inj (hspace.symm.trans ha)
    exact hdot
  have hself : p.same p = true := ObjectPath.same_self hwritable.tabled.1 hwritable.tabled.2
  have hread := ObjectPath.read_display_bare hwritable
  rw [ObjectPath.mapSpaces_of_printable hvalues] at hread
  refine ⟨_, hread, InstanceName.resolve_display hwritable hne hread hne s, ?_,
    instanceNames_of_fault hentry⟩
  intro hfault
  have hholds : s.Holds name name ns := ⟨hentry, hfault⟩
  refine ⟨fun className hwithin => ?_, hholds.get_bare hkeyed hx hp hself⟩
  obtain ⟨paths, hpaths, hlisted⟩ := hholds.exists_listed hx hp hwithin
  exact ⟨paths, hpaths, List.mem_map_of_mem hlisted⟩

/-- The path of a disk as it is printed, and the disk that it gets. -/
theorem printed_path_reads_back_of_disk :
    ∃ q, ObjectPath.read "/root/cimv2:TST_Disk.Name=\"sda\"" = .ok q ∧
      (diskServer ["sda"]).get "root/cimv2" q none = .ok { disk "sda" with
        path := some ⟨some "root/cimv2", "TST_Disk", [("Name", .text "sda")]⟩ } := by
  have hload : diskRepository.server none "mock" = .ok (diskServer ["sda"]) := rfl
  have hdisplay : (ObjectPath.mk (some "root/cimv2") "TST_Disk" [("Name", .text "sda")]).display =
      "/root/cimv2:TST_Disk.Name=\"sda\"" := by
    decide +kernel
  obtain ⟨q, hread, -, hget, -⟩ := printed_path_reads_back hload List.mem_cons_self
    (by decide) List.mem_cons_self rfl (by decide) (by decide) (by decide)
  rw [hdisplay] at hread
  exact ⟨q, hread, (hget rfl).2⟩

/-- A repository with one instance, under names that are given. -/
def repositoryNaming (space className key : String) : Repository where
  namespaces := .ofList [(space, {
    classes := [{ name := className
                  properties := [{ name := key, qualifiers := .ofList [("Key", .boolean true)] }] }]
    instances := [({ className } : Instance).withProperty key (.text "sda")] })]

/-- The repository is loaded, and the text of a listed path with printable keys does not read. -/
def PrintsUnreadable (space className key : String) : Prop :=
  ∃ s, (repositoryNaming space className key).server none "mock" = .ok s ∧
    ∃ paths, s.instanceNames space className = .ok paths ∧
      ∃ p ∈ paths, (∀ e ∈ p.keys, e.2.Printable) ∧ (ObjectPath.read p.display).toOption.isNone

theorem printsUnreadable_of_any {space className key : String}
    (h : (((repositoryNaming space className key).server none "mock").toOption.any fun s =>
      decide ((s.instanceNames space className).toOption.any fun paths =>
        decide (∃ p ∈ paths, (∀ e ∈ p.keys, e.2.Printable) ∧
          (ObjectPath.read p.display).toOption.isNone))) = true) :
    PrintsUnreadable space className key := by
  obtain ⟨s, hload, hlisted⟩ := exists_ok_of_any h
  exact ⟨s, hload, exists_ok_of_any hlisted⟩

/-- It does not with a dot in the name of the namespace, nor with a hyphen in the name of the class
or of a key. -/
theorem printed_path_not_read :
    PrintsUnreadable "root.v2" "TST_Disk" "Name" ∧
      PrintsUnreadable "root/cimv2" "TST-Disk" "Name" ∧
      PrintsUnreadable "root/cimv2" "TST_Disk" "Disk-Name" :=
  ⟨printsUnreadable_of_any (by decide +kernel), printsUnreadable_of_any (by decide +kernel),
    printsUnreadable_of_any (by decide +kernel)⟩

end Server

end CimConsole
