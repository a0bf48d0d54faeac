import CimConsole.Command.Instance
import CimConsole.Proofs.Output.Forest
import CimConsole.Proofs.Server.Reachable
import CimConsole.Proofs.Tally

/-!
Counting instances by class. An instance is retrieved for its class and once more for every class
above it, but its path names its own class, so it is counted there only. As the names of the classes
differ in more than letter case, every stored instance is counted once.
-/
namespace CimConsole

open Text

section Lengths

variable {classes : List ClassDecl} {xs : List Instance}

theorem length_filter_paths {within exact : Instance → Bool} {counted : ObjectPath → Bool}
    (h : ∀ x ∈ xs, ∃ p, x.path = some p ∧ (within x && counted p) = exact x) :
    (((xs.filter within).filterMap Instance.path).filter counted).length =
      (xs.filter exact).length := by
  induction xs with
  | nil => rfl
  | cons x rest ih =>
    obtain ⟨p, hp, hexact⟩ := h x List.mem_cons_self
    have hrest := ih fun y hy => h y (List.mem_cons_of_mem _ hy)
    rw [List.filter_cons, List.filter_cons, ← hexact]
    cases within x with
    | false => simpa using hrest
    | true =>
      rw [if_pos rfl, List.filterMap_cons, hp, List.filter_cons, Bool.true_and]
      cases counted p <;> simpa using hrest

/-- Classes that tell all instances apart count each of them once. -/
theorem foldr_lengths (hdistinct : DistinctNames classes)
    (hcovered : ∀ x ∈ xs, ∃ c ∈ classes, sameName x.className c.name = true) :
    (classes.map fun c => (xs.filter fun x => sameName x.className c.name).length).foldr
      (· + ·) 0 = xs.length := by
  have hapart : classes.Pairwise fun c d => ∀ x ∈ xs, sameName x.className c.name = true →
      sameName x.className d.name = false :=
    hdistinct.imp fun hother x _ hc => Bool.eq_false_iff.2 fun hd =>
      Bool.eq_false_iff.1 hother (sameName_trans (sameName_symm hc) hd)
  rw [foldr_length_filter hapart,
    List.filter_eq_self.2 fun x hx => List.any_eq_true.2 (hcovered x hx)]

theorem foldr_filter_pos (counts : List (String × Nat)) :
    ((counts.filter fun e => 0 < e.2).map Prod.snd).foldr (· + ·) 0 =
      (counts.map Prod.snd).foldr (· + ·) 0 := by
  induction counts with
  | nil => rfl
  | cons e rest ih =>
    rw [List.filter_cons]
    split
    · exact congrArg (e.2 + ·) ih
    · next hzero =>
      have hzero : e.2 = 0 := by simpa using hzero
      rw [ih, List.map_cons, List.foldr_cons, hzero, Nat.zero_add]

end Lengths

namespace Namespace

variable {ns : Namespace} {own : String}

/-- How many stored instances are of exactly this class. -/
def countExact (ns : Namespace) (name : String) : Nat :=
  (ns.instances.filter fun x => sameName x.className name).length

/-- The classes that have instances, with how many. -/
def classCounts (ns : Namespace) : List (String × Nat) :=
  ((ns.classes.map fun c => (c.name, ns.countExact c.name)).filter fun e => 0 < e.2).mergeSort
    fun a b => foldCase a.1 ≤ foldCase b.1

theorem mem_classCounts_iff {e : String × Nat} : e ∈ ns.classCounts ↔
    ∃ c ∈ ns.classes, 0 < ns.countExact c.name ∧ (c.name, ns.countExact c.name) = e := by
  rw [classCounts, (List.mergeSort_perm _ _).mem_iff]
  simp only [List.mem_filter, List.mem_map, decide_eq_true_eq]
  constructor
  · rintro ⟨⟨c, hc, rfl⟩, hpos⟩
    exact ⟨c, hc, hpos, rfl⟩
  · rintro ⟨c, hc, hpos, rfl⟩
    exact ⟨⟨c, hc, rfl⟩, hpos⟩

theorem Validated.lists_classCounts (h : ns.Validated) : ClassDecl.Lists ns.classes
    (fun c => ∃ x ∈ ns.instances, sameName x.className c.name = true)
    (ns.classCounts.map Prod.fst) := by
  constructor
  · have hapart : (ns.classes.map fun c => (c.name, ns.countExact c.name)).Pairwise
        fun a b => foldCase a.1 ≠ foldCase b.1 := by
      refine List.pairwise_map.2 (h.distinct.imp fun hname heq => ?_)
      exact absurd ((sameName_iff _ _).2 heq) (by simp [hname])
    have hkept : ((ns.classes.map fun c => (c.name, ns.countExact c.name)).filter
        fun e => 0 < e.2).Pairwise fun a b => foldCase a.1 ≠ foldCase b.1 :=
      hapart.sublist List.filter_sublist
    exact List.pairwise_map.2 (pairwise_lt_mergeSort (fun e : String × Nat => foldCase e.1) hkept)
  · intro n
    simp only [List.mem_map, mem_classCounts_iff]
    constructor
    · rintro ⟨e, ⟨c, hc, hpos, rfl⟩, rfl⟩
      obtain ⟨x, hx⟩ := List.exists_mem_of_length_pos hpos
      exact ⟨c, hc, ⟨x, List.mem_filter.1 hx⟩, rfl⟩
    · rintro ⟨c, hc, ⟨x, hx⟩, rfl⟩
      exact ⟨_, ⟨c, hc, List.length_pos_of_mem (List.mem_filter.2 hx), rfl⟩, rfl⟩

theorem Validated.foldr_classCounts (h : ns.Validated) (hkeyed : ns.Keyed own) :
    (ns.classCounts.map Prod.snd).foldr (· + ·) 0 = ns.instances.length := by
  rw [classCounts, ((List.mergeSort_perm _ _).map Prod.snd).foldr_eq, foldr_filter_pos,
    List.map_map]
  refine foldr_lengths h.distinct fun x hx => ?_
  obtain ⟨c, hc⟩ := Option.isSome_iff_exists.1 (hkeyed.classed x hx)
  exact ⟨c, (mem_of_class? hc).1, sameName_symm (mem_of_class? hc).2⟩

end Namespace

namespace InstanceCommand

variable {s : Server} {space own : String} {ns : Namespace}

/-- What is counted for a class are its own instances. -/
theorem countOf_eq (h : s.Holds space own ns) (hkeyed : ns.Keyed own) {c : ClassDecl}
    (hc : c ∈ ns.classes) : countOf s space c.name = .ok (ns.countExact c.name) := by
  have hfound : (ns.class? c.name).isSome = true :=
    List.find?_isSome.2 ⟨c, hc, sameName_refl _⟩
  have hretrieved : s.instances space c.name none =
      .ok (ns.instances.filter fun x => ns.isWithin x.className c.name) := by
    rw [h.instances_eq_ok]
    exact ⟨hfound, (List.map_id' _).symm⟩
  rw [countOf, Server.instanceNames, hretrieved]
  refine congrArg Except.ok (length_filter_paths fun x hx => ?_)
  obtain ⟨p, hp, hfor⟩ := hkeyed.placed x hx
  obtain ⟨cls, hclass, -, hname, -⟩ := Namespace.of_pathFor hfor
  refine ⟨p, hp, ?_⟩
  have hown : sameName cls.name x.className = true := (Namespace.mem_of_class? hclass).2
  have hsame : sameName p.className c.name = sameName x.className c.name := by
    rw [hname, sameName_congr_left hown]
  rw [hsame]
  cases hexact : sameName x.className c.name with
  | false => rw [Bool.and_false]
  | true =>
    rw [Bool.and_true, Namespace.isWithin_congr hexact]
    exact Namespace.isWithin_self hfound

/-- Where all classes match, all are counted. -/
theorem countIn_eq (h : s.Holds space own ns) (hkeyed : ns.Keyed own) {p : Pattern}
    (hall : ∀ c ∈ ns.classes, p.isMatch c.name = true) :
    countIn s p space = .ok (.counts ns.classCounts) := by
  have hnames : s.classNames space none true = .ok (ns.classes.map ClassDecl.name) := by
    rw [h.classNames_eq]
    simp [Namespace.classesBelow, Except.map]
  have hmatching : (ns.classes.map ClassDecl.name).filter p.isMatch =
      ns.classes.map ClassDecl.name :=
    List.filter_eq_self.2 (by simpa using hall)
  have hcounted : ((ns.classes.map ClassDecl.name).mapM fun n =>
      (countOf s space n).map fun count => (n, count)) =
        .ok ((ns.classes.map ClassDecl.name).map fun n => (n, ns.countExact n)) := by
    refine mapM_eq_ok fun n hn => ?_
    obtain ⟨c, hc, rfl⟩ := List.mem_map.1 hn
    rw [countOf_eq h hkeyed hc]
    rfl
  rw [List.map_map] at hcounted
  rw [countIn, hnames]
  simp only [Except.mapError, ok_bind, hmatching, hcounted]
  rfl

/-- Counting all classes divides the stored instances among their classes. -/
theorem countIn_partition (hs : s.Reachable) (h : s.Holds space own ns) (p : Pattern)
    (hall : ∀ c ∈ ns.classes, p.isMatch c.name = true) :
    ∃ counts, countIn s p space = .ok (.counts counts) ∧
      ClassDecl.Lists ns.classes (fun c => ∃ x ∈ ns.instances, sameName x.className c.name = true)
        (counts.map Prod.fst) ∧
      (∀ e ∈ counts, e.2 = (ns.instances.filter fun x => sameName x.className e.1).length) ∧
      (counts.map Prod.snd).foldr (· + ·) 0 = ns.instances.length := by
  have hkeyed : ns.Keyed own := hs.keyed.of_holds h
  have hvalid : ns.Validated := hs.validated.of_holds h
  refine ⟨ns.classCounts, countIn_eq h hkeyed hall, hvalid.lists_classCounts, fun e he => ?_,
    hvalid.foldr_classCounts hkeyed⟩
  obtain ⟨c, -, -, rfl⟩ := Namespace.mem_classCounts_iff.1 he
  rfl

/-- A class of animals with their names as keys. -/
def animalClass (name superclass : String) : ClassDecl where
  name := name
  superclass := some superclass
  properties := [{ name := "Name", qualifiers := .ofList [("Key", .boolean true)] }]

def animal (className name : String) : Instance :=
  ({ className } : Instance).withProperty "name" (.text name)

/-- Two classes that are each other's superclass, and one below them. -/
def animalClasses : List ClassDecl :=
  [animalClass "TST_Hen" "tst_egg", animalClass "TST_Egg" "TST_HEN",
    animalClass "TST_Chick" "TST_Hen"]

def animalRepository : Repository where
  namespaces := .ofList
    [("root/farm", {
      classes := animalClasses
      instances := [animal "tst_hen" "first", animal "TST_CHICK" "second"] })]

/-- An animal at its path. -/
def placedAnimal (className written name : String) : Instance :=
  { animal written name with
    path := some ⟨some "root/farm", className, [("Name", .text name)]⟩ }

def loadedAnimals : List Instance :=
  [placedAnimal "TST_Hen" "tst_hen" "first", placedAnimal "TST_Chick" "TST_CHICK" "second"]

def animalServer (stored : List Instance) : Server where
  url := "mock"
  defaultNamespace := "root/cimv2"
  namespaces := [("root/farm", { classes := animalClasses, instances := stored })]

/-- The animals, a hen that was created behind the loaded ones. -/
def allAnimals : List Instance :=
  loadedAnimals ++ [placedAnimal "TST_Hen" "TST_HEN" "third"]

theorem reachable_allAnimals : (animalServer allAnimals).Reachable := by
  have hload : animalRepository.server none "mock" = .ok (animalServer loadedAnimals) := rfl
  have hcreated : (StoreCall.create "ROOT/farm/" (animal "TST_HEN" "third")).after
      (animalServer loadedAnimals) = animalServer allAnimals := rfl
  exact hcreated ▸ (Server.reachable_of_repository hload).after _

/-- Of the three animals two are hens and none is an egg. -/
theorem countIn_partition_of_animals :
    ∃ p counts, Pattern.read "*" = .ok p ∧
      countIn (animalServer allAnimals) p "ROOT/farm/" = .ok (.counts counts) ∧
      (∃ k, ("TST_Hen", k) ∈ counts) ∧ (∀ k, ("TST_Hen", k) ∈ counts → k = 2) ∧
      (∀ k, ("TST_Egg", k) ∉ counts) ∧ (counts.map Prod.snd).foldr (· + ·) 0 = 3 := by
  have hholds : (animalServer allAnimals).Holds "ROOT/farm/" "root/farm"
      { classes := animalClasses, instances := allAnimals } := ⟨rfl, rfl⟩
  have hread : Pattern.read "*" = .ok ⟨[.anything]⟩ := rfl
  have hmatch : ∀ c ∈ animalClasses, (Pattern.mk [.anything]).isMatch c.name = true := by
    decide +kernel
  obtain ⟨counts, hcounts, hlists, hexact, hsum⟩ :=
    countIn_partition reachable_allAnimals hholds ⟨[.anything]⟩ hmatch
  refine ⟨_, counts, hread, hcounts, ?_, fun k hk => ?_, fun k hk => ?_, hsum⟩
  · have hhen : "TST_Hen" ∈ counts.map Prod.fst := by
      refine (hlists.mem_iff _).2 ⟨animalClass "TST_Hen" "tst_egg", List.mem_cons_self, ?_, rfl⟩
      exact ⟨placedAnimal "TST_Hen" "tst_hen" "first", List.mem_cons_self, by decide +kernel⟩
    obtain ⟨⟨_, k⟩, hk, rfl⟩ := List.mem_map.1 hhen
    exact ⟨k, hk⟩
  · have htwo : (allAnimals.filter fun x => sameName x.className "TST_Hen").length = 2 := by
      decide +kernel
    exact (hexact _ hk).trans htwo
  · obtain ⟨c, -, ⟨x, hx, hegg⟩, hname⟩ := (hlists.mem_iff _).1 (List.mem_map_of_mem hk)
    have hnone : ∀ x ∈ allAnimals, sameName x.className "TST_Egg" = false := by decide +kernel
    rw [hname, hnone x hx] at hegg
    cases hegg

end InstanceCommand

end CimConsole
