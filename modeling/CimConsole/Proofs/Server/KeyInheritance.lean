import CimConsole.Proofs.Server.Ascent
import CimConsole.Proofs.Server.Binding

/-!
Which keys a class has from its ancestors. A property that is declared anew takes the place of the
inherited one with its qualifiers, the one that makes it a key among them. So a key of a class is a
key of the classes below it as far as nobody in between declares it anew as something else. The
paths of instances have the keys of their class and lose what it loses.
-/
namespace CimConsole

open Text

/-- The declaration of a property that counts in a line of classes, the nearest first: the last one
of the name in the first class that has one. -/
def countingDeclaration? (line : List ClassDecl) (name : String) : Option PropertyDecl :=
  line.findSome? fun c => c.properties.reverse.find? fun p => sameName p.name name

theorem countingDeclaration?_append (line rest : List ClassDecl) (name : String) :
    countingDeclaration? (line ++ rest) name =
      (countingDeclaration? line name).or (countingDeclaration? rest name) :=
  List.findSome?_append

/-- The element that stays of a name is the last one put. -/
theorem mem_putAll_and_named {α : Type} {name : α → String} {xs : List α} {y : α} {n : String} :
    (y ∈ putAll name xs ∧ sameName (name y) n = true) ↔
      (xs.reverse.find? fun x => sameName (name x) n) = some y := by
  rw [mem_putAll, List.find?_eq_some_iff_append, and_comm]
  refine and_congr_right fun hname => ?_
  have hother : ∀ z, sameName (name z) n = sameName (name z) (name y) := fun z =>
    sameName_congr_right (sameName_symm hname) (name z)
  simp only [hother, Bool.not_eq_true', List.reverse_eq_iff]
  constructor
  · rintro ⟨before, after, rfl, hafter⟩
    exact ⟨after.reverse, before.reverse, by simp, by simpa using hafter⟩
  · rintro ⟨after, before, rfl, hafter⟩
    exact ⟨before.reverse, after.reverse, by simp, by simpa using hafter⟩

/-- Marking properties with where they come from changes nothing about which one counts. -/
theorem find?_shownFrom (cls : ClassDecl) (line : List ClassDecl) (name : String) :
    ((line.reverse.flatMap fun s => s.properties.map (PropertyDecl.shownFrom {} cls s)).reverse.find?
        fun p => sameName p.name name).map PropertyDecl.isKey =
      (countingDeclaration? line name).map PropertyDecl.isKey := by
  induction line with
  | nil => rfl
  | cons c rest ih =>
    rw [List.reverse_cons, List.flatMap_append, List.flatMap_singleton, List.reverse_append,
      List.find?_append, ← List.map_reverse, List.find?_map, countingDeclaration?,
      List.findSome?_cons]
    have hmark : (fun p : PropertyDecl => sameName p.name name) ∘ PropertyDecl.shownFrom {} cls c =
        fun p => sameName p.name name := rfl
    rw [hmark]
    cases c.properties.reverse.find? fun p => sameName p.name name with
    | none => exact ih
    | some p => rfl

namespace Namespace

variable {ns : Namespace} {own space name key : String} {c d : ClassDecl} {way : List ClassDecl}
  {x : Instance} {path : ObjectPath}

/-- A class has a key if the declaration that counts among it and its ancestors makes it one. -/
theorem exists_mem_keyNames_iff (hc : ns.class? name = some c) :
    (∃ k ∈ ns.keyNames name, sameName k key = true) ↔
      (countingDeclaration? (ns.superclassChain name) key).any PropertyDecl.isKey = true := by
  obtain ⟨r, hr, hproperties, -⟩ := exists_resolve?_elements hc {}
  rw [if_neg (by decide)] at hproperties
  have hkeys : (∃ k ∈ ns.keyNames name, sameName k key = true) ↔
      ∃ p, (p ∈ r.properties ∧ sameName p.name key = true) ∧ p.isKey = true := by
    rw [keyNames, hr]
    constructor
    · rintro ⟨k, hk, hname⟩
      obtain ⟨p, hp, rfl⟩ := List.mem_map.1 hk
      obtain ⟨hp, hkey⟩ := List.mem_filter.1 hp
      exact ⟨p, ⟨hp, hname⟩, hkey⟩
    · rintro ⟨p, ⟨hp, hname⟩, hkey⟩
      exact ⟨p.name, List.mem_map_of_mem (List.mem_filter.2 ⟨hp, hkey⟩), hname⟩
  simp only [hkeys, hproperties, mem_putAll_and_named, ← Option.map_eq_some_iff, find?_shownFrom]
  rw [Option.map_eq_some_iff, Option.any_eq_true]

/-- The path of an instance has the keys of its class. -/
theorem exists_mem_keys_iff (hfor : ns.pathFor space x = .ok path) :
    (∃ e ∈ path.keys, sameName e.1 key = true) ↔
      ∃ k ∈ ns.keyNames x.className, sameName k key = true := by
  constructor
  · rintro ⟨e, he, hname⟩
    exact ⟨e.1, of_mem_pathFor hfor he, hname⟩
  · rintro ⟨k, hk, hname⟩
    obtain ⟨v, -, hmem⟩ := mem_of_pathFor hfor hk
    exact ⟨(k, v), hmem, hname⟩

/-- A key of a class is a key of a class below it, and bound in the paths of the instances of that
one, if and only if the nearest class on the way that declares it anew declares it a key, should
there be any. -/
theorem key_inherited_iff (hchecked : ns.checkClasses own [] ns.classes = .ok ())
    (hacyclic : Acyclic ns.classes) (hc : c ∈ ns.classes) (hd : d ∈ ns.classes)
    (hbelow : DescendsFrom ns.classes c.name d) :
    ∃ way, way ≠ [] ∧ ns.Ascent c d way ∧ ∀ key ∈ ns.keyNames c.name,
      ((∃ k ∈ ns.keyNames d.name, sameName k key = true) ↔
        (countingDeclaration? way key).all PropertyDecl.isKey = true) ∧
      ∀ space x path, sameName x.className d.name = true → ns.pathFor space x = .ok path →
        ((∃ e ∈ path.keys, sameName e.1 key = true) ↔
          (countingDeclaration? way key).all PropertyDecl.isKey = true) := by
  have hvalid := validated_of_checkClasses hchecked
  obtain ⟨way, hne, hway⟩ := (descendsFrom_iff_ascent hc).1 hbelow
  have hcfound := hvalid.class?_eq hc (sameName_refl _)
  have hdfound := hvalid.class?_eq hd (sameName_refl _)
  have hchain : ns.superclassChain d.name = way ++ ns.superclassChain c.name :=
    hvalid.superclassChain_eq hd (hway.ancestry (hvalid.ancestry hacyclic hcfound))
  refine ⟨way, hne, hway, fun key hkey => ?_⟩
  have habove := (exists_mem_keyNames_iff hcfound).1 ⟨key, hkey, sameName_refl key⟩
  have hkept : (∃ k ∈ ns.keyNames d.name, sameName k key = true) ↔
      (countingDeclaration? way key).all PropertyDecl.isKey = true := by
    rw [exists_mem_keyNames_iff hdfound, hchain, countingDeclaration?_append]
    cases countingDeclaration? way key with
    | none => simpa using habove
    | some p => simp
  refine ⟨hkept, fun space x path hclass hfor => ?_⟩
  rw [exists_mem_keys_iff hfor, keyNames_congr (class?_congr hclass), hkept]

/-- A class with two keys. -/
def volume : ClassDecl where
  name := "TST_Volume"
  properties :=
    [{ name := "Pool", qualifiers := .ofList [("Key", .boolean true)] },
      { name := "Name", qualifiers := .ofList [("Key", .boolean true)] }]

/-- Below it one of them is declared anew, without the qualifier. -/
def snapshot : ClassDecl where
  name := "TST_Snapshot"
  superclass := some "tst_volume"
  properties := [{ name := "name" }]

/-- Further below it is declared with the qualifier again. -/
def clone : ClassDecl where
  name := "TST_Clone"
  superclass := some "TST_SNAPSHOT"
  properties := [{ name := "NAME", qualifiers := .ofList [("KEY", .boolean true)] }]

def volumes : Namespace where
  classes := [clone, snapshot, volume]

/-- An instance of one of these classes. -/
def volumeNamed (className name : String) : Instance :=
  ({ className } : Instance).withProperty "Pool" (.text "main") |>.withProperty "Name" (.text name)

theorem volumes_acyclic : Acyclic volumes.classes :=
  (acyclic_iff (by decide +kernel)).2 (by decide +kernel)

theorem volume_above_snapshot : DescendsFrom volumes.classes volume.name snapshot :=
  .direct rfl (by decide +kernel)

theorem snapshot_mem_volumes : snapshot ∈ volumes.classes :=
  List.mem_cons_of_mem _ List.mem_cons_self

theorem volume_mem_volumes : volume ∈ volumes.classes :=
  List.mem_cons_of_mem _ (List.mem_cons_of_mem _ List.mem_cons_self)

/-- The key that the middle class loses is one again for the class below it, and in the paths of
the instances of that one. -/
theorem key_inherited_by_clone :
    (∃ k ∈ volumes.keyNames "TST_Clone", sameName k "Name" = true) ∧
    ∃ path, volumes.pathFor "root" (volumeNamed "tst_clone" "copy") = .ok path ∧
      ∃ e ∈ path.keys, sameName e.1 "Name" = true := by
  have hchecked : volumes.checkClasses "root" [] volumes.classes = .ok () := rfl
  have hbelow : DescendsFrom volumes.classes volume.name clone :=
    .further rfl snapshot_mem_volumes (by decide +kernel) volume_above_snapshot
  obtain ⟨way, -, hway, hkeys⟩ := key_inherited_iff hchecked volumes_acyclic volume_mem_volumes
    List.mem_cons_self hbelow
  have hvalid := validated_of_checkClasses hchecked
  have hknown : volumes.Ascent volume clone [clone, snapshot] :=
    .up rfl snapshot_mem_volumes (by decide +kernel)
      (.up rfl volume_mem_volumes (by decide +kernel) .here)
  obtain rfl := hway.unique hvalid (volumes_acyclic volume volume_mem_volumes) hknown
  obtain ⟨hclass, hpath⟩ := hkeys "Name" (by decide +kernel)
  have hkey : (countingDeclaration? [clone, snapshot] "Name").all PropertyDecl.isKey = true := by
    decide +kernel
  have hname : sameName (volumeNamed "tst_clone" "copy").className clone.name = true := by
    decide +kernel
  exact ⟨hclass.2 hkey, _, rfl, (hpath "root" _ _ hname rfl).2 hkey⟩

/-- The middle class has lost a key of the class above it, and so have the paths of its
instances. -/
theorem key_not_inherited :
    volumes.checkClasses "root" [] volumes.classes = .ok () ∧ Acyclic volumes.classes ∧
    volume ∈ volumes.classes ∧ snapshot ∈ volumes.classes ∧
    DescendsFrom volumes.classes volume.name snapshot ∧
    "Name" ∈ volumes.keyNames volume.name ∧
    (¬ ∃ k ∈ volumes.keyNames snapshot.name, sameName k "Name" = true) ∧
    volumes.pathFor "root" (volumeNamed "TST_Snapshot" "old") =
      .ok ⟨some "root", "TST_Snapshot", [("Pool", .text "main")]⟩ :=
  ⟨rfl, volumes_acyclic, volume_mem_volumes, snapshot_mem_volumes, volume_above_snapshot,
    by decide +kernel, by decide +kernel, rfl⟩

end Namespace

end CimConsole
