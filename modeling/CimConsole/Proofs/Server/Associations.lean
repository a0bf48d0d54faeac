import CimConsole.Proofs.Model.Symmetry
import CimConsole.Proofs.Server.Binding
import CimConsole.Proofs.Server.Reachable

/-!
The instances at the far side of associations. An association joins an instance to those that its
other properties refer to. The join is read with the first property that refers to the instance as
the near one, so what this property itself leads to is found only over another association. It is
put together without repetition by comparing paths, which tells stored instances apart where no
two keys differ in letter case only.
-/
namespace CimConsole

open Text Number

theorem Value.bind_path?_eq_some {v : Option Value} {q : ObjectPath} :
    v.bind Value.path? = some q ↔ v = some (.reference q) := by
  cases v with
  | none => simp
  | some v => cases v <;> simp [Value.path?]

/-- Neither two properties nor two keys in a reference, at any depth, differ in letter case only. -/
structure Instance.NamesApart (x : Instance) : Prop where
  properties : CaseDistinct x.properties.entries
  keys : ∀ e ∈ x.properties.entries, ∀ v, e.2 = some v → v.KeysApart

namespace Namespace

variable {ns : Namespace} {own : String} {x y a : Instance} {p q t : ObjectPath}

/-- The keys of a path are apart if the names in the instance are. -/
theorem keysApart_of_pathFor (h : ns.pathFor own x = .ok p) (hx : x.NamesApart) : p.KeysApart := by
  obtain ⟨-, -, -, -, -, hvalues⟩ := of_pathFor h
  refine ⟨caseDistinct_of_pathFor h, fun e he => ?_⟩
  obtain ⟨name, hmem⟩ := Entries.mem_of_find? (Option.join_eq_some_iff.1 (hvalues e he))
  exact hx.keys _ hmem e.2 rfl

namespace Keyed

theorem keysApart (h : ns.Keyed own) (hx : x ∈ ns.instances) (hapart : x.NamesApart)
    (hp : x.path = some p) : p.KeysApart := by
  obtain ⟨p', hp', hfor⟩ := h.placed x hx
  obtain rfl := Option.some.inj (hp.symm.trans hp')
  exact keysApart_of_pathFor hfor hapart

/-- Stored instances at equal paths are one instance. -/
theorem eq_of_same (h : ns.Keyed own) (hapart : ∀ x ∈ ns.instances, x.NamesApart)
    (hx : x ∈ ns.instances) (hy : y ∈ ns.instances) (hp : x.path = some p) (hq : y.path = some q)
    (hsame : p.same q = true) : x = y := by
  have hforward : ns.instances.Pairwise fun x y => ∀ p q, x.path = some p → y.path = some q →
      p.same q = true → x = y :=
    h.distinct.imp fun hxy p q hp hq hsame => by simp [hxy p q hp hq] at hsame
  have hbackward : ns.instances.Pairwise (flip fun x y => ∀ p q, x.path = some p →
      y.path = some q → p.same q = true → x = y) := by
    -- paths were compared in the order of the instances only; this is the other way round
    refine h.distinct.imp_of_mem fun hx hy hxy p q hp hq hsame => ?_
    have hpapart := h.keysApart hy (hapart _ hy) hp
    rw [hpapart.same_comm (h.keysApart hx (hapart _ hx) hq), hxy q p hq hp] at hsame
    cases hsame
  exact List.Pairwise.forall_of_forall_of_flip (fun _ _ _ _ _ _ _ => rfl) hforward hbackward
    hx hy p q hp hq hsame

end Keyed

/-- A property of the role that refers to the target. -/
structure Near (t : ObjectPath) (role : Option String) (a : Instance)
    (e : String × Option Value) : Prop where
  held : e ∈ a.properties.entries
  role : passes role e.1 = true
  refers : ∃ q, e.2 = some (.reference q) ∧ q.same t = true

section Near

variable {role : Option String} {e : String × Option Value} {name : String}

/-- Whether a property is near. -/
def isNear (t : ObjectPath) (role : Option String) (e : String × Option Value) : Bool :=
  passes role e.1 && (e.2.bind Value.path?).any fun q => q.same t

theorem isNear_iff : isNear t role e = true ↔
    passes role e.1 = true ∧ ∃ q, e.2 = some (.reference q) ∧ q.same t = true := by
  rw [isNear, Bool.and_eq_true, Option.any_eq_true]
  simp only [Value.bind_path?_eq_some]

theorem nearRole?_eq_map :
    nearRole? t role a = (a.properties.entries.find? (isNear t role)).map (·.1) := by
  rw [nearRole?]
  refine congrArg _ (congrFun (congrArg List.find? (funext fun e => ?_)) _)
  rw [isNear]
  cases e.2.bind Value.path? <;> rfl

theorem Near.of_nearRole? (h : nearRole? t role a = some name) : ∃ v, Near t role a (name, v) := by
  rw [nearRole?_eq_map] at h
  obtain ⟨e, hfound, rfl⟩ := Option.map_eq_some_iff.1 h
  obtain ⟨hrole, hrefers⟩ := isNear_iff.1 (List.find?_some hfound)
  exact ⟨e.2, List.mem_of_find?_eq_some hfound, hrole, hrefers⟩

theorem Near.exists_nearRole? (h : Near t role a e) : ∃ name, nearRole? t role a = some name := by
  rw [nearRole?_eq_map]
  cases hfound : a.properties.entries.find? (isNear t role) with
  | none => exact absurd (isNear_iff.2 ⟨h.role, h.refers⟩) (List.find?_eq_none.1 hfound e h.held)
  | some first => exact ⟨first.1, rfl⟩

end Near

/-- No association refers to the target by two properties of the role. -/
def OneNear (ns : Namespace) (t : ObjectPath) (role : Option String) : Prop :=
  ∀ a ∈ ns.instances, ns.isAssociation a.className = true →
    ∀ e e', Near t role a e → Near t role a e' → e = e'

/-- A role that is given names one property. -/
theorem oneNear_of_role (hapart : ∀ x ∈ ns.instances, x.NamesApart) (t : ObjectPath)
    {role : Option String} (hrole : role.isSome = true) : ns.OneNear t role := by
  intro a ha _ e e' he he'
  obtain ⟨wanted, rfl⟩ := Option.isSome_iff_exists.1 hrole
  have hname : sameName wanted e.1 = true := he.role
  have hname' : sameName wanted e'.1 = true := he'.role
  exact (hapart a ha).properties.eq_of_sameName he.held he'.held
    (sameName_trans (sameName_symm hname) hname')

theorem mem_referring {cls role : Option String} {name : String} :
    (a, name) ∈ ns.referring t cls role ↔ a ∈ ns.instances ∧ ns.isAssociation a.className = true ∧
      (∀ c, cls = some c → ns.isWithin a.className c = true) ∧ nearRole? t role a = some name := by
  rw [referring, List.mem_filterMap]
  cases cls <;> simp [and_assoc, and_comm]

end Namespace

namespace Server

variable {ns : Namespace} {f : AssociationFilter} {near : String} {u : Instance}

theorem farInstance?_eq_some {e : String × Option Value} :
    farInstance? ns f near e = some u ↔
      sameName e.1 near = false ∧ passes f.resultRole e.1 = true ∧
      (∃ q, e.2 = some (.reference q) ∧ ns.find? q = some u) ∧
      ∀ c, f.resultClass = some c → ns.isWithin u.className c = true := by
  have hall : ∀ x : Instance, (f.resultClass.all fun c => ns.isWithin x.className c) = true ↔
      ∀ c, f.resultClass = some c → ns.isWithin x.className c = true := by
    intro x
    cases f.resultClass <;> simp
  unfold farInstance?
  split
  · next hskipped =>
    have hno : ¬ (sameName e.1 near = false ∧ passes f.resultRole e.1 = true) := by
      rintro ⟨hdiffer, hrole⟩
      simp [hdiffer, hrole] at hskipped
    simp only [reduceCtorEq, false_iff]
    exact fun h => hno ⟨h.1, h.2.1⟩
  · next hcounts =>
    have hboth : sameName e.1 near = false ∧ passes f.resultRole e.1 = true := by
      simpa using hcounts
    simp only [← Value.bind_path?_eq_some, Option.bind_eq_bind, hboth, true_and]
    constructor
    · intro h
      obtain ⟨q, hq, h⟩ := Option.bind_eq_some_iff.1 h
      obtain ⟨x, hfound, h⟩ := Option.bind_eq_some_iff.1 h
      obtain ⟨hclass, hx⟩ := Option.ite_none_right_eq_some.1 h
      obtain rfl := Option.some.inj hx
      exact ⟨⟨q, hq, hfound⟩, (hall x).1 hclass⟩
    · rintro ⟨⟨q, hq, hfound⟩, hclass⟩
      rw [hq, Option.bind_some, hfound, Option.bind_some, if_pos ((hall u).2 hclass)]

section Once

variable {P : Instance → Prop} {found xs : List Instance} {x : Instance}

/-- Where equal paths are paths of one instance, an instance is added unless it is there. -/
theorem addInstance_cases
    (hsame : ∀ x y, P x → P y → (samePath x.path y.path = true ↔ x = y))
    (hfound : ∀ y ∈ found, P y) (hx : P x) :
    x ∈ found ∧ addInstance found x = found ∨
      x ∉ found ∧ addInstance found x = found ++ [x] := by
  have hany : (found.any fun y => samePath y.path x.path) = true ↔ x ∈ found := by
    rw [List.any_eq_true]
    constructor
    · rintro ⟨y, hy, hpaths⟩
      exact (hsame y x (hfound y hy) hx).1 hpaths ▸ hy
    · exact fun hmem => ⟨x, hmem, (hsame x x hx hx).2 rfl⟩
  by_cases hmem : x ∈ found
  · exact .inl ⟨hmem, by rw [addInstance, if_pos (hany.2 hmem)]⟩
  · exact .inr ⟨hmem, by rw [addInstance, if_neg (mt hany.1 hmem)]⟩

/-- All are added, each once. -/
theorem foldl_addInstance
    (hsame : ∀ x y, P x → P y → (samePath x.path y.path = true ↔ x = y))
    (hxs : ∀ x ∈ xs, P x) (hfound : ∀ y ∈ found, P y) (hnodup : found.Nodup) :
    (xs.foldl addInstance found).Nodup ∧
      ∀ u, u ∈ xs.foldl addInstance found ↔ u ∈ found ∨ u ∈ xs := by
  induction xs generalizing found with
  | nil => simpa using hnodup
  | cons x rest ih =>
    have hx : P x := hxs x List.mem_cons_self
    have hrest : ∀ y ∈ rest, P y := fun y hy => hxs y (List.mem_cons_of_mem _ hy)
    rw [List.foldl_cons]
    rcases addInstance_cases hsame hfound hx with ⟨hmem, hadd⟩ | ⟨hnew, hadd⟩ <;> rw [hadd]
    · obtain ⟨honce, hall⟩ := ih hrest hfound hnodup
      refine ⟨honce, fun u => (hall u).trans ?_⟩
      rw [List.mem_cons]
      refine ⟨Or.imp_right .inr, ?_⟩
      rintro (h | rfl | h)
      exacts [.inl h, .inl hmem, .inr h]
    · have hadded : ∀ y ∈ found ++ [x], P y := by
        intro y hy
        rcases List.mem_append.1 hy with hy | hy
        · exact hfound y hy
        · exact List.mem_singleton.1 hy ▸ hx
      have hfresh : (found ++ [x]).Nodup :=
        List.nodup_append'.2 ⟨hnodup, List.nodup_singleton x, by simpa using hnew⟩
      obtain ⟨honce, hall⟩ := ih hrest hadded hfresh
      refine ⟨honce, fun u => ?_⟩
      rw [hall, List.mem_append, List.mem_singleton, List.mem_cons, or_assoc]

end Once

/-- An association instance joins the target to an instance by two of its properties. -/
structure Joins (ns : Namespace) (t : ObjectPath) (f : AssociationFilter) (a : Instance)
    (near far : String × Option Value) (u : Instance) : Prop where
  stored : a ∈ ns.instances
  association : ns.isAssociation a.className = true
  within : ∀ c, f.associationClass = some c → ns.isWithin a.className c = true
  refers : Namespace.Near t f.role a near
  held : far ∈ a.properties.entries
  differ : sameName far.1 near.1 = false
  resultRole : passes f.resultRole far.1 = true
  leads : ∃ q, far.2 = some (.reference q) ∧ ns.find? q = some u
  resultClass : ∀ c, f.resultClass = some c → ns.isWithin u.className c = true

/-- The instances at the far side of associations, in order and not yet each once. -/
def farInstances (ns : Namespace) (t : ObjectPath) (f : AssociationFilter) : List Instance :=
  (ns.referring t f.associationClass f.role).flatMap fun e =>
    e.1.properties.entries.filterMap (farInstance? ns f e.2)

variable {s : Server} {space own : String} {t : ObjectPath}

theorem Holds.associators_eq (h : s.Holds space own ns) (hfound : (ns.find? t).isSome = true) :
    s.associators space t f = .ok ((farInstances ns t f).foldl addInstance []) := by
  obtain ⟨x, hx⟩ := Option.isSome_iff_exists.1 hfound
  rw [associators, readable_eq_ok.2 ⟨own, h⟩, ok_bind, hx]
  rfl

theorem Holds.associators_eq_error (h : s.Holds space own ns) (hnone : ns.find? t = none) :
    s.associators space t f = .error (noSuchInstance t) := by
  rw [associators, readable_eq_ok.2 ⟨own, h⟩, ok_bind, hnone]

/-- What is at the far side is joined over a property that does not count as the near one. -/
theorem mem_farInstances (hapart : ∀ x ∈ ns.instances, x.NamesApart) :
    u ∈ farInstances ns t f ↔ ∃ a near far, Joins ns t f a near far u ∧
      Namespace.nearRole? t f.role a ≠ some far.1 := by
  constructor
  · intro h
    obtain ⟨⟨a, name⟩, hreferring, h⟩ := List.mem_flatMap.1 h
    obtain ⟨far, hfar, h⟩ := List.mem_filterMap.1 h
    obtain ⟨hstored, hassociation, hwithin, hnear⟩ := Namespace.mem_referring.1 hreferring
    obtain ⟨hdiffer, hrole, hleads, hclass⟩ := farInstance?_eq_some.1 h
    obtain ⟨v, hrefers⟩ := Namespace.Near.of_nearRole? hnear
    refine ⟨a, (name, v), far, ?_, fun hcounts => ?_⟩
    · exact ⟨hstored, hassociation, hwithin, hrefers, hfar, hdiffer, hrole, hleads, hclass⟩
    · obtain rfl : name = far.1 := Option.some.inj (hnear.symm.trans hcounts)
      rw [sameName_refl] at hdiffer
      cases hdiffer
  · rintro ⟨a, near, far, hjoins, hcounts⟩
    obtain ⟨name, hnear⟩ := hjoins.refers.exists_nearRole?
    obtain ⟨v, hrefers⟩ := Namespace.Near.of_nearRole? hnear
    -- the property that counts as near need not be the one of the join, but it is not the far one
    have hdiffer : sameName far.1 name = false := by
      rw [Bool.eq_false_iff]
      intro hsame
      have heq := (hapart a hjoins.stored).properties.eq_of_sameName hjoins.held hrefers.held hsame
      exact hcounts (by rw [hnear, heq])
    refine List.mem_flatMap.2 ⟨(a, name), ?_, List.mem_filterMap.2 ⟨far, hjoins.held, ?_⟩⟩
    · exact Namespace.mem_referring.2 ⟨hjoins.stored, hjoins.association, hjoins.within, hnear⟩
    · exact farInstance?_eq_some.2 ⟨hdiffer, hjoins.resultRole, hjoins.leads, hjoins.resultClass⟩

/-- If no association refers to the target by two properties of the role, this is the full join. -/
theorem joins_counts {a : Instance} {near far : String × Option Value} (hone : ns.OneNear t f.role)
    (h : Joins ns t f a near far u) : Namespace.nearRole? t f.role a ≠ some far.1 := by
  intro hcounts
  obtain ⟨v, hrefers⟩ := Namespace.Near.of_nearRole? hcounts
  have hdiffer := h.differ
  rw [hone a h.stored h.association near _ h.refers hrefers, sameName_refl] at hdiffer
  cases hdiffer

/-- Stored, at a path that equals itself: the instance can be found there. -/
def Findable (ns : Namespace) (u : Instance) : Prop :=
  u ∈ ns.instances ∧ ∃ p, u.path = some p ∧ p.same p = true

/-- What an association leads to can be found under its path. -/
theorem Joins.findable (hkeyed : ns.Keyed own) (hapart : ∀ x ∈ ns.instances, x.NamesApart)
    {a : Instance} {near far : String × Option Value} (h : Joins ns t f a near far u) :
    Findable ns u := by
  obtain ⟨q, hq, hfound⟩ := h.leads
  have hqapart : q.KeysApart :=
    Value.keysApart_reference.1 ((hapart a h.stored).keys far h.held _ hq)
  have hu := List.mem_of_find?_eq_some hfound
  obtain ⟨p, hp, -⟩ := hkeyed.placed u hu
  refine ⟨hu, p, hp, (hkeyed.keysApart hu (hapart u hu) hp).same_self_of_same hqapart ?_⟩
  rw [← Namespace.isAt_of_path hp]
  exact List.find?_some hfound

/-- Their paths tell such instances apart. -/
theorem samePath_iff_of_findable (hkeyed : ns.Keyed own) (hapart : ∀ x ∈ ns.instances, x.NamesApart)
    (x y : Instance) (hx : Findable ns x) (hy : Findable ns y) :
    samePath x.path y.path = true ↔ x = y := by
  obtain ⟨hx, p, hp, hself⟩ := hx
  obtain ⟨hy, q, hq, -⟩ := hy
  rw [hp, hq, samePath]
  constructor
  · exact hkeyed.eq_of_same hapart hx hy hp hq
  · rintro rfl
    obtain rfl := Option.some.inj (hp.symm.trans hq)
    exact hself

/-- A stored path without a NaN has at its far side what is joined to it, each instance once, but
for what is joined over the first property only that refers to it: this one is always taken as the
near one. Where a role is given, or no association refers to the path twice, the join is full. With
a NaN in it a path is not found. -/
theorem associators_join (hs : s.Reachable) (h : s.Holds space own ns)
    (hapart : ∀ x ∈ ns.instances, x.NamesApart) {x : Instance} (hx : x ∈ ns.instances)
    (ht : x.path = some t) (f : AssociationFilter) :
    (t.anyReal Binary64.isNaN = true → s.associators space t f = .error (noSuchInstance t)) ∧
    (t.anyReal Binary64.isNaN = false → ∃ xs, s.associators space t f = .ok xs ∧ xs.Nodup ∧
      (∀ u, u ∈ xs ↔ ∃ a near far, Joins ns t f a near far u ∧
        Namespace.nearRole? t f.role a ≠ some far.1) ∧
      (f.role.isSome = true ∨ ns.OneNear t f.role →
        ∀ u, u ∈ xs ↔ ∃ a near far, Joins ns t f a near far u)) := by
  have hkeyed : ns.Keyed own := hs.keyed.of_holds h
  have htapart : t.KeysApart := hkeyed.keysApart hx (hapart x hx) ht
  constructor
  · intro hreal
    refine h.associators_eq_error (List.find?_eq_none.2 fun y hy => ?_)
    obtain ⟨p, hp, -⟩ := hkeyed.placed y hy
    have hpapart := hkeyed.keysApart hy (hapart y hy) hp
    rw [Namespace.isAt_of_path hp, hpapart.same_comm htapart]
    intro hsame
    rw [htapart.same_self_iff.1 (htapart.same_self_of_same hpapart hsame)] at hreal
    cases hreal
  · intro hreal
    have hfound := hkeyed.find?_path hx ht (htapart.same_self_iff.2 hreal)
    have hfar (u : Instance) : u ∈ farInstances ns t f ↔ ∃ a near far, Joins ns t f a near far u ∧
        Namespace.nearRole? t f.role a ≠ some far.1 := mem_farInstances hapart
    have hfindable : ∀ u ∈ farInstances ns t f, Findable ns u := by
      intro u hu
      obtain ⟨a, near, far, hjoins, -⟩ := (hfar u).1 hu
      exact hjoins.findable hkeyed hapart
    obtain ⟨honce, hall⟩ := foldl_addInstance (samePath_iff_of_findable hkeyed hapart) hfindable
      (fun y hy => absurd hy List.not_mem_nil) List.nodup_nil
    have hcounted u : u ∈ (farInstances ns t f).foldl addInstance [] ↔ ∃ a near far,
        Joins ns t f a near far u ∧ Namespace.nearRole? t f.role a ≠ some far.1 := by
      rw [hall, hfar]
      simp only [List.not_mem_nil, false_or]
    refine ⟨_, h.associators_eq (Option.isSome_iff_exists.2 ⟨x, hfound⟩), honce, hcounted, ?_⟩
    intro hone u
    have hone : ns.OneNear t f.role := hone.elim (Namespace.oneNear_of_role hapart t) id
    rw [hcounted]
    refine exists_congr fun a => exists_congr fun near => exists_congr fun far => ?_
    exact and_iff_left_of_imp (joins_counts hone)

/-- An association class between two disks. -/
def mirrorClass : ClassDecl where
  name := "TST_Mirror"
  properties := { name := "Id", qualifiers := .ofList [("Key", .boolean true)] } ::
    ["Copy", "Source"].map fun name =>
      { name, type := "reference", referenceClass := some "TST_Disk" }
  qualifiers := .ofList [("Association", .boolean true)]

/-- A mirror from a disk to itself. -/
def mirror : Instance where
  className := "TST_Mirror"
  path := some ⟨some "root/cimv2", "TST_Mirror", [("Id", .text "1")]⟩
  properties := .ofList [("Copy", some (.reference (diskPath "sda"))), ("Id", some (.text "1")),
    ("Source", some (.reference (diskPath "sda")))]

theorem entries_mirror : mirror.properties.entries =
    [("Copy", some (.reference (diskPath "sda"))), ("Id", some (.text "1")),
      ("Source", some (.reference (diskPath "sda")))] := rfl

/-- A disk with its mirror. -/
def mirrored : Namespace where
  classes := [diskClass, mirrorClass]
  instances := [{ disk "sda" with path := some (diskPath "sda") }, mirror]

def mirrorServer : Server where
  url := "mock"
  defaultNamespace := "root/cimv2"
  namespaces := [("root/cimv2", mirrored)]

theorem mirrorServer_reachable : mirrorServer.Reachable := by
  have hload : Repository.server { namespaces := .ofList [("root/cimv2", mirrored)] } none "mock" =
      .ok mirrorServer := rfl
  exact reachable_of_repository hload

theorem mirrored_namesApart : ∀ x ∈ mirrored.instances, x.NamesApart := by
  have hpath : (diskPath "sda").KeysApart := by
    refine ⟨by decide, fun e he => ?_⟩
    obtain rfl := List.mem_singleton.1 he
    exact .text "sda"
  intro x hx
  rcases List.mem_cons.1 hx with rfl | hx
  · refine ⟨by decide, fun e he v hv => ?_⟩
    obtain rfl := List.mem_singleton.1 he
    obtain rfl := Option.some.inj hv
    exact .text "sda"
  · obtain rfl := List.mem_singleton.1 hx
    refine ⟨by decide, fun e he v hv => ?_⟩
    simp only [entries_mirror, List.mem_cons, List.not_mem_nil, or_false] at he
    rcases he with rfl | rfl | rfl <;> obtain rfl := Option.some.inj hv
    exacts [Value.keysApart_reference.2 hpath, .text "1", Value.keysApart_reference.2 hpath]

/-- The mirror joins the disk to itself over either property. -/
theorem mirror_joins {f : AssociationFilter} {near far : String}
    (hends : (near, far) = ("Copy", "Source") ∨ (near, far) = ("Source", "Copy"))
    (hassociation : f.associationClass = none) (hrole : passes f.role near = true)
    (hresultRole : passes f.resultRole far = true) (hresult : f.resultClass = none) :
    Joins mirrored (diskPath "sda") f mirror (near, some (.reference (diskPath "sda")))
      (far, some (.reference (diskPath "sda")))
      { disk "sda" with path := some (diskPath "sda") } := by
  constructor
  case stored => exact List.mem_cons_of_mem _ List.mem_cons_self
  case association => rfl
  case within => simp [hassociation]
  case refers =>
    refine ⟨?_, hrole, diskPath "sda", rfl, rfl⟩
    rcases hends with h | h <;> simp [entries_mirror, (Prod.mk.inj h).1]
  case held => rcases hends with h | h <;> simp [entries_mirror, (Prod.mk.inj h).2]
  case differ => rcases hends with h | h <;> obtain ⟨rfl, rfl⟩ := Prod.mk.inj h <;> rfl
  case resultRole => exact hresultRole
  case leads => exact ⟨diskPath "sda", rfl, rfl⟩
  case resultClass => simp [hresult]

/-- With its role given the source leads to the copy, which is the same disk. -/
theorem associators_join_of_mirror :
    ∃ xs, mirrorServer.associators "ROOT/cimv2" (diskPath "sda") { role := some "source" } =
      .ok xs ∧ xs.Nodup ∧ { disk "sda" with path := some (diskPath "sda") } ∈ xs := by
  have hholds : mirrorServer.Holds "ROOT/cimv2" "root/cimv2" mirrored := ⟨rfl, rfl⟩
  obtain ⟨-, hjoin⟩ := associators_join mirrorServer_reachable hholds mirrored_namesApart
    List.mem_cons_self rfl { role := some "source" }
  obtain ⟨xs, hxs, honce, -, hfull⟩ := hjoin rfl
  exact ⟨xs, hxs, honce, (hfull (.inl rfl) _).2
    ⟨mirror, _, _, mirror_joins (.inr rfl) rfl rfl rfl rfl⟩⟩

/-- The disk is joined to itself as the copy of its source, and is not found with this role of the
result: the copy is what counts as near. -/
theorem associators_not_join :
    mirrorServer.Reachable ∧ mirrorServer.Holds "root/cimv2" "root/cimv2" mirrored ∧
    (∀ x ∈ mirrored.instances, x.NamesApart) ∧
    (∃ x ∈ mirrored.instances, x.path = some (diskPath "sda")) ∧
    (∃ a near far u, Joins mirrored (diskPath "sda") { resultRole := some "Copy" } a near far u) ∧
    mirrorServer.associators "root/cimv2" (diskPath "sda") { resultRole := some "Copy" } =
      .ok [] :=
  ⟨mirrorServer_reachable, ⟨rfl, rfl⟩, mirrored_namesApart, ⟨_, List.mem_cons_self, rfl⟩,
    ⟨mirror, _, _, _, mirror_joins (.inr rfl) rfl rfl rfl rfl⟩, rfl⟩

end Server

end CimConsole
