import CimConsole.Proofs.Model.Symmetry
import Mathlib.Data.List.Sort

/-!
When equality of paths is an equivalence. A path is folded by taking the letter case out of its
names and the slashes from around its namespace, at every depth; its keys then stand in the order of
the folded names. If no keys differ in letter case only, there is no real, and every path has a
namespace, then two paths are equal if and only if they are folded to the same path. Without
namespaces equality is still reflexive and symmetric, but a path that has none equals paths of
different namespaces.
-/
namespace CimConsole

open Text Number

mutual

/-- The value with its paths folded. -/
def Value.folded : Value → Value
  | .reference p => .reference p.folded
  | .array items => .array (foldedAll items)
  | v => v

def foldedAll : List Value → List Value
  | [] => []
  | v :: rest => v.folded :: foldedAll rest

def foldedKeys : List (String × Value) → List (String × Value)
  | [] => []
  | (k, v) :: rest => Entries.put (foldCase k) v.folded (foldedKeys rest)

/-- The path without what equality does not look at. -/
def ObjectPath.folded : ObjectPath → ObjectPath
  | ⟨nameSpace, className, keys⟩ =>
    ⟨nameSpace.map fun s => foldCase (trimMark '/' s), foldCase className, foldedKeys keys⟩

end

/-- Every path in the value has a namespace, at any depth. -/
inductive Value.Located : Value → Prop
  | boolean (b : Bool) : Value.Located (.boolean b)
  | integer (i : Int64) : Value.Located (.integer i)
  | real (r : Binary64) : Value.Located (.real r)
  | text (s : String) : Value.Located (.text s)
  | reference {p : ObjectPath} (own : p.nameSpace.isSome = true)
      (under : ∀ e ∈ p.keys, Value.Located e.2) : Value.Located (.reference p)
  | array {items : List Value} (each : ∀ v ∈ items, Value.Located v) :
      Value.Located (.array items)

/-- The path has a namespace, and so has every path in it. -/
structure ObjectPath.Located (p : ObjectPath) : Prop where
  own : p.nameSpace.isSome = true
  under : ∀ e ∈ p.keys, e.2.Located

namespace Entries

variable {α : Type}

/-- Putting a name that is new adds an entry. -/
theorem perm_put {name : String} (v : α) {entries : List (String × α)}
    (hnew : ∀ e ∈ entries, e.1 ≠ name) : (put name v entries).Perm ((name, v) :: entries) := by
  induction entries with
  | nil => exact List.Perm.refl _
  | cons e rest ih =>
    obtain ⟨k, u⟩ := e
    unfold put
    split
    · exact List.Perm.refl _
    split
    · next heq => exact absurd heq.symm (hnew _ List.mem_cons_self)
    · have hrest := ih fun d hd => hnew d (List.mem_cons_of_mem _ hd)
      exact (hrest.cons _).trans (List.Perm.swap _ _ _)

/-- Tables with the same entries are the same. -/
theorem eq_of_perm {xs ys : List (String × α)} (hxs : Ordered xs) (hys : Ordered ys)
    (h : xs.Perm ys) : xs = ys := by
  refine h.eq_of_pairwise (fun a b _ _ hab hba => ?_) hxs hys
  exact absurd (String.lt_trans hab hba) (String.lt_irrefl _)

end Entries

section Folding

variable {keys others : List (String × Value)}

/-- An entry as it stands in a folded path. -/
def foldedEntry (e : String × Value) : String × Value := (foldCase e.1, e.2.folded)

theorem foldedAll_eq_map (items : List Value) : foldedAll items = items.map Value.folded := by
  induction items with
  | nil => rfl
  | cons v rest ih => rw [foldedAll, ih, List.map_cons]

theorem ordered_foldedKeys (keys : List (String × Value)) : Ordered (foldedKeys keys) := by
  induction keys with
  | nil => exact List.Pairwise.nil
  | cons e rest ih => exact Entries.ordered_put _ _ ih

theorem foldedKeys_perm (h : CaseDistinct keys) :
    (foldedKeys keys).Perm (keys.map foldedEntry) := by
  induction keys with
  | nil => exact List.Perm.refl _
  | cons e rest ih =>
    obtain ⟨k, v⟩ := e
    obtain ⟨hk, hrest⟩ := List.nodup_cons.1 h
    have hperm := ih hrest
    refine (Entries.perm_put v.folded fun e he heq => hk ?_).trans (hperm.cons _)
    obtain ⟨d, hd, rfl⟩ := List.mem_map.1 (hperm.mem_iff.1 he)
    exact List.mem_map.2 ⟨d, hd, heq⟩

/-- Keys are folded to the same if they are so one by one, in whatever order they stand. -/
theorem foldedKeys_eq_iff (h : CaseDistinct keys) (h' : CaseDistinct others) :
    foldedKeys keys = foldedKeys others ↔
      (keys.map foldedEntry).Perm (others.map foldedEntry) := by
  constructor
  · intro heq
    exact (foldedKeys_perm h).symm.trans (heq ▸ foldedKeys_perm h')
  · intro hperm
    exact Entries.eq_of_perm (ordered_foldedKeys _) (ordered_foldedKeys _)
      ((foldedKeys_perm h).trans (hperm.trans (foldedKeys_perm h').symm))

end Folding

namespace ObjectPath

variable {p q : ObjectPath}

/-- Paths whose values are compared as they are folded are themselves compared so. -/
theorem same_iff_folded_eq_of_values (hp : CaseDistinct p.keys) (hq : CaseDistinct q.keys)
    (hpspace : p.nameSpace.isSome = true) (hqspace : q.nameSpace.isSome = true)
    (hvalues : ∀ e ∈ p.keys, ∀ f ∈ q.keys, f.2.same e.2 = true ↔ e.2.folded = f.2.folded) :
    p.same q = true ↔ p.folded = q.folded := by
  obtain ⟨pspace, pname, pkeys⟩ := p
  obtain ⟨qspace, qname, qkeys⟩ := q
  obtain ⟨a, rfl⟩ := Option.isSome_iff_exists.1 hpspace
  obtain ⟨b, rfl⟩ := Option.isSome_iff_exists.1 hqspace
  rw [same_iff, folded, folded, ObjectPath.mk.injEq, foldedKeys_eq_iff hp hq]
  simp only [agreeingSpaces, sameName_iff, Option.map_some, Option.some.injEq]
  refine and_congr_right fun _ => and_congr_right fun _ => ?_
  constructor
  · rintro ⟨hlength, hfound⟩
    have hsubset : pkeys.map foldedEntry ⊆ qkeys.map foldedEntry := by
      intro x hx
      obtain ⟨e, he, rfl⟩ := List.mem_map.1 hx
      obtain ⟨w, hw, hvalue⟩ := hfound e he
      obtain ⟨k, hmem, hname⟩ := Entries.exists_mem_of_find? hw
      refine List.mem_map.2 ⟨(k, w), hmem, ?_⟩
      rw [foldedEntry, foldedEntry, (sameName_iff _ _).1 hname, (hvalues e he _ hmem).1 hvalue]
    have hnodup : (pkeys.map foldedEntry).Nodup := by
      refine List.Nodup.of_map Prod.fst ?_
      rw [List.map_map]
      exact hp
    exact (hnodup.subperm hsubset).perm_of_length_le (by simp [hlength])
  · intro hperm
    refine ⟨by simpa using hperm.length_eq, fun e he => ?_⟩
    obtain ⟨f, hf, heq⟩ := List.mem_map.1 (hperm.mem_iff.1 (List.mem_map_of_mem he))
    obtain ⟨hname, hvalue⟩ := Prod.mk.inj heq
    exact ⟨f.2, Entries.find?_eq_some_of_mem hq hf ((sameName_iff _ _).2 hname),
      (hvalues e he f hf).2 hvalue.symm⟩

end ObjectPath

/-- A value that its folded form stands for: keys do not differ in letter case only, there is no
real, and every path has a namespace. -/
structure Value.Foldable (v : Value) : Prop where
  keysApart : v.KeysApart
  noReals : v.anyReal (fun _ => true) = false
  located : v.Located

namespace Value.Foldable

variable {p : ObjectPath} {items : List Value}

theorem under (h : (Value.reference p).Foldable) : ∀ e ∈ p.keys, e.2.Foldable := by
  obtain ⟨hapart, hreals, hlocated⟩ := h
  obtain ⟨space, name, keys⟩ := p
  rw [Value.anyReal, ObjectPath.anyReal, anyRealUnder_eq_false] at hreals
  cases hlocated with
  | reference _ hunder =>
    intro e he
    exact ⟨(Value.keysApart_reference.1 hapart).under e he, hreals e he, hunder e he⟩

theorem each (h : (Value.array items).Foldable) : ∀ v ∈ items, v.Foldable := by
  obtain ⟨hapart, hreals, hlocated⟩ := h
  rw [Value.anyReal, anyRealOf_eq_false] at hreals
  cases hlocated with
  | array heach =>
    exact fun v hv => ⟨Value.keysApart_array.1 hapart v hv, hreals v hv, heach v hv⟩

theorem own (h : (Value.reference p).Foldable) :
    CaseDistinct p.keys ∧ p.nameSpace.isSome = true := by
  obtain ⟨hapart, -, hlocated⟩ := h
  cases hlocated with
  | reference hspace _ => exact ⟨(Value.keysApart_reference.1 hapart).own, hspace⟩

end Value.Foldable

theorem areLeftOf_iff_map_eq {items others : List Value} {f : Value → Value}
    (h : ∀ v ∈ items, ∀ w ∈ others, v.same w = true ↔ f v = f w) :
    areLeftOf items others = true ↔ items.map f = others.map f := by
  induction items generalizing others with
  | nil => cases others <;> simp [areLeftOf]
  | cons v rest ih =>
    cases others with
    | nil => simp [areLeftOf]
    | cons w others =>
      have hhead := h v List.mem_cons_self w List.mem_cons_self
      have htail := ih fun u hu t ht =>
        h u (List.mem_cons_of_mem _ hu) t (List.mem_cons_of_mem _ ht)
      rw [areLeftOf, Bool.and_eq_true, htail, List.map_cons, List.map_cons, List.cons.injEq,
        ← hhead, Value.same]

/-- Such values are equal if and only if they are folded to the same. -/
theorem same_iff_folded_eq :
    (∀ v : Value, ∀ w, v.Foldable → w.Foldable → (v.same w = true ↔ v.folded = w.folded)) ∧
    ∀ p q : ObjectPath, (Value.reference p).Foldable → (Value.reference q).Foldable →
      (p.same q = true ↔ p.folded = q.folded) := by
  apply Value.induction
  case boolean | integer | text =>
    intro a w _ _
    cases w <;> simp [Value.same, Value.isLeftOf, Value.folded]
  case real =>
    intro r w h _
    exact absurd h.noReals (by simp [Value.anyReal])
  case reference =>
    intro p ih w hp hw
    cases w with
    | reference q =>
      simpa [Value.same, ObjectPath.same, Value.isLeftOf, Value.folded] using ih q hp hw
    | _ => simp [Value.same, Value.isLeftOf, Value.folded]
  case array =>
    intro items ih w hitems hw
    cases w with
    | array others =>
      rw [Value.same, Value.isLeftOf, Value.folded, Value.folded, Value.array.injEq,
        foldedAll_eq_map, foldedAll_eq_map]
      exact areLeftOf_iff_map_eq fun v hv w hmem =>
        ih v hv w (hitems.each v hv) (hw.each w hmem)
    | _ => simp [Value.same, Value.isLeftOf, Value.folded]
  case path =>
    intro space name keys ih q hp hq
    obtain ⟨hpkeys, hpspace⟩ := hp.own
    obtain ⟨hqkeys, hqspace⟩ := hq.own
    refine ObjectPath.same_iff_folded_eq_of_values hpkeys hqkeys hpspace hqspace ?_
    intro e he f hf
    rw [← ih e he f.2 (hp.under e he) (hq.under f hf),
      (hq.under f hf).keysApart.same_comm (hp.under e he).keysApart]

/-- No keys differ in letter case only, at any depth, and there is no real. -/
structure ObjectPath.Definite (p : ObjectPath) : Prop where
  keysApart : p.KeysApart
  noReals : p.anyReal (fun _ => true) = false

/-- A value without reals is without those of some kind. -/
theorem anyReal_eq_false_of_noReals (f : Binary64 → Bool) :
    (∀ v : Value, v.anyReal (fun _ => true) = false → v.anyReal f = false) ∧
    ∀ p : ObjectPath, p.anyReal (fun _ => true) = false → p.anyReal f = false := by
  apply Value.induction
  case boolean | integer | text => exact fun _ _ => rfl
  case real => exact fun _ h => absurd h (by simp [Value.anyReal])
  case reference => exact fun p ih h => ih h
  case array =>
    intro items ih h
    rw [Value.anyReal, anyRealOf_eq_false] at h ⊢
    exact fun v hv => ih v hv (h v hv)
  case path =>
    intro space name keys ih h
    rw [ObjectPath.anyReal, anyRealUnder_eq_false] at h ⊢
    exact fun e he => ih e he (h e he)

namespace ObjectPath.Definite

variable {p : ObjectPath}

theorem foldable (h : p.Definite) (hlocated : p.Located) : (Value.reference p).Foldable :=
  ⟨Value.keysApart_reference.2 h.keysApart, h.noReals, .reference hlocated.own hlocated.under⟩

theorem same_self (h : p.Definite) : p.same p = true :=
  h.keysApart.same_self_iff.2 ((anyReal_eq_false_of_noReals _).2 p h.noReals)

end ObjectPath.Definite

/-- Equality of paths without reals and without keys that differ in letter case only is reflexive
and symmetric. Where every path has a namespace it is transitive as well, and it is to be folded to
the same path. -/
theorem ObjectPath.same_equivalence :
    (∀ p : ObjectPath, p.Definite → p.same p = true) ∧
    (∀ p q : ObjectPath, p.Definite → q.Definite → p.same q = q.same p) ∧
    (∀ p q r : ObjectPath, p.Definite → q.Definite → r.Definite →
      p.Located → q.Located → r.Located →
      p.same q = true → q.same r = true → p.same r = true) ∧
    ∀ p q : ObjectPath, p.Definite → q.Definite → p.Located → q.Located →
      (p.same q = true ↔ p.folded = q.folded) := by
  have hfolded : ∀ p q : ObjectPath, p.Definite → q.Definite → p.Located → q.Located →
      (p.same q = true ↔ p.folded = q.folded) := fun p q hp hq hp' hq' =>
    same_iff_folded_eq.2 p q (hp.foldable hp') (hq.foldable hq')
  refine ⟨fun p hp => hp.same_self, fun p q hp hq => hp.keysApart.same_comm hq.keysApart, ?_,
    hfolded⟩
  intro p q r hp hq hr hp' hq' hr' hpq hqr
  rw [hfolded p q hp hq hp' hq'] at hpq
  rw [hfolded q r hq hr hq' hr'] at hqr
  exact (hfolded p r hp hr hp' hr').2 (hpq.trans hqr)

/-- A path with a reference and an array among its keys, in three spellings: the keys stand in
another order where their letters are small. -/
theorem ObjectPath.same_equivalence_of_link :
    let target (space name key : String) : ObjectPath := ⟨some space, name, [(key, .text "main")]⟩
    let p : ObjectPath := ⟨some "/Root/Cimv2/", "TST_Link",
      [("TAGS", .array [.text "a", .integer 3]),
        ("from", .reference (target "root/cimv2" "TST_Pool" "Name"))]⟩
    let q : ObjectPath := ⟨some "root/CIMV2", "tst_link",
      [("From", .reference (target "/ROOT/cimv2" "tst_pool" "NAME")),
        ("tags", .array [.text "a", .integer 3])]⟩
    let r : ObjectPath := ⟨some "root/cimv2/", "Tst_Link",
      [("Tags", .array [.text "a", .integer 3]),
        ("from", .reference (target "Root/Cimv2/" "TST_Pool" "name"))]⟩
    (p.Definite ∧ q.Definite ∧ r.Definite) ∧ (p.Located ∧ q.Located ∧ r.Located) ∧
      p.same p = true ∧ p.same q = q.same p ∧ p.same q = true ∧ q.same r = true ∧
      p.same r = true ∧ p.folded = q.folded := by
  intro target p q r
  have htarget (space name key : String) : (target space name key).KeysApart ∧
      (target space name key).Located :=
    ⟨⟨List.nodup_singleton _, by simpa [target] using .text _⟩,
      ⟨rfl, by simpa [target] using .text _⟩⟩
  have htags : (Value.array [.text "a", .integer 3]).KeysApart ∧
      (Value.array [.text "a", .integer 3]).Located :=
    ⟨.array (by simpa using ⟨.text _, .integer _⟩), .array (by simpa using ⟨.text _, .integer _⟩)⟩
  have href (space name key : String) : (Value.reference (target space name key)).KeysApart ∧
      (Value.reference (target space name key)).Located :=
    ⟨Value.keysApart_reference.2 (htarget space name key).1,
      .reference (htarget space name key).2.own (htarget space name key).2.under⟩
  have hp : p.Definite :=
    ⟨⟨by decide, by simpa [p] using ⟨htags.1, (href _ _ _).1⟩⟩, by decide⟩
  have hq : q.Definite :=
    ⟨⟨by decide, by simpa [q] using ⟨(href _ _ _).1, htags.1⟩⟩, by decide⟩
  have hr : r.Definite :=
    ⟨⟨by decide, by simpa [r] using ⟨htags.1, (href _ _ _).1⟩⟩, by decide⟩
  have hp' : p.Located := ⟨rfl, by simpa [p] using ⟨htags.2, (href _ _ _).2⟩⟩
  have hq' : q.Located := ⟨rfl, by simpa [q] using ⟨(href _ _ _).2, htags.2⟩⟩
  have hr' : r.Located := ⟨rfl, by simpa [r] using ⟨htags.2, (href _ _ _).2⟩⟩
  obtain ⟨hself, hcomm, htrans, hfolded⟩ := same_equivalence
  have hpq : p.same q = true := by decide +kernel
  have hqr : q.same r = true := by decide +kernel
  exact ⟨⟨hp, hq, hr⟩, ⟨hp', hq', hr'⟩, hself p hp, hcomm p q hp hq, hpq, hqr,
    htrans p q r hp hq hr hp' hq' hr' hpq hqr, (hfolded p q hp hq hp' hq').1 hpq⟩

example :
    (ObjectPath.mk (some "root/a") "C" []).same ⟨none, "C", []⟩ = true ∧
    (ObjectPath.mk none "C" []).same ⟨some "root/b", "C", []⟩ = true ∧
    (ObjectPath.mk (some "root/a") "C" []).same ⟨some "root/b", "C", []⟩ = false := by
  decide

end CimConsole
