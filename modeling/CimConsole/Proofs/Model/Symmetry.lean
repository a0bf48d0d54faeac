import CimConsole.Proofs.Model.KeyNames

/-!
When equality is symmetric. To find the keys of one path in another one is not the same as to find
those of the other one in the first: `a=1,A=1` equals `a=1,B=2`, but not the other way round. Where
no path at any depth has two keys that differ in letter case only, equality does not depend on which
side is on the left, and what equals something equals itself.
-/
namespace CimConsole

open Text Number

/-- No two keys of a path in the value differ in letter case only, at any depth. -/
inductive Value.KeysApart : Value → Prop
  | boolean (b : Bool) : Value.KeysApart (.boolean b)
  | integer (i : Int64) : Value.KeysApart (.integer i)
  | real (r : Binary64) : Value.KeysApart (.real r)
  | text (s : String) : Value.KeysApart (.text s)
  | reference {p : ObjectPath} (own : CaseDistinct p.keys)
      (under : ∀ e ∈ p.keys, Value.KeysApart e.2) : Value.KeysApart (.reference p)
  | array {items : List Value} (each : ∀ v ∈ items, Value.KeysApart v) :
      Value.KeysApart (.array items)

/-- No two keys of the path, or of one in it at any depth, differ in letter case only. -/
structure ObjectPath.KeysApart (p : ObjectPath) : Prop where
  own : CaseDistinct p.keys
  under : ∀ e ∈ p.keys, e.2.KeysApart

theorem Value.keysApart_reference {p : ObjectPath} :
    (Value.reference p).KeysApart ↔ p.KeysApart := by
  constructor
  · rintro (_ | _ | _ | _ | ⟨hown, hunder⟩)
    exact ⟨hown, hunder⟩
  · exact fun h => .reference h.own h.under

theorem Value.keysApart_array {items : List Value} :
    (Value.array items).KeysApart ↔ ∀ v ∈ items, v.KeysApart := by
  constructor
  · rintro (_ | _ | _ | _ | _ | ⟨heach⟩)
    exact heach
  · exact .array

namespace ObjectPath

variable {p q : ObjectPath}

/-- A path equals itself if its values do. -/
theorem same_self_iff (hp : CaseDistinct p.keys) :
    p.same p = true ↔ ∀ e ∈ p.keys, e.2.same e.2 = true := by
  have hown : ∀ e ∈ p.keys, p.key? e.1 = some e.2 := fun e he =>
    Entries.find?_eq_some_of_mem hp he (sameName_refl _)
  constructor
  · intro h e he
    obtain ⟨w, hw, hvalue⟩ := (of_same h).2 e he
    obtain rfl : w = e.2 := Option.some.inj (hw.symm.trans (hown e he))
    exact hvalue
  · intro h
    refine same_iff.2 ⟨agreeingSpaces_self _, sameName_refl _, rfl, fun e he => ?_⟩
    exact ⟨e.2, hown e he, h e he⟩

end ObjectPath

/-- Without such keys equality of values is symmetric. -/
theorem Value.KeysApart.same_comm {v : Value} (hv : v.KeysApart) :
    ∀ {w : Value}, w.KeysApart → v.same w = w.same v := by
  induction hv with
  | boolean b | integer b | text b =>
    intro w _
    cases w <;> simp only [Value.same, Value.isLeftOf]
    exact BEq.comm
  | real r =>
    intro w _
    cases w <;> simp only [Value.same, Value.isLeftOf]
    exact Binary64.same_symm _ _
  | @reference p hown _ ih =>
    intro w hw
    cases w with
    | reference q =>
      obtain ⟨hown', hunder'⟩ := keysApart_reference.1 hw
      -- the values under the keys change sides, so both paths have to have their keys apart
      have hvalues : ∀ e ∈ p.keys, ∀ f ∈ q.keys, e.2.same f.2 = f.2.same e.2 :=
        fun e he f hf => ih e he (hunder' f hf)
      refine Bool.eq_iff_iff.2 ⟨?_, ?_⟩
      · exact ObjectPath.same_symm_of_values hown fun e he f hf h => (hvalues e he f hf).trans h
      · exact ObjectPath.same_symm_of_values hown' fun f hf e he h =>
          (hvalues e he f hf).symm.trans h
    | _ => simp only [Value.same, Value.isLeftOf]
  | @array items _ ih =>
    intro w hw
    cases w with
    | array others => exact areLeftOf_comm fun v hv w hmem => ih v hv (keysApart_array.1 hw w hmem)
    | _ => simp only [Value.same, Value.isLeftOf]

theorem areLeftOf_self_iff {items : List Value} :
    areLeftOf items items = true ↔ ∀ v ∈ items, v.same v = true := by
  induction items with
  | nil => simp [areLeftOf]
  | cons v rest ih => simp [areLeftOf, ih, Value.same]

theorem exists_of_areLeftOf {items others : List Value} (h : areLeftOf items others = true) :
    ∀ v ∈ items, ∃ w ∈ others, v.same w = true := by
  induction items generalizing others with
  | nil => exact fun v hv => absurd hv List.not_mem_nil
  | cons u rest ih =>
    cases others with
    | nil => simp [areLeftOf] at h
    | cons t others =>
      obtain ⟨hhead, htail⟩ := Bool.and_eq_true_iff.1 h
      intro v hv
      rcases List.mem_cons.1 hv with rfl | hv
      · exact ⟨t, List.mem_cons_self, hhead⟩
      · obtain ⟨w, hw, hsame⟩ := ih htail v hv
        exact ⟨w, List.mem_cons_of_mem _ hw, hsame⟩

/-- What equals something equals itself. -/
theorem Value.KeysApart.same_self_of_same {v : Value} (hv : v.KeysApart) :
    ∀ {w : Value}, w.KeysApart → v.same w = true → v.same v = true := by
  induction hv with
  | boolean b | integer b | text b =>
    intro w _ _
    simp [Value.same, Value.isLeftOf]
  | real r =>
    intro w _ h
    cases w with
    | real u =>
      simp only [Value.same, Value.isLeftOf, Binary64.same, Bool.and_eq_true] at h
      simp [Value.same, Value.isLeftOf, Binary64.same_self, h.1.1]
    | _ => simp [Value.same, Value.isLeftOf] at h
  | @reference p hown hunder ih =>
    intro w hw h
    cases w with
    | reference q =>
      refine (ObjectPath.same_self_iff hown).2 fun e he => ?_
      obtain ⟨w, hfound, hvalue⟩ := (ObjectPath.of_same h).2 e he
      obtain ⟨name, hmem⟩ := Entries.mem_of_find? hfound
      have hapart : w.KeysApart := (keysApart_reference.1 hw).under _ hmem
      exact ih e he hapart (((hunder e he).same_comm hapart).trans hvalue)
    | _ => simp [Value.same, Value.isLeftOf] at h
  | @array items _ ih =>
    intro w hw h
    cases w with
    | array others =>
      refine areLeftOf_self_iff.2 fun v hv => ?_
      obtain ⟨u, hu, hsame⟩ := exists_of_areLeftOf h v hv
      exact ih v hv (keysApart_array.1 hw u hu) hsame
    | _ => simp [Value.same, Value.isLeftOf] at h

/-- A value equals itself unless there is a NaN in it. -/
theorem Value.KeysApart.same_self_iff {v : Value} (hv : v.KeysApart) :
    v.same v = true ↔ v.anyReal Binary64.isNaN = false := by
  induction hv with
  | boolean b | integer b | text b => simp [Value.same, Value.isLeftOf, Value.anyReal]
  | real r => simp [Value.same, Value.isLeftOf, Value.anyReal, Binary64.same_self]
  | @reference p hown _ ih =>
    obtain ⟨space, name, keys⟩ := p
    rw [Value.anyReal, ObjectPath.anyReal, anyRealUnder_eq_false]
    exact (ObjectPath.same_self_iff hown).trans (forall₂_congr ih)
  | @array items _ ih =>
    rw [Value.anyReal, anyRealOf_eq_false, Value.same, Value.isLeftOf, areLeftOf_self_iff]
    exact forall₂_congr ih

namespace ObjectPath.KeysApart

variable {p q : ObjectPath}

theorem same_comm (hp : p.KeysApart) (hq : q.KeysApart) : p.same q = q.same p :=
  (Value.keysApart_reference.2 hp).same_comm (Value.keysApart_reference.2 hq)

example :
    (ObjectPath.mk none "C" [("A", .integer 1), ("a", .integer 1)]).same
      ⟨none, "C", [("B", .integer 2), ("a", .integer 1)]⟩ = true ∧
    (ObjectPath.mk none "C" [("B", .integer 2), ("a", .integer 1)]).same
      ⟨none, "C", [("A", .integer 1), ("a", .integer 1)]⟩ = false := by
  decide

theorem same_self_of_same (hp : p.KeysApart) (hq : q.KeysApart) (h : p.same q = true) :
    p.same p = true :=
  (Value.keysApart_reference.2 hp).same_self_of_same (Value.keysApart_reference.2 hq) h

theorem same_self_iff (hp : p.KeysApart) :
    p.same p = true ↔ p.anyReal Binary64.isNaN = false :=
  (Value.keysApart_reference.2 hp).same_self_iff

end ObjectPath.KeysApart

/-- Neither a path nor an array. -/
def Value.isScalar : Value → Bool
  | .boolean _ | .integer _ | .real _ | .text _ => true
  | .reference _ | .array _ => false

theorem Value.keysApart_of_isScalar {v : Value} (h : v.isScalar = true) : v.KeysApart := by
  cases v with
  | boolean b => exact .boolean b
  | integer i => exact .integer i
  | real r => exact .real r
  | text s => exact .text s
  | reference | array => cases h

/-- A scalar equals what equals the same value. -/
theorem Value.same_of_common {v w d : Value} (hscalar : v.isScalar = true)
    (hv : v.same d = true) (hw : w.same d = true) : w.same v = true := by
  cases v with
  | reference | array => cases hscalar
  | boolean a | integer a | text a =>
    cases d <;> cases w <;> simp_all [Value.same, Value.isLeftOf]
  | real a =>
    cases d <;> cases w <;> simp only [Value.same, Value.isLeftOf, Bool.false_eq_true] at hv hw ⊢
    exact Number.Binary64.same_of_common hw hv

namespace ObjectPath

variable {p q r : ObjectPath}

theorem keysApart_of_isScalar (hp : CaseDistinct p.keys)
    (hscalar : ∀ e ∈ p.keys, e.2.isScalar = true) : p.KeysApart :=
  ⟨hp, fun e he => Value.keysApart_of_isScalar (hscalar e he)⟩

/-- A path with scalars for its keys equals another one if a third one equals both. -/
theorem same_of_common (hr : CaseDistinct r.keys) (hp : r.same p = true) (hq : r.same q = true)
    (hspaces : agreeingSpaces p.nameSpace q.nameSpace = true)
    (hscalar : ∀ e ∈ p.keys, e.2.isScalar = true) : p.same q = true := by
  obtain ⟨-, hname, hlength, -⟩ := same_iff.1 hp
  obtain ⟨-, hname', hlength', hfound⟩ := same_iff.1 hq
  refine same_iff.2 ⟨hspaces, sameName_trans (sameName_symm hname) hname',
    hlength.symm.trans hlength', fun f hf => ?_⟩
  -- the partner of a key in the third path leads to a key of the other one
  obtain ⟨e, he, hspelled, hvalue⟩ := exists_partner_of_same hp hr hf
  obtain ⟨w, hw, hvalue'⟩ := hfound e he
  refine ⟨w, ?_, Value.same_of_common (hscalar f hf) hvalue hvalue'⟩
  rw [key?, ← Entries.find?_congr (caseDistinct_of_same hq hr) hspelled]
  exact hw

end ObjectPath

end CimConsole
