import CimConsole.Proofs.Model.Equality
import Mathlib.Data.List.Nodup
import Mathlib.Data.List.Perm.Subperm

/-!
Keys of equal paths. Keys are looked up whatever their letter case, so two keys whose names
differ in nothing else can stand in each other's place. If the left one of two equal paths has
no two such keys, then neither has the right one, and both have the same texts under the same
names. Equality is not transitive in general; it is if the last path has values that equal nothing
but themselves.
-/
namespace CimConsole

open Text

/-- No two names differ in letter case only. -/
def CaseDistinct {α : Type} (entries : List (String × α)) : Prop :=
  (entries.map fun e => foldCase e.1).Nodup

instance {α : Type} (entries : List (String × α)) : Decidable (CaseDistinct entries) :=
  inferInstanceAs (Decidable (List.Nodup _))

namespace CaseDistinct

variable {α : Type} {entries : List (String × α)}

theorem eq_of_sameName (h : CaseDistinct entries) {a b : String × α} (ha : a ∈ entries)
    (hb : b ∈ entries) (hname : sameName a.1 b.1 = true) : a = b :=
  List.inj_on_of_nodup_map h ha hb ((sameName_iff _ _).1 hname)

end CaseDistinct

namespace Entries

variable {α : Type} {name : String} {v : α} {entries : List (String × α)}

/-- What is found under a name stands under it up to letter case. -/
theorem exists_mem_of_find? (h : find? name entries = some v) :
    ∃ k, (k, v) ∈ entries ∧ sameName k name = true := by
  unfold find? at h
  cases hlookup : entries.lookup name with
  | some w =>
    obtain rfl : w = v := by simpa [hlookup] using h
    obtain ⟨before, after, hsplit, -⟩ := List.lookup_eq_some_iff.1 hlookup
    exact ⟨name, by simp [hsplit], sameName_refl name⟩
  | none =>
    rw [hlookup, Option.none_or, Option.map_eq_some_iff] at h
    obtain ⟨⟨k, w⟩, hfound, rfl⟩ := h
    exact ⟨k, List.mem_of_find?_eq_some hfound, by simpa using List.find?_some hfound⟩

theorem exists_find?_of_mem {k : String} (hmem : (k, v) ∈ entries) (hname : sameName k name = true) :
    ∃ w, find? name entries = some w := by
  cases hfound : find? name entries with
  | some w => exact ⟨w, rfl⟩
  | none =>
    have hnone := (Option.or_eq_none_iff.1 hfound).2
    rw [Option.map_eq_none_iff, List.find?_eq_none] at hnone
    exact absurd hname (hnone (k, v) hmem)

/-- Without such names a value is found under every spelling of its name. -/
theorem find?_eq_some_of_mem (h : CaseDistinct entries) {k : String} (hmem : (k, v) ∈ entries)
    (hname : sameName k name = true) : find? name entries = some v := by
  obtain ⟨w, hw⟩ := exists_find?_of_mem hmem hname
  obtain ⟨k', hmem', hname'⟩ := exists_mem_of_find? hw
  have heq := h.eq_of_sameName hmem' hmem (sameName_trans hname' (sameName_symm hname))
  rw [hw, (Prod.mk.inj heq).2]

/-- Without such names all spellings of a name find the same. -/
theorem find?_congr (h : CaseDistinct entries) {a b : String} (hname : sameName a b = true) :
    find? a entries = find? b entries := by
  have hto : ∀ {a b : String}, sameName a b = true → ∀ v, find? a entries = some v →
      find? b entries = some v := by
    intro a b hname v hfound
    obtain ⟨k, hmem, hk⟩ := exists_mem_of_find? hfound
    exact find?_eq_some_of_mem h hmem (sameName_trans hk hname)
  exact Option.ext fun v => ⟨hto hname v, hto (sameName_symm hname) v⟩

theorem caseDistinct_of_ordered (ho : Ordered entries)
    (h : ∀ a ∈ entries, ∀ b ∈ entries, sameName a.1 b.1 = true → a.1 = b.1) :
    CaseDistinct entries := by
  have hnodup : entries.Nodup := by
    refine List.Pairwise.imp (fun {a b} hlt => ?_) ho
    rintro rfl
    exact String.lt_irrefl _ hlt
  refine List.Nodup.map_on ?_ hnodup
  rintro ⟨k, v⟩ ha ⟨k', w⟩ hb hfolded
  obtain rfl : k = k' := h _ ha _ hb ((sameName_iff _ _).2 hfolded)
  obtain rfl : v = w := Option.some.inj ((find?_of_mem ho ha).symm.trans (find?_of_mem ho hb))
  rfl

/-- Putting a value under the spelling that is there, if one is, brings no second one in. -/
theorem caseDistinct_put (ho : Ordered entries) (h : CaseDistinct entries) (v : α)
    (hnew : ∀ e ∈ entries, sameName e.1 name = true → e.1 = name) :
    CaseDistinct (put name v entries) := by
  refine caseDistinct_of_ordered (ordered_put name v ho) ?_
  rintro ⟨k, u⟩ ha ⟨k', w⟩ hb hname
  rcases mem_put ha with heq | hold <;> rcases mem_put hb with heq' | hold'
  · exact congrArg Prod.fst (heq.trans heq'.symm)
  · obtain ⟨rfl, rfl⟩ := Prod.mk.inj heq
    exact (hnew _ hold' (sameName_symm hname)).symm
  · obtain ⟨rfl, rfl⟩ := Prod.mk.inj heq'
    exact hnew _ hold hname
  · exact congrArg Prod.fst (h.eq_of_sameName hold hold' hname)

end Entries

namespace ObjectPath

variable {p q : ObjectPath}

theorem same_iff : p.same q = true ↔
    agreeingSpaces p.nameSpace q.nameSpace = true ∧ sameName p.className q.className = true ∧
      p.keys.length = q.keys.length ∧
      ∀ e ∈ p.keys, ∃ w, q.key? e.1 = some w ∧ w.same e.2 = true := by
  obtain ⟨space, name, keys⟩ := p
  rw [same, isLeftOf, keysFoundIn_eq_all]
  simp only [Bool.and_eq_true, beq_iff_eq, List.all_eq_true, and_assoc]
  refine and_congr_right' (and_congr_right' (and_congr_right' ?_))
  refine forall₂_congr fun e _ => ?_
  rw [key?]
  cases Entries.find? e.1 q.keys with
  | none => simp
  | some w => simp [Value.isRightOf_eq, Value.same]

/-- Equal paths have as many keys, and every key of the left one is found in the right one with
an equal value. -/
theorem of_same (h : p.same q = true) :
    p.keys.length = q.keys.length ∧
      ∀ e ∈ p.keys, ∃ w, q.key? e.1 = some w ∧ w.same e.2 = true :=
  (same_iff.1 h).2.2

/-- The names of the keys are the same up to letter case and order. -/
theorem perm_of_same (h : p.same q = true) (hp : CaseDistinct p.keys) :
    (p.keys.map fun e => foldCase e.1).Perm (q.keys.map fun e => foldCase e.1) := by
  obtain ⟨hlength, hfound⟩ := of_same h
  have hsubset : (p.keys.map fun e => foldCase e.1) ⊆ q.keys.map fun e => foldCase e.1 := by
    intro folded hfolded
    obtain ⟨e, he, rfl⟩ := List.mem_map.1 hfolded
    obtain ⟨w, hw, -⟩ := hfound e he
    obtain ⟨k, hmem, hname⟩ := Entries.exists_mem_of_find? hw
    exact List.mem_map.2 ⟨(k, w), hmem, (sameName_iff _ _).1 hname⟩
  exact (hp.subperm hsubset).perm_of_length_le (by simp [hlength])

theorem caseDistinct_of_same (h : p.same q = true) (hp : CaseDistinct p.keys) :
    CaseDistinct q.keys :=
  (perm_of_same h hp).nodup hp

/-- A key of the right path has its partner in the left one, with a value that it equals. -/
theorem exists_partner_of_same (h : p.same q = true) (hp : CaseDistinct p.keys)
    {f : String × Value} (hf : f ∈ q.keys) :
    ∃ e ∈ p.keys, sameName e.1 f.1 = true ∧ f.2.same e.2 = true := by
  have hfolded : foldCase f.1 ∈ p.keys.map fun e => foldCase e.1 :=
    (perm_of_same h hp).mem_iff.2 (List.mem_map.2 ⟨_, hf, rfl⟩)
  obtain ⟨e, he, hname⟩ := List.mem_map.1 hfolded
  have hsame : sameName e.1 f.1 = true := (sameName_iff _ _).2 hname
  obtain ⟨w, hw, hvalue⟩ := (of_same h).2 e he
  have hfound := Entries.find?_eq_some_of_mem (caseDistinct_of_same h hp) hf (sameName_symm hsame)
  obtain rfl : w = f.2 := Option.some.inj (hw.symm.trans hfound)
  exact ⟨e, he, hsame, hvalue⟩

/-- Without keys that differ in letter case only, paths of one class are equal if every key of the
left one has a partner with an equal value and every key of the right one is such a partner. -/
theorem same_of_partners (hp : CaseDistinct p.keys) (hq : CaseDistinct q.keys)
    (hspace : agreeingSpaces p.nameSpace q.nameSpace = true)
    (hname : sameName p.className q.className = true)
    (hleft : ∀ e ∈ p.keys, ∃ f ∈ q.keys, sameName f.1 e.1 = true ∧ f.2.same e.2 = true)
    (hright : ∀ f ∈ q.keys, ∃ e ∈ p.keys, sameName e.1 f.1 = true) : p.same q = true := by
  have hperm : (p.keys.map fun e => foldCase e.1).Perm (q.keys.map fun e => foldCase e.1) := by
    refine (List.perm_ext_iff_of_nodup hp hq).2 fun folded => ?_
    simp only [List.mem_map]
    constructor
    · rintro ⟨e, he, rfl⟩
      obtain ⟨f, hf, hsame, -⟩ := hleft e he
      exact ⟨f, hf, (sameName_iff _ _).1 hsame⟩
    · rintro ⟨f, hf, rfl⟩
      obtain ⟨e, he, hsame⟩ := hright f hf
      exact ⟨e, he, (sameName_iff _ _).1 hsame⟩
  refine same_iff.2 ⟨hspace, hname, by simpa using hperm.length_eq, fun e he => ?_⟩
  obtain ⟨f, hf, hsame, hvalue⟩ := hleft e he
  exact ⟨f.2, Entries.find?_eq_some_of_mem hq hf hsame, hvalue⟩

/-- Equality of paths is as symmetric as that of their values. -/
theorem same_symm_of_values (hp : CaseDistinct p.keys)
    (hvalues : ∀ e ∈ p.keys, ∀ f ∈ q.keys, f.2.same e.2 = true → e.2.same f.2 = true)
    (h : p.same q = true) : q.same p = true := by
  obtain ⟨hspace, hname, hlength, -⟩ := same_iff.1 h
  refine same_iff.2 ⟨?_, sameName_symm hname, hlength.symm, fun f hf => ?_⟩
  · rw [agreeingSpaces_symm, hspace]
  · obtain ⟨e, he, hsame, hvalue⟩ := exists_partner_of_same h hp hf
    exact ⟨e.2, Entries.find?_eq_some_of_mem hp he hsame, hvalues e he f hf hvalue⟩

/-- A text under a key of the right path is found in the left one. -/
theorem key?_of_same (h : p.same q = true) (hp : CaseDistinct p.keys) {k name text : String}
    (hmem : (k, .text text) ∈ q.keys) (hname : sameName k name = true) :
    p.key? name = some (.text text) := by
  obtain ⟨⟨k', v⟩, hmem', hsame, hvalue⟩ := exists_partner_of_same h hp hmem
  cases v with
  | text s =>
    obtain rfl : text = s := by simpa [Value.same, Value.isLeftOf] using hvalue
    exact Entries.find?_eq_some_of_mem hp hmem' (sameName_trans hsame hname)
  | _ => simp [Value.same, Value.isLeftOf] at hvalue

end ObjectPath

/-- A value that equals nothing but itself. Reals are not all such, nor are paths. -/
def Value.Exact (v : Value) : Prop := ∀ w, v.same w = true → v = w

/-- Values without reals and paths at any depth. -/
inductive Value.Flat : Value → Prop
  | boolean (b : Bool) : Value.Flat (.boolean b)
  | integer (i : Int64) : Value.Flat (.integer i)
  | text (s : String) : Value.Flat (.text s)
  | array {items : List Value} (each : ∀ v ∈ items, Value.Flat v) : Value.Flat (.array items)

/-- A flat value equals nothing but itself. -/
theorem Value.Flat.exact {v : Value} (h : v.Flat) : v.Exact := by
  induction h with
  | boolean b | integer b | text b =>
    intro w
    cases w <;> simp [Value.same, Value.isLeftOf]
  | @array items heach ih =>
    have hitems : ∀ others, areLeftOf items others = true → items = others := by
      induction items with
      | nil => intro others; cases others <;> simp [areLeftOf]
      | cons v rest ihrest =>
        intro others hsame
        cases others with
        | nil => simp [areLeftOf] at hsame
        | cons w others =>
          obtain ⟨hhead, htail⟩ := Bool.and_eq_true_iff.1 hsame
          have hrest := ihrest (fun u hu => heach u (List.mem_cons_of_mem _ hu))
            (fun u hu => ih u (List.mem_cons_of_mem _ hu)) others htail
          rw [ih v List.mem_cons_self w hhead, hrest]
    intro w hsame
    cases w with
    | array others => rw [hitems others hsame]
    | _ => simp [Value.same, Value.isLeftOf] at hsame

theorem areLeftOf_comm {items others : List Value}
    (h : ∀ v ∈ items, ∀ w ∈ others, v.isLeftOf w = w.isLeftOf v) :
    areLeftOf items others = areLeftOf others items := by
  induction items generalizing others with
  | nil => cases others <;> rfl
  | cons v rest ih =>
    cases others with
    | nil => rfl
    | cons w others =>
      rw [areLeftOf, areLeftOf, h v List.mem_cons_self w List.mem_cons_self,
        ih fun u hu t ht => h u (List.mem_cons_of_mem _ hu) t (List.mem_cons_of_mem _ ht)]

/-- Equality with a flat value does not depend on which one is on the left. -/
theorem Value.Flat.same_comm {v : Value} (h : v.Flat) : ∀ w : Value, w.same v = v.same w := by
  induction h with
  | boolean b | integer b | text b =>
    intro w
    cases w <;> simp only [Value.same, Value.isLeftOf]
    exact BEq.comm
  | @array items heach ih =>
    intro w
    cases w with
    | array others => exact (areLeftOf_comm fun v hv w _ => (ih v hv w).symm).symm
    | _ => simp only [Value.same, Value.isLeftOf]

theorem Value.Flat.path?_eq_none {v : Value} (h : v.Flat) : v.path? = none := by
  cases h <;> rfl

/-- Equality goes on from path to path if the last one has exact values, and the same value under
all spellings of a name. -/
theorem ObjectPath.same_trans {p q r : ObjectPath} (hpq : p.same q = true) (hqr : q.same r = true)
    (hspaces : agreeingSpaces p.nameSpace r.nameSpace = true) (hexact : ∀ e ∈ r.keys, e.2.Exact)
    (hspelled : ∀ a b v, sameName a b = true → r.key? a = some v → r.key? b = some v) :
    p.same r = true := by
  obtain ⟨-, hname, hlength, hfound⟩ := same_iff.1 hpq
  obtain ⟨-, hname', hlength', hfound'⟩ := same_iff.1 hqr
  refine same_iff.2 ⟨hspaces, sameName_trans hname hname', hlength.trans hlength', ?_⟩
  intro e he
  obtain ⟨v, hv, hvalue⟩ := hfound e he
  obtain ⟨k, hmem, hk⟩ := Entries.exists_mem_of_find? hv
  obtain ⟨w, hw, hvalue'⟩ := hfound' _ hmem
  obtain ⟨k', hmem', -⟩ := Entries.exists_mem_of_find? hw
  obtain rfl : w = v := hexact _ hmem' v hvalue'
  exact ⟨w, hspelled k e.1 w hk hw, hvalue⟩

end CimConsole
