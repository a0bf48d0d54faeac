import CimConsole.Proofs.Command.KeyTexts
import CimConsole.Proofs.Model.PathText
import CimConsole.Proofs.Text.Lists

/-!
Values given as text against values shown as text. A value that is shown reads back with its type: a
whole number of the type's range, a truth value, a text, a reference to a path that can be written,
and a list of such values that stand in a comma list. A whole number is read from the decimal texts
of the range and from no others.
-/
namespace CimConsole

open Text Number

/-- The whole numbers that have a type, by their bits. -/
inductive IntegerSize where
  | one
  | two
  | four
  | eight
deriving DecidableEq

def IntegerSize.bits : IntegerSize → Nat
  | .one => 8
  | .two => 16
  | .four => 32
  | .eight => 64

structure IntegerType where
  signed : Bool
  size : IntegerSize
deriving DecidableEq

namespace IntegerType

def name (t : IntegerType) : String :=
  (if t.signed then "sint" else "uint") ++ toString t.size.bits

def least (t : IntegerType) : Int := if t.signed then -(Int.pow 2 (t.size.bits - 1)) else 0

/-- The greatest number of a type. A value has 64 bits with a sign, so no number is greater. -/
def greatest (t : IntegerType) : Int :=
  if t.signed then Int.pow 2 (t.size.bits - 1) - 1
  else min (Int.pow 2 t.size.bits - 1) (Int.pow 2 63 - 1)

theorem integerRange?_name (t : IntegerType) :
    integerRange? t.name = some (t.least, t.greatest) := by
  obtain ⟨signed, size⟩ := t
  cases signed <;> cases size <;> decide +kernel

/-- There are no other ranges than those of the types. -/
theorem exists_of_integerRange? {name : String} {range : Int × Int}
    (h : integerRange? name = some range) : ∃ t : IntegerType, name = t.name := by
  unfold integerRange? at h
  split at h
  case h_1 => exact ⟨⟨false, .one⟩, rfl⟩
  case h_2 => exact ⟨⟨false, .two⟩, rfl⟩
  case h_3 => exact ⟨⟨false, .four⟩, rfl⟩
  case h_4 => exact ⟨⟨false, .eight⟩, rfl⟩
  case h_5 => exact ⟨⟨true, .one⟩, rfl⟩
  case h_6 => exact ⟨⟨true, .two⟩, rfl⟩
  case h_7 => exact ⟨⟨true, .four⟩, rfl⟩
  case h_8 => exact ⟨⟨true, .eight⟩, rfl⟩
  case h_9 => cases h

end IntegerType

/-- A type whose values are kept as their text. -/
def IsTextType (type : String) : Prop :=
  (∀ t : IntegerType, foldCase type ≠ t.name) ∧
    foldCase type ∉ ["boolean", "real32", "real64", "reference"]

namespace Value

/-- The single values of a type that have a text. -/
inductive OfType (type : String) : Value → Prop where
  | integer {t : IntegerType} (htype : foldCase type = t.name) {i : Int64} (hlow : t.least ≤ i.toInt)
      (hhigh : i.toInt ≤ t.greatest) : OfType type (.integer i)
  | boolean (htype : foldCase type = "boolean") (b : Bool) : OfType type (.boolean b)
  | text (htype : IsTextType type) (s : String) : OfType type (.text s)
  | reference (htype : foldCase type = "reference") {p : ObjectPath} (hp : p.Writable) :
      OfType type (.reference p)

/-- The values whose text can stand in a comma list. -/
def IsListed : Value → Prop
  | .boolean _ | .integer _ => True
  | .text s => IsListItem s
  | .real _ | .reference _ | .array _ => False

section Integers

variable {type raw : String} {v : Value}

theorem readScalar_integer {t : IntegerType} (htype : foldCase type = t.name) (raw : String) :
    readScalar raw type = readInteger raw type t.least t.greatest := by
  rw [readScalar, htype, t.integerRange?_name]

/-- A whole number is read from the texts that stand for a number of the range, and is that number. -/
theorem readScalar_integer_iff {t : IntegerType} (htype : foldCase type = t.name) :
    readScalar raw type = .ok v ↔ ∃ n, IsDecimal (trim raw).toList n ∧ t.least ≤ n ∧
      n ≤ t.greatest ∧ ∃ i : Int64, v = .integer i ∧ i.toInt = n := by
  obtain ⟨hlow, hhigh⟩ := range_of_integerRange? t.integerRange?_name
  have hpow : (Nat.pow 2 63 : Nat) = (9223372036854775808 : Int) := rfl
  have hwide : (Nat.pow 2 127 : Nat) = (170141183460469231731687303715884105728 : Int) := rfl
  have hread := fun n : Int =>
    @readSigned_eq_ok_iff (Nat.pow 2 127) (by decide) (trim raw).toList n
  have hexact : ∀ n, t.least ≤ n → n ≤ t.greatest → (Int64.ofInt n).toInt = n :=
    fun n hleast hgreatest => Int64.toInt_ofInt_of_le (by omega) (by omega)
  rw [readScalar_integer htype]
  constructor
  · intro h
    obtain ⟨n, hn, hleast, hgreatest, rfl⟩ := of_readInteger h
    exact ⟨n, ((hread n).1 hn).1, hleast, hgreatest, _, rfl, hexact n hleast hgreatest⟩
  · rintro ⟨n, hn, hleast, hgreatest, i, rfl, rfl⟩
    rw [readInteger, (hread _).2 ⟨hn, by omega, by omega⟩]
    dsimp only
    rw [if_neg (by omega), Int64.ofInt_toInt]

end Integers

section Texts

variable {type : String} {v : Value}

/-- Every number has a decimal text, the one that it is shown with. -/
theorem isDecimal_toString (i : Int) : IsDecimal (toString i).toList i := by
  have hbound : 0 < i.natAbs + 1 := Nat.succ_pos _
  exact ((readSigned_eq_ok_iff hbound).1 (readSigned_decimal (by omega) (by omega))).1

theorem isListItem_integer (i : Int64) : IsListItem (Value.integer i).display := by
  refine isListItem_of_all (fun hempty => ?_) fun c hc => ?_
  · obtain ⟨digits, hne, -, ⟨hcs | hcs, -⟩ | ⟨hcs, -⟩⟩ := isDecimal_toString i.toInt
    all_goals
      rw [show toString i.toInt = "" from hempty] at hcs
    · cases hcs
    · exact hne hcs.symm
    · cases hcs
  · obtain ⟨hcomma, -, hblank⟩ := ObjectPath.unquoted_keyText (ObjectPath.word_integer i) c hc
    exact ⟨hcomma, hblank⟩

theorem isListItem_display (hv : v.OfType type) (hlisted : v.IsListed) : IsListItem v.display := by
  cases hv with
  | integer => exact isListItem_integer _
  | boolean _ b => cases b <;> exact ⟨by decide, by decide, by decide⟩
  | text => exact hlisted
  | reference => exact hlisted.elim

theorem readScalar_text (htype : IsTextType type) (raw : String) :
    readScalar raw type = .ok (.text raw) := by
  obtain ⟨hinteger, hother⟩ := htype
  have hrange : integerRange? (foldCase type) = none := by
    cases hrange : integerRange? (foldCase type) with
    | none => rfl
    | some range =>
      obtain ⟨t, ht⟩ := IntegerType.exists_of_integerRange? hrange
      exact absurd ht (hinteger t)
  simp only [List.mem_cons, List.not_mem_nil, or_false, not_or] at hother
  rw [readScalar, hrange]
  split
  · next h => cases h
  · split
    · next h => exact absurd h hother.1
    · next h => exact absurd h hother.2.1
    · next h => exact absurd h hother.2.2.1
    · next h => exact absurd h hother.2.2.2
    · rfl

theorem readScalar_reference (htype : foldCase type = "reference") {p : ObjectPath}
    (hp : p.Writable) : readScalar p.display type = .ok (.reference (p.mapSpaces bareSpace)) := by
  have htrim : trim p.display = p.display := by
    rw [trim, ObjectPath.dropBothWhile_display hp, String.ofList_toList]
  have hrange : integerRange? "reference" = none := rfl
  rw [readScalar, htype, hrange]
  simp only [htrim, ObjectPath.read_display_bare hp]

/-- A value is read from its text as it is, but for the slashes in front of namespaces. -/
theorem readScalar_display (hv : v.OfType type) :
    readScalar v.display type = .ok (v.mapSpaces bareSpace) := by
  cases hv with
  | @integer t htype i hlow hhigh =>
    refine (readScalar_integer_iff htype).2 ⟨i.toInt, ?_, hlow, hhigh, i, rfl, rfl⟩
    rw [(isListItem_integer i).2.2]
    exact isDecimal_toString i.toInt
  | boolean htype b =>
    have hspelled : (Value.boolean b).display ∈ spellingsOf b := by cases b <;> decide
    exact readScalar_of_mem_spellingsOf htype hspelled
  | text htype s => exact readScalar_text htype s
  | reference htype hp => exact readScalar_reference htype hp

theorem displayAll_eq_map (items : List Value) : displayAll items = items.map display := by
  induction items with
  | nil => rfl
  | cons v rest ih => rw [displayAll, ih, List.map_cons]

theorem mapSpaces_of_isListed (hlisted : v.IsListed) (g : Option String → Option String) :
    v.mapSpaces g = v := by
  cases v with
  | boolean | integer | text => rfl
  | real | reference | array => exact hlisted.elim

theorem readTyped_array {items : List Value} (h : ∀ v ∈ items, v.OfType type ∧ v.IsListed) :
    readTyped (Value.array items).display type true = .ok (.array items) := by
  have hitems : listItems [(Value.array items).display] = items.map display := by
    rw [display, displayAll_eq_map]
    refine listItems_join fun s hs => ?_
    obtain ⟨v, hv, rfl⟩ := List.mem_map.1 hs
    exact isListItem_display (h v hv).1 (h v hv).2
  have hread : (items.map display).mapM (fun item => readScalar item type) = .ok items := by
    rw [List.mapM_map, mapM_eq_ok (g := id), List.map_id]
    intro v hv
    rw [Function.comp_apply, readScalar_display (h v hv).1, mapSpaces_of_isListed (h v hv).2]
    rfl
  rw [readTyped, if_pos rfl, hitems, hread]
  rfl

end Texts

/-- Reading inverts showing. A single value that is shown reads back with its type as an equal
value, which is the very same but for the slashes in front of the namespaces in a reference; a list
of values that stand in a comma list reads back as it is. A whole number is read from a text if and
only if the text stands for a number of the range, blanks around it aside, and it is that number. -/
theorem readTyped_display (type : String) :
    (∀ v : Value, v.OfType type →
      readTyped v.display type false = .ok (v.mapSpaces bareSpace) ∧
      (v.mapSpaces bareSpace).same v = true ∧ v.same (v.mapSpaces bareSpace) = true ∧
      (v.path? = none → v.mapSpaces bareSpace = v)) ∧
    (∀ items : List Value, (∀ v ∈ items, v.OfType type ∧ v.IsListed) →
      readTyped (Value.array items).display type true = .ok (.array items)) ∧
    ∀ t : IntegerType, foldCase type = t.name → ∀ raw v,
      readTyped raw type false = .ok v ↔ ∃ n, IsDecimal (trim raw).toList n ∧ t.least ≤ n ∧
        n ≤ t.greatest ∧ ∃ i : Int64, v = .integer i ∧ i.toInt = n := by
  refine ⟨fun v hv => ⟨readScalar_display hv, ?_⟩, fun items => readTyped_array,
    fun t htype raw v => readScalar_integer_iff htype⟩
  cases hv with
  | integer | boolean | text => simp [mapSpaces, same, isLeftOf]
  | @reference _ p hp =>
    obtain ⟨htabled, hreal⟩ := hp.tabled
    obtain ⟨hleft, hright⟩ :=
      (isLeftOf_mapSpaces ObjectPath.agreeingSpaces_bareSpace).2 p htabled hreal
    exact ⟨hright, hleft, fun h => absurd h (Option.some_ne_none p)⟩

/-- A path that refers to a class, which is written like a text. -/
def linkOfClass : ObjectPath := ⟨none, "TST_Link", [("Of", .reference (.ofClass "TST_Disk"))]⟩

/-- A path that refers to an instance. -/
def linkOfInstance : ObjectPath :=
  ⟨some "/root/a", "TST_Link", [("Of", .reference ⟨none, "TST_Disk", [("Id", .integer 5)]⟩)]⟩

theorem linkOfInstance_writable : linkOfInstance.Writable := by
  have hdisk : (ObjectPath.mk none "TST_Disk" [("Id", .integer 5)]).Writable :=
    .mk (fun s hs => absurd hs.symm (Option.some_ne_none s)) (by decide)
      (List.pairwise_singleton _ _) (by decide)
      (by simp [Writable.integer])
  refine .mk (fun s hs => ?_) (by decide) (List.pairwise_singleton _ _) (by decide) ?_
  · obtain rfl := Option.some.inj hs
    decide
  · simp only [List.forall_mem_cons, List.not_mem_nil, false_implies, implies_true, and_true]
    exact .reference _ hdisk (List.cons_ne_nil _ _)

theorem isTextType_string : IsTextType "String" := by
  refine ⟨?_, by decide +kernel⟩
  rintro ⟨signed, size⟩
  cases signed <;> cases size <;> decide +kernel

/-- A number at the end of its range, a reference, a comma list of texts, and a number with a sign,
leading zeros and blanks. -/
theorem readTyped_display_of_link :
    readTyped (Value.integer 255).display "UInt8" false = .ok (.integer 255) ∧
    readTyped (Value.reference linkOfInstance).display "reference" false =
      .ok (.reference { linkOfInstance with nameSpace := some "root/a" }) ∧
    readTyped (Value.array [.text "a b", .text "c"]).display "String" true =
      .ok (.array [.text "a b", .text "c"]) ∧
    readTyped " +007 " "sint8" false = .ok (.integer 7) := by
  have hbyte : foldCase "UInt8" = IntegerType.name ⟨false, .one⟩ := by decide +kernel
  have hsigned : foldCase "sint8" = IntegerType.name ⟨true, .one⟩ := by decide +kernel
  refine ⟨?_, ?_, (readTyped_display "String").2.1 _ ?_, ?_⟩
  · obtain ⟨hread, -, -, hself⟩ := (readTyped_display "UInt8").1 (.integer 255)
      (.integer hbyte (by decide) (by decide))
    rw [hread, hself rfl]
  · obtain ⟨hread, -⟩ := (readTyped_display "reference").1 (.reference linkOfInstance)
      (.reference (by decide +kernel) linkOfInstance_writable)
    rw [hread]
    rfl
  · simp only [List.forall_mem_cons, List.not_mem_nil, false_implies, implies_true, and_true]
    exact ⟨⟨.text isTextType_string _, by decide, by decide, by decide⟩,
      ⟨.text isTextType_string _, by decide, by decide, by decide⟩⟩
  · have hdigits : IsDecimal (trim " +007 ").toList 7 :=
      ⟨['0', '0', '7'], List.cons_ne_nil _ _, List.all_eq_true.1 (by decide),
        Or.inl ⟨Or.inl (by decide), by decide⟩⟩
    exact ((readTyped_display "sint8").2.2 ⟨true, .one⟩ hsigned _ _).2
      ⟨7, hdigits, by decide, by decide, 7, rfl, by decide⟩

/-- A key that refers to a class is shown like a text, and so it is read as one. -/
theorem class_reference_read_as_text :
    readTyped (Value.reference linkOfClass).display "reference" false =
      .ok (.reference ⟨none, "TST_Link", [("Of", .text "TST_Disk")]⟩) ∧
    (Value.reference ⟨none, "TST_Link", [("Of", .text "TST_Disk")]⟩).same
      (.reference linkOfClass) = false :=
  ⟨rfl, rfl⟩

end Value

end CimConsole
