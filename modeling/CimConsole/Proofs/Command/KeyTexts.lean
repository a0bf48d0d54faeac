import CimConsole.Command.Instance
import CimConsole.Proofs.Model.KeyNames
import CimConsole.Proofs.Text.Cut
import CimConsole.Proofs.Text.Whole

/-!
Texts of keys with a declared type and without one. Where no type is declared, a whole number is taken
for one and the usual spellings of a truth value for such; all else is a text. A declared type wants
its own sort of value: it takes blanks around a number and more words for a truth value, and to a text
a number is a text. So both readings agree on some texts only, which are described here for each type.
-/
namespace CimConsole

open Text

/-- A single text, truth value or whole number. -/
def PropertyDecl.IsPlain (p : PropertyDecl) : Prop :=
  p.isArray = false ∧ p.referenceClass = none ∧
    (foldCase p.type = "string" ∨ foldCase p.type = "boolean" ∨
      (integerRange? (foldCase p.type)).isSome = true)

instance (p : PropertyDecl) : Decidable p.IsPlain :=
  inferInstanceAs (Decidable (_ ∧ _ ∧ _))

/-- How truth values are usually spelled. -/
def spellingsOf (b : Bool) : List String :=
  if b then ["true", "TRUE", "True"] else ["false", "FALSE", "False"]

/-- A text that is taken for a truth value where no type is declared. -/
def spellsBoolean (raw : String) : Bool :=
  (spellingsOf true).contains raw || (spellingsOf false).contains raw

/-- A text that says the same for a type as without one: a whole number with no blanks around it, a
truth value as it is usually spelled, or a text that is neither. -/
def ReadsAlike (type raw : String) : Prop :=
  (integerRange? (foldCase type)).isSome = true ∧ trim raw = raw ∨
    foldCase type = "boolean" ∧ spellsBoolean raw = true ∨
    foldCase type = "string" ∧ readInt64? raw.toList = none ∧ spellsBoolean raw = false

instance (type raw : String) : Decidable (ReadsAlike type raw) :=
  inferInstanceAs (Decidable (_ ∨ _ ∨ _))

section Readers

variable {type raw : String} {v : Value}

theorem isBlank_of_readSigned {bound : Nat} {cs : List Char} {i : Int}
    (h : readSigned bound cs = .ok i) : ∀ c ∈ cs, isBlank c = false := by
  intro c hc
  rcases isDigit_or_sign_of_readSigned h c hc with hdigit | rfl | rfl
  · refine isBlank_of_isWordChar ?_
    simp [isWordChar, isLetterOrDigit, hdigit]
  · decide
  · decide

/-- Where no type is declared, a text is taken for a whole number of 64 bits, a truth value or a
text. -/
theorem keyValue_cases (raw : String) :
    (∃ i, readInt64? raw.toList = some i ∧ InstanceName.keyValue raw = .integer i) ∨
    (∃ b, readInt64? raw.toList = none ∧ raw ∈ spellingsOf b ∧
      InstanceName.keyValue raw = .boolean b) ∨
    (readInt64? raw.toList = none ∧ spellsBoolean raw = false ∧
      InstanceName.keyValue raw = .text raw) := by
  unfold InstanceName.keyValue
  split
  · next i hread => exact Or.inl ⟨i, hread, rfl⟩
  · next hread =>
    split
    · next htrue => exact Or.inr (Or.inl ⟨true, hread, List.contains_iff_mem.1 htrue, rfl⟩)
    · next htrue =>
      split
      · next hfalse => exact Or.inr (Or.inl ⟨false, hread, List.contains_iff_mem.1 hfalse, rfl⟩)
      · next hfalse =>
        refine Or.inr (Or.inr ⟨hread, ?_, rfl⟩)
        rw [spellsBoolean, Bool.or_eq_false_iff]
        exact ⟨Bool.eq_false_iff.2 htrue, Bool.eq_false_iff.2 hfalse⟩

theorem spellsBoolean_iff : spellsBoolean raw = true ↔ ∃ b, raw ∈ spellingsOf b := by
  rw [spellsBoolean, Bool.or_eq_true, List.contains_iff_mem, List.contains_iff_mem,
    Bool.exists_bool, or_comm]

/-- The usual spellings of truth values are no whole numbers, and are read by their type. -/
theorem of_mem_spellingsOf {b : Bool} (h : raw ∈ spellingsOf b) :
    readInt64? raw.toList = none ∧
      (if b then trueWords else falseWords).contains (foldCase (trim raw)) = true := by
  have hall : ∀ b, ∀ raw ∈ spellingsOf b, readInt64? raw.toList = none ∧
      (if b then trueWords else falseWords).contains (foldCase (trim raw)) = true := by
    decide +kernel
  exact hall b raw h

theorem of_readInteger {least greatest : Int}
    (h : Value.readInteger raw type least greatest = .ok v) :
    ∃ n, readSigned (Nat.pow 2 127) (trim raw).toList = .ok n ∧ least ≤ n ∧ n ≤ greatest ∧
      v = .integer (Int64.ofInt n) := by
  unfold Value.readInteger at h
  split at h
  · cases h
  · next n hread =>
    split at h
    · cases h
    · next hrange => exact ⟨n, hread, by omega, by omega, (Except.ok.inj h).symm⟩

/-- A whole number of a declared type is one for both readers unless there are blanks around it. -/
theorem same_keyValue_integer {least greatest : Int} (hlow : -(Nat.pow 2 63 : Nat) ≤ least)
    (hhigh : greatest < (Nat.pow 2 63 : Nat))
    (h : Value.readInteger raw type least greatest = .ok v) :
    (InstanceName.keyValue raw).same v = true ↔ trim raw = raw := by
  obtain ⟨n, hread, hleast, hgreatest, rfl⟩ := of_readInteger h
  have hwhole : trim raw = raw → readInt64? raw.toList = some (Int64.ofInt n) := by
    intro htrim
    rw [htrim] at hread
    rw [readInt64?, readSigned_of_range hread (by omega) (by omega)]
    rfl
  rcases keyValue_cases raw with ⟨i, hi, hvalue⟩ | ⟨b, hi, -, hvalue⟩ | ⟨hi, -, hvalue⟩
  · rw [hvalue]
    obtain ⟨m, hm, -⟩ := Option.map_eq_some_iff.1 hi
    have htrim : trim raw = raw := by
      rw [trim, dropBothWhile_of_all (isBlank_of_readSigned (toOption_eq_some.1 hm)),
        String.ofList_toList]
    obtain rfl : i = Int64.ofInt n := Option.some.inj (hi.symm.trans (hwhole htrim))
    simp [Value.same, Value.isLeftOf, htrim]
  all_goals
    rw [hvalue]
    refine iff_of_false (by simp [Value.same, Value.isLeftOf]) fun htrim => ?_
    rw [hwhole htrim] at hi
    cases hi

theorem readScalar_boolean (htype : foldCase type = "boolean") : Value.readScalar raw type =
    if trueWords.contains (foldCase (trim raw)) then .ok (.boolean true)
    else if falseWords.contains (foldCase (trim raw)) then .ok (.boolean false)
    else .error (.notBoolean raw) := by
  rw [Value.readScalar, htype]
  rfl

theorem exists_boolean_of_readScalar (htype : foldCase type = "boolean")
    (h : Value.readScalar raw type = .ok v) : ∃ b, v = .boolean b := by
  rw [readScalar_boolean htype] at h
  split at h
  · exact ⟨true, (Except.ok.inj h).symm⟩
  · split at h
    · exact ⟨false, (Except.ok.inj h).symm⟩
    · cases h

theorem readScalar_of_mem_spellingsOf (htype : foldCase type = "boolean") {b : Bool}
    (h : raw ∈ spellingsOf b) : Value.readScalar raw type = .ok (.boolean b) := by
  have hword := (of_mem_spellingsOf h).2
  rw [readScalar_boolean htype]
  cases b with
  | true => exact if_pos hword
  | false =>
    have hapart : ∀ w ∈ falseWords, trueWords.contains w = false := by decide
    rw [hapart _ (List.contains_iff_mem.1 hword), if_neg Bool.false_ne_true]
    exact if_pos hword

/-- A truth value of its type is one for both readers if it is spelled in the usual ways. -/
theorem same_keyValue_boolean (htype : foldCase type = "boolean")
    (h : Value.readScalar raw type = .ok v) :
    (InstanceName.keyValue raw).same v = true ↔ spellsBoolean raw = true := by
  obtain ⟨b, rfl⟩ := exists_boolean_of_readScalar htype h
  rcases keyValue_cases raw with ⟨i, hi, hvalue⟩ | ⟨b', -, hmem, hvalue⟩ | ⟨-, hspells, hvalue⟩
  · rw [hvalue]
    refine iff_of_false (by simp [Value.same, Value.isLeftOf]) fun hspells => ?_
    obtain ⟨b', hmem⟩ := spellsBoolean_iff.1 hspells
    rw [(of_mem_spellingsOf hmem).1] at hi
    cases hi
  · obtain rfl : b' = b := by
      have hsame := (readScalar_of_mem_spellingsOf htype hmem).symm.trans h
      exact Value.boolean.inj (Except.ok.inj hsame)
    rw [hvalue]
    exact iff_of_true (by simp [Value.same, Value.isLeftOf]) (spellsBoolean_iff.2 ⟨b', hmem⟩)
  · rw [hvalue, hspells]
    simp [Value.same, Value.isLeftOf]

/-- A text is one for both readers if it is neither a whole number nor a truth value. -/
theorem same_keyValue_text : (InstanceName.keyValue raw).same (.text raw) = true ↔
    readInt64? raw.toList = none ∧ spellsBoolean raw = false := by
  rcases keyValue_cases raw with ⟨i, hi, hvalue⟩ | ⟨b, -, hmem, hvalue⟩ | ⟨hi, hspells, hvalue⟩
  · simp [hvalue, hi, Value.same, Value.isLeftOf]
  · have hspells : spellsBoolean raw = true := spellsBoolean_iff.2 ⟨b, hmem⟩
    simp [hvalue, hspells, Value.same, Value.isLeftOf]
  · simp [hvalue, hi, hspells, Value.same, Value.isLeftOf]

theorem range_of_integerRange? {name : String} {least greatest : Int}
    (h : integerRange? name = some (least, greatest)) :
    -(Nat.pow 2 63 : Nat) ≤ least ∧ greatest < (Nat.pow 2 63 : Nat) := by
  unfold integerRange? at h
  split at h <;> cases h <;> decide

/-- Both readers of a key agree exactly on the texts that read alike; what the declared type makes of
the text is a flat value. -/
theorem same_keyValue_iff {p : PropertyDecl} (hplain : p.IsPlain)
    (h : Value.readTyped raw p.type p.isArray = .ok v) :
    v.Flat ∧ ((InstanceName.keyValue raw).same v = true ↔ ReadsAlike p.type raw) := by
  obtain ⟨hsingle, -, htype⟩ := hplain
  rw [Value.readTyped, hsingle, if_neg Bool.false_ne_true] at h
  rcases htype with htext | hboolean | hinteger
  · have hread : Value.readScalar raw p.type = .ok (.text raw) := by
      rw [Value.readScalar, htext]
      rfl
    obtain rfl := Except.ok.inj (hread.symm.trans h)
    refine ⟨.text raw, same_keyValue_text.trans ?_⟩
    simp [ReadsAlike, htext, integerRange?]
  · refine ⟨?_, (same_keyValue_boolean hboolean h).trans ?_⟩
    · obtain ⟨b, rfl⟩ := exists_boolean_of_readScalar hboolean h
      exact .boolean b
    · simp [ReadsAlike, hboolean, integerRange?]
  · obtain ⟨⟨least, greatest⟩, hrange⟩ := Option.isSome_iff_exists.1 hinteger
    obtain ⟨hlow, hhigh⟩ := range_of_integerRange? hrange
    have hother : foldCase p.type ≠ "boolean" ∧ foldCase p.type ≠ "string" := by
      constructor <;> intro heq <;> rw [heq] at hrange <;> cases hrange
    rw [Value.readScalar, hrange] at h
    refine ⟨?_, (same_keyValue_integer hlow hhigh h).trans ?_⟩
    · obtain ⟨n, -, -, -, rfl⟩ := of_readInteger h
      exact .integer _
    · simp [ReadsAlike, hinteger, hother]

end Readers

end CimConsole
