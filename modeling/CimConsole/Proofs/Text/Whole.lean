import CimConsole.Proofs.Answer
import CimConsole.Text.Whole

/-!
Whole numbers read back from their decimal text. Digits accumulate, so a number within the
limit is read without a fault at any digit before its last, and is the same for every limit.
-/
namespace CimConsole.Text

theorem isDigit_of_mem_toDigits {n : Nat} {c : Char} (h : c ∈ Nat.toDigits 10 n) :
    isDigit c = true := by
  have hd := Nat.isDigit_of_mem_toDigits (by decide) (by decide) h
  simpa [Char.isDigit, isDigit, Char.le_def] using hd

theorem le_ofDigitChars (cs : List Char) (acc : Nat) : acc ≤ Nat.ofDigitChars 10 cs acc := by
  rw [Nat.ofDigitChars_eq_ofDigitChars_zero]
  have hpos : 0 < 10 ^ cs.length := Nat.pow_pos (by decide)
  have hle : 1 * acc ≤ 10 ^ cs.length * acc := Nat.mul_le_mul_right acc hpos
  omega

theorem readDigits_eq_ok {limit : Nat} (fault : WholeFault) {cs : List Char} {acc : Nat}
    (hdigits : ∀ c ∈ cs, isDigit c = true) (hle : Nat.ofDigitChars 10 cs acc ≤ limit) :
    readDigits limit fault acc cs = .ok (Nat.ofDigitChars 10 cs acc) := by
  induction cs generalizing acc with
  | nil => rw [readDigits, Nat.ofDigitChars_nil]
  | cons c cs ih =>
    have hnext : acc * 10 + digitValue c = 10 * acc + (c.toNat - '0'.toNat) := by
      rw [digitValue, Nat.mul_comm]
    rw [Nat.ofDigitChars_cons, ← hnext] at hle ⊢
    have hfits := Nat.le_trans (le_ofDigitChars cs _) hle
    rw [readDigits, if_pos (hdigits c List.mem_cons_self)]
    simp only [hfits, if_true]
    exact ih (fun d hd => hdigits d (List.mem_cons_of_mem c hd)) hle

theorem le_of_readDigits {limit acc n : Nat} {fault : WholeFault} {cs : List Char}
    (h : readDigits limit fault acc cs = .ok n) : acc ≤ n := by
  induction cs generalizing acc with
  | nil => exact Nat.le_of_eq (Except.ok.inj h)
  | cons c cs ih =>
    simp only [readDigits] at h
    split at h
    · split at h
      · have hnext := ih h
        omega
      · cases h
    · cases h

/-- Digits that were read are read up to every limit that the number keeps. -/
theorem readDigits_of_le {limit other acc n : Nat} {fault : WholeFault} (fault' : WholeFault)
    {cs : List Char} (h : readDigits limit fault acc cs = .ok n) (hle : n ≤ other) :
    readDigits other fault' acc cs = .ok n := by
  induction cs generalizing acc with
  | nil => exact h
  | cons c cs ih =>
    simp only [readDigits] at h ⊢
    split at h
    · next hdigit =>
      split at h
      · have hnext := Nat.le_trans (le_of_readDigits h) hle
        rw [if_pos hdigit, if_pos hnext]
        exact ih h
      · cases h
    · cases h

theorem isDigit_of_readDigits {limit acc n : Nat} {fault : WholeFault} {cs : List Char}
    (h : readDigits limit fault acc cs = .ok n) : ∀ c ∈ cs, isDigit c = true := by
  induction cs generalizing acc with
  | nil => exact fun c hc => absurd hc List.not_mem_nil
  | cons d cs ih =>
    simp only [readDigits] at h
    split at h
    · next hdigit =>
      split at h
      · exact List.forall_mem_cons.2 ⟨hdigit, ih h⟩
      · cases h
    · cases h

theorem readDigits_toDigits {limit n : Nat} (fault : WholeFault) (h : n ≤ limit) :
    readDigits limit fault 0 (Nat.toDigits 10 n) = .ok n := by
  have hvalue : Nat.ofDigitChars 10 (Nat.toDigits 10 n) 0 = n := Nat.ofDigitChars_ten_toDigits
  rw [readDigits_eq_ok fault (fun _ hc => isDigit_of_mem_toDigits hc) (by rwa [hvalue]), hvalue]

/-- The decimal text of an integer is its digits, behind a sign if it is negative. -/
theorem toList_decimal (i : Int) :
    (toString i).toList =
      if i < 0 then '-' :: Nat.toDigits 10 i.natAbs else Nat.toDigits 10 i.natAbs := by
  rw [Int.toString_eq_repr, Int.repr_eq_if]
  split
  case isTrue hpos =>
    rw [if_neg (by omega), Nat.toList_repr, show i.toNat = i.natAbs by omega]
  case isFalse hneg =>
    rw [if_pos (by omega), String.toList_append, Nat.toList_repr,
      show (-i).toNat = i.natAbs by omega]
    rfl

theorem readSigned_of_digits (bound : Nat) {cs : List Char} (hne : cs ≠ [])
    (hdigits : ∀ c ∈ cs, isDigit c = true) :
    readSigned bound cs = (readDigits (bound - 1) .tooLarge 0 cs).map Int.ofNat := by
  unfold readSigned
  split
  case h_1 => exact absurd rfl hne
  case h_2 | h_4 => exact absurd (hdigits '+' List.mem_cons_self) (by decide)
  case h_3 | h_5 => exact absurd (hdigits '-' List.mem_cons_self) (by decide)
  case h_6 => rfl

theorem readSigned_minus (bound : Nat) {cs : List Char} (hne : cs ≠ []) :
    readSigned bound ('-' :: cs) = (readDigits bound .tooSmall 0 cs).map fun n => -Int.ofNat n := by
  cases cs with
  | nil => exact absurd rfl hne
  | cons c rest => rfl

theorem readSigned_plus (bound : Nat) {cs : List Char} (hne : cs ≠ []) :
    readSigned bound ('+' :: cs) = (readDigits (bound - 1) .tooLarge 0 cs).map Int.ofNat := by
  cases cs with
  | nil => exact absurd rfl hne
  | cons c rest => rfl

/-- What is read as a whole number is digits, behind a sign if one is there. -/
theorem readSigned_eq_ok {bound : Nat} {cs : List Char} {i : Int}
    (h : readSigned bound cs = .ok i) : ∃ digits n, digits ≠ [] ∧
      ((cs = '+' :: digits ∨ cs = digits) ∧ readDigits (bound - 1) .tooLarge 0 digits = .ok n ∧
          Int.ofNat n = i ∨
        cs = '-' :: digits ∧ readDigits bound .tooSmall 0 digits = .ok n ∧ -Int.ofNat n = i) := by
  unfold readSigned at h
  split at h
  case h_1 | h_2 | h_3 => cases h
  case h_4 digits hne =>
    obtain ⟨n, hn, hi⟩ := map_eq_ok.1 h
    exact ⟨digits, n, fun hnil => hne (by rw [hnil]), Or.inl ⟨Or.inl rfl, hn, hi⟩⟩
  case h_5 digits hne =>
    obtain ⟨n, hn, hi⟩ := map_eq_ok.1 h
    exact ⟨digits, n, fun hnil => hne (by rw [hnil]), Or.inr ⟨rfl, hn, hi⟩⟩
  case h_6 hne _ _ _ _ =>
    obtain ⟨n, hn, hi⟩ := map_eq_ok.1 h
    exact ⟨cs, n, hne, Or.inl ⟨Or.inr rfl, hn, hi⟩⟩

/-- A whole number is read in every range that it lies in. -/
theorem readSigned_of_range {bound other : Nat} {cs : List Char} {i : Int}
    (h : readSigned other cs = .ok i) (hlow : -(bound : Int) ≤ i) (hhigh : i < bound) :
    readSigned bound cs = .ok i := by
  obtain ⟨digits, n, hne, ⟨hcs, hread, rfl⟩ | ⟨rfl, hread, rfl⟩⟩ := readSigned_eq_ok h
  · have hfits : readDigits (bound - 1) .tooLarge 0 digits = .ok n := by
      refine readDigits_of_le _ hread ?_
      simp only [Int.ofNat_eq_natCast] at hhigh
      omega
    rcases hcs with rfl | rfl
    · rw [readSigned_plus bound hne, hfits]
      rfl
    · rw [readSigned_of_digits bound hne (isDigit_of_readDigits hread), hfits]
      rfl
  · have hfits : readDigits bound .tooSmall 0 digits = .ok n := by
      refine readDigits_of_le _ hread ?_
      simp only [Int.ofNat_eq_natCast] at hlow
      omega
    rw [readSigned_minus bound hne, hfits]
    rfl

theorem isDigit_or_sign_of_readSigned {bound : Nat} {cs : List Char} {i : Int}
    (h : readSigned bound cs = .ok i) : ∀ c ∈ cs, isDigit c = true ∨ c = '+' ∨ c = '-' := by
  obtain ⟨digits, n, -, ⟨rfl | rfl, hread, -⟩ | ⟨rfl, hread, -⟩⟩ := readSigned_eq_ok h
  · exact List.forall_mem_cons.2 ⟨Or.inr (Or.inl rfl), fun c hc =>
      Or.inl (isDigit_of_readDigits hread c hc)⟩
  · exact fun c hc => Or.inl (isDigit_of_readDigits hread c hc)
  · exact List.forall_mem_cons.2 ⟨Or.inr (Or.inr rfl), fun c hc =>
      Or.inl (isDigit_of_readDigits hread c hc)⟩

/-- Digits behind an optional sign, with the number that they stand for. -/
def IsDecimal (cs : List Char) (n : Int) : Prop :=
  ∃ digits, digits ≠ [] ∧ (∀ c ∈ digits, isDigit c = true) ∧
    ((cs = '+' :: digits ∨ cs = digits) ∧ n = Nat.ofDigitChars 10 digits 0 ∨
      cs = '-' :: digits ∧ n = -(Nat.ofDigitChars 10 digits 0 : Int))

theorem of_readDigits {limit acc n : Nat} {fault : WholeFault} {cs : List Char} (hacc : acc ≤ limit)
    (h : readDigits limit fault acc cs = .ok n) : n = Nat.ofDigitChars 10 cs acc ∧ n ≤ limit := by
  have hle := readDigits_le hacc h
  induction cs generalizing acc with
  | nil => exact ⟨by rw [Nat.ofDigitChars_nil, Except.ok.inj h], hle⟩
  | cons c cs ih =>
    simp only [readDigits] at h
    split at h
    · split at h
      · next hnext =>
        obtain ⟨hvalue, -⟩ := ih hnext h
        rw [digitValue, Nat.mul_comm] at hvalue
        exact ⟨by rw [hvalue, Nat.ofDigitChars_cons], hle⟩
      · cases h
    · cases h

/-- A text is read as the number in the range that its digits and its sign stand for. -/
theorem readSigned_eq_ok_iff {bound : Nat} (hbound : 0 < bound) {cs : List Char} {n : Int} :
    readSigned bound cs = .ok n ↔ IsDecimal cs n ∧ -(bound : Int) ≤ n ∧ n < bound := by
  constructor
  · intro h
    obtain ⟨digits, m, hne, ⟨hcs, hread, rfl⟩ | ⟨hcs, hread, rfl⟩⟩ := readSigned_eq_ok h
    all_goals
      obtain ⟨rfl, hle⟩ := of_readDigits (Nat.zero_le _) hread
      have hdigits := isDigit_of_readDigits hread
      simp only [Int.ofNat_eq_natCast]
    · exact ⟨⟨digits, hne, hdigits, Or.inl ⟨hcs, rfl⟩⟩, by omega, by omega⟩
    · exact ⟨⟨digits, hne, hdigits, Or.inr ⟨hcs, rfl⟩⟩, by omega, by omega⟩
  · rintro ⟨⟨digits, hne, hdigits, ⟨rfl | rfl, rfl⟩ | ⟨rfl, rfl⟩⟩, hlow, hhigh⟩
    · rw [readSigned_plus bound hne, readDigits_eq_ok _ hdigits (by omega)]
      rfl
    · rw [readSigned_of_digits bound hne hdigits, readDigits_eq_ok _ hdigits (by omega)]
      rfl
    · rw [readSigned_minus bound hne, readDigits_eq_ok _ hdigits (by omega)]
      rfl

/-- Every integer of the range is read back from its decimal text. -/
theorem readSigned_decimal {bound : Nat} {i : Int} (hlow : -(bound : Int) ≤ i)
    (hhigh : i < bound) : readSigned bound (toString i).toList = .ok i := by
  rw [toList_decimal]
  split
  case isTrue hneg =>
    rw [readSigned_minus bound Nat.toDigits_ne_nil, readDigits_toDigits _ (by omega)]
    simp only [Except.map, Except.ok.injEq, Int.ofNat_eq_natCast]
    omega
  case isFalse hpos =>
    rw [readSigned_of_digits bound Nat.toDigits_ne_nil fun _ hc => isDigit_of_mem_toDigits hc,
      readDigits_toDigits _ (by omega)]
    simp only [Except.map, Except.ok.injEq, Int.ofNat_eq_natCast]
    omega

theorem readInt64?_decimal (i : Int64) : readInt64? (toString i.toInt).toList = some i := by
  have hlow : -((Nat.pow 2 63 : Nat) : Int) ≤ i.toInt := Int64.le_toInt i
  have hhigh : i.toInt < ((Nat.pow 2 63 : Nat) : Int) := Int64.toInt_lt i
  rw [readInt64?, readSigned_decimal hlow hhigh]
  exact congrArg some (Int64.ofInt_toInt i)

/-- A decimal text starts with a digit or a sign and holds nothing but digits and a sign. -/
theorem isDigit_of_mem_decimal {i : Int} {c : Char} (h : c ∈ (toString i).toList) :
    isDigit c = true ∨ c = '-' := by
  rw [toList_decimal] at h
  split at h
  · exact (List.mem_cons.1 h).symm.imp_left isDigit_of_mem_toDigits
  · exact Or.inl (isDigit_of_mem_toDigits h)

end CimConsole.Text
