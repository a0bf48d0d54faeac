import CimConsole.Text.Letters
import CimConsole.Text.Pieces

/-!
What cutting and trimming a text finds. A cut is found at the first or at the last
separator, and both parts together with the separator give the text back. Trimming leaves a
text alone that neither starts nor ends with what is dropped, identifiers in particular.
-/
namespace CimConsole.Text

theorem cutFirst_eq_none_iff {sep : Char} {cs : List Char} :
    cutFirst sep cs = none ↔ sep ∉ cs := by
  induction cs with
  | nil => simp [cutFirst]
  | cons c rest ih =>
    by_cases h : c = sep
    · simp [cutFirst, h]
    · simp [cutFirst, h, ih, Ne.symm h]

theorem cutFirst_eq_some_iff {sep : Char} {cs before after : List Char} :
    cutFirst sep cs = some (before, after) ↔ cs = before ++ sep :: after ∧ sep ∉ before := by
  induction cs generalizing before with
  | nil => simp [cutFirst]
  | cons c rest ih =>
    by_cases h : c = sep
    · subst h
      cases before with
      | nil => simp [cutFirst]
      | cons d before => simp +contextual [cutFirst]
    · cases before with
      | nil => simp [cutFirst, h]
      | cons d before =>
        simp only [cutFirst, beq_iff_eq, h, if_false, Option.map_eq_some_iff, Prod.mk.injEq,
          List.cons.injEq, Prod.exists, List.cons_append, List.mem_cons, not_or]
        constructor
        · rintro ⟨b, a, hcut, ⟨rfl, rfl⟩, rfl⟩
          obtain ⟨hrest, hmem⟩ := ih.1 hcut
          exact ⟨⟨rfl, hrest⟩, Ne.symm h, hmem⟩
        · rintro ⟨⟨rfl, hrest⟩, -, hmem⟩
          exact ⟨before, after, ih.2 ⟨hrest, hmem⟩, ⟨rfl, rfl⟩, rfl⟩

theorem cutLast_eq_none_iff {sep : Char} {cs : List Char} :
    cutLast sep cs = none ↔ sep ∉ cs := by
  induction cs with
  | nil => simp [cutLast]
  | cons c rest ih =>
    rw [cutLast]
    cases hr : cutLast sep rest with
    | some found =>
      have hmem : sep ∈ rest := Decidable.not_not.1 fun hn => by
        rw [ih.2 hn] at hr
        cases hr
      simp [hmem]
    | none =>
      by_cases h : c = sep
      · simp [h]
      · simp [h, ih.1 hr, Ne.symm h]

theorem cutLast_append {sep : Char} (before : List Char) {after : List Char}
    (h : sep ∉ after) : cutLast sep (before ++ sep :: after) = some (before, after) := by
  induction before with
  | nil => simp [cutLast, cutLast_eq_none_iff.2 h]
  | cons c before ih => simp [cutLast, ih]

theorem eq_of_cutLast {sep : Char} {cs before after : List Char}
    (h : cutLast sep cs = some (before, after)) : cs = before ++ sep :: after := by
  induction cs generalizing before with
  | nil => simp [cutLast] at h
  | cons c rest ih =>
    rw [cutLast] at h
    cases hr : cutLast sep rest with
    | some found =>
      obtain ⟨b, a⟩ := found
      simp only [hr, Option.some.injEq, Prod.mk.injEq] at h
      obtain ⟨rfl, rfl⟩ := h
      rw [ih hr, List.cons_append]
    | none =>
      by_cases hc : c = sep
      · simp only [hr, hc, beq_self_eq_true, if_true, Option.some.injEq, Prod.mk.injEq] at h
        obtain ⟨rfl, rfl⟩ := h
        simp [hc]
      · simp [hr, hc] at h

theorem dropWhile_eq_self {p : Char → Bool} {cs : List Char}
    (h : ∀ c, cs.head? = some c → p c = false) : cs.dropWhile p = cs := by
  cases cs with
  | nil => rfl
  | cons c rest => simp [h c rfl]

theorem dropBothWhile_eq_self {p : Char → Bool} {cs : List Char}
    (hhead : ∀ c, cs.head? = some c → p c = false)
    (hlast : ∀ c, cs.getLast? = some c → p c = false) : dropBothWhile p cs = cs := by
  rw [dropBothWhile, dropWhile_eq_self hhead, dropEndWhile, dropWhile_eq_self, List.reverse_reverse]
  intro c hc
  exact hlast c (by rwa [List.head?_reverse] at hc)

theorem dropBothWhile_of_all {p : Char → Bool} {cs : List Char} (h : ∀ c ∈ cs, p c = false) :
    dropBothWhile p cs = cs :=
  dropBothWhile_eq_self (fun c hc => h c (List.mem_of_mem_head? hc))
    fun c hc => h c (List.mem_of_getLast? hc)

theorem dropWhile_dropWhile (p : Char → Bool) (cs : List Char) :
    (cs.dropWhile p).dropWhile p = cs.dropWhile p := by
  apply dropWhile_eq_self
  intro c hc
  have := List.head?_dropWhile_not p cs
  rw [hc] at this
  simpa using this

/-- Dropping at the start first changes nothing about dropping at both ends. -/
theorem dropBothWhile_dropWhile (p : Char → Bool) (cs : List Char) :
    dropBothWhile p (cs.dropWhile p) = dropBothWhile p cs := by
  rw [dropBothWhile, dropBothWhile, dropWhile_dropWhile]

/-- Dropping at both ends leaves nothing more to drop. -/
theorem dropBothWhile_dropBothWhile (p : Char → Bool) (cs : List Char) :
    dropBothWhile p (dropBothWhile p cs) = dropBothWhile p cs := by
  apply dropBothWhile_eq_self
  · intro c hc
    have hhead : (cs.dropWhile p).head? = some c := by
      have hsplit := dropEndWhile_append_takeWhile p (cs.dropWhile p)
      rw [← hsplit, List.head?_append]
      rw [dropBothWhile] at hc
      rw [hc, Option.some_or]
    have hnot := List.head?_dropWhile_not p cs
    rw [hhead] at hnot
    simpa using hnot
  · intro c hc
    rw [dropBothWhile, dropEndWhile, List.getLast?_reverse] at hc
    have hnot := List.head?_dropWhile_not p (cs.dropWhile p).reverse
    rw [hc] at hnot
    simpa using hnot

def isWordChar (c : Char) : Bool := isLetterOrDigit c || c == '_'

theorem ne_nil_of_isIdentifier {cs : List Char} (h : isIdentifier cs = true) : cs ≠ [] := by
  rintro rfl
  cases h

theorem isWordChar_of_mem {cs : List Char} (h : isIdentifier cs = true) {c : Char}
    (hc : c ∈ cs) : isWordChar c = true := by
  cases cs with
  | nil => cases hc
  | cons d rest =>
    rw [isIdentifier, Bool.and_eq_true] at h
    rcases List.mem_cons.1 hc with rfl | hc
    · have hd := h.1
      simp only [isWordChar, isLetterOrDigit, Bool.or_eq_true] at hd ⊢
      exact hd.imp_left Or.inl
    · exact List.all_eq_true.1 h.2 c hc

theorem not_mem_identifier {cs : List Char} (h : isIdentifier cs = true) {c : Char}
    (hc : isWordChar c = false) : c ∉ cs := by
  intro hmem
  rw [isWordChar_of_mem h hmem] at hc
  cases hc

theorem isBlank_of_isWordChar {c : Char} (h : isWordChar c = true) : isBlank c = false := by
  have hbounds : ('a'.toNat ≤ c.toNat ∧ c.toNat ≤ 'z'.toNat ∨
      'A'.toNat ≤ c.toNat ∧ c.toNat ≤ 'Z'.toNat) ∨ '0'.toNat ≤ c.toNat ∧ c.toNat ≤ '9'.toNat ∨
      c.toNat = '_'.toNat := by
    simp only [isWordChar, isLetterOrDigit, isLetter, isDigit, Bool.or_eq_true,
      Bool.and_eq_true, decide_eq_true_eq, beq_iff_eq, Char.le_def, UInt32.le_iff_toNat_le] at h
    rcases h with (h | h) | rfl
    · exact Or.inl h
    · exact Or.inr (Or.inl h)
    · exact Or.inr (Or.inr rfl)
  simp only [Char.reduceToNat] at hbounds
  simp only [isBlank, Bool.or_eq_false_iff, Bool.and_eq_false_iff, decide_eq_false_iff_not,
    beq_eq_false_iff_ne]
  omega

end CimConsole.Text
