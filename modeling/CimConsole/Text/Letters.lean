/-!
Letter case of element names. Names of classes, properties, qualifiers, keys and
namespaces are compared without regard to the case of ASCII letters; every other
character stands for itself.
-/
namespace CimConsole.Text

/-- ASCII capitals become small letters. -/
def foldCase (s : String) : String := String.ofList (s.toList.map Char.toLower)

/-- Two names that differ at most in the case of ASCII letters. -/
def sameName (a b : String) : Bool := foldCase a == foldCase b

theorem sameName_iff (a b : String) : sameName a b = true ↔ foldCase a = foldCase b := by
  simp [sameName]

theorem sameName_refl (a : String) : sameName a a = true := by simp [sameName]

theorem sameName_symm {a b : String} (h : sameName a b = true) : sameName b a = true := by
  rw [sameName_iff] at h ⊢
  exact h.symm

theorem sameName_comm (a b : String) : sameName a b = sameName b a :=
  Bool.eq_iff_iff.2 ⟨sameName_symm, sameName_symm⟩

theorem sameName_trans {a b c : String} (hab : sameName a b = true)
    (hbc : sameName b c = true) : sameName a c = true := by
  rw [sameName_iff] at hab hbc ⊢
  exact hab.trans hbc

theorem sameName_congr_left {a b : String} (h : sameName a b = true) (c : String) :
    sameName a c = sameName b c := by
  rw [Bool.eq_iff_iff]
  exact ⟨sameName_trans (sameName_symm h), sameName_trans h⟩

theorem sameName_congr_right {a b : String} (h : sameName a b = true) (c : String) :
    sameName c a = sameName c b := by
  rw [Bool.eq_iff_iff]
  exact ⟨fun hc => sameName_trans hc h, fun hc => sameName_trans hc (sameName_symm h)⟩

def isLetter (c : Char) : Bool := ('a' ≤ c && c ≤ 'z') || ('A' ≤ c && c ≤ 'Z')

def isDigit (c : Char) : Bool := '0' ≤ c && c ≤ '9'

def isLetterOrDigit (c : Char) : Bool := isLetter c || isDigit c

/-- The names that object paths admit: a letter or `_`, then letters, digits and `_`. -/
def isIdentifier : List Char → Bool
  | [] => false
  | c :: rest => (isLetter c || c == '_') && rest.all fun d => isLetterOrDigit d || d == '_'

end CimConsole.Text
