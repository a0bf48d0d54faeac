import CimConsole.Model.Mof
import CimConsole.Proofs.Model.Equality
import CimConsole.Proofs.Text.Lines
import CimConsole.Proofs.Text.Whole

/-!
Texts in MOF. A text is written as a literal: character by character is the same as replacing
backslashes first and what is written with one afterwards. Behind a backslash stands the character
that it hides, so a literal is read back in one go, and its end is the first quote that no backslash
hides. No line break gets through, neither in a literal nor in any other value, and so each property
of an instance stays on its line.
-/
namespace CimConsole.Mof

open Text Number

variable {c d : Char} {cs before : List Char} {s t : String}

/-- A character between quotes. -/
def escaped (c : Char) : List Char :=
  if c = '\\' then ['\\', '\\']
  else if c = '"' then ['\\', '"']
  else if c = '\n' then ['\\', 'n']
  else if c = '\t' then ['\\', 't']
  else [c]

theorem toList_escapeChar (c : Char) : (escapeChar c).toList = escaped c := by
  simp only [escapeChar, escaped, beq_iff_eq]
  repeat' split
  all_goals simp

theorem toList_quoted (s : String) :
    (quoted s).toList = '"' :: (s.toList.flatMap escaped ++ ['"']) := by
  simp only [quoted, substitute, String.toList_append, String.toList_ofList, toList_escapeChar]
  rfl

/-- A character is written as itself or behind a backslash. -/
theorem escaped_cases (c : Char) :
    escaped c = [c] ∧ c ≠ '\\' ∧ c ≠ '"' ∧ c ≠ '\n' ∧ c ≠ '\t' ∨
      ∃ d, escaped c = ['\\', d] ∧ d ≠ '\n' ∧ d ≠ '\t' := by
  unfold escaped
  by_cases hslash : c = '\\'
  · exact Or.inr ⟨'\\', by rw [if_pos hslash], by decide, by decide⟩
  by_cases hquote : c = '"'
  · exact Or.inr ⟨'"', by rw [if_neg hslash, if_pos hquote], by decide, by decide⟩
  by_cases hbreak : c = '\n'
  · exact Or.inr ⟨'n', by rw [if_neg hslash, if_neg hquote, if_pos hbreak], by decide, by decide⟩
  by_cases htab : c = '\t'
  · refine Or.inr ⟨'t', ?_, by decide, by decide⟩
    rw [if_neg hslash, if_neg hquote, if_neg hbreak, if_pos htab]
  · refine Or.inl ⟨?_, hslash, hquote, hbreak, htab⟩
    rw [if_neg hslash, if_neg hquote, if_neg hbreak, if_neg htab]

/-- The text with a character replaced throughout. -/
def replaced (c : Char) (mark : String) (s : String) : String :=
  substitute (fun d => if d = c then mark else d.toString) s

theorem substitute_replaced (f : Char → String) (c : Char) (mark s : String) :
    replaced c mark (substitute f s) = substitute (fun d => replaced c mark (f d)) s := by
  simp [replaced, substitute, List.flatMap_assoc]

/-- Backslashes are replaced first, so that none is replaced that stands for something else. -/
theorem substitute_escapeChar (s : String) :
    substitute escapeChar s = replaced '\t' "\\t" (replaced '\n' "\\n"
      (replaced '"' "\\\"" (replaced '\\' "\\\\" s))) := by
  have hchar : ∀ c, escapeChar c = replaced '\t' "\\t" (replaced '\n' "\\n"
      (replaced '"' "\\\"" (if c = '\\' then "\\\\" else c.toString))) := by
    intro c
    rw [← String.toList_inj, toList_escapeChar]
    by_cases hslash : c = '\\'
    · subst hslash
      rfl
    by_cases hquote : c = '"'
    · subst hquote
      rfl
    by_cases hbreak : c = '\n'
    · subst hbreak
      rfl
    by_cases htab : c = '\t'
    · subst htab
      rfl
    · simp [escaped, replaced, substitute, hslash, hquote, hbreak, htab]
  rw [show escapeChar = _ from funext hchar, ← substitute_replaced, ← substitute_replaced,
    ← substitute_replaced]
  rfl

section Decoding

/-- The character that stands behind a backslash for another one. -/
def unescaped (c : Char) : Char := if c = 'n' then '\n' else if c = 't' then '\t' else c

/-- The characters of a literal behind its opening quote. Nothing may follow the closing one. -/
def readBody? : List Char → Option (List Char)
  | ['"'] => some []
  | '"' :: _ => none
  | '\\' :: c :: rest => (readBody? rest).map (unescaped c :: ·)
  | ['\\'] => none
  | c :: rest => (readBody? rest).map (c :: ·)
  | [] => none

/-- The text that a literal is written for. -/
def readLiteral? (s : String) : Option String :=
  match s.toList with
  | '"' :: rest => (readBody? rest).map String.ofList
  | _ => none

theorem readBody?_escaped (cs : List Char) :
    readBody? (cs.flatMap escaped ++ ['"']) = some cs := by
  induction cs with
  | nil => rfl
  | cons c rest ih =>
    rw [List.flatMap_cons, List.append_assoc]
    by_cases hslash : c = '\\'
    · subst hslash
      simp [escaped, readBody?, unescaped, ih]
    by_cases hquote : c = '"'
    · subst hquote
      simp [escaped, readBody?, unescaped, ih]
    by_cases hbreak : c = '\n'
    · subst hbreak
      simp [escaped, readBody?, unescaped, ih]
    by_cases htab : c = '\t'
    · subst htab
      simp [escaped, readBody?, unescaped, ih]
    · simp [escaped, readBody?, hslash, hquote, hbreak, htab, ih]

theorem readLiteral?_quoted (s : String) : readLiteral? (quoted s) = some s := by
  simp [readLiteral?, toList_quoted, readBody?_escaped]

theorem quoted_injective (h : quoted s = quoted t) : s = t :=
  Option.some.inj (by rw [← readLiteral?_quoted s, h, readLiteral?_quoted])

end Decoding

section Quotes

/-- A text that ends with a backslash which no other backslash hides. -/
def endsOpen (cs : List Char) : Bool := cs.foldl (fun isOpen c => c == '\\' && !isOpen) false

theorem endsOpen_concat (cs : List Char) (c : Char) :
    endsOpen (cs ++ [c]) = (c == '\\' && !endsOpen cs) := by
  simp [endsOpen, List.foldl_append]

/-- At this place of the text stands a quote that no backslash hides. -/
def IsBareQuote (cs : List Char) (i : Nat) : Prop :=
  cs[i]? = some '"' ∧ endsOpen (cs.take i) = false

theorem endsOpen_escaped (h : endsOpen before = false) (c : Char) :
    endsOpen (before ++ escaped c) = false := by
  rcases escaped_cases c with ⟨hc, hslash, -⟩ | ⟨d, hc, -⟩
  · rw [hc, endsOpen_concat, beq_false_of_ne hslash, Bool.false_and]
  · rw [hc, List.append_cons, endsOpen_concat, endsOpen_concat, h]
    simp

/-- What one character is written as has no bare quote in it. -/
theorem not_isBareQuote_escaped {i : Nat} (h : endsOpen before = false) (after : List Char)
    (hlow : before.length ≤ i) (hhigh : i < before.length + (escaped c).length) :
    ¬ IsBareQuote (before ++ (escaped c ++ after)) i := by
  rintro ⟨hquote, hopen⟩
  rcases escaped_cases c with ⟨hc, -, hne, -⟩ | ⟨d, hc, -⟩
  · rw [hc] at hquote hhigh
    obtain rfl : i = before.length := by
      rw [List.length_singleton] at hhigh
      omega
    simp [hne] at hquote
  · rw [hc] at hquote hopen hhigh
    obtain rfl | rfl : i = before.length ∨ i = before.length + 1 := by
      simp only [List.length_cons, List.length_nil] at hhigh
      omega
    · simp at hquote
    · -- the second character is hidden by the first one
      have htake : (before ++ (['\\', d] ++ after)).take (before.length + 1) = before ++ ['\\'] := by
        rw [List.take_length_add_append]
        rfl
      rw [htake, endsOpen_concat, h] at hopen
      cases hopen

/-- The only bare quote from the body of a literal on is the closing one. -/
theorem isBareQuote_body_iff {i : Nat} (h : endsOpen before = false) (hlow : before.length ≤ i) :
    IsBareQuote (before ++ (cs.flatMap escaped ++ ['"'])) i ↔
      i + 1 = (before ++ (cs.flatMap escaped ++ ['"'])).length := by
  induction cs generalizing before with
  | nil =>
    simp only [List.flatMap_nil, List.nil_append, List.length_append, List.length_singleton]
    constructor
    · rintro ⟨hquote, -⟩
      have hlt := (List.getElem?_eq_some_iff.1 hquote).1
      rw [List.length_append, List.length_singleton] at hlt
      omega
    · intro hi
      obtain rfl : i = before.length := by omega
      exact ⟨by simp, by rwa [List.take_left' rfl]⟩
  | cons c rest ih =>
    rw [List.flatMap_cons, List.append_assoc]
    by_cases hhigh : i < before.length + (escaped c).length
    · refine iff_of_false (not_isBareQuote_escaped h _ hlow hhigh) ?_
      simp only [List.length_append, List.length_singleton]
      omega
    · rw [← List.append_assoc]
      exact ih (endsOpen_escaped h c) (by rw [List.length_append]; omega)

/-- The bare quotes of a literal are its first and its last character. -/
theorem isBareQuote_quoted_iff (s : String) (i : Nat) :
    IsBareQuote (quoted s).toList i ↔ i = 0 ∨ i + 1 = (quoted s).length := by
  have hbody : (quoted s).toList = ['"'] ++ (s.toList.flatMap escaped ++ ['"']) := toList_quoted s
  cases i with
  | zero => exact iff_of_true ⟨by rw [hbody]; rfl, rfl⟩ (Or.inl rfl)
  | succ i =>
    rw [← String.length_toList, hbody, isBareQuote_body_iff rfl (Nat.le_add_left 1 i)]
    simp

theorem two_le_length_quoted (s : String) : 2 ≤ (quoted s).length := by
  rw [← String.length_toList, toList_quoted, List.length_cons, List.length_append]
  exact Nat.succ_le_succ (Nat.le_add_left 1 _)

end Quotes

section Breaks

theorem not_mem_escaped (hc : c = '\n' ∨ c = '\t') (d : Char) : c ∉ escaped d := by
  have hmark : c ≠ '\\' := by rcases hc with rfl | rfl <;> decide
  rcases escaped_cases d with ⟨hd, -, -, hbreak, htab⟩ | ⟨e, hd, hbreak, htab⟩
  · rw [hd, List.mem_singleton]
    rintro rfl
    exact hc.elim hbreak htab
  · simp only [hd, List.mem_cons, List.not_mem_nil, or_false, not_or]
    refine ⟨hmark, ?_⟩
    rintro rfl
    exact hc.elim hbreak htab

theorem not_mem_quoted (hc : c = '\n' ∨ c = '\t') (s : String) : c ∉ (quoted s).toList := by
  have hmark : c ≠ '"' := by rcases hc with rfl | rfl <;> decide
  rw [toList_quoted, List.mem_cons, List.mem_append, List.mem_singleton, List.mem_flatMap]
  rintro (hquote | ⟨d, -, hd⟩ | hquote)
  · exact hmark hquote
  · exact not_mem_escaped hc d hd
  · exact hmark hquote

theorem mem_placePoint {digits : String} {n : Int} (h : c ∈ (placePoint digits n).toList) :
    c ∈ digits.toList ∨ c = '0' ∨ c = '.' := by
  unfold placePoint at h
  split at h
  · simp only [String.toList_append, repeated, String.toList_ofList, List.mem_append,
      List.mem_replicate] at h
    rcases h with (h | ⟨-, h⟩) | h
    · exact Or.inr (by simpa using h)
    · exact Or.inr (Or.inl h)
    · exact Or.inl h
  · dsimp only at h
    split at h
    · simp only [String.toList_append, repeated, String.toList_ofList, List.mem_append,
        List.mem_replicate] at h
      rcases h with h | ⟨-, h⟩
      · exact Or.inl h
      · exact Or.inr (Or.inl h)
    · simp only [String.toList_append, String.toList_ofList, List.mem_append] at h
      rcases h with (h | h) | h
      · exact Or.inl (List.mem_of_mem_take h)
      · exact Or.inr (Or.inr (by simpa using h))
      · exact Or.inl (List.mem_of_mem_drop h)

theorem mem_signText {x : Binary64} (h : c ∈ (signText x).toList) : c = '-' := by
  unfold signText at h
  split at h
  · simpa using h
  · cases h

/-- The positional form of a real has digits, a sign, a point and the letters of two names. -/
theorem mem_positional {x : Binary64} (h : c ∈ x.positional.toList) :
    isDigit c = true ∨ c ∈ ['-', '.', 'N', 'a', 'i', 'n', 'f'] := by
  unfold Binary64.positional at h
  split at h
  · simp at h
    rcases h with rfl | rfl | rfl <;> decide
  split at h
  · rw [String.toList_append, List.mem_append] at h
    rcases h with h | h
    · exact Or.inr (by simp [mem_signText h])
    · simp at h
      rcases h with rfl | rfl | rfl <;> decide
  split at h
  · rw [String.toList_append, List.mem_append] at h
    rcases h with h | h
    · exact Or.inr (by simp [mem_signText h])
    · simp at h
      exact Or.inl (h ▸ by decide)
  · rw [String.toList_append, List.mem_append] at h
    rcases h with h | h
    · exact Or.inr (by simp [mem_signText h])
    · rcases mem_placePoint h with hdigit | rfl | rfl
      · exact Or.inl (isDigit_of_mem_toDigits (by simpa using hdigit))
      · exact Or.inl (by decide)
      · exact Or.inr (by decide)

theorem ofValues_eq_map (items : List Value) : ofValues items = items.map ofValue := by
  induction items with
  | nil => rfl
  | cons v rest ih => rw [ofValues, ih, List.map_cons]

/-- No value has a line break in its text. -/
theorem newline_not_mem_ofValue (v : Value) : '\n' ∉ (ofValue v).toList := by
  have both : (∀ v : Value, '\n' ∉ (ofValue v).toList) ∧ ∀ _ : ObjectPath, True := by
    apply Value.induction
    case boolean =>
      intro b
      cases b <;> decide
    case integer =>
      intro i h
      rcases isDigit_of_mem_decimal h with h | h
      · exact absurd h (by decide)
      · exact absurd h (by decide)
    case real =>
      intro r h
      rcases mem_positional h with h | h
      · exact absurd h (by decide)
      · exact absurd h (by decide)
    case text => exact fun s => not_mem_quoted (Or.inl rfl) s
    case reference => exact fun p _ => not_mem_quoted (Or.inl rfl) p.display
    case array =>
      intro items hitems
      have hjoin : '\n' ∉ (join ", " (ofValues items)).toList := by
        refine not_mem_join (by decide) fun s hs => ?_
        rw [ofValues_eq_map] at hs
        obtain ⟨v, hv, rfl⟩ := List.mem_map.1 hs
        exact hitems v hv
      simpa [ofValue] using hjoin
    case path => exact fun _ _ _ _ => trivial
  exact both.1 v

end Breaks

section Lines

/-- The line of a property, without its line break. -/
def propertyLine (name : String) (value : Option Value) : String :=
  indent 1 ++ name ++ " = " ++ (value.map ofValue).getD "NULL" ++ ";"

/-- The lines of an instance, without their line breaks. -/
def instanceLines (x : Instance) : List String :=
  ("instance of " ++ x.className ++ " \x7b") ::
    (x.properties.entries.map fun e => propertyLine e.1 e.2) ++ ["\x7d;"]

theorem ofInstance_eq (x : Instance) :
    ofInstance x = join "" ((instanceLines x).map (· ++ "\n")) := by
  rw [← String.toList_inj, toList_join_empty]
  simp [ofInstance, instanceLines, toList_join_empty, ofEntry, propertyLine, List.flatMap_map]

theorem newline_not_mem_propertyLine {name : String} (h : '\n' ∉ name.toList)
    (value : Option Value) : '\n' ∉ (propertyLine name value).toList := by
  have hindent : '\n' ∉ (indent 1).toList := by decide
  have hvalue : '\n' ∉ ((value.map ofValue).getD "NULL").toList := by
    cases value with
    | none => decide
    | some v => exact newline_not_mem_ofValue v
  simp [propertyLine, hindent, h, hvalue]

/-- If the names of an instance have no line breaks, its lines are the ones that were written. -/
theorem linesOf_ofInstance {x : Instance} (hclass : '\n' ∉ x.className.toList)
    (hnames : ∀ name ∈ x.properties.names, '\n' ∉ name.toList) :
    linesOf (ofInstance x) = instanceLines x := by
  rw [ofInstance_eq]
  refine linesOf_join fun s hs => ?_
  simp only [instanceLines, List.cons_append, List.mem_cons, List.mem_append, List.mem_map,
    List.not_mem_nil, or_false] at hs
  rcases hs with rfl | ⟨e, he, rfl⟩ | rfl
  · simp [hclass]
  · exact newline_not_mem_propertyLine (hnames _ (List.mem_map_of_mem he)) e.2
  · decide

end Lines

/-- Literals lose nothing and keep everything within their quotes. A text is written between quotes
with backslashes, quotes, line breaks and tabs replaced in this order; the literal is read back as
the text, its bare quotes are its first and its last character, and it has no raw line break and no
raw tab. An instance whose names have no line breaks has one line for each property, whatever its
value, one line before them and one behind. -/
theorem literals_contained :
    (∀ s, ofValue (.text s) = "\"" ++ replaced '\t' "\\t" (replaced '\n' "\\n"
      (replaced '"' "\\\"" (replaced '\\' "\\\\" s))) ++ "\"") ∧
    (∀ s, readLiteral? (ofValue (.text s)) = some s) ∧
    (∀ s t, ofValue (.text s) = ofValue (.text t) → s = t) ∧
    (∀ s, 2 ≤ (ofValue (.text s)).length ∧ ∀ i, IsBareQuote (ofValue (.text s)).toList i ↔
      i = 0 ∨ i + 1 = (ofValue (.text s)).length) ∧
    (∀ s, '\n' ∉ (ofValue (.text s)).toList ∧ '\t' ∉ (ofValue (.text s)).toList) ∧
    ∀ x : Instance, '\n' ∉ x.className.toList →
      (∀ name ∈ x.properties.names, '\n' ∉ name.toList) →
      linesOf (ofInstance x) = ("instance of " ++ x.className ++ " \x7b") ::
        (x.properties.entries.map fun e => propertyLine e.1 e.2) ++ ["\x7d;"] ∧
      (linesOf (ofInstance x)).length = x.properties.entries.length + 2 := by
  refine ⟨fun s => ?_, readLiteral?_quoted, fun s t => quoted_injective,
    fun s => ⟨two_le_length_quoted s, isBareQuote_quoted_iff s⟩,
    fun s => ⟨not_mem_quoted (Or.inl rfl) s, not_mem_quoted (Or.inr rfl) s⟩,
    fun x hclass hnames => ?_⟩
  · rw [ofValue, quoted, substitute_escapeChar]
  · have hlines := linesOf_ofInstance hclass hnames
    exact ⟨hlines, by simp [hlines, instanceLines]⟩

/-- An instance with a line break in a text, a reference whose key has quotes and a line break, a
list within a list, and a property without value. -/
def note : Instance where
  className := "TST_Note"
  properties := .ofList
    [("Text", some (.text "a\\\"\n")),
      ("About", some (.reference ⟨none, "TST_Disk", [("Name", .text "\"\n\"")]⟩)),
      ("Words", some (.array [.array [.text "\n"], .text "\t"])), ("Empty", none)]

/-- Four properties are six lines, and the text with all kinds of marks is within one of them. -/
theorem literals_contained_of_note :
    '\n' ∉ note.className.toList ∧ (∀ name ∈ note.properties.names, '\n' ∉ name.toList) ∧
    (linesOf (ofInstance note)).length = 6 ∧
    "   Text = \"a\\\\\\\"\\n\";" ∈ linesOf (ofInstance note) ∧
    "   About = \"TST_Disk.Name=\\\"\\\\\\\"\\n\\\\\\\"\\\"\";" ∈ linesOf (ofInstance note) := by
  have hclass : '\n' ∉ note.className.toList := by decide +kernel
  have hnames : ∀ name ∈ note.properties.names, '\n' ∉ name.toList := by decide +kernel
  obtain ⟨hlines, hlength⟩ := literals_contained.2.2.2.2.2 note hclass hnames
  refine ⟨hclass, hnames, ?_, ?_, ?_⟩
  · rw [hlength]
    decide +kernel
  · rw [hlines]
    decide +kernel
  · rw [hlines]
    decide +kernel

end CimConsole.Mof
