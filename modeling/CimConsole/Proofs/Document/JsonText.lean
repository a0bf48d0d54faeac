import CimConsole.Document.Json
import CimConsole.Document.JsonReader
import CimConsole.Proofs.Text.Lists
import CimConsole.Proofs.Text.Whole

/-!
JSON texts read back. A text between quotes and the digits of a number end where what follows them
starts, and between the marks of lists and records only blanks are added, which the reader skips. So
a document without reals is read back from its text if it does not nest deeper than the reader goes.
-/
namespace CimConsole.Document

open Text Number

/-- Documents without reals and plain scalars whose whole numbers have 64 bits. -/
inductive Exact : Document → Prop where
  | null : Exact .null
  | boolean (b : Bool) : Exact (.boolean b)
  | whole {i : Int} (hlow : -(Int.pow 2 63) ≤ i) (hhigh : i < Int.pow 2 64) : Exact (.whole i)
  | text (s : String) : Exact (.text s)
  | list {items : List Document} (h : ∀ d ∈ items, Exact d) : Exact (.list items)
  | record {fields : List (String × Document)} (h : ∀ f ∈ fields, Exact f.2) :
      Exact (.record fields)

mutual

/-- How many lists and records are open at a time. -/
def nesting : Document → Nat
  | .list items => nestingOf items + 1
  | .record fields => nestingUnder fields + 1
  | _ => 0

def nestingOf : List Document → Nat
  | [] => 0
  | d :: rest => max d.nesting (nestingOf rest)

def nestingUnder : List (String × Document) → Nat
  | [] => 0
  | (_, d) :: rest => max d.nesting (nestingUnder rest)

end

theorem nesting_le_of_mem {items : List Document} {d : Document} (h : d ∈ items) :
    d.nesting ≤ nestingOf items := by
  induction items with
  | nil => cases h
  | cons e rest ih =>
    rw [nestingOf]
    rcases List.mem_cons.1 h with rfl | h
    · exact Nat.le_max_left _ _
    · exact Nat.le_trans (ih h) (Nat.le_max_right _ _)

theorem nesting_le_of_mem_fields {fields : List (String × Document)} {f : String × Document}
    (h : f ∈ fields) : f.2.nesting ≤ nestingUnder fields := by
  induction fields with
  | nil => cases h
  | cons e rest ih =>
    rw [nestingUnder]
    rcases List.mem_cons.1 h with rfl | h
    · exact Nat.le_max_left _ _
    · exact Nat.le_trans (ih h) (Nat.le_max_right _ _)

section Strings

variable {fuel : Nat} {before rest : List Char}

theorem hexDigit?_lowerHex {n : Nat} (h : n < 16) : hexDigit? (lowerHex n) = some n := by
  have hall : ∀ n : Fin 16, hexDigit? (lowerHex n) = some n.val := by decide
  exact hall ⟨n, h⟩

/-- A control character is read from its number. -/
theorem readEscape_unit {c : Char} (h : c.toNat < 0x20) :
    readEscape ('u' :: '0' :: '0' :: lowerHex (c.toNat / 16) :: lowerHex (c.toNat % 16) :: rest) =
      some (c, rest) := by
  have hzero : hexDigit? '0' = some 0 := by decide
  have hhigh : hexDigit? (lowerHex (c.toNat / 16)) = some (c.toNat / 16) :=
    hexDigit?_lowerHex (by omega)
  have hlow : hexDigit? (lowerHex (c.toNat % 16)) = some (c.toNat % 16) :=
    hexDigit?_lowerHex (Nat.mod_lt _ (by decide))
  have hunit : readUnit ('0' :: '0' :: lowerHex (c.toNat / 16) :: lowerHex (c.toNat % 16) :: rest) =
      some (c.toNat, rest) := by
    simp only [readUnit, hzero, hhigh, hlow, Option.bind_eq_bind, Option.bind_some,
      Option.some.injEq, Prod.mk.injEq, and_true]
    omega
  rw [readEscape, readEscapedUnit, hunit]
  simp only [Option.bind_eq_bind, Option.bind_some]
  rw [if_neg (by omega), if_neg (by omega), Char.ofNat_toNat]

/-- A character is read from what it is written as. -/
theorem readChars_jsonChar (c : Char) :
    readChars (fuel + 1) before ((jsonChar c).toList ++ rest) =
      readChars fuel (c :: before) rest := by
  by_cases hquote : c = '"'
  · subst hquote
    rfl
  by_cases hslash : c = '\\'
  · subst hslash
    rfl
  by_cases hbreak : c = '\n'
  · subst hbreak
    rfl
  by_cases hreturn : c = '\r'
  · subst hreturn
    rfl
  by_cases htab : c = '\t'
  · subst htab
    rfl
  by_cases hback : c = '\x08'
  · subst hback
    rfl
  by_cases hfeed : c = '\x0c'
  · subst hfeed
    rfl
  by_cases hcontrol : c.toNat < 0x20
  · have hwritten : (jsonChar c).toList =
        ['\\', 'u', '0', '0', lowerHex (c.toNat / 16), lowerHex (c.toNat % 16)] := by
      simp [jsonChar, hquote, hslash, hbreak, hreturn, htab, hback, hfeed, hcontrol]
    simp [hwritten, readChars, readEscape_unit hcontrol]
  · have hwritten : (jsonChar c).toList = [c] := by
      simp [jsonChar, hquote, hslash, hbreak, hreturn, htab, hback, hfeed, hcontrol]
    simp [hwritten, readChars, hcontrol]

/-- Characters are read up to the closing quote. -/
theorem readChars_written {cs : List Char} (hfuel : cs.length < fuel) :
    readChars fuel before (cs.flatMap (fun c => (jsonChar c).toList) ++ '"' :: rest) =
      some (cs.reverse ++ before, rest) := by
  induction cs generalizing fuel before with
  | nil =>
    obtain ⟨fuel, rfl⟩ : ∃ n, fuel = n + 1 := ⟨fuel - 1, by omega⟩
    rfl
  | cons c cs ih =>
    rw [List.length_cons] at hfuel
    obtain ⟨fuel, rfl⟩ : ∃ n, fuel = n + 1 := ⟨fuel - 1, by omega⟩
    rw [List.flatMap_cons, List.append_assoc, readChars_jsonChar, ih (by omega), List.reverse_cons,
      List.append_assoc, List.singleton_append]

theorem length_le_written (cs : List Char) :
    cs.length ≤ (cs.flatMap fun c => (jsonChar c).toList).length := by
  induction cs with
  | nil => exact Nat.le_refl 0
  | cons c cs ih =>
    have hpos : 0 < (jsonChar c).toList.length := by
      refine List.length_pos_iff.2 fun hnil => ?_
      have hstep : readChars 2 [] ((jsonChar c).toList ++ ['"']) = readChars 1 [c] ['"'] :=
        readChars_jsonChar c
      rw [hnil] at hstep
      cases hstep
    rw [List.length_cons, List.flatMap_cons, List.length_append]
    omega

theorem toList_jsonText (s : String) :
    (jsonText s).toList = '"' :: (s.toList.flatMap (fun c => (jsonChar c).toList) ++ ['"']) := by
  simp only [jsonText, substitute, String.toList_append, String.toList_ofList]
  rfl

/-- A text is read from what follows its opening quote. -/
theorem readString_written (s : String) (rest : List Char) :
    readString (s.toList.flatMap (fun c => (jsonChar c).toList) ++ '"' :: rest) =
      some (s, rest) := by
  have hlength := length_le_written s.toList
  rw [readString, readChars_written]
  · simp
  · rw [List.length_append]
    omega

end Strings

section Numbers

variable {rest : List Char} {n : Nat}

/-- Nothing here goes on with a number. -/
def EndsNumber (rest : List Char) : Prop :=
  ∀ c ∈ rest.head?, isDigit c = false ∧ c ≠ '.' ∧ c ≠ 'e' ∧ c ≠ 'E'

theorem takeDigits_append {digits : List Char} {acc count : Nat} (hend : EndsNumber rest)
    (hdigits : ∀ c ∈ digits, isDigit c = true)
    (hfits : Nat.ofDigitChars 10 digits acc < Nat.pow 2 64) :
    takeDigits acc count (digits ++ rest) =
      (Nat.ofDigitChars 10 digits acc, count + digits.length, rest) := by
  induction digits generalizing acc count with
  | nil =>
    cases rest with
    | nil => rfl
    | cons c rest =>
      have hc := (hend c rfl).1
      simp [takeDigits, hc]
  | cons c digits ih =>
    have hnext : acc * 10 + digitValue c = 10 * acc + (c.toNat - '0'.toNat) := by
      rw [digitValue, Nat.mul_comm]
    rw [Nat.ofDigitChars_cons, ← hnext] at hfits ⊢
    have hlt := Nat.lt_of_le_of_lt (le_ofDigitChars digits _) hfits
    rw [List.cons_append, takeDigits, if_pos ⟨hdigits c List.mem_cons_self, hlt⟩,
      ih (fun d hd => hdigits d (List.mem_cons_of_mem c hd)) hfits, List.length_cons]
    simp only [Prod.mk.injEq, true_and, and_true]
    omega

/-- No number but zero is written with a zero in front. -/
theorem head_toDigits (h : 0 < n) : ∃ c cs, Nat.toDigits 10 n = c :: cs ∧ c ≠ '0' := by
  induction n using Nat.strongRecOn with
  | ind n ih =>
    by_cases hsmall : n < 10
    · refine ⟨n.digitChar, [], Nat.toDigits_of_lt_base hsmall, ?_⟩
      have hall : ∀ d : Fin 10, 0 < d.val → d.val.digitChar ≠ '0' := by decide
      exact hall ⟨n, hsmall⟩ h
    · obtain ⟨c, cs, hfront, hc⟩ := ih (n / 10) (by omega) (by omega)
      refine ⟨c, cs ++ [(n % 10).digitChar], ?_, hc⟩
      rw [Nat.toDigits_of_base_le (by decide) (by omega), hfront, List.cons_append]

theorem takeDigits_toDigits (hend : EndsNumber rest) (hfits : n < Nat.pow 2 64) :
    takeDigits 0 0 (Nat.toDigits 10 n ++ rest) = (n, (Nat.toDigits 10 n).length, rest) := by
  have hvalue : Nat.ofDigitChars 10 (Nat.toDigits 10 n) 0 = n := Nat.ofDigitChars_ten_toDigits
  rw [takeDigits_append hend (fun _ hc => isDigit_of_mem_toDigits hc) (by rwa [hvalue]), hvalue,
    Nat.zero_add]

/-- Digits with nothing behind them that goes on with a number are a whole number. -/
theorem readMagnitude_toDigits (negative : Bool) (hend : EndsNumber rest)
    (hfits : n < Nat.pow 2 64) :
    readMagnitude negative (Nat.toDigits 10 n ++ rest) = readMagnitude.finish negative n rest := by
  have hextra : (rest.takeWhile isDigit).length = 0 := by
    cases rest with
    | nil => rfl
    | cons c rest => rw [List.takeWhile_cons, if_neg (by simp [(hend c rfl).1])]; rfl
  rw [readMagnitude, takeDigits_toDigits hend hfits]
  simp only [hextra, Nat.lt_irrefl, if_false]
  -- a zero in front is refused before another digit, so the number zero is a case of its own
  by_cases hzero : n = 0
  · subst hzero
    cases rest with
    | nil => rfl
    | cons c rest =>
      change (if isDigit c = true then none else _) = _
      rw [(hend c rfl).1, if_neg Bool.false_ne_true]
  · obtain ⟨c, cs, hdigits, hc⟩ := head_toDigits (Nat.pos_of_ne_zero hzero)
    have hdigit : isDigit c = true := isDigit_of_mem_toDigits (hdigits ▸ List.mem_cons_self)
    simp [hdigits, hc, hdigit]

theorem finish_of_endsNumber (negative : Bool) (hend : EndsNumber rest) :
    readMagnitude.finish negative n rest =
      if !negative then some (.whole n, rest)
      else if n = 0 ∨ Nat.pow 2 63 < n then some (.real (Binary64.ofRatio true n 1), rest)
      else some (.whole (-(n : Int)), rest) := by
  unfold readMagnitude.finish
  split
  · exact absurd rfl (hend _ rfl).2.1
  · exact absurd rfl (hend _ rfl).2.2.1
  · exact absurd rfl (hend _ rfl).2.2.2
  · rfl

/-- What starts with a digit is read as a number. -/
theorem readJson_digit (levels : Nat) {c : Char} {cs : List Char} (hc : isDigit c = true) :
    readJson levels (c :: cs) = readMagnitude false (c :: cs) := by
  unfold readJson
  split
  case h_10 => rfl
  all_goals
    next heq =>
      obtain ⟨rfl, -⟩ := List.cons.inj heq
      exact absurd hc (by decide)

theorem readJson_whole (levels : Nat) {i : Int} (hlow : -(Int.pow 2 63) ≤ i)
    (hhigh : i < Int.pow 2 64) (hend : EndsNumber rest) :
    readJson levels ((toString i).toList ++ rest) = some (.whole i, rest) := by
  have hlow : -9223372036854775808 ≤ i := hlow
  have hhigh : i < 18446744073709551616 := hhigh
  have hfits : i.natAbs < Nat.pow 2 64 := by
    change i.natAbs < 18446744073709551616
    omega
  rw [toList_decimal]
  split
  case isTrue hneg =>
    have hread : readJson levels ('-' :: (Nat.toDigits 10 i.natAbs ++ rest)) =
        readMagnitude true (Nat.toDigits 10 i.natAbs ++ rest) := by
      cases levels <;> rfl
    have hmagnitude : ¬(i.natAbs = 0 ∨ Nat.pow 2 63 < i.natAbs) := by
      change ¬(i.natAbs = 0 ∨ 9223372036854775808 < i.natAbs)
      omega
    rw [List.cons_append, hread, readMagnitude_toDigits true hend hfits,
      finish_of_endsNumber true hend, Bool.not_true, if_neg Bool.false_ne_true, if_neg hmagnitude,
      show -(i.natAbs : Int) = i by omega]
  case isFalse hpos =>
    obtain ⟨c, cs, hdigits⟩ :=
      List.exists_cons_of_ne_nil (Nat.toDigits_ne_nil (n := i.natAbs) (b := 10))
    have hc : isDigit c = true := isDigit_of_mem_toDigits (hdigits ▸ List.mem_cons_self)
    have hread : readJson levels (Nat.toDigits 10 i.natAbs ++ rest) =
        readMagnitude false (Nat.toDigits 10 i.natAbs ++ rest) := by
      rw [hdigits, List.cons_append, readJson_digit levels hc]
    rw [hread, readMagnitude_toDigits false hend hfits, finish_of_endsNumber false hend,
      Bool.not_false, if_pos rfl, show (i.natAbs : Int) = i by omega]

end Numbers

section Lines

variable {item : Reader Document} {inner outer fuel : Nat} {cs rest : List Char}

/-- A new line at a depth. -/
def lineStart (depth : Nat) : List Char := '\n' :: List.replicate (2 * depth) ' '

theorem skipJsonBlanks_lineStart (depth : Nat) (cs : List Char) :
    skipJsonBlanks (lineStart depth ++ cs) = skipJsonBlanks cs := by
  refine List.dropWhile_append_of_pos fun c hc => ?_
  rcases List.mem_cons.1 hc with rfl | hc
  · rfl
  · rw [(List.mem_replicate.1 hc).2]
    rfl

theorem skipJsonBlanks_cons {c : Char} (hc : isJsonBlank c = false) (cs : List Char) :
    skipJsonBlanks (c :: cs) = c :: cs :=
  List.dropWhile_cons_of_neg (by simp [hc])

/-- The text starts like a value, and the value is read off it whatever follows that does not go on
with a number. -/
structure ReadsBack (read : Reader Document) (d : Document) (s : String) : Prop where
  starts : ∃ c cs, s.toList = c :: cs ∧ isJsonBlank c = false ∧ c ≠ ']'
  reads : ∀ {rest}, EndsNumber rest → read (s.toList ++ rest) = some (d, rest)

theorem ReadsBack.skipJsonBlanks {d : Document} {s : String} (h : ReadsBack item d s)
    (rest : List Char) : skipJsonBlanks (s.toList ++ rest) = s.toList ++ rest := by
  obtain ⟨c, cs, hs, hc, -⟩ := h.starts
  rw [hs, List.cons_append, skipJsonBlanks_cons hc]

/-- The text behind the first item of a list or record: the other items, each on a line of its own
behind a comma, and the closing mark on the last line. -/
def following (inner outer : Nat) (close : Char) (rest : List Char) : List String → List Char
  | [] => lineStart outer ++ close :: rest
  | s :: texts => ',' :: (lineStart inner ++ (s.toList ++ following inner outer close rest texts))

theorem join_following (inner outer : Nat) (close : Char) (rest : List Char) (s : String)
    (texts : List String) :
    (join ("," ++ String.ofList (lineStart inner)) (s :: texts)).toList ++
        (lineStart outer ++ close :: rest) =
      s.toList ++ following inner outer close rest texts := by
  induction texts generalizing s with
  | nil => rfl
  | cons t texts ih =>
    have hsep : ("," ++ String.ofList (lineStart inner)).toList = ',' :: lineStart inner := by
      simp
    rw [join_cons_cons, String.toList_append, String.toList_append, hsep, List.append_assoc, ih t,
      List.append_assoc, List.cons_append, following]

theorem length_le_following (inner outer : Nat) (close : Char) (rest : List Char)
    (texts : List String) : texts.length ≤ (following inner outer close rest texts).length := by
  induction texts with
  | nil => exact Nat.zero_le _
  | cons s texts ih =>
    simp only [following, List.length_cons, List.length_append]
    omega

theorem endsNumber_following {close : Char} {texts : List String} :
    EndsNumber (following inner outer close rest texts) := by
  intro c hc
  cases texts with
  | nil =>
    cases hc
    decide
  | cons s texts =>
    cases hc
    decide

/-- The items of a list are read if each of them is. -/
theorem readItems_following {text : Document → String} {d : Document} {ds : List Document}
    (h : ∀ e ∈ d :: ds, ReadsBack item e (text e)) (hfuel : ds.length < fuel)
    (hcs : skipJsonBlanks cs = (text d).toList ++ following inner outer ']' rest (ds.map text)) :
    readItems item fuel cs = some (d :: ds, rest) := by
  induction ds generalizing d fuel cs with
  | nil =>
    obtain ⟨fuel, rfl⟩ : ∃ n, fuel = n + 1 := ⟨fuel - 1, by omega⟩
    have hskip : skipJsonBlanks (following inner outer ']' rest []) = ']' :: rest := by
      rw [following, skipJsonBlanks_lineStart, skipJsonBlanks_cons (by decide)]
    rw [readItems, hcs, (h d List.mem_cons_self).reads endsNumber_following]
    simp [hskip]
  | cons e ds ih =>
    obtain ⟨fuel, rfl⟩ : ∃ n, fuel = n + 1 := ⟨fuel - 1, by omega⟩
    have hrest : ∀ x ∈ e :: ds, ReadsBack item x (text x) :=
      fun x hx => h x (List.mem_cons_of_mem d hx)
    have hstart : skipJsonBlanks (lineStart inner ++
        ((text e).toList ++ following inner outer ']' rest (ds.map text))) =
          (text e).toList ++ following inner outer ']' rest (ds.map text) := by
      rw [skipJsonBlanks_lineStart, (hrest e List.mem_cons_self).skipJsonBlanks]
    have hnext := ih hrest (Nat.lt_of_succ_lt_succ hfuel) hstart
    have hskip : skipJsonBlanks (following inner outer ']' rest ((e :: ds).map text)) =
        ',' :: (lineStart inner ++
          ((text e).toList ++ following inner outer ']' rest (ds.map text))) := by
      rw [List.map_cons, following, skipJsonBlanks_cons (by decide)]
    rw [readItems, hcs, (h d List.mem_cons_self).reads endsNumber_following]
    simp only [Option.bind_eq_bind, Option.bind_some, hskip, hnext]

/-- The line of a field. -/
def fieldText (text : Document → String) (f : String × Document) : String :=
  jsonText f.1 ++ ": " ++ text f.2

theorem toList_fieldText (text : Document → String) (f : String × Document) :
    (fieldText text f).toList =
      '"' :: (f.1.toList.flatMap (fun c => (jsonChar c).toList) ++
        '"' :: ':' :: ' ' :: (text f.2).toList) := by
  rw [fieldText, String.toList_append, String.toList_append, toList_jsonText, List.append_assoc,
    List.cons_append, List.append_assoc]
  rfl

theorem skipJsonBlanks_fieldText (text : Document → String) (f : String × Document)
    (rest : List Char) :
    skipJsonBlanks ((fieldText text f).toList ++ rest) = (fieldText text f).toList ++ rest := by
  rw [toList_fieldText, List.cons_append, skipJsonBlanks_cons (by decide)]

theorem ReadsBack.skipJsonBlanks_space {d : Document} {s : String} (h : ReadsBack item d s)
    (rest : List Char) :
    Document.skipJsonBlanks (' ' :: (s.toList ++ rest)) = s.toList ++ rest := by
  rw [Document.skipJsonBlanks, List.dropWhile_cons_of_pos (by decide)]
  exact h.skipJsonBlanks rest

section Field

variable {text : Document → String} {f : String × Document} {more after : List Char}

/-- A field is the last one if the brace follows its value. -/
theorem readFields_last (h : ReadsBack item f.2 (text f.2)) (hend : EndsNumber rest)
    (hcs : skipJsonBlanks cs = (fieldText text f).toList ++ rest)
    (hrest : skipJsonBlanks rest = '\x7d' :: after) :
    readFields item (fuel + 1) cs = some ([f], after) := by
  rw [toList_fieldText, List.cons_append, List.append_assoc] at hcs
  rw [readFields, hcs]
  simp only [List.cons_append, readString_written, Option.bind_eq_bind, Option.bind_some,
    skipJsonBlanks_cons (show isJsonBlank ':' = false by decide), h.skipJsonBlanks_space,
    h.reads hend, hrest]

/-- Behind a field with a comma after its value the others are read. -/
theorem readFields_more (h : ReadsBack item f.2 (text f.2)) (hend : EndsNumber rest)
    (hcs : skipJsonBlanks cs = (fieldText text f).toList ++ rest)
    (hrest : skipJsonBlanks rest = ',' :: more) {fs : List (String × Document)}
    (hmore : readFields item fuel more = some (fs, after)) :
    readFields item (fuel + 1) cs = some (f :: fs, after) := by
  rw [toList_fieldText, List.cons_append, List.append_assoc] at hcs
  rw [readFields, hcs]
  simp only [List.cons_append, readString_written, Option.bind_eq_bind, Option.bind_some,
    skipJsonBlanks_cons (show isJsonBlank ':' = false by decide), h.skipJsonBlanks_space,
    h.reads hend, hrest, hmore]

end Field

/-- The fields of a record are read if the value of each of them is. -/
theorem readFields_following {text : Document → String} {f : String × Document}
    {fs : List (String × Document)} (h : ∀ e ∈ f :: fs, ReadsBack item e.2 (text e.2))
    (hfuel : fs.length < fuel)
    (hcs : skipJsonBlanks cs =
      (fieldText text f).toList ++ following inner outer '\x7d' rest (fs.map (fieldText text))) :
    readFields item fuel cs = some (f :: fs, rest) := by
  induction fs generalizing f fuel cs with
  | nil =>
    obtain ⟨fuel, rfl⟩ : ∃ n, fuel = n + 1 := ⟨fuel - 1, by omega⟩
    have hskip : skipJsonBlanks (following inner outer '\x7d' rest []) = '\x7d' :: rest := by
      rw [following, skipJsonBlanks_lineStart, skipJsonBlanks_cons (by decide)]
    exact readFields_last (h f List.mem_cons_self) endsNumber_following hcs hskip
  | cons e fs ih =>
    obtain ⟨fuel, rfl⟩ : ∃ n, fuel = n + 1 := ⟨fuel - 1, by omega⟩
    have hrest : ∀ x ∈ e :: fs, ReadsBack item x.2 (text x.2) :=
      fun x hx => h x (List.mem_cons_of_mem f hx)
    have hstart : skipJsonBlanks (lineStart inner ++ ((fieldText text e).toList ++
        following inner outer '\x7d' rest (fs.map (fieldText text)))) =
          (fieldText text e).toList ++
            following inner outer '\x7d' rest (fs.map (fieldText text)) := by
      rw [skipJsonBlanks_lineStart, skipJsonBlanks_fieldText]
    have hnext := ih hrest (Nat.lt_of_succ_lt_succ hfuel) hstart
    have hskip :
        skipJsonBlanks (following inner outer '\x7d' rest ((e :: fs).map (fieldText text))) =
          ',' :: (lineStart inner ++ ((fieldText text e).toList ++
            following inner outer '\x7d' rest (fs.map (fieldText text)))) := by
      rw [List.map_cons, following, skipJsonBlanks_cons (by decide)]
    exact readFields_more (h f List.mem_cons_self) endsNumber_following hcs hskip hnext

end Lines

theorem prettyItems_eq_map (depth : Nat) (items : List Document) :
    prettyItems depth items = items.map (toPrettyJson depth) := by
  induction items with
  | nil => rfl
  | cons d items ih => rw [prettyItems, ih, List.map_cons]

theorem prettyFields_eq_map (depth : Nat) (fields : List (String × Document)) :
    prettyFields depth fields = fields.map (fieldText (toPrettyJson depth)) := by
  induction fields with
  | nil => rfl
  | cons f fields ih => rw [prettyFields, ih, List.map_cons]; rfl

/-- The text of a list or record that is not empty. -/
theorem toList_lines {mark closing s : String} {opening close : Char}
    (hmark : mark.toList = [opening]) (hclosing : closing.toList = [close]) (depth : Nat)
    (texts : List String) (rest : List Char) :
    (mark ++ ("\n" ++ repeated ' ' (2 * depth + 2)) ++
        join ("," ++ ("\n" ++ repeated ' ' (2 * depth + 2))) (s :: texts) ++ "\n" ++
        repeated ' ' (2 * depth) ++ closing).toList ++ rest =
      opening :: (lineStart (depth + 1) ++
        (s.toList ++ following (depth + 1) depth close rest texts)) := by
  have hstart (n : Nat) : "\n" ++ repeated ' ' (2 * n) = String.ofList (lineStart n) := by
    rw [repeated, lineStart, ← List.singleton_append, String.ofList_append]
  have houter : "\n".toList ++ (repeated ' ' (2 * depth)).toList = lineStart depth := by
    rw [← String.toList_append, hstart, String.toList_ofList]
  have hinner := hstart (depth + 1)
  rw [Nat.mul_add, Nat.mul_one] at hinner
  rw [hinner, ← join_following, ← houter]
  simp only [String.toList_append, String.toList_ofList, List.append_assoc, hmark, hclosing,
    List.cons_append, List.nil_append]

theorem readJson_quote (levels : Nat) {cs rest : List Char} {s : String}
    (h : readString cs = some (s, rest)) : readJson levels ('"' :: cs) = some (text s, rest) := by
  cases levels <;> rw [readJson, h] <;> rfl

theorem readJson_list {levels : Nat} {c : Char} {cs inside rest : List Char} {ds : List Document}
    (hinside : skipJsonBlanks inside = c :: cs) (hc : c ≠ ']')
    (hitems : readItems (readJson levels) ((c :: cs).length + 1) (c :: cs) = some (ds, rest)) :
    readJson (levels + 1) ('[' :: inside) = some (list ds, rest) := by
  rw [readJson, hinside]
  split
  · next heq => exact absurd (List.cons.inj heq).1 hc
  · rw [hitems]
    rfl

theorem readJson_record {levels : Nat} {c : Char} {cs inside rest : List Char}
    {fs : List (String × Document)} (hinside : skipJsonBlanks inside = c :: cs) (hc : c ≠ '\x7d')
    (hfields : readFields (readJson levels) ((c :: cs).length + 1) (c :: cs) = some (fs, rest)) :
    readJson (levels + 1) ('\x7b' :: inside) = some (record fs, rest) := by
  rw [readJson, hinside]
  split
  · next heq => exact absurd (List.cons.inj heq).1 hc
  · rw [hfields]
    rfl

/-- A list is read from its lines. -/
theorem readsBack_list {levels depth : Nat} {d : Document} {ds : List Document}
    (h : ∀ e ∈ d :: ds, ReadsBack (readJson levels) e (e.toPrettyJson (depth + 1))) :
    ReadsBack (readJson (levels + 1)) (list (d :: ds)) ((list (d :: ds)).toPrettyJson depth) := by
  have htext (rest : List Char) : ((list (d :: ds)).toPrettyJson depth).toList ++ rest =
      '[' :: (lineStart (depth + 1) ++ ((d.toPrettyJson (depth + 1)).toList ++
        following (depth + 1) depth ']' rest (ds.map (toPrettyJson (depth + 1))))) := by
    rw [toPrettyJson, prettyItems_eq_map]
    exact toList_lines (by simp) (by simp) depth _ rest
  obtain ⟨c, cs, hd, hblank, hc⟩ := (h d List.mem_cons_self).starts
  refine ⟨⟨'[', _, by simpa only [List.append_nil] using htext [], by decide, by decide⟩,
    fun {rest} _ => ?_⟩
  have hskip := (h d List.mem_cons_self).skipJsonBlanks
    (following (depth + 1) depth ']' rest (ds.map (toPrettyJson (depth + 1))))
  have hinside := (skipJsonBlanks_lineStart (depth + 1) _).trans hskip
  have hlength := length_le_following (depth + 1) depth ']' rest
    (ds.map (toPrettyJson (depth + 1)))
  rw [List.length_map] at hlength
  have hfuel : ds.length < ((d.toPrettyJson (depth + 1)).toList ++
      following (depth + 1) depth ']' rest (ds.map (toPrettyJson (depth + 1)))).length + 1 := by
    rw [List.length_append]
    omega
  have hitems := readItems_following h hfuel hskip
  rw [htext]
  rw [hd, List.cons_append] at hinside hitems ⊢
  exact readJson_list hinside hc hitems

/-- A record is read from its lines. -/
theorem readsBack_record {levels depth : Nat} {f : String × Document}
    {fs : List (String × Document)}
    (h : ∀ e ∈ f :: fs, ReadsBack (readJson levels) e.2 (e.2.toPrettyJson (depth + 1))) :
    ReadsBack (readJson (levels + 1)) (record (f :: fs))
      ((record (f :: fs)).toPrettyJson depth) := by
  let text := fieldText (toPrettyJson (depth + 1))
  have htext (rest : List Char) : ((record (f :: fs)).toPrettyJson depth).toList ++ rest =
      '\x7b' :: (lineStart (depth + 1) ++
        ((text f).toList ++ following (depth + 1) depth '\x7d' rest (fs.map text))) := by
    rw [toPrettyJson, prettyFields_eq_map]
    exact toList_lines (by simp) (by simp) depth _ rest
  have hf : (text f).toList = _ := toList_fieldText (toPrettyJson (depth + 1)) f
  refine ⟨⟨'\x7b', _, by simpa only [List.append_nil] using htext [], by decide, by decide⟩,
    fun {rest} _ => ?_⟩
  have hskip := skipJsonBlanks_fieldText (toPrettyJson (depth + 1)) f
    (following (depth + 1) depth '\x7d' rest (fs.map text))
  have hinside := (skipJsonBlanks_lineStart (depth + 1) _).trans hskip
  have hlength := length_le_following (depth + 1) depth '\x7d' rest (fs.map text)
  rw [List.length_map] at hlength
  have hfuel : fs.length < ((text f).toList ++
      following (depth + 1) depth '\x7d' rest (fs.map text)).length + 1 := by
    rw [List.length_append]
    omega
  have hfields := readFields_following h hfuel hskip
  rw [htext]
  rw [hf, List.cons_append] at hinside hfields ⊢
  exact readJson_record hinside (by decide) hfields

/-- A document is read back from its text, whatever follows that does not go on with a number. -/
theorem Exact.readsBack {d : Document} (h : d.Exact) {levels : Nat} (hlevels : d.nesting ≤ levels)
    (depth : Nat) : ReadsBack (readJson levels) d (d.toPrettyJson depth) := by
  -- by induction on the document: what is inside stands one level and one depth further in
  induction h generalizing levels depth with
  | null =>
    have htext : (Document.null.toPrettyJson depth).toList = ['n', 'u', 'l', 'l'] := by
      simp [toPrettyJson]
    exact ⟨⟨_, _, htext, by decide, by decide⟩, fun _ => by rw [htext]; cases levels <;> rfl⟩
  | boolean b =>
    cases b with
    | false =>
      have htext : ((Document.boolean false).toPrettyJson depth).toList =
          ['f', 'a', 'l', 's', 'e'] := by
        simp [toPrettyJson]
      exact ⟨⟨_, _, htext, by decide, by decide⟩, fun _ => by rw [htext]; cases levels <;> rfl⟩
    | true =>
      have htext : ((Document.boolean true).toPrettyJson depth).toList = ['t', 'r', 'u', 'e'] := by
        simp [toPrettyJson]
      exact ⟨⟨_, _, htext, by decide, by decide⟩, fun _ => by rw [htext]; cases levels <;> rfl⟩
  | @whole i hlow hhigh =>
    rw [toPrettyJson]
    refine ⟨?_, fun {rest} hend => readJson_whole levels hlow hhigh hend⟩
    have hne : (toString i).toList ≠ [] := by
      rw [toList_decimal]
      split
      · exact List.cons_ne_nil _ _
      · exact Nat.toDigits_ne_nil
    obtain ⟨c, cs, hdecimal⟩ := List.exists_cons_of_ne_nil hne
    have hc : isDigit c = true ∨ c = '-' :=
      isDigit_of_mem_decimal (by rw [hdecimal]; exact List.mem_cons_self)
    have hblank : isJsonBlank c = false := by
      simp only [isJsonBlank, Bool.or_eq_false_iff, beq_eq_false_iff_ne]
      refine ⟨⟨⟨?_, ?_⟩, ?_⟩, ?_⟩
      all_goals
        rintro rfl
        exact absurd hc (by decide)
    refine ⟨c, cs, hdecimal, hblank, ?_⟩
    rintro rfl
    exact absurd hc (by decide)
  | text s =>
    refine ⟨⟨'"', _, toList_jsonText s, by decide, by decide⟩, fun {rest} _ => ?_⟩
    rw [toPrettyJson, toList_jsonText, List.cons_append, List.append_assoc, List.singleton_append]
    exact readJson_quote levels (readString_written s rest)
  | @list items hitems ih =>
    obtain ⟨levels, rfl⟩ : ∃ n, levels = n + 1 := ⟨levels - 1, by rw [nesting] at hlevels; omega⟩
    rw [nesting] at hlevels
    cases items with
    | nil =>
      have htext : ((Document.list []).toPrettyJson depth).toList = ['[', ']'] := by
        simp [toPrettyJson]
      exact ⟨⟨_, _, htext, by decide, by decide⟩, fun _ => by rw [htext]; rfl⟩
    | cons d ds =>
      exact readsBack_list fun e he =>
        ih e he (by have hle := nesting_le_of_mem he; omega) (depth + 1)
  | @record fields hfields ih =>
    obtain ⟨levels, rfl⟩ : ∃ n, levels = n + 1 := ⟨levels - 1, by rw [nesting] at hlevels; omega⟩
    rw [nesting] at hlevels
    cases fields with
    | nil =>
      have htext : ((Document.record []).toPrettyJson depth).toList = ['\x7b', '\x7d'] := by
        simp [toPrettyJson]
      exact ⟨⟨_, _, htext, by decide, by decide⟩, fun _ => by rw [htext]; rfl⟩
    | cons f fs =>
      exact readsBack_record fun e he =>
        ih e he (by have hle := nesting_le_of_mem_fields he; omega) (depth + 1)

/-- A document that does not nest deeper than the reader goes is read from its text, also if blanks
follow. -/
theorem Exact.ofJson?_toPrettyJson {d : Document} (h : d.Exact) (hnesting : d.nesting ≤ 127)
    {after : String} (hafter : ∀ c ∈ after.toList, isJsonBlank c = true) :
    ofJson? (d.toPrettyJson 0 ++ after) = some d := by
  have hback := h.readsBack hnesting 0
  have hend : EndsNumber after.toList := by
    intro c hc
    have hblank := hafter c (List.mem_of_mem_head? hc)
    simp only [isJsonBlank, Bool.or_eq_true, beq_iff_eq] at hblank
    rcases hblank with ((rfl | rfl) | rfl) | rfl <;> decide
  have hblanks : skipJsonBlanks after.toList = [] := by
    rw [← List.append_nil after.toList, skipJsonBlanks, List.dropWhile_append_of_pos hafter]
    rfl
  rw [ofJson?, String.toList_append, hback.skipJsonBlanks, hback.reads hend]
  simp only [Option.bind_eq_bind, Option.bind_some, hblanks, List.isEmpty_nil, if_true]

end CimConsole.Document
