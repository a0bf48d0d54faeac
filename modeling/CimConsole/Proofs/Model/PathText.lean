import CimConsole.Proofs.Model.PathReader
import CimConsole.Proofs.Text.Whole

/-!
The text of an object path read back. Quoting a value hides every character of it from the
reader of bindings, so the text of a writable path falls apart at the marks that were put
between its parts, and each value reads back by an induction on how deep the path nests.
-/
namespace CimConsole

open Text

/-- A character within quotes. -/
def quoteChar (c : Char) : List Char :=
  if c = '\\' then ['\\', '\\'] else if c = '"' then ['\\', '"'] else [c]

theorem toList_quoteKey (s : String) :
    (quoteKey s).toList = '"' :: (s.toList.flatMap quoteChar ++ ['"']) := by
  have hchar : ∀ c : Char, (if c == '\\' then "\\\\" else if c == '"' then "\\\"" else
      c.toString).toList = quoteChar c := by
    intro c
    by_cases hb : c = '\\'
    · simp [quoteChar, hb]
    by_cases hq : c = '"'
    · simp [quoteChar, hq]
    · simp [quoteChar, hb, hq]
  simp only [quoteKey, substitute, String.toList_append, String.toList_ofList, hchar]
  rfl

namespace ObjectPath

/-- A value as the reader of bindings finds it. -/
def rawOf : Value → RawValue
  | .text s => .quoted s.toList
  | .reference p => .quoted p.display.toList
  | v => .bare v.keyText.toList

theorem readQuoted_quoted (cs rest : List Char) :
    readQuoted (cs.flatMap quoteChar ++ '"' :: rest) = some (cs, rest) := by
  induction cs with
  | nil => rfl
  | cons c cs ih =>
    rw [List.flatMap_cons, List.append_assoc]
    by_cases hb : c = '\\'
    · subst hb
      simp [quoteChar, readQuoted, ih]
    by_cases hq : c = '"'
    · subst hq
      simp [quoteChar, readQuoted, ih]
    · simp [quoteChar, hb, hq, readQuoted, ih]

theorem readRaw_bare {cs after : List Char}
    (hcs : ∀ c ∈ cs, c ≠ ',' ∧ c ≠ '"' ∧ isBlank c = false)
    (hafter : after = [] ∨ ∃ more, after = ',' :: more) :
    readRaw (cs ++ after) = .ok (.bare cs, after) := by
  have htake : (cs ++ after).takeWhile (· != ',') = cs ∧
      (cs ++ after).dropWhile (· != ',') = after := by
    have hkeep : ∀ c ∈ cs, (c != ',') = true := fun c hc => bne_iff_ne.2 (hcs c hc).1
    rw [List.takeWhile_append_of_pos hkeep, List.dropWhile_append_of_pos hkeep]
    rcases hafter with rfl | ⟨more, rfl⟩ <;> simp
  unfold readRaw
  split
  · next inner hquote =>
    exfalso
    cases cs with
    | nil => rcases hafter with rfl | ⟨more, rfl⟩ <;> cases hquote
    | cons c rest => exact (hcs c List.mem_cons_self).2.1 (List.cons.inj hquote).1
  · rw [htake.1, htake.2, dropBothWhile_of_all fun c hc => (hcs c hc).2.2]

/-- Values without quotes are written in word characters and a sign. -/
theorem unquoted_keyText {cs : List Char} (h : ∀ c ∈ cs, isWordChar c = true ∨ c = '-') :
    ∀ c ∈ cs, c ≠ ',' ∧ c ≠ '"' ∧ isBlank c = false := by
  intro c hc
  rcases h c hc with hword | rfl
  · refine ⟨?_, ?_, isBlank_of_isWordChar hword⟩
    · rintro rfl
      revert hword
      decide
    · rintro rfl
      revert hword
      decide
  · decide

theorem word_integer (i : Int64) :
    ∀ c ∈ (Value.integer i).keyText.toList, isWordChar c = true ∨ c = '-' := by
  intro c hc
  rcases isDigit_of_mem_decimal hc with hdigit | rfl
  · exact Or.inl (by simp [isWordChar, isLetterOrDigit, hdigit])
  · exact Or.inr rfl

theorem word_boolean (b : Bool) :
    ∀ c ∈ (Value.boolean b).keyText.toList, isWordChar c = true ∨ c = '-' := by
  have hword : (Value.boolean b).keyText.toList.all isWordChar = true := by
    cases b <;> rfl
  exact fun c hc => Or.inl (List.all_eq_true.1 hword c hc)

/-- The text of a writable value ends where the next binding starts. -/
theorem readRaw_keyText {v : Value} (hv : v.Writable) {after : List Char}
    (hafter : after = [] ∨ ∃ more, after = ',' :: more) :
    readRaw (v.keyText.toList ++ after) = .ok (rawOf v, after) := by
  cases hv with
  | boolean b => exact readRaw_bare (unquoted_keyText (word_boolean b)) hafter
  | integer i => exact readRaw_bare (unquoted_keyText (word_integer i)) hafter
  | text s _ =>
    rw [Value.keyText, toList_quoteKey, List.cons_append, List.append_assoc]
    simp [readRaw, readQuoted_quoted, rawOf]
  | reference p _ _ =>
    rw [Value.keyText, toList_quoteKey, List.cons_append, List.append_assoc]
    simp [readRaw, readQuoted_quoted, rawOf]

/-- The bindings of a path as they stand in its text. -/
def bindingText (keys : List (String × Value)) : List Char := (join "," (keyTexts keys)).toList

theorem bindingText_one (name : String) (v : Value) :
    bindingText [(name, v)] = name.toList ++ '=' :: v.keyText.toList := by
  simp [bindingText, keyTexts, join]

theorem bindingText_more (name : String) (v : Value) {rest : List (String × Value)}
    (hrest : rest ≠ []) :
    bindingText ((name, v) :: rest) =
      name.toList ++ '=' :: (v.keyText.toList ++ ',' :: bindingText rest) := by
  cases rest with
  | nil => exact absurd rfl hrest
  | cons e others => simp [bindingText, keyTexts, join]

theorem cutFirst_binding {name : String} (hname : isIdentifier name.toList = true)
    (after : List Char) : cutFirst '=' (name.toList ++ '=' :: after) = some (name.toList, after) :=
  cutFirst_eq_some_iff.2 ⟨rfl, not_mem_identifier hname (by decide)⟩

theorem dropBothWhile_identifier {cs : List Char} (h : isIdentifier cs = true) :
    dropBothWhile isBlank cs = cs :=
  dropBothWhile_of_all fun _ hc => isBlank_of_isWordChar (isWordChar_of_mem h hc)

theorem readBindings_binding {fuel : Nat} {name : String} {v : Value}
    (hname : isIdentifier name.toList = true) (hv : v.Writable) {after : List Char}
    (hafter : after = [] ∨ ∃ more, after = ',' :: more) :
    readBindings (fuel + 1) (name.toList ++ '=' :: (v.keyText.toList ++ after)) =
      match after with
      | [] => .ok [(name, rawOf v)]
      | _ :: more => (readBindings fuel more).map ((name, rawOf v) :: ·) := by
  obtain ⟨c, cs, hcons⟩ : ∃ c cs, name.toList ++ '=' :: (v.keyText.toList ++ after) = c :: cs :=
    List.exists_cons_of_ne_nil (by simp)
  have hcut := cutFirst_binding hname (v.keyText.toList ++ after)
  rw [hcons] at hcut ⊢
  simp only [readBindings, hcut, dropBothWhile_identifier hname, hname, readRaw_keyText hv hafter,
    Bool.not_true, Bool.false_eq_true, if_false, String.ofList_toList, ok_bind]
  rcases hafter with rfl | ⟨more, rfl⟩
  · rfl
  · rfl

/-- The bindings of a path fall apart where they were joined. -/
theorem readBindings_bindingText {fuel : Nat} {keys : List (String × Value)}
    (hids : ∀ e ∈ keys, isIdentifier e.1.toList = true) (hvalues : ∀ e ∈ keys, e.2.Writable)
    (hkeys : keys ≠ []) (hfuel : (bindingText keys).length ≤ fuel) :
    readBindings fuel (bindingText keys) = .ok (keys.map fun e => (e.1, rawOf e.2)) := by
  induction keys generalizing fuel with
  | nil => exact absurd rfl hkeys
  | cons e rest ih =>
    obtain ⟨name, v⟩ := e
    have hname := hids _ List.mem_cons_self
    have hv := hvalues _ List.mem_cons_self
    by_cases hrest : rest = []
    · subst hrest
      rw [bindingText_one] at hfuel ⊢
      obtain ⟨fuel, rfl⟩ : ∃ n, fuel = n + 1 := ⟨fuel - 1, by
        simp only [List.length_append, List.length_cons] at hfuel
        omega⟩
      have h : readBindings (fuel + 1) (name.toList ++ '=' :: (v.keyText.toList ++ [])) =
          .ok [(name, rawOf v)] := readBindings_binding hname hv (Or.inl rfl)
      rwa [List.append_nil] at h
    · rw [bindingText_more name v hrest] at hfuel ⊢
      simp only [List.length_append, List.length_cons] at hfuel
      obtain ⟨fuel, rfl⟩ : ∃ n, fuel = n + 1 := ⟨fuel - 1, by omega⟩
      rw [readBindings_binding hname hv (Or.inr ⟨_, rfl⟩)]
      dsimp only
      rw [ih (fun e he => hids e (List.mem_cons_of_mem _ he))
        (fun e he => hvalues e (List.mem_cons_of_mem _ he)) hrest (by omega)]
      rfl

theorem bindKeys_rawOf {f : List Char → Except PathError ObjectPath} {g : Value → Value}
    {keys : List (String × Value)} (h : ∀ e ∈ keys, readValue f (rawOf e.2) = .ok (g e.2)) :
    bindKeys f (keys.map fun e => (e.1, rawOf e.2)) = .ok (keys.map fun e => (e.1, g e.2)) := by
  induction keys with
  | nil => rfl
  | cons e rest ih =>
    rw [List.map_cons, bindKeys, h e List.mem_cons_self,
      ih fun d hd => h d (List.mem_cons_of_mem _ hd)]
    rfl

/-- Namespace and class name as they stand in the text of a path. -/
def headText (space : Option String) (name : String) : List Char :=
  (spaceText space).toList ++ name.toList

theorem headText_some (s name : String) :
    headText (some s) name = '/' :: s.toList.dropWhile (· == '/') ++ ':' :: name.toList := by
  simp [headText, spaceText, trimStartMark]

theorem toList_display (space : Option String) (name : String) (keys : List (String × Value)) :
    (ObjectPath.mk space name keys).display.toList =
      headText space name ++ if keys = [] then [] else '.' :: bindingText keys := by
  cases keys <;> simp [ObjectPath.display, headText, bindingText]

theorem readHead_headText {space : Option String} {name : String}
    (hname : isIdentifier name.toList = true) :
    readHead (headText space name) = (bareSpace space, name.toList) := by
  have hcolon : ':' ∉ name.toList := not_mem_identifier hname (by decide)
  cases space with
  | none => simp [readHead, headText, spaceText, cutLast_eq_none_iff.2 hcolon, bareSpace]
  | some s =>
    have hdrop : ('/' :: s.toList.dropWhile (· == '/')).dropWhile (· == '/') =
        s.toList.dropWhile (· == '/') := by
      rw [List.dropWhile_cons_of_pos (by decide), dropWhile_dropWhile]
    rw [readHead, headText_some, cutLast_append _ hcolon]
    simp only [hdrop, bareSpace, Option.bind_some]

/-- At most one slash stands in front of a path. -/
theorem headText_ne_slashes {rest : List Char} (space : Option String) {name : String}
    (hname : isIdentifier name.toList = true) (more : List Char) :
    headText space name ++ rest ≠ '/' :: '/' :: more := by
  intro h
  cases space with
  | none =>
    obtain ⟨c, cs, hcons⟩ := List.exists_cons_of_ne_nil (ne_nil_of_isIdentifier hname)
    have hslash : '/' ∉ name.toList := not_mem_identifier hname (by decide)
    have hc : c = '/' := by
      rw [headText, spaceText, hcons] at h
      exact (List.cons.inj h).1
    exact hslash (by simp [hcons, hc])
  | some s =>
    rw [headText_some] at h
    have hsecond := (List.cons.inj h).2
    cases hbare : s.toList.dropWhile (· == '/') with
    | nil =>
      rw [hbare] at hsecond
      exact absurd (List.cons.inj hsecond).1 (by decide)
    | cons c cs =>
      rw [hbare] at hsecond
      have hhead := List.head?_dropWhile_not (· == '/') s.toList
      rw [hbare, (List.cons.inj hsecond).1] at hhead
      simp at hhead

/-- A path is not taken for one with a host. -/
theorem dropHost_headText {raw rest : List Char} (space : Option String) {name : String}
    (hname : isIdentifier name.toList = true) :
    dropHost raw (headText space name ++ rest) = .ok (headText space name ++ rest) := by
  unfold dropHost
  split
  · next more heq => exact absurd heq (headText_ne_slashes space hname more)
  · rfl

theorem getLast?_append_some {cs : List Char} {c : Char} (before : List Char)
    (h : cs.getLast? = some c) : (before ++ cs).getLast? = some c := by
  rw [List.getLast?_append, h, Option.some_or]

theorem last_unquoted {cs : List Char} (hne : cs ≠ [])
    (h : ∀ c ∈ cs, isWordChar c = true ∨ c = '-') :
    ∃ c, cs.getLast? = some c ∧ isBlank c = false ∧ c ≠ '?' := by
  have hmem := List.getLast_mem hne
  refine ⟨cs.getLast hne, List.getLast?_eq_some_getLast hne, (unquoted_keyText h _ hmem).2.2, ?_⟩
  intro hmark
  rw [hmark] at hmem
  rcases h _ hmem with hword | hminus
  · revert hword
    decide
  · revert hminus
    decide

theorem last_keyText {v : Value} (hv : v.Writable) :
    ∃ c, v.keyText.toList.getLast? = some c ∧ isBlank c = false ∧ c ≠ '?' := by
  cases hv with
  | boolean b => exact last_unquoted (by cases b <;> decide) (word_boolean b)
  | integer i =>
    refine last_unquoted ?_ (word_integer i)
    rw [Value.keyText, toList_decimal]
    split
    · exact List.cons_ne_nil _ _
    · exact Nat.toDigits_ne_nil
  | text s _ =>
    rw [Value.keyText, toList_quoteKey, ← List.cons_append]
    exact ⟨'"', getLast?_append_some _ rfl, by decide, by decide⟩
  | reference p _ _ =>
    rw [Value.keyText, toList_quoteKey, ← List.cons_append]
    exact ⟨'"', getLast?_append_some _ rfl, by decide, by decide⟩

theorem last_bindingText {keys : List (String × Value)} (hvalues : ∀ e ∈ keys, e.2.Writable)
    (hkeys : keys ≠ []) :
    ∃ c, (bindingText keys).getLast? = some c ∧ isBlank c = false ∧ c ≠ '?' := by
  induction keys with
  | nil => exact absurd rfl hkeys
  | cons e rest ih =>
    obtain ⟨name, v⟩ := e
    by_cases hrest : rest = []
    · subst hrest
      obtain ⟨c, hc, hend⟩ := last_keyText (hvalues _ List.mem_cons_self)
      rw [bindingText_one, List.append_cons]
      exact ⟨c, getLast?_append_some _ hc, hend⟩
    · obtain ⟨c, hc, hend⟩ := ih (fun e he => hvalues e (List.mem_cons_of_mem _ he)) hrest
      rw [bindingText_more name v hrest, List.append_cons, ← List.append_assoc, List.append_cons]
      exact ⟨c, getLast?_append_some _ hc, hend⟩

theorem first_headText (space : Option String) {name : String}
    (hname : isIdentifier name.toList = true) :
    ∃ c cs, headText space name = c :: cs ∧ isBlank c = false := by
  cases space with
  | none =>
    obtain ⟨c, cs, hcons⟩ := List.exists_cons_of_ne_nil (ne_nil_of_isIdentifier hname)
    refine ⟨c, cs, by simp [headText, spaceText, hcons], isBlank_of_isWordChar ?_⟩
    exact isWordChar_of_mem hname (hcons ▸ List.mem_cons_self)
  | some s => exact ⟨'/', _, headText_some s name, by decide⟩

/-- The text of a writable path starts and ends with no blank, so trimming leaves it alone. -/
theorem dropBothWhile_display {p : ObjectPath} (hp : p.Writable) :
    dropBothWhile isBlank p.display.toList = p.display.toList := by
  obtain @⟨space, name, keys, -, hname, -, -, hvalues⟩ := hp
  rw [toList_display]
  obtain ⟨c, cs, hcons, hblank⟩ := first_headText space hname
  apply dropBothWhile_eq_self
  · intro d hd
    rw [hcons, List.cons_append, List.head?_cons, Option.some.injEq] at hd
    exact hd ▸ hblank
  · intro d hd
    by_cases hkeys : keys = []
    · have hne := ne_nil_of_isIdentifier hname
      have hlast : (headText space name).getLast? = some (name.toList.getLast hne) :=
        getLast?_append_some _ (List.getLast?_eq_some_getLast hne)
      rw [if_pos hkeys, List.append_nil, hlast, Option.some.injEq] at hd
      rw [← hd]
      exact isBlank_of_isWordChar (isWordChar_of_mem hname (List.getLast_mem hne))
    · obtain ⟨c, hc, hblank, -⟩ := last_bindingText hvalues hkeys
      rw [if_neg hkeys, List.append_cons, getLast?_append_some _ hc, Option.some.injEq] at hd
      exact hd ▸ hblank

theorem readParts_display {p : ObjectPath} (hp : p.Writable) :
    readParts p.display.toList =
      .ok (bareSpace p.nameSpace, p.className, p.keys.map fun e => (e.1, rawOf e.2)) := by
  have htrim := dropBothWhile_display hp
  obtain @⟨space, name, keys, hspace, hname, -, hids, hvalues⟩ := hp
  rw [toList_display] at htrim ⊢
  obtain ⟨c, cs, hcons, -⟩ := first_headText space hname
  have hne : (headText space name ++ if keys = [] then [] else '.' :: bindingText keys).isEmpty =
      false := by
    rw [hcons]
    rfl
  have hdot : '.' ∉ headText space name := by
    have hnamedot : '.' ∉ name.toList := not_mem_identifier hname (by decide)
    cases space with
    | none => simpa [headText, spaceText] using hnamedot
    | some s =>
      have hs : '.' ∉ s.toList.dropWhile (· == '/') := fun hmem =>
        hspace s rfl ((List.dropWhile_sublist _).mem hmem)
      simp [headText_some, hs, hnamedot]
  have hcut : (cutFirst '.' (headText space name ++
        if keys = [] then [] else '.' :: bindingText keys)).getD
      (headText space name ++ (if keys = [] then [] else '.' :: bindingText keys), []) =
        (headText space name, if keys = [] then [] else bindingText keys) := by
    by_cases hkeys : keys = []
    · simp [hkeys, cutFirst_eq_none_iff.2 hdot]
    · simp [hkeys, cutFirst_eq_some_iff.2 ⟨rfl, hdot⟩]
  have hraws : readBindings (if keys = [] then [] else bindingText keys).length
      (if keys = [] then [] else bindingText keys) =
        .ok (keys.map fun e => (e.1, rawOf e.2)) := by
    by_cases hkeys : keys = []
    · subst hkeys
      rfl
    · rw [if_neg hkeys]
      exact readBindings_bindingText hids hvalues hkeys (Nat.le_refl _)
  rw [readParts, htrim, hne, dropHost_headText space hname]
  simp only [Bool.false_eq_true, if_false, ok_bind, hcut, readHead_headText hname, hname,
    Bool.not_true, hraws, String.ofList_toList]
  rfl

theorem toLower_of_isDigit {c : Char} (h : isDigit c = true) : c.toLower = c := by
  simp only [isDigit, Bool.and_eq_true, decide_eq_true_eq, Char.le_def, UInt32.le_iff_toNat_le] at h
  have hsmall : ¬ ('A'.val ≤ c.val ∧ c.val ≤ 'Z'.val) := by
    rintro ⟨hlow, -⟩
    have hbound := UInt32.le_iff_toNat_le.1 hlow
    have hnine : '9'.val.toNat = 57 := rfl
    have hcapital : 'A'.val.toNat = 65 := rfl
    omega
  exact dif_neg hsmall

/-- No decimal is a word with an `e` in it, such as the words for truth values are. -/
theorem sameName_decimal (i : Int64) {word : String} (hword : 'e' ∈ (foldCase word).toList) :
    sameName (String.ofList (Value.integer i).keyText.toList) word = false := by
  rw [Bool.eq_false_iff]
  intro hsame
  rw [← (sameName_iff _ _).1 hsame, foldCase, String.toList_ofList, String.toList_ofList] at hword
  obtain ⟨c, hc, hlower⟩ := List.mem_map.1 hword
  rcases isDigit_of_mem_decimal hc with hdigit | rfl
  · rw [toLower_of_isDigit hdigit] at hlower
    subst hlower
    revert hdigit
    decide
  · revert hlower
    decide

theorem readBare_decimal (i : Int64) :
    readBare (Value.integer i).keyText.toList = .ok (.integer i) := by
  rw [readBare, sameName_decimal i (by decide), sameName_decimal i (by decide)]
  simp only [Bool.false_eq_true, if_false, Value.keyText, readInt64?_decimal]

/-- A writable value reads back if the path that it refers to does. -/
theorem readValue_rawOf {v : Value} (hv : v.Writable)
    (ih : ∀ p, v = .reference p → read p.display = .ok (p.mapSpaces bareSpace)) :
    readValue (fun cs => read (String.ofList cs)) (rawOf v) = .ok (v.mapSpaces bareSpace) := by
  cases hv with
  | boolean b => cases b <;> rfl
  | integer i => exact readBare_decimal i
  | text s hs =>
    rw [rawOf, readValue, String.ofList_toList]
    cases hread : read s with
    | error e => rfl
    | ok p =>
      have hclass : p.namesClass = true := by simp [namesClass, hs p hread]
      simp only [hclass, Bool.not_true, Bool.and_false, Bool.false_eq_true, if_false]
      rfl
  | reference p hp hkeys =>
    have hread := ih p rfl
    obtain ⟨raws, hparts, -, hvalues⟩ := of_read hread
    have hclass : (p.mapSpaces bareSpace).namesClass = false := by
      obtain ⟨space, name, keys⟩ := p
      simpa [namesClass, ObjectPath.mapSpaces] using hkeys
    obtain ⟨e, he⟩ := List.exists_mem_of_ne_nil (p.mapSpaces bareSpace).keys (by
      simpa [namesClass] using hclass)
    obtain ⟨raw, hmem, -⟩ := hvalues e he
    have hequals := ((of_readParts hparts).2.2.2 _ hmem).2.2
    have hcontains : p.display.toList.contains '=' = true := List.contains_iff_mem.2 hequals
    rw [rawOf, readValue, String.ofList_toList, hread]
    simp only [hcontains, hclass, Bool.not_false, Bool.and_true, if_true]
    rfl

/-- The text of a writable path reads back as the path with its namespaces bare. -/
theorem read_display_bare {p : ObjectPath} (hp : p.Writable) :
    read p.display = .ok (p.mapSpaces bareSpace) := by
  have both : (∀ v : Value, v.Writable → ∀ p, v = .reference p →
      read p.display = .ok (p.mapSpaces bareSpace)) ∧
      ∀ p : ObjectPath, p.Writable → read p.display = .ok (p.mapSpaces bareSpace) := by
    apply Value.induction
    case boolean | integer | real | text =>
      intro x _ p h
      cases h
    case array =>
      intro items _ _ p h
      cases h
    case reference =>
      intro q ih hq p h
      obtain rfl := Value.reference.inj h
      cases hq with
      | reference _ hq _ => exact ih hq
    case path =>
      intro space name keys ih hp
      have hparts := readParts_display hp
      obtain ⟨-, -, hordered, -, hvalues⟩ := hp
      have hbound := bindKeys_rawOf fun e he =>
        readValue_rawOf (hvalues e he) (ih e he (hvalues e he))
      have htable : Ordered ([] ++ keys.map fun e => (e.1, e.2.mapSpaces bareSpace)) :=
        ordered_map (Value.mapSpaces bareSpace) hordered
      have hfill := Entries.foldl_put_ordered htable
      rw [read_eq, hparts]
      simp only [ok_bind, hbound, hfill, ObjectPath.mapSpaces, mapSpacesUnder_eq_map,
        List.nil_append]
      rfl
  exact both.2 p hp

theorem agreeingSpaces_bareSpace (space : Option String) :
    agreeingSpaces space (bareSpace space) = true := by
  cases space with
  | none => rfl
  | some s =>
    by_cases hbare : (s.toList.dropWhile (· == '/')).isEmpty = true
    · simp only [bareSpace, Option.bind_some, hbare, if_true]
      rfl
    · simp only [bareSpace, Option.bind_some, hbare, Bool.false_eq_true, if_false, agreeingSpaces,
        trimMark, String.toList_ofList, dropBothWhile_dropWhile]
      exact sameName_refl _

/-- A writable path has its keys in order and no real at any depth. -/
theorem Writable.tabled {p : ObjectPath} (hp : p.Writable) :
    p.Tabled ∧ p.anyReal Number.Binary64.isNaN = false := by
  have both : (∀ v : Value, v.Writable → v.Tabled ∧ v.anyReal Number.Binary64.isNaN = false) ∧
      ∀ p : ObjectPath, p.Writable → p.Tabled ∧ p.anyReal Number.Binary64.isNaN = false := by
    apply Value.induction
    case boolean | integer | text => exact fun _ _ => ⟨trivial, rfl⟩
    case real =>
      intro r hr
      cases hr
    case array =>
      intro items _ hitems
      cases hitems
    case reference =>
      intro q ih hq
      cases hq with
      | reference _ hq _ => exact ih hq
    case path =>
      intro space name keys ih hp
      obtain ⟨-, -, hordered, -, hvalues⟩ := hp
      simp only [ObjectPath.Tabled, keysTabled_iff, ObjectPath.anyReal, anyRealUnder_eq_false]
      exact ⟨⟨hordered, fun e he => (ih e he (hvalues e he)).1⟩,
        fun e he => (ih e he (hvalues e he)).2⟩
  exact both.2 p hp

/-- Writing and reading object paths. The text of a writable path reads back as an equal path,
and whatever is read without a real at any depth is writable and reads back as itself, so its
text is a fixed point of reading and writing. -/
theorem read_display :
    (∀ p : ObjectPath, p.Writable →
      ∃ q, read p.display = .ok q ∧ q.same p = true ∧ p.same q = true) ∧
    ∀ (text : String) (p : ObjectPath), read text = .ok p → p.anyReal (fun _ => true) = false →
      p.Writable ∧ read p.display = .ok p ∧
        (read p.display).map ObjectPath.display = .ok p.display := by
  constructor
  · intro p hp
    obtain ⟨htabled, hreal⟩ := hp.tabled
    obtain ⟨hleft, hright⟩ := (isLeftOf_mapSpaces agreeingSpaces_bareSpace).2 p htabled hreal
    exact ⟨p.mapSpaces bareSpace, read_display_bare hp, hright, hleft⟩
  · intro text p htext hreal
    obtain ⟨hp, hbare⟩ := writable_of_read htext hreal
    have hback : read p.display = .ok p := by rw [read_display_bare hp, hbare]
    exact ⟨hp, hback, by rw [hback]; rfl⟩

/-- A path that refers to an instance with a quote, a comma and an equals sign in its key, read
from its text and written from its parts. -/
theorem read_display_of_nested :
    (∃ q, read (ObjectPath.mk (some "/root/a") "TST_A" [("Ref", .reference
        ⟨none, "TST_B", [("Name", .text "x, \"y\"=z."), ("On", .boolean true)]⟩)]).display = .ok q ∧
      q.same ⟨some "/root/a", "TST_A", [("Ref", .reference
        ⟨none, "TST_B", [("Name", .text "x, \"y\"=z."), ("On", .boolean true)]⟩)]⟩ = true) ∧
    ∃ p, read "//host/root/a:TST_A.Id=-7,Ref=\"TST_B.Name=\\\"x, y=z\\\"\"" = .ok p ∧ p.Writable ∧
      (read p.display).map ObjectPath.display = .ok p.display := by
  have htext : ∀ p, read "x, \"y\"=z." = .ok p → p.keys = [] := by
    intro p hp
    cases hp
  have hinner : (ObjectPath.mk none "TST_B"
      [("Name", .text "x, \"y\"=z."), ("On", .boolean true)]).Writable := by
    have hordered : "Name" < "On" := by decide +kernel
    refine .mk (fun s hs => nomatch hs) (by decide) ?_ (by decide) ?_
    · exact List.pairwise_pair.2 hordered
    simp only [List.forall_mem_cons, List.not_mem_nil, false_implies, implies_true, and_true]
    exact ⟨.text _ htext, .boolean true⟩
  have houter : (ObjectPath.mk (some "/root/a") "TST_A" [("Ref", .reference
      ⟨none, "TST_B", [("Name", .text "x, \"y\"=z."), ("On", .boolean true)]⟩)]).Writable := by
    refine .mk (fun s hs => ?_) (by decide) (by simp [Ordered]) (by decide) ?_
    · obtain rfl := Option.some.inj hs
      decide
    · simp only [List.forall_mem_cons, List.not_mem_nil, false_implies, implies_true, and_true]
      exact .reference _ hinner (List.cons_ne_nil _ _)
  obtain ⟨q, hq, hsame, -⟩ := read_display.1 _ houter
  have hparsed : read "//host/root/a:TST_A.Id=-7,Ref=\"TST_B.Name=\\\"x, y=z\\\"\"" =
      .ok ⟨some "root/a", "TST_A", [("Id", .integer (-7)),
        ("Ref", .reference ⟨none, "TST_B", [("Name", .text "x, y=z")]⟩)]⟩ := rfl
  obtain ⟨hp, -, hfixed⟩ := read_display.2 _ _ hparsed rfl
  exact ⟨⟨q, hq, hsame⟩, _, hparsed, hp, hfixed⟩

end ObjectPath

end CimConsole
