import CimConsole.Model.Path
import CimConsole.Proofs.Answer
import CimConsole.Proofs.Model.Equality
import CimConsole.Proofs.Text.Cut

/-!
What the reader of object paths yields. Quoted values are shorter than the text that holds
them, so the fuel never runs out and the reader is its own reader of quoted paths. A path
without reals that was read is writable: its names are identifiers, its namespace is bare,
and no text among its key values would be taken for a path with keys.
-/
namespace CimConsole

open Text

mutual

/-- The key values whose text reads back as the value. -/
inductive Value.Writable : Value → Prop where
  | boolean (b : Bool) : Value.Writable (.boolean b)
  | integer (i : Int64) : Value.Writable (.integer i)
  | text (s : String) (h : ∀ p, ObjectPath.read s = .ok p → p.keys = []) :
      Value.Writable (.text s)
  | reference (p : ObjectPath) (h : p.Writable) (hkeys : p.keys ≠ []) :
      Value.Writable (.reference p)

/-- The paths whose text reads back as the path. -/
inductive ObjectPath.Writable : ObjectPath → Prop where
  | mk {space : Option String} {name : String} {keys : List (String × Value)}
      (hspace : ∀ s, space = some s → '.' ∉ s.toList)
      (hname : isIdentifier name.toList = true)
      (hordered : Ordered keys)
      (hkeys : ∀ e ∈ keys, isIdentifier e.1.toList = true)
      (hvalues : ∀ e ∈ keys, Value.Writable e.2) :
      ObjectPath.Writable ⟨space, name, keys⟩

end

/-- A namespace without the slashes at its start; nothing is left of slashes alone. -/
def bareSpace (space : Option String) : Option String :=
  space.bind fun s =>
    let bare := s.toList.dropWhile (· == '/')
    if bare.isEmpty then none else some (String.ofList bare)

namespace ObjectPath

/-- A quoted value with less than `n` characters; nothing is said about other values. -/
def RawValue.IsShorter (n : Nat) : RawValue → Prop
  | .quoted cs => cs.length < n
  | .bare _ => True

theorem RawValue.IsShorter.mono {m n : Nat} {value : RawValue} (h : value.IsShorter m)
    (hmn : m ≤ n) : value.IsShorter n := by
  cases value with
  | quoted cs => exact Nat.lt_of_lt_of_le h hmn
  | bare _ => trivial

theorem length_readQuoted {cs content after : List Char}
    (h : readQuoted cs = some (content, after)) : content.length + after.length < cs.length := by
  induction cs using readQuoted.induct generalizing content with
  | case1 => cases h
  | case2 rest =>
    obtain ⟨rfl, rfl⟩ := Prod.mk.inj (Option.some.inj h)
    simp
  | case3 c rest ih =>
    rw [readQuoted] at h
    obtain ⟨⟨inner, left⟩, hinner, heq⟩ := Option.map_eq_some_iff.1 h
    obtain ⟨rfl, rfl⟩ := Prod.mk.inj heq
    have := ih hinner
    simp only [List.length_cons]
    omega
  | case4 => cases h
  | case5 c rest hquote hescape hlone ih =>
    rw [readQuoted] at h
    · obtain ⟨⟨inner, left⟩, hinner, heq⟩ := Option.map_eq_some_iff.1 h
      obtain ⟨rfl, rfl⟩ := Prod.mk.inj heq
      have := ih hinner
      simp only [List.length_cons]
      omega
    all_goals assumption

theorem length_readRaw {cs rest : List Char} {value : RawValue}
    (h : readRaw cs = .ok (value, rest)) :
    value.IsShorter cs.length ∧ rest.length ≤ cs.length := by
  unfold readRaw at h
  split at h
  · next inner =>
    cases hq : readQuoted inner with
    | none => simp [hq] at h
    | some found =>
      obtain ⟨content, after⟩ := found
      simp only [hq, Except.ok.injEq, Prod.mk.injEq] at h
      obtain ⟨rfl, rfl⟩ := h
      have := length_readQuoted hq
      simp only [RawValue.IsShorter, List.length_cons]
      omega
  · obtain ⟨rfl, rfl⟩ := Prod.mk.inj (Except.ok.inj h)
    exact ⟨trivial, (List.dropWhile_sublist _).length_le⟩

/-- The first binding of a text: it is the last one, or a comma and others follow. -/
theorem of_readBindings_succ {fuel : Nat} {cs : List Char} {raws : List (String × RawValue)}
    (hcs : cs ≠ []) (h : readBindings (fuel + 1) cs = .ok raws) :
    ∃ before after value left, cutFirst '=' cs = some (before, after) ∧
      isIdentifier (dropBothWhile isBlank before) = true ∧ readRaw after = .ok (value, left) ∧
      ((left = [] ∧ raws = [(String.ofList (dropBothWhile isBlank before), value)]) ∨
        ∃ more others, left = ',' :: more ∧ readBindings fuel more = .ok others ∧
          raws = (String.ofList (dropBothWhile isBlank before), value) :: others) := by
  obtain ⟨c, rest, rfl⟩ := List.exists_cons_of_ne_nil hcs
  simp only [readBindings] at h
  cases hcut : cutFirst '=' (c :: rest) with
  | none => simp [hcut] at h
  | some found =>
    obtain ⟨before, after⟩ := found
    simp only [hcut] at h
    by_cases hname : isIdentifier (dropBothWhile isBlank before) = true
    · simp only [hname, Bool.not_true, Bool.false_eq_true, if_false] at h
      obtain ⟨⟨value, left⟩, hraw, h⟩ := bind_eq_ok.1 h
      refine ⟨before, after, value, left, rfl, hname, hraw, ?_⟩
      split at h
      · next hleft =>
        exact Or.inl ⟨hleft, (Except.ok.inj h).symm⟩
      · next more hleft =>
        obtain ⟨others, hothers, h⟩ := bind_eq_ok.1 h
        exact Or.inr ⟨more, others, hleft, hothers, (Except.ok.inj h).symm⟩
      · cases h
    · simp [hname] at h

/-- What the reader of bindings checks of each of them. -/
theorem of_readBindings {fuel : Nat} {cs : List Char} {raws : List (String × RawValue)}
    (h : readBindings fuel cs = .ok raws) :
    ∀ e ∈ raws, isIdentifier e.1.toList = true ∧ e.2.IsShorter cs.length ∧ '=' ∈ cs := by
  induction fuel generalizing cs raws with
  | zero =>
    obtain rfl := Except.ok.inj h
    exact fun e he => absurd he List.not_mem_nil
  | succ fuel ih =>
    by_cases hcs : cs = []
    · subst hcs
      obtain rfl := Except.ok.inj h
      exact fun e he => absurd he List.not_mem_nil
    · obtain ⟨before, after, value, left, hcut, hname, hraw, hend⟩ := of_readBindings_succ hcs h
      obtain ⟨hshort, hleft⟩ := length_readRaw hraw
      have hafter : after.length < cs.length := length_cutFirst_lt hcut
      have hmem : '=' ∈ cs := by
        rw [(cutFirst_eq_some_iff.1 hcut).1]
        exact List.mem_append_right _ List.mem_cons_self
      have hfirst : isIdentifier (String.ofList (dropBothWhile isBlank before)).toList = true ∧
          value.IsShorter cs.length ∧ '=' ∈ cs :=
        ⟨by rwa [String.toList_ofList], hshort.mono (Nat.le_of_lt hafter), hmem⟩
      intro e he
      rcases hend with ⟨-, rfl⟩ | ⟨more, others, rfl, hothers, rfl⟩
      · rwa [List.mem_singleton.1 he]
      · rcases List.mem_cons.1 he with rfl | he
        · exact hfirst
        · obtain ⟨hid, hshorter, -⟩ := ih hothers e he
          have hmore : more.length ≤ cs.length := by
            rw [List.length_cons] at hleft
            omega
          exact ⟨hid, hshorter.mono hmore, hmem⟩

theorem dropBothWhile_sublist (p : Char → Bool) (cs : List Char) :
    (dropBothWhile p cs).Sublist cs := by
  have h := (List.dropWhile_sublist p (l := (cs.dropWhile p).reverse)).reverse
  rw [List.reverse_reverse] at h
  exact h.trans (List.dropWhile_sublist p)

theorem dropHost_sublist {raw cs rest : List Char} (h : dropHost raw cs = .ok rest) :
    rest.Sublist cs := by
  unfold dropHost at h
  split at h
  · next behind =>
    split at h
    · cases h
    · obtain rfl := Except.ok.inj h
      exact ((List.dropWhile_sublist _).cons '/').cons '/'
  · obtain rfl := Except.ok.inj h
    exact List.Sublist.refl _

theorem bareSpace_of_dropWhile {before : List Char} {space : Option String}
    (h : space = if (before.dropWhile (· == '/')).isEmpty then none
      else some (String.ofList (before.dropWhile (· == '/')))) : bareSpace space = space := by
  subst h
  split
  case isTrue => rfl
  case isFalse hne =>
    rw [bareSpace, Option.bind_some, String.toList_ofList, dropWhile_dropWhile]
    exact if_neg hne

/-- A namespace that was read has no slash at its start, and it is none rather than empty. -/
theorem of_readHead (head : List Char) :
    bareSpace (readHead head).1 = (readHead head).1 ∧
      ∀ s, (readHead head).1 = some s → ∀ c ∈ s.toList, c ∈ head := by
  unfold readHead
  split
  · exact ⟨rfl, fun s hs => nomatch hs⟩
  · next before name hcut =>
    refine ⟨bareSpace_of_dropWhile rfl, fun s hs c hc => ?_⟩
    dsimp only at hs
    split at hs
    · cases hs
    · obtain rfl := Option.some.inj hs
      rw [String.toList_ofList] at hc
      rw [eq_of_cutLast hcut]
      exact List.mem_append_left _ ((List.dropWhile_sublist _).mem hc)

/-- What is known of the parts of a text before its values are read. -/
theorem of_readParts {raw : List Char} {space : Option String} {name : String}
    {raws : List (String × RawValue)} (h : readParts raw = .ok (space, name, raws)) :
    (∀ s, space = some s → '.' ∉ s.toList) ∧ bareSpace space = space ∧
      isIdentifier name.toList = true ∧
      ∀ e ∈ raws, isIdentifier e.1.toList = true ∧ e.2.IsShorter raw.length ∧ '=' ∈ raw := by
  unfold readParts at h
  dsimp only at h
  split at h
  · cases h
  obtain ⟨cs, hhost, h⟩ := bind_eq_ok.1 h
  have hsub : cs.Sublist raw := (dropHost_sublist hhost).trans (dropBothWhile_sublist _ _)
  obtain ⟨head, keys, hcut, hhead, hkeys⟩ : ∃ head keys,
      (cutFirst '.' cs).getD (cs, []) = (head, keys) ∧ '.' ∉ head ∧ keys.Sublist cs := by
    cases hcut : cutFirst '.' cs with
    | none => exact ⟨cs, [], rfl, cutFirst_eq_none_iff.1 hcut, List.nil_sublist _⟩
    | some found =>
      obtain ⟨before, after⟩ := found
      obtain ⟨rfl, hbefore⟩ := cutFirst_eq_some_iff.1 hcut
      exact ⟨before, after, rfl, hbefore,
        (List.sublist_cons_self _ _).trans (List.sublist_append_right _ _)⟩
  obtain ⟨hbare, hmem⟩ := of_readHead head
  rw [hcut] at h
  dsimp only at h
  split at h
  · cases h
  · next hname =>
    obtain ⟨found, hraws, h⟩ := bind_eq_ok.1 h
    obtain ⟨rfl, rfl, rfl⟩ : (readHead head).1 = space ∧
        String.ofList (readHead head).2 = name ∧ found = raws := by
      simpa using Except.ok.inj h
    refine ⟨fun s hs hdot => hhead (hmem s hs '.' hdot), hbare, ?_, fun e he => ?_⟩
    · simpa using hname
    · obtain ⟨hid, hshort, hequals⟩ := of_readBindings hraws e he
      exact ⟨hid, hshort.mono (hkeys.trans hsub).length_le, (hkeys.trans hsub).mem hequals⟩

theorem bindKeys_congr {f g : List Char → Except PathError ObjectPath} {n : Nat}
    {raws : List (String × RawValue)} (hshort : ∀ e ∈ raws, e.2.IsShorter n)
    (hfg : ∀ cs : List Char, cs.length < n → f cs = g cs) : bindKeys f raws = bindKeys g raws := by
  induction raws with
  | nil => rfl
  | cons e rest ih =>
    obtain ⟨name, raw⟩ := e
    have hvalue : readValue f raw = readValue g raw := by
      cases raw with
      | bare cs => rfl
      | quoted cs =>
        have hcs : cs.length < n := hshort (name, .quoted cs) List.mem_cons_self
        rw [readValue, readValue, hfg cs hcs]
    rw [bindKeys, bindKeys, hvalue, ih fun e he => hshort e (List.mem_cons_of_mem _ he)]

/-- Fuel of at least the length of the text is enough, and more changes nothing. -/
theorem readWithin_congr {fuel more : Nat} {cs : List Char} (hfuel : cs.length ≤ fuel)
    (hmore : cs.length ≤ more) : readWithin fuel cs = readWithin more cs := by
  have hnil : ∀ n, readWithin n [] = .error .empty := by
    intro n
    cases n <;> rfl
  induction fuel generalizing more cs with
  | zero =>
    obtain rfl := List.length_eq_zero_iff.1 (Nat.le_zero.1 hfuel)
    rw [hnil, hnil]
  | succ fuel ih =>
    cases more with
    | zero =>
      obtain rfl := List.length_eq_zero_iff.1 (Nat.le_zero.1 hmore)
      rw [hnil, hnil]
    | succ more =>
      rw [readWithin, readWithin]
      cases hparts : readParts cs with
      | error e => rfl
      | ok parts =>
        obtain ⟨space, name, raws⟩ := parts
        have hraws := (of_readParts hparts).2.2.2
        have hbound : bindKeys (readWithin fuel) raws = bindKeys (readWithin more) raws := by
          apply bindKeys_congr fun e he => (hraws e he).2.1
          intro quoted hquoted
          exact ih (by omega) (by omega)
        simp only [ok_bind, hbound]

/-- The reader of a text is also the reader of the quoted values in it. -/
theorem read_eq (s : String) :
    read s = (do
      let (space, name, raws) ← readParts s.toList
      let bound ← bindKeys (fun cs => read (String.ofList cs)) raws
      pure ⟨space, name, bound.foldl (fun keys e => Entries.put e.1 e.2 keys) []⟩) := by
  rw [read, readWithin_congr (Nat.le_refl _) (Nat.le_succ _), readWithin]
  cases hparts : readParts s.toList with
  | error e => rfl
  | ok parts =>
    obtain ⟨space, name, raws⟩ := parts
    have hbound : bindKeys (readWithin s.toList.length) raws =
        bindKeys (fun cs => read (String.ofList cs)) raws := by
      apply bindKeys_congr fun e he => ((of_readParts hparts).2.2.2 e he).2.1
      intro quoted hquoted
      rw [read, String.toList_ofList]
      exact readWithin_congr (Nat.le_of_lt hquoted) (Nat.le_refl _)
    simp only [ok_bind, hbound]

theorem of_bindKeys {f : List Char → Except PathError ObjectPath}
    {raws : List (String × RawValue)} {bound : List (String × Value)}
    (h : bindKeys f raws = .ok bound) :
    ∀ e ∈ bound, ∃ raw, (e.1, raw) ∈ raws ∧ readValue f raw = .ok e.2 := by
  induction raws generalizing bound with
  | nil =>
    obtain rfl := Except.ok.inj h
    exact fun e he => absurd he List.not_mem_nil
  | cons r rest ih =>
    obtain ⟨name, raw⟩ := r
    obtain ⟨value, hvalue, h⟩ := bind_eq_ok.1 h
    obtain ⟨others, hothers, h⟩ := bind_eq_ok.1 h
    obtain rfl := Except.ok.inj h
    intro e he
    rcases List.mem_cons.1 he with rfl | he
    · exact ⟨raw, List.mem_cons_self, hvalue⟩
    · obtain ⟨found, hmem, hfound⟩ := ih hothers e he
      exact ⟨found, List.mem_cons_of_mem _ hmem, hfound⟩

section Tables

variable {α : Type}

theorem mem_foldl_put {keys entries : List (String × α)} {e : String × α}
    (h : e ∈ entries.foldl (fun keys e => Entries.put e.1 e.2 keys) keys) :
    e ∈ keys ∨ e ∈ entries := by
  induction entries generalizing keys with
  | nil => exact Or.inl h
  | cons d rest ih =>
    rcases ih h with hput | hrest
    · rcases Entries.mem_put hput with heq | hkeys
      · obtain rfl : e = d := heq
        exact Or.inr List.mem_cons_self
      · exact Or.inl hkeys
    · exact Or.inr (List.mem_cons_of_mem _ hrest)

end Tables

/-- The parts of a path that was read. -/
theorem of_read {s : String} {p : ObjectPath} (h : read s = .ok p) :
    ∃ raws, readParts s.toList = .ok (p.nameSpace, p.className, raws) ∧ Ordered p.keys ∧
      ∀ e ∈ p.keys, ∃ raw, (e.1, raw) ∈ raws ∧
        readValue (fun cs => read (String.ofList cs)) raw = .ok e.2 := by
  rw [read_eq] at h
  obtain ⟨⟨space, name, raws⟩, hparts, h⟩ := bind_eq_ok.1 h
  obtain ⟨bound, hbound, h⟩ := bind_eq_ok.1 h
  obtain rfl := Except.ok.inj h
  refine ⟨raws, hparts, Entries.ordered_foldl_put List.Pairwise.nil bound, fun e he => ?_⟩
  rcases mem_foldl_put he with hnil | hmem
  · exact absurd hnil List.not_mem_nil
  · exact of_bindKeys hbound e hmem

/-- A path with a key was read from a text with an equals sign. -/
theorem equals_mem_of_read {s : String} {p : ObjectPath} (h : read s = .ok p)
    (hkeys : p.keys ≠ []) : '=' ∈ s.toList := by
  obtain ⟨raws, hparts, -, hvalues⟩ := of_read h
  obtain ⟨e, he⟩ := List.exists_mem_of_ne_nil _ hkeys
  obtain ⟨raw, hmem, -⟩ := hvalues e he
  exact ((of_readParts hparts).2.2.2 _ hmem).2.2

theorem writable_of_readBare {cs : List Char} {v : Value} (hread : readBare cs = .ok v)
    (hr : v.anyReal (fun _ => true) = false) : v.Writable ∧ v.mapSpaces bareSpace = v := by
  rw [readBare] at hread
  split at hread
  · obtain rfl := Except.ok.inj hread
    exact ⟨.boolean true, rfl⟩
  split at hread
  · obtain rfl := Except.ok.inj hread
    exact ⟨.boolean false, rfl⟩
  split at hread
  · next i _ =>
    obtain rfl := Except.ok.inj hread
    exact ⟨.integer i, rfl⟩
  split at hread
  · obtain rfl := Except.ok.inj hread
    cases hr
  · cases hread

/-- A key value without reals that was read from within a text of `n` characters is writable
and has bare namespaces, if the paths of shorter texts are and have. -/
theorem writable_of_readValue {n : Nat} {raw : RawValue} {v : Value}
    (hread : readValue (fun cs => read (String.ofList cs)) raw = .ok v)
    (hshort : raw.IsShorter n) (hr : v.anyReal (fun _ => true) = false)
    (ih : ∀ (s : String) (p : ObjectPath), s.toList.length < n → read s = .ok p →
      p.anyReal (fun _ => true) = false → p.Writable ∧ p.mapSpaces bareSpace = p) :
    v.Writable ∧ v.mapSpaces bareSpace = v := by
  cases raw with
  | bare cs => exact writable_of_readBare hread hr
  | quoted cs =>
    rw [readValue] at hread
    cases hpath : read (String.ofList cs) with
    | error e =>
      simp only [hpath, Except.ok.injEq] at hread
      subst hread
      refine ⟨.text _ fun p hp => ?_, rfl⟩
      rw [hpath] at hp
      cases hp
    | ok p =>
      simp only [hpath, Except.ok.injEq] at hread
      subst hread
      split at hr
      · next href =>
        simp only [href, if_true, Value.mapSpaces]
        have hkeys : p.keys ≠ [] := by simpa [namesClass] using (Bool.and_eq_true_iff.1 href).2
        have hlength : (String.ofList cs).toList.length < n := by rwa [String.toList_ofList]
        obtain ⟨hp, hbare⟩ := ih _ p hlength hpath hr
        exact ⟨.reference p hp hkeys, by rw [hbare]⟩
      · next href =>
        simp only [href, Bool.false_eq_true, if_false]
        refine ⟨.text _ fun q hq => ?_, rfl⟩
        obtain rfl : p = q := by simpa [hpath] using hq
        cases hk : p.keys with
        | nil => rfl
        | cons e rest =>
          have hkeys : p.keys ≠ [] := hk ▸ List.cons_ne_nil e rest
          have hequals := equals_mem_of_read hpath hkeys
          rw [String.toList_ofList] at hequals
          simp [hequals, namesClass, hk] at href

/-- A path without reals that was read is writable, and its namespaces are bare. -/
theorem writable_of_read {s : String} {p : ObjectPath} (h : read s = .ok p)
    (hr : p.anyReal (fun _ => true) = false) : p.Writable ∧ p.mapSpaces bareSpace = p := by
  induction hn : s.toList.length using Nat.strongRecOn generalizing s p with
  | ind n ih =>
    subst hn
    obtain ⟨raws, hparts, hordered, hvalues⟩ := of_read h
    obtain ⟨hdot, hbare, hname, hraws⟩ := of_readParts hparts
    obtain ⟨space, name, keys⟩ := p
    simp only [ObjectPath.anyReal, anyRealUnder_eq_false] at hr
    have hboth : ∀ e ∈ keys, e.2.Writable ∧ e.2.mapSpaces bareSpace = e.2 := by
      intro e he
      obtain ⟨raw, hmem, hread⟩ := hvalues e he
      exact writable_of_readValue hread (hraws _ hmem).2.1 (hr e he)
        fun t q hlt ht hq => ih _ hlt ht hq rfl
    have hids : ∀ e ∈ keys, isIdentifier e.1.toList = true := by
      intro e he
      obtain ⟨raw, hmem, -⟩ := hvalues e he
      exact (hraws _ hmem).1
    refine ⟨.mk hdot hname hordered hids fun e he => (hboth e he).1, ?_⟩
    have hkeys : keys.map (fun e => (e.1, e.2.mapSpaces bareSpace)) = keys := by
      rw [List.map_congr_left fun e he => by rw [(hboth e he).2], List.map_id']
    have hspace : bareSpace space = space := hbare
    rw [ObjectPath.mapSpaces, mapSpacesUnder_eq_map, hkeys, hspace]

end ObjectPath

end CimConsole
