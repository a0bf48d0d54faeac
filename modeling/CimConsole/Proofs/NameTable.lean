import CimConsole.NameTable

/-!
Tables as maps. What is put under a name is found there and changes nothing under other names, and
a table is filled from its own entries. A look-up that leaves letter case aside takes the first
entry of the name, so a value that is put where that entry stands is what it finds.
-/
namespace CimConsole

open Text

theorem ordered_map {α β : Type} (g : α → β) {entries : List (String × α)}
    (h : Ordered entries) : Ordered (entries.map fun e => (e.1, g e.2)) :=
  List.pairwise_map.2 h

namespace Entries

variable {α : Type} {name other : String}

/-- In a table a name stands once. -/
theorem lookup_of_mem {k : String} {v : α} {entries : List (String × α)}
    (h : Ordered entries) (hm : (k, v) ∈ entries) : entries.lookup k = some v := by
  induction entries with
  | nil => cases hm
  | cons e rest ih =>
    obtain ⟨name, w⟩ := e
    have hhead := (List.pairwise_cons.1 h).1
    rcases List.mem_cons.1 hm with heq | hm
    · obtain ⟨rfl, rfl⟩ := Prod.mk.inj heq
      simp
    · have hne : (k == name) = false := by
        have hlt : name < k := hhead _ hm
        simp only [beq_eq_false_iff_ne]
        rintro rfl
        exact String.lt_irrefl k hlt
      rw [List.lookup_cons, hne]
      exact ih (List.pairwise_cons.1 h).2 hm

/-- In a table every entry is found under its own name. -/
theorem find?_of_mem {k : String} {v : α} {entries : List (String × α)}
    (h : Ordered entries) (hm : (k, v) ∈ entries) : find? k entries = some v := by
  rw [find?, lookup_of_mem h hm, Option.some_or]

theorem lookup_put_self (value : α) (entries : List (String × α)) :
    (put name value entries).lookup name = some value := by
  induction entries with
  | nil => simp [put]
  | cons e rest ih =>
    unfold put
    split
    · exact List.lookup_cons_self
    · split
      · exact List.lookup_cons_self
      case isFalse hne =>
        rw [List.lookup_cons, beq_false_of_ne hne]
        exact ih

theorem lookup_put_of_ne (h : name ≠ other) (value : α) (entries : List (String × α)) :
    (put name value entries).lookup other = entries.lookup other := by
  have hne : (other == name) = false := beq_false_of_ne h.symm
  induction entries with
  | nil => rw [put, List.lookup_cons, hne]
  | cons e rest ih =>
    unfold put
    split
    · rw [List.lookup_cons, hne]
    · split
      case isTrue heq =>
        subst heq
        rw [List.lookup_cons, List.lookup_cons, hne]
      · rw [List.lookup_cons, List.lookup_cons, ih]

theorem mem_put_self (name : String) (value : α) (entries : List (String × α)) :
    (name, value) ∈ put name value entries := by
  induction entries with
  | nil => exact List.mem_singleton_self _
  | cons e rest ih =>
    unfold put
    split
    · exact List.mem_cons_self
    split
    · exact List.mem_cons_self
    · exact List.mem_cons_of_mem _ ih

theorem mem_put_of_ne {value : α} {entries : List (String × α)} {e : String × α} (h : e ∈ entries)
    (hne : e.1 ≠ name) : e ∈ put name value entries := by
  induction entries with
  | nil => cases h
  | cons d rest ih =>
    unfold put
    split
    · exact List.mem_cons_of_mem _ h
    split
    · next heq =>
      rcases List.mem_cons.1 h with rfl | h
      · exact absurd heq.symm hne
      · exact List.mem_cons_of_mem _ h
    · rcases List.mem_cons.1 h with rfl | h
      · exact List.mem_cons_self
      · exact List.mem_cons_of_mem _ (ih h)

/-- What is put under a name is not found under one that differs in more than letter case. -/
theorem find?_put_of_not_sameName (h : sameName name other = false) (value : α)
    (entries : List (String × α)) :
    find? other (put name value entries) = find? other entries := by
  have hne : name ≠ other := by
    rintro rfl
    rw [sameName_refl] at h
    cases h
  have hsame : (put name value entries).find? (fun e => sameName e.1 other) =
      entries.find? fun e => sameName e.1 other := by
    induction entries with
    | nil => simp [put, h]
    | cons e rest ih =>
      unfold put
      split
      · rw [List.find?_cons, h]
      · split
        case isTrue heq =>
          subst heq
          rw [List.find?_cons, List.find?_cons, h]
        · rw [List.find?_cons, List.find?_cons, ih]
  rw [find?, find?, lookup_put_of_ne hne, hsame]

/-- A value that is put where the first spelling of a name is, if there is one, is the first under
that name. -/
theorem find?_put_first {k : String} (hk : sameName k name = true) (value : α)
    {entries : List (String × α)}
    (hfirst : ∀ e, (entries.find? fun e => sameName e.1 name) = some e → e.1 = k) :
    (put k value entries).find? (fun e => sameName e.1 name) = some (k, value) := by
  induction entries with
  | nil => rw [put, List.find?_cons, hk]
  | cons e rest ih =>
    unfold put
    split
    · rw [List.find?_cons, hk]
    split
    · rw [List.find?_cons, hk]
    · next hne =>
      -- the entry in front is not the first of the name, for that one is spelled like `k`
      have hname : sameName e.1 name = false := by
        rw [Bool.eq_false_iff]
        intro hsame
        exact hne (hfirst e (by rw [List.find?_cons, hsame])).symm
      rw [List.find?_cons, hname]
      refine ih fun d hd => hfirst d ?_
      rw [List.find?_cons, hname, hd]

theorem names_put_of_mem {entries : List (String × α)} (ho : Ordered entries)
    (h : name ∈ entries.map (·.1)) (value : α) :
    (put name value entries).map (·.1) = entries.map (·.1) := by
  induction entries with
  | nil => cases h
  | cons e rest ih =>
    obtain ⟨hhead, htail⟩ := List.pairwise_cons.1 ho
    rw [List.map_cons, List.mem_cons] at h
    unfold put
    split
    case isTrue hlt =>
      obtain rfl | hrest := h
      · exact absurd hlt (String.lt_irrefl _)
      · obtain ⟨d, hd, rfl⟩ := List.mem_map.1 hrest
        exact absurd (String.lt_trans hlt (hhead d hd)) (String.lt_irrefl _)
    case isFalse =>
      split
      case isTrue heq => rw [List.map_cons, List.map_cons, heq]
      case isFalse hne =>
        rw [List.map_cons, List.map_cons, ih htail (h.resolve_left hne)]

/-- A name behind all others in a table is put at its end. -/
theorem put_last {entries : List (String × α)} {e : String × α}
    (hlast : ∀ d ∈ entries, d.1 < e.1) : put e.1 e.2 entries = entries ++ [e] := by
  induction entries with
  | nil => rfl
  | cons d entries ih =>
    have hd : d.1 < e.1 := hlast d List.mem_cons_self
    have hnlt : ¬ e.1 < d.1 := fun hback => String.lt_irrefl _ (String.lt_trans hd hback)
    have hne : e.1 ≠ d.1 := fun heq => String.lt_irrefl d.1 (heq ▸ hd)
    have hrest := ih fun d hd => hlast d (List.mem_cons_of_mem _ hd)
    rw [put, if_neg hnlt, if_neg hne, hrest]
    rfl

/-- Filling a table with its own entries in their order gives the table. -/
theorem foldl_put_ordered {done rest : List (String × α)}
    (h : Ordered (done ++ rest)) :
    rest.foldl (fun keys e => put e.1 e.2 keys) done = done ++ rest := by
  induction rest generalizing done with
  | nil => simp
  | cons e rest ih =>
    have hbefore : ∀ d ∈ done, d.1 < e.1 := fun d hd =>
      (List.pairwise_append.1 h).2.2 d hd e List.mem_cons_self
    rw [List.foldl_cons, put_last hbefore, ih (by simpa using h)]
    simp

theorem ordered_foldl_put {done : List (String × α)} (h : Ordered done)
    (entries : List (String × α)) :
    Ordered (entries.foldl (fun keys e => put e.1 e.2 keys) done) := by
  induction entries generalizing done with
  | nil => exact h
  | cons e rest ih => exact ih (ordered_put e.1 e.2 h)

/-- Of the entries of one name that are put one after another the last counts. -/
theorem lookup_foldl_put (name : String) (done entries : List (String × α)) :
    (entries.foldl (fun keys e => put e.1 e.2 keys) done).lookup name =
      (entries.reverse.lookup name).or (done.lookup name) := by
  induction entries generalizing done with
  | nil => rfl
  | cons e rest ih =>
    have hput : (put e.1 e.2 done).lookup name = ([e].lookup name).or (done.lookup name) := by
      by_cases hname : e.1 = name
      · rw [← hname, lookup_put_self, List.lookup_cons_self, Option.some_or]
      · rw [lookup_put_of_ne hname, List.lookup_cons, beq_false_of_ne (Ne.symm hname)]
        rfl
    rw [List.foldl_cons, ih, hput, List.reverse_cons, List.lookup_append, Option.or_assoc]

/-- In a table a name stands once, so it may be looked for from the end. -/
theorem lookup_reverse (name : String) {entries : List (String × α)} (h : Ordered entries) :
    entries.reverse.lookup name = entries.lookup name := by
  have hfill : entries.foldl (fun keys e => put e.1 e.2 keys) [] = entries := foldl_put_ordered h
  have hlast := lookup_foldl_put name [] entries
  rw [hfill, List.lookup_nil, Option.or_none] at hlast
  exact hlast.symm

theorem lookup_map {β : Type} (g : α → β) (name : String) (entries : List (String × α)) :
    (entries.map fun e => (e.1, g e.2)).lookup name = (entries.lookup name).map g := by
  induction entries with
  | nil => rfl
  | cons e rest ih =>
    rw [List.map_cons, List.lookup_cons, List.lookup_cons, ih]
    cases name == e.1 <;> rfl

end Entries

namespace NameTable

variable {α : Type}

/-- A name is spelled like the one that it is found for, up to letter case. -/
theorem sameName_spelling (t : NameTable α) (name : String) :
    sameName ((t.spelling? name).getD name) name = true := by
  cases hspelling : t.spelling? name with
  | none => exact sameName_refl name
  | some spelled =>
    obtain ⟨e, hfound, rfl⟩ := Option.map_eq_some_iff.1 hspelling
    simpa using List.find?_some hfound

theorem mem_names_of_spelling? {t : NameTable α} {name spelled : String}
    (h : t.spelling? name = some spelled) : spelled ∈ t.names := by
  obtain ⟨e, hfound, rfl⟩ := Option.map_eq_some_iff.1 h
  exact List.mem_map_of_mem (List.mem_of_find?_eq_some hfound)

/-- All spellings of a name find the same first one. -/
theorem spelling?_congr (t : NameTable α) {a b : String} (h : sameName a b = true) :
    t.spelling? a = t.spelling? b := by
  simp only [spelling?, sameName_congr_right h]

theorem contains_iff_mem (t : NameTable α) (name : String) :
    t.contains name = true ↔ name ∈ t.names := by
  rw [contains, get?, Option.isSome_iff_exists]
  constructor
  · rintro ⟨v, hv⟩
    obtain ⟨before, after, hsplit, -⟩ := List.lookup_eq_some_iff.1 hv
    simp [names, hsplit]
  · intro hmem
    obtain ⟨⟨k, v⟩, he, rfl⟩ := List.mem_map.1 hmem
    exact ⟨v, Entries.lookup_of_mem t.ordered he⟩

theorem get?_insert_self (t : NameTable α) (name : String) (value : α) :
    (t.insert name value).get? name = some value :=
  Entries.lookup_put_self value t.entries

theorem get?_insert_of_ne {name other : String} (h : name ≠ other) (t : NameTable α) (value : α) :
    (t.insert name value).get? other = t.get? other :=
  Entries.lookup_put_of_ne h value t.entries

theorem get?_erase_of_ne {name other : String} (h : name ≠ other) (t : NameTable α) :
    (t.erase name).get? other = t.get? other := by
  have hfilter : ∀ entries : List (String × α),
      (entries.filter fun e => e.1 != name).lookup other = entries.lookup other := by
    intro entries
    induction entries with
    | nil => rfl
    | cons e rest ih =>
      rw [List.filter_cons, List.lookup_cons]
      split
      · rw [List.lookup_cons, ih]
      · next hname =>
        have hother : (other == e.1) = false := by
          have heq : e.1 = name := by simpa using hname
          rw [heq]
          exact beq_false_of_ne h.symm
        rw [ih, hother]
  exact hfilter t.entries

theorem erase_eq_self {t : NameTable α} {name : String} (h : t.get? name = none) :
    t.erase name = t := by
  refine NameTable.ext (List.filter_eq_self.2 fun e he => ?_)
  rw [bne_iff_ne]
  rintro rfl
  rw [get?, Entries.lookup_of_mem t.ordered he] at h
  cases h

/-- A table is filled from its own entries. -/
theorem ofList_entries (t : NameTable α) : ofList t.entries = t := by
  have hfill : ∀ (entries : List (String × α)) (s : NameTable α),
      (entries.foldl (fun s e => s.insert e.1 e.2) s).entries =
        entries.foldl (fun done e => Entries.put e.1 e.2 done) s.entries := by
    intro entries
    induction entries with
    | nil => exact fun s => rfl
    | cons e rest ih => exact fun s => ih (s.insert e.1 e.2)
  exact NameTable.ext ((hfill t.entries empty).trans (Entries.foldl_put_ordered t.ordered))

end NameTable

end CimConsole
