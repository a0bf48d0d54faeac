import CimConsole.Document.Fields
import CimConsole.Proofs.NameTable
import Mathlib.Data.List.Nodup

/-!
What a document stands for. A text in YAML may come back as a plain scalar, which says the same as
what was written only if it is taken for what it stands for. Readers of typed values find in a
document what they find in its meaning, so it is enough to know the meaning of what was read. The
second part is about records as they are written: what is found under a name in them. That is not
changed by sorting a record, whatever the order of its fields and however often a name occurs.
-/
namespace CimConsole.Document

mutual

/-- The document with every plain scalar taken for what it stands for. -/
def meaning : Document → Document
  | .plain s => ofWord s
  | .list items => .list (meanings items)
  | .record fields => .record (fieldMeanings fields)
  | d => d

def meanings : List Document → List Document
  | [] => []
  | d :: rest => d.meaning :: meanings rest

def fieldMeanings : List (String × Document) → List (String × Document)
  | [] => []
  | (name, d) :: rest => (name, d.meaning) :: fieldMeanings rest

end

theorem meanings_eq_map (items : List Document) : meanings items = items.map meaning := by
  induction items with
  | nil => rfl
  | cons d rest ih => rw [meanings, ih, List.map_cons]

theorem fieldMeanings_eq_map (fields : List (String × Document)) :
    fieldMeanings fields = fields.map fun f => (f.1, f.2.meaning) := by
  induction fields with
  | nil => rfl
  | cons f rest ih => rw [fieldMeanings, ih, List.map_cons]

/-- A plain scalar stands for null or for a single value, and for a text only if that is its own. -/
theorem ofWord_cases (s : String) :
    ofWord s = .null ∧ isNullWord s = true ∨ isNullWord s = false ∧
      ((∃ b, ofWord s = .boolean b) ∨ (∃ i, ofWord s = .whole i) ∨ (∃ r, ofWord s = .real r) ∨
        ofWord s = .text s) := by
  unfold ofWord
  cases hnull : isNullWord s with
  | true => exact Or.inl ⟨rfl, rfl⟩
  | false =>
    refine Or.inr ⟨rfl, ?_⟩
    rw [if_neg Bool.false_ne_true]
    cases booleanWord? s with
    | some b => exact Or.inl ⟨b, rfl⟩
    | none =>
      cases wholeWord? s.toList with
      | some i => exact Or.inr (Or.inl ⟨i, rfl⟩)
      | none =>
        cases realWord? s.toList with
        | some r => exact Or.inr (Or.inr (Or.inl ⟨r, rfl⟩))
        | none => exact Or.inr (Or.inr (Or.inr rfl))

section Readers

variable {α : Type} {read : Document → Option α} {d : Document}

/-- The reader finds in every document what it finds in the meaning of the document. -/
def SeesMeaning (read : Document → Option α) : Prop :=
  ∀ d v, read d.meaning = some v → read d = some v

theorem seesMeaning_text : SeesMeaning text? := by
  intro d v h
  cases d with
  | plain s =>
    rcases ofWord_cases s with ⟨hword, -⟩ | ⟨-, ⟨b, hword⟩ | ⟨i, hword⟩ | ⟨r, hword⟩ | hword⟩
    all_goals rw [meaning, hword] at h
    case inr.inr.inr.inr => exact h
    all_goals cases h
  | null | boolean | whole | real | text | list | record => exact h

theorem seesMeaning_boolean : SeesMeaning boolean? := by
  intro d v h
  cases d with
  | plain s =>
    rcases ofWord_cases s with ⟨hword, -⟩ | ⟨-, ⟨b, hword⟩ | ⟨i, hword⟩ | ⟨r, hword⟩ | hword⟩
    all_goals
      rw [meaning, hword] at h
      rw [boolean?, settled, hword]
      exact h
  | null | boolean | whole | real | text | list | record => exact h

theorem seesMeaning_natural (limit : Nat) : SeesMeaning (natural? limit) := by
  intro d v h
  cases d with
  | plain s =>
    rcases ofWord_cases s with ⟨hword, -⟩ | ⟨-, ⟨b, hword⟩ | ⟨i, hword⟩ | ⟨r, hword⟩ | hword⟩
    all_goals
      rw [meaning, hword] at h
      rw [natural?, settled, hword]
      exact h
  | null | boolean | whole | real | text | list | record => exact h

theorem isNull_meaning (d : Document) : d.meaning.isNull = d.isNull := by
  cases d with
  | plain s =>
    rcases ofWord_cases s with ⟨hword, hs⟩ | ⟨hs, ⟨b, hword⟩ | ⟨i, hword⟩ | ⟨r, hword⟩ | hword⟩
    all_goals simp only [meaning, hword, isNull, hs]
  | null | boolean | whole | real | text | list | record => rfl

theorem SeesMeaning.option (h : SeesMeaning read) : SeesMeaning (option? read) := by
  intro d v hv
  rw [option?, isNull_meaning] at hv
  rw [option?]
  split at hv
  · next hnull => rw [if_pos hnull, hv]
  · next hnull =>
    obtain ⟨a, ha, rfl⟩ := Option.map_eq_some_iff.1 hv
    rw [if_neg hnull, h d a ha, Option.map_some]

/-- What is read element by element after a change is read without the change too, if that holds
of every element. -/
theorem mapM_of_map {β γ : Type} {change : β → β} {before after : β → Option γ}
    (hread : ∀ x y, after (change x) = some y → before x = some y) {xs : List β} {ys : List γ}
    (hys : (xs.map change).mapM after = some ys) : xs.mapM before = some ys := by
  induction xs generalizing ys with
  | nil => exact hys
  | cons x rest ih =>
    rw [List.map_cons, List.mapM_cons] at hys
    obtain ⟨y, hy, hys⟩ := Option.bind_eq_some_iff.1 hys
    obtain ⟨others, hothers, hys⟩ := Option.bind_eq_some_iff.1 hys
    rw [List.mapM_cons, hread x y hy, ih hothers]
    exact hys

theorem SeesMeaning.list (h : SeesMeaning read) : SeesMeaning (list? read) := by
  intro d vs hvs
  cases d with
  | list items =>
    rw [meaning, meanings_eq_map] at hvs
    exact mapM_of_map h hvs
  | plain s =>
    rcases ofWord_cases s with ⟨hword, -⟩ | ⟨-, ⟨b, hword⟩ | ⟨i, hword⟩ | ⟨r, hword⟩ | hword⟩
    all_goals
      rw [meaning, hword] at hvs
      cases hvs
  | null | boolean | whole | real | text | record => cases hvs

theorem SeesMeaning.table (h : SeesMeaning read) : SeesMeaning (table? read) := by
  intro d t ht
  cases d with
  | record fields =>
    rw [meaning, fieldMeanings_eq_map] at ht
    obtain ⟨entries, hentries, rfl⟩ := Option.map_eq_some_iff.1 ht
    refine Option.map_eq_some_iff.2 ⟨entries, mapM_of_map (fun f e he => ?_) hentries, rfl⟩
    obtain ⟨v, hv, rfl⟩ := Option.map_eq_some_iff.1 he
    rw [h f.2 v hv, Option.map_some]
  | plain s =>
    rcases ofWord_cases s with ⟨hword, -⟩ | ⟨-, ⟨b, hword⟩ | ⟨i, hword⟩ | ⟨r, hword⟩ | hword⟩
    all_goals
      rw [meaning, hword] at ht
      cases ht
  | null | boolean | whole | real | text | list => cases ht

/-- The fields of a record are found in the record as they are in its meaning. -/
theorem fields?_of_meaning {names : List String} {fields : List (String × Document)}
    (h : d.meaning.fields? names = some fields) :
    ∃ own, d.fields? names = some own ∧ fields = own.map fun f => (f.1, f.2.meaning) := by
  cases d with
  | record own =>
    rw [meaning, fieldMeanings_eq_map, fields?] at h
    obtain ⟨hnames, hfields⟩ := Option.ite_none_right_eq_some.1 h
    refine ⟨own, if_pos ?_, (Option.some.inj hfields).symm⟩
    simpa only [List.filter_map, List.length_map, Function.comp_def] using hnames
  | list items =>
    rw [meaning, meanings_eq_map, fields?, List.length_map] at h
    obtain ⟨hlength, hfields⟩ := Option.ite_none_right_eq_some.1 h
    refine ⟨names.zip items, if_pos hlength, ?_⟩
    rw [← Option.some.inj hfields, List.zip_map_right]
    rfl
  | plain s =>
    rcases ofWord_cases s with ⟨hword, -⟩ | ⟨-, ⟨b, hword⟩ | ⟨i, hword⟩ | ⟨r, hword⟩ | hword⟩
    all_goals
      rw [meaning, hword] at h
      cases h
  | null | boolean | whole | real | text => cases h

theorem SeesMeaning.defaulted (h : SeesMeaning read) {default v : α} {name : String}
    {fields : List (String × Document)}
    (hv : defaulted read default name (fields.map fun f => (f.1, f.2.meaning)) = some v) :
    defaulted read default name fields = some v := by
  rw [Document.defaulted, Entries.lookup_map] at hv
  rw [Document.defaulted]
  cases hfound : fields.lookup name with
  | none =>
    rw [hfound] at hv
    exact hv
  | some d =>
    rw [hfound] at hv
    exact h d v hv

theorem SeesMeaning.optional (h : SeesMeaning read) {v : Option α} {name : String}
    {fields : List (String × Document)}
    (hv : optional read name (fields.map fun f => (f.1, f.2.meaning)) = some v) :
    optional read name fields = some v :=
  h.option.defaulted hv

end Readers

section Sorted

theorem sortedFields_eq_map (fields : List (String × Document)) :
    sortedFields fields = fields.map fun f => (f.1, f.2.sorted) := by
  induction fields with
  | nil => rfl
  | cons f rest ih => rw [sortedFields, ih, List.map_cons]

/-- Sorting keeps the value of every field, which is the last one of its name. -/
theorem field?_sorted (name : String) (d : Document) :
    d.sorted.field? name = (d.field? name).map sorted := by
  cases d with
  | record fields =>
    have hordered := Entries.ordered_foldl_put List.Pairwise.nil
      (fields.map fun f => (f.1, f.2.sorted))
    rw [sorted, field?, field?, sortedFields_eq_map, Entries.lookup_reverse name hordered,
      Entries.lookup_foldl_put, ← List.map_reverse, Entries.lookup_map, List.lookup_nil,
      Option.or_none]
  | null | boolean | whole | real | text | plain | list => rfl

end Sorted

section Written

variable {α : Type} {name other : String}

/-- A record whose fields are some of the expected ones, each once, is taken for what it holds. -/
theorem fields?_record {names : List String} {fields : List (String × Document)}
    (hnames : names.Nodup) (hfields : (fields.map (·.1)).Sublist names) :
    (record fields).fields? names = some fields := by
  refine if_pos (List.all_eq_true.2 fun n _ => decide_eq_true ?_)
  rw [← List.countP_eq_length_filter]
  calc fields.countP (fun f => f.1 == n)
      = (fields.map (·.1)).count n := by rw [List.count, List.countP_map]; rfl
    _ ≤ names.count n := hfields.count_le n
    _ ≤ 1 := List.nodup_iff_count_le_one.1 hnames n

theorem names_present_sublist (name : String) (encode : α → Document) (a : Option α) :
    ((present name encode a).map (·.1)).Sublist [name] := by
  cases a with
  | none => exact List.nil_sublist _
  | some a => exact List.Sublist.refl _

theorem names_shownIf_sublist (shown : Bool) (name : String) (d : Document) :
    ((shownIf shown name d).map (·.1)).Sublist [name] := by
  cases shown with
  | false => exact List.nil_sublist _
  | true => exact List.Sublist.refl _

@[simp] theorem lookup_present (name : String) (encode : α → Document) (a : Option α) :
    (present name encode a).lookup name = a.map encode := by
  cases a with
  | none => rfl
  | some a => rw [present, List.lookup_cons_self, Option.map_some]

theorem lookup_present_of_ne (h : other ≠ name) (encode : α → Document) (a : Option α) :
    (present name encode a).lookup other = none := by
  cases a with
  | none => rfl
  | some a => rw [present, List.lookup_cons, beq_false_of_ne h]; rfl

@[simp] theorem lookup_shownIf (shown : Bool) (name : String) (d : Document) :
    (shownIf shown name d).lookup name = if shown then some d else none := by
  cases shown with
  | false => rfl
  | true => exact List.lookup_cons_self

theorem lookup_shownIf_of_ne (h : other ≠ name) (shown : Bool) (d : Document) :
    (shownIf shown name d).lookup other = none := by
  cases shown with
  | false => rfl
  | true => rw [shownIf, if_pos rfl, List.lookup_cons, beq_false_of_ne h]; rfl

theorem required_text {s : String} {fields : List (String × Document)}
    (hfield : fields.lookup name = some (.text s)) : required text? name fields = some s := by
  rw [required, hfield]
  rfl

theorem defaulted_text {default s : String} {fields : List (String × Document)}
    (hfield : fields.lookup name = some (.text s)) :
    defaulted text? default name fields = some s := by
  rw [defaulted, hfield]
  rfl

/-- A field that is left out when it has its default is read as it was written. -/
theorem defaulted_of_lookup {decode : Document → Option α} {default a : α} {shown : Bool}
    {fields : List (String × Document)} {d : Document}
    (hfield : fields.lookup name = if shown then some d else none)
    (hdefault : shown = false → default = a) (hread : decode d = some a) :
    defaulted decode default name fields = some a := by
  rw [defaulted, hfield]
  cases shown with
  | false => exact congrArg some (hdefault rfl)
  | true => exact hread

end Written

section Changed

variable {α β : Type} {name : String} {decode : Document → Option β} {encode : α → Document}
  {change : α → β}

/-- An optional field is read as it was written, up to what reading changes in its value. -/
theorem optional_of_lookup_map {a : Option α} {fields : List (String × Document)}
    (hfield : fields.lookup name = a.map encode) (hnull : ∀ v ∈ a, (encode v).isNull = false)
    (hread : ∀ v ∈ a, decode (encode v) = some (change v)) :
    optional decode name fields = some (a.map change) := by
  rw [optional, defaulted, hfield]
  cases a with
  | none => rfl
  | some v =>
    change option? decode (encode v) = _
    rw [option?, hnull v rfl, hread v rfl]
    rfl

theorem mapM_map_eq_some {γ : Type} {f : γ → α} {g : α → Option β} {h : γ → β} {xs : List γ}
    (hread : ∀ x ∈ xs, g (f x) = some (h x)) : (xs.map f).mapM g = some (xs.map h) := by
  induction xs with
  | nil => rfl
  | cons x rest ih =>
    rw [List.map_cons, List.mapM_cons, hread x List.mem_cons_self,
      ih fun y hy => hread y (List.mem_cons_of_mem x hy)]
    rfl

/-- A list is read as it was written, up to what reading changes in its items. -/
theorem list?_map {xs : List α} (hread : ∀ x ∈ xs, decode (encode x) = some (change x)) :
    list? decode (.list (xs.map encode)) = some (xs.map change) :=
  mapM_map_eq_some hread

/-- A table is read as it was written, up to what reading changes in its values. -/
theorem table?_ofTable_map {t : NameTable α}
    (hread : ∀ e ∈ t.entries, decode (encode e.2) = some (change e.2)) :
    table? decode (ofTable encode t) = some (t.map change) := by
  have hentries : (t.entries.map fun e => (e.1, encode e.2)).mapM
      (fun f => (decode f.2).map fun v => (f.1, v)) = some (t.map change).entries :=
    mapM_map_eq_some fun e he => by rw [hread e he, Option.map_some]
  rw [ofTable, table?, hentries, Option.map_some, NameTable.ofList_entries]

end Changed

section Unchanged

variable {α : Type} {name : String} {decode : Document → Option α} {encode : α → Document}

/-- An optional field is read as it was written. -/
theorem optional_of_lookup {a : Option α} {fields : List (String × Document)}
    (hfield : fields.lookup name = a.map encode) (hnull : ∀ v, (encode v).isNull = false)
    (hread : ∀ v ∈ a, decode (encode v) = some v) : optional decode name fields = some a := by
  have h : optional decode name fields = some (a.map id) :=
    optional_of_lookup_map hfield (fun v _ => hnull v) hread
  rwa [Option.map_id, id] at h

theorem list?_texts (texts : List String) : list? text? (.list (texts.map .text)) = some texts := by
  have h : list? text? (.list (texts.map .text)) = some (texts.map id) := list?_map fun _ _ => rfl
  rwa [List.map_id] at h

theorem optional_text {a : Option String} {fields : List (String × Document)}
    (hfield : fields.lookup name = a.map .text) : optional text? name fields = some a :=
  optional_of_lookup hfield (fun _ => rfl) fun _ _ => rfl

theorem optional_boolean {a : Option Bool} {fields : List (String × Document)}
    (hfield : fields.lookup name = a.map .boolean) : optional boolean? name fields = some a :=
  optional_of_lookup hfield (fun _ => rfl) fun _ _ => rfl

/-- A flag is written only if it is set. -/
theorem defaulted_flag {b : Bool} {fields : List (String × Document)}
    (hfield : fields.lookup name = if b then some (.boolean true) else none) :
    defaulted boolean? false name fields = some b := by
  rw [defaulted, hfield]
  cases b <;> rfl

/-- A table is read as it was written if every value of it is. -/
theorem table?_ofTable (hread : ∀ v, decode (encode v) = some v) (t : NameTable α) :
    table? decode (ofTable encode t) = some t := by
  have hid : t.map id = t := NameTable.ext (List.map_id' _)
  have h : table? decode (ofTable encode t) = some (t.map id) :=
    table?_ofTable_map fun e _ => hread e.2
  rwa [hid] at h

end Unchanged

end CimConsole.Document
