import CimConsole.Output.Table
import Mathlib.Data.List.Forall2
import Mathlib.Data.List.Perm.Basic
import Mathlib.Order.Bounds.Basic

/-!
Widths of the columns of a table. What a table is too wide is taken off its columns one after
another, from each as much as it can give. So each column keeps its width or eight characters of it,
and the whole gets as narrow as the terminal or as its columns can become; in which order the columns
give does not matter for either.
-/
namespace CimConsole.Table

def total (widths : List Nat) : Nat := widths.foldr (· + ·) 0

@[simp] theorem total_nil : total [] = 0 := rfl

@[simp] theorem total_cons (w : Nat) (widths : List Nat) :
    total (w :: widths) = w + total widths := rfl

theorem total_eq_of_perm {ws vs : List Nat} (h : ws.Perm vs) : total ws = total vs := h.foldr_eq 0

theorem lineWidth_eq (widths : List Nat) :
    lineWidth widths = total widths + (widths.length - 1) * 2 := by
  have hsum : ∀ start, widths.foldl (· + ·) start = start + total widths := by
    induction widths with
    | nil => simp
    | cons w widths ih => simp [ih, Nat.add_assoc]
  rw [lineWidth, hsum, Nat.zero_add]

/-- What columns keep at least and what they can give make up their widths. -/
theorem total_kept_add_given (widths : List Nat) :
    total (widths.map (min · 8)) + total (widths.map (· - 8)) = total widths := by
  induction widths with
  | nil => rfl
  | cons w widths ih =>
    simp only [List.map_cons, total_cons]
    omega

section Narrowing

/-- Each column is found again, with no more than its width and no less than eight characters of
it. -/
theorem exists_mem_narrowed (overflow : Nat) {columns : List (Nat × Nat)} {i w : Nat}
    (h : (i, w) ∈ columns) : ∃ v, (i, v) ∈ narrowed overflow columns ∧ min w 8 ≤ v ∧ v ≤ w := by
  induction columns generalizing overflow with
  | nil => cases h
  | cons column columns ih =>
    rcases List.mem_cons.1 h with rfl | h
    · exact ⟨_, List.mem_cons_self, by omega, Nat.sub_le _ _⟩
    · obtain ⟨v, hv, hbounds⟩ := ih (overflow - min (column.2 - 8) overflow) h
      exact ⟨v, List.mem_cons_of_mem _ hv, hbounds⟩

theorem map_place_narrowed (overflow : Nat) (columns : List (Nat × Nat)) :
    (narrowed overflow columns).map (·.1) = columns.map (·.1) := by
  induction columns generalizing overflow with
  | nil => rfl
  | cons column columns ih => rw [narrowed, List.map_cons, List.map_cons, ih]

/-- The columns give the overflow, or all that they can give if that is less. -/
theorem total_narrowed (overflow : Nat) (columns : List (Nat × Nat)) :
    total ((narrowed overflow columns).map (·.2)) +
      min overflow (total (columns.map fun c => c.2 - 8)) = total (columns.map (·.2)) := by
  induction columns generalizing overflow with
  | nil => simp [narrowed]
  | cons column columns ih =>
    have hrest := ih (overflow - min (column.2 - 8) overflow)
    simp only [narrowed, List.map_cons, total_cons]
    omega

theorem narrowed_zero (columns : List (Nat × Nat)) : narrowed 0 columns = columns := by
  induction columns with
  | nil => rfl
  | cons column columns ih => simp [narrowed, ih]

end Narrowing

section Places

variable {widths : List Nat}

theorem lookup_of_nodup {columns : List (Nat × Nat)} (h : (columns.map (·.1)).Nodup) {i v : Nat}
    (hmem : (i, v) ∈ columns) : columns.lookup i = some v := by
  induction columns with
  | nil => cases hmem
  | cons column columns ih =>
    obtain ⟨hfirst, hrest⟩ := List.nodup_cons.1 h
    rcases List.mem_cons.1 hmem with rfl | hmem
    · exact List.lookup_cons_self
    · have hne : (i == column.1) = false := by
        rw [beq_eq_false_iff_ne]
        rintro rfl
        exact hfirst (List.mem_map.2 ⟨_, hmem, rfl⟩)
      rw [List.lookup_cons, hne]
      exact ih hrest hmem

theorem perm_widestFirst (widths : List Nat) :
    (widestFirst widths).Perm (widths.zipIdx.map fun e => (e.2, e.1)) :=
  List.mergeSort_perm _ _

/-- Each column stands once among the columns, the widest first. -/
theorem perm_places (widths : List Nat) :
    ((widestFirst widths).map (·.1)).Perm (List.range widths.length) := by
  refine ((perm_widestFirst widths).map _).trans (.of_eq ?_)
  rw [List.map_map, List.range_eq_range', ← List.zipIdx_map_snd]
  rfl

theorem mem_widestFirst {i w : Nat} (h : widths[i]? = some w) : (i, w) ∈ widestFirst widths := by
  rw [(perm_widestFirst widths).mem_iff]
  exact List.mem_map.2 ⟨(w, i), List.mem_zipIdx_iff_getElem?.2 h, rfl⟩

theorem map_width_perm (widths : List Nat) : ((widestFirst widths).map (·.2)).Perm widths := by
  refine ((perm_widestFirst widths).map _).trans (.of_eq ?_)
  rw [List.map_map]
  exact List.zipIdx_map_fst 0 widths

/-- The columns with their final widths, the widest first. -/
def finalColumns (limit : Nat) (widths : List Nat) : List (Nat × Nat) :=
  narrowed (lineWidth widths - limit) (widestFirst widths)

theorem nodup_finalColumns (limit : Nat) (widths : List Nat) :
    ((finalColumns limit widths).map (·.1)).Nodup := by
  rw [finalColumns, map_place_narrowed]
  exact (perm_places widths).nodup_iff.2 List.nodup_range

theorem getElem?_fittedWidths {limit i v : Nat} (h : (i, v) ∈ finalColumns limit widths)
    (hi : i < widths.length) : (fittedWidths limit widths)[i]? = some v := by
  have hlookup := lookup_of_nodup (nodup_finalColumns limit widths) h
  rw [finalColumns] at hlookup
  simp [fittedWidths, hi, hlookup]

theorem length_fittedWidths (limit : Nat) (widths : List Nat) :
    (fittedWidths limit widths).length = widths.length := by
  simp [fittedWidths]

/-- Every column keeps eight characters, or its width if that is less. -/
theorem forall₂_fittedWidths (limit : Nat) (widths : List Nat) :
    List.Forall₂ (fun w v => min w 8 ≤ v ∧ v ≤ w) widths (fittedWidths limit widths) := by
  refine List.forall₂_iff_get.2 ⟨(length_fittedWidths limit widths).symm, fun i hi hi' => ?_⟩
  obtain ⟨v, hv, hbounds⟩ := exists_mem_narrowed (lineWidth widths - limit)
    (mem_widestFirst (List.getElem?_eq_getElem hi))
  have hfound := getElem?_fittedWidths hv hi
  rw [List.getElem?_eq_getElem hi', Option.some.injEq] at hfound
  rw [List.get_eq_getElem, List.get_eq_getElem, hfound]
  exact hbounds

theorem fittedWidths_perm (limit : Nat) (widths : List Nat) :
    (fittedWidths limit widths).Perm ((finalColumns limit widths).map (·.2)) := by
  have hplaces : ((finalColumns limit widths).map (·.1)).Perm (List.range widths.length) := by
    rw [finalColumns, map_place_narrowed]
    exact perm_places widths
  refine (hplaces.map fun i => ((finalColumns limit widths).lookup i).getD 0).symm.trans (.of_eq ?_)
  rw [List.map_map]
  refine List.map_congr_left fun c hc => ?_
  rw [Function.comp_apply, lookup_of_nodup (nodup_finalColumns limit widths) hc]
  rfl

/-- A table that fits keeps its widths. -/
theorem fittedWidths_of_le {limit : Nat} (h : lineWidth widths ≤ limit) :
    fittedWidths limit widths = widths := by
  refine List.ext_getElem? fun i => ?_
  cases hw : widths[i]? with
  | none =>
    rw [List.getElem?_eq_none_iff] at hw ⊢
    rwa [length_fittedWidths]
  | some w =>
    refine getElem?_fittedWidths ?_ (List.getElem?_eq_some_iff.1 hw).1
    rw [finalColumns, Nat.sub_eq_zero_of_le h, narrowed_zero]
    exact mem_widestFirst hw

/-- A table that does not fit gets as narrow as the terminal, or as narrow as its columns can
become if that is wider. -/
theorem lineWidth_fittedWidths (limit : Nat) (widths : List Nat) :
    lineWidth (fittedWidths limit widths) =
      if lineWidth widths ≤ limit then lineWidth widths
      else max limit (lineWidth (widths.map (min · 8))) := by
  have hnarrowed := total_narrowed (lineWidth widths - limit) (widestFirst widths)
  have hgiven : total ((widestFirst widths).map fun c => c.2 - 8) = total (widths.map (· - 8)) := by
    have hperm := (map_width_perm widths).map (· - 8)
    rw [List.map_map] at hperm
    exact total_eq_of_perm hperm
  have hfinal : total (fittedWidths limit widths) =
      total ((narrowed (lineWidth widths - limit) (widestFirst widths)).map (·.2)) :=
    total_eq_of_perm (fittedWidths_perm limit widths)
  rw [hgiven, total_eq_of_perm (map_width_perm widths), ← hfinal] at hnarrowed
  have hsplit := total_kept_add_given widths
  simp only [lineWidth_eq, List.length_map, length_fittedWidths] at hnarrowed ⊢
  split <;> omega

end Places

section Natural

/-- The width of a column is the greatest number of characters in it. -/
theorem isGreatest_naturalWidth (rows : List (List String)) (i : Nat) (header : String) :
    IsGreatest {n | n = header.length ∨ ∃ row ∈ rows, n = shownWidth (row.getD i "")}
      (naturalWidth rows i header) := by
  have hgreatest : ∀ start, IsGreatest
      {n | n = start ∨ ∃ row ∈ rows, n = shownWidth (row.getD i "")}
      (rows.foldl (fun w row => max w (shownWidth (row.getD i ""))) start) := by
    induction rows with
    | nil => simp [IsGreatest, upperBounds]
    | cons row rows ih =>
      intro start
      obtain ⟨hmem, hupper⟩ := ih (max start (shownWidth (row.getD i "")))
      refine ⟨?_, ?_⟩
      · rcases hmem with heq | ⟨other, hother, heq⟩
        · rcases Nat.le_total (shownWidth (row.getD i "")) start with hle | hle
          · exact Or.inl (heq.trans (Nat.max_eq_left hle))
          · exact Or.inr ⟨row, List.mem_cons_self, heq.trans (Nat.max_eq_right hle)⟩
        · exact Or.inr ⟨other, List.mem_cons_of_mem _ hother, heq⟩
      · have hstart := hupper (Or.inl rfl)
        rintro n (rfl | ⟨other, hother, rfl⟩)
        · exact Nat.le_trans (Nat.le_max_left _ _) hstart
        · rcases List.mem_cons.1 hother with rfl | hother
          · exact Nat.le_trans (Nat.le_max_right _ _) hstart
          · exact hupper (Or.inr ⟨other, hother, rfl⟩)
  exact hgreatest header.length

theorem getElem?_naturalWidths {headers : List String} (rows : List (List String)) {i : Nat}
    {header : String} (h : headers[i]? = some header) :
    (naturalWidths headers rows)[i]? = some (naturalWidth rows i header) := by
  simp [naturalWidths, List.getElem?_zipIdx, h]

theorem length_naturalWidths (headers : List String) (rows : List (List String)) :
    (naturalWidths headers rows).length = headers.length := by
  simp [naturalWidths]

end Natural

end CimConsole.Table
