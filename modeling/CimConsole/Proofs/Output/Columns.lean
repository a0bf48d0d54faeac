import CimConsole.Proofs.Output.Widths
import CimConsole.Proofs.Text.Lists

/-!
Where the cells of a table stand. Each cell is filled up with spaces to the width of its column or
cut to it, so a column starts behind the widths and gaps of the columns before it, in every line;
blanks at the end of a line are left out.
-/
namespace CimConsole

open Text

/-- The characters of a cell in a column: the cell and spaces, or what there is room for of the cell
and an ellipsis. -/
def Table.cellChars (width : Nat) (cell : String) : List Char :=
  if cell.length ≤ width then cell.toList ++ List.replicate (width - cell.length) ' '
  else cell.toList.take (width - 1) ++ ['…']

/-- How many characters stand in front of a column. -/
def Table.offset (widths : List Nat) (i : Nat) : Nat := total ((widths.take i).map (· + 2))

/-- A line with these cells in columns of these widths, blanks at its end aside. -/
structure Table.Shows (widths : List Nat) (cells : List String) (line : String) : Prop where
  length_le : line.length ≤ lineWidth widths
  column : ∀ i width cell, widths[i]? = some width → cells[i]? = some cell →
    ∃ blanks : List Char, (∀ c ∈ blanks, isBlank c = true) ∧
      (line.toList.drop (offset widths i)).take width ++ blanks = cellChars width cell

section Cells

theorem plainChars_of_not_mem {cs : List Char} (h : '\x1b' ∉ cs) : plainChars false cs = cs := by
  induction cs with
  | nil => rfl
  | cons c cs ih =>
    rw [List.mem_cons, not_or] at h
    rw [plainChars, ih h.2]
    exact fun _ hc _ => h.1 hc.symm

theorem shownWidth_of_not_mem {s : String} (h : '\x1b' ∉ s.toList) : shownWidth s = s.length := by
  rw [shownWidth, plainChars_of_not_mem h, String.length_toList]

theorem toList_truncate {width : Nat} {s : String} (h : width < s.length) :
    (truncate width s).toList = s.toList.take (width - 1) ++ ['…'] := by
  rw [truncate, if_neg (by omega)]
  split
  case isTrue hsmall =>
    rw [show width - 1 = 0 by omega, List.take_zero]
    rfl
  case isFalse =>
    rw [String.toList_append, String.toList_ofList]
    rfl

theorem toList_fitted {width : Nat} {cell : String} (h : '\x1b' ∉ cell.toList) :
    (fitted width cell).toList = Table.cellChars width cell := by
  rw [fitted, shownWidth_of_not_mem h, Table.cellChars]
  split
  case isTrue => rw [String.toList_append, repeated, String.toList_ofList]
  case isFalse hwide =>
    rw [plainText, plainChars_of_not_mem h, String.ofList_toList, toList_truncate (by omega)]

namespace Table

theorem length_cellChars {width : Nat} {cell : String} (h : cell.length ≤ width ∨ 0 < width) :
    (cellChars width cell).length = width := by
  rw [cellChars]
  split
  case isTrue hfits =>
    rw [List.length_append, String.length_toList, List.length_replicate]
    omega
  case isFalse hwide =>
    have hpos : 0 < width := h.resolve_left hwide
    rw [List.length_append, List.length_take, String.length_toList, List.length_singleton]
    omega

end Table

end Cells

namespace Table

section Lines

variable {widths : List Nat} {texts cells : List String}

/-- Texts that fill columns of these widths. -/
abbrev Fill (widths : List Nat) (texts : List String) : Prop :=
  List.Forall₂ (fun (w : Nat) (t : String) => t.length = w) widths texts

theorem length_join (h : Fill widths texts) : (join "  " texts).length = lineWidth widths := by
  rw [lineWidth_eq]
  induction h with
  | nil => rfl
  | @cons w t widths texts hw h ih =>
    cases h with
    | nil => simp [join, hw]
    | cons hw' h =>
      have hgap : "  ".length = 2 := rfl
      rw [join_cons_cons, String.length_append, String.length_append, ih, hw]
      simp only [total_cons, List.length_cons]
      omega

/-- A column starts behind the columns before it and their gaps. -/
theorem column_join (h : Fill widths texts) {i width : Nat} {t : String}
    (hw : widths[i]? = some width) (ht : texts[i]? = some t) :
    ((join "  " texts).toList.drop (offset widths i)).take width = t.toList := by
  induction i generalizing widths texts with
  | zero =>
    cases h with
    | nil => cases hw
    | @cons w s widths texts hlength h =>
      obtain rfl : w = width := Option.some.inj hw
      obtain rfl : s = t := Option.some.inj ht
      rw [← String.length_toList] at hlength
      cases texts with
      | nil => simp [offset, join, ← hlength]
      | cons u rest =>
        rw [join_cons_cons, String.append_assoc, String.toList_append]
        simp [offset, ← hlength]
  | succ i ih =>
    cases h with
    | nil => cases hw
    | @cons w s widths texts hlength h =>
      cases h with
      | nil => cases hw
      | @cons w' u widths texts hlength' h =>
        have hbefore : (s ++ "  ").toList.length = w + 2 := by
          rw [String.length_toList, String.length_append, hlength]
          rfl
        have hoffset : offset (w :: w' :: widths) (i + 1) = w + 2 + offset (w' :: widths) i := rfl
        rw [join_cons_cons, String.toList_append, hoffset, ← List.drop_drop, ← hbefore,
          List.drop_left]
        exact ih (.cons hlength' h) hw ht

theorem length_trimEnd_le (s : String) : (trimEnd s).length ≤ s.length := by
  rw [trimEnd, String.length_ofList, ← String.length_toList]
  exact length_dropEndWhile_le isBlank s.toList

/-- A part of a text is a part of the text without the blanks at its end, and blanks. -/
theorem take_drop_trimEnd (s : String) (start width : Nat) :
    ∃ blanks : List Char, (∀ c ∈ blanks, isBlank c = true) ∧
      ((trimEnd s).toList.drop start).take width ++ blanks = (s.toList.drop start).take width := by
  obtain ⟨dropped, hdropped, hsplit⟩ : ∃ dropped : List Char, (∀ c ∈ dropped, isBlank c = true) ∧
      s.toList = (trimEnd s).toList ++ dropped := by
    refine ⟨(s.toList.reverse.takeWhile isBlank).reverse, fun c hc => ?_, ?_⟩
    · exact List.all_eq_true.1 List.all_takeWhile c (List.mem_reverse.1 hc)
    · rw [trimEnd, String.toList_ofList, dropEndWhile_append_takeWhile]
  have hpart : (s.toList.drop start).take width = ((trimEnd s).toList.drop start).take width ++
      ((dropped.drop (start - (trimEnd s).toList.length)).take
        (width - ((trimEnd s).toList.drop start).length)) := by
    rw [hsplit, List.drop_append, List.take_append]
  exact ⟨_, fun c hc => hdropped c (List.mem_of_mem_drop (List.mem_of_mem_take hc)), hpart.symm⟩

/-- A line of texts that are the cells in their columns. -/
theorem shows_of_fill (h : Fill widths texts)
    (hcells : ∀ (i width : Nat) (cell : String), widths[i]? = some width → cells[i]? = some cell →
      ∃ t : String, texts[i]? = some t ∧ t.toList = cellChars width cell) :
    Shows widths cells (trimEnd (join "  " texts)) where
  length_le := length_join h ▸ length_trimEnd_le _
  column := by
    intro i width cell hw hcell
    obtain ⟨t, ht, htext⟩ := hcells i width cell hw hcell
    rw [← htext, ← column_join h hw ht]
    exact take_drop_trimEnd _ _ _

theorem shows_line (hlength : cells.length = widths.length)
    (hplain : ∀ cell ∈ cells, '\x1b' ∉ cell.toList)
    (hroom : ∀ (i width : Nat) (cell : String), widths[i]? = some width → cells[i]? = some cell →
      cell.length ≤ width ∨ 0 < width) : Shows widths cells (line widths cells) := by
  have htext : ∀ (i width : Nat) (cell : String), widths[i]? = some width →
      cells[i]? = some cell → (List.zipWith fitted widths cells)[i]? = some (fitted width cell) ∧
        (fitted width cell).toList = cellChars width cell := by
    intro i width cell hw hcell
    refine ⟨?_, toList_fitted (hplain cell (List.mem_of_getElem? hcell))⟩
    rw [List.getElem?_zipWith, hw, hcell]
  refine shows_of_fill (List.forall₂_iff_get.2 ⟨?_, fun i hi hi' => ?_⟩)
    fun i width cell hw hcell => ?_
  · rw [List.length_zipWith, hlength, Nat.min_self]
  · have hcell : i < cells.length := hlength ▸ hi
    obtain ⟨hfound, hchars⟩ := htext i _ _ (List.getElem?_eq_getElem hi)
      (List.getElem?_eq_getElem hcell)
    rw [List.getElem?_eq_getElem hi', Option.some.injEq] at hfound
    rw [List.get_eq_getElem, List.get_eq_getElem, hfound, ← String.length_toList, hchars]
    exact length_cellChars (hroom i _ _ (List.getElem?_eq_getElem hi)
      (List.getElem?_eq_getElem hcell))
  · obtain ⟨hfound, hchars⟩ := htext i width cell hw hcell
    exact ⟨_, hfound, hchars⟩

theorem shows_rule (widths : List Nat) :
    Shows widths (widths.map (repeated '-')) (rule widths) := by
  have hdashes : ∀ w : Nat, (repeated '-' w).length = w := fun w => by
    rw [repeated, String.length_ofList, List.length_replicate]
  have hfill : Fill widths (widths.map (repeated '-')) :=
    List.forall₂_iff_get.2 ⟨(List.length_map _).symm, fun i hi hi' => by simp [hdashes]⟩
  refine ⟨Nat.le_of_eq (length_join hfill), fun i width cell hw hcell => ⟨[], by simp, ?_⟩⟩
  obtain rfl : repeated '-' width = cell := by simpa [hw] using hcell
  rw [List.append_nil, rule, column_join hfill hw hcell, cellChars, if_pos (Nat.le_of_eq (hdashes _)),
    hdashes, Nat.sub_self, List.replicate_zero, List.append_nil]

end Lines

section Tables

variable {headers : List String} {rows : List (List String)}

theorem getD_eq_of_getElem? {row : List String} {i : Nat} {cell : String}
    (h : row[i]? = some cell) : row.getD i "" = cell := by
  rw [List.getD_eq_getElem?_getD, h, Option.getD_some]

theorem not_mem_getD {row : List String} (h : ∀ cell ∈ row, '\x1b' ∉ cell.toList) (i : Nat) :
    '\x1b' ∉ (row.getD i "").toList := by
  rw [List.getD_eq_getElem?_getD]
  cases hcell : row[i]? with
  | none => exact List.not_mem_nil
  | some cell => exact h cell (List.mem_of_getElem? hcell)

theorem length_cells (columns : Nat) (row : List String) : (cells columns row).length = columns := by
  simp [cells]

theorem getElem?_cells {columns : Nat} {row : List String} {i : Nat} {cell : String}
    (h : (cells columns row)[i]? = some cell) : row.getD i "" = cell := by
  obtain ⟨hi, hcell⟩ := List.getElem?_eq_some_iff.1 h
  simpa [cells] using hcell

/-- The width of a column is the greatest number of characters that a header or a row has there. -/
theorem isGreatest_of_naturalWidths
    (hplain : ∀ row ∈ headers :: rows, ∀ cell ∈ row, '\x1b' ∉ cell.toList) {i w : Nat}
    (hw : (naturalWidths headers rows)[i]? = some w) :
    IsGreatest {n | ∃ row ∈ headers :: rows, n = (row.getD i "").length} w := by
  have hi : i < headers.length := by
    rw [← length_naturalWidths headers rows]
    exact (List.getElem?_eq_some_iff.1 hw).1
  obtain rfl : naturalWidth rows i headers[i] = w :=
    Option.some.inj ((getElem?_naturalWidths rows (List.getElem?_eq_getElem hi)).symm.trans hw)
  have hshown : ∀ row ∈ rows, shownWidth (row.getD i "") = (row.getD i "").length := fun row hrow =>
    shownWidth_of_not_mem (not_mem_getD (hplain row (List.mem_cons_of_mem _ hrow)) i)
  have hheader := getD_eq_of_getElem? (List.getElem?_eq_getElem hi)
  obtain ⟨hmem, hupper⟩ := isGreatest_naturalWidth rows i headers[i]
  refine ⟨?_, ?_⟩
  · rcases hmem with heq | ⟨row, hrow, heq⟩
    · exact ⟨headers, List.mem_cons_self, by rw [hheader, heq]⟩
    · exact ⟨row, List.mem_cons_of_mem _ hrow, by rw [heq, hshown row hrow]⟩
  · rintro n ⟨row, hrow, rfl⟩
    rcases List.mem_cons.1 hrow with rfl | hrow
    · exact hupper (Or.inl (by rw [hheader]))
    · exact hupper (Or.inr ⟨row, hrow, (hshown row hrow).symm⟩)

/-- A cell that its column has no room for stands in a column of some width. -/
theorem fits_or_pos (hplain : ∀ row ∈ headers :: rows, ∀ cell ∈ row, '\x1b' ∉ cell.toList)
    {limit : Nat} {row : List String} (hrow : row ∈ headers :: rows) {i v : Nat}
    (hv : (fittedWidths limit (naturalWidths headers rows))[i]? = some v) :
    (row.getD i "").length ≤ v ∨ 0 < v := by
  obtain ⟨hi, hget⟩ := List.getElem?_eq_some_iff.1 hv
  obtain ⟨hlength, hbounds⟩ := List.forall₂_iff_get.1
    (forall₂_fittedWidths limit (naturalWidths headers rows))
  have hi' : i < (naturalWidths headers rows).length := hlength ▸ hi
  have hmin : min (naturalWidths headers rows)[i] 8 ≤ v := hget ▸ (hbounds i hi' hi).1
  have hupper :=
    (isGreatest_of_naturalWidths hplain (List.getElem?_eq_getElem hi')).2 ⟨row, hrow, rfl⟩
  omega

theorem shows_cells (hplain : ∀ row ∈ headers :: rows, ∀ cell ∈ row, '\x1b' ∉ cell.toList)
    {limit : Nat} {row shown : List String} (hrow : row ∈ headers :: rows)
    (hlength : shown.length = headers.length)
    (hshown : ∀ (i : Nat) (cell : String), shown[i]? = some cell → row.getD i "" = cell) :
    Shows (fittedWidths limit (naturalWidths headers rows)) shown
      (line (fittedWidths limit (naturalWidths headers rows)) shown) := by
  refine shows_line ?_ (fun cell hcell => ?_) fun i v cell hv hcell => ?_
  · rw [hlength, length_fittedWidths, length_naturalWidths]
  · obtain ⟨i, hi⟩ := List.getElem?_of_mem hcell
    rw [← hshown i cell hi]
    exact not_mem_getD (hplain row hrow) i
  · rw [← hshown i cell hcell]
    exact fits_or_pos hplain hrow hv

/-- The layout of a table without colours. Each column keeps eight characters or its widest cell; the
columns together get as narrow as the terminal, if they are wider and can; and every line shows its
cells from the places on where the columns start, uncut if the table fits. -/
theorem columns_of_table {t : Terminal} (hcolor : t.color = false) (hheaders : headers ≠ [])
    (hplain : ∀ row ∈ headers :: rows, ∀ cell ∈ row, '\x1b' ∉ cell.toList) :
    (naturalWidths headers rows).length = headers.length ∧
    (∀ i w, (naturalWidths headers rows)[i]? = some w →
      IsGreatest {n | ∃ row ∈ headers :: rows, n = (row.getD i "").length} w) ∧
    List.Forall₂ (fun w v => min w 8 ≤ v ∧ v ≤ w) (naturalWidths headers rows)
      (fittedWidths t.width (naturalWidths headers rows)) ∧
    lineWidth (fittedWidths t.width (naturalWidths headers rows)) =
      (if lineWidth (naturalWidths headers rows) ≤ t.width then
        lineWidth (naturalWidths headers rows)
      else max t.width (lineWidth ((naturalWidths headers rows).map (min · 8)))) ∧
    List.Forall₂ (Shows (fittedWidths t.width (naturalWidths headers rows)))
      (headers :: (fittedWidths t.width (naturalWidths headers rows)).map (repeated '-') ::
        rows.map (cells headers.length))
      (tableLines t headers rows) ∧
    (lineWidth (naturalWidths headers rows) ≤ t.width → ∀ row ∈ headers :: rows, ∀ i v,
      (fittedWidths t.width (naturalWidths headers rows))[i]? = some v →
        (row.getD i "").length ≤ v) := by
  have hempty : headers.isEmpty = false := by simpa using hheaders
  have hpaint : ∀ role s, t.paint role s = s := by simp [Terminal.paint, hcolor]
  refine ⟨length_naturalWidths headers rows, fun i w => isGreatest_of_naturalWidths hplain,
    forall₂_fittedWidths _ _, lineWidth_fittedWidths _ _, ?_, fun hfits row hrow i v hv => ?_⟩
  · rw [tableLines, hempty, if_neg Bool.false_ne_true]
    dsimp only
    rw [hpaint, hpaint]
    refine .cons ?_ (.cons (shows_rule _) ?_)
    · exact shows_cells hplain List.mem_cons_self rfl fun i cell => getD_eq_of_getElem?
    · refine List.forall₂_map_left_iff.2 (List.forall₂_map_right_iff.2 (List.forall₂_same.2 ?_))
      exact fun row hrow => shows_cells hplain (List.mem_cons_of_mem _ hrow) (length_cells _ _)
        fun i cell => getElem?_cells
  · rw [fittedWidths_of_le hfits] at hv
    exact (isGreatest_of_naturalWidths hplain hv).2 ⟨row, hrow, rfl⟩

end Tables

/-- A table on a terminal that is too narrow for it, with a row that is too short and one that is too
long. -/
theorem columns_of_table_of_disks :
    lineWidth (fittedWidths 20 (naturalWidths ["Disk", "Size"]
      [["a disk with a rather long name", "7"], ["b"], ["c", "9", "x"]])) = 20 ∧
    List.Forall₂ (Shows (fittedWidths 20 (naturalWidths ["Disk", "Size"]
        [["a disk with a rather long name", "7"], ["b"], ["c", "9", "x"]])))
      (["Disk", "Size"] :: (fittedWidths 20 (naturalWidths ["Disk", "Size"]
          [["a disk with a rather long name", "7"], ["b"], ["c", "9", "x"]])).map (repeated '-') ::
        [["a disk with a rather long name", "7"], ["b", ""], ["c", "9"]])
      (tableLines ⟨false, 20⟩ ["Disk", "Size"]
        [["a disk with a rather long name", "7"], ["b"], ["c", "9", "x"]]) := by
  obtain ⟨-, -, -, hwidth, hlines, -⟩ := @columns_of_table ["Disk", "Size"]
    [["a disk with a rather long name", "7"], ["b"], ["c", "9", "x"]] ⟨false, 20⟩ rfl
    (List.cons_ne_nil _ _) (by decide)
  exact ⟨hwidth.trans (by decide), hlines⟩

end Table

end CimConsole
