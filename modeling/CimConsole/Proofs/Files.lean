import CimConsole.Files
import CimConsole.Proofs.Answer
import CimConsole.Proofs.NameTable

/-!
Reading what was written. A walk passes through directories only, and a text is never written where
a directory stands, so the walk to a file is the same after the file is written.
-/
namespace CimConsole.Files

open Text

variable {fs written : Files} {place here found : Place} {path content part : String}
  {rest steps : List String}

/-- A walk goes on from directories only. -/
theorem walk_cons_eq_ok :
    fs.walk here (part :: rest) = .ok found ↔
      fs.entry? here = some .directory ∧ fs.walk (step here part) rest = .ok found := by
  rw [walk]
  cases hentry : fs.entry? here with
  | none => simp
  | some e => cases e <;> simp

theorem locate_eq_ok :
    fs.locate path = .ok place ↔ path ≠ "" ∧ fs.walk (start path) (parts path) = .ok place := by
  by_cases hpath : path = ""
  · simp [locate, hpath]
  · simp [locate, hpath]

theorem read_eq_ok :
    fs.read path = .ok content ↔
      ∃ place, fs.locate path = .ok place ∧ fs.entry? place = some (.text content) := by
  rw [read, bind_eq_ok]
  refine exists_congr fun place => and_congr_right fun _ => ?_
  cases hentry : fs.entry? place with
  | none => simp
  | some e => cases e <;> simp

section Writing

/-- An entry that is put where no directory is leaves every directory in its place. -/
theorem entry?_of_insert {entry : FileEntry} (hfree : fs.entry? place ≠ some .directory)
    {other : Place} (h : fs.entry? other = some .directory) :
    entry? ⟨fs.entries.insert (placeName place) entry⟩ other = some .directory := by
  unfold entry? at h ⊢
  split
  · rfl
  · rfl
  · next hstart hroot =>
    have hkept : fs.entries.get? (placeName other) = some .directory := by
      simpa only [hstart, hroot] using h
    have hname : placeName place ≠ placeName other := by
      intro hname
      apply hfree
      unfold entry?
      split
      · rfl
      · rfl
      · rw [hname, hkept]
    rw [NameTable.get?_insert_of_ne hname, hkept]

/-- So what could be walked can still be walked. -/
theorem walk_of_insert {entry : FileEntry} (hfree : fs.entry? place ≠ some .directory)
    (h : fs.walk here steps = .ok found) :
    (Files.mk (fs.entries.insert (placeName place) entry)).walk here steps = .ok found := by
  induction steps generalizing here with
  | nil => exact h
  | cons part rest ih =>
    obtain ⟨hhere, hrest⟩ := walk_cons_eq_ok.1 h
    exact walk_cons_eq_ok.2 ⟨entry?_of_insert hfree hhere, ih hrest⟩

/-- An entry that is put where no directory is stands there. -/
theorem entry?_insert_self (hfree : fs.entry? place ≠ some .directory) (entry : FileEntry) :
    entry? ⟨fs.entries.insert (placeName place) entry⟩ place = some entry := by
  unfold entry? at hfree ⊢
  split
  · exact absurd rfl hfree
  · exact absurd rfl hfree
  · exact NameTable.get?_insert_self fs.entries _ entry

/-- A text is written to the place of its path, where no directory may be. -/
theorem of_write (h : fs.write path content = .ok written) :
    ∃ place, fs.locate path = .ok place ∧ fs.entry? place ≠ some .directory ∧
      written = ⟨fs.entries.insert (placeName place) (.text content)⟩ := by
  obtain ⟨place, hplace, h⟩ := bind_eq_ok.1 h
  cases hslash : path.toList.getLast? == some '/' with
  | true =>
    rw [hslash] at h
    cases hentry : fs.entry? place with
    | none => simp [hentry] at h
    | some e => cases e <;> simp [hentry] at h
  | false =>
    rw [hslash] at hplace h
    refine ⟨place, hplace, ?_⟩
    cases hentry : fs.entry? place with
    | none =>
      rw [hentry] at h
      exact ⟨by rintro ⟨⟩, (Except.ok.inj h).symm⟩
    | some e =>
      cases e with
      | directory => simp [hentry] at h
      | text | malformed =>
        rw [hentry] at h
        exact ⟨by rintro ⟨⟩, (Except.ok.inj h).symm⟩

/-- A file that was written is there, and its text is what was written. -/
theorem read_of_write (h : fs.write path content = .ok written) :
    written.has path = true ∧ written.read path = .ok content := by
  obtain ⟨place, hplace, hfree, rfl⟩ := of_write h
  obtain ⟨hpath, hwalk⟩ := locate_eq_ok.1 hplace
  have hlocate : (Files.mk (fs.entries.insert (placeName place) (.text content))).locate path =
      .ok place :=
    locate_eq_ok.2 ⟨hpath, walk_of_insert hfree hwalk⟩
  have hentry := entry?_insert_self hfree (.text content)
  refine ⟨?_, read_eq_ok.2 ⟨place, hlocate, hentry⟩⟩
  rw [has, hlocate]
  exact congrArg Option.isSome hentry

end Writing

section Overwriting

/-- A walk that stays in place at its end has come to a directory. -/
theorem entry?_of_walk_stay (h : fs.walk here (steps ++ ["."]) = .ok found) :
    fs.entry? found = some .directory := by
  induction steps generalizing here with
  | nil =>
    obtain ⟨hhere, hstay⟩ := walk_cons_eq_ok.1 h
    obtain rfl : here = found := Except.ok.inj hstay
    exact hhere
  | cons part rest ih => exact ih (walk_cons_eq_ok.1 h).2

/-- Where a walk leads through there is no directory to make. -/
theorem makeAlong_of_walk (h : fs.walk here steps = .ok found) :
    fs.makeAlong here (steps.filter (· ≠ ".")).dropLast = .ok fs := by
  induction steps generalizing here with
  | nil => rfl
  | cons part rest ih =>
    obtain ⟨-, hrest⟩ := walk_cons_eq_ok.1 h
    by_cases hstay : part = "."
    · subst hstay
      exact ih hrest
    · rw [List.filter_cons_of_pos (by simpa using hstay)]
      cases hmore : rest.filter (· ≠ ".") with
      | nil => rfl
      | cons next more =>
        have hnext : fs.entry? (step here part) = some .directory := by
          cases rest with
          | nil => cases hmore
          | cons => exact (walk_cons_eq_ok.1 hrest).1
        rw [List.dropLast_cons_of_ne_nil (List.cons_ne_nil _ _), makeAlong, ← hmore]
        simp only [hnext]
        exact ih hrest

/-- A file that can be read can be written anew, with nothing to make above it. -/
theorem write_of_read {old : String} (h : fs.read path = .ok old) (content : String) :
    fs.makeParents path = .ok fs ∧ ∃ written, fs.write path content = .ok written := by
  obtain ⟨place, hplace, htext⟩ := read_eq_ok.1 h
  obtain ⟨-, hwalk⟩ := locate_eq_ok.1 hplace
  have hslash : (path.toList.getLast? == some '/') = false := by
    rw [Bool.eq_false_iff]
    intro hslash
    rw [parts, if_pos hslash] at hwalk
    rw [entry?_of_walk_stay hwalk] at htext
    cases htext
  constructor
  · have halong := makeAlong_of_walk hwalk
    rw [parts, hslash] at halong
    simpa [makeParents, List.filter_filter, Bool.and_comm] using halong
  · refine ⟨⟨fs.entries.insert (placeName place) (.text content)⟩, ?_⟩
    rw [write, hslash]
    simp only [Bool.false_eq_true, if_false]
    rw [hplace, ok_bind, htext]

end Overwriting

end CimConsole.Files
