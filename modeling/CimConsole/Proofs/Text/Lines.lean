import CimConsole.Proofs.Text.Lists

/-!
Lines of a text. Texts without line breaks that are written with one behind each of them are the
lines of what was written.
-/
namespace CimConsole.Text

/-- The lines of a text. A line break ends a line, so behind the last one there is no further
line. -/
def linesOf (s : String) : List String :=
  let pieces := split '\n' s
  if pieces.getLast? = some "" then pieces.dropLast else pieces

theorem toList_join_empty (texts : List String) :
    (join "" texts).toList = texts.flatMap String.toList := by
  induction texts with
  | nil => rfl
  | cons s rest ih =>
    cases rest with
    | nil => simp [join]
    | cons t rest => simp [join_cons_cons, ih]

/-- A character of joined texts is one of a text or of what stands between them. -/
theorem not_mem_join {c : Char} {sep : String} {texts : List String} (hsep : c ∉ sep.toList)
    (h : ∀ s ∈ texts, c ∉ s.toList) : c ∉ (join sep texts).toList := by
  induction texts with
  | nil => simp [join]
  | cons s rest ih =>
    have hs := h s List.mem_cons_self
    have hrest := ih fun t ht => h t (List.mem_cons_of_mem _ ht)
    cases rest with
    | nil => exact hs
    | cons t rest =>
      rw [join_cons_cons, String.toList_append, String.toList_append]
      simp only [List.mem_append, not_or]
      exact ⟨⟨hs, hsep⟩, hrest⟩

theorem split_join_lines {lines : List String} (h : ∀ s ∈ lines, '\n' ∉ s.toList) :
    split '\n' (join "" (lines.map (· ++ "\n"))) = lines ++ [""] := by
  have hchars : splitChars '\n' (lines.flatMap fun s => s.toList ++ ['\n']) =
      lines.map String.toList ++ [[]] := by
    induction lines with
    | nil => rfl
    | cons s rest ih =>
      rw [List.flatMap_cons, List.append_assoc, List.singleton_append,
        splitChars_append _ (h s List.mem_cons_self), ih fun t ht => h t (List.mem_cons_of_mem _ ht)]
      rfl
  have htext : (join "" (lines.map (· ++ "\n"))).toList =
      lines.flatMap fun s => s.toList ++ ['\n'] := by
    rw [toList_join_empty, List.flatMap_map]
    simp
  rw [split, htext, hchars, List.map_append, List.map_map]
  simp [Function.comp_def]

theorem linesOf_join {lines : List String} (h : ∀ s ∈ lines, '\n' ∉ s.toList) :
    linesOf (join "" (lines.map (· ++ "\n"))) = lines := by
  simp [linesOf, split_join_lines h]

end CimConsole.Text
