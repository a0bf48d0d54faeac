import CimConsole.Proofs.Text.Cut

/-!
Comma lists. Items that are joined with a comma and a space come apart again, if they are not empty,
have no comma in them and no blanks around them.
-/
namespace CimConsole.Text

theorem join_cons_cons (sep s t : String) (rest : List String) :
    join sep (s :: t :: rest) = s ++ sep ++ join sep (t :: rest) := rfl

theorem splitChars_ne_nil (sep : Char) (cs : List Char) : splitChars sep cs ≠ [] := by
  cases cs with
  | nil => exact List.cons_ne_nil _ _
  | cons c rest =>
    rw [splitChars]
    split
    · exact List.cons_ne_nil _ _
    · split <;> exact List.cons_ne_nil _ _

theorem splitChars_of_not_mem {sep : Char} {cs : List Char} (h : sep ∉ cs) :
    splitChars sep cs = [cs] := by
  induction cs with
  | nil => rfl
  | cons c rest ih =>
    rw [List.mem_cons, not_or] at h
    rw [splitChars, beq_false_of_ne (Ne.symm h.1), if_neg Bool.false_ne_true, ih h.2]

theorem splitChars_append {sep : Char} {before : List Char} (after : List Char)
    (h : sep ∉ before) : splitChars sep (before ++ sep :: after) = before :: splitChars sep after := by
  induction before with
  | nil => simp [splitChars]
  | cons c rest ih =>
    rw [List.mem_cons, not_or] at h
    rw [List.cons_append, splitChars, beq_false_of_ne (Ne.symm h.1), if_neg Bool.false_ne_true,
      ih h.2]

/-- A space in front belongs to the first piece, from which it is trimmed. -/
theorem trimmed_splitChars_space {sep : Char} (hsep : ' ' ≠ sep) (cs : List Char) :
    (splitChars sep (' ' :: cs)).map (dropBothWhile isBlank) =
      (splitChars sep cs).map (dropBothWhile isBlank) := by
  rw [splitChars, beq_false_of_ne hsep, if_neg Bool.false_ne_true]
  split
  · next hnil => exact absurd hnil (splitChars_ne_nil sep cs)
  · next piece pieces hpieces =>
    have hblank : isBlank ' ' = true := by decide
    have hpiece : dropBothWhile isBlank (' ' :: piece) = dropBothWhile isBlank piece := by
      rw [dropBothWhile, dropBothWhile, List.dropWhile_cons_of_pos hblank]
    rw [hpieces, List.map_cons, List.map_cons, hpiece]

/-- An item of a comma list. -/
def IsListItem (s : String) : Prop := s ≠ "" ∧ ',' ∉ s.toList ∧ trim s = s

theorem isListItem_of_all {s : String} (hne : s ≠ "")
    (h : ∀ c ∈ s.toList, c ≠ ',' ∧ isBlank c = false) : IsListItem s := by
  refine ⟨hne, fun hmem => (h _ hmem).1 rfl, ?_⟩
  rw [trim, dropBothWhile_of_all fun c hc => (h c hc).2, String.ofList_toList]

theorem trimmed_splitChars_join {items : List String} (hne : items ≠ [])
    (h : ∀ s ∈ items, IsListItem s) :
    (splitChars ',' (join ", " items).toList).map (dropBothWhile isBlank) =
      items.map String.toList := by
  have htrimmed : ∀ s ∈ items, dropBothWhile isBlank s.toList = s.toList := by
    intro s hs
    have htrim := congrArg String.toList (h s hs).2.2
    rwa [trim, String.toList_ofList] at htrim
  induction items with
  | nil => exact absurd rfl hne
  | cons s rest ih =>
    have hcomma := (h s List.mem_cons_self).2.1
    have hs := htrimmed s List.mem_cons_self
    cases rest with
    | nil => rw [join, splitChars_of_not_mem hcomma, List.map_singleton, List.map_singleton, hs]
    | cons t rest =>
      have hjoin : (join ", " (s :: t :: rest)).toList =
          s.toList ++ ',' :: ' ' :: (join ", " (t :: rest)).toList := by
        rw [join_cons_cons, String.toList_append, String.toList_append, List.append_assoc]
        rfl
      rw [hjoin, splitChars_append _ hcomma, List.map_cons, hs,
        trimmed_splitChars_space (by decide),
        ih (List.cons_ne_nil _ _) (fun u hu => h u (List.mem_cons_of_mem _ hu))
          fun u hu => htrimmed u (List.mem_cons_of_mem _ hu)]
      rfl

theorem listItems_join {items : List String} (h : ∀ s ∈ items, IsListItem s) :
    listItems [join ", " items] = items := by
  by_cases hne : items = []
  · subst hne
    decide
  · have hpieces : (split ',' (join ", " items)).map trim = items := by
      have hsplit := congrArg (List.map String.ofList) (trimmed_splitChars_join hne h)
      rw [List.map_map, List.map_map] at hsplit
      rw [split, List.map_map]
      refine Eq.trans (List.map_congr_left fun cs _ => ?_) (hsplit.trans ?_)
      · rw [Function.comp_apply, Function.comp_apply, trim, String.toList_ofList]
      · rw [List.map_congr_left fun s _ => show (String.ofList ∘ String.toList) s = s from
          String.ofList_toList, List.map_id']
    rw [listItems, List.flatMap_singleton, hpieces]
    exact List.filter_eq_self.2 fun s hs => decide_eq_true (h s hs).1

end CimConsole.Text
