import Mathlib.Data.List.Basic

/-!
Counting by several tests. The counts of what each test lets through add up to the number of those
that some test lets through, if no two tests let the same one pass.
-/
namespace CimConsole

variable {α β : Type}

theorem foldr_length_filter {test : α → β → Bool} {as : List α} {xs : List β}
    (hapart : as.Pairwise fun a b => ∀ x ∈ xs, test a x = true → test b x = false) :
    (as.map fun a => (xs.filter (test a)).length).foldr (· + ·) 0 =
      (xs.filter fun x => as.any fun a => test a x).length := by
  induction as with
  | nil => simp
  | cons a rest ih =>
    obtain ⟨hfirst, hrest⟩ := List.pairwise_cons.1 hapart
    have hcounted : (xs.filter fun x => (a :: rest).any fun b => test b x).filter (test a) =
        xs.filter (test a) := by
      rw [List.filter_filter]
      refine List.filter_congr fun x _ => ?_
      rw [List.any_cons]
      cases test a x <;> simp
    -- what the first test lets through, none of the others does
    have hleft : (xs.filter fun x => (a :: rest).any fun b => test b x).filter (fun x => !test a x) =
        xs.filter fun x => rest.any fun b => test b x := by
      rw [List.filter_filter]
      refine List.filter_congr fun x hx => ?_
      rw [List.any_cons]
      cases ha : test a x with
      | false => simp
      | true =>
        rw [eq_comm, Bool.not_true, Bool.false_and, List.any_eq_false]
        exact fun b hb => by simp [hfirst b hb x hx ha]
    rw [List.map_cons, List.foldr_cons, ih hrest, ← hleft, ← hcounted]
    exact (List.length_eq_length_filter_add _).symm

end CimConsole
