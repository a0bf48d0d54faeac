import CimConsole.Document

/-!
Documents are compared node by node, so it can be computed whether a text was read as the document
that was written.
-/
namespace CimConsole.Document

mutual

def same : Document → Document → Bool
  | .null, .null => true
  | .boolean a, .boolean b => a == b
  | .whole a, .whole b => a == b
  | .real a, .real b => a == b
  | .text a, .text b => a == b
  | .plain a, .plain b => a == b
  | .list as, .list bs => sameItems as bs
  | .record fs, .record gs => sameFields fs gs
  | _, _ => false
termination_by structural d => d

def sameItems : List Document → List Document → Bool
  | [], [] => true
  | a :: as, b :: bs => a.same b && sameItems as bs
  | _, _ => false
termination_by structural items => items

def sameFields : List (String × Document) → List (String × Document) → Bool
  | [], [] => true
  | (m, a) :: fs, (n, b) :: gs => m == n && a.same b && sameFields fs gs
  | _, _ => false
termination_by structural fields => fields

end

mutual

theorem same_iff (d e : Document) : d.same e = true ↔ d = e := by
  match d with
  | .null | .boolean _ | .whole _ | .real _ | .text _ | .plain _ => cases e <;> simp [same]
  | .list as => cases e <;> simp [same, sameItems_iff as]
  | .record fs => cases e <;> simp [same, sameFields_iff fs]

theorem sameItems_iff (as bs : List Document) : sameItems as bs = true ↔ as = bs := by
  match as, bs with
  | [], [] | [], _ :: _ | _ :: _, [] => simp [sameItems]
  | a :: as, b :: bs => simp [sameItems, same_iff a, sameItems_iff as]

theorem sameFields_iff (fs gs : List (String × Document)) :
    sameFields fs gs = true ↔ fs = gs := by
  match fs, gs with
  | [], [] | [], _ :: _ | _ :: _, [] => simp [sameFields]
  | (m, a) :: fs, (n, b) :: gs => simp [sameFields, same_iff a, sameFields_iff fs]

end

instance : DecidableEq Document := fun d e => decidable_of_iff _ (same_iff d e)

end CimConsole.Document
