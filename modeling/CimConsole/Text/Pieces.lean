import CimConsole.Text.Blank

/-!
Cutting texts into pieces and putting pieces together. A cut keeps empty pieces:
a text with `n` separators has `n + 1` pieces, and joining them gives it back.
-/
namespace CimConsole.Text

/-- The pieces between the characters equal to `sep`, empty ones included. -/
def splitChars (sep : Char) : List Char → List (List Char)
  | [] => [[]]
  | c :: rest =>
    if c == sep then [] :: splitChars sep rest
    else
      match splitChars sep rest with
      | [] => [[c]]
      | piece :: pieces => (c :: piece) :: pieces

def split (sep : Char) (s : String) : List String :=
  (splitChars sep s.toList).map String.ofList

/-- The texts one after another with `sep` between neighbours. -/
def join (sep : String) : List String → String
  | [] => ""
  | [s] => s
  | s :: rest => s ++ sep ++ join sep rest

/-- The part before the first `sep` and the part after it, if there is one. -/
def cutFirst (sep : Char) : List Char → Option (List Char × List Char)
  | [] => none
  | c :: rest =>
    if c == sep then some ([], rest)
    else (cutFirst sep rest).map fun (before, after) => (c :: before, after)

/-- The part before the last `sep` and the part after it, if there is one. -/
def cutLast (sep : Char) : List Char → Option (List Char × List Char)
  | [] => none
  | c :: rest =>
    match cutLast sep rest with
    | some (before, after) => some (c :: before, after)
    | none => if c == sep then some ([], rest) else none

/-- What follows `start` at the head of `cs`. -/
def after? : (start cs : List Char) → Option (List Char)
  | [], cs => some cs
  | _ :: _, [] => none
  | a :: start, c :: cs => if a == c then after? start cs else none

def dropStart? (start s : String) : Option String :=
  (after? start.toList s.toList).map String.ofList

def dropEnd? (tail s : String) : Option String :=
  (after? tail.toList.reverse s.toList.reverse).map fun cs => String.ofList cs.reverse

/-- Every character replaced by the text `f` gives for it. -/
def substitute (f : Char → String) (s : String) : String :=
  String.ofList (s.toList.flatMap fun c => (f c).toList)

/-- The pieces of all items of a list of comma lists, trimmed, without the empty ones. -/
def listItems (items : List String) : List String :=
  ((items.flatMap (split ',')).map trim).filter (· ≠ "")

def repeated (c : Char) (n : Nat) : String := String.ofList (List.replicate n c)

theorem after?_eq_some_iff {start cs rest : List Char} :
    after? start cs = some rest ↔ cs = start ++ rest := by
  induction start generalizing cs with
  | nil => simp [after?, eq_comm]
  | cons a start ih =>
    cases cs with
    | nil => simp [after?]
    | cons c cs =>
      by_cases h : a = c
      · simp [after?, h, ih]
      · simp [after?, h, Ne.symm h]

theorem length_cutFirst_lt {sep : Char} {cs before rest : List Char}
    (h : cutFirst sep cs = some (before, rest)) : rest.length < cs.length := by
  induction cs generalizing before with
  | nil => simp [cutFirst] at h
  | cons c cs ih =>
    unfold cutFirst at h
    split at h
    · simp_all
    · obtain ⟨⟨b, a⟩, hb, he⟩ := Option.map_eq_some_iff.1 h
      simp only [Prod.mk.injEq] at he
      have := ih (he.2 ▸ hb)
      simp only [List.length_cons]
      omega

end CimConsole.Text
