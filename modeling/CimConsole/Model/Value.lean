import CimConsole.NameTable
import CimConsole.Number.Text
import CimConsole.Text.Pieces

/-!
Values and object paths. A path names a class or, by the values of its keys, an
instance; a value may in turn refer to a path. Both have a display text. Two paths are
compared without regard to letter case and to slashes around namespaces, and a path
without namespace agrees with paths of every namespace; the keys of the one are looked
up in the other, so the roles of left and right change from level to level.
-/
namespace CimConsole

open Text Number

mutual

inductive Value where
  | boolean (b : Bool)
  | integer (i : Int64)
  | real (r : Binary64)
  | text (s : String)
  | reference (path : ObjectPath)
  | array (items : List Value)

/-- The path of a class, or of the instance with these keys. The keys are entries in
the order of a table. -/
structure ObjectPath where
  nameSpace : Option String
  className : String
  keys : List (String × Value)

end

instance : Inhabited Value := ⟨.boolean false⟩

instance : Inhabited ObjectPath := ⟨⟨none, "", []⟩⟩

/-- Quotes and backslashes are written behind a backslash. -/
def quoteKey (s : String) : String :=
  "\"" ++ substitute (fun c => if c == '\\' then "\\\\" else if c == '"' then "\\\"" else c.toString) s
    ++ "\""

/-- The namespace in front of a path: its slashes at the start count as one. -/
def spaceText : Option String → String
  | none => ""
  | some s => "/" ++ trimStartMark '/' s ++ ":"

mutual

def Value.display : Value → String
  | .boolean b => if b then "true" else "false"
  | .integer i => toString i.toInt
  | .real r => r.positional
  | .text s => s
  | .reference p => p.display
  | .array items => join ", " (displayAll items)

def displayAll : List Value → List String
  | [] => []
  | v :: rest => v.display :: displayAll rest

/-- The text of a value behind the name of a key. -/
def Value.keyText : Value → String
  | .boolean b => if b then "TRUE" else "FALSE"
  | .integer i => toString i.toInt
  | .real r => r.positional
  | .text s => quoteKey s
  | .reference p => quoteKey p.display
  | .array items => join ", " (displayAll items)

def keyTexts : List (String × Value) → List String
  | [] => []
  | (k, v) :: rest => (k ++ "=" ++ v.keyText) :: keyTexts rest

def ObjectPath.display : ObjectPath → String
  | ⟨nameSpace, className, keys⟩ =>
    spaceText nameSpace ++ className ++
      (if keys.isEmpty then "" else "." ++ join "," (keyTexts keys))

end

/-- Namespaces agree if one is missing, or up to letter case and slashes around them. -/
def agreeingSpaces : Option String → Option String → Bool
  | some a, some b => sameName (trimMark '/' a) (trimMark '/' b)
  | _, _ => true

mutual

/-- Equality with the receiver on the left. -/
def Value.isLeftOf : Value → Value → Bool
  | .boolean a, .boolean b => a == b
  | .integer a, .integer b => a == b
  | .real a, .real b => a.same b
  | .text a, .text b => a == b
  | .reference p, .reference q => p.isLeftOf q
  | .array as, .array bs => areLeftOf as bs
  | _, _ => false
termination_by structural v => v

/-- Equality with the receiver on the right. -/
def Value.isRightOf : Value → Value → Bool
  | .boolean b, .boolean a => a == b
  | .integer b, .integer a => a == b
  | .real b, .real a => a.same b
  | .text b, .text a => a == b
  | .reference q, .reference p => q.isRightOf p
  | .array bs, .array as => areRightOf bs as
  | _, _ => false
termination_by structural v => v

def areLeftOf : List Value → List Value → Bool
  | [], [] => true
  | a :: as, b :: bs => a.isLeftOf b && areLeftOf as bs
  | _, _ => false
termination_by structural v => v

def areRightOf : List Value → List Value → Bool
  | [], [] => true
  | b :: bs, a :: as => b.isRightOf a && areRightOf bs as
  | _, _ => false
termination_by structural v => v

/-- The key values found in the right path stand on the left of those of the left one. -/
def keysFoundIn : List (String × Value) → List (String × Value) → Bool
  | [], _ => true
  | (k, v) :: rest, others =>
    (match Entries.find? k others with
      | some w => v.isRightOf w
      | none => false) && keysFoundIn rest others
termination_by structural keys => keys

/-- Under each key the comparison with its value on the left. -/
def keyTests : List (String × Value) → List (String × (Value → Bool))
  | [] => []
  | (k, w) :: rest => (k, w.isLeftOf) :: keyTests rest
termination_by structural keys => keys

def ObjectPath.isLeftOf : ObjectPath → ObjectPath → Bool
  | ⟨nameSpace, className, keys⟩, q =>
    agreeingSpaces nameSpace q.nameSpace && sameName className q.className &&
      keys.length == q.keys.length && keysFoundIn keys q.keys
termination_by structural p => p

def ObjectPath.isRightOf : ObjectPath → ObjectPath → Bool
  | ⟨nameSpace, className, keys⟩, p =>
    agreeingSpaces p.nameSpace nameSpace && sameName p.className className &&
      p.keys.length == keys.length && p.keys.all fun (k, v) =>
        match Entries.find? k (keyTests keys) with
        | some test => test v
        | none => false
termination_by structural q => q

end

theorem lookup_keyTests (k : String) (keys : List (String × Value)) :
    (keyTests keys).lookup k = (keys.lookup k).map Value.isLeftOf := by
  induction keys with
  | nil => simp [keyTests]
  | cons e rest ih =>
    obtain ⟨name, w⟩ := e
    simp only [keyTests, List.lookup_cons]
    split <;> simp [ih]

theorem find?_keyTests (p : String → Bool) (keys : List (String × Value)) :
    (keyTests keys).find? (fun e => p e.1) =
      (keys.find? fun e => p e.1).map fun e => (e.1, e.2.isLeftOf) := by
  induction keys with
  | nil => simp [keyTests]
  | cons e rest ih =>
    obtain ⟨name, w⟩ := e
    simp only [keyTests, List.find?_cons]
    split <;> simp [ih]

/-- Looking up a test is looking up the value that it compares with. -/
theorem Entries.find?_keyTests (k : String) (keys : List (String × Value)) :
    Entries.find? k (keyTests keys) = (Entries.find? k keys).map Value.isLeftOf := by
  simp only [Entries.find?, lookup_keyTests, CimConsole.find?_keyTests (sameName · k)]
  cases keys.lookup k <;> simp [Function.comp_def]

theorem Entries.mem_of_find? {α : Type} {k : String} {v : α} {entries : List (String × α)}
    (h : Entries.find? k entries = some v) : ∃ name, (name, v) ∈ entries := by
  unfold Entries.find? at h
  cases hl : entries.lookup k with
  | some w =>
    simp only [hl, Option.some_or, Option.some.injEq] at h
    obtain ⟨before, after, he, -⟩ := List.lookup_eq_some_iff.1 hl
    exact ⟨k, by simp [he, h]⟩
  | none =>
    simp only [hl, Option.none_or] at h
    obtain ⟨e, he, rfl⟩ := Option.map_eq_some_iff.1 h
    exact ⟨e.1, List.mem_of_find?_eq_some he⟩

theorem keysFoundIn_eq_all (keys others : List (String × Value)) :
    keysFoundIn keys others = keys.all fun (k, v) =>
      match Entries.find? k others with
      | some w => v.isRightOf w
      | none => false := by
  induction keys with
  | nil => rfl
  | cons e rest ih =>
    obtain ⟨k, v⟩ := e
    rw [keysFoundIn, ih, List.all_cons]

mutual

/-- The two readings of a comparison agree. -/
theorem Value.isRightOf_eq (w v : Value) : w.isRightOf v = v.isLeftOf w := by
  match w, v with
  | .reference q, .reference p =>
    rw [Value.isRightOf, Value.isLeftOf, ObjectPath.isRightOf_eq q p]
  | .array bs, .array as => rw [Value.isRightOf, Value.isLeftOf, areRightOf_eq bs as]
  | .boolean _, v | .integer _, v | .real _, v | .text _, v =>
    cases v <;> simp [Value.isRightOf, Value.isLeftOf]
  | .reference _, .boolean _ | .reference _, .integer _ | .reference _, .real _
  | .reference _, .text _ | .reference _, .array _ => simp [Value.isRightOf, Value.isLeftOf]
  | .array _, .boolean _ | .array _, .integer _ | .array _, .real _
  | .array _, .text _ | .array _, .reference _ => simp [Value.isRightOf, Value.isLeftOf]
termination_by sizeOf w + sizeOf v

theorem areRightOf_eq (bs as : List Value) : areRightOf bs as = areLeftOf as bs := by
  match bs, as with
  | [], [] => rfl
  | [], _ :: _ => rfl
  | _ :: _, [] => rfl
  | b :: bs, a :: as =>
    rw [areRightOf, areLeftOf, Value.isRightOf_eq b a, areRightOf_eq bs as]
termination_by sizeOf bs + sizeOf as

theorem ObjectPath.isRightOf_eq (q p : ObjectPath) : q.isRightOf p = p.isLeftOf q := by
  match q, p with
  | ⟨nq, cq, qs⟩, ⟨np, cp, ps⟩ =>
    rw [ObjectPath.isRightOf, ObjectPath.isLeftOf, keysFoundIn_eq_all]
    congr 1
    rw [Bool.eq_iff_iff, List.all_eq_true, List.all_eq_true]
    refine forall_congr' fun e => ?_
    refine forall_congr' fun he => ?_
    obtain ⟨k, v⟩ := e
    simp only [Entries.find?_keyTests]
    cases hw : Entries.find? k qs with
    | none => simp
    | some w =>
      obtain ⟨name, hmem⟩ := Entries.mem_of_find? hw
      simp only [Option.map_some, Value.isRightOf_eq v w]
termination_by sizeOf q + sizeOf p
decreasing_by
  have hv := List.sizeOf_lt_of_mem he
  have hw := List.sizeOf_lt_of_mem hmem
  simp only [Prod.mk.sizeOf_spec, ObjectPath.mk.sizeOf_spec] at hv hw ⊢
  omega

end

/-- Equality of values. -/
def Value.same (v w : Value) : Bool := v.isLeftOf w

/-- Equality of paths. -/
def ObjectPath.same (p q : ObjectPath) : Bool := p.isLeftOf q

namespace Value

def text? : Value → Option String
  | .text s => some s
  | _ => none

def boolean? : Value → Option Bool
  | .boolean b => some b
  | _ => none

def path? : Value → Option ObjectPath
  | .reference p => some p
  | _ => none

end Value

namespace ObjectPath

def ofClass (className : String) : ObjectPath := ⟨none, className, []⟩

def withKey (p : ObjectPath) (name : String) (value : Value) : ObjectPath :=
  { p with keys := Entries.put name value p.keys }

def key? (p : ObjectPath) (name : String) : Option Value := Entries.find? name p.keys

def namesClass (p : ObjectPath) : Bool := p.keys.isEmpty

end ObjectPath

end CimConsole
