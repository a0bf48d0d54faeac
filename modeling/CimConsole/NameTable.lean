import CimConsole.Text.Letters

/-!
Tables from names to values. Entries stand in the order of their names, character by
character, and no name occurs twice; the type carries this. A look-up takes the entry
with exactly the name and, if there is none, the first one whose name differs only in
letter case. Two entries may therefore differ in letter case alone.
-/
namespace CimConsole

open Text

/-- The order that tables keep their entries in. -/
def Ordered {α : Type} (entries : List (String × α)) : Prop :=
  entries.Pairwise fun a b => a.1 < b.1

namespace Entries

variable {α β : Type}

/-- Gives a name its value, in the place where the order asks for it. -/
def put (name : String) (value : α) : List (String × α) → List (String × α)
  | [] => [(name, value)]
  | (k, v) :: rest =>
    if name < k then (name, value) :: (k, v) :: rest
    else if name = k then (name, value) :: rest
    else (k, v) :: put name value rest

/-- The value under exactly this name, or else under the first name that differs from
it in letter case only. -/
def find? (name : String) (entries : List (String × α)) : Option α :=
  (entries.lookup name).or ((entries.find? fun e => sameName e.1 name).map (·.2))

theorem mem_put {name k : String} {value v : α} {entries : List (String × α)}
    (h : (k, v) ∈ put name value entries) : (k, v) = (name, value) ∨ (k, v) ∈ entries := by
  induction entries with
  | nil => simpa [put] using h
  | cons e rest ih =>
    unfold put at h
    split at h
    · exact List.mem_cons.1 h
    · split at h
      · rcases List.mem_cons.1 h with h | h
        · exact .inl h
        · exact .inr (List.mem_cons_of_mem _ h)
      · rcases List.mem_cons.1 h with h | h
        · exact .inr (h ▸ List.mem_cons_self)
        · exact (ih h).imp_right (List.mem_cons_of_mem _)

theorem ordered_put (name : String) (value : α) {entries : List (String × α)}
    (h : Ordered entries) : Ordered (put name value entries) := by
  induction entries with
  | nil => simp [Ordered, put]
  | cons e rest ih =>
    obtain ⟨k, v⟩ := e
    have hhead := (List.pairwise_cons.1 h).1
    have htail := (List.pairwise_cons.1 h).2
    unfold put
    split
    case isTrue hlt =>
      refine List.pairwise_cons.2 ⟨fun e he => ?_, h⟩
      rcases List.mem_cons.1 he with rfl | he
      · exact hlt
      · exact String.lt_trans hlt (hhead e he)
    case isFalse hnlt =>
      split
      case isTrue heq =>
        subst heq
        exact List.pairwise_cons.2 ⟨hhead, htail⟩
      case isFalse hne =>
        refine List.pairwise_cons.2 ⟨fun e he => ?_, ih htail⟩
        obtain ⟨k', v'⟩ := e
        rcases mem_put he with he | he
        · obtain ⟨rfl, -⟩ := Prod.mk.inj he
          exact Decidable.byContradiction fun hk =>
            hne (String.le_antisymm (String.not_lt.1 hk) (String.not_lt.1 hnlt))
        · exact hhead _ he

end Entries

structure NameTable (α : Type) where
  entries : List (String × α)
  ordered : Ordered entries
deriving DecidableEq

namespace NameTable

variable {α β : Type}

@[ext] theorem ext {s t : NameTable α} (h : s.entries = t.entries) : s = t := by
  cases s
  cases t
  cases h
  rfl

def empty : NameTable α := ⟨[], List.Pairwise.nil⟩

instance : Inhabited (NameTable α) := ⟨empty⟩

def insert (t : NameTable α) (name : String) (value : α) : NameTable α :=
  ⟨Entries.put name value t.entries, Entries.ordered_put name value t.ordered⟩

/-- The table of a list of entries; of two entries with one name the later counts. -/
def ofList (entries : List (String × α)) : NameTable α :=
  entries.foldl (fun t e => t.insert e.1 e.2) empty

def get? (t : NameTable α) (name : String) : Option α := t.entries.lookup name

def find? (t : NameTable α) (name : String) : Option α := Entries.find? name t.entries

/-- The spelling of the first name that differs from this one at most in letter case. -/
def spelling? (t : NameTable α) (name : String) : Option String :=
  (t.entries.find? fun e => sameName e.1 name).map (·.1)

def filter (p : String → α → Bool) (t : NameTable α) : NameTable α :=
  ⟨t.entries.filter fun e => p e.1 e.2, t.ordered.sublist List.filter_sublist⟩

def erase (t : NameTable α) (name : String) : NameTable α := t.filter fun k _ => k != name

def contains (t : NameTable α) (name : String) : Bool := (t.get? name).isSome

def isEmpty (t : NameTable α) : Bool := t.entries.isEmpty

def names (t : NameTable α) : List String := t.entries.map (·.1)

def values (t : NameTable α) : List α := t.entries.map (·.2)

def map (f : α → β) (t : NameTable α) : NameTable β :=
  ⟨t.entries.map fun e => (e.1, f e.2), by
    have h := t.ordered
    rw [Ordered] at h ⊢
    exact List.pairwise_map.2 h⟩

end NameTable

end CimConsole
