import CimConsole.Model.Value
import CimConsole.Proofs.NameTable

/-!
When a path equals itself. Values and paths nest in each other, so facts about them go by
one induction over both. Equality of paths looks the keys of the one up in the other and
compares reals by value; it is reflexive if the keys stand in the order of a table at every
level, so that no name has two values, and no real at any depth is a NaN. The same holds of
a path and the one with its namespaces respelled.
-/
namespace CimConsole

open Text Number

theorem Value.sizeOf_snd_lt {e : String × Value} {keys : List (String × Value)}
    (he : e ∈ keys) : sizeOf e.2 < sizeOf keys := by
  have h := List.sizeOf_lt_of_mem he
  obtain ⟨k, v⟩ := e
  simp only [Prod.mk.sizeOf_spec] at h
  show sizeOf v < sizeOf keys
  omega

/-- Induction over values and paths at once. -/
theorem Value.induction {P : Value → Prop} {Q : ObjectPath → Prop}
    (boolean : ∀ b, P (.boolean b)) (integer : ∀ i, P (.integer i)) (real : ∀ r, P (.real r))
    (text : ∀ s, P (.text s)) (reference : ∀ p, Q p → P (.reference p))
    (array : ∀ items, (∀ v ∈ items, P v) → P (.array items))
    (path : ∀ space name keys, (∀ e ∈ keys, P e.2) → Q ⟨space, name, keys⟩) :
    (∀ v, P v) ∧ ∀ p, Q p := by
  have all : ∀ n, (∀ v, sizeOf v < n → P v) ∧ ∀ p, sizeOf p < n → Q p := by
    intro n
    induction n with
    | zero =>
      exact ⟨fun v h => absurd h (Nat.not_lt_zero _), fun p h => absurd h (Nat.not_lt_zero _)⟩
    | succ n ih =>
      refine ⟨fun v hv => ?_, fun p hp => ?_⟩
      · cases v with
        | boolean b => exact boolean b
        | integer i => exact integer i
        | real r => exact real r
        | text s => exact text s
        | reference p =>
          refine reference p (ih.2 p ?_)
          simp only [Value.reference.sizeOf_spec] at hv
          omega
        | array items =>
          refine array items fun v hmem => ih.1 v ?_
          have hlt := List.sizeOf_lt_of_mem hmem
          simp only [Value.array.sizeOf_spec] at hv
          omega
      · obtain ⟨space, name, keys⟩ := p
        refine path space name keys fun e he => ih.1 e.2 ?_
        have hlt := Value.sizeOf_snd_lt he
        simp only [ObjectPath.mk.sizeOf_spec] at hp
        omega
  exact ⟨fun v => (all (sizeOf v + 1)).1 v (Nat.lt_succ_self _),
    fun p => (all (sizeOf p + 1)).2 p (Nat.lt_succ_self _)⟩

mutual

/-- Whether some real at any depth satisfies `f`. -/
def Value.anyReal (f : Binary64 → Bool) : Value → Bool
  | .real r => f r
  | .reference p => p.anyReal f
  | .array items => anyRealOf f items
  | _ => false

def anyRealOf (f : Binary64 → Bool) : List Value → Bool
  | [] => false
  | v :: rest => v.anyReal f || anyRealOf f rest

def anyRealUnder (f : Binary64 → Bool) : List (String × Value) → Bool
  | [] => false
  | (_, v) :: rest => v.anyReal f || anyRealUnder f rest

def ObjectPath.anyReal (f : Binary64 → Bool) : ObjectPath → Bool
  | ⟨_, _, keys⟩ => anyRealUnder f keys

end

mutual

/-- The keys of paths stand in the order of a table, at every depth. -/
def Value.Tabled : Value → Prop
  | .reference p => p.Tabled
  | .array items => AllTabled items
  | _ => True

def AllTabled : List Value → Prop
  | [] => True
  | v :: rest => v.Tabled ∧ AllTabled rest

def KeysTabled : List (String × Value) → Prop
  | [] => True
  | (_, v) :: rest => v.Tabled ∧ KeysTabled rest

def ObjectPath.Tabled : ObjectPath → Prop
  | ⟨_, _, keys⟩ => Ordered keys ∧ KeysTabled keys

end

mutual

/-- The value with the namespaces of its paths changed by `f`, at every depth. -/
def Value.mapSpaces (f : Option String → Option String) : Value → Value
  | .reference p => .reference (p.mapSpaces f)
  | .array items => .array (mapSpacesOf f items)
  | v => v

def mapSpacesOf (f : Option String → Option String) : List Value → List Value
  | [] => []
  | v :: rest => v.mapSpaces f :: mapSpacesOf f rest

def mapSpacesUnder (f : Option String → Option String) :
    List (String × Value) → List (String × Value)
  | [] => []
  | (k, v) :: rest => (k, v.mapSpaces f) :: mapSpacesUnder f rest

def ObjectPath.mapSpaces (f : Option String → Option String) : ObjectPath → ObjectPath
  | ⟨space, name, keys⟩ => ⟨f space, name, mapSpacesUnder f keys⟩

end

section Members

variable (f : Binary64 → Bool) (g : Option String → Option String)

@[simp] theorem anyRealOf_eq_false {items : List Value} :
    anyRealOf f items = false ↔ ∀ v ∈ items, v.anyReal f = false := by
  induction items with
  | nil => simp [anyRealOf]
  | cons v rest ih => simp [anyRealOf, ih]

@[simp] theorem anyRealUnder_eq_false {keys : List (String × Value)} :
    anyRealUnder f keys = false ↔ ∀ e ∈ keys, e.2.anyReal f = false := by
  induction keys with
  | nil => simp [anyRealUnder]
  | cons e rest ih =>
    obtain ⟨k, v⟩ := e
    simp [anyRealUnder, ih]

@[simp] theorem allTabled_iff {items : List Value} :
    AllTabled items ↔ ∀ v ∈ items, v.Tabled := by
  induction items with
  | nil => simp [AllTabled]
  | cons v rest ih => simp [AllTabled, ih]

@[simp] theorem keysTabled_iff {keys : List (String × Value)} :
    KeysTabled keys ↔ ∀ e ∈ keys, e.2.Tabled := by
  induction keys with
  | nil => simp [KeysTabled]
  | cons e rest ih =>
    obtain ⟨k, v⟩ := e
    simp [KeysTabled, ih]

@[simp] theorem mapSpacesOf_eq_map (items : List Value) :
    mapSpacesOf g items = items.map (Value.mapSpaces g) := by
  induction items with
  | nil => rfl
  | cons v rest ih => rw [mapSpacesOf, ih, List.map_cons]

@[simp] theorem mapSpacesUnder_eq_map (keys : List (String × Value)) :
    mapSpacesUnder g keys = keys.map fun e => (e.1, e.2.mapSpaces g) := by
  induction keys with
  | nil => rfl
  | cons e rest ih =>
    obtain ⟨k, v⟩ := e
    rw [mapSpacesUnder, ih, List.map_cons]

end Members

mutual

def Value.decideTabled : (v : Value) → Decidable v.Tabled
  | .boolean _ | .integer _ | .real _ | .text _ => .isTrue trivial
  | .reference p => p.decideTabled
  | .array items => decideAllTabled items

def decideAllTabled : (items : List Value) → Decidable (AllTabled items)
  | [] => .isTrue trivial
  | v :: rest => @instDecidableAnd _ _ v.decideTabled (decideAllTabled rest)

def decideKeysTabled : (keys : List (String × Value)) → Decidable (KeysTabled keys)
  | [] => .isTrue trivial
  | (_, v) :: rest => @instDecidableAnd _ _ v.decideTabled (decideKeysTabled rest)

def ObjectPath.decideTabled : (p : ObjectPath) → Decidable p.Tabled
  | ⟨_, _, keys⟩ =>
    @instDecidableAnd _ _ (inferInstanceAs (Decidable (List.Pairwise _ keys)))
      (decideKeysTabled keys)

end

instance (p : ObjectPath) : Decidable p.Tabled := p.decideTabled

theorem mapSpaces_id :
    (∀ v : Value, v.mapSpaces id = v) ∧ ∀ p : ObjectPath, p.mapSpaces id = p := by
  apply Value.induction
  case boolean | integer | real | text => intro _; rfl
  case reference => intro p hp; rw [Value.mapSpaces, hp]
  case array =>
    intro items hitems
    rw [Value.mapSpaces, mapSpacesOf_eq_map, List.map_congr_left hitems, List.map_id']
  case path =>
    intro space name keys hkeys
    have hmap : keys.map (fun e => (e.1, e.2.mapSpaces id)) = keys := by
      rw [List.map_congr_left (fun e he => by rw [hkeys e he]), List.map_id']
    rw [ObjectPath.mapSpaces, mapSpacesUnder_eq_map, hmap, id_eq]

theorem agreeingSpaces_symm (a b : Option String) : agreeingSpaces a b = agreeingSpaces b a := by
  match a, b with
  | none, none | none, some _ | some _, none => rfl
  | some a, some b =>
    rw [agreeingSpaces, agreeingSpaces, sameName_comm]

theorem areLeftOf_map (f g : Value → Value) {items : List Value}
    (h : ∀ v ∈ items, (f v).isLeftOf (g v) = true) :
    areLeftOf (items.map f) (items.map g) = true := by
  induction items with
  | nil => rfl
  | cons v rest ih =>
    rw [List.map_cons, List.map_cons, areLeftOf, h v List.mem_cons_self, Bool.true_and]
    exact ih fun w hw => h w (List.mem_cons_of_mem _ hw)

/-- Two paths with the same key names are equal if their parts are, each key with the value
of the right path on the left. -/
theorem ObjectPath.isLeftOf_map (f g : Value → Value) {a b : Option String} (name : String)
    {keys : List (String × Value)} (hspace : agreeingSpaces a b = true) (hkeys : Ordered keys)
    (h : ∀ e ∈ keys, (g e.2).isLeftOf (f e.2) = true) :
    (ObjectPath.mk a name (keys.map fun e => (e.1, f e.2))).isLeftOf
      ⟨b, name, keys.map fun e => (e.1, g e.2)⟩ = true := by
  have hfound : keysFoundIn (keys.map fun e => (e.1, f e.2)) (keys.map fun e => (e.1, g e.2)) =
      true := by
    rw [keysFoundIn_eq_all, List.all_eq_true]
    intro e he
    obtain ⟨⟨k, v⟩, hmem, rfl⟩ := List.mem_map.1 he
    have hget : Entries.find? k (keys.map fun e => (e.1, g e.2)) = some (g v) :=
      Entries.find?_of_mem (ordered_map g hkeys) (List.mem_map_of_mem hmem)
    simp only [hget, Value.isRightOf_eq]
    exact h _ hmem
  rw [ObjectPath.isLeftOf, hspace, sameName_refl, hfound]
  simp

/-- Respelling namespaces so that they agree with what they were gives an equal path. -/
theorem isLeftOf_mapSpaces {g : Option String → Option String}
    (hg : ∀ a, agreeingSpaces a (g a) = true) :
    (∀ v : Value, v.Tabled → v.anyReal Binary64.isNaN = false →
      v.isLeftOf (v.mapSpaces g) = true ∧ (v.mapSpaces g).isLeftOf v = true) ∧
    ∀ p : ObjectPath, p.Tabled → p.anyReal Binary64.isNaN = false →
      p.isLeftOf (p.mapSpaces g) = true ∧ (p.mapSpaces g).isLeftOf p = true := by
  apply Value.induction
  case boolean | integer | text =>
    intro x _ _
    simp [Value.mapSpaces, Value.isLeftOf]
  case real =>
    intro r _ hr
    have hr : r.isNaN = false := hr
    simp [Value.mapSpaces, Value.isLeftOf, Binary64.same_self, hr]
  case reference =>
    intro p hp ht hr
    simpa only [Value.mapSpaces, Value.isLeftOf] using hp ht hr
  case array =>
    intro items hitems ht hr
    simp only [Value.Tabled, allTabled_iff] at ht
    simp only [Value.anyReal, anyRealOf_eq_false] at hr
    have hboth v hv := hitems v hv (ht v hv) (hr v hv)
    simp only [Value.mapSpaces, mapSpacesOf_eq_map, Value.isLeftOf]
    constructor
    · simpa using areLeftOf_map id (Value.mapSpaces g) fun v hv => (hboth v hv).1
    · simpa using areLeftOf_map (Value.mapSpaces g) id fun v hv => (hboth v hv).2
  case path =>
    intro space name keys hkeys ht hr
    simp only [ObjectPath.Tabled, keysTabled_iff] at ht
    simp only [ObjectPath.anyReal, anyRealUnder_eq_false] at hr
    have hboth e he := hkeys e he (ht.2 e he) (hr e he)
    simp only [ObjectPath.mapSpaces, mapSpacesUnder_eq_map]
    constructor
    · simpa using ObjectPath.isLeftOf_map id (Value.mapSpaces g) name (hg space) ht.1
        fun e he => (hboth e he).2
    · simpa using ObjectPath.isLeftOf_map (Value.mapSpaces g) id name
        ((agreeingSpaces_symm _ _).trans (hg space)) ht.1 fun e he => (hboth e he).1

theorem agreeingSpaces_self (a : Option String) : agreeingSpaces a a = true := by
  cases a with
  | none => rfl
  | some s => exact sameName_refl _

/-- A path equals itself if no key at any depth is a NaN. -/
theorem ObjectPath.same_self {p : ObjectPath} (ht : p.Tabled)
    (hr : p.anyReal Binary64.isNaN = false) : p.same p = true := by
  have hid : ∀ a, agreeingSpaces a (id a) = true := agreeingSpaces_self
  have h := ((isLeftOf_mapSpaces hid).2 p ht hr).1
  rwa [mapSpaces_id.2 p] at h

end CimConsole
