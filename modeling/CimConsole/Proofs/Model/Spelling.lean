import CimConsole.Proofs.Model.KeyNames

/-!
Other spellings of a path. The letter case of namespaces, class names and key names, the slashes
around namespaces and the order of the keys do not matter for the equality of paths, at any depth,
as long as no two keys of a path have names that differ in letter case only: such paths can stand
for each other on both sides of every comparison. Without that condition they cannot, since a
look-up prefers the key that is spelled as it is asked for.
-/
namespace CimConsole

open Text

/-- Names of one namespace: letter case and slashes around them do not count. -/
def sameSpace (a b : String) : Bool := sameName (trimMark '/' a) (trimMark '/' b)

mutual

/-- The value with the names in its paths respelled. -/
inductive Value.Respelled : Value → Value → Prop
  | refl (v : Value) : Value.Respelled v v
  | reference {p q : ObjectPath} (path : ObjectPath.Respelled p q) :
      Value.Respelled (.reference p) (.reference q)
  | array {items others : List Value} (each : List.Forall₂ Value.Respelled items others) :
      Value.Respelled (.array items) (.array others)

/-- The keys one by one, with their names respelled. -/
inductive KeysRespelled : List (String × Value) → List (String × Value) → Prop
  | nil : KeysRespelled [] []
  | cons {e f : String × Value} {rest others : List (String × Value)}
      (name : sameName e.1 f.1 = true) (value : Value.Respelled e.2 f.2)
      (each : KeysRespelled rest others) : KeysRespelled (e :: rest) (f :: others)

/-- The path with its names respelled and the keys in any order. Keys whose names differ in
letter case only are different keys to a look-up, so a path with two such keys keeps all its keys
as they are. -/
inductive ObjectPath.Respelled : ObjectPath → ObjectPath → Prop
  | sameKeys {p q : ObjectPath}
      (space : Option.Rel (fun a b => sameSpace a b = true) p.nameSpace q.nameSpace)
      (name : sameName p.className q.className = true) (keys : p.keys = q.keys) :
      ObjectPath.Respelled p q
  | intro {p q : ObjectPath} {others : List (String × Value)}
      (space : Option.Rel (fun a b => sameSpace a b = true) p.nameSpace q.nameSpace)
      (name : sameName p.className q.className = true) (distinct : CaseDistinct p.keys)
      (keys : KeysRespelled p.keys others) (order : others.Perm q.keys) :
      ObjectPath.Respelled p q

end

/-- Values that can stand for each other in every comparison. -/
def Value.Alike (v w : Value) : Prop := ∀ u, v.same u = w.same u ∧ u.same v = u.same w

/-- Paths that can stand for each other in every comparison. -/
def ObjectPath.Alike (p q : ObjectPath) : Prop := ∀ u, p.same u = q.same u ∧ u.same p = u.same q

theorem Value.Alike.symm {v w : Value} (h : v.Alike w) : w.Alike v :=
  fun u => ⟨(h u).1.symm, (h u).2.symm⟩

theorem agreeingSpaces_congr {a b : Option String}
    (h : Option.Rel (fun a b => sameSpace a b = true) a b) (c : Option String) :
    agreeingSpaces a c = agreeingSpaces b c := by
  cases h with
  | none => rfl
  | some hab =>
    cases c with
    | none => rfl
    | some c =>
      rw [agreeingSpaces, agreeingSpaces]
      exact sameName_congr_left hab _

namespace ObjectPath

variable {p q : ObjectPath}

/-- What two paths have in common that can stand for each other: the keys of each have partners
among the keys of the other. -/
structure Matched (p q : ObjectPath) : Prop where
  spaces : ∀ a, agreeingSpaces p.nameSpace a = agreeingSpaces q.nameSpace a
  names : sameName p.className q.className = true
  length : p.keys.length = q.keys.length
  distinct : CaseDistinct p.keys ∧ CaseDistinct q.keys
  left : ∀ e ∈ p.keys, ∃ f ∈ q.keys, sameName e.1 f.1 = true ∧ e.2.Alike f.2
  right : ∀ f ∈ q.keys, ∃ e ∈ p.keys, sameName f.1 e.1 = true ∧ f.2.Alike e.2

theorem Matched.symm (h : Matched p q) : Matched q p where
  spaces a := (h.spaces a).symm
  names := sameName_symm h.names
  length := h.length.symm
  distinct := h.distinct.symm
  left := h.right
  right := h.left

/-- A path equal to one on its right is equal to the other one. The partner of a key finds the
same value there: the keys of the right path are told apart like those of the left one. -/
theorem Matched.same_left (h : Matched p q) {u : ObjectPath} (hu : p.same u = true) :
    q.same u = true := by
  obtain ⟨hspace, hname, hlength, hfound⟩ := same_iff.1 hu
  have hdistinct : CaseDistinct u.keys := caseDistinct_of_same hu h.distinct.1
  refine same_iff.2 ⟨?_, ?_, ?_, ?_⟩
  · rw [← h.spaces, hspace]
  · exact sameName_trans (sameName_symm h.names) hname
  · rw [← h.length, hlength]
  · intro f hf
    obtain ⟨e, he, hspelled, halike⟩ := h.right f hf
    obtain ⟨w, hw, hvalue⟩ := hfound e he
    refine ⟨w, ?_, ?_⟩
    · rw [key?, Entries.find?_congr hdistinct hspelled]
      exact hw
    · rw [(halike w).2, hvalue]

/-- A path equal to one on its left is equal to the other one. -/
theorem Matched.same_right (h : Matched p q) {u : ObjectPath} (hu : u.same p = true) :
    u.same q = true := by
  obtain ⟨hspace, hname, hlength, hfound⟩ := same_iff.1 hu
  refine same_iff.2 ⟨?_, ?_, ?_, ?_⟩
  · rw [agreeingSpaces_symm, ← h.spaces, agreeingSpaces_symm, hspace]
  · exact sameName_trans hname h.names
  · rw [← h.length, hlength]
  · intro e he
    obtain ⟨w, hw, hvalue⟩ := hfound e he
    obtain ⟨k, hmem, hspelled⟩ := Entries.exists_mem_of_find? hw
    obtain ⟨f, hf, hpartner, halike⟩ := h.left _ hmem
    refine ⟨f.2, ?_, ?_⟩
    · exact Entries.find?_eq_some_of_mem h.distinct.2 hf
        (sameName_trans (sameName_symm hpartner) hspelled)
    · rw [← (halike e.2).1, hvalue]

theorem Matched.alike (h : Matched p q) : p.Alike q := by
  intro u
  constructor
  · exact Bool.eq_iff_iff.2 ⟨h.same_left, h.symm.same_left⟩
  · exact Bool.eq_iff_iff.2 ⟨h.same_right, h.symm.same_right⟩

/-- Paths with the same keys can stand for each other whatever the keys are. -/
theorem alike_of_keys_eq
    (hspace : Option.Rel (fun a b => sameSpace a b = true) p.nameSpace q.nameSpace)
    (hname : sameName p.className q.className = true) (hkeys : p.keys = q.keys) : p.Alike q := by
  intro u
  have hspaces := agreeingSpaces_congr hspace u.nameSpace
  constructor
  · rw [Bool.eq_iff_iff, same_iff, same_iff, hspaces, sameName_congr_left hname, hkeys]
  · rw [Bool.eq_iff_iff, same_iff, same_iff, agreeingSpaces_symm, hspaces, agreeingSpaces_symm,
      sameName_congr_right hname]
    simp only [key?, hkeys]

end ObjectPath

namespace KeysRespelled

variable {keys others : List (String × Value)}

theorem map_foldCase (h : KeysRespelled keys others) :
    (keys.map fun e => foldCase e.1) = others.map fun e => foldCase e.1 := by
  induction keys generalizing others with
  | nil =>
    cases h
    rfl
  | cons e rest ih =>
    cases h with
    | cons hname _ hrest =>
      rw [List.map_cons, List.map_cons, ih hrest, (sameName_iff _ _).1 hname]

theorem caseDistinct (h : KeysRespelled keys others) (hkeys : CaseDistinct keys) :
    CaseDistinct others := by
  rw [CaseDistinct, ← h.map_foldCase]
  exact hkeys

theorem length_eq (h : KeysRespelled keys others) : keys.length = others.length := by
  simpa using congrArg List.length h.map_foldCase

/-- Each key has a partner, and is one. -/
theorem partners (h : KeysRespelled keys others) :
    (∀ e ∈ keys, ∃ f ∈ others, sameName e.1 f.1 = true ∧ e.2.Respelled f.2) ∧
    ∀ f ∈ others, ∃ e ∈ keys, sameName e.1 f.1 = true ∧ e.2.Respelled f.2 := by
  induction keys generalizing others with
  | nil =>
    cases h
    simp
  | cons e rest ih =>
    cases h with
    | cons hname hvalue hrest =>
      obtain ⟨hleft, hright⟩ := ih hrest
      constructor
      · intro a ha
        rcases List.mem_cons.1 ha with rfl | ha
        · exact ⟨_, List.mem_cons_self, hname, hvalue⟩
        · obtain ⟨b, hb, hpartner⟩ := hleft a ha
          exact ⟨b, List.mem_cons_of_mem _ hb, hpartner⟩
      · intro b hb
        rcases List.mem_cons.1 hb with rfl | hb
        · exact ⟨e, List.mem_cons_self, hname, hvalue⟩
        · obtain ⟨a, ha, hpartner⟩ := hright b hb
          exact ⟨a, List.mem_cons_of_mem _ ha, hpartner⟩

end KeysRespelled

/-- Paths match whose keys are respelled and put in another order, if the values of the keys can
stand for each other. -/
theorem ObjectPath.Matched.of_keysRespelled {p q : ObjectPath} {others : List (String × Value)}
    (hspace : Option.Rel (fun a b => sameSpace a b = true) p.nameSpace q.nameSpace)
    (hname : sameName p.className q.className = true) (hdistinct : CaseDistinct p.keys)
    (hkeys : KeysRespelled p.keys others) (hperm : others.Perm q.keys)
    (hvalues : ∀ e ∈ p.keys, ∀ w, e.2.Respelled w → e.2.Alike w) : p.Matched q := by
  obtain ⟨hleft, hright⟩ := hkeys.partners
  constructor
  case spaces => exact agreeingSpaces_congr hspace
  case names => exact hname
  case length => exact hkeys.length_eq.trans hperm.length_eq
  case distinct => exact ⟨hdistinct, (hperm.map _).nodup (hkeys.caseDistinct hdistinct)⟩
  case left =>
    intro e he
    obtain ⟨f, hf, hpartner, hvalue⟩ := hleft e he
    exact ⟨f, hperm.mem_iff.1 hf, hpartner, hvalues e he f.2 hvalue⟩
  case right =>
    intro f hf
    obtain ⟨e, he, hpartner, hvalue⟩ := hright f (hperm.mem_iff.2 hf)
    exact ⟨e, he, sameName_symm hpartner, (hvalues e he f.2 hvalue).symm⟩

theorem areLeftOf_congr {items others : List Value} (h : List.Forall₂ Value.Respelled items others)
    (halike : ∀ v ∈ items, ∀ w, v.Respelled w → v.Alike w) (us : List Value) :
    areLeftOf items us = areLeftOf others us ∧ areLeftOf us items = areLeftOf us others := by
  induction h generalizing us with
  | nil => exact ⟨rfl, rfl⟩
  | @cons v w rest others hhead hrest ih =>
    cases us with
    | nil => exact ⟨rfl, rfl⟩
    | cons u us =>
      obtain ⟨hleft, hright⟩ := halike v List.mem_cons_self w hhead u
      obtain ⟨hlefts, hrights⟩ := ih (fun x hx => halike x (List.mem_cons_of_mem _ hx)) us
      rw [Value.same, Value.same] at hleft hright
      constructor
      · rw [areLeftOf, areLeftOf, hleft, hlefts]
      · rw [areLeftOf, areLeftOf, hright, hrights]

/-- Respelled values and paths can stand for each other. -/
theorem alike_of_respelled :
    (∀ v w : Value, v.Respelled w → v.Alike w) ∧
    ∀ p q : ObjectPath, p.Respelled q → p.Alike q := by
  apply Value.induction
  case boolean | integer | real | text =>
    intro x w h u
    cases h
    exact ⟨rfl, rfl⟩
  case reference =>
    intro p hp w h u
    cases h with
    | refl => exact ⟨rfl, rfl⟩
    | reference hpath =>
      cases u with
      | reference r => exact hp _ hpath r
      | _ => simp [Value.same, Value.isLeftOf]
  case array =>
    intro items hitems w h u
    cases h with
    | refl => exact ⟨rfl, rfl⟩
    | array heach =>
      cases u with
      | array us => exact areLeftOf_congr heach hitems us
      | _ => simp [Value.same, Value.isLeftOf]
  case path =>
    intro space name keys hkeys q h
    cases h with
    | sameKeys hspace hname hsame => exact ObjectPath.alike_of_keys_eq hspace hname hsame
    | @intro _ _ others hspace hname hdistinct hothers hperm =>
      have hmatched : ObjectPath.Matched ⟨space, name, keys⟩ q :=
        ObjectPath.Matched.of_keysRespelled hspace hname hdistinct hothers hperm hkeys
      exact hmatched.alike

namespace ObjectPath.Respelled

variable {p q : ObjectPath}

theorem alike (h : p.Respelled q) : p.Alike q := alike_of_respelled.2 p q h

theorem sameName_className (h : p.Respelled q) : sameName p.className q.className = true := by
  cases h with
  | sameKeys _ hname _ => exact hname
  | intro _ hname _ _ _ => exact hname

end ObjectPath.Respelled

end CimConsole
