import CimConsole.Command.Instance
import CimConsole.Proofs.Answer
import CimConsole.Proofs.Model.Properties

/-!
What a list of assignments comes to. They are taken one after the other, so under each name the text
counts that was given last. To an instance all spellings of the name of a property are that property,
while the keys of a path are told apart by every letter of their names.
-/
namespace CimConsole

open Text

/-- The text that comes last under a name that passes a test. -/
def lastText? (test : String → Bool) : List (String × String) → Option String
  | [] => none
  | (name, raw) :: rest => (lastText? test rest).or (if test name then some raw else none)

section LastText

variable {test : String → Bool} {pairs : List (String × String)} {raw : String}

theorem exists_mem_of_lastText? (h : lastText? test pairs = some raw) :
    ∃ name, (name, raw) ∈ pairs ∧ test name = true := by
  induction pairs with
  | nil => cases h
  | cons e rest ih =>
    obtain ⟨name, text⟩ := e
    rw [lastText?] at h
    cases hlast : lastText? test rest with
    | some last =>
      obtain rfl : last = raw := by simpa [hlast] using h
      obtain ⟨other, hmem, hother⟩ := ih hlast
      exact ⟨other, List.mem_cons_of_mem _ hmem, hother⟩
    | none =>
      rw [hlast, Option.none_or] at h
      split at h
      · next hname =>
        obtain rfl := Option.some.inj h
        exact ⟨name, List.mem_cons_self, hname⟩
      · cases h

theorem exists_lastText?_of_mem {name : String} (hmem : (name, raw) ∈ pairs)
    (hname : test name = true) : ∃ last, lastText? test pairs = some last := by
  induction pairs with
  | nil => cases hmem
  | cons e rest ih =>
    rw [lastText?]
    rcases List.mem_cons.1 hmem with rfl | hmem
    · rw [if_pos hname]
      cases lastText? test rest <;> simp
    · obtain ⟨last, hlast⟩ := ih hmem
      exact ⟨last, by rw [hlast, Option.some_or]⟩

theorem lastText?_congr {test' : String → Bool} (h : ∀ e ∈ pairs, test e.1 = test' e.1) :
    lastText? test pairs = lastText? test' pairs := by
  induction pairs with
  | nil => rfl
  | cons e rest ih =>
    rw [lastText?, lastText?, ih fun d hd => h d (List.mem_cons_of_mem _ hd), h e List.mem_cons_self]

/-- What the test does not let pass does not matter. -/
theorem lastText?_filter {keep : String × String → Bool}
    (h : ∀ e ∈ pairs, test e.1 = true → keep e = true) :
    lastText? test (pairs.filter keep) = lastText? test pairs := by
  induction pairs with
  | nil => rfl
  | cons e rest ih =>
    have hrest := ih fun d hd => h d (List.mem_cons_of_mem _ hd)
    rw [List.filter_cons, lastText?]
    split
    · rw [lastText?, hrest]
    · next hdropped =>
      have hname : ¬ test e.1 = true := fun hname => hdropped (h e List.mem_cons_self hname)
      rw [hrest, if_neg hname, Option.or_none]

end LastText

namespace InstanceName

/-- The keys of a path that assignments bind. -/
def boundKeys (pairs : List (String × String)) : List (String × Value) :=
  pairs.foldl (fun keys e => Entries.put e.1 (keyValue e.2) keys) []

variable {pairs : List (String × String)}

theorem foldl_withKey (className : String) (pairs : List (String × String)) :
    (pairs.foldl (fun p e => p.withKey e.1 (keyValue e.2)) (ObjectPath.ofClass className)) =
      ⟨none, className, boundKeys pairs⟩ := by
  have hfold : ∀ keys, pairs.foldl (fun p e => p.withKey e.1 (keyValue e.2))
      (⟨none, className, keys⟩ : ObjectPath) =
        ⟨none, className, pairs.foldl (fun keys e => Entries.put e.1 (keyValue e.2) keys) keys⟩ := by
    induction pairs with
    | nil => exact fun _ => rfl
    | cons e rest ih => exact fun keys => ih _
  exact hfold []

theorem ordered_boundKeys (pairs : List (String × String)) : Ordered (boundKeys pairs) := by
  have hfill := Entries.ordered_foldl_put List.Pairwise.nil
    (pairs.map fun e => (e.1, keyValue e.2))
  rwa [List.foldl_map] at hfill

/-- Under each name the text that was given last counts. -/
theorem lookup_boundKeys (pairs : List (String × String)) (name : String) :
    (boundKeys pairs).lookup name = (lastText? (· == name) pairs).map keyValue := by
  have hfold : ∀ keys : List (String × Value),
      (pairs.foldl (fun keys e => Entries.put e.1 (keyValue e.2) keys) keys).lookup name =
        ((lastText? (· == name) pairs).map keyValue).or (keys.lookup name) := by
    induction pairs with
    | nil => exact fun _ => rfl
    | cons e rest ih =>
      intro keys
      rw [List.foldl_cons, ih, lastText?]
      cases hlast : lastText? (· == name) rest with
      | some last => rfl
      | none =>
        by_cases hname : e.1 = name
        · subst hname
          simp [Entries.lookup_put_self]
        · simp [hname, Entries.lookup_put_of_ne hname]
  rw [boundKeys, hfold]
  simp

theorem mem_boundKeys_iff {k : String} {v : Value} : (k, v) ∈ boundKeys pairs ↔
    ∃ raw, lastText? (· == k) pairs = some raw ∧ keyValue raw = v := by
  rw [← Option.map_eq_some_iff, ← lookup_boundKeys]
  constructor
  · exact Entries.lookup_of_mem (ordered_boundKeys pairs)
  · intro h
    obtain ⟨before, after, hsplit, -⟩ := List.lookup_eq_some_iff.1 h
    exact hsplit ▸ List.mem_append_right _ List.mem_cons_self

/-- The names of the bound keys are those of the assignments. -/
theorem exists_mem_boundKeys_iff {k : String} :
    (∃ v, (k, v) ∈ boundKeys pairs) ↔ ∃ raw, (k, raw) ∈ pairs := by
  simp only [mem_boundKeys_iff]
  constructor
  · rintro ⟨-, raw, hraw, -⟩
    obtain ⟨name, hmem, hname⟩ := exists_mem_of_lastText? hraw
    exact ⟨raw, beq_iff_eq.1 hname ▸ hmem⟩
  · rintro ⟨raw, hmem⟩
    obtain ⟨last, hlast⟩ : ∃ last, lastText? (· == k) pairs = some last :=
      exists_lastText?_of_mem hmem (beq_self_eq_true k)
    exact ⟨_, last, hlast, rfl⟩

/-- Assignments to keys make a path without asking. -/
theorem resolve_of_keys {name : String} {keys : List String}
    (hclosed : dropEnd? ".?" (trim name) = none) (hkeys : keys ≠ [])
    (hread : readAssignments keys = .ok pairs) (s : Server) (space : String) :
    (InstanceName.mk name keys).resolve s space = pure ⟨none, trim name, boundKeys pairs⟩ := by
  have hgiven : keys.isEmpty = false := by simpa using hkeys
  have hbound : bound (trim name) keys = .ok ⟨none, trim name, boundKeys pairs⟩ := by
    rw [bound, hread]
    exact congrArg Except.ok (foldl_withKey (trim name) pairs)
  have hpath : (InstanceName.mk name keys).path = .ok ⟨none, trim name, boundKeys pairs⟩ := by
    simp only [path, hgiven, hbound]
    rfl
  simp only [resolve, hclosed, hpath]
  rfl

end InstanceName

namespace InstanceCommand

variable {c : ClassDecl} {x y : Instance} {pairs : List (String × String)} {name : String}

/-- What the class makes of a text for one of its properties. -/
def typedValue? (c : ClassDecl) (name raw : String) : Option Value :=
  (c.property? name).bind fun p =>
    (Value.readTyped raw (if p.referenceClass.isSome then "reference" else p.type)
      p.isArray).toOption

theorem property?_congr {other : String} (h : sameName name other = true) :
    c.property? name = c.property? other := by
  simp only [ClassDecl.property?, sameName_congr_right h]

theorem typedValue?_congr {other : String} (h : sameName name other = true) :
    typedValue? c name = typedValue? c other := by
  funext raw
  rw [typedValue?, typedValue?, property?_congr h]

theorem of_assign {pair : String × String} (h : assign c x pair = .ok y) :
    ∃ p v, c.property? pair.1 = some p ∧ typedValue? c pair.1 pair.2 = some v ∧
      y = x.withProperty p.name v := by
  unfold assign at h
  split at h
  · cases h
  · next p hp =>
    dsimp only at h
    split at h
    · next v hv =>
      refine ⟨p, v, hp, ?_, (Except.ok.inj h).symm⟩
      rw [typedValue?, hp, Option.bind_some, hv]
      rfl
    · cases h

/-- Under each name, in whatever letter case, an instance has what the text makes that was given
last, or what it had before if none was. -/
theorem of_foldlM_assign (h : pairs.foldlM (assign c) x = .ok y) (hx : x.Spelled) :
    y.className = x.className ∧
      ∀ name, y.get? name = (lastText? (sameName · name) pairs).elim (x.get? name)
        (typedValue? c name) := by
  induction pairs generalizing x with
  | nil =>
    obtain rfl : x = y := Except.ok.inj h
    exact ⟨rfl, fun _ => rfl⟩
  | cons e rest ih =>
    obtain ⟨z, hz, h⟩ := bind_eq_ok.1 h
    obtain ⟨p, v, hp, hv, rfl⟩ := of_assign hz
    obtain ⟨hclass, hget⟩ := ih h (hx.withProperty p.name v)
    refine ⟨hclass, fun name => ?_⟩
    have hpname : sameName p.name e.1 = true := by simpa using List.find?_some hp
    rw [hget, lastText?]
    cases hlast : lastText? (sameName · name) rest with
    | some last => rfl
    | none =>
      rw [Option.none_or, Option.elim_none]
      cases hname : sameName e.1 name with
      | true =>
        rw [hx.get?_withProperty v (sameName_trans hpname hname), if_pos rfl, Option.elim_some,
          ← typedValue?_congr hname, hv]
      | false =>
        rw [Instance.get?_withProperty_of_not_sameName x v
          (by rw [sameName_congr_left hpname, hname])]
        rfl

theorem of_assigned {items : List String} (h : assigned c items = .ok x) :
    ∃ pairs, readAssignments items = .ok pairs ∧ x.className = c.name ∧
      ∀ name, x.get? name = (lastText? (sameName · name) pairs).bind (typedValue? c name) := by
  obtain ⟨pairs, hpairs, h⟩ := bind_eq_ok.1 h
  obtain ⟨hclass, hget⟩ := of_foldlM_assign h (Instance.spelled_bare c.name)
  refine ⟨pairs, mapError_eq_ok.1 hpairs, hclass, fun name => ?_⟩
  rw [hget]
  cases lastText? (sameName · name) pairs <;> rfl

/-- Whether an assignment is one to a key of the class. -/
def isKeyItem (c : ClassDecl) (item : String) : Bool :=
  (readAssignment item).toOption.any fun pair => (c.property? pair.1).any PropertyDecl.isKey

/-- The assignments to keys of a class. -/
def keyItems (c : ClassDecl) (items : List String) : List String := items.filter (isKeyItem c)

/-- The names and texts of the assignments to keys of a class. -/
def keyPairs (c : ClassDecl) (items : List String) : List (String × String) :=
  (keyItems c items).filterMap fun item => (readAssignment item).toOption

theorem readAssignments_keyItems {items : List String} (h : readAssignments items = .ok pairs) :
    readAssignments (keyItems c items) = .ok (keyPairs c items) ∧
      keyPairs c items = pairs.filter fun pair => (c.property? pair.1).any PropertyDecl.isKey := by
  induction items generalizing pairs with
  | nil =>
    obtain rfl := Except.ok.inj h
    exact ⟨rfl, rfl⟩
  | cons item rest ih =>
    rw [readAssignments, List.mapM_cons] at h
    obtain ⟨pair, hpair, h⟩ := bind_eq_ok.1 h
    obtain ⟨others, hothers, h⟩ := bind_eq_ok.1 h
    obtain rfl := Except.ok.inj h
    obtain ⟨hread, hkept⟩ := ih hothers
    have hitem : isKeyItem c item = (c.property? pair.1).any PropertyDecl.isKey := by
      rw [isKeyItem, hpair]
      rfl
    rw [keyItems, List.filter_cons, keyPairs, keyItems, List.filter_cons, List.filter_cons, ← hitem]
    split
    · refine ⟨?_, ?_⟩
      · rw [readAssignments, List.mapM_cons, hpair, ok_bind, List.filterMap_cons, hpair]
        rw [readAssignments, keyItems] at hread
        rw [hread]
        rfl
      · rw [List.filterMap_cons, hpair]
        exact congrArg (pair :: ·) hkept
    · exact ⟨hread, hkept⟩

end InstanceCommand

end CimConsole
