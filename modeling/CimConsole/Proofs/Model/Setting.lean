import CimConsole.Document.JsonReader
import CimConsole.Model.Documents
import CimConsole.Proofs.Model.Properties

/-!
Instances as maps from names to values, whatever the letter case of the names. Setting a property
changes the first one of its name; a look-up prefers the property that is spelled exactly so. The
two agree unless an instance has the name in several spellings, which no instance has that is built
by setting properties, but one that is read from a document may.
-/
namespace CimConsole

open Text

namespace Instance

variable {x : Instance} {name other : String}

/-- The instance has a property with exactly this spelling of a name, but the first property of the
name, which is the one that is set, is spelled otherwise. -/
def IsAside (x : Instance) (name spelled : String) : Prop :=
  spelled ∈ x.properties.names ∧ x.properties.spelling? name ≠ some spelled

instance (x : Instance) (name spelled : String) : Decidable (x.IsAside name spelled) :=
  inferInstanceAs (Decidable (_ ∧ _))

theorem Spelled.not_isAside (h : x.Spelled) (hname : sameName other name = true) :
    ¬ x.IsAside name other := by
  rintro ⟨hmem, hne⟩
  obtain ⟨e, he, rfl⟩ := List.mem_map.1 hmem
  cases hfound : x.properties.entries.find? fun e => sameName e.1 name with
  | none => exact List.find?_eq_none.1 hfound e he hname
  | some d =>
    have hd : sameName d.1 e.1 = true :=
      sameName_trans (by simpa using List.find?_some hfound) (sameName_symm hname)
    have heq : d = e := CaseDistinct.eq_of_sameName h (List.mem_of_find?_eq_some hfound) he hd
    rw [NameTable.spelling?, hfound, heq] at hne
    exact hne rfl

/-- A spelling of the name that was set finds the value, unless it finds another property by its
letters. -/
theorem get?_set_of_sameName (x : Instance) (v : Option Value) (hname : sameName other name = true) :
    (x.set name v).get? other = if x.IsAside name other then x.get? other else v := by
  have hspelled : sameName ((x.properties.spelling? name).getD name) other = true :=
    sameName_trans (x.properties.sameName_spelling name) (sameName_symm hname)
  have hfirst : ∀ e, (x.properties.entries.find? fun e => sameName e.1 other) = some e →
      e.1 = (x.properties.spelling? name).getD name := by
    intro e he
    rw [← x.properties.spelling?_congr hname, NameTable.spelling?, he]
    rfl
  have hlookup : (x.set name v).get? other =
      ((Entries.put ((x.properties.spelling? name).getD name) v x.properties.entries).lookup other
        |>.or (some v)).join := by
    rw [get?, set, NameTable.find?, NameTable.insert, Entries.find?,
      Entries.find?_put_first hspelled v hfirst]
    rfl
  rw [hlookup]
  by_cases heq : (x.properties.spelling? name).getD name = other
  · have hplace : ¬ x.IsAside name other := by
      rintro ⟨hmem, hne⟩
      cases hspelling : x.properties.spelling? name with
      | some spelled => exact hne (by rw [hspelling] at heq ⊢; exact congrArg some heq)
      | none =>
        obtain ⟨e, he, rfl⟩ := List.mem_map.1 hmem
        exact List.find?_eq_none.1 (Option.map_eq_none_iff.1 hspelling) e he hname
    rw [if_neg hplace, heq, Entries.lookup_put_self]
    rfl
  · rw [Entries.lookup_put_of_ne heq]
    cases hstored : x.properties.entries.lookup other with
    | some w =>
      have haside : x.IsAside name other := by
        refine ⟨(x.properties.contains_iff_mem other).1 ?_, ?_⟩
        · rw [NameTable.contains, NameTable.get?, hstored]
          rfl
        · intro hspelling
          exact heq (by rw [hspelling]; rfl)
      rw [if_pos haside, get?, NameTable.find?, Entries.find?, hstored]
      rfl
    | none =>
      have hplace : ¬ x.IsAside name other := by
        rintro ⟨hmem, -⟩
        have hcontains := (x.properties.contains_iff_mem other).2 hmem
        rw [NameTable.contains, NameTable.get?, hstored] at hcontains
        cases hcontains
      rw [if_neg hplace]
      rfl

/-- A property that was set is there, and setting it again adds none. -/
theorem names_set_set (x : Instance) (v w : Option Value) (hname : sameName other name = true) :
    ((x.set name v).set other w).properties.names = (x.set name v).properties.names := by
  have hspelled : sameName ((x.properties.spelling? name).getD name) other = true :=
    sameName_trans (x.properties.sameName_spelling name) (sameName_symm hname)
  have hmem : (x.properties.spelling? name).getD name ∈ (x.set name v).properties.names :=
    List.mem_map_of_mem (Entries.mem_put_self _ v x.properties.entries)
  obtain ⟨spelled, hspelling⟩ :
      ∃ spelled, (x.set name v).properties.spelling? other = some spelled := by
    obtain ⟨e, he, hfirst⟩ := List.mem_map.1 hmem
    cases hfound : (x.set name v).properties.entries.find? fun e => sameName e.1 other with
    | none => exact absurd (hfirst ▸ hspelled) (List.find?_eq_none.1 hfound e he)
    | some d => exact ⟨d.1, congrArg (Option.map _) hfound⟩
  rw [set, hspelling]
  exact Entries.names_put_of_mem (x.set name v).properties.ordered
    (NameTable.mem_names_of_spelling? hspelling) w

/-- What a look-up finds after a property was set. A spelling of the name finds the value unless the
name stands aside in just this spelling, which no name does in an instance whose names differ in
more than letter case; such an instance stays one. Other names find what they found before, and
setting the property again adds none. -/
theorem get?_after_set (x : Instance) (name : String) (v : Option Value) :
    (∀ other, sameName other name = true →
      (x.set name v).get? other = if x.IsAside name other then x.get? other else v) ∧
    (x.Spelled → (x.set name v).Spelled ∧
      ∀ other, sameName other name = true → (x.set name v).get? other = v) ∧
    (∀ other, sameName other name = false → (x.set name v).get? other = x.get? other) ∧
    ∀ other w, sameName other name = true →
      ((x.set name v).set other w).properties.names = (x.set name v).properties.names := by
  refine ⟨fun other => get?_set_of_sameName x v, fun h => ⟨h.set name v, fun other hname => ?_⟩,
    fun other hname => ?_, fun other w => names_set_set x v w⟩
  · rw [get?_set_of_sameName x v hname, if_neg (h.not_isAside hname)]
  · exact get?_set_of_not_sameName x v (by rw [sameName_comm, hname])

/-- The instance of a document in which a name stands in two spellings. -/
def spelledTwice : Instance where
  className := "TST_Disk"
  properties := .ofList [("Name", some (.text "a")), ("name", some (.text "b")),
    ("Size", some (.integer 7))]

/-- The name is found as it was set under the first spelling and under one that is not there, the
size is found as before, and an instance with one spelling of the name finds it under every other. -/
theorem get?_after_set_of_spelledTwice :
    (spelledTwice.set "NAME" (some (.text "c"))).get? "Name" = some (.text "c") ∧
    (spelledTwice.set "NAME" (some (.text "c"))).get? "nAME" = some (.text "c") ∧
    (spelledTwice.set "NAME" (some (.text "c"))).get? "SIZE" = spelledTwice.get? "SIZE" ∧
    ((spelledTwice.set "NAME" (some (.text "c"))).set "name" none).properties.names =
      (spelledTwice.set "NAME" (some (.text "c"))).properties.names ∧
    ((({ className := "TST_Disk" } : Instance).set "Name" none).set "NAME"
      (some (.text "c"))).get? "name" = some (.text "c") := by
  obtain ⟨hself, -, hother, hagain⟩ := get?_after_set spelledTwice "NAME" (some (.text "c"))
  have hbare := (spelled_bare "TST_Disk").set "Name" none
  refine ⟨?_, ?_, hother "SIZE" (by decide +kernel), hagain "name" none (by decide +kernel),
    ((get?_after_set _ "NAME" (some (.text "c"))).2.1 hbare).2 "name" (by decide +kernel)⟩
  · rw [hself "Name" (by decide +kernel), if_neg (by decide +kernel)]
  · rw [hself "nAME" (by decide +kernel), if_neg (by decide +kernel)]

/-- A JSON text of such an instance. -/
def spelledTwiceText : String :=
  "\x7b\"classname\": \"TST_Disk\", \"properties\": \x7b\"Name\": \"a\", \"name\": \"b\"\x7d\x7d"

/-- The instance of the text is set under a spelling that it has, and what this spelling finds is
still the old value. -/
theorem set_not_found :
    ((Document.ofJson? spelledTwiceText).bind ofDocument?).map
      (fun x => (x.text? "name", (x.set "name" (some (.text "c"))).text? "name")) =
        some (some "b", some "b") := by
  decide +kernel

end Instance

end CimConsole
