import CimConsole.Model.Instance
import CimConsole.Proofs.Model.KeyNames

/-!
What is found in an instance after one of its properties is set. Names are found whatever
their letter case, so a property stands aside from all that differ from it in more than that. A
property that is there keeps its spelling, so no two names of an instance come to differ in letter
case only, and what was set is found under every spelling.
-/
namespace CimConsole

open Text

namespace Instance

variable {name other : String}

theorem find?_set_of_not_sameName (x : Instance) (v : Option Value)
    (h : sameName name other = false) :
    (x.set name v).properties.find? other = x.properties.find? other := by
  have hspelled : sameName ((x.properties.spelling? name).getD name) other = false := by
    rw [sameName_congr_left (x.properties.sameName_spelling name), h]
  exact Entries.find?_put_of_not_sameName hspelled v x.properties.entries

theorem get?_set_of_not_sameName (x : Instance) (v : Option Value)
    (h : sameName name other = false) : (x.set name v).get? other = x.get? other := by
  rw [get?, find?_set_of_not_sameName x v h, get?]

theorem find?_withProperty_of_not_sameName (x : Instance) (v : Value)
    (h : sameName name other = false) :
    (x.withProperty name v).properties.find? other = x.properties.find? other :=
  find?_set_of_not_sameName x (some v) h

theorem get?_withProperty_of_not_sameName (x : Instance) (v : Value)
    (h : sameName name other = false) : (x.withProperty name v).get? other = x.get? other :=
  get?_set_of_not_sameName x (some v) h

/-- A property that was absent has the value that it was given. -/
theorem get?_withProperty_self (x : Instance) (v : Value) (h : x.properties.find? name = none) :
    (x.withProperty name v).get? name = some v := by
  have habsent : (x.properties.entries.find? fun e => sameName e.1 name) = none :=
    Option.map_eq_none_iff.1 (Option.or_eq_none_iff.1 h).2
  have hspelling : x.properties.spelling? name = none := by
    rw [NameTable.spelling?, habsent, Option.map_none]
  have hput : (x.withProperty name v).properties.find? name = some (some v) := by
    rw [withProperty, set, hspelling]
    exact congrArg (Option.or · _) (Entries.lookup_put_self (some v) x.properties.entries)
  rw [get?, hput]
  rfl

variable {x : Instance}

/-- No property of the instance has two names that differ in letter case only. -/
def Spelled (x : Instance) : Prop := CaseDistinct x.properties.entries

theorem spelled_bare (className : String) : Spelled { className } := List.nodup_nil

/-- A property is set under the spelling that it has. -/
theorem Spelled.set (h : x.Spelled) (name : String) (v : Option Value) : (x.set name v).Spelled := by
  refine Entries.caseDistinct_put x.properties.ordered h v fun e he hname => ?_
  cases hspelling : x.properties.spelling? name with
  | none =>
    rw [hspelling] at hname
    have hnone := List.find?_eq_none.1 (Option.map_eq_none_iff.1 hspelling) e he
    exact absurd hname hnone
  | some spelled =>
    rw [hspelling] at hname
    obtain ⟨other, hfound, rfl⟩ := Option.map_eq_some_iff.1 hspelling
    rw [CaseDistinct.eq_of_sameName h he (List.mem_of_find?_eq_some hfound) hname]
    rfl

theorem Spelled.withProperty (h : x.Spelled) (name : String) (v : Value) :
    (x.withProperty name v).Spelled :=
  h.set name (some v)

/-- A property has the value that it was given under every spelling of its name. -/
theorem Spelled.get?_withProperty (h : x.Spelled) (v : Value) (hname : sameName name other = true) :
    (x.withProperty name v).get? other = some v := by
  have hspelled : sameName ((x.properties.spelling? name).getD name) other = true :=
    sameName_trans (x.properties.sameName_spelling name) hname
  have hfound : (x.withProperty name v).properties.find? other = some (some v) :=
    Entries.find?_eq_some_of_mem (h.withProperty name v)
      (Entries.mem_put_self _ (some v) x.properties.entries) hspelled
  rw [get?, hfound]
  rfl

end Instance

end CimConsole
