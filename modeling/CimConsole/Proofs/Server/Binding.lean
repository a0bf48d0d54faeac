import CimConsole.Proofs.Model.KeyNames
import CimConsole.Proofs.Model.Properties
import CimConsole.Proofs.Server.Inheritance

/-!
The keys of the path of an instance. They are the key properties of its class, all of them and no
others, each with the value that the instance has for it. Paths of one class have keys of the same
names, so equality of paths is symmetric where their values allow it.
-/
namespace CimConsole

open Text

namespace Namespace

variable {ns : Namespace} {own : String} {x y : Instance} {p q path : ObjectPath}

/-- Every key is bound to its value in the instance, and what was bound so stays. -/
theorem mem_of_bindKeys {className : String} {keys : List String}
    (h : bindKeys className x keys p = .ok path) :
    (∀ e ∈ p.keys, x.get? e.1 = some e.2 → e ∈ path.keys) ∧
      ∀ key ∈ keys, ∃ v, x.get? key = some v ∧ (key, v) ∈ path.keys := by
  induction keys generalizing p with
  | nil =>
    obtain rfl : p = path := Except.ok.inj h
    exact ⟨fun e he _ => he, fun key hkey => absurd hkey List.not_mem_nil⟩
  | cons key rest ih =>
    rw [bindKeys] at h
    cases hget : x.get? key with
    | none => simp [hget] at h
    | some v =>
      simp only [hget] at h
      obtain ⟨hkept, hbound⟩ := ih h
      constructor
      · intro e he hvalue
        by_cases hname : e.1 = key
        · obtain ⟨name, w⟩ := e
          subst hname
          obtain rfl : v = w := Option.some.inj (hget.symm.trans hvalue)
          exact hkept _ (Entries.mem_put_self name v p.keys) hvalue
        · exact hkept e (Entries.mem_put_of_ne he hname) hvalue
      · intro other hother
        rcases List.mem_cons.1 hother with rfl | hother
        · exact ⟨v, hget, hkept _ (Entries.mem_put_self other v p.keys) hget⟩
        · exact hbound other hother

/-- Nothing but the keys is bound. -/
theorem of_mem_bindKeys {className : String} {keys : List String}
    (h : bindKeys className x keys p = .ok path) : ∀ e ∈ path.keys, e ∈ p.keys ∨ e.1 ∈ keys := by
  induction keys generalizing p with
  | nil =>
    obtain rfl : p = path := Except.ok.inj h
    exact fun e he => Or.inl he
  | cons key rest ih =>
    rw [bindKeys] at h
    cases hget : x.get? key with
    | none => simp [hget] at h
    | some v =>
      simp only [hget] at h
      intro e he
      rcases ih h e he with hput | hrest
      · rcases Entries.mem_put hput with heq | hold
        · obtain ⟨rfl, -⟩ := Prod.mk.inj heq
          exact Or.inr List.mem_cons_self
        · exact Or.inl hold
      · exact Or.inr (List.mem_cons_of_mem _ hrest)

theorem keyNames_congr {a b : String} (h : ns.class? a = ns.class? b) :
    ns.keyNames a = ns.keyNames b := by
  rw [keyNames, keyNames, resolve?, resolve?, superclassChain, superclassChain, h]

/-- The path of an instance has all keys of its class with their values. -/
theorem mem_of_pathFor (h : ns.pathFor own x = .ok p) {key : String}
    (hkey : key ∈ ns.keyNames x.className) : ∃ v, x.get? key = some v ∧ (key, v) ∈ p.keys := by
  unfold pathFor at h
  cases hclass : ns.class? x.className with
  | none => simp [hclass] at h
  | some cls =>
    simp only [hclass] at h
    rw [keyNames_congr (hclass.trans (class?_name hclass).symm)] at hkey
    split at h
    · cases h
    · exact (mem_of_bindKeys h).2 key hkey

/-- The path of an instance has no keys but those of its class. -/
theorem of_mem_pathFor (h : ns.pathFor own x = .ok p) {e : String × Value} (he : e ∈ p.keys) :
    e.1 ∈ ns.keyNames x.className := by
  unfold pathFor at h
  cases hclass : ns.class? x.className with
  | none => simp [hclass] at h
  | some cls =>
    simp only [hclass] at h
    rw [keyNames_congr (hclass.trans (class?_name hclass).symm)]
    split at h
    · cases h
    · exact (of_mem_bindKeys h e he).resolve_left List.not_mem_nil

theorem keys_ne_nil_of_pathFor (h : ns.pathFor own x = .ok p) : p.keys ≠ [] := by
  unfold pathFor at h
  cases hclass : ns.class? x.className with
  | none => simp [hclass] at h
  | some cls =>
    simp only [hclass] at h
    split at h
    · cases h
    · next keys hkeys =>
      obtain ⟨key, hkey⟩ := List.exists_mem_of_ne_nil (ns.keyNames cls.name) hkeys
      obtain ⟨v, -, hmem⟩ := (mem_of_bindKeys h).2 key hkey
      exact List.ne_nil_of_mem hmem

/-- The keys of a class are told apart whatever their letter case: a nearer declaration stands in
the place of a farther one. -/
theorem eq_of_mem_keyNames {className k l : String} {c : ClassDecl}
    (hclass : ns.class? className = some c) (hk : k ∈ ns.keyNames className)
    (hl : l ∈ ns.keyNames className) (hname : sameName k l = true) : k = l := by
  obtain ⟨r, hr, -⟩ := exists_resolve?_elements hclass {}
  rw [keyNames, hr] at hk hl
  obtain ⟨d, hd, rfl⟩ := List.mem_map.1 hk
  obtain ⟨e, he, rfl⟩ := List.mem_map.1 hl
  exact congrArg _ (List.inj_on_of_nodup_map (nodup_properties hr) (List.mem_of_mem_filter hd)
    (List.mem_of_mem_filter he) ((sameName_iff _ _).1 hname))

theorem caseDistinct_of_pathFor (h : ns.pathFor own x = .ok p) : CaseDistinct p.keys := by
  obtain ⟨c, hclass, -, -, hordered, -⟩ := of_pathFor h
  exact Entries.caseDistinct_of_ordered hordered fun e he f hf =>
    eq_of_mem_keyNames hclass (of_mem_pathFor h he) (of_mem_pathFor h hf)

/-- If the path of an instance with flat keys equals another path in the namespace, then that one
equals it too. -/
theorem same_symm_of_flat (hp : ns.pathFor own x = .ok p) (hq : ns.pathFor own y = .ok q)
    (hflat : ∀ e ∈ p.keys, e.2.Flat) (h : p.same q = true) : q.same p = true := by
  obtain ⟨c, hc, hspace, hcname, hordered, -⟩ := of_pathFor hp
  obtain ⟨d, hd, hspace', hdname, hordered', -⟩ := of_pathFor hq
  obtain ⟨-, hname, hlength, hfound⟩ := ObjectPath.same_iff.1 h
  -- equal paths are of one class, and so their keys have the same names
  have hclass : ns.class? x.className = ns.class? y.className := by
    rw [hcname, hdname] at hname
    rw [hc, hd, ← class?_name hc, class?_congr hname, class?_name hd]
  refine ObjectPath.same_iff.2 ⟨?_, sameName_symm hname, hlength.symm, ?_⟩
  · rw [hspace, hspace']
    exact agreeingSpaces_self _
  · intro f hf
    have hkey : f.1 ∈ ns.keyNames x.className := by
      rw [keyNames_congr hclass]
      exact of_mem_pathFor hq hf
    obtain ⟨v, -, hmem⟩ := mem_of_pathFor hp hkey
    obtain ⟨w, hw, hvalue⟩ := hfound _ hmem
    have hown : q.key? f.1 = some f.2 := Entries.find?_of_mem hordered' hf
    obtain rfl : w = f.2 := Option.some.inj (hw.symm.trans hown)
    refine ⟨v, Entries.find?_of_mem hordered hmem, ?_⟩
    rw [← (hflat _ hmem).same_comm]
    exact hvalue

/-- A free path with flat keys equals no stored path: that one would equal it too. -/
theorem Keyed.apart_of_free (h : ns.Keyed own) (hp : ns.pathFor own x = .ok p)
    (hfree : ns.find? p = none) (hflat : ∀ e ∈ p.keys, e.2.Flat) :
    ∀ z ∈ ns.instances, ∀ q, z.path = some q → p.same q = false := by
  intro z hz q hq
  rw [Bool.eq_false_iff]
  intro hsame
  obtain ⟨q', hq', hfor⟩ := h.placed z hz
  obtain rfl := Option.some.inj (hq.symm.trans hq')
  have hsymm : q.same p = true := same_symm_of_flat hp hfor hflat hsame
  have hnone := List.find?_eq_none.1 hfree z hz
  rw [isAt_of_path hq, hsymm] at hnone
  exact hnone rfl

end Namespace

end CimConsole
