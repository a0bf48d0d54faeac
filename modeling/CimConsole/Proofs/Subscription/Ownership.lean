import CimConsole.Proofs.Server.Binding
import CimConsole.Proofs.Subscription.Links

/-!
Ownership told twice. An endpoint is owned by the name that it has as a property, a subscription
by the names that stand in the paths that it refers to. Where the name is among the keys of an
endpoint it stands in the path of the endpoint, and so in every path that equals it: a
subscription that refers to an owned endpoint is owned.
-/
namespace CimConsole

open Text

namespace Text

theorem dropStart?_eq_some_iff {start s rest : String} :
    dropStart? start s = some rest ↔ s = start ++ rest := by
  rw [dropStart?, Option.map_eq_some_iff]
  constructor
  · rintro ⟨cs, hcs, rfl⟩
    rw [after?_eq_some_iff] at hcs
    apply String.toList_injective
    simp [hcs]
  · rintro rfl
    exact ⟨rest.toList, after?_eq_some_iff.2 (by simp), by simp⟩

end Text

namespace OwnedName

variable {kind : EndpointKind} {manager name : String} {o : OwnedName}

theorem ofParts_eq_ok_iff {label : String} : ofParts kind manager label = .ok o ↔
    o.kind = kind ∧ o.manager = manager ∧ o.label = label := by
  unfold ofParts
  constructor
  · intro h
    split at h
    · split at h
      · obtain rfl := Except.ok.inj h
        exact ⟨rfl, rfl, rfl⟩
      · split at h <;> cases h
    · cases h
  · rintro ⟨rfl, rfl, rfl⟩
    rw [dif_pos o.manager_isNamePart, dif_pos o.label_isNamePart]

theorem ofName?_eq_some_iff : ofName? kind manager name = some o ↔
    o.kind = kind ∧ o.manager = manager ∧ o.name = name := by
  rw [ofName?, Option.bind_eq_some_iff]
  simp only [toOption_eq_some, dropStart?_eq_some_iff, ofParts_eq_ok_iff]
  constructor
  · rintro ⟨label, rfl, rfl, rfl, rfl⟩
    exact ⟨rfl, rfl, rfl⟩
  · rintro ⟨rfl, rfl, rfl⟩
    exact ⟨o.label, rfl, rfl, rfl, rfl⟩

end OwnedName

namespace Identity

variable {kind : EndpointKind} {manager name : String}

theorem classify_eq_owned_iff {o : OwnedName} : classify kind manager name = .owned o ↔
    o.kind = kind ∧ o.manager = manager ∧ o.name = name := by
  rw [← OwnedName.ofName?_eq_some_iff, classify]
  cases OwnedName.ofName? kind manager name <;> simp

theorem permanent_or_owned (kind : EndpointKind) (manager name : String) :
    classify kind manager name = .permanent name ∨
      ∃ o, classify kind manager name = .owned o := by
  rw [classify]
  cases OwnedName.ofName? kind manager name with
  | none => exact Or.inl rfl
  | some o => exact Or.inr ⟨o, rfl⟩

end Identity

namespace Manager

variable {mgr : Manager} {kind : EndpointKind}

/-- A manager owns the names that are made of its id and a label. -/
theorem isOwned_classify_iff {name : String} : (mgr.classify kind name).isOwned = true ↔
    ∃ o : OwnedName, o.kind = kind ∧ o.manager = mgr.id ∧ o.name = name := by
  have hisSome : (mgr.classify kind name).isOwned =
      (OwnedName.ofName? kind mgr.id name).isSome := by
    rw [classify, Identity.classify]
    cases OwnedName.ofName? kind mgr.id name <;> rfl
  rw [hisSome, Option.isSome_iff_exists]
  constructor
  · rintro ⟨o, ho⟩
    exact ⟨o, OwnedName.ofName?_eq_some_iff.1 ho⟩
  · rintro ⟨o, ho⟩
    exact ⟨o, OwnedName.ofName?_eq_some_iff.2 ho⟩

/-- What a manager owns of the endpoints. -/
theorem owns_iff {x : Instance} : mgr.owns kind x = true ↔
    ∃ o : OwnedName, o.kind = kind ∧ o.manager = mgr.id ∧ x.text? "Name" = some o.name := by
  rw [owns, Option.any_eq_true]
  constructor
  · rintro ⟨name, hname, howned⟩
    obtain ⟨o, hkind, hmanager, rfl⟩ := isOwned_classify_iff.1 howned
    exact ⟨o, hkind, hmanager, hname⟩
  · rintro ⟨o, hkind, hmanager, hname⟩
    exact ⟨o.name, hname, isOwned_classify_iff.2 ⟨o, hkind, hmanager, rfl⟩⟩

/-- What a manager owns by the name that is shown is what it owns. -/
theorem isOwned_endpointName (mgr : Manager) (kind : EndpointKind) (x : Instance) :
    (mgr.classify kind x.endpointName).isOwned = mgr.owns kind x := by
  rw [owns, Instance.endpointName]
  cases htext : x.text? "Name" with
  | some name => rfl
  | none =>
    -- the empty name does not start as owned names do
    rw [Option.getD_none, Option.any_none, Bool.eq_false_iff]
    intro howned
    obtain ⟨o, -, -, hname⟩ := isOwned_classify_iff.1 howned
    have hlength := congrArg String.length hname
    rw [OwnedName.name, ownedStart] at hlength
    simp at hlength

/-- A subscription that refers to an owned endpoint is owned, if the name of the endpoint is among
its keys and no two keys of the reference differ in letter case only. -/
theorem ownsEnd_of_refersTo {ns : Namespace} {own key : String} {e x : Instance} {p : ObjectPath}
    (howns : mgr.owns kind e = true) (hpath : e.path = some p) (hfor : ns.pathFor own e = .ok p)
    (hkey : key ∈ ns.keyNames e.className) (hname : sameName key "Name" = true)
    (hvalue : e.text? key = e.text? "Name")
    (hdistinct : ∀ r ∈ x.path? kind.role, CaseDistinct r.keys)
    (hrefers : refersTo kind e x = true) : mgr.ownsEnd kind x = true := by
  obtain ⟨name, htext, howned⟩ := (Option.any_eq_true _ _).1 howns
  have hbound : (key, .text name) ∈ p.keys := by
    obtain ⟨v, hv, hmem⟩ := Namespace.mem_of_pathFor hfor hkey
    have htext' : v.text? = some name := by rw [← htext, ← hvalue, Instance.text?, hv]; rfl
    cases v with
    | text s => rwa [Option.some.inj htext'] at hmem
    | _ => cases htext'
  unfold refersTo at hrefers
  split at hrefers
  · next r q hr hq =>
    obtain rfl : p = q := Option.some.inj (hpath.symm.trans hq)
    have hfound := ObjectPath.key?_of_same hrefers (hdistinct r hr) hbound hname
    rw [ownsEnd, hr, Option.bind_some, hfound]
    exact howned
  · cases hrefers

end Manager

end CimConsole
