import CimConsole.Proofs.Subscription.Ownership
import CimConsole.Proofs.Text.Cut

/-!
Whose an owned name is. Neither the word for a kind nor the id of a manager nor a label has a colon
in it, so the two colons of an owned name cut it into its parts again. A name is therefore owned by
one manager and in one role at most; to everyone else it is a permanent name as it stands.
-/
namespace CimConsole

open Text

theorem not_mem_of_isNamePart {s : String} (h : isNamePart s = true) : ':' ∉ s.toList := by
  rw [isNamePart, Bool.and_eq_true, Bool.not_eq_true'] at h
  simpa using h.2

namespace EndpointKind

/-- How an owned name starts, as far as its first colon. -/
def mark (kind : EndpointKind) : List Char := ("pywbem" ++ kind.text).toList

theorem not_mem_mark (kind : EndpointKind) : ':' ∉ kind.mark := by
  cases kind <;> decide

theorem mark_injective : Function.Injective mark := by
  intro kind other h
  cases kind <;> cases other <;> first | rfl | exact absurd h (by decide)

end EndpointKind

namespace OwnedName

theorem toList_name (o : OwnedName) :
    o.name.toList = o.kind.mark ++ ':' :: (o.manager.toList ++ ':' :: o.label.toList) := by
  simp [name, ownedStart, EndpointKind.mark]

/-- The first colon of an owned name stands behind the kind, and the next one behind the manager. -/
theorem cut_name (o : OwnedName) :
    cutFirst ':' o.name.toList = some (o.kind.mark, o.manager.toList ++ ':' :: o.label.toList) ∧
      cutFirst ':' (o.manager.toList ++ ':' :: o.label.toList) =
        some (o.manager.toList, o.label.toList) :=
  ⟨cutFirst_eq_some_iff.2 ⟨o.toList_name, o.kind.not_mem_mark⟩,
    cutFirst_eq_some_iff.2 ⟨rfl, not_mem_of_isNamePart o.manager_isNamePart⟩⟩

/-- No two owned names are spelled alike. -/
theorem name_injective : Function.Injective name := by
  intro o p h
  obtain ⟨hkind, hrest⟩ := o.cut_name
  obtain ⟨hkind', hrest'⟩ := p.cut_name
  rw [h, hkind', Option.some.injEq, Prod.mk.injEq] at hkind
  obtain ⟨hmark, htail⟩ := hkind
  rw [← htail, hrest', Option.some.injEq, Prod.mk.injEq] at hrest
  obtain ⟨hmanager, hlabel⟩ := hrest
  obtain ⟨kind, manager, label, hm, hl⟩ := o
  obtain rfl : p.kind = kind := EndpointKind.mark_injective hmark
  obtain rfl : p.manager = manager := String.toList_injective hmanager
  obtain rfl : p.label = label := String.toList_injective hlabel
  rfl

end OwnedName

namespace Identity

/-- Owned names tell their owner. A name that is made of a kind, an id and a label is owned by the
manager of that id in the role of that kind, with the label that it was made of, and what is taken
for an owned name is that name letter by letter. Every name has at most one owner: to all managers
but one, and to that one in the other role, it is permanent and stays as it is. -/
theorem owner_of_name :
    (∀ (kind : EndpointKind) (manager label : String) (o : OwnedName),
      OwnedName.ofParts kind manager label = .ok o →
        classify kind manager o.name = .owned o ∧ o.label = label) ∧
    (∀ (kind : EndpointKind) (manager name : String) (o : OwnedName),
      OwnedName.ofName? kind manager name = some o → o.name = name) ∧
    ∀ (kind : EndpointKind) (manager name : String),
      classify kind manager name = .permanent name ∨
        ∃ o, classify kind manager name = .owned o ∧
          ∀ (other : EndpointKind) (id : String), (other, id) ≠ (kind, manager) →
            classify other id name = .permanent name := by
  refine ⟨?made, fun kind manager name o ho => (OwnedName.ofName?_eq_some_iff.1 ho).2.2, ?unique⟩
  case made =>
    intro kind manager label o ho
    obtain ⟨hkind, hmanager, hlabel⟩ := OwnedName.ofParts_eq_ok_iff.1 ho
    exact ⟨classify_eq_owned_iff.2 ⟨hkind, hmanager, rfl⟩, hlabel⟩
  case unique =>
    intro kind manager name
    refine (permanent_or_owned kind manager name).imp_right ?_
    rintro ⟨o, ho⟩
    obtain ⟨rfl, rfl, rfl⟩ := classify_eq_owned_iff.1 ho
    refine ⟨o, ho, fun other id hother => (permanent_or_owned other id o.name).resolve_right ?_⟩
    rintro ⟨p, hp⟩
    obtain ⟨rfl, rfl, hname⟩ := classify_eq_owned_iff.1 hp
    obtain rfl := OwnedName.name_injective hname
    exact hother rfl

/-- A filter of one manager is permanent to another one, and to the manager itself as the name of a
destination. -/
theorem owner_of_name_of_filter :
    ∃ o, OwnedName.ofParts .filter "manager" "f" = .ok o ∧
      classify .filter "manager" o.name = .owned o ∧ o.name = "pywbemfilter:manager:f" ∧
      classify .filter "man" o.name = .permanent o.name ∧
      classify .destination "manager" o.name = .permanent o.name := by
  obtain ⟨o, ho⟩ : ∃ o, OwnedName.ofParts .filter "manager" "f" = .ok o := ⟨_, rfl⟩
  obtain ⟨hmade, -, hunique⟩ := owner_of_name
  obtain ⟨howned, -⟩ := hmade .filter "manager" "f" o ho
  obtain ⟨-, -, hothers⟩ := (hunique .filter "manager" o.name).resolve_left (by simp [howned])
  obtain rfl := Except.ok.inj ho
  exact ⟨_, rfl, howned, by decide, hothers .filter "man" (by decide),
    hothers .destination "manager" (by decide)⟩

end Identity

end CimConsole
