import CimConsole.Proofs.Subscription.Additions

/-!
From a listing back to what was listed. The identity that a listing shows for an endpoint means
that endpoint again if the manager owns it: the label alone does not start as owned names do, and
the search puts the start in front of it. It means a permanent endpoint again if the name does not
start as the owned names of the manager do. A name that starts so and is still not owned, having
no label or a colon in it, is not found, since such an identity is looked up as an owned name only.
-/
namespace CimConsole

open Text

namespace Identity

variable {kind : EndpointKind} {manager name : String}

theorem ofName?_of_classify {o : OwnedName} (h : classify kind manager name = .owned o) :
    OwnedName.ofName? kind manager name = some o :=
  OwnedName.ofName?_eq_some_iff.2 (classify_eq_owned_iff.1 h)

theorem eq_of_classify_permanent {shown : String}
    (h : classify kind manager name = .permanent shown) : shown = name := by
  rcases permanent_or_owned kind manager name with hname | ⟨o, howned⟩
  · exact Identity.permanent.inj (h.symm.trans hname)
  · rw [h] at howned
    cases howned

end Identity

namespace Manager

variable {mgr : Manager} {kind : EndpointKind} {identity : String} {all : List Instance}
  {x : Instance}

/-- An identity that does not start as owned names do means the endpoints that have it as their
name or as their label. -/
theorem mem_matching_iff (h : dropStart? (ownedStart kind mgr.id) identity = none) :
    x ∈ mgr.matching kind identity all ↔
      x ∈ all ∧ (x.endpointName = identity ∨
        x.endpointName = ownedStart kind mgr.id ++ identity) := by
  simp only [matching, h, Option.isSome_none, Bool.false_eq_true, if_false]
  have hperm := List.filter_append_perm (mgr.owns kind)
    (all.filter fun x => x.endpointName == identity ||
      x.endpointName == ownedStart kind mgr.id ++ identity)
  rw [(List.perm_append_comm.trans hperm).mem_iff, List.mem_filter, Bool.or_eq_true, beq_iff_eq,
    beq_iff_eq]

/-- An identity that starts as owned names do means the owned endpoints with that name. -/
theorem mem_matching_reserved_iff {rest : String}
    (h : dropStart? (ownedStart kind mgr.id) identity = some rest) :
    x ∈ mgr.matching kind identity all ↔
      x ∈ all ∧ x.endpointName = identity ∧ mgr.owns kind x = true := by
  simp only [matching, h, Option.isSome_some, if_true]
  rw [List.mem_filter, Bool.and_eq_true, beq_iff_eq]

/-- The label of an owned name means the endpoints with that name, besides others. -/
theorem mem_matching_label {o : OwnedName} (hkind : o.kind = kind) (hmanager : o.manager = mgr.id)
    (hx : x ∈ all) (hname : x.endpointName = o.name) :
    x ∈ mgr.matching kind o.label all := by
  rw [mem_matching_iff (dropStart?_of_isNamePart o.label_isNamePart)]
  refine ⟨hx, Or.inr ?_⟩
  rw [hname, OwnedName.name, hkind, hmanager]

/-- A permanent name means the endpoints with that name unless it starts as owned names do; then
it means none that is not owned. -/
theorem mem_matching_permanent_iff (hx : x ∈ all) (howned : mgr.owns kind x = false) :
    x ∈ mgr.matching kind x.endpointName all ↔
      dropStart? (ownedStart kind mgr.id) x.endpointName = none := by
  cases hstart : dropStart? (ownedStart kind mgr.id) x.endpointName with
  | none =>
    rw [mem_matching_iff hstart]
    exact iff_of_true ⟨hx, Or.inl rfl⟩ rfl
  | some rest =>
    rw [mem_matching_reserved_iff hstart, howned]
    simp

/-- Where a listing leads. On every server, for every manager and kind, the identity that is shown
for a listed endpoint can be looked up, and what is found contains that endpoint if and only if
the manager owns it or its name does not start as the owned names of the manager do. -/
theorem listed_found_iff {s : Server} {listed : List EndpointListing}
    (h : mgr.listEndpoints s kind = .ok listed) :
    ∀ e ∈ listed, ∃ found, mgr.findByIdentity s kind e.identity = .ok found ∧
      (e.stored ∈ found ↔ e.owned = true ∨
        dropStart? (ownedStart kind mgr.id) e.stored.endpointName = none) := by
  obtain ⟨subscriptions, -, h⟩ := bind_eq_ok.1 h
  obtain ⟨all, hall, h⟩ := bind_eq_ok.1 h
  obtain rfl := Except.ok.inj h
  intro e he
  obtain ⟨x, hx, rfl⟩ := List.mem_map.1 he
  refine ⟨_, by rw [findByIdentity, hall]; rfl, ?_⟩
  dsimp only
  cases hidentity : mgr.classify kind x.endpointName with
  | owned o =>
    have howned : OwnedName.ofName? kind mgr.id x.endpointName = some o :=
      Identity.ofName?_of_classify hidentity
    obtain ⟨hkind, hmanager, hname⟩ := OwnedName.ofName?_eq_some_iff.1 howned
    exact iff_of_true (mem_matching_label hkind hmanager hx hname.symm) (Or.inl rfl)
  | permanent name =>
    obtain rfl : name = x.endpointName := Identity.eq_of_classify_permanent hidentity
    have howned : mgr.owns kind x = false := by
      rw [← isOwned_endpointName, hidentity]
      rfl
    rw [Identity.typed, mem_matching_permanent_iff hx howned]
    simp [Identity.isOwned]

end Manager

namespace Server

/-- A permanent filter and an owned one are listed and found again. -/
theorem listed_found_after_addFilter :
    ∃ s, (indicationRepository (.text "host")).server none "mock" = .ok s ∧
      let t := s.afterSteps ()
        [⟨"manager", fun _ _ => pure none, .addFilter "g" ⟨"", "WQL", []⟩ true⟩]
      let mgr : Manager := ⟨"manager", "interop", "mock"⟩
      ∃ listed, mgr.listEndpoints t .filter = .ok listed ∧
        listed.map EndpointListing.identity = ["f", "g"] ∧
        ∀ e ∈ listed, ∃ found, mgr.findByIdentity t .filter e.identity = .ok found ∧
          e.stored ∈ found := by
  have hrepository : ∃ s, (indicationRepository (.text "host")).server none "mock" = .ok s ∧
      ((Manager.mk "manager" "interop" "mock").listEndpoints (s.afterSteps ()
        [⟨"manager", fun _ _ => pure none, .addFilter "g" ⟨"", "WQL", []⟩ true⟩])
          .filter).toOption.any fun listed =>
        decide (listed.map EndpointListing.identity = ["f", "g"] ∧ ∀ e ∈ listed,
          e.owned = true ∨ dropStart? (ownedStart .filter "manager") e.stored.endpointName = none) :=
    exists_ok_of_any (by decide +kernel)
  obtain ⟨s, hload, hlisted⟩ := hrepository
  obtain ⟨listed, hlisted, hidentities, hnames⟩ := exists_ok_of_any hlisted
  refine ⟨s, hload, listed, hlisted, hidentities, fun e he => ?_⟩
  obtain ⟨found, hfound, hmem⟩ := Manager.listed_found_iff hlisted e he
  exact ⟨found, hfound, hmem.2 (hnames e he)⟩

/-- A manager adds a permanent filter whose name starts as the owned names of another manager do.
The other manager lists it as permanent and finds nothing under the identity that is shown. -/
theorem listed_not_found_after_addFilter :
    ∃ s, (indicationRepository (.text "host")).server none "mock" = .ok s ∧
      let t := s.afterSteps ()
        [⟨"other", fun _ _ => pure none, .addFilter "pywbemfilter:manager:" ⟨"", "WQL", []⟩ false⟩]
      let mgr : Manager := ⟨"manager", "interop", "mock"⟩
      (t.attach "manager").toOption = some mgr ∧
      ∃ listed, mgr.listEndpoints t .filter = .ok listed ∧
        ∃ e ∈ listed, e.identity = "pywbemfilter:manager:" ∧ e.owned = false ∧
          (mgr.findByIdentity t .filter e.identity).toOption.map List.length = some 0 := by
  have hrepository : ∃ s, (indicationRepository (.text "host")).server none "mock" = .ok s ∧
      let t := s.afterSteps ()
        [⟨"other", fun _ _ => pure none, .addFilter "pywbemfilter:manager:" ⟨"", "WQL", []⟩ false⟩]
      let mgr : Manager := ⟨"manager", "interop", "mock"⟩
      (t.attach "manager").toOption = some mgr ∧
      (mgr.listEndpoints t .filter).toOption.any fun listed => decide (
        ∃ e ∈ listed, e.identity = "pywbemfilter:manager:" ∧ e.owned = false ∧
          (mgr.findByIdentity t .filter e.identity).toOption.map List.length = some 0) :=
    exists_ok_of_any (by decide +kernel)
  obtain ⟨s, hload, hattach, hlisted⟩ := hrepository
  exact ⟨s, hload, hattach, exists_ok_of_any hlisted⟩

end Server

end CimConsole
