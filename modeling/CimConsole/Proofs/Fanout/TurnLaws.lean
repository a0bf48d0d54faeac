import CimConsole.Proofs.Fanout.Turn

/-!
What one turn does to what a session holds. What is filled stays filled, what has ended stays
ended, a session is shown only as it ends, and outcomes fill the slots of their name from the
first on. The counter is not told what the slots hold. It stays in step with them because every
call that fills a slot raises it, but for the one that aborts the session; so it is at the number
of the namespaces just when the last open slot is filled.
-/
namespace CimConsole

open Text

variable {α : Type}

namespace Session

variable {s : Session α} {space : String} {outcome : Outcome α}
  {slots : List (String × Option (Outcome α))}

/-- Sessions before their end have no slot with a fatal error. -/
def Unspoilt (s : Session α) : Prop :=
  s.phase.isOver = false → ∀ slot ∈ s.slots, ∀ e, slot.2 ≠ some (.fatal e)

/-- The counter is the number of filled slots. Only the outcome that aborts is filled in and not
counted. -/
def InStep (s : Session α) : Prop :=
  s.filledSlots = s.completed + if s.phase = .aborted then 1 else 0

theorem inStep_start (objectType target : String) (spaces : List String) :
    (start objectType target spaces : Session α).InStep :=
  filledSlots_reached objectType target [] spaces

theorem inStep_iff (hphase : s.phase ≠ .aborted) : s.InStep ↔ s.filledSlots = s.completed := by
  rw [InStep, if_neg hphase, Nat.add_zero]

theorem filledSlots_add_openSlots (s : Session α) :
    s.filledSlots + s.openSlots = s.slots.length := by
  have hopen : ∀ slot : String × Option (Outcome α),
      (¬ slot.2.isSome = true) ↔ slot.2.isNone = true := by simp
  simp only [filledSlots, openSlots, hopen, Bool.decide_eq_true,
    List.length_eq_countP_add_countP fun slot : String × Option (Outcome α) => slot.2.isSome]

/-- Filling a slot takes it from the open ones to the filled ones. -/
theorem countP_fill (hfill : fill space outcome s.slots = some slots) :
    slots.length = s.slots.length ∧
      (slots.countP fun slot => slot.2.isSome) = s.filledSlots + 1 ∧
      (slots.countP fun slot => slot.2.isNone) + 1 = s.openSlots := by
  obtain ⟨before, name, after, hslots, -, -, rfl⟩ := fill_eq_some hfill
  rw [filledSlots, openSlots, hslots]
  refine ⟨by simp, ?_, ?_⟩
  · simp [Nat.add_assoc]
  · simp [Nat.add_assoc]

/-- In a session that goes on the counter, once raised, counts the slot that was just filled. -/
theorem InStep.countP_fill (hs : s.InStep) (hphase : s.phase = .iterating)
    (hfill : fill space outcome s.slots = some slots) :
    (slots.countP fun slot => slot.2.isSome) = s.completed + 1 := by
  rw [(Session.countP_fill hfill).2.1, (inStep_iff (by simp [hphase])).1 hs]

/-- The raised counter is at the number of the namespaces just when the slot was the last open
one. -/
theorem InStep.count_iff (hs : s.InStep) (hphase : s.phase = .iterating)
    (hfill : fill space outcome s.slots = some slots) :
    s.completed + 1 = slots.length ↔ s.openSlots = 1 := by
  obtain ⟨hlength, -, -⟩ := Session.countP_fill hfill
  have hcount := (inStep_iff (by simp [hphase])).1 hs
  have hall := s.filledSlots_add_openSlots
  omega

/-- An outcome other than a fatal error puts no fatal error into the slots. -/
theorem not_fatal_of_fill {slots' : List (String × Option (Outcome α))}
    (hfill : fill space outcome slots = some slots')
    (hslots : ∀ slot ∈ slots, ∀ e, slot.2 ≠ some (.fatal e)) (hfatal : ∀ e, outcome ≠ .fatal e) :
    ∀ slot ∈ slots', ∀ e, slot.2 ≠ some (.fatal e) := by
  intro slot hslot e he
  obtain ⟨before, name, after, rfl, -, -, rfl⟩ := fill_eq_some hfill
  rcases List.mem_append.1 hslot with hslot | hslot
  · exact hslots slot (List.mem_append_left _ hslot) e he
  · rcases List.mem_cons.1 hslot with rfl | hslot
    · exact hfatal e (Option.some.inj he)
    · exact hslots slot (List.mem_append_right _ (List.mem_cons_of_mem _ hslot)) e he

end Session

namespace Turn

variable {t : Turn α}

theorem not_misused_of_unwritten {answer : Except SessionError (List String)}
    {objectType target space : String} {cause : ServerError}
    (h : answer = .error (.allFailed objectType target space cause) ∨
      ∃ fault, answer = .error (.unwritten fault)) (text : String) :
    answer ≠ .error (.misuse text) := by
  rcases h with rfl | ⟨fault, rfl⟩
  · nofun
  · nofun

theorem Does.misused (h : t.Does) (hmisused : t.Misused) : t.after = t.before ∧ t.shown = [] := by
  obtain ⟨text, htext⟩ := hmisused
  cases h with
  | refused | passed => exact ⟨rfl, rfl⟩
  | opened | kept | aborted => cases htext
  | failedInAll _ _ _ _ _ _ hanswer => exact absurd htext (not_misused_of_unwritten hanswer text)
  | closed _ _ _ hanswer =>
    rcases hanswer with hanswer | ⟨fault, hanswer⟩
    · exact absurd (hanswer.symm.trans htext) (by nofun)
    · exact absurd (hanswer.symm.trans htext) (by nofun)

/-- A session that has ended refuses outcomes, lets finishing pass and stays as it is. -/
theorem Does.over (h : t.Does) (hover : t.before.phase.isOver = true) :
    t.after = t.before ∧ t.shown = [] ∧ t.opens = false ∧
      (t.call.outcome?.isSome = true → t.Misused) ∧ (t.call = .finish → t.answer = .ok []) := by
  cases h with
  | refused hcall => exact ⟨rfl, rfl, by cases ‹SessionCall α› <;> rfl, fun _ => ⟨_, rfl⟩,
      fun hfinish => absurd hfinish hcall⟩
  | passed => exact ⟨rfl, rfl, rfl, by nofun, fun _ => rfl⟩
  | opened hphase | kept _ hphase | aborted hphase | failedInAll hphase =>
    rw [hphase] at hover
    cases hover
  | closed hphase =>
    rw [hphase] at hover
    cases hover

theorem Does.exits (h : t.Does) (hexits : t.Exits) : t.after.phase.isOver = true := by
  rcases hexits with hcall | hphase | hphase
  · cases h with
    | refused hne => exact absurd hcall hne
    | opened | aborted | failedInAll => cases hcall
    | kept houtcome =>
      obtain rfl := hcall
      cases houtcome
    | closed _ ht =>
      rw [ht]
      rfl
    | passed hover => exact hover
  · rw [hphase]
    rfl
  · rw [hphase]
    rfl

/-- Calls change neither what a session is about nor its namespaces. -/
theorem Does.names (h : t.Does) :
    t.after.objectType = t.before.objectType ∧ t.after.target = t.before.target ∧
      t.after.spaces = t.before.spaces := by
  have hspaces : ∀ {space : String} {outcome : Outcome α} {slots slots'},
      Session.fill space outcome slots = some slots' →
        slots'.map Prod.fst = slots.map Prod.fst := by
    intro space outcome slots slots' hfill
    obtain ⟨before, name, after, rfl, -, -, rfl⟩ := Session.fill_eq_some hfill
    simp
  cases h with
  | refused | opened | passed => exact ⟨rfl, rfl, rfl⟩
  | kept _ _ hfill | aborted _ _ hfill => exact ⟨rfl, rfl, hspaces hfill⟩
  | failedInAll _ _ hfill ht =>
    obtain rfl := ht
    exact ⟨rfl, rfl, hspaces hfill⟩
  | closed _ ht =>
    obtain rfl := ht
    exact ⟨rfl, rfl, rfl⟩

/-- A filled slot keeps its outcome. -/
theorem Does.keeps (h : t.Does) {i : Nat} {space : String} {o : Outcome α}
    (hi : t.before.slots[i]? = some (space, some o)) :
    t.after.slots[i]? = some (space, some o) := by
  have hfilled : ∀ {name : String} {outcome : Outcome α} {slots slots'},
      Session.fill name outcome slots = some slots' → slots[i]? = some (space, some o) →
        slots'[i]? = some (space, some o) := by
    intro name outcome slots slots' hfill hi
    obtain ⟨before, name', after, rfl, -, -, rfl⟩ := Session.fill_eq_some hfill
    rcases Nat.lt_trichotomy i before.length with hlt | heq | hgt
    · rw [List.getElem?_append_left hlt] at hi ⊢
      exact hi
    · rw [heq, List.getElem?_append_right (Nat.le_refl _), Nat.sub_self] at hi
      cases hi
    · obtain ⟨j, hj⟩ : ∃ j, i - before.length = j + 1 := ⟨i - before.length - 1, by omega⟩
      rw [List.getElem?_append_right (by omega), hj] at hi ⊢
      exact hi
  cases h with
  | refused | opened | passed => exact hi
  | kept _ _ hfill | aborted _ _ hfill => exact hfilled hfill hi
  | failedInAll _ _ hfill ht =>
    obtain rfl := ht
    exact hfilled hfill hi
  | closed _ ht =>
    obtain rfl := ht
    exact hi

theorem Does.unspoilt (h : t.Does) (hs : t.before.Unspoilt) : t.after.Unspoilt := by
  cases h with
  | refused => exact hs
  | passed => exact hs
  | opened hphase =>
    refine fun _ => hs ?_
    rw [hphase]
    rfl
  | kept _ hphase hfill hfatal =>
    exact fun _ => Session.not_fatal_of_fill hfill (hs (by rw [hphase]; rfl)) hfatal
  | aborted => exact nofun
  | failedInAll _ _ _ ht =>
    obtain rfl := ht
    exact nofun
  | closed _ ht =>
    obtain rfl := ht
    exact nofun

theorem Does.inStep (h : t.Does) (hs : t.before.InStep) : t.after.InStep := by
  cases h with
  | refused | passed => exact hs
  | opened hphase =>
    have hcount := (Session.inStep_iff (by simp [hphase])).1 hs
    exact (Session.inStep_iff (by nofun)).2 hcount
  | kept _ hphase hfill =>
    exact (Session.inStep_iff (by simp [hphase])).2 (hs.countP_fill hphase hfill)
  | aborted hphase _ hfill =>
    -- the slot is filled and the counter stays, but the session is left aborted
    exact hs.countP_fill hphase hfill
  | failedInAll hphase _ hfill ht =>
    subst ht
    exact (Session.inStep_iff (by nofun)).2 (hs.countP_fill hphase hfill)
  | @closed s t answer reports hover ht =>
    have hphase : s.phase ≠ .aborted := by
      intro heq
      rw [heq] at hover
      cases hover
    have hcount := (Session.inStep_iff hphase).1 hs
    subst ht
    exact (Session.inStep_iff (by nofun)).2 hcount

/-- Opening takes a session out of the only phase that it can be opened in. -/
theorem Does.opens_le (h : t.Does) :
    t.opens.toNat + (if t.after.phase = .idle then 1 else 0) ≤
      if t.before.phase = .idle then 1 else 0 := by
  cases h with
  | refused => cases ‹SessionCall α› <;> simp [opens]
  | opened hphase => simp [opens, hphase]
  | @kept call s space outcome slots hcall hphase =>
    have hopens : opens ⟨call, s, .ok [], [],
        { s with slots, completed := s.completed + 1 }⟩ = false := by
      cases call with
      | begin => cases hcall
      | record | recordFailure | finish => rfl
    rw [hopens]
    simp [hphase]
  | aborted => simp [opens]
  | failedInAll _ _ _ ht => simp [opens, ht]
  | closed _ ht => simp [opens, ht]
  | passed => simp [opens]

/-- What is shown ends the session, and one call shows each kind of thing at most once. -/
theorem Does.shown_le (h : t.Does) :
    t.shown.countP Sight.isRendered + (!t.after.phase.isOver).toNat ≤
        (!t.before.phase.isOver).toNat ∧
      t.shown.countP Sight.isReported + (!t.after.phase.isOver).toNat ≤
        (!t.before.phase.isOver).toNat := by
  cases h with
  | refused | passed => simp
  | opened hphase | kept _ hphase | aborted hphase => simp [hphase]
  | failedInAll hphase _ _ ht => simp [ht, hphase, Sight.isRendered, Sight.isReported]
  | closed hphase ht hreports =>
    rcases hreports with rfl | rfl
    · simp [ht, hphase, Sight.isRendered, Sight.isReported]
    · simp [ht, hphase, Sight.isRendered, Sight.isReported, List.countP_cons]

theorem Does.closed_of_rendered (h : t.Does) {sight : Sight α} (hsight : sight ∈ t.shown)
    (hrendered : sight.isRendered = true) : t.after.phase = .closed := by
  cases h with
  | refused | opened | kept | aborted | passed => cases hsight
  | failedInAll =>
    obtain rfl := List.mem_singleton.1 hsight
    cases hrendered
  | closed _ ht =>
    rw [ht]

theorem Does.shows (h : t.Does) {sight : Sight α} (hsight : sight ∈ t.shown) :
    Shows t.after sight := by
  cases h with
  | refused | opened | kept | aborted | passed => cases hsight
  | failedInAll =>
    obtain rfl := List.mem_singleton.1 hsight
    exact ⟨rfl, rfl, rfl⟩
  | closed _ _ hreports =>
    rcases List.mem_cons.1 hsight with rfl | hsight
    · exact ⟨rfl, rfl⟩
    rcases hreports with rfl | rfl
    · cases hsight
    · obtain rfl := List.mem_singleton.1 hsight
      exact ⟨rfl, rfl, rfl⟩

theorem openSlots_eq_zero {s : Session α} (h : ∀ slot ∈ s.slots, ∃ e, slot.2 = some (.failure e)) :
    s.openSlots = 0 := by
  rw [Session.openSlots, List.countP_eq_zero]
  intro slot hslot
  obtain ⟨e, he⟩ := h slot hslot
  simp [he]

/-- A session comes to its end with failures only exactly when the last of them is recorded. -/
theorem Does.failsLast_iff (h : t.Does) (hs : t.before.Unspoilt) (hstep : t.before.InStep) :
    (t.before.phase ≠ .allFailed ∧ t.after.phase = .allFailed) ↔ t.FailsLast := by
  constructor
  · rintro ⟨hbefore, hafter⟩
    cases h with
    | refused | passed => exact absurd hafter hbefore
    | opened | aborted => cases hafter
    | kept _ hphase =>
      rw [hphase] at hafter
      cases hafter
    | closed _ ht =>
      rw [ht] at hafter
      cases hafter
    | @failedInAll s t space cause slots answer hphase hcause hfill ht hcount hnone =>
      subst ht
      have hopen : s.openSlots = 1 := (hstep.count_iff hphase hfill).1 hcount
      refine ⟨space, cause, rfl, hcause, hopen, fun slot hslot => ?_⟩
      have hfilled : (slots.countP fun slot => slot.2.isNone) = 0 := by
        have := (Session.countP_fill hfill).2.2
        omega
      have hfatal := Session.not_fatal_of_fill hfill (hs (by rw [hphase]; rfl)) (by nofun)
      -- the slot is filled, with no result and no fatal error
      obtain ⟨name, held⟩ := slot
      cases held with
      | none => exact absurd rfl (List.countP_eq_zero.1 hfilled _ hslot)
      | some o =>
        cases o with
        | success payload => exact absurd rfl (hnone _ hslot payload)
        | failure e => exact ⟨e, rfl⟩
        | fatal e => exact absurd rfl (hfatal _ hslot e)
  · rintro ⟨space, cause, hcall, hcause, hopen, hall⟩
    cases h with
    | refused | passed =>
      rw [openSlots_eq_zero hall] at hopen
      cases hopen
    | opened | closed => cases hcall
    | kept houtcome hphase hfill _ hgo =>
      -- the counter tells that the last slot was filled, so a result is among the slots
      obtain rfl := hcall
      rw [SessionCall.outcome?, Session.ofResult_recoverable hcause] at houtcome
      obtain ⟨-, rfl⟩ := Prod.mk.inj (Option.some.inj houtcome)
      obtain ⟨slot, hslot, payload, hpayload⟩ :=
        hgo cause rfl ((hstep.count_iff hphase hfill).2 hopen)
      obtain ⟨e, he⟩ := hall slot hslot
      rw [hpayload] at he
      cases he
    | aborted _ hfatal =>
      obtain ⟨rfl, rfl⟩ := SessionCall.recordFailure.inj hcall
      rw [OperationError.isRecoverable, hcause] at hfatal
      cases hfatal
    | failedInAll hphase _ _ ht =>
      rw [hphase, ht]
      exact ⟨(fun heq => by cases heq), rfl⟩

/-- Then all failures are reported, and the last one is raised unless the report fails. -/
theorem Does.of_failsLast (h : t.Does) (hs : t.before.Unspoilt) (hstep : t.before.InStep)
    (hlast : t.FailsLast) :
    t.shown = [.reported t.after.objectType t.after.target t.after.failures] ∧
      ((∃ space cause, t.call = .recordFailure space (.server cause) ∧
          t.answer = .error (.allFailed t.after.objectType t.after.target space cause)) ∨
        ∃ fault, t.answer = .error (.unwritten fault)) := by
  obtain ⟨hbefore, hafter⟩ := (h.failsLast_iff hs hstep).2 hlast
  cases h with
  | refused | passed => exact absurd hafter hbefore
  | opened | aborted => cases hafter
  | kept _ hphase =>
    rw [hphase] at hafter
    cases hafter
  | closed _ ht =>
    rw [ht] at hafter
    cases hafter
  | failedInAll _ _ _ ht _ _ hanswer =>
    subst ht
    exact ⟨rfl, hanswer.imp_left fun heq => ⟨_, _, rfl, heq⟩⟩

/-- Outcomes fill the slots of a name from the first on. -/
def FilledWith (done : List (Outcome α)) (held : List (Option (Outcome α))) : Prop :=
  ∃ k, held = done.map some ++ List.replicate k none

/-- The first open slot of a name is the one behind the outcomes so far. -/
theorem filledWith_concat {done : List (Outcome α)} {before after : List (Option (Outcome α))}
    (hbefore : none ∉ before) (h : FilledWith done (before ++ none :: after))
    (outcome : Outcome α) : FilledWith (done ++ [outcome]) (before ++ some outcome :: after) := by
  obtain ⟨k, hk⟩ := h
  induction done generalizing before with
  | nil =>
    cases before with
    | cons o before =>
      cases k with
      | zero => cases hk
      | succ k =>
        obtain ⟨rfl, -⟩ := List.cons.inj hk
        exact absurd List.mem_cons_self hbefore
    | nil =>
      cases k with
      | zero => cases hk
      | succ k => exact ⟨k, congrArg (some outcome :: ·) (List.cons.inj hk).2⟩
  | cons d done ih =>
    cases before with
    | nil => cases (List.cons.inj hk).1
    | cons o before =>
      obtain ⟨rfl, hrest⟩ := List.cons.inj hk
      obtain ⟨k', hk'⟩ := ih (fun hmem => hbefore (List.mem_cons_of_mem _ hmem)) hrest
      exact ⟨k', congrArg (some d :: ·) hk'⟩

theorem filledWith_fill {s t : Session α} {space name : String} {outcome : Outcome α}
    {done : List (Outcome α)} (hfill : Session.fill space outcome s.slots = some t.slots)
    (h : FilledWith done (s.outcomesOf name)) :
    FilledWith (done ++ (if sameName space name then [outcome] else [])) (t.outcomesOf name) := by
  obtain ⟨before, own, after, hs, hown, hbefore, ht⟩ := Session.fill_eq_some hfill
  rw [Session.outcomesOf, hs, List.filter_append, List.filter_cons] at h
  rw [Session.outcomesOf, ht, List.filter_append, List.filter_cons]
  cases hname : sameName space name with
  | true =>
    have hslot : sameName own name = true := sameName_trans hown hname
    simp only [hslot, if_true, List.map_append, List.map_cons] at h ⊢
    refine filledWith_concat (fun hmem => ?_) h outcome
    obtain ⟨slot, hslot, hopen⟩ := List.mem_map.1 hmem
    obtain ⟨hslot, hsame⟩ := List.mem_filter.1 hslot
    have hnot := hbefore slot hslot hopen
    rw [sameName_trans hsame (sameName_symm hname)] at hnot
    cases hnot
  | false =>
    have hslot : sameName own name = false := by
      rw [Bool.eq_false_iff] at hname ⊢
      exact fun hsame => hname (sameName_trans (sameName_symm hown) hsame)
    simp only [hslot, Bool.false_eq_true, if_false, List.append_nil] at h ⊢
    exact h

/-- An outcome that is recorded goes to the next slot of its name. -/
theorem Does.filledWith (h : t.Does) {name : String} {done : List (Outcome α)}
    (hbefore : FilledWith done (t.before.outcomesOf name)) :
    FilledWith (done ++ (t.recorded? name).toList) (t.after.outcomesOf name) := by
  have hnone : FilledWith (done ++ []) (t.before.outcomesOf name) := by rwa [List.append_nil]
  have hone : ∀ {space : String} {outcome : Outcome α} {s : Session α},
      Session.fill space outcome t.before.slots = some s.slots →
      t.recorded? name = ((some (space, outcome)).filter fun o => sameName o.1 name).map (·.2) →
        FilledWith (done ++ (t.recorded? name).toList) (s.outcomesOf name) := by
    intro space outcome s hfill hrecorded
    have hlist : (t.recorded? name).toList = if sameName space name then [outcome] else [] := by
      rw [hrecorded]
      cases hname : sameName space name <;> simp [Option.filter, hname]
    rw [hlist]
    exact filledWith_fill hfill hbefore
  cases h with
  | refused | opened | passed => exact hnone
  | kept hcall _ hfill => exact hone hfill (by rw [recorded?, hcall])
  | @aborted s space e slots _ hfatal hfill =>
    refine hone hfill ?_
    rcases Session.ofResult_error (α := α) e with ⟨-, ho⟩ | ⟨cause, rfl, hcause, -⟩
    · rw [recorded?, SessionCall.outcome?, ho]
    · rw [OperationError.isRecoverable, hcause] at hfatal
      cases hfatal
  | @failedInAll s u space cause slots answer _ hcause hfill ht _ _ hanswer =>
    subst ht
    refine hone hfill ?_
    rcases hanswer with rfl | ⟨fault, rfl⟩
    · rw [recorded?, SessionCall.outcome?, Session.ofResult_recoverable hcause]
    · rw [recorded?, SessionCall.outcome?, Session.ofResult_recoverable hcause]
  | closed _ ht _ hanswer =>
    subst ht
    rcases hanswer with rfl | ⟨fault, rfl⟩
    · exact hnone
    · exact hnone

end Turn

end CimConsole
