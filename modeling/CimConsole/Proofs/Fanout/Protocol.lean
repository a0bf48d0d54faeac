import CimConsole.Proofs.Fanout.TurnLaws

/-!
Sessions used in any way: calls come in any order and number. A history is a list of turns that
follow one another. What every turn keeps holds along a history, by induction on it, and from
that come the laws of all uses of a session.
-/
namespace CimConsole

open Text

variable {α : Type}

namespace Session

/-- The turns of calls one after another. The renderer knows all that it was ever asked. -/
def turns : (List (Sight α) → Option String) → Session α → List (SessionCall α) → List (Turn α)
  | _, _, [] => []
  | faults, s, call :: rest =>
    let t := s.turn faults call
    t :: turns (fun seen => faults (t.shown ++ seen)) t.after rest

/-- The session that turns leave. -/
def left (s : Session α) (history : List (Turn α)) : Session α :=
  history.foldl (fun _ t => t.after) s

end Session

/-- Turns that follow one another from a session on. -/
inductive History : Session α → List (Turn α) → Prop where
  | nil (s : Session α) : History s []
  | cons {t : Turn α} {rest : List (Turn α)} (h : t.Does) (hrest : History t.after rest) :
      History t.before (t :: rest)

theorem history_turns (faults : List (Sight α) → Option String) (s : Session α)
    (calls : List (SessionCall α)) : History s (s.turns faults calls) := by
  induction calls generalizing faults s with
  | nil => exact .nil s
  | cons call rest ih => exact .cons (Session.turn_does faults s call) (ih _ _)

namespace History

variable {s : Session α} {history : List (Turn α)}

/-- What every call keeps holds along the history. -/
theorem keeps (h : History s history) {I : Session α → Prop}
    (hstep : ∀ t : Turn α, t.Does → I t.before → I t.after) (hs : I s) :
    I (s.left history) ∧ ∀ t ∈ history, t.Does ∧ I t.before ∧ I t.after := by
  induction h with
  | nil => exact ⟨hs, fun _ ht => absurd ht List.not_mem_nil⟩
  | @cons t rest hdoes _ ih =>
    have hafter := hstep t hdoes hs
    obtain ⟨hleft, hall⟩ := ih hafter
    refine ⟨hleft, fun u hu => ?_⟩
    rcases List.mem_cons.1 hu with rfl | hu
    · exact ⟨hdoes, hs, hafter⟩
    · exact hall u hu

/-- What a turn establishes and every call keeps holds in all later turns. -/
theorem pairwise (h : History s history) {J : Turn α → Session α → Prop}
    (hset : ∀ t : Turn α, t.Does → J t t.after)
    (hstep : ∀ t u : Turn α, u.Does → J t u.before → J t u.after) :
    history.Pairwise fun t u => u.Does ∧ J t u.before ∧ J t u.after := by
  induction h with
  | nil => exact List.Pairwise.nil
  | @cons t rest hdoes hrest ih =>
    exact List.pairwise_cons.2 ⟨(hrest.keeps (hstep t) (hset t hdoes)).2, ih⟩

theorem opens_le (h : History s history) :
    history.countP Turn.opens ≤ if s.phase = .idle then 1 else 0 := by
  induction h with
  | nil => simp
  | @cons t rest hdoes _ ih =>
    have hone := hdoes.opens_le
    rw [List.countP_cons]
    cases hopens : t.opens <;> simp [hopens] at hone ⊢ <;> omega

theorem shown_le (h : History s history) :
    (history.flatMap Turn.shown).countP Sight.isRendered ≤ (!s.phase.isOver).toNat ∧
      (history.flatMap Turn.shown).countP Sight.isReported ≤ (!s.phase.isOver).toNat := by
  induction h with
  | nil => simp
  | @cons t rest hdoes _ ih =>
    obtain ⟨hrendered, hreported⟩ := hdoes.shown_le
    rw [List.flatMap_cons, List.countP_append, List.countP_append]
    omega

/-- A session leaves the phase that it ended in no more. -/
theorem left_phase (h : History s history) {t : Turn α} (ht : t ∈ history)
    (hover : t.after.phase.isOver = true) : (s.left history).phase = t.after.phase := by
  induction h with
  | nil => cases ht
  | @cons u rest hdoes hrest ih =>
    rcases List.mem_cons.1 ht with rfl | ht
    · refine (hrest.keeps (I := fun s => s.phase = t.after.phase) (fun u hu hs => ?_) rfl).1
      rw [(hu.over (by rw [hs, hover])).1, hs]
    · exact ih ht

/-- A slot that a turn leaves filled has its outcome behind every later turn. -/
theorem keeps_slot (h : History s history) :
    history.Pairwise fun t u => ∀ (i : Nat) (space : String) (o : Outcome α),
      t.after.slots[i]? = some (space, some o) → u.after.slots[i]? = some (space, some o) := by
  have hlater := h.pairwise (J := fun t s => ∀ (i : Nat) (space : String) (o : Outcome α),
    t.after.slots[i]? = some (space, some o) → s.slots[i]? = some (space, some o))
    (fun _ _ _ _ _ hi => hi) fun _ _ hu hs i space o hi => hu.keeps (hs i space o hi)
  exact hlater.imp fun hkept => hkept.2.2

/-- Nothing is rendered in a session that aborts or in which all fail. -/
theorem not_rendered (h : History s history) {t : Turn α} (ht : t ∈ history)
    (hphase : t.after.phase = .aborted ∨ t.after.phase = .allFailed) {sight : Sight α}
    (hsight : sight ∈ history.flatMap Turn.shown) : sight.isRendered = false := by
  obtain ⟨u, hu, hsight⟩ := List.mem_flatMap.1 hsight
  have hdoes := ((h.keeps (I := fun _ => True) (fun _ _ _ => trivial) trivial).2 u hu).1
  rw [Bool.eq_false_iff]
  intro hrendered
  -- what is rendered closes the session, and that is another end
  have hclosed := hdoes.closed_of_rendered hsight hrendered
  have hleft := h.left_phase hu (by rw [hclosed]; rfl)
  have hover : t.after.phase.isOver = true := by rcases hphase with h | h <;> rw [h] <;> rfl
  rw [h.left_phase ht hover, hclosed] at hleft
  rcases hphase with hphase | hphase
  · rw [hphase] at hleft
    cases hleft
  · rw [hphase] at hleft
    cases hleft

/-- Behind a turn that ends the session outcomes are refused and finishing does nothing. -/
theorem ended (h : History s history) :
    history.Pairwise fun t u => t.Exits → u.after = u.before ∧ u.shown = [] ∧
      (u.call.outcome?.isSome = true → u.Misused) ∧ (u.call = .finish → u.answer = .ok []) := by
  have hlater := h.pairwise (J := fun t s => t.Exits → s.phase.isOver = true)
    (fun t ht => ht.exits) fun t u hu hs hexits => by
      rw [(hu.over (hs hexits)).1]
      exact hs hexits
  refine hlater.imp fun hended hexits => ?_
  obtain ⟨hu, hs, -⟩ := hended
  obtain ⟨hafter, hshown, -, hrefused, hpassed⟩ := hu.over (hs hexits)
  exact ⟨hafter, hshown, hrefused, hpassed⟩

theorem filledWith (h : History s history) {name : String} {done : List (Outcome α)}
    (hs : Turn.FilledWith done (s.outcomesOf name)) :
    Turn.FilledWith (done ++ history.filterMap (Turn.recorded? name))
      ((s.left history).outcomesOf name) := by
  induction h generalizing done with
  | nil => rwa [List.filterMap_nil, List.append_nil]
  | @cons t rest hdoes _ ih =>
    have hrest := ih (hdoes.filledWith hs)
    rw [List.append_assoc] at hrest
    rw [List.filterMap_cons]
    cases hrecorded : t.recorded? name <;> rw [hrecorded] at hrest <;> exact hrest

end History

namespace Session

theorem map_fst_results (s : Session α) : s.results.map Prod.fst = s.spaces := by
  simp [results, spaces, Function.comp_def]

theorem failures_sublist (s : Session α) : (s.failures.map Prod.fst).Sublist s.spaces := by
  rw [failures, spaces]
  induction s.slots with
  | nil => exact List.Sublist.slnil
  | cons slot rest ih =>
    cases hf : slot.2.bind Outcome.failure? with
    | none =>
      simp only [List.filterMap_cons, hf, Option.map_none, List.map_cons]
      exact ih.cons slot.1
    | some e =>
      simp only [List.filterMap_cons, hf, Option.map_some, List.map_cons]
      exact ih.cons_cons slot.1

/-- At the start no slot of a name is filled. -/
theorem filledWith_start (objectType target : String) (spaces : List String) (name : String) :
    Turn.FilledWith [] ((start objectType target spaces : Session α).outcomesOf name) := by
  generalize hs : (start objectType target spaces : Session α) = s
  refine ⟨(s.outcomesOf name).length, ?_⟩
  rw [List.map_nil, List.nil_append]
  refine List.eq_replicate_iff.2 ⟨rfl, fun o ho => ?_⟩
  obtain ⟨slot, hslot, rfl⟩ := List.mem_map.1 ho
  have hopen := (List.mem_filter.1 hslot).1
  rw [← hs] at hopen
  obtain ⟨space, -, rfl⟩ := List.mem_map.1 hopen
  rfl

/-- The laws of a session under any calls in any order, with a renderer that may fail whenever it
is asked. It is opened at most once. Its namespaces stay, a filled slot keeps its outcome, the
outcomes of a name go to the slots of that name one after another, and the counter stays in step
with the slots and the phase. A misuse changes nothing. Each kind of thing is shown at most once,
nothing is rendered if the session aborts or all fail, and what is shown lists the slots in their
order. All have failed exactly when a recoverable failure fills the last open slot and no slot
holds anything else. After the end outcomes are refused and finishing does nothing. -/
theorem protocol_of_turns (objectType target : String) (spaces : List String)
    (faults : List (Sight α) → Option String) (calls : List (SessionCall α)) :
    let s : Session α := start objectType target spaces
    let history := s.turns faults calls
    history.countP Turn.opens ≤ 1 ∧
    (∀ t ∈ history, t.after.objectType = objectType ∧ t.after.target = target ∧
      t.after.spaces = spaces) ∧
    (history.Pairwise fun t u => ∀ (i : Nat) (space : String) (o : Outcome α),
      t.after.slots[i]? = some (space, some o) → u.after.slots[i]? = some (space, some o)) ∧
    (∀ name, ∃ k, (s.left history).outcomesOf name =
      (history.filterMap (Turn.recorded? name)).map some ++ List.replicate k none) ∧
    (∀ t ∈ history, t.after.filledSlots =
      t.after.completed + if t.after.phase = .aborted then 1 else 0) ∧
    (∀ t ∈ history, t.Misused → t.after = t.before ∧ t.shown = []) ∧
    (history.flatMap Turn.shown).countP Sight.isRendered ≤ 1 ∧
    (history.flatMap Turn.shown).countP Sight.isReported ≤ 1 ∧
    (∀ t ∈ history, t.after.phase = .aborted ∨ t.after.phase = .allFailed →
      ∀ sight ∈ history.flatMap Turn.shown, sight.isRendered = false) ∧
    (∀ t ∈ history, ∀ sight ∈ t.shown, Turn.Shows t.after sight) ∧
    (∀ t ∈ history, t.after.results.map Prod.fst = spaces ∧
      (t.after.failures.map Prod.fst).Sublist spaces) ∧
    (∀ t ∈ history, (t.before.phase ≠ .allFailed ∧ t.after.phase = .allFailed) ↔ t.FailsLast) ∧
    (∀ t ∈ history, t.FailsLast → t.shown = [.reported objectType target t.after.failures] ∧
      ((∃ space cause, t.call = .recordFailure space (.server cause) ∧
          t.answer = .error (.allFailed objectType target space cause)) ∨
        ∃ fault, t.answer = .error (.unwritten fault))) ∧
    history.Pairwise fun t u => t.Exits → u.after = u.before ∧ u.shown = [] ∧
      (u.call.outcome?.isSome = true → u.Misused) ∧ (u.call = .finish → u.answer = .ok []) := by
  intro s history
  have hhistory : History s history := history_turns faults s calls
  have hnames := (hhistory.keeps (I := fun u => u.objectType = objectType ∧ u.target = target ∧
    u.spaces = spaces) (fun t ht hs => by
      obtain ⟨hobject, htarget, hspaces⟩ := ht.names
      rw [hobject, htarget, hspaces]
      exact hs) ⟨rfl, rfl, by simp [s, start, Session.spaces, Function.comp_def]⟩).2
  have hunspoilt := (hhistory.keeps (I := Unspoilt) (fun t ht hs => ht.unspoilt hs)
    fun _ slot hslot e he => by
      obtain ⟨space, -, rfl⟩ := List.mem_map.1 hslot
      cases he).2
  have hinStep := (hhistory.keeps (I := InStep) (fun t ht hs => ht.inStep hs)
    (inStep_start objectType target spaces)).2
  refine ⟨?opened, fun t ht => (hnames t ht).2.2, ?kept, ?filled, fun t ht => (hinStep t ht).2.2,
    ?misused, ?rendered, ?reported, ?unrendered, ?shows, ?order, ?allFailed, ?answer, ?ended⟩
  case opened => exact hhistory.opens_le
  case kept => exact hhistory.keeps_slot
  case filled => exact fun name => hhistory.filledWith (filledWith_start _ _ _ _)
  case misused => exact fun t ht => (hnames t ht).1.misused
  case rendered => exact hhistory.shown_le.1
  case reported => exact hhistory.shown_le.2
  case unrendered => exact fun t ht hphase sight hsight => hhistory.not_rendered ht hphase hsight
  case shows => exact fun t ht sight hsight => (hnames t ht).1.shows hsight
  case order =>
    intro t ht
    have hspaces := (hnames t ht).2.2.2.2
    exact ⟨by rw [map_fst_results, hspaces], hspaces ▸ t.after.failures_sublist⟩
  case allFailed =>
    exact fun t ht => (hnames t ht).1.failsLast_iff (hunspoilt t ht).2.1 (hinStep t ht).2.1
  case answer =>
    intro t ht hlast
    obtain ⟨hobject, htarget, -⟩ := (hnames t ht).2.2
    have hshown := (hnames t ht).1.of_failsLast (hunspoilt t ht).2.1 (hinStep t ht).2.1 hlast
    rwa [hobject, htarget] at hshown
  case ended => exact hhistory.ended

/-- Two namespaces whose names differ in letter case only. The first outcome goes to the first of
them. A failure and a result are shown when the session is closed, two failures end it at once, and
behind the end a result is refused. -/
theorem protocol_of_two_namespaces :
    let missing : ServerError := .status .notFound "CIM_Foo"
    let s : Session Nat := start "class" "CIM_Foo" ["root/a", "ROOT/A"]
    let closed := s.turns (fun _ => none) [.begin, .recordFailure "Root/A" (.server missing),
      .record "root/a" 7, .finish, .record "root/a" 8]
    let failed := s.turns (fun _ => none) [.begin, .recordFailure "ROOT/A" (.server missing),
      .recordFailure "root/a" (.server missing), .finish, .record "root/a" 8]
    closed.map (fun t => (t.after.completed, t.after.phase)) =
      [(0, .iterating), (1, .iterating), (2, .iterating), (2, .closed), (2, .closed)] ∧
    (s.left closed).slots = [("root/a", some (.failure missing)), ("ROOT/A", some (.success 7))] ∧
    closed.flatMap Turn.shown = [.rendered "class" [("root/a", none), ("ROOT/A", some 7)],
      .reported "class" "CIM_Foo" [("root/a", missing)]] ∧
    (∃ t, closed[4]? = some t ∧ t.Misused ∧ t.after = t.before ∧ t.shown = []) ∧
    failed.map (fun t => (t.after.completed, t.after.phase)) =
      [(0, .iterating), (1, .iterating), (2, .allFailed), (2, .allFailed), (2, .allFailed)] ∧
    ∃ t, failed[2]? = some t ∧ t.FailsLast ∧
      t.shown = [.reported "class" "CIM_Foo" [("root/a", missing), ("ROOT/A", missing)]] := by
  intro missing s closed failed
  obtain ⟨-, -, -, -, -, hmisused, -⟩ := protocol_of_turns "class" "CIM_Foo" ["root/a", "ROOT/A"]
    (fun _ => none) [.begin, .recordFailure "Root/A" (.server missing), .record "root/a" 7,
      .finish, .record "root/a" 8]
  obtain ⟨-, -, -, -, -, -, -, -, -, -, -, hfails, -⟩ :=
    protocol_of_turns "class" "CIM_Foo" ["root/a", "ROOT/A"] (fun _ => none)
      [.begin, .recordFailure "ROOT/A" (.server missing),
        .recordFailure "root/a" (.server missing), .finish, .record "root/a" 8]
  refine ⟨rfl, rfl, rfl, ?refused, rfl, ?failed⟩
  case refused =>
    exact ⟨_, rfl, ⟨_, rfl⟩, hmisused _ (List.mem_of_getElem? (i := 4) rfl) ⟨_, rfl⟩⟩
  case failed =>
    exact ⟨_, rfl, (hfails _ (List.mem_of_getElem? (i := 2) rfl)).1 ⟨by nofun, rfl⟩, rfl⟩

end Session

end CimConsole
