import CimConsole.Fanout.Session

/-!
A session run from start to end. The run is watched from outside: which namespaces the
operation is called on and what the renderer is asked to show, in this order. While it
goes on, the outcomes so far fill the first slots, the others are open and the counter is
at the number of the filled ones. So the outcome of a call lands in its own slot although
slots are found by name, and the counter tells when the last slot is filled. A run then
ends in one of three ways, told apart by the results of the operation alone.
-/
namespace CimConsole

open Text

/-- What can be seen of a run. -/
inductive Sight (α : Type) where
  | called (space : String)
  | rendered (objectType : String) (results : List (String × Option α))
  | reported (objectType target : String) (failures : List (String × ServerError))

namespace Sight

variable {α : Type}

def isCall : Sight α → Bool
  | .called _ => true
  | _ => false

/-- A renderer that can always write, and leaves what it is asked to show. -/
def renderer : Renderer (StateM (List (Sight α))) α where
  render objectType results := do
    modify (· ++ [.rendered objectType results])
    pure (.ok ())
  report objectType target failures := do
    modify (· ++ [.reported objectType target failures])
    pure (.ok ())

/-- An operation whose calls give the answers one after another. -/
def operation (answers : Nat → Except OperationError α) (space : String) :
    StateM (List (Sight α)) (Except OperationError α) := do
  let seen ← get
  set (seen ++ [.called space])
  pure (answers (seen.countP isCall))

end Sight

/-- Whether an operation failed in a way that ends the session. -/
def isFatal {α : Type} : Except OperationError α → Bool
  | .ok _ => false
  | .error e => !e.isRecoverable

/-- The failures that a session reports. -/
def recoverable? {α : Type} : Except OperationError α → Option ServerError
  | .error (.server e) => if e.isRecoverable then some e else none
  | _ => none

namespace Session

variable {α : Type} {objectType target : String} {answers : Nat → Except OperationError α}

/-- Namespaces with the answers that they get, from the `i`-th answer on. -/
def answered (answers : Nat → Except OperationError α) (i : Nat) (spaces : List String) :
    List (String × Except OperationError α) :=
  (spaces.zipIdx i).map fun e => (e.1, answers e.2)

/-- The results in order, none where the operation failed. -/
def payloads (entries : List (String × Except OperationError α)) : List (String × Option α) :=
  entries.map fun e => (e.1, e.2.toOption)

def recoverables (entries : List (String × Except OperationError α)) :
    List (String × ServerError) :=
  entries.filterMap fun e => (recoverable? e.2).map fun cause => (e.1, cause)

def filledSlots (s : Session α) : Nat := s.slots.countP fun slot => slot.2.isSome

/-- The session after some outcomes, with other namespaces still open. -/
def reached (objectType target : String) (done : List (String × Except OperationError α))
    (left : List String) : Session α where
  objectType
  target
  slots := (done.map fun e => (e.1, some (Outcome.ofResult e.2))) ++ left.map fun s => (s, none)
  completed := done.length
  phase := .iterating

/-- A run from start to end, with what is seen of it. -/
def watched (objectType target : String) (spaces : List String)
    (answers : Nat → Except OperationError α) : Except SessionError Unit × List (Sight α) :=
  ((Session.start objectType target spaces).run Sight.renderer (Sight.operation answers)).run []

theorem answered_cons (i : Nat) (space : String) (rest : List String) :
    answered answers i (space :: rest) = (space, answers i) :: answered answers (i + 1) rest := by
  simp [answered]

theorem answered_append (i : Nat) (as bs : List String) :
    answered answers i (as ++ bs) =
      answered answers i as ++ answered answers (i + as.length) bs := by
  simp [answered, List.zipIdx_append]

theorem answered_concat (as : List String) (space : String) :
    answered answers 0 (as ++ [space]) =
      answered answers 0 as ++ [(space, answers as.length)] := by
  rw [answered_append, answered_cons, Nat.zero_add]
  rfl

theorem map_fst_answered (i : Nat) (spaces : List String) :
    (answered answers i spaces).map Prod.fst = spaces := by
  induction spaces generalizing i with
  | nil => rfl
  | cons space rest ih => rw [answered_cons, List.map_cons, ih]

/-- A split of the answered namespaces is a split of the namespaces. -/
theorem answered_split {i : Nat} {spaces : List String} {space : String}
    {before after : List (String × Except OperationError α)} {r : Except OperationError α}
    (h : answered answers i spaces = before ++ (space, r) :: after) :
    spaces = before.map Prod.fst ++ space :: after.map Prod.fst ∧
      answered answers i (before.map Prod.fst) = before ∧ answers (i + before.length) = r := by
  have hspaces : spaces = before.map Prod.fst ++ space :: after.map Prod.fst := by
    have := congrArg (List.map Prod.fst) h
    simpa only [map_fst_answered, List.map_append, List.map_cons] using this
  rw [hspaces, answered_append, answered_cons] at h
  obtain ⟨hbefore, hrest⟩ := List.append_inj h (by simp [answered])
  refine ⟨hspaces, hbefore, ?_⟩
  simpa using congrArg Prod.snd (List.cons.inj hrest).1

theorem fill_filled (space : String) (outcome : Outcome α)
    (filled : List (String × Outcome α)) (rest : List (String × Option (Outcome α))) :
    fill space outcome ((filled.map fun e => (e.1, some e.2)) ++ (space, none) :: rest) =
      some ((filled.map fun e => (e.1, some e.2)) ++ (space, some outcome) :: rest) := by
  induction filled with
  | nil => simp [fill, sameName_refl]
  | cons e filled ih => simp [fill, ih]

variable (objectType target) in
/-- The outcome of the next namespace lands in the next slot, whatever the names are. The
counter is not raised by that. -/
theorem placed_reached (done : List (String × Except OperationError α)) (space : String)
    (left : List String) (r : Except OperationError α) :
    (reached objectType target done (space :: left)).placed space (Outcome.ofResult r) =
      .ok { reached objectType target (done ++ [(space, r)]) left with
        completed := done.length } := by
  have h := fill_filled space (Outcome.ofResult r)
    (done.map fun e => (e.1, Outcome.ofResult e.2)) (left.map fun s => (s, none))
  simp only [List.map_map, Function.comp_def] at h
  simp [placed, reached, h]

@[simp] theorem ofResult_payload? (r : Except OperationError α) :
    (Outcome.ofResult r).payload? = r.toOption := by
  rcases r with (cause | e) | payload
  · simp only [Outcome.ofResult]
    split <;> rfl
  · rfl
  · rfl

@[simp] theorem ofResult_failure? (r : Except OperationError α) :
    (Outcome.ofResult r).failure? = recoverable? r := by
  rcases r with (cause | e) | payload
  · simp only [Outcome.ofResult, recoverable?]
    split <;> rfl
  · rfl
  · rfl

theorem ofResult_recoverable {cause : ServerError} (hc : cause.isRecoverable = true) :
    (Outcome.ofResult (.error (.server cause)) : Outcome α) = .failure cause := by
  simp [Outcome.ofResult, hc]

theorem results_reached (done : List (String × Except OperationError α)) :
    (reached objectType target done []).results = payloads done := by
  simp [results, reached, payloads]

variable (objectType target) in
theorem failures_reached (done : List (String × Except OperationError α)) :
    (reached objectType target done []).failures = recoverables done := by
  simp only [failures, reached, recoverables, List.map_nil, List.append_nil, List.filterMap_map,
    Function.comp_def, Option.bind_some, ofResult_failure?]

variable (objectType target) in
/-- Along a run the counter counts the filled slots. -/
theorem filledSlots_reached (done : List (String × Except OperationError α))
    (left : List String) :
    (reached objectType target done left).filledSlots =
      (reached objectType target done left).completed := by
  simp [filledSlots, reached, List.countP_map, Function.comp_def]

/-- The counter, raised for the last outcome, is at the number of the namespaces when none of
them is left. -/
theorem completed_reached (done : List (String × Except OperationError α)) (space : String)
    (left : List String) (r : Except OperationError α) :
    (done.length + 1 == (reached objectType target (done ++ [(space, r)]) left).spaces.length) =
      left.isEmpty := by
  cases left <;> simp [reached, Session.spaces]

theorem hasSuccess_reached (done : List (String × Except OperationError α))
    (left : List String) :
    (reached objectType target done left).hasSuccess =
      done.any fun e => e.2.toOption.isSome := by
  simp [hasSuccess, reached, List.any_append, List.any_map, Function.comp_def]

variable (objectType target) in
/-- Once the counter is raised for the last outcome, the session is the one after it. -/
theorem counted_reached (done : List (String × Except OperationError α)) (space : String)
    (left : List String) (r : Except OperationError α) :
    { reached objectType target (done ++ [(space, r)]) left with completed := done.length + 1 } =
      reached objectType target (done ++ [(space, r)]) left := by
  simp [reached]

theorem record_reached (done : List (String × Except OperationError α)) (space : String)
    (left : List String) (payload : α) :
    (reached objectType target done (space :: left)).record space payload =
      (.ok (), reached objectType target (done ++ [(space, .ok payload)]) left) := by
  have h : (reached objectType target done (space :: left)).placed space (.success payload) =
      .ok { reached objectType target (done ++ [(space, .ok payload)]) left with
        completed := done.length } :=
    placed_reached objectType target done space left (.ok payload)
  rw [record, h]
  exact congrArg (Prod.mk _) (counted_reached objectType target done space left (.ok payload))

/-- With the raised counter a failure ends the session if no namespace is left and none before it
gave a result. -/
theorem ends_reached (done : List (String × Except OperationError α)) (space : String)
    (left : List String) (e : OperationError) :
    (done.length + 1 ==
        (reached objectType target (done ++ [(space, .error e)]) left).spaces.length &&
      !(reached objectType target (done ++ [(space, .error e)]) left).hasSuccess) =
      (left.isEmpty && !done.any fun d => d.2.toOption.isSome) := by
  rw [completed_reached, hasSuccess_reached, List.any_append]
  simp [Except.toOption]

/-- A fatal error ends the session before anything is shown. -/
theorem recordFailure_fatal {m : Type → Type} [Monad m] (r : Renderer m α)
    (done : List (String × Except OperationError α)) (space : String) (left : List String)
    {e : OperationError} (he : e.isRecoverable = false) :
    (reached objectType target done (space :: left)).recordFailure r space e =
      pure (.error (.escalated objectType space e),
        { reached objectType target (done ++ [(space, .error e)]) left with
          completed := done.length
          phase := .aborted }) := by
  have h := placed_reached objectType target done space left
    (.error e)
  have ho : (Outcome.ofResult (.error e) : Outcome α) = .fatal e := by
    cases e with
    | server cause =>
      have hc : cause.isRecoverable = false := he
      simp [Outcome.ofResult, hc]
    | filter _ => rfl
  rw [recordFailure, h]
  simp only [ho]
  rfl

/-- A failure that leaves namespaces open, or follows a success, is only kept. -/
theorem recordFailure_kept {m : Type → Type} [Monad m] (r : Renderer m α)
    (done : List (String × Except OperationError α)) (space : String) (left : List String)
    {e : OperationError} (he : e.isRecoverable = true)
    (hmore : left ≠ [] ∨ ∃ d ∈ done, d.2.toOption.isSome) :
    (reached objectType target done (space :: left)).recordFailure r space e =
      pure (.ok (), reached objectType target (done ++ [(space, .error e)]) left) := by
  have h := placed_reached objectType target done space left
    (.error e)
  obtain ⟨cause, rfl, hc⟩ : ∃ cause, e = .server cause ∧ cause.isRecoverable = true := by
    cases e with
    | server cause => exact ⟨cause, rfl, he⟩
    | filter _ => cases he
  have ho := ofResult_recoverable (α := α) hc
  have hnext := counted_reached objectType target done space left (.error (.server cause))
  have hgo : (left.isEmpty && !done.any fun d => d.2.toOption.isSome) = false := by
    rcases hmore with hl | ⟨d, hd, hs⟩
    · simp [hl]
    · rw [List.any_eq_true.2 ⟨d, hd, hs⟩, Bool.not_true, Bool.and_false]
  rw [recordFailure, h]
  simp only [ho, hnext, ends_reached, hgo]
  rfl

variable (objectType target) in
/-- The last of nothing but failures is reported together with all others. -/
theorem recordFailure_last (done : List (String × Except OperationError α)) (space : String)
    {cause : ServerError} (hc : cause.isRecoverable = true)
    (hdone : ∀ d ∈ done, d.2.toOption.isSome = false) (seen : List (Sight α)) :
    ∃ s, ((reached objectType target done [space]).recordFailure Sight.renderer space
      (.server cause)).run seen =
        ((.error (.allFailed objectType target space cause), s),
          seen ++ [.reported objectType target
            (recoverables (done ++ [(space, .error (.server cause))]))]) := by
  have h := placed_reached objectType target done space []
    (.error (.server cause))
  have ho := ofResult_recoverable (α := α) hc
  have hnext := counted_reached objectType target done space [] (.error (.server cause))
  have hend : (([] : List String).isEmpty && !done.any fun d => d.2.toOption.isSome) = true := by
    simpa using hdone
  have hf := failures_reached objectType target
    (done ++ [(space, .error (.server cause))])
  refine ⟨{ reached objectType target (done ++ [(space, .error (.server cause))]) [] with
    completed := done.length + 1
    phase := .allFailed }, ?_⟩
  rw [recordFailure, h]
  simp only [ho, hnext, ends_reached, hend]
  rw [← hf]
  rfl

/-- Closing an open session shows the results and then the failures, if there are any. -/
theorem finish_open (s : Session α) (hs : s.phase = .idle ∨ s.phase = .iterating)
    (seen : List (Sight α)) :
    (s.finish Sight.renderer).run seen = ((.ok (), { s with phase := .closed }),
      seen ++ .rendered s.objectType s.results ::
        (if s.failures = [] then [] else [.reported s.objectType s.target s.failures])) := by
  have hf : ({ s with phase := .closed } : Session α).failures = s.failures := rfl
  have hr : ({ s with phase := .closed } : Session α).results = s.results := rfl
  rw [finish, if_pos hs]
  by_cases h : s.failures = []
  · simp [Sight.renderer, hf, hr, h]
    rfl
  · simp [Sight.renderer, hf, hr, h]
    rfl

variable (objectType target) in
theorem finish_reached (done : List (String × Except OperationError α)) (seen : List (Sight α)) :
    ∃ s, ((reached objectType target done []).finish Sight.renderer).run seen = ((.ok (), s),
      seen ++ .rendered objectType (payloads done) ::
        (if recoverables done = [] then []
          else [.reported objectType target (recoverables done)])) := by
  have h := finish_open (reached objectType target done []) (Or.inr rfl) seen
  rw [results_reached, failures_reached] at h
  exact ⟨_, h⟩

theorem countP_called (seen : List (Sight α)) (spaces : List String) :
    (seen ++ spaces.map Sight.called).countP Sight.isCall =
      seen.countP Sight.isCall + spaces.length := by
  simp [List.countP_map, Function.comp_def, Sight.isCall]

theorem run_operation (space : String) (seen : List (Sight α)) :
    (Sight.operation answers space).run seen =
      pure (answers (seen.countP Sight.isCall), seen ++ [.called space]) := rfl

/-- A call that neither ends the session nor leaves it with failures only goes on with the
namespaces that are left. -/
theorem runIn_goesOn (done : List (String × Except OperationError α)) (space : String)
    (left : List String) (seen : List (Sight α))
    (hr : isFatal (answers (seen.countP Sight.isCall)) = false)
    (hmore : left ≠ [] ∨ ∃ d ∈ done ++ [(space, answers (seen.countP Sight.isCall))],
      d.2.toOption.isSome) :
    (runIn Sight.renderer (Sight.operation answers) (space :: left)
        (reached objectType target done (space :: left))).run seen =
      (runIn Sight.renderer (Sight.operation answers) left (reached objectType target
        (done ++ [(space, answers (seen.countP Sight.isCall))]) left)).run
          (seen ++ [.called space]) := by
  rw [runIn]
  cases ha : answers (seen.countP Sight.isCall) with
  | ok payload =>
    simp [run_operation, ha, record_reached]
  | error e =>
    have he : e.isRecoverable = true := by simpa [isFatal, ha] using hr
    have hkept : left ≠ [] ∨ ∃ d ∈ done, d.2.toOption.isSome := by
      rcases hmore with hl | ⟨d, hd, hs⟩
      · exact Or.inl hl
      · rcases List.mem_append.1 hd with hd | hd
        · exact Or.inr ⟨d, hd, hs⟩
        · rw [List.mem_singleton.1 hd, ha] at hs
          cases hs
    simp [run_operation, ha, recordFailure_kept Sight.renderer done space left he hkept]

/-- As long as a namespace follows, calls without a fatal error leave nothing to be seen but
themselves. -/
theorem runIn_through (as : List String) {bs : List String} (hbs : bs ≠ [])
    (done : List (String × Except OperationError α)) (seen : List (Sight α))
    (hok : ∀ e ∈ answered answers (seen.countP Sight.isCall) as, isFatal e.2 = false) :
    (runIn Sight.renderer (Sight.operation answers) (as ++ bs)
        (reached objectType target done (as ++ bs))).run seen =
      (runIn Sight.renderer (Sight.operation answers) bs (reached objectType target
        (done ++ answered answers (seen.countP Sight.isCall) as) bs)).run
          (seen ++ as.map .called) := by
  induction as generalizing done seen with
  | nil => simp [answered]
  | cons space as ih =>
    rw [answered_cons] at hok ⊢
    have hhead := hok _ List.mem_cons_self
    have hcount : (seen ++ [Sight.called space]).countP Sight.isCall =
        seen.countP Sight.isCall + 1 := countP_called seen [space]
    have hne : as ++ bs ≠ [] := by simp [hbs]
    rw [List.cons_append, runIn_goesOn done space (as ++ bs) seen hhead (Or.inl hne)]
    rw [ih _ _ (by rw [hcount]; exact fun e he => hok e (List.mem_cons_of_mem _ he)), hcount]
    simp only [List.append_assoc, List.map_cons, List.cons_append, List.nil_append]

theorem runIn_fatal (done : List (String × Except OperationError α)) (space : String)
    (left : List String) (seen : List (Sight α)) {e : OperationError}
    (ha : answers (seen.countP Sight.isCall) = .error e) (he : e.isRecoverable = false) :
    (runIn Sight.renderer (Sight.operation answers) (space :: left)
        (reached objectType target done (space :: left))).run seen =
      (.error (.escalated objectType space e), seen ++ [.called space]) := by
  rw [runIn]
  simp [run_operation, ha, recordFailure_fatal Sight.renderer done space left he]
  rfl

/-- If the last namespace fails and none before it succeeded, all failures are reported and
nothing is rendered. -/
theorem runIn_lastFails (done : List (String × Except OperationError α)) (space : String)
    (seen : List (Sight α)) {cause : ServerError}
    (ha : answers (seen.countP Sight.isCall) = .error (.server cause))
    (hc : cause.isRecoverable = true) (hdone : ∀ d ∈ done, d.2.toOption.isSome = false) :
    (runIn Sight.renderer (Sight.operation answers) [space]
        (reached objectType target done [space])).run seen =
      (.error (.allFailed objectType target space cause), seen ++ [.called space,
        .reported objectType target
          (recoverables (done ++ [(space, .error (.server cause))]))]) := by
  obtain ⟨s, hs⟩ := recordFailure_last objectType target done space
    hc hdone (seen ++ [.called space])
  rw [runIn]
  simp [run_operation, ha, hs]
  rfl

theorem runIn_nil (done : List (String × Except OperationError α)) (seen : List (Sight α)) :
    (runIn Sight.renderer (Sight.operation answers) []
        (reached objectType target done [])).run seen =
      (.ok (), seen ++ .rendered objectType (payloads done) ::
        (if recoverables done = [] then []
          else [.reported objectType target (recoverables done)])) := by
  obtain ⟨s, hs⟩ := finish_reached objectType target done seen
  rw [runIn]
  simp [hs]
  rfl

theorem watched_eq (spaces : List String) :
    watched objectType target spaces answers =
      (runIn Sight.renderer (Sight.operation answers) spaces
        (reached objectType target [] spaces)).run [] := by
  have hspaces : (start objectType target spaces : Session α).spaces = spaces := by
    simp [Session.spaces, start, Function.comp_def]
  have hbegin : (start objectType target spaces : Session α).begin =
      (.ok spaces, reached objectType target [] spaces) := by
    have hidle : (start objectType target spaces : Session α).phase = .idle := rfl
    rw [begin, if_pos hidle, hspaces]
    rfl
  rw [watched, run, hbegin]

/-- Either some result is fatal and there is a first such one, or none is. -/
theorem exists_first_fatal (entries : List (String × Except OperationError α)) :
    (∃ before space e after, entries = before ++ (space, .error e) :: after ∧
      e.isRecoverable = false ∧ ∀ d ∈ before, isFatal d.2 = false) ∨
    ∀ d ∈ entries, isFatal d.2 = false := by
  cases hf : entries.find? fun d => isFatal d.2 with
  | none =>
    right
    intro d hd
    simpa using List.find?_eq_none.1 hf d hd
  | some d =>
    left
    obtain ⟨hfatal, before, after, hsplit, hbefore⟩ := List.find?_eq_some_iff_append.1 hf
    obtain ⟨space, r⟩ := d
    cases r with
    | ok payload => cases hfatal
    | error e =>
      refine ⟨before, space, e, after, hsplit, by simpa [isFatal] using hfatal, ?_⟩
      intro d hd
      simpa using hbefore d hd

/-- Up to the namespaces `bs` nothing but the calls is seen. -/
theorem watched_through (as : List String) {bs : List String} (hbs : bs ≠ [])
    (hok : ∀ d ∈ answered answers 0 as, isFatal d.2 = false) :
    watched objectType target (as ++ bs) answers =
      (runIn Sight.renderer (Sight.operation answers) bs
        (reached objectType target (answered answers 0 as) bs)).run (as.map .called) := by
  rw [watched_eq, runIn_through as hbs [] [] hok]
  rfl

theorem watched_fatal {spaces : List String} {space : String} {e : OperationError}
    {before after : List (String × Except OperationError α)}
    (hsplit : answered answers 0 spaces = before ++ (space, .error e) :: after)
    (he : e.isRecoverable = false) (hbefore : ∀ d ∈ before, isFatal d.2 = false) :
    watched objectType target spaces answers =
      (.error (.escalated objectType space e),
        (before.map fun d => .called d.1) ++ [.called space]) := by
  obtain ⟨hspaces, hanswered, ha⟩ := answered_split hsplit
  have hcount : ((before.map Prod.fst).map (Sight.called : String → Sight α)).countP Sight.isCall =
      before.length := by
    simpa using countP_called ([] : List (Sight α)) (before.map Prod.fst)
  rw [hspaces, watched_through _ (List.cons_ne_nil _ _) (by rw [hanswered]; exact hbefore),
    runIn_fatal _ space _ _ (by rw [hcount, ← ha, Nat.zero_add]) he, List.map_map]
  rfl

theorem watched_lastFails (as : List String) (space : String) {cause : ServerError}
    (ha : answers as.length = .error (.server cause)) (hc : cause.isRecoverable = true)
    (hok : ∀ d ∈ answered answers 0 as, isFatal d.2 = false)
    (hnone : ∀ d ∈ answered answers 0 as, d.2.toOption.isSome = false) :
    watched objectType target (as ++ [space]) answers =
      (.error (.allFailed objectType target space cause),
        (as ++ [space]).map .called ++ [.reported objectType target
          (recoverables (answered answers 0 (as ++ [space])))]) := by
  have hcount : (as.map (Sight.called : String → Sight α)).countP Sight.isCall = as.length := by
    simpa using countP_called ([] : List (Sight α)) as
  rw [watched_through as (List.cons_ne_nil _ _) hok,
    runIn_lastFails _ space _ (by rw [hcount, ha]) hc hnone, answered_concat, ha]
  simp

theorem watched_shown (as : List String) (space : String)
    (hok : ∀ d ∈ answered answers 0 (as ++ [space]), isFatal d.2 = false)
    (hsome : ∃ d ∈ answered answers 0 (as ++ [space]), d.2.toOption.isSome) :
    watched objectType target (as ++ [space]) answers =
      (.ok (), (as ++ [space]).map .called ++
        .rendered objectType (payloads (answered answers 0 (as ++ [space]))) ::
          (if recoverables (answered answers 0 (as ++ [space])) = [] then []
            else [.reported objectType target
              (recoverables (answered answers 0 (as ++ [space])))])) := by
  have hcount : (as.map (Sight.called : String → Sight α)).countP Sight.isCall = as.length := by
    simpa using countP_called ([] : List (Sight α)) as
  rw [answered_concat] at hok hsome ⊢
  rw [watched_through as (List.cons_ne_nil _ _)
      (fun d hd => hok d (List.mem_append_left _ hd)),
    runIn_goesOn _ space [] _
      (by rw [hcount]; exact hok _ (List.mem_append_right _ (List.mem_singleton_self _)))
      (Or.inr (by rw [hcount]; exact hsome)),
    hcount, runIn_nil, List.map_append]
  rfl

theorem exists_cause {r : Except OperationError α} (hf : isFatal r = false)
    (hs : r.toOption.isSome = false) :
    ∃ cause, r = .error (.server cause) ∧ cause.isRecoverable = true := by
  obtain (cause | e) | payload := r
  · exact ⟨cause, rfl, by simpa [isFatal, OperationError.isRecoverable] using hf⟩
  · simp [isFatal, OperationError.isRecoverable] at hf
  · cases hs

theorem recoverables_cons (space : String) {cause : ServerError}
    (hc : cause.isRecoverable = true) (entries : List (String × Except OperationError α)) :
    recoverables ((space, .error (.server cause)) :: entries) =
      (space, cause) :: recoverables entries := by
  simp [recoverables, recoverable?, hc]

/-- Results that are all failures, and recoverable ones, are told by their causes. -/
theorem exists_causes {entries : List (String × Except OperationError α)}
    (hok : ∀ d ∈ entries, isFatal d.2 = false)
    (hnone : ∀ d ∈ entries, d.2.toOption.isSome = false) :
    entries = (recoverables entries).map (fun f => (f.1, .error (.server f.2))) ∧
      ∀ f ∈ recoverables entries, f.2.isRecoverable = true := by
  induction entries with
  | nil => simp [recoverables]
  | cons d entries ih =>
    obtain ⟨heq, hrec⟩ := ih (fun d hd => hok d (List.mem_cons_of_mem _ hd))
      (fun d hd => hnone d (List.mem_cons_of_mem _ hd))
    obtain ⟨space, r⟩ := d
    obtain ⟨cause, rfl, hc⟩ := exists_cause (hok _ List.mem_cons_self) (hnone _ List.mem_cons_self)
    rw [recoverables_cons space hc, List.map_cons, ← heq]
    refine ⟨rfl, fun f hf => ?_⟩
    rcases List.mem_cons.1 hf with rfl | hf
    · exact hc
    · exact hrec f hf

/-- A session run over any namespaces and any answers ends in one of three ways. The first
fatal error ends it at once, with the calls up to it and nothing shown. If there are only
failures, and at least one, they are all reported and the last is raised. Otherwise the
results are rendered, each with its own namespace, and then the failures, if any, are
reported. -/
theorem run_ends_in_one_of_three_ways (objectType target : String) (spaces : List String)
    (answers : Nat → Except OperationError α) :
    (∃ before space e after,
      answered answers 0 spaces = before ++ (space, .error e) :: after ∧
      e.isRecoverable = false ∧ (∀ d ∈ before, isFatal d.2 = false) ∧
      watched objectType target spaces answers =
        (.error (.escalated objectType space e),
          (before.map fun d => .called d.1) ++ [.called space])) ∨
    (∃ failures space cause,
      answered answers 0 spaces =
        ((failures ++ [(space, cause)]).map fun f => (f.1, .error (.server f.2))) ∧
      (∀ f ∈ failures ++ [(space, cause)], f.2.isRecoverable = true) ∧
      watched objectType target spaces answers =
        (.error (.allFailed objectType target space cause),
          spaces.map .called ++
            [.reported objectType target (failures ++ [(space, cause)])])) ∨
    ((∀ d ∈ answered answers 0 spaces, isFatal d.2 = false) ∧
      (spaces = [] ∨ ∃ d ∈ answered answers 0 spaces, d.2.toOption.isSome) ∧
      watched objectType target spaces answers =
        (.ok (), spaces.map .called ++
          .rendered objectType (payloads (answered answers 0 spaces)) ::
            (if recoverables (answered answers 0 spaces) = [] then []
              else [.reported objectType target
                (recoverables (answered answers 0 spaces))]))) := by
  rcases exists_first_fatal (answered answers 0 spaces) with
    ⟨before, space, e, after, hsplit, he, hbefore⟩ | hok
  · left
    exact ⟨before, space, e, after, hsplit, he, hbefore, watched_fatal hsplit he hbefore⟩
  right
  rcases List.eq_nil_or_concat spaces with rfl | ⟨as, space, rfl⟩
  · right
    refine ⟨hok, Or.inl rfl, ?_⟩
    rw [watched_eq, runIn_nil]
    rfl
  rw [List.concat_eq_append] at hok ⊢
  by_cases hsome : ∃ d ∈ answered answers 0 (as ++ [space]), d.2.toOption.isSome
  · right
    exact ⟨hok, Or.inr hsome, watched_shown as space hok hsome⟩
  · left
    have hnone : ∀ d ∈ answered answers 0 (as ++ [space]), d.2.toOption.isSome = false := by
      simpa using hsome
    obtain ⟨heq, hrec⟩ := exists_causes hok hnone
    rw [answered_concat] at hok hnone
    have hlast := List.mem_append_right (answered answers 0 as)
      (List.mem_singleton_self (space, answers as.length))
    obtain ⟨cause, ha, hc⟩ : ∃ cause, answers as.length = .error (.server cause) ∧
        cause.isRecoverable = true := exists_cause (hok _ hlast) (hnone _ hlast)
    have hfailures : recoverables (answered answers 0 (as ++ [space])) =
        recoverables (answered answers 0 as) ++ [(space, cause)] := by
      rw [answered_concat, ha]
      simp [recoverables, recoverable?, hc]
    rw [hfailures] at heq hrec
    refine ⟨_, space, cause, heq, hrec, ?_⟩
    rw [← hfailures]
    exact watched_lastFails as space ha hc (fun d hd => hok d (List.mem_append_left _ hd))
      (fun d hd => hnone d (List.mem_append_left _ hd))

end Session

end CimConsole
