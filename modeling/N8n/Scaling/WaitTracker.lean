import N8n.Lib.OrderedMap
import N8n.Lib.Run

/-!
# Tracking of waiting executions

A leader polls the database for the executions that wait for a time, and sets a timer for each one
that has no entry in `waitingExecutions`. The result of a poll may arrive at any later time, and a
timer may fire at any time it is pending.

`stopTracking` clears the timers and leaves the entries, and the result of a poll is used whether
the instance tracks executions or not. `waitTracker_run` : these two are the only ways in which an
entry comes to have no timer, or a timer to be pending on an instance that does not track.
-/

open Lib

namespace N8n

/-! ## The tracker -/

/-- The timers that are pending are those of the executions and the intervals of the polls. Polls
in flight are counted. -/
structure WaitTracker (E : Type) where
  waitingExecutions : OrderedMap E ℕ := .empty
  mainTimer : Option ℕ := none
  timers : OrderedMap ℕ E := .empty
  intervals : List ℕ := []
  queries : ℕ := 0
  nextTimer : ℕ := 0
  isTracking : Bool := false

inductive WaitTrackerEvent (E : Type) where
  | startTracking
  | intervalFires (interval : ℕ)
  | queryEnds (executions : List E)
  | timerFires (timer : ℕ)
  | stopExecution (executionId : E)
  | stopTracking
  deriving DecidableEq, Repr

namespace WaitTracker

variable {E : Type} [DecidableEq E] (s : WaitTracker E)

omit [DecidableEq E] in
def startTracking : WaitTracker E :=
  { s with
    mainTimer := some s.nextTimer
    intervals := s.intervals ++ [s.nextTimer]
    nextTimer := s.nextTimer + 1
    queries := s.queries + 1
    isTracking := true }

/-- A timer for an execution that a poll has found. -/
def setTimer (executionId : E) : WaitTracker E :=
  match s.waitingExecutions.get? executionId with
  | some _ => s
  | none =>
    { s with
      waitingExecutions := s.waitingExecutions.set executionId s.nextTimer
      timers := s.timers.set s.nextTimer executionId
      nextTimer := s.nextTimer + 1 }

/-- What `getWaitingExecutions` does with the executions found. -/
def setTimers (executions : List E) : WaitTracker E := executions.foldl setTimer s

def stopExecution (executionId : E) : WaitTracker E :=
  match s.waitingExecutions.get? executionId with
  | none => s
  | some timer =>
    { s with
      timers := s.timers.delete timer
      waitingExecutions := s.waitingExecutions.delete executionId }

def startExecution (executionId : E) : WaitTracker E :=
  { s with waitingExecutions := s.waitingExecutions.delete executionId }

omit [DecidableEq E] in
def stopTracking : WaitTracker E :=
  match s.mainTimer with
  | none => s
  | some mainTimer =>
    { s with
      intervals := s.intervals.filter (· ≠ mainTimer)
      timers := s.timers.deleteAll s.waitingExecutions.values
      isTracking := false }

/-- An event that cannot happen is an error. -/
def step : WaitTrackerEvent E → Except Unit (WaitTracker E)
  | .startTracking => .ok s.startTracking
  | .intervalFires interval =>
    if interval ∈ s.intervals then .ok { s with queries := s.queries + 1 } else .error ()
  | .queryEnds executions =>
    if s.queries = 0 then .error ()
    else .ok (setTimers { s with queries := s.queries - 1 } executions)
  | .timerFires timer =>
    match s.timers.get? timer with
    | none => .error ()
    | some executionId => .ok (startExecution { s with timers := s.timers.delete timer } executionId)
  | .stopExecution executionId => .ok (s.stopExecution executionId)
  | .stopTracking => .ok s.stopTracking

/-! ## Faithful tracking -/

omit [DecidableEq E] in
/-- A timer that will resume the execution is pending. -/
def IsScheduled (executionId : E) : Prop := ∃ timer, s.timers.get? timer = some executionId

/-- The entries are the executions that have timers, and there are none while the instance does
not track. -/
structure Faithful : Prop where
  tracked : ∀ executionId, executionId ∈ s.waitingExecutions.keys ↔ s.IsScheduled executionId
  stopped : s.isTracking = false → ∀ executionId, ¬s.IsScheduled executionId

/-- The instance has no entries when it steps down, and is tracking when the result of a poll
arrives that has executions. -/
def keepsFaithful : WaitTrackerEvent E → Bool
  | .stopTracking => s.mainTimer.isNone || s.waitingExecutions.keys.isEmpty
  | .queryEnds executions => s.isTracking || executions.isEmpty
  | _ => true

/-! ## What holds without conditions -/

/-- Every timer that is pending is that of an entry, and no timer is that of two. -/
structure Sound : Prop where
  entry : ∀ timer executionId, s.timers.get? timer = some executionId →
    s.waitingExecutions.get? executionId = some timer
  used : ∀ executionId timer, s.waitingExecutions.get? executionId = some timer →
    timer < s.nextTimer
  unique : ∀ id id' timer, s.waitingExecutions.get? id = some timer →
    s.waitingExecutions.get? id' = some timer → id = id'

variable {s} {s' : WaitTracker E} {executionId : E} {executions : List E}

omit [DecidableEq E] in
theorem Faithful.keys_eq_nil (h : s.Faithful) (hnot : s.isTracking = false) :
    s.waitingExecutions.keys = [] :=
  List.eq_nil_iff_forall_not_mem.mpr fun executionId hmem =>
    h.stopped hnot executionId ((h.tracked executionId).mp hmem)

/-! ## Timers that are set -/

theorem setTimer_isTracking : (s.setTimer executionId).isTracking = s.isTracking := by
  rw [setTimer]
  split <;> rfl

theorem setTimers_isTracking : (s.setTimers executions).isTracking = s.isTracking := by
  rw [setTimers]
  induction executions generalizing s with
  | nil => rfl
  | cons executionId executions ih => rw [List.foldl_cons, ih, setTimer_isTracking]

/-- The entry is there, with the one whose timer is pending. -/
theorem Sound.setTimer (h : s.Sound) : (s.setTimer executionId).Sound := by
  rw [WaitTracker.setTimer]
  split
  · exact h
  · rename_i hnone
    have hfree : s.timers.get? s.nextTimer = none := by
      refine Option.eq_none_iff_forall_not_mem.mpr fun other hother => ?_
      exact Nat.lt_irrefl _ (h.used other _ (h.entry _ other hother))
    refine ⟨fun timer other htimer => ?_, fun other timer hother => ?_,
      fun id id' timer hid hid' => ?_⟩
    · rw [OrderedMap.get?_set] at htimer ⊢
      split at htimer
      · rename_i hnew
        cases htimer
        rw [if_pos rfl, hnew]
      · have hentry := h.entry timer other htimer
        have hne : executionId ≠ other := by
          rintro rfl
          rw [hnone] at hentry
          cases hentry
        rw [if_neg hne]
        exact hentry
    · rw [OrderedMap.get?_set] at hother
      split at hother
      · cases hother
        exact Nat.lt_succ_self _
      · exact Nat.lt_succ_of_lt (h.used other timer hother)
    · rw [OrderedMap.get?_set] at hid hid'
      split at hid <;> split at hid'
      · rename_i heq heq'
        exact heq.symm.trans heq'
      · cases hid
        exact absurd (h.used id' _ hid') (Nat.lt_irrefl _)
      · cases hid'
        exact absurd (h.used id _ hid) (Nat.lt_irrefl _)
      · exact h.unique id id' timer hid hid'

/-- Its timer is pending then, and so are those of the others as before. -/
theorem isScheduled_setTimer (h : s.Sound) {other : E} :
    (s.setTimer executionId).IsScheduled other ↔
      s.IsScheduled other ∨ executionId = other ∧ executionId ∉ s.waitingExecutions.keys := by
  rw [WaitTracker.setTimer]
  split
  · rename_i timer hsome
    have hmem : executionId ∈ s.waitingExecutions.keys := OrderedMap.mem_keys_iff.mpr ⟨_, hsome⟩
    exact (or_iff_left fun hnew => hnew.2 hmem).symm
  · rename_i hnone
    have hnot : executionId ∉ s.waitingExecutions.keys := OrderedMap.get?_eq_none_iff.mp hnone
    constructor
    · rintro ⟨timer, htimer⟩
      rw [OrderedMap.get?_set] at htimer
      split at htimer
      · cases htimer
        exact Or.inr ⟨rfl, hnot⟩
      · exact Or.inl ⟨timer, htimer⟩
    · rintro (⟨timer, htimer⟩ | ⟨rfl, -⟩)
      · refine ⟨timer, ?_⟩
        have hne : s.nextTimer ≠ timer := fun heq =>
          Nat.lt_irrefl _ (heq ▸ h.used other timer (h.entry timer other htimer))
        rw [OrderedMap.get?_set_of_ne _ _ hne]
        exact htimer
      · exact ⟨s.nextTimer, OrderedMap.get?_set_self _ _ _⟩

theorem mem_keys_setTimer {other : E} : other ∈ (s.setTimer executionId).waitingExecutions.keys ↔
    other = executionId ∨ other ∈ s.waitingExecutions.keys := by
  rw [WaitTracker.setTimer]
  split
  · rename_i timer hsome
    refine (or_iff_right_of_imp ?_).symm
    rintro rfl
    exact OrderedMap.mem_keys_iff.mpr ⟨_, hsome⟩
  · exact OrderedMap.mem_keys_set

theorem mem_keys_setTimers {other : E} :
    other ∈ (s.setTimers executions).waitingExecutions.keys ↔
      other ∈ executions ∨ other ∈ s.waitingExecutions.keys := by
  rw [setTimers]
  induction executions generalizing s with
  | nil => simp
  | cons executionId executions ih =>
    rw [List.foldl_cons, ih, mem_keys_setTimer, List.mem_cons, or_left_comm, or_assoc]

/-- Entries have timers still after a poll, when they had before. -/
theorem setTimers_tracked (executions : List E) (h : s.Sound)
    (htracked : ∀ id, id ∈ s.waitingExecutions.keys ↔ s.IsScheduled id) :
    (s.setTimers executions).Sound ∧
      ∀ id, id ∈ (s.setTimers executions).waitingExecutions.keys ↔
        (s.setTimers executions).IsScheduled id := by
  rw [setTimers]
  induction executions generalizing s with
  | nil => exact ⟨h, htracked⟩
  | cons executionId executions ih =>
    refine ih h.setTimer fun id => ?_
    rw [mem_keys_setTimer, isScheduled_setTimer h, ← htracked]
    constructor
    · rintro (rfl | hmem)
      · by_cases hmem : id ∈ s.waitingExecutions.keys
        · exact Or.inl hmem
        · exact Or.inr ⟨rfl, hmem⟩
      · exact Or.inl hmem
    · rintro (hmem | ⟨rfl, -⟩)
      · exact Or.inr hmem
      · exact Or.inl rfl

/-! ## Timers that are cleared -/

variable {timer : ℕ}

/-- The timer is no longer pending, and its entry is deleted. -/
def clearEntry (s : WaitTracker E) (timer : ℕ) (executionId : E) : WaitTracker E :=
  startExecution { s with timers := s.timers.delete timer } executionId

theorem get?_timers_clearEntry {timer' : ℕ} : (s.clearEntry timer executionId).timers.get? timer' =
    if timer = timer' then none else s.timers.get? timer' := OrderedMap.get?_delete _ _ _

theorem get?_waitingExecutions_clearEntry {other : E} :
    (s.clearEntry timer executionId).waitingExecutions.get? other =
      if executionId = other then none else s.waitingExecutions.get? other :=
  OrderedMap.get?_delete _ _ _

theorem Sound.clearEntry (h : s.Sound)
    (htimer : s.waitingExecutions.get? executionId = some timer) :
    (s.clearEntry timer executionId).Sound := by
  have hbefore : ∀ other timer',
      (s.clearEntry timer executionId).waitingExecutions.get? other = some timer' →
        s.waitingExecutions.get? other = some timer' := by
    intro other timer' hother
    rw [get?_waitingExecutions_clearEntry] at hother
    split at hother
    · cases hother
    · exact hother
  refine ⟨fun timer' other htimer' => ?_, fun other timer' hother =>
    h.used other timer' (hbefore other timer' hother), fun id id' timer' hid hid' =>
    h.unique id id' timer' (hbefore id timer' hid) (hbefore id' timer' hid')⟩
  rw [get?_timers_clearEntry] at htimer'
  split at htimer'
  · cases htimer'
  · rename_i hne
    have hentry := h.entry timer' other htimer'
    rw [get?_waitingExecutions_clearEntry, if_neg]
    · exact hentry
    · rintro rfl
      exact hne (Option.some.inj (htimer.symm.trans hentry))

theorem isScheduled_clearEntry (h : s.Sound)
    (htimer : s.waitingExecutions.get? executionId = some timer) {other : E} :
    (s.clearEntry timer executionId).IsScheduled other ↔
      other ≠ executionId ∧ s.IsScheduled other := by
  constructor
  · rintro ⟨timer', htimer'⟩
    rw [get?_timers_clearEntry] at htimer'
    split at htimer'
    · cases htimer'
    · rename_i hne
      refine ⟨?_, timer', htimer'⟩
      rintro rfl
      exact hne (Option.some.inj (htimer.symm.trans (h.entry timer' _ htimer')))
  · rintro ⟨hne, timer', htimer'⟩
    refine ⟨timer', ?_⟩
    rw [get?_timers_clearEntry, if_neg]
    · exact htimer'
    · rintro rfl
      exact hne (h.unique _ _ timer (h.entry timer other htimer') htimer)

theorem Faithful.clearEntry (hf : s.Faithful) (h : s.Sound)
    (htimer : s.waitingExecutions.get? executionId = some timer) :
    (s.clearEntry timer executionId).Faithful := by
  refine ⟨fun other => ?_, fun hnot other hother => ?_⟩
  · rw [isScheduled_clearEntry h htimer, ← hf.tracked]
    exact OrderedMap.mem_keys_delete
  · exact hf.stopped hnot other ((isScheduled_clearEntry h htimer).mp hother).2

/-! ## Steps -/

theorem Sound.stopTracking (h : s.Sound) : s.stopTracking.Sound := by
  rw [WaitTracker.stopTracking]
  split
  · exact h
  · refine ⟨fun timer executionId htimer => ?_, h.used, h.unique⟩
    rw [OrderedMap.get?_deleteAll] at htimer
    split at htimer
    · cases htimer
    · exact h.entry timer executionId htimer

/-- No timer is pending when the instance has stepped down, so that no entry may be left. -/
theorem faithful_stopTracking_iff (h : s.Sound) (hf : s.Faithful) :
    s.stopTracking.Faithful ↔ s.keepsFaithful .stopTracking = true := by
  rw [WaitTracker.stopTracking, keepsFaithful]
  cases hmain : s.mainTimer with
  | none => exact iff_of_true hf rfl
  | some mainTimer =>
    have hnone : ∀ executionId, ¬IsScheduled { s with
        intervals := s.intervals.filter (· ≠ mainTimer)
        timers := s.timers.deleteAll s.waitingExecutions.values
        isTracking := false } executionId := by
      rintro executionId ⟨timer, htimer⟩
      rw [OrderedMap.get?_deleteAll] at htimer
      split at htimer
      · cases htimer
      · rename_i hnot
        exact hnot (OrderedMap.mem_values_iff.mpr ⟨executionId, h.entry timer _ htimer⟩)
    rw [Option.isNone_some, Bool.false_or, List.isEmpty_iff]
    constructor
    · intro hfaithful
      exact hfaithful.keys_eq_nil rfl
    · intro hnil
      refine ⟨fun executionId => ?_, fun _ => hnone⟩
      change executionId ∈ s.waitingExecutions.keys ↔ _
      rw [hnil]
      exact iff_of_false List.not_mem_nil (hnone executionId)

/-- The executions found must be none when the instance does not track. -/
theorem faithful_setTimers_iff (h : s.Sound) (hf : s.Faithful) :
    (s.setTimers executions).Faithful ↔ s.keepsFaithful (.queryEnds executions) = true := by
  have htracked := (setTimers_tracked executions h hf.tracked).2
  rw [keepsFaithful, Bool.or_eq_true, List.isEmpty_iff]
  constructor
  · intro hfaithful
    cases htracking : s.isTracking with
    | true => exact Or.inl rfl
    | false =>
      refine Or.inr (List.eq_nil_iff_forall_not_mem.mpr fun executionId hmem => ?_)
      refine hfaithful.stopped (setTimers_isTracking.trans htracking) executionId ?_
      exact (htracked executionId).mp (mem_keys_setTimers.mpr (Or.inl hmem))
  · rintro (htracking | rfl)
    · refine ⟨htracked, fun hnot => ?_⟩
      rw [setTimers_isTracking, htracking] at hnot
      cases hnot
    · exact hf

/-- The step keeps the entries and the timers together exactly when it meets the condition. -/
theorem faithful_step_iff {e : WaitTrackerEvent E} (h : s.Sound) (hf : s.Faithful)
    (hstep : s.step e = .ok s') : s'.Sound ∧ (s'.Faithful ↔ s.keepsFaithful e = true) := by
  cases e with
  | startTracking =>
    cases hstep
    exact ⟨⟨h.entry, fun id timer hid => Nat.lt_succ_of_lt (h.used id timer hid), h.unique⟩,
      iff_of_true ⟨hf.tracked, fun hnot => (by cases hnot)⟩ rfl⟩
  | intervalFires interval =>
    rw [step] at hstep
    split at hstep
    · cases hstep
      exact ⟨⟨h.entry, h.used, h.unique⟩, iff_of_true ⟨hf.tracked, hf.stopped⟩ rfl⟩
    · cases hstep
  | queryEnds executions =>
    rw [step] at hstep
    split at hstep
    · cases hstep
    · cases hstep
      have hs : Sound { s with queries := s.queries - 1 } := ⟨h.entry, h.used, h.unique⟩
      have hfs : Faithful { s with queries := s.queries - 1 } := ⟨hf.tracked, hf.stopped⟩
      exact ⟨(setTimers_tracked executions hs hfs.tracked).1, faithful_setTimers_iff hs hfs⟩
  | timerFires timer =>
    rw [step] at hstep
    split at hstep
    · cases hstep
    · rename_i executionId htimer
      cases hstep
      have hentry := h.entry timer executionId htimer
      exact ⟨h.clearEntry hentry, iff_of_true (hf.clearEntry h hentry) rfl⟩
  | stopExecution executionId =>
    rw [step, stopExecution] at hstep
    split at hstep
    · cases hstep
      exact ⟨h, iff_of_true hf rfl⟩
    · rename_i timer hentry
      cases hstep
      exact ⟨h.clearEntry hentry, iff_of_true (hf.clearEntry h hentry) rfl⟩
  | stopTracking =>
    cases hstep
    exact ⟨h.stopTracking, faithful_stopTracking_iff h hf⟩

/-! ## Runs -/

theorem sound_initial : Sound ({} : WaitTracker E) :=
  ⟨fun timer id h => (by cases h), fun id timer h => (by cases h),
    fun id id' timer h => (by cases h)⟩

omit [DecidableEq E] in
theorem faithful_initial : Faithful ({} : WaitTracker E) :=
  ⟨fun id => ⟨fun h => (by cases h), fun ⟨timer, h⟩ => (by cases h)⟩,
    fun _ id ⟨timer, h⟩ => (by cases h)⟩

variable {steps : List (WaitTracker E × WaitTrackerEvent E)}

theorem sound_run (hrun : Run step {} steps s)
    (hfaithful : ∀ state ∈ steps.map Prod.fst, state.Faithful) : s.Sound := by
  induction hrun with
  | nil => exact sound_initial
  | snoc hrun hs ih =>
    rw [List.map_append, List.map_singleton, List.forall_mem_append,
      List.forall_mem_singleton] at hfaithful
    exact (faithful_step_iff (ih hfaithful.1) hfaithful.2 hs).1

theorem faithful_run_iff (hrun : Run step {} steps s) :
    (∀ state ∈ steps.map Prod.fst ++ [s], state.Faithful) ↔
      ∀ x ∈ steps, x.1.keepsFaithful x.2 = true := by
  induction hrun with
  | nil =>
    refine iff_of_true ?_ fun x hx => (by cases hx)
    exact List.forall_mem_singleton.mpr faithful_initial
  | @snoc steps s s' e hrun hs ih =>
    have hsteps : (∀ x ∈ steps ++ [(s, e)], x.1.keepsFaithful x.2 = true) ↔
        (∀ x ∈ steps, x.1.keepsFaithful x.2 = true) ∧ s.keepsFaithful e = true := by
      rw [List.forall_mem_append, List.forall_mem_singleton]
    rw [hsteps, ← ih, List.map_append, List.map_singleton, List.forall_mem_append,
      List.forall_mem_singleton]
    refine and_congr_right fun hbefore => ?_
    rw [List.forall_mem_append, List.forall_mem_singleton] at hbefore
    exact (faithful_step_iff (sound_run hrun hbefore.1) hbefore.2 hs).2

/-- In every state of a run the executions that have entries are those that have timers, and no
timer is pending while the instance does not track, exactly when the instance has no entries
whenever it steps down and is tracking whenever the result of a poll arrives that has executions.
Every execution that is found has a timer then. -/
theorem waitTracker_run (hrun : Run step {} steps s) :
    ((∀ state ∈ steps.map Prod.fst ++ [s], state.Faithful) ↔
      ∀ x ∈ steps, x.1.keepsFaithful x.2 = true) ∧
    ((∀ x ∈ steps, x.1.keepsFaithful x.2 = true) →
      ∀ x ∈ steps, ∀ executions state, x.2 = .queryEnds executions → x.1.step x.2 = .ok state →
        ∀ executionId ∈ executions, state.IsScheduled executionId) := by
  refine ⟨faithful_run_iff hrun, fun hkeeps x hx executions state he hstep id hid => ?_⟩
  obtain ⟨h, hf⟩ := hrun.forall_states_of (I := fun s => s.Sound ∧ s.Faithful)
    ⟨sound_initial, faithful_initial⟩ (fun s e s' hs hc hstep =>
      (faithful_step_iff hs.1 hs.2 hstep).imp_right fun hiff => hiff.mpr hc) hkeeps x.1
    (List.mem_append_left _ (List.mem_map_of_mem hx))
  rw [he, step] at hstep
  split at hstep
  · cases hstep
  · cases hstep
    have hs : Sound { x.1 with queries := x.1.queries - 1 } := ⟨h.entry, h.used, h.unique⟩
    exact ((setTimers_tracked executions hs hf.tracked).2 id).mp
      (mem_keys_setTimers.mpr (Or.inl hid))

/-- The leader has a timer for an execution that is stopped and for one that is resumed, steps
down, and takes over again. -/
theorem waitTracker_run_takeover : ∃ steps, ∃ s : WaitTracker ℕ, Run step {} steps s ∧
    s.waitingExecutions.keys = [7] ∧ (∀ state ∈ steps.map Prod.fst ++ [s], state.Faithful) := by
  have hevents : (runSteps step ({} : WaitTracker ℕ)
      [.startTracking, .intervalFires 0, .queryEnds [5, 6], .queryEnds [6], .stopExecution 5,
        .timerFires 2, .stopTracking, .startTracking, .queryEnds [7]]).map
      (fun r => (r.2.waitingExecutions.keys, r.1.all fun x => x.1.keepsFaithful x.2)) =
      .ok ([7], true) := by
    decide
  obtain ⟨steps, s, hrun, -, hresult⟩ := exists_run hevents
  obtain ⟨hkeys, hkeeps⟩ := Prod.mk.inj hresult
  exact ⟨steps, s, hrun, hkeys, (waitTracker_run hrun).1.mpr (List.all_eq_true.mp hkeeps)⟩

/-- The leader steps down with a timer pending, and takes over again : the execution that is found
has an entry, and no timer is set. -/
theorem waitTracker_run_stepdown : ¬∀ steps, ∀ s : WaitTracker ℕ, Run step {} steps s →
    s.Faithful := by
  intro h
  have hevents : (runSteps step ({} : WaitTracker ℕ)
      [.startTracking, .queryEnds [5], .stopTracking, .startTracking, .queryEnds [5]]).map
      (fun r => (r.2.waitingExecutions.keys, r.2.timers.entries)) = .ok ([5], []) := by
    decide
  obtain ⟨steps, s, hrun, -, hresult⟩ := exists_run hevents
  obtain ⟨hkeys, htimers⟩ := Prod.mk.inj hresult
  obtain ⟨timer, htimer⟩ := ((h steps s hrun).tracked 5).mp (by rw [hkeys]; decide)
  rw [← OrderedMap.mem_entries_iff, htimers] at htimer
  cases htimer

end WaitTracker

end N8n
