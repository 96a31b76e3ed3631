import N8n.Concurrency.ActiveExecutions

/-!
# Shutdown

`shutdown` disables the concurrency control, so that no throttled execution is let through, and
has `removeAll` empty the queues and cancel the executions it stopped. But `removeAll` returns at
once where the service is disabled : the queues stay as they are, and no execution is cancelled
(`shutdown_keeps`).

So the executions are shut down properly exactly when there is nothing to do : nobody waits in a
queue, no execution is active if all are to be cancelled, and nobody begins to wait afterwards,
which the first evaluation makes possible by enabling the service again (`run_shutDown_iff`).
-/

open Lib

namespace N8n
namespace ActiveExecutions

/-- What shutting down `before` has brought about in a state after it. -/
structure ShutDown (before : ActiveExecutions) (cancelAll : Bool) (s : ActiveExecutions) : Prop where
  letThrough : s.letThrough = before.letThrough
  emptied : s.concurrencyControl.Idle
  cancelled : cancelAll = true →
    ∀ executionId ∈ before.activeExecutions.keys, executionId ∈ s.cancelled

/-- Whom the event throttles. -/
def throttleTarget (s : ActiveExecutions) : ExecutionEvent → Option CapacityTarget
  | .add executionMode (some executionId) =>
    if executionMode = .evaluation then none else some { executionId, mode := executionMode }
  | .created call executionId =>
    (s.calls[call]?).bind fun c =>
      if c.progress ≠ .creating ∨ executionId = "" ∨ c.executionMode = .evaluation then none
      else some { executionId, mode := c.executionMode }
  | .throttle executionId => some { executionId, mode := .evaluation }
  | _ => none

/-- The event makes an execution wait in a queue. -/
def throttles (s : ActiveExecutions) (event : ExecutionEvent) : Bool :=
  (s.throttleTarget event).any s.concurrencyControl.wouldWait

variable {s s' t : ActiveExecutions} {call : ℕ} {c : AddCall} {event : ExecutionEvent}
  {cancelAll : Bool}

/-! ## What stays as it is -/

/-- Where nobody waits, nobody is let through, and an execution begins to wait if `waits` says
so; no execution is cancelled. -/
structure Still (waits : Bool) (s s' : ActiveExecutions) : Prop where
  idle : s.concurrencyControl.Idle → (s'.concurrencyControl.Idle ↔ waits = false)
  letThrough : s.concurrencyControl.Idle → s'.letThrough = s.letThrough
  cancelled : s'.cancelled = s.cancelled
  executionsConfig : s'.executionsConfig = s.executionsConfig

/-- What is told of the queues is as it was. -/
structure Untouched (s s' : ActiveExecutions) : Prop where
  concurrencyControl : s'.concurrencyControl = s.concurrencyControl
  letThrough : s'.letThrough = s.letThrough
  cancelled : s'.cancelled = s.cancelled
  executionsConfig : s'.executionsConfig = s.executionsConfig

theorem Untouched.still (h : Untouched s s') : Still false s s' :=
  ⟨fun hidle => iff_of_true (h.concurrencyControl ▸ hidle) rfl, fun _ => h.letThrough, h.cancelled,
    h.executionsConfig⟩

theorem Untouched.refl (s : ActiveExecutions) : Untouched s s := ⟨rfl, rfl, rfl, rfl⟩

theorem Untouched.trans (h : Untouched s s') (h' : Untouched s' t) : Untouched s t :=
  ⟨h'.concurrencyControl.trans h.concurrencyControl, h'.letThrough.trans h.letThrough,
    h'.cancelled.trans h.cancelled, h'.executionsConfig.trans h.executionsConfig⟩

theorem Still.trans {waits : Bool} (h : Still false s s') (h' : Still waits s' t) :
    Still waits s t :=
  ⟨fun hidle => h'.idle ((h.idle hidle).mpr rfl),
    fun hidle => (h'.letThrough ((h.idle hidle).mpr rfl)).trans (h.letThrough hidle),
    h'.cancelled.trans h.cancelled, h'.executionsConfig.trans h.executionsConfig⟩

theorem letThroughOne_still_fields (s : ActiveExecutions)
    (through : ConcurrencyQueueType × String) :
    (s.letThroughOne through).concurrencyControl = s.concurrencyControl ∧
      (s.letThroughOne through).cancelled = s.cancelled ∧
      (s.letThroughOne through).executionsConfig = s.executionsConfig := by
  obtain ⟨type, executionId⟩ := through
  cases type with
  | evaluation => exact ⟨rfl, rfl, rfl⟩
  | production =>
    simp only [letThroughOne]
    split <;> exact ⟨rfl, rfl, rfl⟩

/-- A call of the service that lets nobody through where nobody waits. -/
theorem still_of_through {concurrencyControl : ConcurrencyControlService}
    {through : Option (ConcurrencyQueueType × String)}
    (h : s.concurrencyControl.Idle → concurrencyControl.Idle ∧ through = none) :
    Still false s (through.toList.foldl letThroughOne { s with concurrencyControl }) := by
  cases through with
  | none => exact ⟨fun hidle => iff_of_true (h hidle).1 rfl, fun _ => rfl, rfl, rfl⟩
  | some through =>
    obtain ⟨-, hcancelled, hconfig⟩ := letThroughOne_still_fields { s with concurrencyControl } through
    have hnone : ¬s.concurrencyControl.Idle := fun hidle => absurd (h hidle).2 (by simp)
    exact ⟨fun hidle => absurd hidle hnone, fun hidle => absurd hidle hnone, hcancelled, hconfig⟩

theorem releaseReservation_still (hs : s.releaseReservation call = .ok s') : Still false s s' := by
  unfold releaseReservation at hs
  split at hs
  · exact Except.ok.inj hs ▸ (Untouched.refl s).still
  · obtain ⟨⟨concurrencyControl, through⟩, hrelease, hs⟩ := bind_eq_ok.mp hs
    obtain rfl := Except.ok.inj hs
    exact (still_of_through fun hidle => hidle.release hrelease).trans (Untouched.still ⟨rfl, rfl, rfl, rfl⟩)

theorem reject_still (s : ActiveExecutions) (call : ℕ) : Still false s (s.reject call) := by
  unfold reject
  split
  · rename_i hrelease
    exact (releaseReservation_still hrelease).trans (Untouched.still ⟨rfl, rfl, rfl, rfl⟩)
  · exact Untouched.still ⟨rfl, rfl, rfl, rfl⟩

theorem markRunning_still (s : ActiveExecutions) (call : ℕ) (c : AddCall) :
    Still false s (s.markRunning call c) := by
  unfold markRunning
  split <;> exact Untouched.still ⟨rfl, rfl, rfl, rfl⟩

theorem goOn_still (s : ActiveExecutions) (call : ℕ) (c : AddCall) :
    Still false s (s.goOn call c) := by
  refine Still.trans ?_ (markRunning_still _ call c)
  exact Untouched.still ⟨rfl, rfl, rfl, rfl⟩

theorem runCallback_still (s : ActiveExecutions) (call : ℕ) (executionId : String)
    (execution : ExecutingWorkflowData) : Still false s (s.runCallback call executionId execution) := by
  unfold runCallback
  split
  · exact Untouched.still ⟨rfl, rfl, rfl, rfl⟩
  · rename_i hrelease
    refine (releaseReservation_still hrelease).trans ?_
    split <;> exact Untouched.still ⟨rfl, rfl, rfl, rfl⟩

theorem stopExecution_untouched (s : ActiveExecutions) (executionId : String) :
    Untouched s (s.stopExecution executionId) := by
  unfold stopExecution
  split
  · exact .refl s
  · split <;> exact ⟨rfl, rfl, rfl, rfl⟩

theorem callControl_still {called : Except ConcurrencyError
      (ConcurrencyControlService × Option (ConcurrencyQueueType × String))}
    (h : ∀ concurrencyControl through, called = .ok (concurrencyControl, through) →
      s.concurrencyControl.Idle → concurrencyControl.Idle ∧ through = none) :
    Still false s (s.callControl called) := by
  unfold callControl
  split
  · exact (Untouched.refl s).still
  · exact still_of_through (h _ _ rfl)

/-! ## Shutdown -/

theorem shutdownExecution_untouched (cancelAll : Bool) (s : ActiveExecutions) (executionId : String) :
    Untouched s (shutdownExecution cancelAll s executionId) := by
  unfold shutdownExecution
  split
  · exact stopExecution_untouched s executionId
  · split
    · exact .refl s
    · split <;> exact ⟨rfl, rfl, rfl, rfl⟩

theorem foldl_shutdownExecution_untouched (cancelAll : Bool) (s : ActiveExecutions)
    (executionIds : List String) :
    Untouched s (executionIds.foldl (shutdownExecution cancelAll) s) := by
  induction executionIds generalizing s with
  | nil => exact .refl s
  | cons executionId executionIds ih =>
    exact (shutdownExecution_untouched cancelAll s executionId).trans (ih _)

/-- In regular mode `removeAll` is called after the service was disabled. -/
theorem shutdown_keeps (cancelAll : Bool) (hregular : s.executionsConfig.mode = .regular) :
    Untouched { s with concurrencyControl := s.concurrencyControl.disable } (s.shutdown cancelAll) := by
  have hloop := foldl_shutdownExecution_untouched cancelAll
    { s with concurrencyControl := s.concurrencyControl.disable } s.activeExecutions.keys
  simp only [shutdown, if_pos hregular, hloop.concurrencyControl,
    ConcurrencyControlService.removeAll_disable, List.foldl_nil]
  exact hloop.trans ⟨hloop.concurrencyControl.symm, rfl, List.append_nil _, rfl⟩

/-! ## One event -/

theorem throttle_still {target : CapacityTarget} {concurrencyControl : ConcurrencyControlService}
    {through : Bool} (h : s.concurrencyControl.throttle target = .ok (concurrencyControl, through)) :
    Still (s.concurrencyControl.wouldWait target) s { s with concurrencyControl } := by
  refine ⟨fun hidle => (hidle.throttle_iff h).trans ?_, fun _ => rfl, rfl, rfl⟩
  simp [ConcurrencyControlService.wouldWait, h]

theorem wouldWait_of_error {target : CapacityTarget} {e : ConcurrencyError}
    (h : s.concurrencyControl.throttle target = .error e) :
    s.concurrencyControl.wouldWait target = false := by
  simp [ConcurrencyControlService.wouldWait, h]

theorem Still.of_untouched {waits : Bool} (h : Still waits s s') (h' : Untouched s' t) :
    Still waits s t :=
  ⟨fun hidle => h'.concurrencyControl ▸ h.idle hidle,
    fun hidle => h'.letThrough.trans (h.letThrough hidle), h'.cancelled.trans h.cancelled,
    h'.executionsConfig.trans h.executionsConfig⟩

theorem reserve_still (s : ActiveExecutions) (call : ℕ) (c : AddCall) :
    Still (c.executionMode ≠ .evaluation && s.concurrencyControl.wouldWait
      { executionId := c.executionId, mode := c.executionMode }) s (s.reserve call c) := by
  unfold reserve
  split
  · rename_i hmode
    simpa [hmode] using markRunning_still s call c
  · rename_i hmode
    rw [decide_eq_true hmode, Bool.true_and]
    split
    · rename_i h
      rw [wouldWait_of_error h]
      exact Untouched.still ⟨rfl, rfl, rfl, rfl⟩
    · rename_i h
      exact (throttle_still h).of_untouched ⟨rfl, rfl, rfl, rfl⟩
    · rename_i h
      exact (throttle_still h).of_untouched ⟨rfl, rfl, rfl, rfl⟩

theorem forget_untouched (s : ActiveExecutions) (target : CapacityTarget) :
    Untouched s (s.forget target) := by
  unfold forget
  split
  · split <;> exact ⟨rfl, rfl, rfl, rfl⟩
  · exact .refl s

theorem step_still (hregular : s.executionsConfig.mode = .regular) (hs : s.step event = .ok s') :
    Still (s.throttles event) s s' := by
  cases event with
  | add executionMode maybeExecutionId =>
    obtain rfl := Except.ok.inj hs
    cases maybeExecutionId with
    | none => exact Untouched.still ⟨rfl, rfl, rfl, rfl⟩
    | some executionId =>
      let c : AddCall :=
        { executionMode, maybeExecutionId := some executionId, executionId, progress := .creating }
      have hmade : Untouched s { s with calls := s.calls ++ [c] } := ⟨rfl, rfl, rfl, rfl⟩
      have hwaits : s.throttles (.add executionMode (some executionId)) =
          (executionMode ≠ .evaluation && s.concurrencyControl.wouldWait
            { executionId, mode := executionMode }) := by
        by_cases hmode : executionMode = .evaluation <;> simp [throttles, throttleTarget, hmode]
      rw [hwaits]
      exact hmade.still.trans (reserve_still { s with calls := s.calls ++ [c] } s.calls.length c)
  | created call executionId =>
    simp only [step] at hs
    split at hs
    · rename_i c hcall
      split at hs
      · rename_i hprogress
        have hmodified : Untouched s (s.modifyCall call fun c => { c with executionId }) :=
          ⟨rfl, rfl, rfl, rfl⟩
        obtain rfl := Except.ok.inj hs
        split
        · rename_i hempty
          have hwaits : s.throttles (.created call executionId) = false := by
            simp [throttles, throttleTarget, hcall, hempty]
          rw [hwaits]
          exact hmodified.still.trans (reject_still _ call)
        · rename_i hexecutionId
          have hwaits : s.throttles (.created call executionId) =
              (c.executionMode ≠ .evaluation && s.concurrencyControl.wouldWait
                { executionId, mode := c.executionMode }) := by
            by_cases hmode : c.executionMode = .evaluation <;>
              simp [throttles, throttleTarget, hcall, hprogress, hexecutionId, hmode]
          rw [hwaits]
          exact hmodified.still.trans (reserve_still (s.modifyCall call fun c => { c with executionId })
            call { c with executionId })
      · cases hs
    · cases hs
  | goesOn call =>
    simp only [step] at hs
    split at hs
    · split at hs
      · obtain rfl := Except.ok.inj hs
        exact goOn_still s call _
      · cases hs
    · cases hs
  | updated call =>
    simp only [step] at hs
    split at hs
    · split at hs
      · obtain rfl := Except.ok.inj hs
        exact Untouched.still ⟨rfl, rfl, rfl, rfl⟩
      · cases hs
    · cases hs
  | fails call =>
    simp only [step] at hs
    split at hs
    · obtain rfl := Except.ok.inj hs
      exact reject_still s call
    · obtain rfl := Except.ok.inj hs
      exact reject_still s call
    · cases hs
  | setStatus executionId status =>
    obtain rfl := Except.ok.inj hs
    unfold setStatus
    split <;> exact Untouched.still ⟨rfl, rfl, rfl, rfl⟩
  | stopExecution executionId =>
    obtain rfl := Except.ok.inj hs
    exact (stopExecution_untouched s executionId).still
  | finalizeExecution executionId =>
    obtain rfl := Except.ok.inj hs
    unfold finalizeExecution
    split <;> exact Untouched.still ⟨rfl, rfl, rfl, rfl⟩
  | callbackRuns call =>
    simp only [step] at hs
    split at hs
    · split at hs
      · obtain rfl := Except.ok.inj hs
        exact runCallback_still s _ _ _
      · cases hs
    · cases hs
  | throttle executionId =>
    simp only [step] at hs
    split at hs
    · rename_i h
      obtain rfl := Except.ok.inj hs
      have hwaits : s.throttles (.throttle executionId) = false := wouldWait_of_error h
      rw [hwaits]
      exact (Untouched.refl s).still
    · rename_i h
      obtain rfl := Except.ok.inj hs
      exact throttle_still h
  | release =>
    obtain rfl := Except.ok.inj hs
    exact callControl_still fun _ _ h hidle => hidle.release h
  | remove target =>
    obtain rfl := Except.ok.inj hs
    have hforget := forget_untouched s target
    exact hforget.still.trans (callControl_still fun _ _ h hidle =>
      ConcurrencyControlService.Idle.remove (hforget.concurrencyControl ▸ hidle) h)
  | shutdown cancelAll =>
    obtain rfl := Except.ok.inj hs
    have hdisabled : Still false s { s with concurrencyControl := s.concurrencyControl.disable } :=
      ⟨fun hidle => iff_of_true hidle rfl, fun _ => rfl, rfl, rfl⟩
    exact hdisabled.of_untouched (shutdown_keeps cancelAll hregular)

/-! ## Runs -/

variable {steps : List (ActiveExecutions × ExecutionEvent)} {control : ConcurrencyControlService}

/-- In regular mode no execution is ever passed to `cancelMany`. -/
theorem run_cancelled (h : Run step s steps t) (hregular : s.executionsConfig.mode = .regular) :
    ∀ state ∈ steps.map Prod.fst ++ [t],
      state.cancelled = s.cancelled ∧ state.executionsConfig = s.executionsConfig := by
  refine h.forall_states ⟨rfl, rfl⟩ fun s₁ event s₂ hs h => ?_
  have hstill := step_still (hs.2 ▸ hregular) h
  exact ⟨hstill.cancelled.trans hs.1, hstill.executionsConfig.trans hs.2⟩

/-- Nobody waits in any state of a run exactly when nobody begins to. -/
theorem run_idle_iff (h : Run step s steps t) (hregular : s.executionsConfig.mode = .regular)
    (hidle : s.concurrencyControl.Idle) :
    (∀ state ∈ steps.map Prod.fst ++ [t],
      state.letThrough = s.letThrough ∧ state.concurrencyControl.Idle) ↔
      ∀ x ∈ steps, x.1.throttles x.2 = false := by
  induction h with
  | nil => simpa using hidle
  | @snoc steps s₁ s₂ event h hs ih =>
    have hstill := step_still ((run_cancelled h hregular s₁ (by simp)).2 ▸ hregular) hs
    rw [List.map_append, @List.forall_mem_append _ _ (_ ++ _), @List.forall_mem_append _ _ steps,
      List.map_singleton, ih, List.forall_mem_singleton, List.forall_mem_singleton]
    refine and_congr_right fun hbefore => ?_
    obtain ⟨hthrough, hidle₁⟩ := ih.mpr hbefore s₁ (by simp)
    rw [hstill.idle hidle₁, hstill.letThrough hidle₁]
    exact and_iff_right hthrough

/-- Shutting down in regular mode does what it is meant to, in all states after it, exactly when
nobody waits in a queue, no execution is active that is to be cancelled, and nobody begins to wait
afterwards. -/
theorem run_shutDown_iff (h : Run step (initial control) steps s)
    (hregular : control.executionsConfig.mode = .regular)
    {later : List (ActiveExecutions × ExecutionEvent)}
    (hlater : Run step (s.shutdown cancelAll) later t) :
    (∀ state ∈ later.map Prod.fst ++ [t], ShutDown s cancelAll state) ↔
      s.concurrencyControl.Idle ∧ (cancelAll = true → s.activeExecutions.keys = []) ∧
        ∀ x ∈ later, x.1.throttles x.2 = false := by
  obtain ⟨hcancelled, hconfig⟩ := run_cancelled h hregular s (by simp)
  have hkept := shutdown_keeps cancelAll (hconfig ▸ hregular : s.executionsConfig.mode = .regular)
  have hregular' : (s.shutdown cancelAll).executionsConfig.mode = .regular :=
    (hkept.executionsConfig.trans hconfig) ▸ hregular
  have hnone : ∀ state ∈ later.map Prod.fst ++ [t], state.cancelled = [] := fun state hstate =>
    (run_cancelled hlater hregular' state hstate).1.trans (hkept.cancelled.trans hcancelled)
  have hidle : (s.shutdown cancelAll).concurrencyControl.Idle ↔ s.concurrencyControl.Idle := by
    rw [hkept.concurrencyControl]
    exact Iff.rfl
  have hthrough : (s.shutdown cancelAll).letThrough = s.letThrough := hkept.letThrough
  constructor
  · intro hdown
    have hfirst := hdown _ hlater.init_mem
    have hwaits := hidle.mp hfirst.emptied
    refine ⟨hwaits, fun hall => ?_, (run_idle_iff hlater hregular' hfirst.emptied).mp fun state hstate =>
      ⟨(hdown state hstate).letThrough.trans hthrough.symm, (hdown state hstate).emptied⟩⟩
    refine List.eq_nil_iff_forall_not_mem.mpr fun executionId hactive => ?_
    have := hfirst.cancelled hall executionId hactive
    rw [hnone _ hlater.init_mem] at this
    cases this
  · rintro ⟨hwaits, hactive, hthrottles⟩ state hstate
    obtain ⟨hstate', hemptied⟩ :=
      (run_idle_iff hlater hregular' (hidle.mpr hwaits)).mpr hthrottles state hstate
    refine ⟨hstate'.trans hthrough, hemptied, fun hall executionId hmem => ?_⟩
    rw [hactive hall] at hmem
    cases hmem

/-- The only execution has finished before, and one that is added afterwards is let through at
once. -/
theorem run_shutDown_idle : ∃ steps s later t, Run step (initial oneAtATime) steps s ∧
    Run step (s.shutdown true) later t ∧ t.calls.map AddCall.executionId = ["1", "2"] ∧
    ∀ state ∈ later.map Prod.fst ++ [t], ShutDown s true state := by
  have hevents : (do
      let before ← runSteps step (initial oneAtATime)
        [.add .webhook none, .created 0 "1", .goesOn 0, .updated 0, .finalizeExecution "1",
          .callbackRuns 0]
      let after ← runSteps step (before.2.shutdown true) [.add .webhook none, .created 1 "2", .goesOn 1]
      return (after.2.calls.map AddCall.executionId, before.2.concurrencyControl.queues.values.all
        (fun queue => queue.queue = []), before.2.activeExecutions.keys,
        after.1.all fun x => !x.1.throttles x.2)) =
        (.ok (["1", "2"], true, [], true) : Except Unit _) := by
    decide
  obtain ⟨before, hbefore, h⟩ := bind_eq_ok.mp hevents
  obtain ⟨after, hafter, h⟩ := bind_eq_ok.mp h
  obtain ⟨hids, h⟩ := Prod.mk.inj (Except.ok.inj h)
  obtain ⟨hidle, h⟩ := Prod.mk.inj h
  obtain ⟨hactive, hthrottles⟩ := Prod.mk.inj h
  have hrun := (run_of_runSteps hbefore).1
  have hlater := (run_of_runSteps hafter).1
  refine ⟨_, _, _, _, hrun, hlater, hids, (run_shutDown_iff hrun rfl hlater).mpr
    ⟨fun type queue hget => ?_, fun _ => hactive, by simpa using hthrottles⟩⟩
  have hmem : queue ∈ before.2.concurrencyControl.queues.values :=
    OrderedMap.mem_values_iff.mpr ⟨type, hget⟩
  exact of_decide_eq_true (List.all_eq_true.mp hidle queue hmem)

/-- Of two executions the second waits for the first : shutting down leaves it in the queue and
cancels neither, and it is let through after an evaluation has enabled the service again. -/
theorem run_not_shutDown : ∃ steps s later t, Run step (initial oneAtATime) steps s ∧
    Run step (s.shutdown true) later t ∧ ¬ShutDown s true (s.shutdown true) ∧
    t.letThrough ≠ s.letThrough := by
  have hevents : (do
      let before ← runSteps step (initial oneAtATime)
        [.add .webhook none, .created 0 "1", .goesOn 0, .updated 0, .add .webhook none,
          .created 1 "2"]
      let after ← runSteps step (before.2.shutdown true) [.throttle "case", .callbackRuns 0]
      return (before.2.activeExecutions.keys, (before.2.shutdown true).cancelled,
        before.2.letThrough.map Prod.snd, after.2.letThrough.map Prod.snd)) =
        (.ok (["1"], [], [], ["2"]) : Except Unit _) := by
    decide
  obtain ⟨before, hbefore, h⟩ := bind_eq_ok.mp hevents
  obtain ⟨after, hafter, h⟩ := bind_eq_ok.mp h
  obtain ⟨hactive, h⟩ := Prod.mk.inj (Except.ok.inj h)
  obtain ⟨hcancelled, h⟩ := Prod.mk.inj h
  obtain ⟨hthrough, hthrough'⟩ := Prod.mk.inj h
  refine ⟨_, _, _, _, (run_of_runSteps hbefore).1, (run_of_runSteps hafter).1, fun hdown => ?_, ?_⟩
  · have := hdown.cancelled rfl "1" (hactive ▸ List.mem_singleton_self "1")
    rw [hcancelled] at this
    cases this
  · intro hsame
    rw [hsame, hthrough] at hthrough'
    simp at hthrough'

end ActiveExecutions
end N8n
