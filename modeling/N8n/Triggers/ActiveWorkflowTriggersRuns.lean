import N8n.Triggers.ActiveWorkflowTriggers

/-!
# Runs of the active workflow triggers

Most steps keep the record of every response that stays open (`Keeps`) : a trigger is closed
before its registration is deleted. What they do not keep it from is that a response is recorded
meanwhile where it is then deleted, or in a state object that was deleted. As long as no step
does so, all open triggers are recorded (`activeTriggers_run`).
-/

open Lib

namespace N8n

/-! ## State objects -/

namespace WorkflowActiveTriggersState

variable {N : Type} [DecidableEq N] {triggers : WorkflowActiveTriggersState N} {node m : N}

theorem get_getOrCreateRegistration (triggers : WorkflowActiveTriggersState N) (node m : N) :
    (triggers.getOrCreateRegistration node).1.get m = triggers.get m := by
  unfold getOrCreateRegistration
  split
  · rfl
  · rename_i hnone
    simp only [get, OrderedMap.get?_set]
    split
    · rename_i hm
      rw [← hm, hnone]
      rfl
    · rfl

@[simp] theorem get_addPoller : (triggers.addPoller node).get m = triggers.get m :=
  get_getOrCreateRegistration triggers node m

@[simp] theorem get_addScheduledTrigger :
    (triggers.addScheduledTrigger node).get m = triggers.get m :=
  get_getOrCreateRegistration triggers node m

@[simp] theorem get_beginRegistration : triggers.beginRegistration.get m = triggers.get m := rfl

@[simp] theorem get_finishRegistration : triggers.finishRegistration.get m = triggers.get m := rfl

theorem get_addTriggerResponse {response : ℕ} :
    (triggers.addTriggerResponse node response).get m =
      if node = m then some response else triggers.get m := by
  have hget := get_getOrCreateRegistration triggers node m
  simp only [get, addTriggerResponse] at hget ⊢
  rw [OrderedMap.get?_set]
  split
  · rfl
  · exact hget

theorem get_delete : (triggers.delete node).get m = if node = m then none else triggers.get m := by
  simp only [get, delete, OrderedMap.get?_delete]
  split <;> rfl

/-- The iterator that begins and finds nothing. -/
theorem get_of_nextResponse (h : triggers.nextResponse 0 = none) : triggers.get m = none := by
  cases hm : triggers.registrationsByNodeId.get? m with
  | none => rw [get, hm, Option.bind_none]
  | some registration =>
    have hnone := List.findSome?_eq_none_iff.mp h registration
      (OrderedMap.mem_values_iff.mpr ⟨m, hm⟩)
    rw [if_neg (Nat.not_lt_zero _), Option.map_eq_none_iff] at hnone
    rw [get, hm, Option.bind_some, hnone]

theorem get_of_isEmpty (h : triggers.isEmpty = true) : triggers.get m = none := by
  have hsize : triggers.registrationsByNodeId.size = 0 := of_decide_eq_true h
  have hnot : m ∉ triggers.registrationsByNodeId.keys := by
    rw [List.length_eq_zero_iff.mp ((OrderedMap.length_keys _).trans hsize)]
    exact List.not_mem_nil
  rw [get, OrderedMap.get?_eq_none_iff.mpr hnot]
  rfl

end WorkflowActiveTriggersState

open WorkflowActiveTriggersState

namespace ActiveWorkflowTriggers

variable {W N : Type} {active active' : ActiveWorkflowTriggers W N} {triggers call response : ℕ}
  {node : N} {workflowId : W}

variable {f : WorkflowActiveTriggersState N → WorkflowActiveTriggersState N}

theorem stateAt_updateState {t : ℕ} :
    (active.updateState triggers f).stateAt t =
      if triggers = t ∧ t < active.states.length then f (active.stateAt t) else active.stateAt t := by
  simp only [stateAt, updateState, List.getD_eq_getElem?_getD, List.getElem?_modify]
  by_cases ht : t < active.states.length
  · by_cases heq : triggers = t <;> simp [heq, ht]
  · simp [ht]

variable [DecidableEq W] [DecidableEq N]

omit [DecidableEq W] in
theorem isOpen_of_holdsOpen {t : ℕ} {m : N} (h : (active.stateAt t).get m = some response) :
    active.isOpen response = active.holdsOpen t m := by
  rw [holdsOpen, h, Option.any_some]

omit [DecidableEq W] [DecidableEq N] in
theorem getD_append_default {states : List (WorkflowActiveTriggersState N)} (t : ℕ) :
    (states ++ [({} : WorkflowActiveTriggersState N)]).getD t {} = states.getD t {} := by
  simp only [List.getD_eq_getElem?_getD, List.getElem?_append]
  split
  · rfl
  · rename_i hlt
    rw [List.getElem?_eq_none (by omega : states.length ≤ t)]
    cases t - states.length <;> rfl

/-- The map refers to objects that were created. -/
def Allocated (active : ActiveWorkflowTriggers W N) : Prop :=
  ∀ workflowId triggers, active.activeTriggersByWorkflowId.get? workflowId = some triggers →
    triggers < active.states.length

/-- What stays open stays recorded. -/
structure Keeps (active active' : ActiveWorkflowTriggers W N) : Prop where
  isOpen : ∀ response, active'.isOpen response = true → active.isOpen response = true
  recorded : ∀ response, active'.isOpen response = true → active.Recorded response →
    active'.Recorded response
  allocated : active.Allocated → active'.Allocated

namespace Keeps

theorem refl (active : ActiveWorkflowTriggers W N) : Keeps active active :=
  ⟨fun _ h => h, fun _ _ h => h, fun h => h⟩

theorem trans {active'' : ActiveWorkflowTriggers W N} (h : Keeps active active')
    (h' : Keeps active' active'') : Keeps active active'' :=
  ⟨fun r hr => h.isOpen r (h'.isOpen r hr),
    fun r hr hrecorded => h'.recorded r hr (h.recorded r (h'.isOpen r hr) hrecorded),
    fun hallocated => h'.allocated (h.allocated hallocated)⟩

/-- The calls and the crons have no part in it. -/
theorem of_eq (hmap : active'.activeTriggersByWorkflowId = active.activeTriggersByWorkflowId)
    (hstates : active'.states = active.states) (hresponses : active'.responses = active.responses) :
    Keeps active active' := by
  refine ⟨fun r hr => ?_, fun r _ h => ?_, fun h => ?_⟩
  · rwa [ActiveWorkflowTriggers.isOpen, ← hresponses]
  · simpa only [Recorded, stateAt, hmap, hresponses, hstates] using h
  · rwa [Allocated, hmap, hstates]

/-- A state object changes, but for registrations with no open response. -/
theorem updateState
    (hf : ∀ m, (f (active.stateAt triggers)).get m = (active.stateAt triggers).get m ∨
      active.holdsOpen triggers m = false) : Keeps active (active.updateState triggers f) := by
  refine ⟨fun r hr => hr, fun r hr hrecorded => ?_, fun h w t ht => ?_⟩
  · obtain ⟨x, hx, t, ht, m, hm⟩ := hrecorded
    refine ⟨x, hx, t, ht, m, ?_⟩
    rw [stateAt_updateState]
    split
    · rename_i heq
      obtain ⟨rfl, -⟩ := heq
      rcases hf m with hsame | hnot
      · rw [hsame, hm]
      · have hclosed := (isOpen_of_holdsOpen hm).trans hnot
        exact absurd (show active.isOpen r = true from hr) (by rw [hclosed]; simp)
    · exact hm
  · have hlt := h w t ht
    rwa [ActiveWorkflowTriggers.updateState, List.length_modify]

theorem updateState_of_get
    (hf : ∀ m, (f (active.stateAt triggers)).get m = (active.stateAt triggers).get m) :
    Keeps active (active.updateState triggers f) :=
  updateState fun m => .inl (hf m)

theorem delete (h : active.holdsOpen triggers node = false) :
    Keeps active (active.updateState triggers (·.delete node)) := by
  refine updateState fun m => ?_
  by_cases hm : node = m
  · exact .inr (hm ▸ h)
  · exact .inl (by rw [get_delete, if_neg hm])

theorem closeTrigger : Keeps active (active.closeTrigger response) := by
  have hget : ∀ r, (active.closeTrigger response).responses[r]? =
      (active.responses[r]?).map fun x =>
        if response = r then if x.closeFunction then { x with closeCalled := true } else x else x := by
    intro r
    rw [ActiveWorkflowTriggers.closeTrigger, List.getElem?_modify]
    by_cases hr : response = r <;> simp [hr]
  refine ⟨fun r hr => ?_, fun r _ hrecorded => ?_, fun h => h⟩
  · rw [ActiveWorkflowTriggers.isOpen, hget, Option.any_map, Option.any_eq_true] at hr
    rw [ActiveWorkflowTriggers.isOpen, Option.any_eq_true]
    obtain ⟨x, hx, hopen⟩ := hr
    refine ⟨x, hx, ?_⟩
    split at hopen
    · split at hopen
      · simp [TriggerResponse.isOpen] at hopen
      · exact hopen
    · exact hopen
  · obtain ⟨x, hx, hrecorded⟩ := hrecorded
    refine ⟨_, by rw [hget, hx, Option.map_some], ?_⟩
    have hworkflow : ∀ x : TriggerResponse W, (if response = r then
        if x.closeFunction then { x with closeCalled := true } else x else x).workflowId =
          x.workflowId := by
      intro x
      split
      · split <;> rfl
      · rfl
    rw [hworkflow]
    exact hrecorded

theorem deleteWorkflow (h : ∀ t, active.activeTriggersByWorkflowId.get? workflowId = some t →
    ∀ m, active.holdsOpen t m = false) : Keeps active (active.deleteWorkflow workflowId) := by
  refine ⟨fun r hr => hr, fun r hr hrecorded => ?_, fun h w t ht => ?_⟩
  · obtain ⟨x, hx, t, ht, m, hm⟩ := hrecorded
    refine ⟨x, hx, t, ?_, m, hm⟩
    rw [ActiveWorkflowTriggers.deleteWorkflow, OrderedMap.get?_delete, if_neg]
    · exact ht
    · rintro rfl
      have hnot := (isOpen_of_holdsOpen hm).trans (h t ht m)
      exact absurd (show active.isOpen r = true from hr) (by rw [hnot]; simp)
  · rw [ActiveWorkflowTriggers.deleteWorkflow, OrderedMap.get?_delete] at ht
    split at ht
    · cases ht
    · exact h w t ht

theorem deleteWorkflowIfEmpty :
    Keeps active (active.deleteWorkflowIfEmpty workflowId triggers) := by
  unfold ActiveWorkflowTriggers.deleteWorkflowIfEmpty
  split
  · exact refl active
  · rename_i hcurrent
    rw [not_not] at hcurrent
    split
    · exact refl active
    · rename_i hempty
      split
      · exact refl active
      · refine deleteWorkflow fun t ht m => ?_
        obtain rfl := Option.some.inj (hcurrent.symm.trans ht)
        rw [holdsOpen, get_of_isEmpty]
        · rfl
        · exact (by simpa using hempty : _ ∧ _).1

theorem getOrCreateWorkflowTriggersState :
    Keeps active (active.getOrCreateWorkflowTriggersState workflowId).1 := by
  unfold ActiveWorkflowTriggers.getOrCreateWorkflowTriggersState
  split
  · exact refl active
  · rename_i hnone
    refine ⟨fun r hr => hr, fun r hr hrecorded => ?_, fun h w t ht => ?_⟩
    · obtain ⟨x, hx, t, ht, m, hm⟩ := hrecorded
      refine ⟨x, hx, t, ?_, m, ?_⟩
      · dsimp only
        rw [OrderedMap.get?_set_of_ne]
        · exact ht
        · rintro rfl
          rw [hnone] at ht
          cases ht
      · rwa [stateAt, getD_append_default]
    · dsimp only at ht ⊢
      rw [OrderedMap.get?_set] at ht
      rw [List.length_append, List.length_singleton]
      split at ht
      · cases ht
        omega
      · exact Nat.lt_succ_of_lt (h w t ht)

theorem setProgress {progress : TriggerCallProgress N} :
    Keeps active (active.setProgress call progress) :=
  of_eq rfl rfl rfl

theorem deregisterTarget : Keeps active (active.deregisterTarget workflowId node) :=
  of_eq rfl rfl rfl

theorem foldl_deregisterTarget {nodes : List N} : Keeps active
    (nodes.foldl (fun active node => active.deregisterTarget workflowId node) active) := by
  induction nodes generalizing active with
  | nil => exact refl active
  | cons node nodes ih => exact deregisterTarget.trans ih

/-! ## Calls -/

theorem startTriggers {triggerNodes pollNodes : List N} {attempted registered : OrderedSet N} :
    Keeps active (active.startTriggers triggers triggerNodes pollNodes attempted registered).1 := by
  unfold ActiveWorkflowTriggers.startTriggers
  split
  · exact refl active
  · exact updateState_of_get fun m => get_addPoller
  · exact refl active

theorem rollbackLoop {nodes : List N} :
    Keeps active (ActiveWorkflowTriggers.rollbackLoop triggers nodes active).1 := by
  induction nodes generalizing active with
  | nil => exact refl active
  | cons node nodes ih =>
    unfold ActiveWorkflowTriggers.rollbackLoop
    split
    · rename_i hnone
      exact (delete (by rw [holdsOpen, hnone]; rfl)).trans ih
    · exact closeTrigger

theorem rollbackPartialActivation {attempted registered : OrderedSet N} : Keeps active
    (active.rollbackPartialActivation workflowId triggers attempted registered).1 :=
  foldl_deregisterTarget.trans rollbackLoop

theorem removeTriggersLoop {nodes : List N} : Keeps active
    (ActiveWorkflowTriggers.removeTriggersLoop workflowId triggers nodes active).1 := by
  induction nodes generalizing active with
  | nil => exact deleteWorkflowIfEmpty
  | cons node nodes ih =>
    unfold ActiveWorkflowTriggers.removeTriggersLoop
    refine Keeps.trans (deregisterTarget : Keeps active (active.deregisterTarget workflowId node)) ?_
    dsimp only
    split
    · rename_i hnone
      exact (delete (by rw [holdsOpen, hnone]; rfl)).trans ih
    · exact closeTrigger

/-- When the iterator is done, the state object of the workflow is deleted. -/
theorem removeLoop {cursor : ℕ}
    (h : (active.stateAt triggers).nextResponse cursor = none →
      ∀ t, active.activeTriggersByWorkflowId.get? workflowId = some t →
        ∀ m, active.holdsOpen t m = false) :
    Keeps active (active.removeLoop workflowId triggers cursor).1 := by
  unfold ActiveWorkflowTriggers.removeLoop
  split
  · exact closeTrigger
  · rename_i hnone
    exact deleteWorkflow (h hnone)

variable {result : ActiveWorkflowTriggers W N × TriggerCallProgress N}

theorem continueCall (h : Keeps active result.1) : Keeps active (continueCall call result) :=
  h.trans setProgress

theorem pushCall (h : Keeps active result.1) : Keeps active (pushCall workflowId triggers result) :=
  h.trans (of_eq rfl rfl rfl)

end Keeps

/-! ## Steps -/

/-- Every open response is recorded, whatever calls are in progress. -/
structure Sound (active : ActiveWorkflowTriggers W N) : Prop where
  allocated : active.Allocated
  recorded : ∀ response, active.isOpen response = true → active.Recorded response

theorem sound_initial : Sound ({} : ActiveWorkflowTriggers W N) := by
  refine ⟨fun w t ht => ?_, fun r hr => ?_⟩
  · cases ht
  · cases hr

theorem Sound.keeps (h : Sound active) (hkeeps : Keeps active active') : Sound active' :=
  ⟨hkeeps.allocated h.allocated,
    fun r hr => hkeeps.recorded r hr (h.recorded r (hkeeps.isOpen r hr))⟩

theorem Sound.tracked (h : Sound active) : active.Tracked := fun _ => h.recorded

/-- A response that was started is recorded. -/
theorem Sound.addTriggerResponse (h : Sound active) (new : TriggerResponse W)
    (hcurrent : new.isOpen = true →
      active.activeTriggersByWorkflowId.get? new.workflowId = some triggers)
    (hnode : active.holdsOpen triggers node = false) :
    Sound (({ active with responses := active.responses ++ [new] } :
      ActiveWorkflowTriggers W N).updateState triggers
        (·.addTriggerResponse node active.responses.length)) := by
  refine ⟨fun w t ht => ?_, fun r hr => ?_⟩
  · rw [ActiveWorkflowTriggers.updateState, List.length_modify]
    exact h.allocated w t ht
  · replace hr : Option.any TriggerResponse.isOpen (active.responses ++ [new])[r]? = true := hr
    rcases Nat.lt_trichotomy r active.responses.length with hlt | rfl | hgt
    · -- The response was recorded, and it is not the one that is replaced.
      have hget : (active.responses ++ [new])[r]? = active.responses[r]? :=
        List.getElem?_append_left hlt
      have hopen : active.isOpen r = true := by
        rwa [isOpen, ← hget]
      obtain ⟨x, hx, t, ht, m, hm⟩ := h.recorded r hopen
      refine ⟨x, hget.trans hx, t, ht, m, ?_⟩
      rw [stateAt_updateState]
      split
      · rename_i heq
        obtain ⟨rfl, -⟩ := heq
        rw [get_addTriggerResponse, if_neg]
        · exact hm
        · rintro rfl
          rw [← isOpen_of_holdsOpen hm, hopen] at hnode
          cases hnode
      · exact hm
    · have hget : (active.responses ++ [new])[active.responses.length]? = some new :=
        List.getElem?_concat_length
      rw [hget, Option.any_some] at hr
      refine ⟨new, hget, triggers, hcurrent hr, node, ?_⟩
      rw [stateAt_updateState, if_pos ⟨rfl, h.allocated _ _ (hcurrent hr)⟩,
        get_addTriggerResponse, if_pos rfl]
    · rw [List.getElem?_eq_none (by rw [List.length_append, List.length_singleton]; omega)] at hr
      cases hr

omit [DecidableEq W] in
theorem holdsOpen_of_holdsAnyOpen (h : active.holdsAnyOpen triggers = false) (m : N) :
    active.holdsOpen triggers m = false := by
  by_cases hm : m ∈ (active.stateAt triggers).registrationsByNodeId.keys
  · simpa using List.any_eq_false.mp h m hm
  · rw [holdsOpen, WorkflowActiveTriggersState.get, OrderedMap.get?_eq_none_iff.mpr hm]
    rfl

/-- The registration or the state object that is deleted after a close has no open response. -/
theorem Keeps.closeSettled {c : TriggerCall W N} {failure : Option CloseFailure}
    (hresult : active.closeSettled c failure = .ok result)
    (hevent : active.losesNoneClosing c failure = true) : Keeps active result.1 := by
  unfold ActiveWorkflowTriggers.closeSettled at hresult
  unfold losesNoneClosing at hevent
  split at hresult
  · rename_i node nodes hprogress
    cases hresult
    rw [hprogress, Bool.not_eq_true'] at hevent
    exact (delete hevent).trans rollbackLoop
  · rename_i node nodes hprogress
    rw [hprogress] at hevent
    split at hresult
    · cases hresult
      exact refl active
    · rename_i hfailure
      cases hresult
      simp only [hfailure, decide_false, Bool.false_or, Bool.not_eq_true'] at hevent
      exact (delete hevent).trans removeTriggersLoop
  · rename_i cursor hprogress
    rw [hprogress] at hevent
    split at hresult
    · cases hresult
      exact refl active
    · rename_i hfailure
      cases hresult
      refine removeLoop fun hnone t ht m => ?_
      simp only [hfailure, decide_false, Bool.false_or, hnone, Option.isSome_none, ht,
        Option.any_some, Bool.not_eq_true'] at hevent
      exact holdsOpen_of_holdsAnyOpen hevent m
  · cases hresult

theorem Sound.step (h : Sound active) {event : ActiveTriggersEvent W N}
    (hs : active.step event = .ok active') (hevent : active.losesNone event = true) :
    Sound active' := by
  cases event with
  | addTriggers workflowId triggerNodes pollNodes nodeIds =>
    simp only [ActiveWorkflowTriggers.step] at hs
    split at hs
    · cases hs
      exact h
    · cases hs
      exact h.keeps (Keeps.pushCall (Keeps.getOrCreateWorkflowTriggersState.trans
        ((Keeps.updateState_of_get fun m => get_beginRegistration).trans Keeps.startTriggers)))
  | removeTriggers workflowId nodeIds =>
    simp only [ActiveWorkflowTriggers.step] at hs
    split at hs
    · cases hs
      exact h.keeps Keeps.foldl_deregisterTarget
    · cases hs
      exact h.keeps (Keeps.pushCall Keeps.removeTriggersLoop)
  | remove workflowId =>
    simp only [ActiveWorkflowTriggers.step] at hs
    have hgroup : Keeps active (active.deregisterGroup workflowId) := .of_eq rfl rfl rfl
    split at hs
    · cases hs
      exact h.keeps hgroup
    · rename_i triggers hcurrent
      cases hs
      refine h.keeps (hgroup.trans (Keeps.pushCall (Keeps.removeLoop fun hnone t ht m => ?_)))
      obtain rfl := Option.some.inj (hcurrent.symm.trans ht)
      rw [holdsOpen, get_of_nextResponse hnone]
      rfl
  | registerCron workflowId nodeId =>
    cases hs
    exact h.keeps (.of_eq rfl rfl rfl)
  | triggerSettled call outcome =>
    simp only [ActiveWorkflowTriggers.step] at hs
    split at hs
    · rename_i c hc
      split at hs
      · rename_i node triggerNodes pollNodes attempted registered hprogress
        cases hs
        refine Sound.keeps ?_ Keeps.setProgress
        cases outcome with
        | response closeFunction =>
          simp only [losesNone, hc, hprogress, Bool.and_eq_true, Bool.or_eq_true,
            Bool.not_eq_true', decide_eq_true_eq] at hevent
          refine (h.addTriggerResponse { workflowId := c.workflowId, closeFunction }
            (fun hopen => ?_) hevent.2).keeps Keeps.startTriggers
          exact hevent.1.resolve_left fun hclose => by simp [TriggerResponse.isOpen, hclose] at hopen
        | undefined =>
          unfold ActiveWorkflowTriggers.triggerSettled
          dsimp only
          split
          · exact h.keeps ((Keeps.updateState_of_get fun m => get_addScheduledTrigger).trans
              Keeps.startTriggers)
          · exact h.keeps Keeps.startTriggers
        | throws => exact h.keeps Keeps.rollbackPartialActivation
      · cases hs
    · cases hs
  | pollSettled call throws =>
    simp only [ActiveWorkflowTriggers.step] at hs
    split at hs
    · split at hs
      · split at hs
        · cases hs
          exact h.keeps Keeps.rollbackPartialActivation.continueCall
        · cases hs
          exact h.keeps Keeps.startTriggers.continueCall
      · cases hs
    · cases hs
  | closeSettled call failure =>
    simp only [ActiveWorkflowTriggers.step] at hs
    split at hs
    · rename_i c hc
      obtain ⟨result, hresult, hs⟩ := bind_eq_ok.mp hs
      cases hs
      refine h.keeps (Keeps.continueCall ?_)
      simp only [losesNone, hc] at hevent
      exact Keeps.closeSettled hresult hevent
    · cases hs
  | finish call =>
    simp only [ActiveWorkflowTriggers.step] at hs
    split at hs
    · split at hs
      · cases hs
        exact h.keeps ((Keeps.updateState_of_get fun m => get_finishRegistration).trans
          Keeps.deleteWorkflowIfEmpty).continueCall
      · cases hs
    · cases hs

/-! ## Runs -/

variable {steps : List (ActiveWorkflowTriggers W N × ActiveTriggersEvent W N)}

/-- In a run no step of which loses an open response, every open response is recorded whenever
no call is in progress. -/
theorem activeTriggers_run (h : Run step {} steps active)
    (hsteps : ∀ x ∈ steps, x.1.losesNone x.2 = true) :
    ∀ state ∈ steps.map Prod.fst ++ [active], state.Tracked := fun state hstate =>
  (h.forall_states_of sound_initial (fun _ _ _ hs hC hstep => hs.step hstep hC) hsteps state
    hstate).tracked

/-- Two triggers are started, the start of a third fails and is rolled back, and one of the two
is removed. -/
theorem activeTriggers_run_rollback : ∃ steps, ∃ active : ActiveWorkflowTriggers ℕ ℕ,
    Run step {} steps active ∧
    active.responses.map TriggerResponse.isOpen = [false, true, false] ∧
    ∀ state ∈ steps.map Prod.fst ++ [active], state.Tracked := by
  have hevents : (runSteps step ({} : ActiveWorkflowTriggers ℕ ℕ)
      [.addTriggers 1 [10, 11, 12] [] [10, 11], .triggerSettled 0 (.response true),
        .triggerSettled 0 (.response true), .finish 0, .addTriggers 1 [12, 13] [] [12, 13],
        .triggerSettled 1 (.response true), .removeTriggers 1 ⟨[10], List.nodup_singleton _⟩,
        .triggerSettled 1 .throws, .closeSettled 2 none, .closeSettled 1 (some .other),
        .finish 1]).map (fun r => (r.2.responses.map TriggerResponse.isOpen,
          r.1.all fun x => x.1.losesNone x.2)) = .ok ([false, true, false], true) := by
    decide
  obtain ⟨steps, active, hrun, -, hresult⟩ := exists_run hevents
  obtain ⟨hopen, hsteps⟩ := Prod.mk.inj hresult
  exact ⟨steps, active, hrun, hopen, activeTriggers_run hrun (List.all_eq_true.mp hsteps)⟩

/-- A workflow is removed while a trigger of it starts. -/
theorem activeTriggers_run_removed : ¬∀ steps, ∀ active : ActiveWorkflowTriggers ℕ ℕ,
    Run step {} steps active → active.Tracked := by
  intro h
  have hevents : (runSteps step ({} : ActiveWorkflowTriggers ℕ ℕ)
      [.addTriggers 1 [10] [] [10], .remove 1, .triggerSettled 0 (.response true),
        .finish 0]).map (fun r => (r.2.calls.all (·.progress.isReturned), r.2.isOpen 0,
          r.2.responses.map TriggerResponse.workflowId,
          r.2.activeTriggersByWorkflowId.get? 1)) = .ok (true, true, [1], none) := by
    decide
  obtain ⟨steps, active, hrun, -, hresult⟩ := exists_run hevents
  obtain ⟨hreturned, hrest⟩ := Prod.mk.inj hresult
  obtain ⟨hopen, hrest⟩ := Prod.mk.inj hrest
  obtain ⟨hworkflows, hmap⟩ := Prod.mk.inj hrest
  obtain ⟨r, hr, triggers, hget, -⟩ :=
    h steps active hrun (fun c hc => List.all_eq_true.mp hreturned c hc) 0 hopen
  have hworkflow : r.workflowId = 1 := by
    have hmem := List.mem_map_of_mem (f := TriggerResponse.workflowId) (List.mem_of_getElem? hr)
    rw [hworkflows] at hmem
    exact List.mem_singleton.mp hmem
  rw [hworkflow, hmap] at hget
  cases hget

end ActiveWorkflowTriggers

end N8n
