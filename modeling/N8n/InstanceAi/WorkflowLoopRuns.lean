import N8n.InstanceAi.WorkflowLoop
import N8n.Lib.Run

/-!
# The workflow build loop stops

How many reports the loop still takes is bounded by its phase and what is left of its budgets
(`reportsLeft`), and every report brings the bound down : a build that is not submitted uses up
one of the budgets, a repair is asked for only while there is one left and its build uses it up,
and everything else ends the loop.

A repair is recorded with the signature of its verdict, and none is asked for with a signature
that was recorded (`workflowLoop_run`). A verdict whose signature is the empty string counts as
one that has none, and may be repaired again (`workflowLoop_run_emptySignature`).
-/

open Lib

namespace N8n

open WorkflowLoop

namespace WorkflowBuildLoop

variable {P : Type} {state : WorkflowLoopState} {attempts : List AttemptRecord}
  {loop loop' : WorkflowBuildLoop}

/-! ## What is left -/

/-- How many reports the loop can take yet. -/
def reportsLeft (state : WorkflowLoopState) : ℕ :=
  match state.phase with
  | .building => MAX_PRE_SAVE_SUBMIT_FAILURES - state.preSaveSubmitFailures.getD 0 +
      (2 * MAX_POST_SUBMIT_REMEDIATION_SUBMITS + 1)
  | .verifying => 2 * remainingPostSubmitRemediations state + 1
  | .repairing => 2 * remainingPostSubmitRemediations state
  | .done | .blocked => 0

/-- A build is the first to be submitted or a repair, and there is a budget for it. -/
structure WithinBudget (state : WorkflowLoopState) : Prop where
  building : state.phase = .building → state.successfulSubmitSeen.getD false = false ∧
    state.preSaveSubmitFailures.getD 0 < MAX_PRE_SAVE_SUBMIT_FAILURES
  verifying : state.phase = .verifying → state.successfulSubmitSeen.getD false = true
  repairing : state.phase = .repairing → state.successfulSubmitSeen.getD false = true ∧
    state.postSubmitRemediationSubmitsUsed.getD 0 < MAX_POST_SUBMIT_REMEDIATION_SUBMITS

theorem withinBudget_of_finished (h : state.phase = .done ∨ state.phase = .blocked) :
    WithinBudget state ∧ reportsLeft state = 0 := by
  refine ⟨⟨fun hphase => ?_, fun hphase => ?_, fun hphase => ?_⟩, ?_⟩
  · rcases h with h | h <;> rw [h] at hphase <;> cases hphase
  · rcases h with h | h <;> rw [h] at hphase <;> cases hphase
  · rcases h with h | h <;> rw [h] at hphase <;> cases hphase
  · rcases h with h | h <;> rw [reportsLeft, h]

theorem finished_of_reportsLeft (h : WithinBudget state) (hleft : reportsLeft state = 0) :
    state.phase = .done ∨ state.phase = .blocked := by
  cases hphase : state.phase with
  | building =>
    simp only [reportsLeft, hphase] at hleft
    omega
  | verifying =>
    simp only [reportsLeft, hphase] at hleft
    omega
  | repairing =>
    have hbudget := (h.repairing hphase).2
    simp only [reportsLeft, hphase, remainingPostSubmitRemediations] at hleft
    omega
  | done => exact Or.inl rfl
  | blocked => exact Or.inr rfl

/-! ## Builds -/

theorem forbidsEdit_terminalBuildRemediation {preSave postSubmit : ℕ}
    {remediation : Option RemediationMetadata}
    (h : if state.successfulSubmitSeen.getD false = true
      then MAX_POST_SUBMIT_REMEDIATION_SUBMITS ≤ postSubmit
      else MAX_PRE_SAVE_SUBMIT_FAILURES ≤ preSave) :
    forbidsEdit (terminalBuildRemediation state preSave postSubmit remediation) = true := by
  rw [terminalBuildRemediation]
  split
  · rfl
  · split
    · rfl
    · rename_i hpre hpost
      split at h <;> simp_all

variable {r : TransitionResult P} {attempt : AttemptRecord}

/-- The loop is blocked, or one of the budgets is used by one build and not used up. -/
theorem handleUnsubmitted_spec {outcome : WorkflowBuildOutcome} {postSubmit : ℕ}
    {effective : Option RemediationMetadata}
    (hr : handleUnsubmitted state outcome attempt postSubmit effective = r) :
    r.action.isRepair = false ∧ (r.state.phase = .blocked ∨
      r.state.phase = state.phase ∧
      r.state.successfulSubmitSeen = state.successfulSubmitSeen ∧
      r.state.postSubmitRemediationSubmitsUsed = some postSubmit ∧
      if state.successfulSubmitSeen.getD false = true
        then postSubmit < MAX_POST_SUBMIT_REMEDIATION_SUBMITS
        else r.state.preSaveSubmitFailures = some (state.preSaveSubmitFailures.getD 0 + 1) ∧
          state.preSaveSubmitFailures.getD 0 + 1 < MAX_PRE_SAVE_SUBMIT_FAILURES) := by
  subst hr
  by_cases hseen : state.successfulSubmitSeen.getD false = true
  · simp only [handleUnsubmitted, if_pos hseen]
    split
    · exact ⟨rfl, Or.inl rfl⟩
    · rename_i hstops
      rw [Bool.or_eq_true, not_or] at hstops
      refine ⟨rfl, Or.inr ⟨rfl, rfl, rfl, ?_⟩⟩
      by_contra hbudget
      refine hstops.2 (forbidsEdit_terminalBuildRemediation ?_)
      rw [if_pos hseen]
      exact Nat.le_of_not_lt hbudget
  · simp only [handleUnsubmitted, if_neg hseen]
    split
    · exact ⟨rfl, Or.inl rfl⟩
    · rename_i hstops
      rw [Bool.or_eq_true, not_or] at hstops
      refine ⟨rfl, Or.inr ⟨rfl, rfl, rfl, rfl, ?_⟩⟩
      by_contra hbudget
      refine hstops.2 (forbidsEdit_terminalBuildRemediation ?_)
      rw [if_neg hseen]
      exact Nat.le_of_not_lt hbudget

theorem handleSubmitted_spec {outcome : WorkflowBuildOutcome} {postSubmit : ℕ}
    {effective : Option RemediationMetadata}
    (hr : handleSubmitted state outcome attempt postSubmit effective = r) :
    r.action.isRepair = false ∧ ((r.state.phase = .done ∨ r.state.phase = .blocked) ∨
      r.state.phase = .verifying ∧ r.state.successfulSubmitSeen = some true ∧
      r.state.postSubmitRemediationSubmitsUsed = some postSubmit) := by
  subst hr
  simp only [handleSubmitted]
  split
  · exact ⟨rfl, Or.inl (Or.inr rfl)⟩
  · split
    · exact ⟨rfl, Or.inl (Or.inl rfl)⟩
    · exact ⟨rfl, Or.inr ⟨rfl, rfl, rfl⟩⟩

/-- What a report leaves the loop with. -/
def Advances (state state' : WorkflowLoopState) : Prop :=
  WithinBudget state' ∧ reportsLeft state' + 1 ≤ reportsLeft state

theorem reportsLeft_pos (h : WithinBudget state)
    (hphase : state.phase ≠ .done ∧ state.phase ≠ .blocked) : 1 ≤ reportsLeft state := by
  by_contra hleft
  rcases finished_of_reportsLeft h (by omega) with hdone | hblocked
  · exact hphase.1 hdone
  · exact hphase.2 hblocked

theorem Advances.of_finished {state' : WorkflowLoopState} (h : WithinBudget state)
    (hphase : state.phase ≠ .done ∧ state.phase ≠ .blocked)
    (hfinished : state'.phase = .done ∨ state'.phase = .blocked) : Advances state state' := by
  obtain ⟨hbudget, hleft⟩ := withinBudget_of_finished hfinished
  exact ⟨hbudget, hleft ▸ reportsLeft_pos h hphase⟩

theorem handleBuildOutcome_advances {outcome : WorkflowBuildOutcome} (h : WithinBudget state)
    (hphase : state.phase = .building ∨ state.phase = .repairing)
    (hstale : isStaleRunReport state outcome.runId = false)
    (hr : handleBuildOutcome state attempts outcome = r) :
    Advances state r.state ∧ r.action.isRepair = false := by
  have hactive : state.phase ≠ .done ∧ state.phase ≠ .blocked := by
    rcases hphase with hphase | hphase <;> rw [hphase] <;> exact ⟨nofun, nofun⟩
  simp only [handleBuildOutcome, hstale, Bool.false_eq_true, if_false] at hr
  split at hr
  · obtain ⟨hrepair, hfinished | ⟨hverifying, hseen, hused⟩⟩ := handleSubmitted_spec hr
    · exact ⟨Advances.of_finished h hactive hfinished, hrepair⟩
    · refine ⟨⟨⟨fun hp => ?_, fun _ => by rw [hseen]; rfl, fun hp => ?_⟩, ?_⟩, hrepair⟩
      · rw [hverifying] at hp
        cases hp
      · rw [hverifying] at hp
        cases hp
      · rcases hphase with hphase | hphase
        · have hbudget := h.building hphase
          simp only [hbudget.1, Bool.false_eq_true, if_false] at hused
          simp only [reportsLeft, hverifying, hphase, remainingPostSubmitRemediations, hused,
            Option.getD_some]
          omega
        · have hbudget := h.repairing hphase
          simp only [hbudget.1, if_true] at hused
          simp only [reportsLeft, hverifying, hphase, remainingPostSubmitRemediations, hused,
            Option.getD_some]
          omega
  · obtain ⟨hrepair, hblocked | ⟨hsame, hseen, hused, hleft⟩⟩ := handleUnsubmitted_spec hr
    · exact ⟨Advances.of_finished h hactive (Or.inr hblocked), hrepair⟩
    · rcases hphase with hphase | hphase
      · have hbudget := h.building hphase
        rw [hbudget.1] at hleft
        simp only [Bool.false_eq_true, if_false] at hleft
        refine ⟨⟨⟨fun _ => ?_, fun hp => ?_, fun hp => ?_⟩, ?_⟩, hrepair⟩
        · rw [hseen, hleft.1]
          exact ⟨hbudget.1, hleft.2⟩
        · rw [hsame, hphase] at hp
          cases hp
        · rw [hsame, hphase] at hp
          cases hp
        · simp only [reportsLeft, hsame, hphase, hleft.1, Option.getD_some]
          omega
      · have hbudget := h.repairing hphase
        simp only [hbudget.1, if_true] at hused hleft
        refine ⟨⟨⟨fun hp => ?_, fun hp => ?_, fun _ => ?_⟩, ?_⟩, hrepair⟩
        · rw [hsame, hphase] at hp
          cases hp
        · rw [hsame, hphase] at hp
          cases hp
        · rw [hseen, hused]
          exact ⟨hbudget.1, hleft⟩
        · simp only [reportsLeft, hsame, hphase, remainingPostSubmitRemediations, hused,
            Option.getD_some]
          omega

/-! ## Verdicts -/

variable {verdict : VerificationResult P}

/-- The loop is blocked, or the repair is asked for : its signature is new, if it has one, and
there is a budget for it. -/
theorem escalateToRepair_spec {remediation : Option RemediationMetadata}
    {action : WorkflowLoopAction P}
    (hr : escalateToRepair state attempts verdict attempt remediation action = r) :
    r.state.phase = .blocked ∧ r.action.isRepair = false ∨
      r.state.phase = .repairing ∧ r.action = action ∧ r.attempt = attempt ∧
      isRepeatedRepair attempts verdict = false ∧
      r.state.successfulSubmitSeen = state.successfulSubmitSeen ∧
      r.state.postSubmitRemediationSubmitsUsed = state.postSubmitRemediationSubmitsUsed ∧
      state.postSubmitRemediationSubmitsUsed.getD 0 < MAX_POST_SUBMIT_REMEDIATION_SUBMITS := by
  subst hr
  simp only [escalateToRepair]
  split
  · exact Or.inl ⟨rfl, rfl⟩
  · rename_i hnew
    split
    · exact Or.inl ⟨rfl, rfl⟩
    · rename_i hbudget
      exact Or.inr ⟨rfl, rfl, rfl, Bool.not_eq_true _ ▸ hnew, rfl, rfl, Nat.lt_of_not_le hbudget⟩

/-- The verdict ends the loop, or its signature is recorded with a repair that is new. -/
theorem handleVerificationVerdict_spec (hstale : isStaleRunReport state verdict.runId = false)
    (hr : handleVerificationVerdict state attempts verdict = r) :
    (r.state.phase = .done ∨ r.state.phase = .blocked) ∧ r.action.isRepair = false ∨
      r.state.phase = .repairing ∧
      (r.attempt.action = .rebuild ∨ r.attempt.action = .patch) ∧
      r.attempt.failureSignature = verdict.failureSignature ∧
      isRepeatedRepair attempts verdict = false ∧
      r.state.successfulSubmitSeen = state.successfulSubmitSeen ∧
      r.state.postSubmitRemediationSubmitsUsed = state.postSubmitRemediationSubmitsUsed ∧
      state.postSubmitRemediationSubmitsUsed.getD 0 < MAX_POST_SUBMIT_REMEDIATION_SUBMITS := by
  have hsignature : ∀ (attempt : AttemptRecord) (remediation : Option RemediationMetadata),
      (applyRemediationToAttempt attempt remediation).failureSignature =
        attempt.failureSignature := by
    intro attempt remediation
    cases remediation <;> rfl
  simp only [handleVerificationVerdict, hstale, Bool.false_eq_true, if_false] at hr
  split at hr
  · subst hr
    exact Or.inl ⟨Or.inr rfl, rfl⟩
  · simp only [handleVerdict] at hr
    split at hr
    · subst hr
      exact Or.inl ⟨Or.inl rfl, rfl⟩
    · subst hr
      exact Or.inl ⟨Or.inl rfl, rfl⟩
    · subst hr
      exact Or.inl ⟨Or.inr rfl, rfl⟩
    · subst hr
      exact Or.inl ⟨Or.inr rfl, rfl⟩
    · rcases escalateToRepair_spec hr with ⟨hblocked, haction⟩ |
        ⟨hphase, -, hattempt, hrest⟩
      · exact Or.inl ⟨Or.inr hblocked, haction⟩
      · refine Or.inr ⟨hphase, ?_, ?_, hrest⟩ <;> rw [hattempt]
        · exact Or.inr rfl
        · exact hsignature _ _
    · rcases escalateToRepair_spec hr with ⟨hblocked, haction⟩ |
        ⟨hphase, -, hattempt, hrest⟩
      · exact Or.inl ⟨Or.inr hblocked, haction⟩
      · refine Or.inr ⟨hphase, ?_, ?_, hrest⟩ <;> rw [hattempt]
        · exact Or.inl rfl
        · exact hsignature _ _

theorem handleVerificationVerdict_advances (h : WithinBudget state)
    (hphase : state.phase = .verifying) (hstale : isStaleRunReport state verdict.runId = false)
    (hr : handleVerificationVerdict state attempts verdict = r) : Advances state r.state := by
  rcases handleVerificationVerdict_spec hstale hr with ⟨hfinished, -⟩ |
    ⟨hrepairing, -, -, -, hseen, hused, hbudget⟩
  · refine Advances.of_finished h ?_ hfinished
    rw [hphase]
    exact ⟨nofun, nofun⟩
  · refine ⟨⟨fun hp => ?_, fun hp => ?_, fun _ => ?_⟩, ?_⟩
    · rw [hrepairing] at hp
      cases hp
    · rw [hrepairing] at hp
      cases hp
    · rw [hseen, hused]
      exact ⟨h.verifying hphase, hbudget⟩
    · simp only [reportsLeft, hrepairing, hphase, remainingPostSubmitRemediations, hused]
      omega

/-! ## Repairs -/

theorem hasRepeatedRepair_append {failureSignature : String}
    (h : hasRepeatedRepair attempts failureSignature = true) :
    hasRepeatedRepair (attempts ++ [attempt]) failureSignature = true := by
  rw [hasRepeatedRepair, List.any_append]
  exact Bool.or_eq_true_iff.mpr (Or.inl h)

theorem hasRepeatedRepair_append_self {failureSignature : String}
    (haction : attempt.action = .rebuild ∨ attempt.action = .patch)
    (hsignature : attempt.failureSignature = some failureSignature) :
    hasRepeatedRepair (attempts ++ [attempt]) failureSignature = true := by
  rw [hasRepeatedRepair, List.any_append]
  refine Bool.or_eq_true_iff.mpr (Or.inr ?_)
  rw [List.any_cons, List.any_nil, Bool.or_false, decide_eq_true_eq]
  exact ⟨haction, hsignature⟩

variable (loop) in
/-- Every repair that was asked for is recorded with its signature. -/
structure Sound : Prop where
  budget : WithinBudget loop.state
  recorded : ∀ failureSignature, some failureSignature ∈ loop.repairs →
    hasRepeatedRepair loop.attempts failureSignature = true
  once : ∀ failureSignature ≠ "", loop.repairs.count (some failureSignature) ≤ 1

theorem sound_createWorkItem {workItemId threadId : String} {source : WorkflowLoopSource}
    {workflowId runId : Option String} :
    Sound { state := createWorkItem workItemId threadId source workflowId runId
            attempts := attempts } := by
  refine ⟨⟨fun _ => ⟨rfl, Nat.succ_pos 2⟩, nofun, nofun⟩, ?_, ?_⟩
  · rintro failureSignature ⟨⟩
  · intro failureSignature _
    exact Nat.zero_le 1

theorem Sound.apply_of_not_repair (h : loop.Sound) {failureSignature : Option String}
    (hbudget : WithinBudget r.state) (hrepair : r.action.isRepair = false) :
    (loop.apply failureSignature r).Sound := by
  have hrepairs : (loop.apply failureSignature r).repairs = loop.repairs := by
    simp only [WorkflowBuildLoop.apply, hrepair, Bool.false_eq_true, if_false]
  refine ⟨hbudget, fun signature hmem => ?_, fun signature hne => ?_⟩
  · rw [hrepairs] at hmem
    exact hasRepeatedRepair_append (h.recorded signature hmem)
  · rw [hrepairs]
    exact h.once signature hne

theorem Sound.apply_repair (h : loop.Sound) (hbudget : WithinBudget r.state)
    (haction : r.action.isRepair = true)
    (hattempt : r.attempt.action = .rebuild ∨ r.attempt.action = .patch)
    (hsignature : r.attempt.failureSignature = verdict.failureSignature)
    (hnew : isRepeatedRepair loop.attempts verdict = false) :
    (loop.apply verdict.failureSignature r).Sound := by
  have hrepairs : (loop.apply verdict.failureSignature r).repairs =
      loop.repairs ++ [verdict.failureSignature] := by
    simp only [WorkflowBuildLoop.apply, haction, if_true]
  refine ⟨hbudget, fun signature hmem => ?_, fun signature hne => ?_⟩
  · rw [hrepairs] at hmem
    rcases List.mem_append.mp hmem with hmem | hmem
    · exact hasRepeatedRepair_append (h.recorded signature hmem)
    · exact hasRepeatedRepair_append_self hattempt
        (hsignature.trans (List.mem_singleton.mp hmem).symm)
  · rw [hrepairs, List.count_append]
    by_cases hsame : verdict.failureSignature = some signature
    · have hfresh : some signature ∉ loop.repairs := by
        intro hmem
        have hrecorded := h.recorded signature hmem
        rw [isRepeatedRepair, hsame, truthy, Option.any_some, Option.any_some, hrecorded,
          Bool.and_true, decide_eq_false_iff_not, not_not] at hnew
        exact hne hnew
      rw [List.count_eq_zero_of_not_mem hfresh, hsame, List.count_singleton_self]
    · rw [List.count_eq_zero_of_not_mem (fun hmem => hsame (List.mem_singleton.mp hmem).symm)]
      exact h.once signature hne

theorem Sound.step (h : loop.Sound) {report : LoopReport P}
    (hs : loop.step report = .ok loop') :
    loop'.Sound ∧ reportsLeft loop'.state + 1 ≤ reportsLeft loop.state := by
  cases report with
  | build outcome =>
    simp only [WorkflowBuildLoop.step] at hs
    split at hs
    · rename_i hwaits
      cases hs
      obtain ⟨⟨hbudget, hless⟩, hrepair⟩ :=
        handleBuildOutcome_advances (P := P) h.budget hwaits.1 hwaits.2 rfl
      exact ⟨h.apply_of_not_repair hbudget hrepair, hless⟩
    · cases hs
  | verification verdict =>
    simp only [WorkflowBuildLoop.step] at hs
    split at hs
    · rename_i hwaits
      cases hs
      obtain ⟨hbudget, hless⟩ :=
        handleVerificationVerdict_advances h.budget hwaits.1 hwaits.2 rfl
      refine ⟨?_, hless⟩
      rcases handleVerificationVerdict_spec hwaits.2 rfl with ⟨-, hrepair⟩ |
        ⟨-, hattempt, hsignature, hnew, -⟩
      · exact h.apply_of_not_repair hbudget hrepair
      · by_cases haction : (handleVerificationVerdict loop.state loop.attempts
            verdict).action.isRepair = true
        · exact h.apply_repair hbudget haction hattempt hsignature hnew
        · exact h.apply_of_not_repair hbudget (Bool.not_eq_true _ ▸ haction)
    · cases hs

/-! ## Runs -/

variable {steps : List (WorkflowBuildLoop × LoopReport P)}

/-- The number of reports after which the loop has ended. -/
def maxReports : ℕ := MAX_PRE_SAVE_SUBMIT_FAILURES + 2 * MAX_POST_SUBMIT_REMEDIATION_SUBMITS + 1

/-- The loop takes so many reports at most and is finished then, and it asks for one repair at
most for each failure signature that is not empty. -/
theorem workflowLoop_run {workItemId threadId : String} {source : WorkflowLoopSource}
    {workflowId runId : Option String}
    (h : Run step { state := createWorkItem workItemId threadId source workflowId runId
                    attempts := attempts } steps loop) :
    steps.length ≤ maxReports ∧ (steps.length = maxReports → loop.isFinished = true) ∧
    ∀ failureSignature ≠ "", loop.repairs.count (some failureSignature) ≤ 1 := by
  obtain ⟨hsound, hlength⟩ := h.length_le (I := Sound) sound_createWorkItem
    fun _ _ _ hs hstep => hs.step hstep
  have hinit : reportsLeft (createWorkItem workItemId threadId source workflowId runId) =
      maxReports := rfl
  rw [hinit] at hlength
  refine ⟨by omega, fun hmax => ?_, hsound.once⟩
  rw [isFinished, decide_eq_true_eq]
  exact finished_of_reportsLeft hsound.budget (by omega)

/-- Two builds fail before one is submitted, two repairs follow, and the budget is used up with
the last report. -/
theorem workflowLoop_run_budget : ∃ steps, ∃ loop : WorkflowBuildLoop,
    Run step { state := createWorkItem "item" "thread" .create none none, attempts := [] } steps
      loop ∧
    (steps : List (WorkflowBuildLoop × LoopReport ℕ)).length = maxReports ∧
    loop.repairs = [some "timeout", none] ∧ loop.isFinished = true ∧
    loop.repairs.count (some "timeout") ≤ 1 := by
  have hevents : (runSteps step
      ({ state := createWorkItem "item" "thread" .create none none
         attempts := [] } : WorkflowBuildLoop)
      ([.build { taskId := "t", submitted := false, triggerType := .manualOrTestable,
                 needsUserInput := false, summary := "" },
        .build { taskId := "t", submitted := false, triggerType := .manualOrTestable,
                 needsUserInput := false, summary := "" },
        .build { taskId := "t", submitted := true, triggerType := .manualOrTestable,
                 needsUserInput := false, summary := "" },
        .verification { workflowId := "w", verdict := .needsPatch,
                        failureSignature := some "timeout", summary := "late" },
        .build { taskId := "t", submitted := true, triggerType := .manualOrTestable,
                 needsUserInput := false, summary := "" },
        .verification { workflowId := "w", verdict := .needsRebuild, summary := "wrong" },
        .build { taskId := "t", submitted := true, triggerType := .manualOrTestable,
                 needsUserInput := false, summary := "" },
        .verification { workflowId := "w", verdict := .needsPatch, summary := "wrong" }] :
          List (LoopReport ℕ))).map (fun r => (r.1.length, r.2.repairs)) =
      .ok (8, [some "timeout", none]) := by
    decide
  obtain ⟨steps, loop, hrun, -, hresult⟩ := exists_run hevents
  obtain ⟨hlength, hrepairs⟩ := Prod.mk.inj hresult
  obtain ⟨-, hfinished, honce⟩ := workflowLoop_run hrun
  exact ⟨steps, loop, hrun, hlength, hrepairs, hfinished hlength, honce "timeout" (by decide)⟩

/-- Two verdicts with the empty string as their signature. -/
theorem workflowLoop_run_emptySignature :
    ¬∀ (steps : List (WorkflowBuildLoop × LoopReport ℕ)) (loop : WorkflowBuildLoop),
      Run step { state := createWorkItem "item" "thread" .create none none, attempts := [] } steps
        loop → ∀ failureSignature, loop.repairs.count (some failureSignature) ≤ 1 := by
  intro h
  have hevents : (runSteps step
      ({ state := createWorkItem "item" "thread" .create none none
         attempts := [] } : WorkflowBuildLoop)
      ([.build { taskId := "t", submitted := true, triggerType := .manualOrTestable,
                 needsUserInput := false, summary := "" },
        .verification { workflowId := "w", verdict := .needsPatch,
                        failureSignature := some "", summary := "wrong" },
        .build { taskId := "t", submitted := true, triggerType := .manualOrTestable,
                 needsUserInput := false, summary := "" },
        .verification { workflowId := "w", verdict := .needsPatch,
                        failureSignature := some "", summary := "wrong" }] :
          List (LoopReport ℕ))).map (fun r => r.2.repairs) = .ok [some "", some ""] := by
    decide
  obtain ⟨steps, loop, hrun, -, hrepairs⟩ := exists_run hevents
  have honce := h steps loop hrun ""
  rw [show loop.repairs = [some "", some ""] from hrepairs] at honce
  exact absurd honce (by decide)

end WorkflowBuildLoop

end N8n
