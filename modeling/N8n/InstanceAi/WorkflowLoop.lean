import Mathlib.Data.List.Basic

/-!
# The workflow build loop

The controller computes what the loop does after each report : after a build it asks for a
verification, or for another build, and after a verification it is done, blocked or asks for a
repair. Builds before the first that is submitted have one budget, repairs have another, and a
repair is not asked for twice for a failure with the same signature.

Strings that may be absent or empty count as absent where the source asks whether they are there
(`truthy`). The time of an attempt is left out.
-/

namespace N8n

namespace WorkflowLoop

inductive WorkflowLoopPhase where
  | building
  | verifying
  | repairing
  | done
  | blocked
  deriving DecidableEq, Repr

inductive WorkflowLoopStatus where
  | active
  | completed
  | blocked
  deriving DecidableEq, Repr

inductive WorkflowLoopSource where
  | create
  | modify
  deriving DecidableEq, Repr

inductive RemediationCategory where
  | codeFixable
  | needsSetup
  | blocked
  deriving DecidableEq, Repr

structure RemediationMetadata where
  category : RemediationCategory
  shouldEdit : Bool
  guidance : String
  reason : Option String := none
  remainingSubmitFixes : Option ℕ := none
  attemptCount : Option ℕ := none
  deriving DecidableEq, Repr

structure WorkflowLoopState where
  workItemId : String
  threadId : String
  runId : Option String
  workflowId : Option String
  phase : WorkflowLoopPhase
  status : WorkflowLoopStatus
  source : WorkflowLoopSource
  rebuildAttempts : ℕ
  preSaveSubmitFailures : Option ℕ
  postSubmitRemediationSubmitsUsed : Option ℕ
  sourceFilePath : Option String := none
  lastTaskId : Option String := none
  lastExecutionId : Option String := none
  lastFailureSignature : Option String := none
  lastWorkflowInspection : Option String := none
  mockedCredentialTypes : Option (List String) := none
  hasUnresolvedPlaceholders : Option Bool := none
  successfulSubmitSeen : Option Bool := none
  lastRemediation : Option RemediationMetadata := none
  deriving DecidableEq, Repr

inductive AttemptAction where
  | build
  | verify
  | rebuild
  | patch
  deriving DecidableEq, Repr

inductive AttemptResult where
  | success
  | failure
  | blocked
  deriving DecidableEq, Repr

structure AttemptRecord where
  workItemId : String
  phase : WorkflowLoopPhase
  attempt : ℕ
  action : AttemptAction
  result : AttemptResult
  workflowId : Option String := none
  executionId : Option String := none
  failureSignature : Option String := none
  workflowInspection : Option String := none
  diagnosis : Option String := none
  remediationCategory : Option RemediationCategory := none
  remediationShouldEdit : Option Bool := none
  remediationGuidance : Option String := none
  deriving DecidableEq, Repr

inductive TriggerType where
  | manualOrTestable
  | triggerOnly
  deriving DecidableEq, Repr

/-- The status of a workflow's readiness for verification. -/
inductive VerificationReadiness where
  | ready
  | alreadyVerified
  | needsSetup
  | notVerifiable
  deriving DecidableEq, Repr

structure WorkflowBuildOutcome where
  runId : Option String := none
  taskId : String
  workflowId : Option String := none
  sourceFilePath : Option String := none
  submitted : Bool
  triggerType : TriggerType
  needsUserInput : Bool
  blockingReason : Option String := none
  failureSignature : Option String := none
  mockedCredentialTypes : Option (List String) := none
  hasUnresolvedPlaceholders : Option Bool := none
  verificationReadiness : Option VerificationReadiness := none
  remediation : Option RemediationMetadata := none
  summary : String
  deriving DecidableEq, Repr

inductive VerificationVerdict where
  | verified
  | needsPatch
  | needsRebuild
  | triggerOnly
  | needsUserInput
  | failedTerminal
  deriving DecidableEq, Repr

/-- `P` is the type of patches. -/
structure VerificationResult (P : Type) where
  runId : Option String := none
  workflowId : String
  executionId : Option String := none
  verdict : VerificationVerdict
  workflowInspection : Option String := none
  failureSignature : Option String := none
  failedNodeName : Option String := none
  diagnosis : Option String := none
  patch : Option P := none
  remediation : Option RemediationMetadata := none
  summary : String

inductive WorkflowLoopAction (P : Type) where
  | ignored (reason : String)
  | continueBuilding (reason : String) (sourceFilePath : Option String)
  | verify (workflowId : Option String)
  | rebuild (workflowId : String) (failureDetails : String) (sourceFilePath : Option String)
  | patch (workflowId : String) (sourceFilePath : Option String) (failedNodeName : String)
      (diagnosis : String) (patch : Option P)
  | done (workflowId : Option String) (summary : String)
      (mockedCredentialTypes : Option (List String)) (hasUnresolvedPlaceholders : Option Bool)
  | blocked (reason : String)

structure TransitionResult (P : Type) where
  state : WorkflowLoopState
  action : WorkflowLoopAction P
  attempt : AttemptRecord

/-! ## Remediations -/

def MAX_PRE_SAVE_SUBMIT_FAILURES : ℕ := 3

def MAX_POST_SUBMIT_REMEDIATION_SUBMITS : ℕ := 2

def preSaveGuidance : String :=
  "The workflow could not be saved after three submit attempts. " ++
    "Stop editing and explain the blocker to the user."

def postSubmitGuidance : String :=
  "The workflow was saved, but the automatic repair budget is exhausted. " ++
    "Stop editing and explain the blocker to the user."

/-- A string that is there and not empty. -/
def truthy (s : Option String) : Bool := s.any (· ≠ "")

/-- The remediation is there and says that the workflow should not be edited. -/
def forbidsEdit (remediation : Option RemediationMetadata) : Bool :=
  remediation.any fun r => !r.shouldEdit

variable {P : Type} (state : WorkflowLoopState) (attempts : List AttemptRecord)

def remainingPostSubmitRemediations : ℕ :=
  MAX_POST_SUBMIT_REMEDIATION_SUBMITS - state.postSubmitRemediationSubmitsUsed.getD 0

def withRemainingSubmitFixes (remediation : Option RemediationMetadata)
    (remainingSubmitFixes : ℕ) : Option RemediationMetadata :=
  remediation.map fun r => { r with remainingSubmitFixes := some remainingSubmitFixes }

def isNeedsSetupRemediation (remediation : Option RemediationMetadata) : Bool :=
  remediation.any fun r => r.category = .needsSetup && !r.shouldEdit

def shouldVerifyBeforeSetup (outcome : WorkflowBuildOutcome) : Bool :=
  outcome.submitted && outcome.verificationReadiness = some .ready

def buildRemediationForVerification (outcome : WorkflowBuildOutcome)
    (remediation : Option RemediationMetadata) : Option RemediationMetadata :=
  if shouldVerifyBeforeSetup outcome && isNeedsSetupRemediation remediation then none
  else remediation

/-! ## Attempts -/

def makeAttempt (action : AttemptAction) : AttemptRecord :=
  let workItemAttempts := attempts.filter fun a => a.workItemId = state.workItemId
  { workItemId := state.workItemId
    phase := state.phase
    attempt := workItemAttempts.length + 1
    action := action
    result := .success }

def applyRemediationToAttempt (attempt : AttemptRecord)
    (remediation : Option RemediationMetadata) : AttemptRecord :=
  match remediation with
  | none => attempt
  | some r =>
    { attempt with
      remediationCategory := some r.category
      remediationShouldEdit := some r.shouldEdit
      remediationGuidance := some r.guidance }

/-- A repair was attempted for a failure with the same signature. -/
def hasRepeatedRepair (failureSignature : String) : Bool :=
  attempts.any fun a => (a.action = .rebuild ∨ a.action = .patch) ∧
    a.failureSignature = some failureSignature

/-! ## Reports of other runs -/

def isStaleRunReport (runId : Option String) : Bool :=
  truthy runId && truthy state.runId && state.runId ≠ runId

def staleRunReportReason (stateRunId reportRunId : Option String) : String :=
  "Ignoring report from stale run \"" ++ reportRunId.getD "" ++ "\" for active run \"" ++
    stateRunId.getD "unknown" ++ "\"."

def ignoreReport (action : AttemptAction) (runId : Option String) : TransitionResult P :=
  { state := state
    action := .ignored (staleRunReportReason state.runId runId)
    attempt := { makeAttempt state attempts action with result := .failure } }

/-! ## Build outcomes -/

def createWorkItem (workItemId threadId : String) (source : WorkflowLoopSource)
    (workflowId runId : Option String) : WorkflowLoopState :=
  { workItemId := workItemId
    threadId := threadId
    runId := runId
    workflowId := workflowId
    phase := .building
    status := .active
    source := source
    rebuildAttempts := 0
    preSaveSubmitFailures := some 0
    postSubmitRemediationSubmitsUsed := some 0 }

/-- The remediation of a build that was not submitted, when one of the budgets is used up and
nothing has stopped the loop before. -/
def terminalBuildRemediation (preSaveSubmitFailures postSubmitRemediationSubmitsUsed : ℕ)
    (remediation : Option RemediationMetadata) : Option RemediationMetadata :=
  let submitSeen := state.successfulSubmitSeen.getD false
  if (!submitSeen && MAX_PRE_SAVE_SUBMIT_FAILURES ≤ preSaveSubmitFailures) &&
      !forbidsEdit remediation then
    some
      { category := .blocked
        shouldEdit := false
        reason := some "pre_save_submit_budget_exhausted"
        attemptCount := some preSaveSubmitFailures
        remainingSubmitFixes := some 0
        guidance := preSaveGuidance }
  else if (submitSeen && MAX_POST_SUBMIT_REMEDIATION_SUBMITS ≤ postSubmitRemediationSubmitsUsed) &&
      !forbidsEdit remediation then
    some
      { category := .blocked
        shouldEdit := false
        reason := some "post_submit_budget_exhausted"
        attemptCount := some postSubmitRemediationSubmitsUsed
        remainingSubmitFixes := some 0
        guidance := postSubmitGuidance }
  else remediation

/-- A report of a build that was not submitted. -/
def handleUnsubmitted (outcome : WorkflowBuildOutcome) (attempt : AttemptRecord)
    (postSubmitRemediationSubmitsUsed : ℕ) (effectiveRemediation : Option RemediationMetadata) :
    TransitionResult P :=
  let preSaveSubmitFailures :=
    if state.successfulSubmitSeen.getD false then state.preSaveSubmitFailures.getD 0
    else state.preSaveSubmitFailures.getD 0 + 1
  let terminalRemediation := terminalBuildRemediation state preSaveSubmitFailures
    postSubmitRemediationSubmitsUsed effectiveRemediation
  let attempt := applyRemediationToAttempt attempt terminalRemediation
  let stops := outcome.needsUserInput || forbidsEdit terminalRemediation
  let attempt :=
    { attempt with
      result := if stops then .blocked else .failure
      failureSignature := outcome.failureSignature }
  let reason := (((terminalRemediation.map (·.guidance)).orElse fun _ =>
    outcome.blockingReason).orElse fun _ => outcome.failureSignature).getD
      "Builder failed to submit workflow"
  let sourceFilePath := outcome.sourceFilePath.orElse fun _ => state.sourceFilePath
  let nextState :=
    { state with
      sourceFilePath := if truthy sourceFilePath then sourceFilePath else state.sourceFilePath
      lastTaskId := some outcome.taskId
      preSaveSubmitFailures := some preSaveSubmitFailures
      postSubmitRemediationSubmitsUsed := some postSubmitRemediationSubmitsUsed
      lastRemediation := terminalRemediation.orElse fun _ => state.lastRemediation }
  if stops then
    { state := { nextState with phase := .blocked, status := .blocked }
      action := .blocked reason
      attempt := attempt }
  else
    { state := nextState
      action := .continueBuilding reason
        (if truthy nextState.sourceFilePath then nextState.sourceFilePath else none)
      attempt := attempt }

/-- A report of a build that was submitted. -/
def handleSubmitted (outcome : WorkflowBuildOutcome) (attempt : AttemptRecord)
    (postSubmitRemediationSubmitsUsed : ℕ) (effectiveRemediation : Option RemediationMetadata) :
    TransitionResult P :=
  let attempt := { attempt with result := .success, workflowId := outcome.workflowId }
  let mockedCredentialTypes := outcome.mockedCredentialTypes.filter fun types => types ≠ []
  let sourceFilePath := outcome.sourceFilePath.orElse fun _ => state.sourceFilePath
  let updatedState :=
    { state with
      workflowId := outcome.workflowId.orElse fun _ => state.workflowId
      sourceFilePath := if truthy sourceFilePath then sourceFilePath else state.sourceFilePath
      lastTaskId := some outcome.taskId
      mockedCredentialTypes := mockedCredentialTypes.orElse fun _ => state.mockedCredentialTypes
      hasUnresolvedPlaceholders := outcome.hasUnresolvedPlaceholders.orElse fun _ =>
        state.hasUnresolvedPlaceholders
      successfulSubmitSeen := some true
      preSaveSubmitFailures :=
        some (if state.successfulSubmitSeen.getD false then state.preSaveSubmitFailures.getD 0
          else 0)
      postSubmitRemediationSubmitsUsed := some postSubmitRemediationSubmitsUsed
      lastRemediation := effectiveRemediation }
  if outcome.needsUserInput && !shouldVerifyBeforeSetup outcome then
    { state := { updatedState with phase := .blocked, status := .blocked }
      action := .blocked (outcome.blockingReason.getD "Needs user input")
      attempt := attempt }
  else if outcome.triggerType = .triggerOnly then
    { state := { updatedState with phase := .done, status := .completed }
      action := .done outcome.workflowId outcome.summary mockedCredentialTypes
        updatedState.hasUnresolvedPlaceholders
      attempt := attempt }
  else
    { state := { updatedState with phase := .verifying, status := .active }
      action := .verify outcome.workflowId
      attempt := attempt }

def handleBuildOutcome (outcome : WorkflowBuildOutcome) : TransitionResult P :=
  if isStaleRunReport state outcome.runId then ignoreReport state attempts .build outcome.runId
  else
    let attempt := makeAttempt state attempts .build
    let isRepairSubmit := state.successfulSubmitSeen.getD false
    let postSubmitRemediationSubmitsUsed :=
      if isRepairSubmit then state.postSubmitRemediationSubmitsUsed.getD 0 + 1
      else state.postSubmitRemediationSubmitsUsed.getD 0
    let remainingSubmitFixes :=
      MAX_POST_SUBMIT_REMEDIATION_SUBMITS - postSubmitRemediationSubmitsUsed
    let remediation := withRemainingSubmitFixes outcome.remediation remainingSubmitFixes
    let effectiveRemediation := buildRemediationForVerification outcome remediation
    let attempt := applyRemediationToAttempt attempt effectiveRemediation
    if outcome.submitted then
      handleSubmitted state outcome attempt postSubmitRemediationSubmitsUsed effectiveRemediation
    else
      handleUnsubmitted state outcome attempt postSubmitRemediationSubmitsUsed
        effectiveRemediation

/-! ## Verification verdicts -/

/-- Parts that are there, as sentences. -/
def joinParts (parts : List String) : String :=
  String.intercalate ". " (parts.filter (· ≠ ""))

def signaturePart (verdict : VerificationResult P) : String :=
  if truthy verdict.failureSignature then "Signature: " ++ verdict.failureSignature.getD "" else ""

def describeVerificationFailure (verdict : VerificationResult P) : String :=
  joinParts [verdict.summary,
    if truthy verdict.diagnosis && verdict.diagnosis ≠ some verdict.summary then
      verdict.diagnosis.getD "" else "",
    signaturePart verdict]

/-- The signature is there, and a repair was attempted for it. -/
def isRepeatedRepair (verdict : VerificationResult P) : Bool :=
  truthy verdict.failureSignature &&
    verdict.failureSignature.any fun failureSignature =>
      hasRepeatedRepair attempts failureSignature

/-- A repair is asked for, unless the signature or the budget is used up. -/
def escalateToRepair (verdict : VerificationResult P) (attempt : AttemptRecord)
    (remediation : Option RemediationMetadata) (action : WorkflowLoopAction P) :
    TransitionResult P :=
  if isRepeatedRepair attempts verdict then
    let reason := "Repeated repair failure: " ++ verdict.failureSignature.getD ""
    let blockedRemediation : RemediationMetadata :=
      { category := .blocked
        shouldEdit := false
        reason := some "duplicate_failure_signature"
        attemptCount := some (state.postSubmitRemediationSubmitsUsed.getD 0)
        remainingSubmitFixes := some (remainingPostSubmitRemediations state)
        guidance := reason }
    { state :=
        { state with
          phase := .blocked
          status := .blocked
          lastFailureSignature := verdict.failureSignature
          lastWorkflowInspection := verdict.workflowInspection
          lastRemediation := some blockedRemediation }
      action := .blocked reason
      attempt := applyRemediationToAttempt attempt (some blockedRemediation) }
  else if MAX_POST_SUBMIT_REMEDIATION_SUBMITS ≤ state.postSubmitRemediationSubmitsUsed.getD 0 then
    let blockedRemediation : RemediationMetadata :=
      { category := .blocked
        shouldEdit := false
        reason := some "post_submit_budget_exhausted"
        attemptCount := some (state.postSubmitRemediationSubmitsUsed.getD 0)
        remainingSubmitFixes := some 0
        guidance := postSubmitGuidance }
    let failureDetail := describeVerificationFailure verdict
    let reason :=
      if failureDetail ≠ "" then failureDetail ++ " " ++ blockedRemediation.guidance
      else blockedRemediation.guidance
    { state :=
        { state with
          phase := .blocked
          status := .blocked
          lastFailureSignature := verdict.failureSignature
          lastWorkflowInspection := verdict.workflowInspection
          lastRemediation := some blockedRemediation }
      action := .blocked reason
      attempt := applyRemediationToAttempt attempt (some blockedRemediation) }
  else
    { state :=
        { state with
          phase := .repairing
          status := .active
          rebuildAttempts := state.rebuildAttempts + 1
          lastFailureSignature := verdict.failureSignature
          lastExecutionId := verdict.executionId
          lastWorkflowInspection := verdict.workflowInspection
          lastRemediation := remediation }
      action := action
      attempt := attempt }

def failureDetails (verdict : VerificationResult P) : String :=
  joinParts [verdict.diagnosis.getD "",
    if truthy verdict.workflowInspection then
      "Workflow inspection: " ++ verdict.workflowInspection.getD "" else "",
    if truthy verdict.failedNodeName then
      "Failed node: " ++ verdict.failedNodeName.getD "" else "",
    signaturePart verdict]

/-- A verdict that no remediation has ended already. -/
def handleVerdict (verdict : VerificationResult P) (attempt : AttemptRecord)
    (remediation : Option RemediationMetadata) : TransitionResult P :=
  let sourceFilePath := if truthy state.sourceFilePath then state.sourceFilePath else none
  match verdict.verdict with
  | .verified =>
    { state :=
        { state with
          phase := .done
          status := .completed
          lastExecutionId := verdict.executionId
          lastWorkflowInspection := verdict.workflowInspection
          lastRemediation := remediation }
      action := .done (some verdict.workflowId) verdict.summary state.mockedCredentialTypes
        state.hasUnresolvedPlaceholders
      attempt := { attempt with result := .success } }
  | .triggerOnly =>
    { state :=
        { state with
          phase := .done
          status := .completed
          lastWorkflowInspection := verdict.workflowInspection
          lastRemediation := remediation }
      action := .done (some verdict.workflowId) verdict.summary state.mockedCredentialTypes
        state.hasUnresolvedPlaceholders
      attempt := { attempt with result := .success } }
  | .needsUserInput =>
    { state :=
        { state with
          phase := .blocked
          status := .blocked
          lastWorkflowInspection := verdict.workflowInspection
          lastRemediation := remediation }
      action := .blocked (verdict.diagnosis.getD "Needs user input")
      attempt := { attempt with result := .blocked } }
  | .failedTerminal =>
    { state :=
        { state with
          phase := .blocked
          status := .blocked
          lastFailureSignature := verdict.failureSignature
          lastWorkflowInspection := verdict.workflowInspection
          lastRemediation := remediation }
      action := .blocked verdict.summary
      attempt := { attempt with result := .failure } }
  | .needsPatch =>
    escalateToRepair state attempts verdict { attempt with result := .failure, action := .patch }
      remediation
      (.patch verdict.workflowId sourceFilePath (verdict.failedNodeName.getD "unknown")
        (verdict.diagnosis.getD verdict.summary) verdict.patch)
  | .needsRebuild =>
    escalateToRepair state attempts verdict { attempt with result := .failure, action := .rebuild }
      remediation
      (.rebuild verdict.workflowId
        (if failureDetails verdict ≠ "" then failureDetails verdict else verdict.summary)
        sourceFilePath)

def handleVerificationVerdict (verdict : VerificationResult P) : TransitionResult P :=
  if isStaleRunReport state verdict.runId then ignoreReport state attempts .verify verdict.runId
  else
    let remediation := withRemainingSubmitFixes verdict.remediation
      (remainingPostSubmitRemediations state)
    let attempt := applyRemediationToAttempt
      { makeAttempt state attempts .verify with
        executionId := verdict.executionId
        failureSignature := verdict.failureSignature
        workflowInspection := verdict.workflowInspection
        diagnosis := verdict.diagnosis }
      remediation
    if forbidsEdit remediation then
      { state :=
          { state with
            phase := .blocked
            status := .blocked
            lastExecutionId := verdict.executionId
            lastFailureSignature := verdict.failureSignature
            lastWorkflowInspection := verdict.workflowInspection
            lastRemediation := remediation }
        action := .blocked ((remediation.map (·.guidance)).getD "")
        attempt := { attempt with result := .blocked } }
    else handleVerdict state attempts verdict attempt remediation

end WorkflowLoop

/-! ## The loop -/

open WorkflowLoop

def WorkflowLoop.WorkflowLoopAction.isRepair {P : Type} : WorkflowLoopAction P → Bool
  | .rebuild .. | .patch .. => true
  | _ => false

/-- Its state and attempts, and the signatures of the verdicts after which a repair was asked
for. -/
structure WorkflowBuildLoop where
  state : WorkflowLoopState
  attempts : List AttemptRecord
  repairs : List (Option String) := []

inductive LoopReport (P : Type) where
  | build (outcome : WorkflowBuildOutcome)
  | verification (verdict : VerificationResult P)

namespace WorkflowBuildLoop

variable {P : Type} (loop : WorkflowBuildLoop)

def isFinished : Bool := loop.state.phase = .done ∨ loop.state.phase = .blocked

def apply (failureSignature : Option String) (r : TransitionResult P) : WorkflowBuildLoop :=
  { state := r.state
    attempts := loop.attempts ++ [r.attempt]
    repairs := if r.action.isRepair then loop.repairs ++ [failureSignature] else loop.repairs }

/-- A report that the loop does not wait for is an error, and so is one of another run. -/
def step : LoopReport P → Except Unit WorkflowBuildLoop
  | .build outcome =>
    if (loop.state.phase = .building ∨ loop.state.phase = .repairing) ∧
        isStaleRunReport loop.state outcome.runId = false then
      .ok (loop.apply none
        (handleBuildOutcome loop.state loop.attempts outcome : TransitionResult P))
    else .error ()
  | .verification verdict =>
    if loop.state.phase = .verifying ∧ isStaleRunReport loop.state verdict.runId = false then
      .ok (loop.apply verdict.failureSignature
        (handleVerificationVerdict loop.state loop.attempts verdict))
    else .error ()

end WorkflowBuildLoop

end N8n
