import N8n.Concurrency.ConcurrencyControl

/-!
# Active executions

`ActiveExecutions.add` creates the execution in the database, reserves capacity, marks the
execution as running and registers it; an execution that is resumed is in the database
already. Each of these steps awaits the one before, and a call of `add` waits in the queue as
long as it is throttled. What is chained to the `postExecutePromise` of an execution runs some
time after the promise has settled : it releases the reservation and deletes the execution,
unless the execution is waiting.

The calls of `add` are numbered, and the entries of `activeExecutions` name the call that made
them. `throttled` lists the calls that wait in the queue, as their `resolve` functions stand in
it.
-/

open Lib

namespace N8n

/-- `IExecutingWorkflowData` -/
structure ExecutingWorkflowData where
  status : ExecutionStatus
  /-- Whether `postExecutePromise` has been resolved or rejected. -/
  settled : Bool := false
  /-- Whether what is chained to the promise has run. -/
  callbackRan : Bool := false
  deriving DecidableEq, Repr

/-- How far a call of `add` has come. -/
inductive AddProgress where
  | creating
  | throttled
  /-- `throttle` has been resolved, and the call goes on. -/
  | letThrough
  /-- The execution is being marked as running. -/
  | updating
  | rejected
  | added (execution : ExecutingWorkflowData)
  deriving DecidableEq, Repr

structure AddCall where
  executionMode : WorkflowExecuteMode
  maybeExecutionId : Option String
  /-- Empty until the execution is created. -/
  executionId : String
  progress : AddProgress
  acquiredReservation : Option CapacityTarget := none
  deriving DecidableEq, Repr

structure ActiveExecutions where
  activeExecutions : OrderedMap String ℕ := ∅
  concurrencyControl : ConcurrencyControlService
  executionsConfig : ExecutionsConfig
  calls : List AddCall := []
  throttled : List ℕ := []
  /-- The executions that have been let through out of a queue. -/
  letThrough : List (ConcurrencyQueueType × String) := []
  /-- The executions passed to `executionRepository.cancelMany`. -/
  cancelled : List String := []

inductive ExecutionEvent where
  | add (executionMode : WorkflowExecuteMode) (maybeExecutionId : Option String)
  /-- `executionPersistence.create` has returned. -/
  | created (call : ℕ) (executionId : String)
  /-- A call that has been let through goes on. -/
  | goesOn (call : ℕ)
  /-- `setRunning` or `updateExistingExecution` has succeeded. -/
  | updated (call : ℕ)
  /-- The database operation has failed, or the execution is resumed by another process. -/
  | fails (call : ℕ)
  | setStatus (executionId : String) (status : ExecutionStatus)
  | stopExecution (executionId : String)
  | finalizeExecution (executionId : String)
  /-- What is chained to the promise of the execution runs. -/
  | callbackRuns (call : ℕ)
  /-- The test runner throttles a case. -/
  | throttle (executionId : String)
  /-- The test runner has finished a case. -/
  | release
  /-- An execution is stopped or deleted that may wait in a queue. -/
  | remove (target : CapacityTarget)
  | shutdown (cancelAll : Bool)
  deriving DecidableEq, Repr

namespace ActiveExecutions

/-! ## Calls -/

def modifyCall (s : ActiveExecutions) (call : ℕ) (change : AddCall → AddCall) : ActiveExecutions :=
  { s with calls := s.calls.modify call change }

def setProgress (s : ActiveExecutions) (call : ℕ) (progress : AddProgress) : ActiveExecutions :=
  s.modifyCall call fun c => { c with progress }

def progress? (s : ActiveExecutions) (call : ℕ) : Option AddProgress :=
  s.calls[call]?.map AddCall.progress

def waitsAs (s : ActiveExecutions) (executionId : String) (call : ℕ) : Bool :=
  s.calls[call]?.any fun c => c.progress = .throttled ∧ c.executionId = executionId

/-- The execution is let through : calls of `add` wait in the production queue only. -/
def letThroughOne (s : ActiveExecutions) (through : ConcurrencyQueueType × String) :
    ActiveExecutions :=
  let s := { s with letThrough := s.letThrough ++ [through] }
  match through with
  | (.evaluation, _) => s
  | (.production, executionId) =>
    match s.throttled.find? (s.waitsAs executionId) with
    | some call => setProgress { s with throttled := s.throttled.erase call } call .letThrough
    | none => s

/-- Where the entry of the execution is removed from the production queue, its call waits
forever. -/
def forget (s : ActiveExecutions) (target : CapacityTarget) : ActiveExecutions :=
  if s.concurrencyControl.isEnabled ∧
      ConcurrencyControlService.queueType target.mode = .ok (some .production) then
    match s.throttled.find? (s.waitsAs target.executionId) with
    | some call => { s with throttled := s.throttled.erase call }
    | none => s
  else s

/-- `ConcurrencyCapacityReservation.release` -/
def releaseReservation (s : ActiveExecutions) (call : ℕ) :
    Except ConcurrencyError ActiveExecutions :=
  match s.calls[call]?.bind AddCall.acquiredReservation with
  | none => .ok s
  | some target => do
    let (concurrencyControl, through) ← s.concurrencyControl.release target.mode
    let s := through.toList.foldl letThroughOne { s with concurrencyControl }
    return s.modifyCall call fun c => { c with acquiredReservation := none }

/-! ## Adding -/

/-- The status an execution is registered with : that of a new one is `new` only until it is
marked as running. -/
def executionStatus (c : AddCall) : ExecutionStatus :=
  if c.maybeExecutionId = some "" then .new else .running

/-- The execution takes the place of the one that is resumed. -/
def register (s : ActiveExecutions) (call : ℕ) (c : AddCall) : ActiveExecutions :=
  setProgress { s with activeExecutions := s.activeExecutions.set c.executionId call } call
    (.added { status := executionStatus c })

/-- A new execution is marked as running only in regular mode. -/
def markRunning (s : ActiveExecutions) (call : ℕ) (c : AddCall) : ActiveExecutions :=
  if c.maybeExecutionId = none ∧ s.executionsConfig.mode = .queue then s.register call c
  else s.setProgress call .updating

/-- The call is left at its `catch` : an error that `release` throws replaces the one caught. -/
def reject (s : ActiveExecutions) (call : ℕ) : ActiveExecutions :=
  let after : ActiveExecutions :=
    match s.releaseReservation call with
    | .ok s => s
    | .error _ => s
  after.setProgress call .rejected

/-- The call goes on to reserve capacity, unless the execution is an evaluation. -/
def reserve (s : ActiveExecutions) (call : ℕ) (c : AddCall) : ActiveExecutions :=
  if c.executionMode = .evaluation then s.markRunning call c
  else
    match s.concurrencyControl.throttle { executionId := c.executionId, mode := c.executionMode } with
    | .error _ => s.setProgress call .rejected
    | .ok (concurrencyControl, true) => setProgress { s with concurrencyControl } call .letThrough
    | .ok (concurrencyControl, false) =>
      setProgress { s with concurrencyControl, throttled := s.throttled ++ [call] } call .throttled

/-- A call that has been let through holds its reservation. -/
def goOn (s : ActiveExecutions) (call : ℕ) (c : AddCall) : ActiveExecutions :=
  let reservation : CapacityTarget := { executionId := c.executionId, mode := c.executionMode }
  let s := s.modifyCall call fun c => { c with acquiredReservation := some reservation }
  s.markRunning call c

/-! ## Active executions -/

/-- The call that made the entry of an execution, and the execution. -/
def execution? (s : ActiveExecutions) (executionId : String) : Option (ℕ × ExecutingWorkflowData) :=
  (s.activeExecutions.get? executionId).bind fun call =>
    (s.progress? call).bind fun
      | .added execution => some (call, execution)
      | _ => none

/-- Resolve or reject the promise. Only the first of these settles it. -/
def settle (s : ActiveExecutions) (call : ℕ) (execution : ExecutingWorkflowData) :
    ActiveExecutions :=
  s.setProgress call (.added { execution with settled := true })

def deleteExecution (s : ActiveExecutions) (executionId : String) : ActiveExecutions :=
  { s with activeExecutions := s.activeExecutions.delete executionId }

def stopExecution (s : ActiveExecutions) (executionId : String) : ActiveExecutions :=
  match s.execution? executionId with
  | none => s
  | some (call, execution) =>
    if execution.status = .waiting then s.deleteExecution executionId
    else s.settle call execution

def finalizeExecution (s : ActiveExecutions) (executionId : String) : ActiveExecutions :=
  match s.execution? executionId with
  | none => s
  | some (call, execution) => s.settle call execution

def setStatus (s : ActiveExecutions) (executionId : String) (status : ExecutionStatus) :
    ActiveExecutions :=
  match s.execution? executionId with
  -- `ExecutionNotFoundError` is thrown
  | none => s
  | some (call, execution) => s.setProgress call (.added { execution with status })

/-- The callback ends where `release` throws. -/
def runCallback (s : ActiveExecutions) (call : ℕ) (executionId : String)
    (execution : ExecutingWorkflowData) : ActiveExecutions :=
  let after : ActiveExecutions :=
    match s.releaseReservation call with
    | .error _ => s
    | .ok s => if execution.status = .waiting then s else s.deleteExecution executionId
  after.setProgress call (.added { execution with callbackRan := true })

/-! ## Shutdown -/

/-- What the loop of `shutdown` does with an execution. -/
def shutdownExecution (cancelAll : Bool) (s : ActiveExecutions) (executionId : String) :
    ActiveExecutions :=
  if s.executionsConfig.mode = .regular ∧ cancelAll then s.stopExecution executionId
  else
    match s.execution? executionId with
    | none => s
    | some (_, execution) =>
      if execution.status = .waiting ∨ execution.status = .new then s.deleteExecution executionId
      else s

/-- Nothing else runs before `removeAll` has called `cancelMany`. After that `shutdown` only
waits. -/
def shutdown (s : ActiveExecutions) (cancelAll : Bool) : ActiveExecutions :=
  let s :=
    if s.executionsConfig.mode = .regular then
      { s with concurrencyControl := s.concurrencyControl.disable }
    else s
  let executionIds := s.activeExecutions.keys
  let toCancel := if s.executionsConfig.mode = .regular ∧ cancelAll then executionIds else []
  let s := executionIds.foldl (shutdownExecution cancelAll) s
  let (concurrencyControl, through, cancelled) := s.concurrencyControl.removeAll toCancel
  through.foldl letThroughOne { s with concurrencyControl, cancelled := s.cancelled ++ cancelled }

/-! ## Events -/

/-- A call of `throttle`, `release` or `remove` from outside leaves its error to the caller. -/
def callControl (s : ActiveExecutions)
    (called : Except ConcurrencyError
      (ConcurrencyControlService × Option (ConcurrencyQueueType × String))) : ActiveExecutions :=
  match called with
  | .error _ => s
  | .ok (concurrencyControl, through) =>
    through.toList.foldl letThroughOne { s with concurrencyControl }

def step (s : ActiveExecutions) : ExecutionEvent → Except Unit ActiveExecutions
  | .add executionMode maybeExecutionId =>
    let c : AddCall :=
      { executionMode, maybeExecutionId, executionId := maybeExecutionId.getD "", progress := .creating }
    let call := s.calls.length
    let s := { s with calls := s.calls ++ [c] }
    .ok (if maybeExecutionId = none then s else s.reserve call c)
  | .created call executionId =>
    match s.calls[call]? with
    | some c =>
      if c.progress = .creating then
        let s := s.modifyCall call fun c => { c with executionId }
        -- `assert(maybeExecutionId)`
        .ok (if executionId = "" then s.reject call else s.reserve call { c with executionId })
      else .error ()
    | none => .error ()
  | .goesOn call =>
    match s.calls[call]? with
    | some c => if c.progress = .letThrough then .ok (s.goOn call c) else .error ()
    | none => .error ()
  | .updated call =>
    match s.calls[call]? with
    | some c => if c.progress = .updating then .ok (s.register call c) else .error ()
    | none => .error ()
  | .fails call =>
    match s.progress? call with
    | some .creating | some .updating => .ok (s.reject call)
    | _ => .error ()
  | .setStatus executionId status => .ok (s.setStatus executionId status)
  | .stopExecution executionId => .ok (s.stopExecution executionId)
  | .finalizeExecution executionId => .ok (s.finalizeExecution executionId)
  | .callbackRuns call =>
    match s.calls[call]? with
    | some { executionId, progress := .added execution, .. } =>
      if execution.settled ∧ !execution.callbackRan then
        .ok (s.runCallback call executionId execution)
      else .error ()
    | _ => .error ()
  | .throttle executionId =>
    match s.concurrencyControl.throttle { executionId, mode := .evaluation } with
    | .error _ => .ok s
    | .ok (concurrencyControl, _) => .ok { s with concurrencyControl }
  | .release => .ok (s.callControl (s.concurrencyControl.release .evaluation))
  | .remove target => .ok ((s.forget target).callControl (s.concurrencyControl.remove target))
  | .shutdown cancelAll => .ok (s.shutdown cancelAll)

/-- Nothing is active in a process that has just started. -/
def initial (concurrencyControl : ConcurrencyControlService) : ActiveExecutions :=
  { concurrencyControl, executionsConfig := concurrencyControl.executionsConfig }

/-- One production execution at a time, and no license. -/
def oneAtATime : ConcurrencyControlService :=
  { isEnabled := true
    queues := ConcurrencyControlService.withQueue ∅ .production 1
    executionsConfig := { mode := .regular, productionLimit := 1, evaluationLimit := -1 }
    evaluationLimitInEnv := false
    license := {} }

example : ConcurrencyControlService.construct oneAtATime.executionsConfig false {} = .ok oneAtATime :=
  rfl

end ActiveExecutions
end N8n
