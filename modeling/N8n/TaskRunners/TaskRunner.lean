import N8n.Lib.OrderedMap
import N8n.Lib.Run

/-!
# The task runner

A runner offers the broker as many tasks as it has free slots. A task whose offer is accepted
waits for its settings, is executed then, and may be cancelled or time out in between. When its
execution settles, its result or error is reported and it leaves the running tasks; the message
may turn out not to be serializable, and the failure is reported instead.

Task states are numbered as they come, offers too. The broker accepts each task once, and
`accepts` has the tasks it did. Requests for data, the abort signal and the idle timer are left
out : the execution of a task may end either way at any time.
-/

open Lib

namespace N8n

namespace Runner

/-! ## Tasks -/

inductive TaskStatus where
  | waitingForSettings
  | running
  | abortingCancelled
  | abortingTimeout
  deriving DecidableEq, Repr

/-- What a task error tells. -/
inductive TaskFailure (E : Type) where
  | thrown (error : E)
  | timeout
  | notSerializable
  deriving DecidableEq, Repr

/-- How far `receivedSettings` has got for a task. -/
inductive TaskPhase (E : Type) where
  | waits
  | executes
  /-- The result could not be sent, and `taskExecutionFailed` is about to be called. -/
  | fails (error : TaskFailure E)
  | ended
  deriving DecidableEq, Repr

structure TaskState (T E : Type) where
  taskId : T
  status : TaskStatus := .waitingForSettings
  timeoutTimer : Bool := true
  phase : TaskPhase E := .waits
  deriving DecidableEq, Repr

inductive RunnerMessage (T D E : Type) where
  | taskOffer (offerId validFor : ℕ)
  | taskRejected (taskId : T) (reason : String)
  | taskAccepted (taskId : T)
  | taskDone (taskId : T) (data : D)
  | taskError (taskId : T) (error : TaskFailure E)
  deriving DecidableEq, Repr

/-- The limit, the random part of how long each offer is valid, and which terminal messages can
be serialized. -/
structure RunnerConfig (T D E : Type) where
  maxConcurrency : ℕ
  randomInt : ℕ → ℕ
  canSend : RunnerMessage T D E → Bool

/-- An open offer is stored with the time it is valid until. -/
structure TaskRunner (T D E : Type) where
  canSendOffers : Bool := false
  isDraining : Bool := false
  openOffers : OrderedMap ℕ ℕ := .empty
  runningTasks : OrderedMap T ℕ := .empty
  taskStates : List (TaskState T E) := []
  now : ℕ := 0
  offersMade : ℕ := 0
  accepts : List T := []
  executions : List T := []
  sent : List (RunnerMessage T D E) := []

inductive RunnerEvent (T D E : Type) where
  | runnerRegistered
  | offerAccepted (offerId : ℕ) (taskId : T)
  | taskCancelled (taskId : T)
  | receivedSettings (taskId : T)
  | brokerDrain
  /-- The interval of the offers. -/
  | sendOffers
  | elapse (time : ℕ)
  /-- The timer of a task fires. -/
  | timeout (index : ℕ)
  /-- The execution of a task completes or fails. -/
  | settle (index : ℕ) (result : Except E D)
  /-- The failure to send the result is caught. -/
  | caught (index : ℕ)

namespace TaskRunner

variable {T D E : Type} [DecidableEq T] (config : RunnerConfig T D E) (runner : TaskRunner T D E)

/-! ## Offers -/

/-- In milliseconds. -/
def offerValidTimeMs : ℕ := 5000

def offerValidExtraMs : ℕ := 100

omit [DecidableEq T] in
def deleteStaleOffers : TaskRunner T D E :=
  let stale := runner.openOffers.entries.filter fun offer => offer.2 < runner.now
  { runner with openOffers := runner.openOffers.deleteAll (stale.map Prod.fst) }

omit [DecidableEq T] in
/-- One iteration of the loop of `sendOffers`. -/
def sendOffer : TaskRunner T D E :=
  let validForInMs := offerValidTimeMs + config.randomInt runner.offersMade
  let validUntil := runner.now + (validForInMs + offerValidExtraMs)
  { runner with
    openOffers := runner.openOffers.set runner.offersMade validUntil
    offersMade := runner.offersMade + 1
    sent := runner.sent ++ [.taskOffer runner.offersMade validForInMs] }

omit [DecidableEq T] in
def sendOffersLoop : ℕ → TaskRunner T D E → TaskRunner T D E
  | 0, runner => runner
  | n + 1, runner => sendOffersLoop n (runner.sendOffer config)

omit [DecidableEq T] in
def sendOffers : TaskRunner T D E :=
  let runner := runner.deleteStaleOffers
  if !runner.canSendOffers then runner
  else
    let offersToSend :=
      config.maxConcurrency - (runner.openOffers.size + runner.runningTasks.size)
    sendOffersLoop config offersToSend runner

/-! ## Changes of tasks -/

omit [DecidableEq T] in
def send (message : RunnerMessage T D E) : TaskRunner T D E :=
  { runner with sent := runner.sent ++ [message] }

omit [DecidableEq T] in
/-- A terminal message is sent, if it can be. -/
def sendTerminal (message : RunnerMessage T D E) : TaskRunner T D E :=
  if config.canSend message then runner.send message else runner

omit [DecidableEq T] in
def setTask (index : ℕ) (t : TaskState T E) : TaskRunner T D E :=
  { runner with taskStates := runner.taskStates.set index t }

/-- The task has got to the phase given. -/
def finishTask (index : ℕ) (t : TaskState T E) (phase : TaskPhase E) : TaskRunner T D E :=
  let ended := runner.setTask index { t with timeoutTimer := false, phase := phase }
  { ended with runningTasks := ended.runningTasks.delete t.taskId }.sendOffers config

omit [DecidableEq T] in
def hasOpenTaskSlots : Bool := runner.runningTasks.size < config.maxConcurrency

def offerAccepted (offerId : ℕ) (taskId : T) : TaskRunner T D E :=
  if runner.isDraining then runner.send (.taskRejected taskId "Runner is shutting down")
  else if !runner.hasOpenTaskSlots config then
    { runner with openOffers := runner.openOffers.delete offerId }.send
      (.taskRejected taskId "No open task slots - runner already at capacity")
  else
    match runner.openOffers.get? offerId with
    | none =>
      runner.send
        (.taskRejected taskId "Offer expired - not accepted within validity window")
    | some _ =>
      { runner with
          openOffers := runner.openOffers.delete offerId
          taskStates := runner.taskStates ++ [({ taskId := taskId } : TaskState T E)]
          runningTasks := runner.runningTasks.set taskId runner.taskStates.length }.send
        (.taskAccepted taskId)

/-- The task that runs under the identifier. -/
def runningTask (taskId : T) : Option (ℕ × TaskState T E) :=
  (runner.runningTasks.get? taskId).bind fun index =>
    (runner.taskStates[index]?).map fun t => (index, t)

def taskCancelled (taskId : T) : TaskRunner T D E :=
  match runner.runningTask taskId with
  | none => runner
  | some (index, t) =>
    match t.status with
    | .waitingForSettings => runner.finishTask config index t .ended
    | .abortingTimeout | .abortingCancelled => runner
    | .running => runner.setTask index { t with status := .abortingCancelled }

def taskTimedOut (taskId : T) : TaskRunner T D E :=
  match runner.runningTask taskId with
  | none => runner
  | some (index, t) =>
    match t.status with
    | .waitingForSettings =>
      (runner.sendTerminal config (.taskError taskId .timeout)).finishTask config index t .ended
    -- It throws, but the timer fires only once.
    | .abortingTimeout => runner
    | .running => runner.setTask index { t with status := .abortingTimeout }
    | .abortingCancelled => runner

/-- Only a task that waits for its settings is executed, with others it throws. -/
def receivedSettings (taskId : T) : TaskRunner T D E :=
  match runner.runningTask taskId with
  | none => runner
  | some (index, t) =>
    match t.status with
    | .waitingForSettings =>
      { runner.setTask index { t with status := .running, phase := .executes } with
        executions := runner.executions ++ [taskId] }
    | _ => runner

def taskExecutionFailed (index : ℕ) (t : TaskState T E) (error : TaskFailure E) :
    TaskRunner T D E :=
  match t.status with
  | .waitingForSettings | .abortingCancelled => runner.finishTask config index t .ended
  | .abortingTimeout | .running =>
    (runner.sendTerminal config (.taskError t.taskId error)).finishTask config index t .ended

def taskExecutionSucceeded (index : ℕ) (t : TaskState T E) (data : D) : TaskRunner T D E :=
  match t.status with
  -- It throws, but a task that waits for settings is not executed.
  | .waitingForSettings | .abortingCancelled => runner.finishTask config index t .ended
  | .abortingTimeout | .running =>
    if config.canSend (.taskDone t.taskId data) then
      (runner.send (.taskDone t.taskId data)).finishTask config index t .ended
    else runner.finishTask config index t (.fails .notSerializable)

/-! ## Steps -/

/-- An event that cannot happen is an error. -/
def step : RunnerEvent T D E → Except Unit (TaskRunner T D E)
  | .runnerRegistered => .ok { runner with canSendOffers := true }
  | .offerAccepted offerId taskId =>
    if taskId ∈ runner.accepts then .error ()
    else .ok ({ runner with accepts := runner.accepts ++ [taskId] }.offerAccepted config offerId
      taskId)
  | .taskCancelled taskId => .ok (runner.taskCancelled config taskId)
  | .receivedSettings taskId => .ok (runner.receivedSettings taskId)
  | .brokerDrain => .ok { runner with isDraining := true, canSendOffers := false }
  | .sendOffers => .ok (runner.sendOffers config)
  | .elapse time => .ok { runner with now := runner.now + time }
  | .timeout index =>
    match runner.taskStates[index]? with
    | none => .error ()
    | some t =>
      if t.timeoutTimer then
        .ok ((runner.setTask index { t with timeoutTimer := false }).taskTimedOut config t.taskId)
      else .error ()
  | .settle index result =>
    match runner.taskStates[index]? with
    | none => .error ()
    | some t =>
      match t.phase, result with
      | .executes, .ok data => .ok (runner.taskExecutionSucceeded config index t data)
      | .executes, .error error =>
        .ok (runner.taskExecutionFailed config index t (.thrown error))
      | _, _ => .error ()
  | .caught index =>
    match runner.taskStates[index]? with
    | none => .error ()
    | some t =>
      match t.phase with
      | .fails error => .ok (runner.taskExecutionFailed config index t error)
      | _ => .error ()

end TaskRunner

/-! ## What the runner promises -/

/-- The task a terminal message reports. -/
def RunnerMessage.reportedTask {T D E : Type} : RunnerMessage T D E → Option T
  | .taskDone taskId _ => some taskId
  | .taskError taskId _ => some taskId
  | _ => none

def RunnerMessage.rejectedTask {T D E : Type} : RunnerMessage T D E → Option T
  | .taskRejected taskId _ => some taskId
  | _ => none

namespace TaskRunner

variable {T D E : Type} (runner : TaskRunner T D E)

def reported : List T := runner.sent.filterMap RunnerMessage.reportedTask

def rejected : List T := runner.sent.filterMap RunnerMessage.rejectedTask

/-- The runner has no more offers and tasks than slots, and no task is executed or reported
twice. A task that it rejected is not reported, and one that is reported or whose cancelled
execution has ended is not running. -/
structure KeepsPromises [DecidableEq T] (config : RunnerConfig T D E) : Prop where
  capacity : runner.openOffers.size + runner.runningTasks.size ≤ config.maxConcurrency
  executedOnce : runner.executions.Nodup
  reportedOnce : runner.reported.Nodup
  rejected : ∀ taskId ∈ runner.rejected, taskId ∉ runner.reported
  reportedLeft : ∀ taskId ∈ runner.reported, taskId ∉ runner.runningTasks.keys
  cancelledLeft : ∀ t ∈ runner.taskStates, t.status = .abortingCancelled →
    (t.taskId ∈ runner.runningTasks.keys ↔ t.phase = .executes)
  /-- Until then it is running. -/
  running : ∀ t ∈ runner.taskStates, t.phase = .waits ∨ t.phase = .executes →
    t.taskId ∈ runner.runningTasks.keys

end TaskRunner

end Runner

end N8n
