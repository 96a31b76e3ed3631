import N8n.Lib.Json
import N8n.Lib.Run
import Mathlib.Data.Finset.Basic

/-!
# The task broker

`TaskBroker` matches the offers of task runners with the requests of task requesters. Its
methods are asynchronous : a method runs without interruption up to its next `await`, and
anything else may happen before it goes on. `step` takes one such stretch : a call from
outside, a timer that fires, or a suspended method that goes on. Timers fire in any order.

`settleTasks` starts one call of `acceptOffer` for each match. A call is numbered; its task
has the identifier that `nanoid` returns for that number. Its `phase` says where it is
suspended. Requests, promises and timers are numbered too, like objects in a heap, so that
two requests with the same `requestId` are told apart; an offer has its number in `ref`.

`log` lists the messages the broker has sent. The fields `expired` of the broker and
`offers`, `now` of a call only record what has happened.
-/

open Lib

namespace N8n

/-! ## Messages -/

inductive TaskRunnerMode where
  | internal
  | external
  deriving DecidableEq, Repr

/-- What a `broker:taskerror` carries. -/
inductive TaskError where
  /-- What the runner has sent. -/
  | reported (error : Json)
  | disconnected (message : String)
  | unexpectedError (message : String)
  | taskRunnerExecutionTimeoutError (taskTimeout : ℕ) (isSelfHosted : Bool) (mode : TaskRunnerMode)

inductive ExpiryReason where
  | timeout
  | draining
  deriving DecidableEq, Repr

inductive ResponseStatus where
  | success
  | error
  deriving DecidableEq, Repr

/-- What a runner has asked its requester for : `broker:rpcresponse`,
`broker:taskdataresponse` and `broker:nodetypes`. -/
inductive RequesterResponse where
  | rpcResponse (callId : String) (status : ResponseStatus) (data : Json)
  | taskDataResponse (requestId : String) (data : Json)
  | nodeTypes (requestId : String) (nodeTypes : Json)

/-- `BrokerMessage.ToRunner` -/
inductive ToRunner where
  | runnerRegistered
  | taskOfferAccept (offerId taskId : String)
  | taskCancel (taskId reason : String)
  | taskSettings (taskId : String) (settings : Json)
  | response (taskId : String) (response : RequesterResponse)

/-- `BrokerMessage.ToRequester` -/
inductive ToRequester where
  | taskReady (requestId taskId : String)
  | taskDone (taskId : String) (data : Json)
  | taskError (taskId : String) (error : TaskError)
  | requestExpired (requestId : String) (reason : ExpiryReason)
  | taskDataRequest (taskId requestId : String) (requestParams : Json)
  | nodeTypesRequest (taskId requestId : String) (requestParams : Json)
  | rpc (taskId callId name : String) (params : Json)

/-- `RunnerMessage.ToBroker`. An offer comes with the times read while it is handled, when
it is made and when the offers are matched. -/
inductive RunnerMessage where
  | info
  | taskAccepted (taskId : String)
  | taskRejected (taskId reason : String)
  | taskDeferred (taskId : String)
  | taskOffer (offerId taskType : String) (validFor : ℤ) (offeredAt now : ℤ)
  | taskDone (taskId : String) (data : Json)
  | taskError (taskId : String) (error : Json)
  | taskDataRequest (taskId requestId : String) (requestParams : Json)
  | nodeTypesRequest (taskId requestId : String) (requestParams : Json)
  | rpc (taskId callId name : String) (params : Json)

/-- `RequesterMessage.ToBroker`. A request comes with the time read while it is handled. -/
inductive RequesterMessage where
  | taskSettings (taskId : String) (settings : Json)
  | taskCancel (taskId reason : String)
  | taskRequest (requestId taskType : String) (now : ℤ)
  | taskDataResponse (taskId requestId : String) (data : Json)
  | nodeTypesResponse (taskId requestId : String) (nodeTypes : Json)
  | rpcResponse (taskId callId : String) (status : ResponseStatus) (data : Json)

/-- What the broker does that is seen from outside. -/
inductive LogEntry where
  | toRunner (runnerId : String) (message : ToRunner)
  | toRequester (requesterId : String) (message : ToRequester)
  | mismatchWarning (requestId taskType : String) (offerTypes : List String)

/-! ## State -/

structure TaskRunner where
  id : String

structure Task where
  id : String
  runnerId : String
  requesterId : String
  taskType : String
  timeout : Option ℕ := none

/-- The tasks, each under its identifier. -/
structure Tasks where
  byId : OrderedMap String Task
  id_eq : ∀ taskId task, byId.get? taskId = some task → task.id = taskId

structure TaskOffer where
  offerId : String
  runnerId : String
  taskType : String
  /-- In milliseconds; `-1` for an offer that does not expire. -/
  validFor : ℤ
  /-- In nanoseconds. -/
  validUntil : ℤ
  /-- The number of the offer. -/
  ref : ℕ

/-- Whether `expireTasks` leaves the offer. -/
def TaskOffer.isValid (offer : TaskOffer) (now : ℤ) : Bool :=
  offer.validFor == -1 || !(offer.validUntil < now)

structure TaskRequest where
  requestId : String
  requesterId : String
  taskType : String
  timeout : Option ℕ := none
  acceptInProgress : Bool := false

/-- Why a promise is rejected. -/
inductive Rejection where
  | taskRejectError (reason : String)
  | taskDeferredError
  | taskRunnerAcceptTimeoutError (taskId runnerId : String)
  | requesterTimedOut

inductive PromiseState where
  | pending
  /-- With the settings, if it is a requester who accepts. -/
  | fulfilled (settings : Json)
  | rejected (reason : Rejection)

/-- What a timer does when it fires. -/
inductive Timer where
  | request (requestId : String)
  | runnerAccept (promise : ℕ) (taskId runnerId : String)
  | requesterAccept (promise : ℕ)
  | task (taskId : String)

/-- Where a call of `acceptOffer` is. -/
inductive AcceptPhase where
  /-- Awaits the callback of the runner. -/
  | messagingRunner (promise : ℕ)
  | awaitingRunner (promise : ℕ)
  /-- Over, without a task. -/
  | refused
  /-- Awaits the callback of the requester. -/
  | messagingRequester (promise : ℕ)
  | awaitingSettings (promise : ℕ)
  /-- In `sendTaskSettings`, awaits `getRunnerOrFailTask`, which has found the runner. -/
  | checkingRunner (settings : Json)
  /-- In `getRunnerOrFailTask`, awaits `failTask`. -/
  | runnerMissing
  /-- In `sendTaskSettings`, awaits the callback of the runner. -/
  | messagingSettings
  | finished

/-- A call of `acceptOffer`. -/
structure AcceptCall where
  offer : TaskOffer
  request : ℕ
  phase : AcceptPhase
  /-- The pending offers among which the offer was chosen. -/
  offers : List TaskOffer
  /-- When it was chosen. -/
  now : ℤ

/-- Another method that is suspended. -/
inductive Suspended where
  /-- `taskDoneHandler` or `taskErrorHandler`, awaiting the callback of the requester, if it is
  registered. -/
  | delivery (taskId : String) (requesterId : Option String)
  /-- `handleTaskTimeout`, awaiting the callback of the runner. -/
  | taskTimeout (taskId : String)
  /-- A response of a requester, awaiting `getRunnerOrFailTask`. -/
  | response (runnerId taskId : String) (response : RequesterResponse)

structure TaskBroker where
  knownRunners : OrderedMap String TaskRunner := ∅
  requesters : Finset String := ∅
  tasks : Tasks := ⟨∅, fun _ _ h => by simp at h⟩
  isDraining : Bool := false
  runnerAcceptRejects : OrderedMap String ℕ := ∅
  requesterAcceptRejects : OrderedMap String ℕ := ∅
  pendingTaskOffers : List TaskOffer := []
  pendingTaskRequests : List ℕ := []
  mismatchWarned : Finset String := ∅
  requests : List TaskRequest := []
  promises : List PromiseState := []
  /-- A timer that has fired or was cleared is `none`. -/
  timers : List (Option Timer) := []
  calls : List AcceptCall := []
  suspended : List Suspended := []
  /-- How many offers were made. -/
  offersMade : ℕ := 0
  log : List LogEntry := []
  /-- The requests that a `broker:requestexpired` was sent for. -/
  expired : List ℕ := []

/-- The configuration of the broker; the constructor refuses a task timeout of zero. -/
structure TaskRunnersConfig where
  mode : TaskRunnerMode
  taskTimeout : ℕ
  taskTimeout_pos : 0 < taskTimeout
  deploymentType : String

/-- The defaults. -/
def TaskRunnersConfig.default : TaskRunnersConfig where
  mode := .internal
  taskTimeout := 300
  taskTimeout_pos := by decide
  deploymentType := "default"

/-! ## The table of tasks -/

namespace Tasks

def get? (tasks : Tasks) (taskId : String) : Option Task := tasks.byId.get? taskId

def has (tasks : Tasks) (taskId : String) : Bool := tasks.byId.has taskId

def keys (tasks : Tasks) : List String := tasks.byId.keys

def values (tasks : Tasks) : List Task := tasks.byId.values

/-- `tasks.set(task.id, task)` -/
def set (tasks : Tasks) (task : Task) : Tasks where
  byId := tasks.byId.set task.id task
  id_eq := by
    intro taskId task' h
    rw [OrderedMap.get?_set] at h
    split_ifs at h with hid
    · cases h
      exact hid
    · exact tasks.id_eq taskId task' h

def delete (tasks : Tasks) (taskId : String) : Tasks where
  byId := tasks.byId.delete taskId
  id_eq := by
    intro taskId' task h
    rw [OrderedMap.get?_delete] at h
    split_ifs at h
    exact tasks.id_eq taskId' task h

theorem id_of_get? {tasks : Tasks} {taskId : String} {task : Task}
    (h : tasks.get? taskId = some task) : task.id = taskId :=
  tasks.id_eq taskId task h

end Tasks

namespace TaskBroker

/-! ## Timers, promises and messages -/

/-- The timer gets the number `timers.length`. -/
def setTimeout (broker : TaskBroker) (timer : Timer) : TaskBroker :=
  { broker with timers := broker.timers ++ [some timer] }

def clearTimeout (broker : TaskBroker) : Option ℕ → TaskBroker
  | some handle => { broker with timers := broker.timers.set handle none }
  | none => broker

/-- The promise gets the number `promises.length`. -/
def newPromise (broker : TaskBroker) : TaskBroker :=
  { broker with promises := broker.promises ++ [.pending] }

/-- Resolve or reject a promise; only the first time counts. -/
def settlePromise (broker : TaskBroker) (promise : ℕ) (state : PromiseState) : TaskBroker :=
  match broker.promises[promise]? with
  | some .pending => { broker with promises := broker.promises.set promise state }
  | _ => broker

def messageRunner (broker : TaskBroker) (runnerId : String) (message : ToRunner) : TaskBroker :=
  if broker.knownRunners.has runnerId then
    { broker with log := broker.log ++ [.toRunner runnerId message] }
  else broker

def messageRequester (broker : TaskBroker) (requesterId : String) (message : ToRequester) :
    TaskBroker :=
  if requesterId ∈ broker.requesters then
    { broker with log := broker.log ++ [.toRequester requesterId message] }
  else broker

/-! ## Requests -/

def createRequestTimeout (broker : TaskBroker) (requestId : String) : TaskBroker :=
  broker.setTimeout (.request requestId)

/-- Whether this is the number of a request with this `requestId`. -/
def hasRequestId (broker : TaskBroker) (requestId : String) (request : ℕ) : Bool :=
  broker.requests[request]?.any fun r => r.requestId == requestId

/-- `pendingTaskRequests.find((r) => r.requestId === requestId)` -/
def findRequest (broker : TaskBroker) (requestId : String) : Option ℕ :=
  broker.pendingTaskRequests.find? (broker.hasRequestId requestId)

/-- Splice the request that `findRequest` finds. -/
def spliceRequest (broker : TaskBroker) (requestId : String) : TaskBroker :=
  { broker with
    pendingTaskRequests := broker.pendingTaskRequests.eraseP (broker.hasRequestId requestId) }

def sendRequestExpired (broker : TaskBroker) (request : ℕ) (data : TaskRequest)
    (reason : ExpiryReason) : TaskBroker :=
  if data.requesterId ∈ broker.requesters then
    { broker.messageRequester data.requesterId (.requestExpired data.requestId reason) with
      expired := broker.expired ++ [request] }
  else broker

def handleRequestTimeout (broker : TaskBroker) (requestId : String) : TaskBroker :=
  match broker.findRequest requestId with
  | none => broker
  | some request =>
    match broker.requests[request]? with
    | none => broker
    | some data =>
      let broker := broker.spliceRequest requestId
      let broker := { broker with mismatchWarned := broker.mismatchWarned.erase requestId }
      (broker.clearTimeout data.timeout).sendRequestExpired request data .timeout

/-! ## Answers of the runner and of the requester -/

/-- Settle the promise of the task, once. -/
def settleRunner (broker : TaskBroker) (taskId : String) (state : PromiseState) : TaskBroker :=
  match broker.runnerAcceptRejects.get? taskId with
  | none => broker
  | some promise =>
    { broker.settlePromise promise state with
      runnerAcceptRejects := broker.runnerAcceptRejects.delete taskId }

def handleRunnerAccept (broker : TaskBroker) (taskId : String) : TaskBroker :=
  broker.settleRunner taskId (.fulfilled .null)

def handleRunnerReject (broker : TaskBroker) (taskId reason : String) : TaskBroker :=
  broker.settleRunner taskId (.rejected (.taskRejectError reason))

def handleRunnerDeferred (broker : TaskBroker) (taskId : String) : TaskBroker :=
  broker.settleRunner taskId (.rejected .taskDeferredError)

/-- Settle the promise of the task, once. -/
def settleRequester (broker : TaskBroker) (taskId : String) (state : PromiseState) : TaskBroker :=
  match broker.requesterAcceptRejects.get? taskId with
  | none => broker
  | some promise =>
    { broker.settlePromise promise state with
      requesterAcceptRejects := broker.requesterAcceptRejects.delete taskId }

def handleRequesterAccept (broker : TaskBroker) (taskId : String) (settings : Json) : TaskBroker :=
  broker.settleRequester taskId (.fulfilled settings)

def handleRequesterReject (broker : TaskBroker) (taskId reason : String) : TaskBroker :=
  broker.settleRequester taskId (.rejected (.taskRejectError reason))

/-! ## The end of a task -/

def cancelTask (broker : TaskBroker) (taskId reason : String) : TaskBroker :=
  match broker.tasks.get? taskId with
  | none => broker
  | some task =>
    let broker := { broker with tasks := broker.tasks.delete taskId }
    broker.messageRunner task.runnerId (.taskCancel taskId reason)

def failTask (broker : TaskBroker) (taskId : String) (error : TaskError) : TaskBroker :=
  match broker.tasks.get? taskId with
  | none => broker
  | some task =>
    let broker := { broker with tasks := broker.tasks.delete taskId }
    broker.messageRequester task.requesterId (.taskError taskId error)

def suspend (broker : TaskBroker) (method : Suspended) : TaskBroker :=
  { broker with suspended := broker.suspended ++ [method] }

/-- Up to the `await` of `taskDoneHandler` and `taskErrorHandler`, which differ only in the
message they send. -/
def deliver (broker : TaskBroker) (taskId : String) (message : String → ToRequester) :
    TaskBroker :=
  match broker.tasks.get? taskId with
  | none => broker
  | some task =>
    let broker := broker.clearTimeout task.timeout
    let requester := if task.requesterId ∈ broker.requesters then some task.requesterId else none
    let broker := broker.suspend (.delivery task.id requester)
    broker.messageRequester task.requesterId (message task.id)

def taskDoneHandler (broker : TaskBroker) (taskId : String) (data : Json) : TaskBroker :=
  broker.deliver taskId fun id => .taskDone id data

def taskErrorHandler (broker : TaskBroker) (taskId : String) (error : TaskError) : TaskBroker :=
  broker.deliver taskId fun id => .taskError id error

/-- The call of `taskErrorHandler` in `handleTaskTimeout`. -/
def timeOutTask (config : TaskRunnersConfig) (broker : TaskBroker) (taskId : String) : TaskBroker :=
  broker.taskErrorHandler taskId <|
    .taskRunnerExecutionTimeoutError config.taskTimeout (config.deploymentType != "cloud") config.mode

/-- In external mode, up to the `await` of the callback of the runner. -/
def handleTaskTimeout (config : TaskRunnersConfig) (broker : TaskBroker) (taskId : String) :
    TaskBroker :=
  match broker.tasks.get? taskId with
  | none => broker
  | some task =>
    match config.mode with
    | .internal => broker.timeOutTask config taskId
    | .external =>
      let broker := broker.suspend (.taskTimeout taskId)
      broker.messageRunner task.runnerId (.taskCancel taskId "Task execution timed out")

/-- The runner of the task; where there is none, the task has failed. -/
def getRunnerOrFailTask (broker : TaskBroker) (taskId : String) : TaskBroker × Option TaskRunner :=
  match broker.tasks.get? taskId with
  | none => (broker, none)
  | some task =>
    match broker.knownRunners.get? task.runnerId with
    | some runner => (broker, some runner)
    | none =>
      let error := "Cannot find runner, failed to find runner (" ++ task.runnerId ++ ")"
      (broker.failTask taskId (.unexpectedError error), none)

/-! ## Messages that are passed on -/

/-- To the requester of the task. -/
def passToRequester (broker : TaskBroker) (taskId : String) (message : ToRequester) : TaskBroker :=
  match broker.tasks.get? taskId with
  | none => broker
  | some task => broker.messageRequester task.requesterId message

def handleRpcRequest (broker : TaskBroker) (taskId callId name : String) (params : Json) :
    TaskBroker :=
  broker.passToRequester taskId (.rpc taskId callId name params)

def handleDataRequest (broker : TaskBroker) (taskId requestId : String) (requestParams : Json) :
    TaskBroker :=
  broker.passToRequester taskId (.taskDataRequest taskId requestId requestParams)

def handleNodeTypesRequest (broker : TaskBroker) (taskId requestId : String)
    (requestParams : Json) : TaskBroker :=
  broker.passToRequester taskId (.nodeTypesRequest taskId requestId requestParams)

/-- To the runner of the task, up to the `await` of `getRunnerOrFailTask`. -/
def passToRunner (broker : TaskBroker) (taskId : String) (response : RequesterResponse) :
    TaskBroker :=
  let result := broker.getRunnerOrFailTask taskId
  match result.2 with
  | none => result.1
  | some runner => result.1.suspend (.response runner.id taskId response)

def handleRequesterRpcResponse (broker : TaskBroker) (taskId callId : String)
    (status : ResponseStatus) (data : Json) : TaskBroker :=
  broker.passToRunner taskId (.rpcResponse callId status data)

def handleRequesterDataResponse (broker : TaskBroker) (taskId requestId : String) (data : Json) :
    TaskBroker :=
  broker.passToRunner taskId (.taskDataResponse requestId data)

def handleRequesterNodeTypesResponse (broker : TaskBroker) (taskId requestId : String)
    (nodeTypes : Json) : TaskBroker :=
  broker.passToRunner taskId (.nodeTypes requestId nodeTypes)

/-! ## Matching -/

def expireTasks (broker : TaskBroker) (now : ℤ) : TaskBroker :=
  { broker with pendingTaskOffers := broker.pendingTaskOffers.filter (·.isValid now) }

def warnOnTaskTypeMismatch (broker : TaskBroker) (request : TaskRequest) : TaskBroker :=
  if broker.pendingTaskOffers = [] then broker
  else if request.requestId ∈ broker.mismatchWarned then broker
  else
    let offerTypes := (broker.pendingTaskOffers.map (·.taskType)).eraseDups
    { broker with
      log := broker.log ++ [.mismatchWarning request.requestId request.taskType offerTypes]
      mismatchWarned := insert request.requestId broker.mismatchWarned }

/-- Up to the first `await` of `acceptOffer`; `offers` is what the offer was chosen from. -/
def acceptOffer (nanoid : ℕ → String) (broker : TaskBroker) (offer : TaskOffer) (request : ℕ)
    (offers : List TaskOffer) (now : ℤ) : TaskBroker :=
  let taskId := nanoid broker.calls.length
  let promise := broker.promises.length
  let call : AcceptCall := { offer, request, phase := .messagingRunner promise, offers, now }
  let broker := { broker.newPromise with
    runnerAcceptRejects := broker.runnerAcceptRejects.set taskId promise
    calls := broker.calls ++ [call] }
  (broker.setTimeout (.runnerAccept promise taskId offer.runnerId)).messageRunner
    offer.runnerId (.taskOfferAccept offer.offerId taskId)

/-- One iteration of `settleTasks`. -/
def settleRequest (nanoid : ℕ → String) (now : ℤ) (broker : TaskBroker) (request : ℕ) :
    TaskBroker :=
  match broker.requests[request]? with
  | none => broker
  | some data =>
    if data.acceptInProgress then broker
    else
      let offers := broker.pendingTaskOffers
      match offers.find? fun o => o.taskType == data.taskType with
      | none => broker.warnOnTaskTypeMismatch data
      | some offer =>
        let broker := { broker with
          requests := broker.requests.set request { data with acceptInProgress := true }
          pendingTaskOffers := offers.eraseP fun o => o.taskType == data.taskType
          mismatchWarned := broker.mismatchWarned.erase data.requestId }
        broker.acceptOffer nanoid offer request offers now

def settleTasks (nanoid : ℕ → String) (broker : TaskBroker) (now : ℤ) : TaskBroker :=
  let broker := broker.expireTasks now
  broker.pendingTaskRequests.foldl (settleRequest nanoid now) broker

/-- A request comes with its timeout, which `onRequesterMessage` has created. -/
def taskRequested (nanoid : ℕ → String) (broker : TaskBroker) (data : TaskRequest) (now : ℤ) :
    TaskBroker :=
  let request := broker.requests.length
  let broker := { broker with requests := broker.requests ++ [data] }
  if broker.isDraining then
    (broker.clearTimeout data.timeout).sendRequestExpired request data .draining
  else
    let broker := { broker with
      pendingTaskRequests := broker.pendingTaskRequests ++ [request] }
    broker.settleTasks nanoid now

def taskOffered (nanoid : ℕ → String) (broker : TaskBroker) (offer : TaskOffer) (now : ℤ) :
    TaskBroker :=
  let broker := { broker with
    pendingTaskOffers := broker.pendingTaskOffers ++ [offer]
    offersMade := broker.offersMade + 1 }
  broker.settleTasks nanoid now

def hasActiveTasks (broker : TaskBroker) : Bool := 0 < broker.tasks.byId.size

/-! ## The rest of `acceptOffer` -/

def setPhase (broker : TaskBroker) (call : ℕ) (phase : AcceptPhase) : TaskBroker :=
  { broker with calls := broker.calls.modify call fun c => { c with phase } }

/-- The first `catch`. -/
def refuse (broker : TaskBroker) (call request : ℕ) (data : TaskRequest)
    (reason : Option Rejection) : TaskBroker :=
  let data := { data with acceptInProgress := false }
  let broker := broker.setPhase call .refused
  match reason with
  | some .taskDeferredError =>
    let broker := broker.clearTimeout data.timeout
    let timeout := broker.timers.length
    { broker.createRequestTimeout data.requestId with requests := broker.requests.set request { data with timeout := some timeout } }
  | _ => { broker with requests := broker.requests.set request data }

def setTask (broker : TaskBroker) (task : Task) : TaskBroker :=
  { broker with tasks := broker.tasks.set task }

/-- From the splice of the request to the callback of the requester. -/
def sendTaskReady (broker : TaskBroker) (call : ℕ) (data : TaskRequest) (taskId : String) :
    TaskBroker :=
  let promise := broker.promises.length
  let broker := { (broker.spliceRequest data.requestId).newPromise with
    requesterAcceptRejects := broker.requesterAcceptRejects.set taskId promise }
  let broker := (broker.setTimeout (.requesterAccept promise)).setPhase call
    (.messagingRequester promise)
  broker.messageRequester data.requesterId (.taskReady data.requestId taskId)

/-- After the runner has accepted. -/
def addTask (broker : TaskBroker) (call : ℕ) (offer : TaskOffer) (data : TaskRequest)
    (taskId : String) : TaskBroker :=
  let broker := (broker.clearTimeout data.timeout).setTask
    { id := taskId, taskType := offer.taskType, runnerId := offer.runnerId,
      requesterId := data.requesterId }
  match broker.findRequest data.requestId with
  | none => broker.setPhase call .finished
  | some _ => broker.sendTaskReady call data taskId

/-- The second `catch`. -/
def giveUp (broker : TaskBroker) (call : ℕ) (taskId : String) : Option Rejection → TaskBroker
  | some (.taskRejectError reason) => (broker.setPhase call .finished).cancelTask taskId reason
  | _ => (broker.setPhase call .finished).cancelTask taskId "Unknown reason"

/-- `sendTaskSettings`, up to the `await` of `getRunnerOrFailTask`. -/
def sendTaskSettings (broker : TaskBroker) (call : ℕ) (taskId : String) (settings : Json) :
    TaskBroker :=
  if broker.tasks.has taskId then
    let result := broker.getRunnerOrFailTask taskId
    match result.2 with
    | none => result.1.setPhase call .runnerMissing
    | some _ => result.1.setPhase call (.checkingRunner settings)
  else broker.setPhase call .finished

/-- The rest of `sendTaskSettings`, up to the callback of the runner. -/
def startTask (broker : TaskBroker) (call : ℕ) (runnerId taskId : String) (settings : Json) :
    TaskBroker :=
  match broker.tasks.get? taskId with
  | none => broker.setPhase call .finished
  | some task =>
    let task := { task with timeout := some broker.timers.length }
    let broker := (broker.setTimeout (.task taskId)).setTask task
    (broker.setPhase call .messagingSettings).messageRunner runnerId
      (.taskSettings taskId settings)

/-! ## Steps -/

/-- How the callback that a method awaits ends. -/
inductive CallbackOutcome where
  | resolved
  | rejected
  deriving DecidableEq, Repr

inductive BrokerEvent where
  | registerRunner (runner : TaskRunner)
  | deregisterRunner (runnerId error : String)
  | registerRequester (requesterId : String)
  | deregisterRequester (requesterId : String)
  | runnerMessage (runnerId : String) (message : RunnerMessage)
  | requesterMessage (requesterId : String) (message : RequesterMessage)
  | requesterReject (taskId reason : String)
  | timerFires (timer : ℕ)
  /-- A call of `acceptOffer` goes on; the outcome counts where it awaits a callback. -/
  | acceptResumes (call : ℕ) (callback : CallbackOutcome)
  | methodResumes (method : ℕ) (callback : CallbackOutcome)
  | startDraining
  | stopDraining

/-- Why an event cannot happen. -/
inductive BrokerStepError where
  | noTimer
  | notSuspended
  | notSettled
  deriving DecidableEq, Repr

def registerRunner (broker : TaskBroker) (runner : TaskRunner) : TaskBroker :=
  let broker := { broker with knownRunners := broker.knownRunners.set runner.id runner }
  broker.messageRunner runner.id .runnerRegistered

/-- One iteration of the last loop of `deregisterRunner`. -/
def failTaskOf (runnerId error : String) (broker : TaskBroker) (task : Task) : TaskBroker :=
  if task.runnerId = runnerId then
    (broker.failTask task.id (.disconnected error)).handleRunnerReject task.id
      ("The Task Runner (" ++ runnerId ++ ") has disconnected: " ++ error)
  else broker

def deregisterRunner (broker : TaskBroker) (runnerId error : String) : TaskBroker :=
  let broker := { broker with
    knownRunners := broker.knownRunners.delete runnerId
    pendingTaskOffers := broker.pendingTaskOffers.filter fun o => o.runnerId ≠ runnerId }
  broker.tasks.values.foldl (failTaskOf runnerId error) broker

def onRunnerMessage (nanoid : ℕ → String) (broker : TaskBroker) (runnerId : String)
    (message : RunnerMessage) : TaskBroker :=
  if broker.knownRunners.has runnerId then
    match message with
    | .info => broker
    | .taskAccepted taskId => broker.handleRunnerAccept taskId
    | .taskRejected taskId reason => broker.handleRunnerReject taskId reason
    | .taskDeferred taskId => broker.handleRunnerDeferred taskId
    | .taskOffer offerId taskType validFor offeredAt now =>
      let validUntil := if validFor = -1 then 0 else offeredAt + validFor * 1000000
      let ref := broker.offersMade
      broker.taskOffered nanoid { offerId, runnerId, taskType, validFor, validUntil, ref } now
    | .taskDone taskId data => broker.taskDoneHandler taskId data
    | .taskError taskId error => broker.taskErrorHandler taskId (.reported error)
    | .taskDataRequest taskId requestId requestParams =>
      broker.handleDataRequest taskId requestId requestParams
    | .nodeTypesRequest taskId requestId requestParams =>
      broker.handleNodeTypesRequest taskId requestId requestParams
    | .rpc taskId callId name params => broker.handleRpcRequest taskId callId name params
  else broker

def onRequesterMessage (nanoid : ℕ → String) (broker : TaskBroker) (requesterId : String) :
    RequesterMessage → TaskBroker
  | .taskSettings taskId settings => broker.handleRequesterAccept taskId settings
  | .taskCancel taskId reason => broker.cancelTask taskId reason
  | .taskRequest requestId taskType now =>
    let timeout := some broker.timers.length
    (broker.createRequestTimeout requestId).taskRequested nanoid
      { requestId, requesterId, taskType, timeout } now
  | .taskDataResponse taskId requestId data =>
    broker.handleRequesterDataResponse taskId requestId data
  | .nodeTypesResponse taskId requestId nodeTypes =>
    broker.handleRequesterNodeTypesResponse taskId requestId nodeTypes
  | .rpcResponse taskId callId status data =>
    broker.handleRequesterRpcResponse taskId callId status data

/-- What happens when a timer fires. -/
def onTimer (config : TaskRunnersConfig) (broker : TaskBroker) : Timer → TaskBroker
  | .request requestId => broker.handleRequestTimeout requestId
  | .runnerAccept promise taskId runnerId =>
    broker.settlePromise promise (.rejected (.taskRunnerAcceptTimeoutError taskId runnerId))
  | .requesterAccept promise => broker.settlePromise promise (.rejected .requesterTimedOut)
  | .task taskId => broker.handleTaskTimeout config taskId

/-- A suspended method goes on. When its callback was rejected it only throws. -/
def resume (config : TaskRunnersConfig) (broker : TaskBroker) :
    Suspended → CallbackOutcome → TaskBroker
  | .delivery taskId _, .resolved => { broker with tasks := broker.tasks.delete taskId }
  | .delivery _ _, .rejected => broker
  | .taskTimeout taskId, .resolved => broker.timeOutTask config taskId
  | .taskTimeout _, .rejected => broker
  | .response runnerId taskId response, _ =>
    broker.messageRunner runnerId (.response taskId response)

/-- A call of `acceptOffer` goes on. -/
def resumeAccept (nanoid : ℕ → String) (broker : TaskBroker) (k : ℕ) (call : AcceptCall)
    (data : TaskRequest) (callback : CallbackOutcome) : Except BrokerStepError TaskBroker :=
  match call.phase with
  | .messagingRunner promise =>
    match callback with
    | .resolved => .ok (broker.setPhase k (.awaitingRunner promise))
    | .rejected => .ok (broker.refuse k call.request data none)
  | .awaitingRunner promise =>
    match broker.promises[promise]? with
    | some (.fulfilled _) => .ok (broker.addTask k call.offer data (nanoid k))
    | some (.rejected reason) => .ok (broker.refuse k call.request data (some reason))
    | _ => .error .notSettled
  | .messagingRequester promise =>
    match callback with
    | .resolved => .ok (broker.setPhase k (.awaitingSettings promise))
    | .rejected => .ok (broker.giveUp k (nanoid k) none)
  | .awaitingSettings promise =>
    match broker.promises[promise]? with
    | some (.fulfilled settings) => .ok (broker.sendTaskSettings k (nanoid k) settings)
    | some (.rejected reason) => .ok (broker.giveUp k (nanoid k) (some reason))
    | _ => .error .notSettled
  | .checkingRunner settings =>
    .ok (broker.startTask k call.offer.runnerId (nanoid k) settings)
  | .runnerMissing => .ok (broker.giveUp k (nanoid k) none)
  | .messagingSettings =>
    match callback with
    | .resolved => .ok (broker.setPhase k .finished)
    | .rejected => .ok (broker.giveUp k (nanoid k) none)
  | .refused => .error .notSuspended
  | .finished => .error .notSuspended

/-- What the broker does between two `await`s. -/
def step (config : TaskRunnersConfig) (nanoid : ℕ → String) (broker : TaskBroker) :
    BrokerEvent → Except BrokerStepError TaskBroker
  | .registerRunner runner => .ok (broker.registerRunner runner)
  | .deregisterRunner runnerId error => .ok (broker.deregisterRunner runnerId error)
  | .registerRequester requesterId =>
    .ok { broker with requesters := insert requesterId broker.requesters }
  | .deregisterRequester requesterId =>
    .ok { broker with requesters := broker.requesters.erase requesterId }
  | .runnerMessage runnerId message => .ok (broker.onRunnerMessage nanoid runnerId message)
  | .requesterMessage requesterId message =>
    .ok (broker.onRequesterMessage nanoid requesterId message)
  | .requesterReject taskId reason => .ok (broker.handleRequesterReject taskId reason)
  | .timerFires timer =>
    match broker.timers[timer]? with
    | some (some t) => .ok ((broker.clearTimeout (some timer)).onTimer config t)
    | _ => .error .noTimer
  | .acceptResumes k callback =>
    match broker.calls[k]? with
    | none => .error .notSuspended
    | some call =>
      match broker.requests[call.request]? with
      | none => .error .notSuspended
      | some data => broker.resumeAccept nanoid k call data callback
  | .methodResumes i callback =>
    match broker.suspended[i]? with
    | none => .error .notSuspended
    | some method =>
      .ok ({ broker with suspended := broker.suspended.eraseIdx i }.resume config method callback)
  | .startDraining => .ok { broker with isDraining := true }
  | .stopDraining => .ok { broker with isDraining := false }

end TaskBroker

end N8n
