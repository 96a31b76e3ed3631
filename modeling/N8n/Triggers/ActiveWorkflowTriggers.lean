import N8n.Lib.OrderedMap
import N8n.Lib.OrderedSet
import N8n.Lib.Run

/-!
# Active workflow triggers

`addTriggers` starts the triggers of a workflow and records their responses in the workflow's
state object, `removeTriggers` and `remove` close them and drop the records. Each call holds on
to the state object while it waits for a trigger to start or to close, and the others go on
meanwhile.

A call is taken from one `await` to the next in one step. State objects, responses and calls
are numbered as they come. A registration's token is its number in the state object, so that an
iterator of the map is the token it comes to next. The crons of schedule and poll triggers may
be registered at any time.
-/

open Lib

namespace N8n

/-! ## Records -/

structure TriggerRegistration where
  token : ℕ
  response : Option ℕ := none
  deriving DecidableEq, Repr

structure WorkflowActiveTriggersState (N : Type) where
  registrationsByNodeId : OrderedMap N TriggerRegistration := .empty
  pendingRegistrations : ℕ := 0
  nextToken : ℕ := 0

namespace WorkflowActiveTriggersState

variable {N : Type} [DecidableEq N] (triggers : WorkflowActiveTriggersState N)

def beginRegistration : WorkflowActiveTriggersState N :=
  { triggers with pendingRegistrations := triggers.pendingRegistrations + 1 }

def finishRegistration : WorkflowActiveTriggersState N :=
  { triggers with pendingRegistrations := triggers.pendingRegistrations - 1 }

def hasPendingRegistrations : Bool := triggers.pendingRegistrations > 0

/-- The registration is told with the state. -/
def getOrCreateRegistration (nodeId : N) : WorkflowActiveTriggersState N × TriggerRegistration :=
  match triggers.registrationsByNodeId.get? nodeId with
  | some existing => (triggers, existing)
  | none =>
    let registration : TriggerRegistration := { token := triggers.nextToken }
    ({ triggers with
        registrationsByNodeId := triggers.registrationsByNodeId.set nodeId registration
        nextToken := triggers.nextToken + 1 },
      registration)

def addTriggerResponse (nodeId : N) (response : ℕ) : WorkflowActiveTriggersState N :=
  let (triggers, registration) := triggers.getOrCreateRegistration nodeId
  { triggers with registrationsByNodeId :=
      triggers.registrationsByNodeId.set nodeId { registration with response := some response } }

def addScheduledTrigger (nodeId : N) : WorkflowActiveTriggersState N :=
  (triggers.getOrCreateRegistration nodeId).1

def addPoller (nodeId : N) : WorkflowActiveTriggersState N :=
  (triggers.getOrCreateRegistration nodeId).1

def get (nodeId : N) : Option ℕ :=
  (triggers.registrationsByNodeId.get? nodeId).bind TriggerRegistration.response

def delete (nodeId : N) : WorkflowActiveTriggersState N :=
  { triggers with registrationsByNodeId := triggers.registrationsByNodeId.delete nodeId }

def isEmpty : Bool := triggers.registrationsByNodeId.size = 0

omit [DecidableEq N] in
/-- What the iterator of `triggerResponses` yields next, with the token it goes on from. -/
def nextResponse (cursor : ℕ) : Option (ℕ × ℕ) :=
  triggers.registrationsByNodeId.values.findSome? fun registration =>
    if registration.token < cursor then none
    else registration.response.map fun response => (response, registration.token + 1)

end WorkflowActiveTriggersState

/-! ## Calls -/

/-- A trigger that was started. -/
structure TriggerResponse (W : Type) where
  workflowId : W
  closeFunction : Bool
  closeCalled : Bool := false
  deriving DecidableEq, Repr

/-- It runs, and it is there to be closed. -/
def TriggerResponse.isOpen {W : Type} (response : TriggerResponse W) : Bool :=
  response.closeFunction && !response.closeCalled

inductive TriggerCallProgress (N : Type) where
  /-- The trigger function of a node runs. -/
  | starts (node : N) (triggerNodes pollNodes : List N) (attempted registered : OrderedSet N)
  /-- A poll trigger is executed for the first time. -/
  | polls (node : N) (pollNodes : List N) (attempted registered : OrderedSet N)
  /-- The trigger of a node is closed, in a rollback. -/
  | rollsBack (node : N) (nodes : List N)
  /-- All is started or rolled back. -/
  | finishes
  /-- The trigger of a node is closed, and it is removed then. -/
  | removesNode (node : N) (nodes : List N)
  /-- A response is closed, and the iterator goes on from the token. -/
  | removes (cursor : ℕ)
  | returned

def TriggerCallProgress.isReturned {N : Type} : TriggerCallProgress N → Bool
  | .returned => true
  | _ => false

/-- `triggers` is the state object the call got at its beginning. -/
structure TriggerCall (W N : Type) where
  workflowId : W
  triggers : ℕ
  progress : TriggerCallProgress N

structure ActiveWorkflowTriggers (W N : Type) where
  activeTriggersByWorkflowId : OrderedMap W ℕ := .empty
  states : List (WorkflowActiveTriggersState N) := []
  responses : List (TriggerResponse W) := []
  /-- The targets of the scheduled task manager, in the groups of their workflows. -/
  crons : List (W × N) := []
  calls : List (TriggerCall W N) := []

/-- How a trigger function turns out. -/
inductive TriggerOutcome where
  | response (closeFunction : Bool)
  | undefined
  | throws
  deriving DecidableEq, Repr

inductive CloseFailure where
  | triggerCloseError
  | other
  deriving DecidableEq, Repr

inductive ActiveTriggersEvent (W N : Type) where
  /-- The trigger and poll nodes of the workflow, of which some are asked for. -/
  | addTriggers (workflowId : W) (triggerNodes pollNodes nodeIds : List N)
  | removeTriggers (workflowId : W) (nodeIds : OrderedSet N)
  | remove (workflowId : W)
  | registerCron (workflowId : W) (nodeId : N)
  /-- The call goes on after its trigger function. -/
  | triggerSettled (call : ℕ) (outcome : TriggerOutcome)
  /-- The call goes on after the first execution of its poll trigger. -/
  | pollSettled (call : ℕ) (throws : Bool)
  /-- The call goes on after the close function. -/
  | closeSettled (call : ℕ) (failure : Option CloseFailure)
  /-- The `finally` of `addTriggers`. -/
  | finish (call : ℕ)

namespace ActiveWorkflowTriggers

variable {W N : Type} [DecidableEq W] [DecidableEq N] (active : ActiveWorkflowTriggers W N)

omit [DecidableEq W] [DecidableEq N] in
def stateAt (triggers : ℕ) : WorkflowActiveTriggersState N := active.states.getD triggers {}

omit [DecidableEq W] [DecidableEq N] in
def updateState (triggers : ℕ)
    (f : WorkflowActiveTriggersState N → WorkflowActiveTriggersState N) :
    ActiveWorkflowTriggers W N :=
  { active with states := active.states.modify triggers f }

omit [DecidableEq W] [DecidableEq N] in
/-- The call of `closeTrigger`, up to the close function. -/
def closeTrigger (response : ℕ) : ActiveWorkflowTriggers W N :=
  { active with responses := active.responses.modify response fun r =>
      if r.closeFunction then { r with closeCalled := true } else r }

omit [DecidableEq W] [DecidableEq N] in
def setProgress (call : ℕ) (progress : TriggerCallProgress N) : ActiveWorkflowTriggers W N :=
  { active with calls := active.calls.modify call fun c => { c with progress } }

/-! ## The scheduled tasks -/

def deregisterTarget (workflowId : W) (nodeId : N) : ActiveWorkflowTriggers W N :=
  { active with crons := active.crons.filter (· ≠ (workflowId, nodeId)) }

omit [DecidableEq N] in
def deregisterGroup (workflowId : W) : ActiveWorkflowTriggers W N :=
  { active with crons := active.crons.filter (·.1 ≠ workflowId) }

def hasTarget (workflowId : W) (nodeId : N) : Bool := (workflowId, nodeId) ∈ active.crons

omit [DecidableEq N] in
def hasGroup (workflowId : W) : Bool := active.crons.any (·.1 = workflowId)

/-! ## The map -/

omit [DecidableEq N] in
/-- The object is told with the state. -/
def getOrCreateWorkflowTriggersState (workflowId : W) : ActiveWorkflowTriggers W N × ℕ :=
  match active.activeTriggersByWorkflowId.get? workflowId with
  | some existing => (active, existing)
  | none =>
    ({ active with
        states := active.states ++ [{}]
        activeTriggersByWorkflowId :=
          active.activeTriggersByWorkflowId.set workflowId active.states.length },
      active.states.length)

omit [DecidableEq N] in
def deleteWorkflow (workflowId : W) : ActiveWorkflowTriggers W N :=
  { active with activeTriggersByWorkflowId := active.activeTriggersByWorkflowId.delete workflowId }

omit [DecidableEq N] in
def deleteWorkflowIfEmpty (workflowId : W) (triggers : ℕ) : ActiveWorkflowTriggers W N :=
  if active.activeTriggersByWorkflowId.get? workflowId ≠ some triggers then active
  else if !(active.stateAt triggers).isEmpty ||
      (active.stateAt triggers).hasPendingRegistrations then active
  else if active.hasGroup workflowId then active
  else active.deleteWorkflow workflowId

/-! ## The loops, up to where they wait -/

omit [DecidableEq W] in
/-- The next trigger node, and after them the next poll node. -/
def startTriggers (triggers : ℕ) (triggerNodes pollNodes : List N)
    (attempted registered : OrderedSet N) : ActiveWorkflowTriggers W N × TriggerCallProgress N :=
  match triggerNodes, pollNodes with
  | node :: rest, pollNodes =>
    (active, .starts node rest pollNodes (attempted.add node) registered)
  | [], node :: rest =>
    (active.updateState triggers (·.addPoller node),
      .polls node rest (attempted.add node) (registered.add node))
  | [], [] => (active, .finishes)

omit [DecidableEq W] in
/-- The loop over the registered nodes. -/
def rollbackLoop (triggers : ℕ) : List N → ActiveWorkflowTriggers W N →
    ActiveWorkflowTriggers W N × TriggerCallProgress N
  | [], active => (active, .finishes)
  | node :: nodes, active =>
    match (active.stateAt triggers).get node with
    | none => rollbackLoop triggers nodes (active.updateState triggers (·.delete node))
    | some response => (active.closeTrigger response, .rollsBack node nodes)

def rollbackPartialActivation (workflowId : W) (triggers : ℕ)
    (attempted registered : OrderedSet N) :
    ActiveWorkflowTriggers W N × TriggerCallProgress N :=
  rollbackLoop triggers registered.elems
    (attempted.elems.foldl (fun active node => active.deregisterTarget workflowId node) active)

def removeTriggersLoop (workflowId : W) (triggers : ℕ) : List N → ActiveWorkflowTriggers W N →
    ActiveWorkflowTriggers W N × TriggerCallProgress N
  | [], active => (active.deleteWorkflowIfEmpty workflowId triggers, .returned)
  | node :: nodes, active =>
    let active := active.deregisterTarget workflowId node
    match (active.stateAt triggers).get node with
    | none =>
      removeTriggersLoop workflowId triggers nodes (active.updateState triggers (·.delete node))
    | some response => (active.closeTrigger response, .removesNode node nodes)

omit [DecidableEq N] in
/-- The loop over the responses. -/
def removeLoop (workflowId : W) (triggers cursor : ℕ) :
    ActiveWorkflowTriggers W N × TriggerCallProgress N :=
  match (active.stateAt triggers).nextResponse cursor with
  | some (response, cursor) => (active.closeTrigger response, .removes cursor)
  | none => (active.deleteWorkflow workflowId, .returned)

/-! ## Steps -/

omit [DecidableEq W] [DecidableEq N] in
/-- A new call has got where it waits. -/
def pushCall (workflowId : W) (triggers : ℕ)
    (result : ActiveWorkflowTriggers W N × TriggerCallProgress N) : ActiveWorkflowTriggers W N :=
  { result.1 with calls := result.1.calls ++ [{ workflowId, triggers, progress := result.2 }] }

omit [DecidableEq W] [DecidableEq N] in
def continueCall (call : ℕ) (result : ActiveWorkflowTriggers W N × TriggerCallProgress N) :
    ActiveWorkflowTriggers W N :=
  result.1.setProgress call result.2

/-- A trigger function has settled. -/
def triggerSettled (c : TriggerCall W N) (node : N) (triggerNodes pollNodes : List N)
    (attempted registered : OrderedSet N) (outcome : TriggerOutcome) :
    ActiveWorkflowTriggers W N × TriggerCallProgress N :=
  match outcome with
  | .response closeFunction =>
    let response := active.responses.length
    let active : ActiveWorkflowTriggers W N := { active with
      responses := active.responses ++ [{ workflowId := c.workflowId, closeFunction }] }
    (active.updateState c.triggers (·.addTriggerResponse node response)).startTriggers
      c.triggers triggerNodes pollNodes attempted (registered.add node)
  | .undefined =>
    if active.hasTarget c.workflowId node then
      (active.updateState c.triggers (·.addScheduledTrigger node)).startTriggers
        c.triggers triggerNodes pollNodes attempted (registered.add node)
    else active.startTriggers c.triggers triggerNodes pollNodes attempted registered
  | .throws => active.rollbackPartialActivation c.workflowId c.triggers attempted registered

/-- A close function has settled. -/
def closeSettled (c : TriggerCall W N) (failure : Option CloseFailure) :
    Except Unit (ActiveWorkflowTriggers W N × TriggerCallProgress N) :=
  match c.progress with
  | .rollsBack node nodes =>
    .ok (rollbackLoop c.triggers nodes (active.updateState c.triggers (·.delete node)))
  | .removesNode node nodes =>
    if failure = some .other then .ok (active, .returned)
    else .ok (removeTriggersLoop c.workflowId c.triggers nodes
      (active.updateState c.triggers (·.delete node)))
  | .removes cursor =>
    if failure = some .other then .ok (active, .returned)
    else .ok (active.removeLoop c.workflowId c.triggers cursor)
  | _ => .error ()

/-- An event that cannot happen to its call is an error. -/
def step : ActiveTriggersEvent W N → Except Unit (ActiveWorkflowTriggers W N)
  | .addTriggers workflowId triggerNodes pollNodes nodeIds =>
    let triggerNodes := triggerNodes.filter (· ∈ nodeIds)
    let pollNodes := pollNodes.filter (· ∈ nodeIds)
    if triggerNodes.length = 0 && pollNodes.length = 0 then .ok active
    else
      let (active, triggers) := active.getOrCreateWorkflowTriggersState workflowId
      .ok (pushCall workflowId triggers
        ((active.updateState triggers (·.beginRegistration)).startTriggers triggers triggerNodes
          pollNodes ∅ ∅))
  | .removeTriggers workflowId nodeIds =>
    match active.activeTriggersByWorkflowId.get? workflowId with
    | none =>
      .ok (nodeIds.elems.foldl (fun active node => active.deregisterTarget workflowId node) active)
    | some triggers =>
      .ok (pushCall workflowId triggers
        (removeTriggersLoop workflowId triggers nodeIds.elems active))
  | .remove workflowId =>
    let active := active.deregisterGroup workflowId
    match active.activeTriggersByWorkflowId.get? workflowId with
    | none => .ok active
    | some triggers => .ok (pushCall workflowId triggers (active.removeLoop workflowId triggers 0))
  | .registerCron workflowId nodeId =>
    .ok { active with crons := active.crons ++ [(workflowId, nodeId)] }
  | .triggerSettled call outcome =>
    match active.calls[call]? with
    | some c =>
      match c.progress with
      | .starts node triggerNodes pollNodes attempted registered =>
        .ok (continueCall call
          (active.triggerSettled c node triggerNodes pollNodes attempted registered outcome))
      | _ => .error ()
    | none => .error ()
  | .pollSettled call throws =>
    match active.calls[call]? with
    | some c =>
      match c.progress with
      | .polls _ pollNodes attempted registered =>
        if throws then
          .ok (continueCall call
            (active.rollbackPartialActivation c.workflowId c.triggers attempted registered))
        else
          .ok (continueCall call
            (active.startTriggers c.triggers [] pollNodes attempted registered))
      | _ => .error ()
    | none => .error ()
  | .closeSettled call failure =>
    match active.calls[call]? with
    | some c => do
      let result ← active.closeSettled c failure
      return continueCall call result
    | none => .error ()
  | .finish call =>
    match active.calls[call]? with
    | some c =>
      match c.progress with
      | .finishes =>
        .ok (continueCall call
          ((active.updateState c.triggers (·.finishRegistration)).deleteWorkflowIfEmpty
            c.workflowId c.triggers, .returned))
      | _ => .error ()
    | none => .error ()

/-! ## What is recorded -/

omit [DecidableEq W] [DecidableEq N] in
/-- The response has a close function that was not called. -/
def isOpen (response : ℕ) : Bool := (active.responses[response]?).any TriggerResponse.isOpen

omit [DecidableEq W] in
/-- The state object has an open response for the node. -/
def holdsOpen (triggers : ℕ) (nodeId : N) : Bool :=
  ((active.stateAt triggers).get nodeId).any active.isOpen

omit [DecidableEq W] in
/-- The state object has an open response. -/
def holdsAnyOpen (triggers : ℕ) : Bool :=
  (active.stateAt triggers).registrationsByNodeId.keys.any (active.holdsOpen triggers)

/-- The workflow's state object has the response. -/
def Recorded (response : ℕ) : Prop :=
  ∃ r, active.responses[response]? = some r ∧
    ∃ triggers, active.activeTriggersByWorkflowId.get? r.workflowId = some triggers ∧
      ∃ nodeId, (active.stateAt triggers).get nodeId = some response

/-- When no call is in progress, every open response is recorded. -/
def Tracked : Prop :=
  (∀ c ∈ active.calls, c.progress.isReturned = true) →
    ∀ response, active.isOpen response = true → active.Recorded response

/-- The registration, or the state object, that is deleted after a close has no open response. -/
def losesNoneClosing (c : TriggerCall W N) (failure : Option CloseFailure) : Bool :=
  match c.progress with
  | .rollsBack node _ => !active.holdsOpen c.triggers node
  | .removesNode node _ => failure = some .other || !active.holdsOpen c.triggers node
  | .removes cursor =>
    failure = some .other || ((active.stateAt c.triggers).nextResponse cursor).isSome ||
      !(active.activeTriggersByWorkflowId.get? c.workflowId).any active.holdsAnyOpen
  | _ => true

/-- A response that comes goes to the state object the workflow has, and over no open one, and
no close is followed by the deletion of an open one. -/
def losesNone : ActiveTriggersEvent W N → Bool
  | .triggerSettled call (.response closeFunction) =>
    match active.calls[call]? with
    | some c =>
      match c.progress with
      | .starts node _ _ _ _ =>
        (!closeFunction ||
          active.activeTriggersByWorkflowId.get? c.workflowId = some c.triggers) &&
        !active.holdsOpen c.triggers node
      | _ => true
    | none => true
  | .closeSettled call failure =>
    match active.calls[call]? with
    | some c => active.losesNoneClosing c failure
    | none => true
  | _ => true

end ActiveWorkflowTriggers

end N8n
