import Mathlib.Data.List.SplitOn
import N8n.Triggers.ActiveWorkflowTriggers

/-!
# Pollers

When a poll trigger is activated it gets the token of its node's registration, and a poller is
made that is executed once and then by crons. A scheduled poll looks before it polls, and again
before it emits, whether the node's registration still has the poller's token.

The activation itself is a call of `addTriggers` as in `ActiveWorkflowTriggers`. After the first
poll its crons are registered, in one step with the rest of the call up to where it waits next.
A cron is the target it belongs to, and what it executes; the targets that a call deregisters
lose all their crons. Tokens of different state objects are different : a token is compared
together with the number of its object.
-/

open Lib

namespace N8n

/-- The poller of one activation of a node. Activations are numbered as they come. -/
structure Poller (W N : Type) where
  activation : ℕ
  workflowId : W
  nodeId : N
  /-- The state object the token is from. -/
  triggers : ℕ
  token : ℕ
  /-- The call of `addTriggers` that activated it. -/
  call : ℕ
  deriving DecidableEq, Repr

structure PollCron (W N : Type) where
  poller : Poller W N
  timezone : String
  expression : String
  deriving DecidableEq, Repr

/-- An emission of a scheduled poll, and whether its activation was the latest of the node. -/
structure PollEmission (W N : Type) where
  poller : Poller W N
  isLatest : Bool
  deriving DecidableEq, Repr

structure PollingTriggers (W N : Type) where
  active : ActiveWorkflowTriggers W N := {}
  isLeader : Bool := true
  pollers : List (Poller W N) := []
  pollCrons : List (PollCron W N) := []
  /-- The scheduled polls, `none` for one that has ended. -/
  polls : List (Option (Poller W N)) := []
  emissions : List (PollEmission W N) := []

inductive PollOutcome where
  | null
  | response
  | throws
  deriving DecidableEq, Repr

inductive PollingEvent (W N : Type) where
  | triggers (event : ActiveTriggersEvent W N)
  /-- The first poll of the call has settled : the time zone of the workflow and the cron
  expressions of the node, unless it throws. -/
  | firstPollSettled (call : ℕ) (crons : Option (String × List String))
  | leadership (isLeader : Bool)
  /-- A cron fires. -/
  | tick (cron : ℕ)
  /-- A scheduled poll goes on after `poll`. -/
  | pollSettled (poll : ℕ) (outcome : PollOutcome)

/-- Seconds as the first of six fields, with a wildcard. -/
def isTooFrequent (expression : String) : Bool :=
  let fields := expression.toList.splitOn ' '
  fields.length = 6 && (fields.headD []).contains '*'

variable {W N : Type} [DecidableEq W] [DecidableEq N]

/-- The workflow's registration of the node has the poller's token. -/
def ActiveWorkflowTriggers.isCurrent (active : ActiveWorkflowTriggers W N) (poller : Poller W N) :
    Bool :=
  match active.activeTriggersByWorkflowId.get? poller.workflowId with
  | none => false
  | some triggers => triggers = poller.triggers &&
    ((active.stateAt triggers).registrationsByNodeId.get? poller.nodeId).any
      (·.token = poller.token)

namespace PollingTriggers

variable (s : PollingTriggers W N)

/-- No poller of the node was made after this one. -/
def isLatest (poller : Poller W N) : Bool :=
  s.pollers.all fun p => !(p.workflowId = poller.workflowId && p.nodeId = poller.nodeId) ||
    p.activation ≤ poller.activation

omit [DecidableEq W] [DecidableEq N] in
/-- The poller the call made last. -/
def pollerOf (call : ℕ) : Option (Poller W N) := (s.pollers.filter (·.call = call)).getLast?

/-! ## Crons -/

/-- The cron is not registered on a follower, nor when it is there. -/
def register (poller : Poller W N) (timezone expression : String) : PollingTriggers W N :=
  if !s.isLeader then s
  else if s.pollCrons.any fun cron => cron.poller.workflowId = poller.workflowId &&
      cron.poller.nodeId = poller.nodeId && cron.timezone = timezone &&
      cron.expression = expression then s
  else { s with
    active := { s.active with crons := s.active.crons ++ [(poller.workflowId, poller.nodeId)] }
    pollCrons := s.pollCrons ++ [{ poller, timezone, expression }] }

/-- The loop over the expressions, and whether it throws. -/
def registerCrons (poller : Poller W N) (timezone : String) :
    List String → PollingTriggers W N → PollingTriggers W N × Bool
  | [], s => (s, false)
  | expression :: rest, s =>
    if isTooFrequent expression then (s, true)
    else registerCrons poller timezone rest (s.register poller timezone expression)

/-- A call has changed the triggers. The crons of the targets it deregistered are stopped, and
a poller is made if it waits for the first poll of a node now. -/
def follow (active : ActiveWorkflowTriggers W N) (call : Option ℕ) : PollingTriggers W N :=
  let s := { s with
    active
    pollCrons := s.pollCrons.filter fun cron =>
      active.hasTarget cron.poller.workflowId cron.poller.nodeId }
  match call, call.bind (active.calls[·]?) with
  | some call, some { workflowId, triggers, progress := .polls nodeId _ _ _ } =>
    { s with pollers := s.pollers ++ [{
        activation := s.pollers.length
        workflowId
        nodeId
        triggers
        token := ((active.stateAt triggers).registrationsByNodeId.get? nodeId).elim 0 (·.token)
        call }] }
  | _, _ => s

omit [DecidableEq W] [DecidableEq N] in
/-- The call of `addTriggers` that the event starts or continues. -/
def activatingCall (active : ActiveWorkflowTriggers W N) : ActiveTriggersEvent W N → Option ℕ
  | .addTriggers .. => some active.calls.length
  | .triggerSettled call _ => some call
  | _ => none

/-! ## Steps -/

def step : PollingEvent W N → Except Unit (PollingTriggers W N)
  | .triggers (.pollSettled _ _) => .error ()
  | .triggers event => do
    let active ← s.active.step event
    return s.follow active (activatingCall s.active event)
  | .firstPollSettled call none => do
    let active ← s.active.step (.pollSettled call true)
    return s.follow active (some call)
  | .firstPollSettled call (some (timezone, expressions)) =>
    match s.pollerOf call with
    | none => .error ()
    | some poller => do
      let (s, throws) := registerCrons poller timezone expressions s
      let active ← s.active.step (.pollSettled call throws)
      return s.follow active (some call)
  | .leadership isLeader => .ok { s with isLeader }
  | .tick cron =>
    match s.pollCrons[cron]? with
    | none => .error ()
    | some cron =>
      if !s.isLeader || !s.active.isCurrent cron.poller then .ok s
      else .ok { s with polls := s.polls ++ [some cron.poller] }
  | .pollSettled poll outcome =>
    match s.polls[poll]? with
    | some (some poller) =>
      let s := { s with polls := s.polls.set poll none }
      if !s.active.isCurrent poller || outcome = .null then .ok s
      else .ok { s with emissions := s.emissions ++ [{ poller, isLatest := s.isLatest poller }] }
    | _ => .error ()

end PollingTriggers

/-! ## Cover -/

/-- The trigger function of the node runs. -/
def TriggerCallProgress.startsNode (nodeId : N) : TriggerCallProgress N → Bool
  | .starts node _ _ _ _ => node = nodeId
  | _ => false

namespace ActiveWorkflowTriggers

variable (active : ActiveWorkflowTriggers W N)

/-- The node is registered in the state object the workflow has. -/
def registers (workflowId : W) (nodeId : N) : Bool :=
  match active.activeTriggersByWorkflowId.get? workflowId with
  | none => false
  | some triggers => (active.stateAt triggers).registrationsByNodeId.has nodeId

/-- A call other than `call` runs the trigger function of the node. -/
def starts (workflowId : W) (nodeId : N) (call : Option ℕ) : Bool :=
  active.calls.zipIdx.any fun (c, i) =>
    some i ≠ call && c.workflowId = workflowId && c.progress.startsNode nodeId

/-- Nothing speaks against a cron of the node : it is registered, or its trigger function runs
and decides about it. -/
def covers (workflowId : W) (nodeId : N) : Bool :=
  active.registers workflowId nodeId || active.starts workflowId nodeId none

/-- A registration of the state object can be deleted without leaving a cron behind. -/
def canDelete (workflowId : W) (triggers : ℕ) (nodeId : N) : Bool :=
  active.activeTriggersByWorkflowId.get? workflowId ≠ some triggers ||
    !active.hasTarget workflowId nodeId || active.starts workflowId nodeId none

/-- What is deleted after a close leaves no cron behind. -/
def leavesNoCron (c : TriggerCall W N) (failure : Option CloseFailure) : Bool :=
  match c.progress with
  | .rollsBack node nodes =>
    (node :: nodes.takeWhile fun m => m = node || ((active.stateAt c.triggers).get m).isNone).all
      (active.canDelete c.workflowId c.triggers)
  | .removesNode node _ => failure = some .other || active.canDelete c.workflowId c.triggers node
  | .removes cursor =>
    failure = some .other || ((active.stateAt c.triggers).nextResponse cursor).isSome ||
      (active.activeTriggersByWorkflowId.get? c.workflowId).isNone ||
      active.crons.all fun target => target.1 ≠ c.workflowId ||
        active.starts target.1 target.2 none
  | _ => true

end ActiveWorkflowTriggers

namespace PollingTriggers

variable (s : PollingTriggers W N)

/-- No poller of the node is current. -/
def noneCurrent (workflowId : W) (nodeId : N) : Bool :=
  s.pollers.all fun p => !(p.workflowId = workflowId && p.nodeId = nodeId) ||
    !s.active.isCurrent p

/-- The poll node that is next, if the trigger nodes have been started, has no current poller. -/
def nextIsNew (workflowId : W) (triggerNodes pollNodes : List N) : Bool :=
  match triggerNodes, pollNodes with
  | [], node :: _ => s.noneCurrent workflowId node
  | _, _ => true

/-- A poller is only made for a node that has no current one, a cron is only registered for a
node that is registered or being started, a trigger that has registered crons is recorded where
the workflow's state is, and what is deleted after a close leaves no cron behind. -/
def supersedes : PollingEvent W N → Bool
  | .triggers (.addTriggers workflowId triggerNodes pollNodes nodeIds) =>
    s.nextIsNew workflowId (triggerNodes.filter (· ∈ nodeIds)) (pollNodes.filter (· ∈ nodeIds))
  | .triggers (.registerCron workflowId nodeId) => s.active.covers workflowId nodeId
  | .triggers (.triggerSettled call outcome) =>
    match s.active.calls[call]?, outcome with
    | some { workflowId, triggers, progress := .starts node triggerNodes pollNodes _ _ }, .throws =>
      true
    | some { workflowId, triggers, progress := .starts node triggerNodes pollNodes _ _ }, _ =>
      s.nextIsNew workflowId triggerNodes pollNodes &&
        (!s.active.hasTarget workflowId node ||
          s.active.activeTriggersByWorkflowId.get? workflowId = some triggers ||
          s.active.registers workflowId node || s.active.starts workflowId node (some call))
    | _, _ => true
  | .triggers (.closeSettled call failure) =>
    match s.active.calls[call]? with
    | some c => s.active.leavesNoCron c failure
    | none => true
  | .firstPollSettled call (some (_, expressions)) =>
    match s.active.calls[call]? with
    | some { workflowId, triggers, progress := .polls node pollNodes _ _ } =>
      expressions.any isTooFrequent ||
        s.nextIsNew workflowId [] pollNodes &&
          (!s.isLeader || expressions.isEmpty || s.active.covers workflowId node)
    | _ => true
  | _ => true

/-- When no call is in progress, every cron is of a registered node. -/
def CronsRegistered : Prop :=
  (∀ c ∈ s.active.calls, c.progress.isReturned = true) →
    ∀ target ∈ s.active.crons, s.active.registers target.1 target.2 = true

/-- Every emission was of the node's latest activation. -/
def EmitsLatest : Prop := ∀ emission ∈ s.emissions, emission.isLatest = true

end PollingTriggers

end N8n
