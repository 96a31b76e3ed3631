import N8n.Concurrency.ConcurrencyQueue
import N8n.Interfaces

/-!
# Concurrency control

`ConcurrencyControlService` keeps a queue for the production executions and one for the
evaluation executions, each where its limit is positive. An execution is throttled in the
queue of its mode, if its mode has one and the service is enabled.

The limit of the evaluation queue may be known only when the license is. Then the first call
for an evaluation resolves it (`ensureEvalQueueResolved`), and enables the service if the limit
is positive, whether the service has been disabled by then or not.
-/

open Lib

namespace N8n

inductive ConcurrencyQueueType where
  | production | evaluation
  deriving DecidableEq, Repr

structure CapacityTarget where
  executionId : String
  mode : WorkflowExecuteMode
  deriving DecidableEq, Repr

inductive ConcurrencyError where
  | invalidConcurrencyLimit (value : ℤ)
  | unknownExecutionMode (mode : WorkflowExecuteMode)
  deriving DecidableEq, Repr

inductive ExecutionsMode where
  | regular | queue
  deriving DecidableEq, Repr

structure ExecutionsConfig where
  mode : ExecutionsMode
  productionLimit : ℤ
  evaluationLimit : ℤ
  deriving DecidableEq, Repr

/-- What the license says about evaluations. -/
structure License where
  concurrencyLimit : Option ℤ := none
  planName : String := "Community"
  deriving DecidableEq, Repr

/-! ## The limit of evaluations -/

def readLicenseQuota (license : License) : Option ℤ :=
  match license.concurrencyLimit with
  | some raw => if raw = 0 then none else some raw
  | none => none

/-- The defaults of the tiers, and that of an unknown plan. -/
def evaluationTierDefault (planName : String) : ℤ :=
  if planName = "Community" then 1
  else if planName = "Pro" then 1
  else if planName = "Business" then 3
  else if planName = "Enterprise" then 5
  else 1

/-- `inEnv` says whether the environment variable of the limit is set. -/
def resolveEvaluationConcurrencyLimit (executionsConfig : ExecutionsConfig) (inEnv : Bool)
    (license : License) : ℤ :=
  if inEnv then executionsConfig.evaluationLimit
  else
    match readLicenseQuota license with
    | some fromLicense => fromLicense
    | none => evaluationTierDefault license.planName

/-! ## The service -/

structure ConcurrencyControlService where
  isEnabled : Bool
  queues : OrderedMap ConcurrencyQueueType ConcurrencyQueue := ∅
  evalQueueResolved : Bool := false
  executionsConfig : ExecutionsConfig
  evaluationLimitInEnv : Bool
  license : License

namespace ConcurrencyControlService

def normaliseLimit (limit : ℤ) : Except ConcurrencyError ℤ :=
  if limit = 0 then .error (.invalidConcurrencyLimit 0)
  else .ok (if limit < -1 then -1 else limit)

/-- The queue of the type, where the limit is positive. -/
def withQueue (queues : OrderedMap ConcurrencyQueueType ConcurrencyQueue)
    (type : ConcurrencyQueueType) (limit : ℤ) :
    OrderedMap ConcurrencyQueueType ConcurrencyQueue :=
  if 0 < limit then queues.set type { capacity := limit } else queues

def construct (executionsConfig : ExecutionsConfig) (evaluationLimitInEnv : Bool)
    (license : License) : Except ConcurrencyError ConcurrencyControlService := do
  let normalisedProduction ← normaliseLimit executionsConfig.productionLimit
  let normalisedEvaluation ← normaliseLimit executionsConfig.evaluationLimit
  if executionsConfig.mode = .queue then
    return { isEnabled := false, executionsConfig, evaluationLimitInEnv, license }
  let queues :=
    withQueue (withQueue ∅ .production normalisedProduction) .evaluation normalisedEvaluation
  return {
    isEnabled := 0 < queues.size
    queues
    evalQueueResolved := 0 < normalisedEvaluation
    executionsConfig
    evaluationLimitInEnv
    license }

def ensureEvalQueueResolved (service : ConcurrencyControlService) :
    Except ConcurrencyError ConcurrencyControlService := do
  if service.evalQueueResolved then return service
  let service := { service with evalQueueResolved := true }
  if service.executionsConfig.mode = .queue then return service
  let normalised ← normaliseLimit (resolveEvaluationConcurrencyLimit service.executionsConfig
    service.evaluationLimitInEnv service.license)
  return {
    service with
    queues := withQueue service.queues .evaluation normalised
    isEnabled := service.isEnabled || 0 < normalised }

/-- The line `throttle`, `release` and `remove` begin with. -/
def ensureResolvedFor (service : ConcurrencyControlService) (mode : WorkflowExecuteMode) :
    Except ConcurrencyError ConcurrencyControlService :=
  if mode = .evaluation then service.ensureEvalQueueResolved else .ok service

def has (service : ConcurrencyControlService) (executionId : String) : Bool :=
  service.isEnabled && service.queues.values.any fun queue => queue.has executionId

/-- The type of the queue `getQueue` looks for. -/
def queueType : WorkflowExecuteMode → Except ConcurrencyError (Option ConcurrencyQueueType)
  | .error | .integrated | .cli | .internal | .manual | .retry => .ok none
  | .webhook | .trigger | .chat => .ok (some .production)
  | .evaluation => .ok (some .evaluation)
  | .agent => .error (.unknownExecutionMode .agent)

/-- The queue is told with its type. -/
def getQueue (service : ConcurrencyControlService) (mode : WorkflowExecuteMode) :
    Except ConcurrencyError (Option (ConcurrencyQueueType × ConcurrencyQueue)) := do
  return (← queueType mode).bind fun type => (service.queues.get? type).map fun queue => (type, queue)

/-- What `throttle`, `release` and `remove` do before they call the queue of the mode : what the
call tells is told with the type of the queue. -/
def callQueue {β : Type} (service : ConcurrencyControlService) (mode : WorkflowExecuteMode)
    (call : ConcurrencyQueue → ConcurrencyQueue × β) :
    Except ConcurrencyError (ConcurrencyControlService × Option (ConcurrencyQueueType × β)) := do
  let service ← service.ensureResolvedFor mode
  if !service.isEnabled then return (service, none)
  match ← service.getQueue mode with
  | none => return (service, none)
  | some (type, queue) =>
    let after := call queue
    return ({ service with queues := service.queues.set type after.1 }, some (type, after.2))

/-- Whether the execution is let through at once is told. -/
def throttle (service : ConcurrencyControlService) (target : CapacityTarget) :
    Except ConcurrencyError (ConcurrencyControlService × Bool) := do
  let (service, told) ← service.callQueue target.mode fun queue => queue.enqueue target.executionId
  return (service, told.elim true Prod.snd)

/-- The execution that is let through in return is told. -/
def release (service : ConcurrencyControlService) (mode : WorkflowExecuteMode) :
    Except ConcurrencyError (ConcurrencyControlService × Option (ConcurrencyQueueType × String)) := do
  let (service, told) ← service.callQueue mode ConcurrencyQueue.dequeue
  return (service, told.bind fun after => after.2.map fun executionId => (after.1, executionId))

def remove (service : ConcurrencyControlService) (target : CapacityTarget) :
    Except ConcurrencyError (ConcurrencyControlService × Option (ConcurrencyQueueType × String)) := do
  let (service, told) ← service.callQueue target.mode fun queue => queue.remove target.executionId
  return (service, told.bind fun after => after.2.map fun executionId => (after.1, executionId))

/-- A queue after `removeAll`, and the executions it lets through meanwhile. -/
def removeQueued (queue : ConcurrencyQueue) : ConcurrencyQueue × List String :=
  queue.getAll.elems.foldl (fun (queue, through) executionId =>
    let after := queue.remove executionId
    (after.1, through ++ after.2.toList)) (queue, [])

/-- The executions that are let through meanwhile are told, and those that are cancelled. -/
def removeAll (service : ConcurrencyControlService) (executionIdsToCancel : List String) :
    ConcurrencyControlService × List (ConcurrencyQueueType × String) × List String :=
  if !service.isEnabled then (service, [], [])
  else
    let removed := service.queues.entries.map fun (type, queue) => (type, removeQueued queue)
    ({ service with
        queues := removed.foldl (fun queues (type, after) => queues.set type after.1) service.queues },
      removed.flatMap fun (type, after) => after.2.map fun executionId => (type, executionId),
      executionIdsToCancel)

def disable (service : ConcurrencyControlService) : ConcurrencyControlService :=
  { service with isEnabled := false }

theorem removeAll_disable (service : ConcurrencyControlService) (executionIds : List String) :
    service.disable.removeAll executionIds = (service.disable, [], []) := rfl

/-! ## Queues where nobody waits -/

variable {service service' : ConcurrencyControlService} {mode : WorkflowExecuteMode} {β : Type}
  {call : ConcurrencyQueue → ConcurrencyQueue × β} {told : Option (ConcurrencyQueueType × β)}

def Idle (service : ConcurrencyControlService) : Prop :=
  ∀ type queue, service.queues.get? type = some queue → queue.queue = []

theorem idle_set {queues : OrderedMap ConcurrencyQueueType ConcurrencyQueue}
    (h : ∀ type queue, queues.get? type = some queue → queue.queue = [])
    {type : ConcurrencyQueueType} {queue : ConcurrencyQueue} (hqueue : queue.queue = []) :
    ∀ type' queue', (queues.set type queue).get? type' = some queue' → queue'.queue = [] := by
  intro type' queue' hget
  rw [OrderedMap.get?_set] at hget
  split at hget
  · rwa [← Option.some.inj hget]
  · exact h type' queue' hget

theorem Idle.ensureEvalQueueResolved (h : service.Idle)
    (hs : service.ensureEvalQueueResolved = .ok service') : service'.Idle := by
  unfold ConcurrencyControlService.ensureEvalQueueResolved at hs
  split at hs
  · exact Except.ok.inj hs ▸ h
  · simp only [bind, Except.bind, pure, Except.pure] at hs
    split at hs
    · exact Except.ok.inj hs ▸ h
    · split at hs
      · cases hs
      · obtain rfl := Except.ok.inj hs
        unfold Idle withQueue
        split
        · exact idle_set h rfl
        · exact h

/-- A call that reaches a queue changes that queue alone. -/
theorem callQueue_eq_ok (hs : service.callQueue mode call = .ok (service', told))
    (h : service.Idle) :
    (service'.Idle ∧ told = none) ∨
      ∃ (type : ConcurrencyQueueType) (queue : ConcurrencyQueue) (resolved : ConcurrencyControlService),
        resolved.Idle ∧ queue.queue = [] ∧ told = some (type, (call queue).2) ∧
        service' = { resolved with queues := resolved.queues.set type (call queue).1 } := by
  unfold callQueue at hs
  obtain ⟨resolved, hresolved, hs⟩ := bind_eq_ok.mp hs
  have hidle : resolved.Idle := by
    unfold ensureResolvedFor at hresolved
    split at hresolved
    · exact h.ensureEvalQueueResolved hresolved
    · exact Except.ok.inj hresolved ▸ h
  split at hs
  · obtain ⟨rfl, rfl⟩ := Prod.mk.inj (Except.ok.inj hs)
    exact .inl ⟨hidle, rfl⟩
  · obtain ⟨found, hfound, hs⟩ := bind_eq_ok.mp hs
    obtain ⟨type?, -, hfound⟩ := bind_eq_ok.mp hfound
    rcases found with _ | ⟨type, queue⟩
    · obtain ⟨rfl, rfl⟩ := Prod.mk.inj (Except.ok.inj hs)
      exact .inl ⟨hidle, rfl⟩
    · obtain ⟨rfl, rfl⟩ := Prod.mk.inj (Except.ok.inj hs)
      obtain ⟨type', -, hqueue⟩ := Option.bind_eq_some_iff.mp (Except.ok.inj hfound)
      obtain ⟨queue', hget, heq⟩ := Option.map_eq_some_iff.mp hqueue
      obtain ⟨rfl, rfl⟩ := Prod.mk.inj heq
      exact .inr ⟨type', queue', resolved, hidle, hidle _ _ hget, rfl, rfl⟩

/-- With nobody waiting, nobody is let through. -/
theorem Idle.release {through : Option (ConcurrencyQueueType × String)} (h : service.Idle)
    (hs : service.release mode = .ok (service', through)) : service'.Idle ∧ through = none := by
  obtain ⟨⟨service'', told⟩, hcall, hs⟩ := bind_eq_ok.mp hs
  obtain ⟨rfl, rfl⟩ := Prod.mk.inj (Except.ok.inj hs)
  rcases callQueue_eq_ok hcall h with ⟨hidle, rfl⟩ | ⟨type, queue, resolved, hidle, hnil, rfl, rfl⟩
  · exact ⟨hidle, rfl⟩
  · have hafter : queue.dequeue = ({ queue with capacity := queue.capacity + 1 }, none) := by
      simp [ConcurrencyQueue.dequeue, ConcurrencyQueue.resolveNext, hnil]
    rw [hafter]
    exact ⟨idle_set hidle hnil, rfl⟩

theorem Idle.remove {target : CapacityTarget} {through : Option (ConcurrencyQueueType × String)}
    (h : service.Idle) (hs : service.remove target = .ok (service', through)) :
    service'.Idle ∧ through = none := by
  obtain ⟨⟨service'', told⟩, hcall, hs⟩ := bind_eq_ok.mp hs
  obtain ⟨rfl, rfl⟩ := Prod.mk.inj (Except.ok.inj hs)
  rcases callQueue_eq_ok hcall h with ⟨hidle, rfl⟩ | ⟨type, queue, resolved, hidle, hnil, rfl, rfl⟩
  · exact ⟨hidle, rfl⟩
  · have hafter : queue.remove target.executionId = (queue, none) := by
      simp [ConcurrencyQueue.remove, hnil]
    rw [hafter]
    exact ⟨idle_set hidle hnil, rfl⟩

/-- A call of `throttle` makes the execution wait in a queue. -/
def wouldWait (service : ConcurrencyControlService) (target : CapacityTarget) : Bool :=
  match service.throttle target with
  | .ok (_, through) => !through
  | .error _ => false

/-- An execution waits exactly when it is not let through at once. -/
theorem Idle.throttle_iff {target : CapacityTarget} {through : Bool} (h : service.Idle)
    (hs : service.throttle target = .ok (service', through)) : service'.Idle ↔ through = true := by
  obtain ⟨⟨service'', told⟩, hcall, hs⟩ := bind_eq_ok.mp hs
  obtain ⟨rfl, rfl⟩ := Prod.mk.inj (Except.ok.inj hs)
  rcases callQueue_eq_ok hcall h with ⟨hidle, rfl⟩ | ⟨type, queue, resolved, hidle, hnil, rfl, rfl⟩
  · exact iff_of_true hidle rfl
  · simp only [ConcurrencyQueue.enqueue, Option.elim_some]
    split
    · refine iff_of_false (fun hidle' => ?_) (by simp)
      have := hidle' type _ (OrderedMap.get?_set_self _ _ _)
      simp at this
    · exact iff_of_true (idle_set hidle hnil) rfl

end ConcurrencyControlService
end N8n
