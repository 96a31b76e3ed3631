import Mathlib.Data.List.Nodup
import N8n.Lib.Run

/-!
# The workflow publication outbox

`enqueue` adds a pending row for a workflow, or changes the version of the one there is. A
consumer claims the oldest row that is pending, of a workflow that has none in progress, or
that has been in progress for longer than the lease, and later resolves it or returns it.

`OutboxUse` is the table with the claims the consumers have made. A consumer may be slow : the
lease of its claim expires, another consumer claims the row again, and the first one still
resolves or returns the row by its id.
-/

open Lib

namespace N8n

/-! ## The table -/

inductive OutboxStatus where
  | pending
  | inProgress
  | completed
  | partialSuccess
  | failed
  deriving DecidableEq, Repr

def OutboxStatus.text : OutboxStatus → String
  | .pending => "pending"
  | .inProgress => "in_progress"
  | .completed => "completed"
  | .partialSuccess => "partial_success"
  | .failed => "failed"

/-- A row of `workflow_publication_outbox`. -/
structure OutboxRow (W V : Type) where
  id : ℕ
  workflowId : W
  publishedVersionId : V
  status : OutboxStatus
  errorMessage : Option String := none
  updatedAt : ℕ
  deriving DecidableEq, Repr

namespace OutboxRow

variable {W V : Type} (row : OutboxRow W V)

/-- What the unique index covers. -/
def isOpen : Bool := row.status = .pending || row.status = .inProgress

end OutboxRow

/-- Rows in the order of their ids, the id the next row gets, and the clock of the database. -/
structure Outbox (W V : Type) where
  rows : List (OutboxRow W V) := []
  nextId : ℕ := 1
  now : ℕ := 0
  deriving DecidableEq, Repr

namespace Outbox

variable {W V : Type} [DecidableEq W] (outbox : Outbox W V)

/-- `UPDATE … WHERE`. -/
def update (p : OutboxRow W V → Bool) (f : OutboxRow W V → OutboxRow W V) : Outbox W V :=
  { outbox with rows := outbox.rows.map fun row => if p row then f row else row }

def pendingFor (workflowId : W) (row : OutboxRow W V) : Bool :=
  row.workflowId = workflowId && row.status = .pending

/-- The `INSERT … ON CONFLICT DO UPDATE`. -/
def enqueue (workflowId : W) (publishedVersionId : V) : Outbox W V :=
  if outbox.rows.any (pendingFor workflowId) then
    outbox.update (pendingFor workflowId) fun row =>
      { row with publishedVersionId, updatedAt := outbox.now }
  else
    { outbox with
      rows := outbox.rows ++ [{ id := outbox.nextId, workflowId, publishedVersionId,
                                status := .pending, updatedAt := outbox.now }]
      nextId := outbox.nextId + 1 }

/-- The row is pending and its workflow not being processed, or its lease has expired. -/
def isClaimable (lease : ℕ) (row : OutboxRow W V) : Bool :=
  (row.status = .pending && !outbox.rows.any fun ip =>
    ip.workflowId = row.workflowId && ip.status = .inProgress) ||
  (row.status = .inProgress && row.updatedAt + lease < outbox.now)

/-- The claimed record is told with the table. -/
def claimNextPendingRecord (lease : ℕ) : Outbox W V × Option (OutboxRow W V) :=
  match outbox.rows.find? (outbox.isClaimable lease) with
  | none => (outbox, none)
  | some record =>
    let record := { record with status := .inProgress, updatedAt := outbox.now }
    (outbox.update (·.id = record.id) fun _ => record, some record)

/-- The condition `{ id, status: InProgress }`. -/
def inProgressAt (id : ℕ) (row : OutboxRow W V) : Bool := row.id = id && row.status = .inProgress

/-- What a row becomes when its status is set, along with the error message. -/
def withStatus (status : OutboxStatus) (errorMessage : Option String) (row : OutboxRow W V) :
    OutboxRow W V :=
  { row with status, errorMessage, updatedAt := outbox.now }

/-- The update and the check of the number of rows it affected. -/
def mark (id : ℕ) (target : OutboxStatus) (errorMessage : Option String) :
    Outbox W V × Except String Unit :=
  let affected := outbox.rows.countP (inProgressAt id)
  (outbox.update (inProgressAt id) (outbox.withStatus target errorMessage),
    if affected = 1 then .ok ()
    else .error s!"Expected to transition outbox record {id} to '{target.text}', but {affected} rows were affected. The record may not be in progress.")

def markCompleted (id : ℕ) : Outbox W V × Except String Unit := outbox.mark id .completed none

def markFailed (id : ℕ) (errorMessage : String) : Outbox W V × Except String Unit :=
  outbox.mark id .failed (some errorMessage)

def markPartialSuccess (id : ℕ) (errorMessage : String) : Outbox W V × Except String Unit :=
  outbox.mark id .partialSuccess (some errorMessage)

/-- The unique index has a pending row for the workflow of the row in progress. -/
def collides (id : ℕ) : Bool :=
  outbox.rows.any fun row => inProgressAt id row && outbox.rows.any (pendingFor row.workflowId)

/-- The update of `returnToPending`, or `none` when the unique index does not allow it. -/
def returnToPending (id : ℕ) : Option (Outbox W V) :=
  if outbox.collides id then none
  else some (outbox.update (inProgressAt id) (outbox.withStatus .pending none))

/-- What `returnToPending` does after that. -/
def deleteInProgress (id : ℕ) : Outbox W V :=
  { outbox with rows := outbox.rows.filter fun row => !inProgressAt id row }

end Outbox

/-! ## Consumers -/

inductive ClaimProgress where
  | held
  /-- The row could not be returned and is about to be deleted. -/
  | collided
  /-- The consumer has resolved or returned the row, or has tried to. -/
  | given
  deriving DecidableEq, Repr

structure OutboxClaim (C W V : Type) where
  consumer : C
  record : OutboxRow W V
  claimedAt : ℕ
  progress : ClaimProgress := .held
  deriving DecidableEq, Repr

/-- The table, the claims in the order they were made, what was enqueued and which rows were
resolved, in order. -/
structure OutboxUse (C W V : Type) where
  outbox : Outbox W V := {}
  claims : List (OutboxClaim C W V) := []
  enqueued : List (W × V) := []
  resolved : List (OutboxRow W V) := []
  deriving DecidableEq, Repr

/-- Claims are numbered. -/
inductive OutboxEvent (C W V : Type) where
  | enqueue (workflowId : W) (publishedVersionId : V)
  | claimNextPendingRecord (consumer : C)
  | markCompleted (claim : ℕ)
  | markFailed (claim : ℕ) (errorMessage : String)
  | markPartialSuccess (claim : ℕ) (errorMessage : String)
  | returnToPending (claim : ℕ)
  | deleteInProgress (claim : ℕ)
  | elapse (milliseconds : ℕ)
  deriving DecidableEq, Repr

namespace OutboxUse

variable {C W V : Type} [DecidableEq W] (use : OutboxUse C W V)

def setProgress (claim : ℕ) (progress : ClaimProgress) : OutboxUse C W V :=
  { use with claims := use.claims.modify claim fun c => { c with progress } }

/-- A consumer marks the row it claimed. -/
def mark (claim : ℕ) (marked : Outbox W V × Except String Unit) : OutboxUse C W V :=
  { use.setProgress claim .given with
    outbox := marked.1
    resolved := use.resolved ++ (marked.1.rows.find? fun row =>
      !row.isOpen && use.outbox.rows.any fun old => old.id = row.id && old.isOpen).toList }

def returnToPending (claim : ℕ) (c : OutboxClaim C W V) : OutboxUse C W V :=
  match use.outbox.returnToPending c.record.id with
  | some outbox => { use.setProgress claim .given with outbox }
  | none => use.setProgress claim .collided

/-- The claim with this number, if it has come so far. -/
def claimAt (claim : ℕ) (progress : ClaimProgress) : Except Unit (OutboxClaim C W V) :=
  match use.claims[claim]? with
  | some c => if c.progress = progress then .ok c else .error ()
  | none => .error ()

def step (lease : ℕ) (use : OutboxUse C W V) : OutboxEvent C W V → Except Unit (OutboxUse C W V)
  | .enqueue workflowId publishedVersionId =>
    .ok { use with
      outbox := use.outbox.enqueue workflowId publishedVersionId
      enqueued := use.enqueued ++ [(workflowId, publishedVersionId)] }
  | .claimNextPendingRecord consumer =>
    let (outbox, record?) := use.outbox.claimNextPendingRecord lease
    .ok { use with
      outbox
      claims := use.claims ++ (record?.map fun record =>
        { consumer, record, claimedAt := use.outbox.now }).toList }
  | .markCompleted claim => do
    let c ← use.claimAt claim .held
    return use.mark claim (use.outbox.markCompleted c.record.id)
  | .markFailed claim errorMessage => do
    let c ← use.claimAt claim .held
    return use.mark claim (use.outbox.markFailed c.record.id errorMessage)
  | .markPartialSuccess claim errorMessage => do
    let c ← use.claimAt claim .held
    return use.mark claim (use.outbox.markPartialSuccess c.record.id errorMessage)
  | .returnToPending claim => do
    let c ← use.claimAt claim .held
    return use.returnToPending claim c
  | .deleteInProgress claim => do
    let c ← use.claimAt claim .collided
    return { use.setProgress claim .given with
      outbox := use.outbox.deleteInProgress c.record.id }
  | .elapse milliseconds =>
    .ok { use with outbox := { use.outbox with now := use.outbox.now + milliseconds } }

/-! ## What the outbox is to keep to -/

/-- The consumer has neither resolved nor returned the row, and its lease has not expired. -/
def isLive (lease : ℕ) (c : OutboxClaim C W V) : Bool :=
  c.progress = .held && use.outbox.now ≤ c.claimedAt + lease

def lastEnqueued (workflowId : W) : Option V :=
  ((use.enqueued.filter (·.1 = workflowId)).getLast?).map Prod.snd

/-- The row of the workflow that was resolved last. -/
def lastResolved (workflowId : W) : Option (OutboxRow W V) :=
  (use.resolved.filter (·.workflowId = workflowId)).getLast?

/-- One row is pending and one in progress at most. -/
def SingleRows : Prop :=
  ∀ row ∈ use.outbox.rows, ∀ other ∈ use.outbox.rows, row.isOpen = true →
    row.workflowId = other.workflowId → row.status = other.status → row = other

/-- One consumer at most has a lease on the rows of a workflow. -/
def SingleConsumer (lease : ℕ) : Prop :=
  ∀ c ∈ use.claims, ∀ d ∈ use.claims, use.isLive lease c = true → use.isLive lease d = true →
    c.record.workflowId = d.record.workflowId → c.consumer = d.consumer

/-- A workflow without open rows has been published as it was asked for last. -/
def PublishesLast : Prop :=
  ∀ workflowId, (∀ row ∈ use.outbox.rows, row.workflowId = workflowId → row.isOpen = false) →
    (use.lastResolved workflowId).map OutboxRow.publishedVersionId = use.lastEnqueued workflowId ∧
      ∀ row ∈ use.lastResolved workflowId, row ∈ use.outbox.rows

/-- If the claim's row is in progress, no other claim has an unexpired lease on it. -/
def holdsAlone (lease : ℕ) (claim : ℕ) : Bool :=
  (use.claims[claim]?).all fun c =>
    !use.outbox.rows.any (Outbox.inProgressAt c.record.id) ||
    use.claims.zipIdx.all fun (d, other) =>
      other = claim || d.record.id ≠ c.record.id || !use.isLive lease d

/-- Rows are resolved and returned by those who have the lease. -/
def sparesLeases (lease : ℕ) : OutboxEvent C W V → Bool
  | .markCompleted claim => use.holdsAlone lease claim
  | .markFailed claim _ => use.holdsAlone lease claim
  | .markPartialSuccess claim _ => use.holdsAlone lease claim
  | .returnToPending claim => use.holdsAlone lease claim
  | .deleteInProgress claim => use.holdsAlone lease claim
  | _ => true

end OutboxUse

end N8n
