import N8n.TaskRunners.TaskBroker

/-!
# What becomes of offers, requests and tasks

`TaskLedger` is what the broker is for, without its timers and promises and without the
places where its methods are suspended : the offers and requests that are pending, which
offer was matched with which request and what came of the match, the tasks, the deliveries
of results under way, and the messages that matter.

`TaskBroker.ledger` reads the ledger off a broker. Most of what the broker does leaves it
alone (the lemmas `ledger_..` tagged for `simp`).
-/

open Lib

namespace N8n

/-! ## The ledger -/

structure LedgerRequest where
  requestId : String
  requesterId : String
  taskType : String
  /-- An accept is in progress, or has led to a task. -/
  busy : Bool

inductive MatchStage where
  | «open»
  | refused
  | made
  deriving DecidableEq, Repr

/-- An offer matched with a request. -/
structure OfferMatch where
  offer : TaskOffer
  request : ℕ
  stage : MatchStage
  /-- The offers among which it was chosen, and when. -/
  offers : List TaskOffer
  now : ℤ

structure TaskLedger where
  offers : List TaskOffer
  offersMade : ℕ
  requests : List LedgerRequest
  pending : List ℕ
  matched : List OfferMatch
  tasks : List String
  /-- The results that are being delivered : the task and the requester that gets it. -/
  deliveries : List (String × Option String)
  expired : List ℕ
  /-- For each `broker:taskofferaccept` its `offerId` and `taskId`. -/
  accepts : List (String × String)
  /-- For each `broker:taskready` the requester, its `requestId` and `taskId`. -/
  ready : List (String × String × String)
  /-- For each `broker:taskdone` and `broker:taskerror` its `taskId`. -/
  ended : List String

/-! ## Reading it off -/

def TaskRequest.entry (request : TaskRequest) : LedgerRequest where
  requestId := request.requestId
  requesterId := request.requesterId
  taskType := request.taskType
  busy := request.acceptInProgress

def AcceptPhase.stage : AcceptPhase → MatchStage
  | .messagingRunner _ => .open
  | .awaitingRunner _ => .open
  | .refused => .refused
  | _ => .made

def AcceptCall.entry (call : AcceptCall) : OfferMatch where
  offer := call.offer
  request := call.request
  stage := call.phase.stage
  offers := call.offers
  now := call.now

def Suspended.entry : Suspended → Option (String × Option String)
  | .delivery taskId requesterId => some (taskId, requesterId)
  | _ => none

def LogEntry.accept? : LogEntry → Option (String × String)
  | .toRunner _ (.taskOfferAccept offerId taskId) => some (offerId, taskId)
  | _ => none

def LogEntry.ready? : LogEntry → Option (String × String × String)
  | .toRequester requesterId (.taskReady requestId taskId) => some (requesterId, requestId, taskId)
  | _ => none

/-- The task of a `broker:taskdone` or `broker:taskerror`. -/
def LogEntry.ended? : LogEntry → Option String
  | .toRequester _ (.taskDone taskId _) => some taskId
  | .toRequester _ (.taskError taskId _) => some taskId
  | _ => none

def TaskBroker.ledger (broker : TaskBroker) : TaskLedger where
  offers := broker.pendingTaskOffers
  offersMade := broker.offersMade
  requests := broker.requests.map TaskRequest.entry
  pending := broker.pendingTaskRequests
  matched := broker.calls.map AcceptCall.entry
  tasks := broker.tasks.keys
  deliveries := broker.suspended.filterMap Suspended.entry
  expired := broker.expired
  accepts := broker.log.filterMap LogEntry.accept?
  ready := broker.log.filterMap LogEntry.ready?
  ended := broker.log.filterMap LogEntry.ended?

/-- A call of `acceptOffer` for the request has made the task. -/
def TaskBroker.TaskFor (nanoid : ℕ → String) (broker : TaskBroker) (taskId : String)
    (request : ℕ) : Prop :=
  ∃ (k : ℕ) (call : AcceptCall), broker.calls[k]? = some call ∧ call.phase.stage = .made ∧
    nanoid k = taskId ∧ call.request = request

theorem TaskBroker.requests_ledger (broker : TaskBroker) (request : ℕ) :
    broker.ledger.requests[request]? = broker.requests[request]?.map TaskRequest.entry :=
  List.getElem?_map ..

theorem TaskBroker.matched_ledger (broker : TaskBroker) (k : ℕ) :
    broker.ledger.matched[k]? = broker.calls[k]?.map AcceptCall.entry :=
  List.getElem?_map ..

/-! ## What changes it -/

namespace TaskLedger

/-- The request is matched with the first offer of its type. -/
def choose (ledger : TaskLedger) (request : ℕ) (entry : LedgerRequest) (offer : TaskOffer)
    (now : ℤ) (sent : List (String × String)) : TaskLedger :=
  { ledger with
    offers := ledger.offers.eraseP fun o => o.taskType == entry.taskType
    requests := ledger.requests.set request { entry with busy := true }
    matched := ledger.matched ++ [{ offer, request, stage := .open, offers := ledger.offers, now }]
    accepts := ledger.accepts ++ sent }

def refuse (ledger : TaskLedger) (k : ℕ) (m : OfferMatch) (entry : LedgerRequest) : TaskLedger :=
  { ledger with
    requests := ledger.requests.set m.request { entry with busy := false }
    matched := ledger.matched.set k { m with stage := .refused } }

/-- The match becomes a task. `found` is the pending request that is taken to be the one of
the match; its requester hears of the task if there is one and `reachable` says so. -/
def accept (ledger : TaskLedger) (taskId : String) (k : ℕ) (m : OfferMatch)
    (entry : LedgerRequest) (found : Option ℕ) (reachable : Bool) : TaskLedger :=
  { ledger with
    matched := ledger.matched.set k { m with stage := .made }
    tasks := if taskId ∈ ledger.tasks then ledger.tasks else ledger.tasks ++ [taskId]
    pending := match found with
      | none => ledger.pending
      | some request => ledger.pending.erase request
    ready := if found.isSome && reachable
      then ledger.ready ++ [(entry.requesterId, entry.requestId, taskId)] else ledger.ready }

def removeTask (ledger : TaskLedger) (taskId : String) : TaskLedger :=
  { ledger with tasks := ledger.tasks.filter (· ≠ taskId) }

/-- The task ends with an error; `reachable` says whether its requester hears of it. -/
def fail (ledger : TaskLedger) (taskId : String) (reachable : Bool) : TaskLedger :=
  if taskId ∈ ledger.tasks then
    { ledger.removeTask taskId with
      ended := if reachable then ledger.ended ++ [taskId] else ledger.ended }
  else ledger

def failAll (ledger : TaskLedger) (failed : List (String × Bool)) : TaskLedger :=
  failed.foldl (fun ledger x => ledger.fail x.1 x.2) ledger

/-- A result is on its way; the requester gets it if there is one. -/
def deliver (ledger : TaskLedger) (taskId : String) (requester : Option String) : TaskLedger :=
  { ledger with
    deliveries := ledger.deliveries ++ [(taskId, requester)]
    ended := if requester.isSome then ledger.ended ++ [taskId] else ledger.ended }

/-- One of the changes that go with any order of events. `nanoid` gives a match the
identifier of its task. -/
inductive Change (nanoid : ℕ → String) : TaskLedger → TaskLedger → Prop
  | offer (ledger : TaskLedger) (offer : TaskOffer) (href : offer.ref = ledger.offersMade) :
      Change nanoid ledger
        { ledger with offers := ledger.offers ++ [offer], offersMade := ledger.offersMade + 1 }
  | withdraw (ledger : TaskLedger) (keep : TaskOffer → Bool) :
      Change nanoid ledger { ledger with offers := ledger.offers.filter keep }
  | request (ledger : TaskLedger) (entry : LedgerRequest) (hbusy : entry.busy = false) :
      Change nanoid ledger
        { ledger with
          requests := ledger.requests ++ [entry]
          pending := ledger.pending ++ [ledger.requests.length] }
  | decline (ledger : TaskLedger) (entry : LedgerRequest) (hbusy : entry.busy = false)
      (told : List ℕ) (htold : told ⊆ [ledger.requests.length]) :
      Change nanoid ledger
        { ledger with
          requests := ledger.requests ++ [entry]
          expired := ledger.expired ++ told }
  | expire (ledger : TaskLedger) (request : ℕ) (hrequest : request ∈ ledger.pending)
      (told : List ℕ) (htold : told ⊆ [request]) :
      Change nanoid ledger
        { ledger with
          pending := ledger.pending.erase request
          expired := ledger.expired ++ told }
  | choose (ledger : TaskLedger) (request : ℕ) (entry : LedgerRequest) (offer : TaskOffer)
      (now : ℤ) (sent : List (String × String))
      (hentry : ledger.requests[request]? = some entry) (hbusy : entry.busy = false)
      (hoffer : (ledger.offers.find? fun o => o.taskType == entry.taskType) = some offer)
      (hvalid : offer.isValid now = true)
      (hsent : sent.Sublist [(offer.offerId, nanoid ledger.matched.length)]) :
      Change nanoid ledger (ledger.choose request entry offer now sent)
  | refuse (ledger : TaskLedger) (k : ℕ) (m : OfferMatch) (entry : LedgerRequest)
      (hk : ledger.matched[k]? = some m) (hopen : m.stage = .open)
      (hentry : ledger.requests[m.request]? = some entry) :
      Change nanoid ledger (ledger.refuse k m entry)
  | cancel (ledger : TaskLedger) (taskId : String) :
      Change nanoid ledger (ledger.removeTask taskId)
  | conclude (ledger : TaskLedger) (taskId : String) (requester : Option String)
      (before after : List (String × Option String))
      (h : ledger.deliveries = before ++ (taskId, requester) :: after) :
      Change nanoid ledger ({ ledger with deliveries := before ++ after }.removeTask taskId)

end TaskLedger

end N8n
