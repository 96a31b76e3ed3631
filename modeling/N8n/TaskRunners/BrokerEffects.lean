import N8n.Lib.Splice
import N8n.TaskRunners.TaskLedger
import Mathlib.Logic.Relation

/-!
# What a step of the broker changes

`step_effect` says for each step what becomes of the ledger (`Effect`).
-/

open Lib

namespace N8n

namespace TaskBroker

/-! ## What leaves the ledger alone -/

@[simp] theorem ledger_setTimeout (broker : TaskBroker) (timer : Timer) :
    (broker.setTimeout timer).ledger = broker.ledger := rfl

@[simp] theorem ledger_createRequestTimeout (broker : TaskBroker) (requestId : String) :
    (broker.createRequestTimeout requestId).ledger = broker.ledger := rfl

@[simp] theorem ledger_clearTimeout (broker : TaskBroker) (timer : Option ℕ) :
    (broker.clearTimeout timer).ledger = broker.ledger := by
  cases timer <;> rfl

@[simp] theorem ledger_settlePromise (broker : TaskBroker) (promise : ℕ) (state : PromiseState) :
    (broker.settlePromise promise state).ledger = broker.ledger := by
  unfold settlePromise
  split <;> rfl

@[simp] theorem ledger_settleRunner (broker : TaskBroker) (taskId : String) (state : PromiseState) :
    (broker.settleRunner taskId state).ledger = broker.ledger := by
  unfold settleRunner
  split
  · rfl
  · exact ledger_settlePromise broker _ state

@[simp] theorem ledger_settleRequester (broker : TaskBroker) (taskId : String)
    (state : PromiseState) : (broker.settleRequester taskId state).ledger = broker.ledger := by
  unfold settleRequester
  split
  · rfl
  · exact ledger_settlePromise broker _ state

/-- A message that is neither the accept of an offer nor about the state of a task. -/
@[simp] theorem ledger_messageRunner (broker : TaskBroker) (runnerId : String)
    {message : ToRunner} (h : (LogEntry.toRunner runnerId message).accept? = none) :
    (broker.messageRunner runnerId message).ledger = broker.ledger := by
  unfold messageRunner
  split
  · simp [ledger, h, LogEntry.ready?, LogEntry.ended?]
  · rfl

@[simp] theorem ledger_messageRequester (broker : TaskBroker) (requesterId : String)
    {message : ToRequester} (hready : (LogEntry.toRequester requesterId message).ready? = none)
    (hended : (LogEntry.toRequester requesterId message).ended? = none) :
    (broker.messageRequester requesterId message).ledger = broker.ledger := by
  unfold messageRequester
  split
  · simp [ledger, hready, hended, LogEntry.accept?]
  · rfl

theorem ledger_suspend (broker : TaskBroker) {method : Suspended} (h : method.entry = none) :
    (broker.suspend method).ledger = broker.ledger := by
  simp [suspend, ledger, h]

theorem ledger_suspend_delivery (broker : TaskBroker) (taskId : String)
    (requesterId : Option String) :
    (broker.suspend (.delivery taskId requesterId)).ledger =
      { broker.ledger with
        deliveries := broker.ledger.deliveries ++ [(taskId, requesterId)] } := by
  simp [suspend, ledger, Suspended.entry]

@[simp] theorem requesters_clearTimeout (broker : TaskBroker) (timer : Option ℕ) :
    (broker.clearTimeout timer).requesters = broker.requesters := by
  cases timer <;> rfl

@[simp] theorem requesters_suspend (broker : TaskBroker) (method : Suspended) :
    (broker.suspend method).requesters = broker.requesters := rfl

variable {call : AcceptCall} {k : ℕ}

theorem ledger_setPhase (broker : TaskBroker) {phase : AcceptPhase}
    (hk : broker.calls[k]? = some call) :
    (broker.setPhase k phase).ledger =
      { broker.ledger with
        matched := broker.ledger.matched.set k { call.entry with stage := phase.stage } } := by
  simp only [setPhase, ledger, map_modify_eq_set hk]
  rfl

/-- A call that goes on without the match coming to anything new. -/
theorem ledger_setPhase_of_stage_eq (broker : TaskBroker) {phase : AcceptPhase}
    (hk : broker.calls[k]? = some call) (hstage : phase.stage = call.phase.stage) :
    (broker.setPhase k phase).ledger = broker.ledger := by
  obtain ⟨hlt, rfl⟩ := List.getElem?_eq_some_iff.mp hk
  have hlt' : k < broker.ledger.matched.length := by simpa [ledger] using hlt
  have hself : { broker.calls[k].entry with stage := phase.stage } = broker.ledger.matched[k] := by
    simp [ledger, AcceptCall.entry, hstage]
  rw [ledger_setPhase broker hk, hself, List.set_getElem_self]

/-! ## The end of a task -/

theorem keys_delete (tasks : Tasks) (taskId : String) :
    (tasks.delete taskId).keys = tasks.keys.filter (· ≠ taskId) := by
  simp only [Tasks.keys, Tasks.delete, OrderedMap.keys, OrderedMap.delete, List.filter_map]
  rfl

theorem ledger_delete (broker : TaskBroker) (taskId : String) :
    { broker with tasks := broker.tasks.delete taskId }.ledger =
      broker.ledger.removeTask taskId := by
  simp only [ledger, TaskLedger.removeTask, keys_delete]

variable {taskId : String}

theorem removeTask_of_not_mem {ledger : TaskLedger} (h : taskId ∉ ledger.tasks) :
    ledger.removeTask taskId = ledger := by
  have hfilter : ledger.tasks.filter (· ≠ taskId) = ledger.tasks :=
    List.filter_eq_self.mpr fun t ht => by
      simpa using fun h' : t = taskId => h (h' ▸ ht)
  rw [TaskLedger.removeTask, hfilter]

theorem ledger_cancelTask (broker : TaskBroker) (taskId reason : String) :
    (broker.cancelTask taskId reason).ledger = broker.ledger.removeTask taskId := by
  unfold cancelTask
  split
  · rename_i hget
    exact (removeTask_of_not_mem (OrderedMap.get?_eq_none_iff.mp hget)).symm
  · rw [ledger_messageRunner _ _ rfl, ledger_delete]

/-- The task is there and its requester is registered. -/
def hears (broker : TaskBroker) (taskId : String) : Bool :=
  (broker.tasks.get? taskId).any fun task => task.requesterId ∈ broker.requesters

theorem hears_iff {broker : TaskBroker} :
    broker.hears taskId = true ↔
      ∃ task, broker.tasks.get? taskId = some task ∧ task.requesterId ∈ broker.requesters := by
  simp [hears, Option.any_eq_true]

theorem ledger_messageRequester_ended (broker : TaskBroker) (requesterId : String)
    {message : ToRequester} (hready : (LogEntry.toRequester requesterId message).ready? = none)
    (hended : (LogEntry.toRequester requesterId message).ended? = some taskId) :
    (broker.messageRequester requesterId message).ledger =
      { broker.ledger with
        ended := if requesterId ∈ broker.requesters then broker.ledger.ended ++ [taskId]
          else broker.ledger.ended } := by
  unfold messageRequester
  split
  · simp [ledger, hready, hended, LogEntry.accept?]
  · rfl

theorem ledger_failTask (broker : TaskBroker) (taskId : String) (error : TaskError) :
    (broker.failTask taskId error).ledger = broker.ledger.fail taskId (broker.hears taskId) := by
  unfold failTask
  cases hget : broker.tasks.get? taskId with
  | none =>
    have hmem : taskId ∉ broker.ledger.tasks := OrderedMap.get?_eq_none_iff.mp hget
    rw [TaskLedger.fail, if_neg hmem]
  | some task =>
    have hmem : taskId ∈ broker.ledger.tasks := OrderedMap.mem_keys_iff.mpr ⟨task, hget⟩
    have hended : (LogEntry.toRequester task.requesterId (.taskError taskId error)).ended? =
      some taskId := rfl
    rw [TaskLedger.fail, if_pos hmem]
    simp only [ledger_messageRequester_ended _ _ rfl hended, ledger_delete, hears, hget,
      Option.any_some, decide_eq_true_eq]
    rfl

/-- The requester that gets a result of the task, if it is registered. -/
def recipient (broker : TaskBroker) (task : Task) : Option String :=
  if task.requesterId ∈ broker.requesters then some task.requesterId else none

theorem ledger_deliver (broker : TaskBroker) {task : Task} {message : String → ToRequester}
    (hget : broker.tasks.get? taskId = some task)
    (hready : (LogEntry.toRequester task.requesterId (message task.id)).ready? = none)
    (hended : (LogEntry.toRequester task.requesterId (message task.id)).ended? = some task.id) :
    (broker.deliver taskId message).ledger =
      broker.ledger.deliver taskId (broker.recipient task) := by
  obtain rfl : task.id = taskId := Tasks.id_of_get? hget
  simp only [deliver, hget, ledger_messageRequester_ended _ _ hready hended,
    ledger_suspend_delivery, ledger_clearTimeout, requesters_suspend, requesters_clearTimeout,
    TaskLedger.deliver, recipient]
  by_cases hreg : task.requesterId ∈ broker.requesters <;> simp [hreg]

/-! ## Matching -/

/-- The ledger after the first part of `acceptOffer`. -/
theorem ledger_acceptOffer (nanoid : ℕ → String) (broker : TaskBroker) (offer : TaskOffer)
    (request : ℕ) (offers : List TaskOffer) (now : ℤ) :
    ∃ sent, sent.Sublist [(offer.offerId, nanoid broker.ledger.matched.length)] ∧
      (broker.acceptOffer nanoid offer request offers now).ledger =
        { broker.ledger with
          matched := broker.ledger.matched ++ [{ offer, request, stage := .open, offers, now }]
          accepts := broker.ledger.accepts ++ sent } := by
  simp only [acceptOffer, messageRunner]
  split
  · refine ⟨_, List.Sublist.refl _, ?_⟩
    simp [ledger, newPromise, setTimeout, LogEntry.accept?, LogEntry.ready?, LogEntry.ended?,
      AcceptCall.entry, AcceptPhase.stage]
  · refine ⟨[], by simp, ?_⟩
    simp [ledger, newPromise, setTimeout, AcceptCall.entry, AcceptPhase.stage]

theorem ledger_warnOnTaskTypeMismatch (broker : TaskBroker) (request : TaskRequest) :
    (broker.warnOnTaskTypeMismatch request).ledger = broker.ledger := by
  unfold warnOnTaskTypeMismatch
  split
  · rfl
  split
  · rfl
  · simp [ledger, LogEntry.accept?, LogEntry.ready?, LogEntry.ended?]

open TaskLedger Relation

/-- The offers that are left are valid if they were before. -/
def OffersValid (now : ℤ) (broker : TaskBroker) : Prop :=
  ∀ offer ∈ broker.ledger.offers, offer.isValid now = true

variable {data : TaskRequest}

theorem ledger_settleRequest_of_find (nanoid : ℕ → String) (now : ℤ) (broker : TaskBroker)
    {request : ℕ} {offer : TaskOffer} (hdata : broker.requests[request]? = some data)
    (hbusy : data.acceptInProgress = false)
    (hoffer : (broker.pendingTaskOffers.find? fun o => o.taskType == data.taskType) = some offer) :
    ∃ sent, sent.Sublist [(offer.offerId, nanoid broker.ledger.matched.length)] ∧
      (settleRequest nanoid now broker request).ledger =
        broker.ledger.choose request data.entry offer now sent := by
  simp only [settleRequest, hdata, hbusy, Bool.false_eq_true, if_false, hoffer]
  obtain ⟨sent, hsent, hledger⟩ := ledger_acceptOffer nanoid
    { broker with
      requests := broker.requests.set request { data with acceptInProgress := true }
      pendingTaskOffers := broker.pendingTaskOffers.eraseP fun o => o.taskType == data.taskType
      mismatchWarned := broker.mismatchWarned.erase data.requestId }
    offer request broker.pendingTaskOffers now
  refine ⟨sent, hsent, hledger.trans ?_⟩
  simp only [ledger, choose, List.map_set, TaskRequest.entry]

theorem settleRequest_changes (nanoid : ℕ → String) {now : ℤ} {broker : TaskBroker}
    (hvalid : broker.OffersValid now) (request : ℕ) :
    ReflTransGen (Change nanoid) broker.ledger (settleRequest nanoid now broker request).ledger ∧
      (settleRequest nanoid now broker request).OffersValid now := by
  cases hdata : broker.requests[request]? with
  | none =>
    simp only [settleRequest, hdata]
    exact ⟨.refl, hvalid⟩
  | some data =>
    cases hbusy : data.acceptInProgress with
    | true =>
      simp only [settleRequest, hdata, hbusy, if_true]
      exact ⟨.refl, hvalid⟩
    | false =>
      cases hoffer : broker.pendingTaskOffers.find? fun o => o.taskType == data.taskType with
      | none =>
        simp only [settleRequest, hdata, hbusy, Bool.false_eq_true, if_false, hoffer, OffersValid,
          ledger_warnOnTaskTypeMismatch]
        exact ⟨.refl, hvalid⟩
      | some offer =>
        obtain ⟨sent, hsent, hledger⟩ :=
          ledger_settleRequest_of_find nanoid now broker hdata hbusy hoffer
        have hentry : broker.ledger.requests[request]? = some data.entry := by
          rw [requests_ledger, hdata, Option.map_some]
        have hmem : offer ∈ broker.ledger.offers := List.mem_of_find?_eq_some hoffer
        rw [OffersValid, hledger]
        refine ⟨.single (.choose broker.ledger request data.entry offer now sent hentry hbusy hoffer
          (hvalid offer hmem) hsent), fun o ho => ?_⟩
        exact hvalid o (List.mem_of_mem_eraseP ho)

theorem settleTasks_changes (nanoid : ℕ → String) (broker : TaskBroker) (now : ℤ) :
    ReflTransGen (Change nanoid) broker.ledger (broker.settleTasks nanoid now).ledger := by
  have hfold : ∀ (requests : List ℕ) (broker : TaskBroker), broker.OffersValid now →
      ReflTransGen (Change nanoid) broker.ledger
        (requests.foldl (settleRequest nanoid now) broker).ledger := by
    intro requests
    induction requests with
    | nil => exact fun _ _ => .refl
    | cons request requests ih =>
      intro broker hvalid
      obtain ⟨hchanges, hvalid'⟩ := settleRequest_changes nanoid hvalid request
      exact hchanges.trans (ih _ hvalid')
  have hexpire : (broker.expireTasks now).OffersValid now := fun offer hoffer =>
    (List.mem_filter.mp hoffer).2
  exact .head (.withdraw broker.ledger (·.isValid now)) (hfold _ _ hexpire)

theorem taskOffered_changes (nanoid : ℕ → String) (broker : TaskBroker) {offer : TaskOffer}
    (href : offer.ref = broker.offersMade) (now : ℤ) :
    ReflTransGen (Change nanoid) broker.ledger (broker.taskOffered nanoid offer now).ledger :=
  .head (.offer broker.ledger offer href) <|
    settleTasks_changes nanoid
      { broker with
        pendingTaskOffers := broker.pendingTaskOffers ++ [offer]
        offersMade := broker.offersMade + 1 }
      now

/-! ## Requests -/

theorem ledger_sendRequestExpired (broker : TaskBroker) (request : ℕ) (data : TaskRequest)
    (reason : ExpiryReason) :
    ∃ told, told ⊆ [request] ∧
      (broker.sendRequestExpired request data reason).ledger =
        { broker.ledger with expired := broker.ledger.expired ++ told } := by
  unfold sendRequestExpired
  split
  · refine ⟨[request], List.Subset.refl _, ?_⟩
    have hmessage : (broker.messageRequester data.requesterId
        (.requestExpired data.requestId reason)).ledger = broker.ledger :=
      ledger_messageRequester _ _ rfl rfl
    simp only [ledger, TaskLedger.mk.injEq] at hmessage ⊢
    simp [hmessage]
  · exact ⟨[], List.nil_subset _, by simp⟩

theorem ledger_spliceRequest (broker : TaskBroker) {requestId : String} {request : ℕ}
    (h : broker.findRequest requestId = some request) :
    (broker.spliceRequest requestId).ledger =
      { broker.ledger with pending := broker.ledger.pending.erase request } := by
  simp only [spliceRequest, ledger, eraseP_eq_erase_of_find h]

theorem ledger_handleRequestTimeout (broker : TaskBroker) (requestId : String) :
    (broker.handleRequestTimeout requestId).ledger = broker.ledger ∨
      ∃ request told, request ∈ broker.ledger.pending ∧ told ⊆ [request] ∧
        (broker.handleRequestTimeout requestId).ledger =
          { broker.ledger with
            pending := broker.ledger.pending.erase request
            expired := broker.ledger.expired ++ told } := by
  cases hfind : broker.findRequest requestId with
  | none =>
    refine .inl ?_
    simp only [handleRequestTimeout, hfind]
  | some request =>
    cases hdata : broker.requests[request]? with
    | none =>
      refine .inl ?_
      simp only [handleRequestTimeout, hfind, hdata]
    | some data =>
      simp only [handleRequestTimeout, hfind, hdata]
      obtain ⟨told, htold, hledger⟩ := ledger_sendRequestExpired
        (clearTimeout { broker.spliceRequest requestId with
          mismatchWarned := broker.mismatchWarned.erase requestId } data.timeout)
        request data .timeout
      have hsplice : (clearTimeout { broker.spliceRequest requestId with
          mismatchWarned := broker.mismatchWarned.erase requestId } data.timeout).ledger =
          { broker.ledger with pending := broker.ledger.pending.erase request } := by
        rw [ledger_clearTimeout, ← ledger_spliceRequest broker hfind]
        rfl
      rw [hsplice] at hledger
      exact .inr ⟨request, told, List.mem_of_find?_eq_some hfind, htold, hledger⟩

theorem handleRequestTimeout_changes (nanoid : ℕ → String) (broker : TaskBroker)
    (requestId : String) :
    ReflTransGen (Change nanoid) broker.ledger (broker.handleRequestTimeout requestId).ledger := by
  rcases ledger_handleRequestTimeout broker requestId with h | ⟨request, told, hmem, htold, h⟩
  · rw [h]
  · exact .single (h ▸ .expire broker.ledger request hmem told htold)

/-- While the broker is draining a request is declined. -/
theorem ledger_taskRequested_of_draining (nanoid : ℕ → String) (broker : TaskBroker)
    (data : TaskRequest) (now : ℤ) (hdraining : broker.isDraining = true) :
    ∃ told, told ⊆ [broker.ledger.requests.length] ∧
      (broker.taskRequested nanoid data now).ledger =
        { broker.ledger with
          requests := broker.ledger.requests ++ [data.entry]
          expired := broker.ledger.expired ++ told } := by
  obtain ⟨told, htold, hledger⟩ := ledger_sendRequestExpired
    (clearTimeout { broker with requests := broker.requests ++ [data] } data.timeout)
    broker.requests.length data .draining
  have hrequests : (clearTimeout { broker with requests := broker.requests ++ [data] }
      data.timeout).ledger =
      { broker.ledger with requests := broker.ledger.requests ++ [data.entry] } := by
    rw [ledger_clearTimeout]
    simp [ledger]
  rw [hrequests] at hledger
  refine ⟨told, by simpa [ledger] using htold, ?_⟩
  have hresult : broker.taskRequested nanoid data now =
      (clearTimeout { broker with requests := broker.requests ++ [data] } data.timeout).sendRequestExpired
        broker.requests.length data .draining := if_pos hdraining
  rw [hresult]
  exact hledger

/-- While it is not, the request is pending and settled. -/
theorem taskRequested_of_not_draining (nanoid : ℕ → String) (broker : TaskBroker)
    (data : TaskRequest) (now : ℤ) (hdraining : broker.isDraining = false) :
    broker.taskRequested nanoid data now =
      settleTasks nanoid { broker with
        requests := broker.requests ++ [data]
        pendingTaskRequests := broker.pendingTaskRequests ++ [broker.requests.length] } now :=
  if_neg (by simp [hdraining])

theorem taskRequested_changes (nanoid : ℕ → String) (broker : TaskBroker)
    (hdata : data.acceptInProgress = false) (now : ℤ) :
    ReflTransGen (Change nanoid) broker.ledger (broker.taskRequested nanoid data now).ledger := by
  cases hdraining : broker.isDraining with
  | true =>
    obtain ⟨told, htold, hledger⟩ :=
      ledger_taskRequested_of_draining nanoid broker data now hdraining
    exact .single (hledger ▸ .decline broker.ledger data.entry hdata told htold)
  | false =>
    rw [taskRequested_of_not_draining nanoid broker data now hdraining]
    have hrequest : Change nanoid broker.ledger
        { broker with
          requests := broker.requests ++ [data]
          pendingTaskRequests := broker.pendingTaskRequests ++ [broker.requests.length] }.ledger := by
      have hchange : Change nanoid broker.ledger _ := .request broker.ledger data.entry hdata
      simpa [ledger] using hchange
    exact .head hrequest (settleTasks_changes nanoid _ now)

/-! ## The rest of `acceptOffer` -/

/-- What a call of `acceptOffer` that is suspended at `broker` is about. -/
structure AcceptAt (broker : TaskBroker) (k : ℕ) (call : AcceptCall) (data : TaskRequest) :
    Prop where
  atCall : broker.calls[k]? = some call
  atRequest : broker.requests[call.request]? = some data

theorem AcceptAt.matched {broker : TaskBroker} (h : broker.AcceptAt k call data) :
    broker.ledger.matched[k]? = some call.entry := by
  rw [matched_ledger, h.atCall, Option.map_some]

theorem AcceptAt.entry {broker : TaskBroker} (h : broker.AcceptAt k call data) :
    broker.ledger.requests[call.request]? = some data.entry := by
  rw [requests_ledger, h.atRequest, Option.map_some]

theorem ledger_set_request (broker : TaskBroker) (request : ℕ) (data : TaskRequest) :
    { broker with requests := broker.requests.set request data }.ledger =
      { broker.ledger with requests := broker.ledger.requests.set request data.entry } := by
  simp only [ledger, List.map_set]

theorem ledger_refuse (broker : TaskBroker) (h : broker.AcceptAt k call data)
    (reason : Option Rejection) :
    (broker.refuse k call.request data reason).ledger =
      broker.ledger.refuse k call.entry data.entry := by
  have hset : ∀ (b : TaskBroker) (d : TaskRequest), b.ledger = (broker.setPhase k .refused).ledger →
      d.entry = { data.entry with busy := false } →
      { b with requests := b.requests.set call.request d }.ledger =
        broker.ledger.refuse k call.entry data.entry := by
    intro b d hb hd
    rw [ledger_set_request, hb, hd, ledger_setPhase broker h.atCall]
    rfl
  unfold refuse
  split
  · exact hset ((broker.setPhase k .refused).clearTimeout data.timeout |>.createRequestTimeout
      data.requestId) _ (by simp) rfl
  · exact hset _ _ rfl rfl

theorem keys_set (tasks : Tasks) (task : Task) :
    (tasks.set task).keys = if task.id ∈ tasks.keys then tasks.keys else tasks.keys ++ [task.id] :=
  OrderedMap.map_fst_put ..

theorem ledger_setTask (broker : TaskBroker) (task : Task) :
    (broker.setTask task).ledger =
      { broker.ledger with
        tasks := if task.id ∈ broker.ledger.tasks then broker.ledger.tasks
          else broker.ledger.tasks ++ [task.id] } := by
  simp only [setTask, ledger, keys_set]
  rfl

@[simp] theorem findRequest_clearTimeout (broker : TaskBroker) (timer : Option ℕ)
    (requestId : String) :
    (broker.clearTimeout timer).findRequest requestId = broker.findRequest requestId := by
  cases timer <;> rfl

@[simp] theorem findRequest_setTask (broker : TaskBroker) (task : Task) (requestId : String) :
    (broker.setTask task).findRequest requestId = broker.findRequest requestId := rfl

@[simp] theorem calls_clearTimeout (broker : TaskBroker) (timer : Option ℕ) :
    (broker.clearTimeout timer).calls = broker.calls := by
  cases timer <;> rfl

@[simp] theorem calls_setTask (broker : TaskBroker) (task : Task) :
    (broker.setTask task).calls = broker.calls := rfl

@[simp] theorem requesters_setTask (broker : TaskBroker) (task : Task) :
    (broker.setTask task).requesters = broker.requesters := rfl

theorem ledger_messageRequester_ready (broker : TaskBroker)
    (requesterId requestId taskId : String) :
    (broker.messageRequester requesterId (.taskReady requestId taskId)).ledger =
      { broker.ledger with
        ready := if requesterId ∈ broker.requesters
          then broker.ledger.ready ++ [(requesterId, requestId, taskId)]
          else broker.ledger.ready } := by
  unfold messageRequester
  split
  · simp [ledger, LogEntry.accept?, LogEntry.ready?, LogEntry.ended?]
  · rfl

theorem ledger_sendTaskReady (broker : TaskBroker) (hcall : broker.calls[k]? = some call)
    {request : ℕ} (hfind : broker.findRequest data.requestId = some request) (taskId : String) :
    (broker.sendTaskReady k data taskId).ledger =
      { broker.ledger with
        matched := broker.ledger.matched.set k { call.entry with stage := .made }
        pending := broker.ledger.pending.erase request
        ready := if data.requesterId ∈ broker.requesters
          then broker.ledger.ready ++ [(data.requesterId, data.requestId, taskId)]
          else broker.ledger.ready } := by
  let waiting : TaskBroker := { (broker.spliceRequest data.requestId).newPromise with
    requesterAcceptRejects := broker.requesterAcceptRejects.set taskId broker.promises.length }
  let timed := waiting.setTimeout (.requesterAccept broker.promises.length)
  have htimed : timed.ledger =
      { broker.ledger with pending := broker.ledger.pending.erase request } :=
    ledger_spliceRequest broker hfind
  have hcall' : timed.calls[k]? = some call := hcall
  change ((timed.setPhase k _).messageRequester _ _).ledger = _
  rw [ledger_messageRequester_ready, ledger_setPhase timed hcall', htimed]
  rfl

theorem ledger_addTask (broker : TaskBroker) (h : broker.AcceptAt k call data) (taskId : String) :
    (broker.addTask k call.offer data taskId).ledger =
      broker.ledger.accept taskId k call.entry data.entry (broker.findRequest data.requestId)
        (data.requesterId ∈ broker.requesters) := by
  let added := (broker.clearTimeout data.timeout).setTask
    { id := taskId, taskType := call.offer.taskType, runnerId := call.offer.runnerId,
      requesterId := data.requesterId }
  have hadded : added.ledger =
      { broker.ledger with
        tasks := if taskId ∈ broker.ledger.tasks then broker.ledger.tasks
          else broker.ledger.tasks ++ [taskId] } := by
    rw [ledger_setTask, ledger_clearTimeout]
  have hcall : added.calls[k]? = some call := by
    rw [calls_setTask, calls_clearTimeout, h.atCall]
  have hrequesters : added.requesters = broker.requesters := by
    rw [requesters_setTask, requesters_clearTimeout]
  have hfind : added.findRequest data.requestId = broker.findRequest data.requestId := by
    rw [findRequest_setTask, findRequest_clearTimeout]
  cases hrequest : broker.findRequest data.requestId with
  | none =>
    have haddTask : broker.addTask k call.offer data taskId = added.setPhase k .finished := by
      simp only [addTask, findRequest_setTask, findRequest_clearTimeout, hrequest, added]
    rw [haddTask]
    simp only [ledger_setPhase added hcall, hadded]
    rfl
  | some request =>
    have haddTask : broker.addTask k call.offer data taskId = added.sendTaskReady k data taskId := by
      simp only [addTask, findRequest_setTask, findRequest_clearTimeout, hrequest, added]
    rw [haddTask]
    simp only [ledger_sendTaskReady added hcall (hfind.trans hrequest), hadded, hrequesters,
      TaskLedger.accept, Option.isSome_some, Bool.true_and, decide_eq_true_eq]
    rfl

theorem ledger_giveUp (broker : TaskBroker) (hcall : broker.calls[k]? = some call)
    (hmade : call.phase.stage = .made) (taskId : String) (reason : Option Rejection) :
    (broker.giveUp k taskId reason).ledger = broker.ledger.removeTask taskId := by
  have hphase : (broker.setPhase k .finished).ledger = broker.ledger :=
    ledger_setPhase_of_stage_eq broker hcall hmade.symm
  unfold giveUp
  split <;> rw [ledger_cancelTask, hphase]

theorem ledger_startTask (broker : TaskBroker) (hcall : broker.calls[k]? = some call)
    (hmade : call.phase.stage = .made) (runnerId taskId : String) (settings : Json) :
    (broker.startTask k runnerId taskId settings).ledger = broker.ledger := by
  cases hget : broker.tasks.get? taskId with
  | none =>
    simp only [startTask, hget]
    exact ledger_setPhase_of_stage_eq broker hcall hmade.symm
  | some task =>
    obtain rfl : task.id = taskId := Tasks.id_of_get? hget
    have hmem : task.id ∈ broker.ledger.tasks := OrderedMap.mem_keys_iff.mpr ⟨task, hget⟩
    let timed := (broker.setTimeout (.task task.id)).setTask
      { task with timeout := some broker.timers.length }
    have htimed : timed.ledger = broker.ledger := by
      rw [ledger_setTask, ledger_setTimeout, if_pos hmem]
    have hphase : (timed.setPhase k .messagingSettings).ledger = timed.ledger :=
      ledger_setPhase_of_stage_eq timed hcall hmade.symm
    simp only [startTask, hget]
    rw [ledger_messageRunner _ _ rfl]
    exact hphase.trans htimed

/-- The runner of the task is not registered. -/
def lacksRunner (broker : TaskBroker) (taskId : String) : Bool :=
  (broker.tasks.get? taskId).any fun task => !broker.knownRunners.has task.runnerId

theorem ledger_getRunnerOrFailTask (broker : TaskBroker) (taskId : String) :
    (broker.getRunnerOrFailTask taskId).1.ledger =
      if broker.lacksRunner taskId then broker.ledger.fail taskId (broker.hears taskId)
      else broker.ledger := by
  cases hget : broker.tasks.get? taskId with
  | none => simp [getRunnerOrFailTask, lacksRunner, hget]
  | some task =>
    cases hrunner : broker.knownRunners.get? task.runnerId with
    | some runner =>
      have hhas : broker.knownRunners.has task.runnerId = true := by simp [OrderedMap.has, hrunner]
      simp [getRunnerOrFailTask, lacksRunner, hget, hrunner, hhas]
    | none =>
      have hhas : broker.knownRunners.has task.runnerId = false := by simp [OrderedMap.has, hrunner]
      simp [getRunnerOrFailTask, lacksRunner, hget, hrunner, hhas, ledger_failTask]

@[simp] theorem calls_messageRequester (broker : TaskBroker) (requesterId : String)
    (message : ToRequester) :
    (broker.messageRequester requesterId message).calls = broker.calls := by
  unfold messageRequester
  split <;> rfl

@[simp] theorem calls_failTask (broker : TaskBroker) (taskId : String) (error : TaskError) :
    (broker.failTask taskId error).calls = broker.calls := by
  unfold failTask
  split
  · rfl
  · exact calls_messageRequester _ _ _

theorem calls_getRunnerOrFailTask (broker : TaskBroker) (taskId : String) :
    (broker.getRunnerOrFailTask taskId).1.calls = broker.calls := by
  unfold getRunnerOrFailTask
  split
  · rfl
  split
  · rfl
  · exact calls_failTask _ _ _

theorem ledger_sendTaskSettings (broker : TaskBroker) (hcall : broker.calls[k]? = some call)
    (hmade : call.phase.stage = .made) (taskId : String) (settings : Json) :
    (broker.sendTaskSettings k taskId settings).ledger =
      (broker.getRunnerOrFailTask taskId).1.ledger := by
  have hcall' : (broker.getRunnerOrFailTask taskId).1.calls[k]? = some call := by
    rw [calls_getRunnerOrFailTask, hcall]
  simp only [sendTaskSettings]
  split
  · split <;> exact ledger_setPhase_of_stage_eq _ hcall' hmade.symm
  · rename_i hhas
    have hget : broker.tasks.get? taskId = none := by
      simpa [Tasks.has, OrderedMap.has, Tasks.get?] using hhas
    have hphase : (broker.setPhase k .finished).ledger = broker.ledger :=
      ledger_setPhase_of_stage_eq broker hcall hmade.symm
    simp only [getRunnerOrFailTask, hget, hphase]

theorem ledger_passToRunner (broker : TaskBroker) (taskId : String)
    (response : RequesterResponse) :
    (broker.passToRunner taskId response).ledger =
      (broker.getRunnerOrFailTask taskId).1.ledger := by
  simp only [passToRunner]
  split
  · rfl
  · exact ledger_suspend _ rfl

/-! ## Runners that leave -/

@[simp] theorem requesters_settleRunner (broker : TaskBroker) (taskId : String)
    (state : PromiseState) :
    (broker.settleRunner taskId state).requesters = broker.requesters := by
  unfold settleRunner settlePromise
  split
  · rfl
  · split <;> rfl

@[simp] theorem tasks_settleRunner (broker : TaskBroker) (taskId : String) (state : PromiseState) :
    (broker.settleRunner taskId state).tasks = broker.tasks := by
  unfold settleRunner settlePromise
  split
  · rfl
  · split <;> rfl

@[simp] theorem requesters_messageRequester (broker : TaskBroker) (requesterId : String)
    (message : ToRequester) :
    (broker.messageRequester requesterId message).requesters = broker.requesters := by
  unfold messageRequester
  split <;> rfl

@[simp] theorem tasks_messageRequester (broker : TaskBroker) (requesterId : String)
    (message : ToRequester) :
    (broker.messageRequester requesterId message).tasks = broker.tasks := by
  unfold messageRequester
  split <;> rfl

@[simp] theorem requesters_failTask (broker : TaskBroker) (taskId : String) (error : TaskError) :
    (broker.failTask taskId error).requesters = broker.requesters := by
  unfold failTask
  split
  · rfl
  · exact requesters_messageRequester _ _ _

theorem get?_failTask {broker : TaskBroker} {taskId' : String} {error : TaskError} {task : Task}
    (h : (broker.failTask taskId error).tasks.get? taskId' = some task) :
    broker.tasks.get? taskId' = some task := by
  unfold failTask at h
  split at h
  · exact h
  · rw [tasks_messageRequester, Tasks.get?, Tasks.delete, OrderedMap.get?_delete] at h
    split_ifs at h
    exact h

variable {broker' : TaskBroker}

/-- One after another the tasks of the runner fail. -/
theorem ledger_foldl_failTaskOf {broker : TaskBroker} {runnerId : String} (error : String)
    {tasks : List Task} (htasks : ∀ task ∈ tasks, broker.tasks.get? task.id = some task) (hrequesters : broker'.requesters = broker.requesters)
    (hget : ∀ taskId task, broker'.tasks.get? taskId = some task →
      broker.tasks.get? taskId = some task) :
    ∃ failed : List (String × Bool),
      (∀ x ∈ failed, (∃ task, broker.tasks.get? x.1 = some task ∧ task.runnerId = runnerId) ∧
        (x.2 = true → broker.hears x.1 = true)) ∧
      (tasks.foldl (failTaskOf runnerId error) broker').ledger = broker'.ledger.failAll failed := by
  induction tasks generalizing broker' with
  | nil => exact ⟨[], by simp, rfl⟩
  | cons task tasks ih =>
    have htasks' : ∀ t ∈ tasks, broker.tasks.get? t.id = some t :=
      fun t ht => htasks t (List.mem_cons_of_mem _ ht)
    by_cases hrunner : task.runnerId = runnerId
    · have hhears : broker'.hears task.id = true → broker.hears task.id = true := by
        simp only [hears_iff, hrequesters]
        rintro ⟨t, ht, hreg⟩
        exact ⟨t, hget _ t ht, hreg⟩
      have hrequesters' :
          (failTaskOf runnerId error broker' task).requesters = broker.requesters := by
        simp [failTaskOf, hrunner, handleRunnerReject, hrequesters]
      have hget' : ∀ taskId t, (failTaskOf runnerId error broker' task).tasks.get? taskId = some t →
          broker.tasks.get? taskId = some t := by
        intro taskId t ht
        have hfail : (broker'.failTask task.id (.disconnected error)).tasks.get? taskId = some t := by
          simpa [failTaskOf, hrunner, handleRunnerReject] using ht
        exact hget taskId t (get?_failTask hfail)
      obtain ⟨failed, hfailed, hledger⟩ := ih htasks' hrequesters' hget'
      refine ⟨(task.id, broker'.hears task.id) :: failed, ?_, ?_⟩
      · rintro x hx
        rcases List.mem_cons.mp hx with rfl | hx
        · exact ⟨⟨task, htasks task List.mem_cons_self, hrunner⟩, hhears⟩
        · exact hfailed x hx
      · rw [List.foldl_cons, hledger]
        simp [failTaskOf, hrunner, handleRunnerReject, ledger_failTask, TaskLedger.failAll]
    · have hskip : failTaskOf runnerId error broker' task = broker' := if_neg hrunner
      obtain ⟨failed, hfailed, hledger⟩ := ih htasks' hrequesters hget
      exact ⟨failed, hfailed, by rw [List.foldl_cons, hskip, hledger]⟩

theorem ledger_deregisterRunner (broker : TaskBroker) (runnerId error : String) :
    ∃ failed : List (String × Bool),
      (∀ x ∈ failed, (∃ task, broker.tasks.get? x.1 = some task ∧ task.runnerId = runnerId) ∧
        (x.2 = true → broker.hears x.1 = true)) ∧
      (broker.deregisterRunner runnerId error).ledger =
        { broker.ledger with
          offers := broker.ledger.offers.filter fun o => o.runnerId ≠ runnerId }.failAll failed := by
  have htasks : ∀ task ∈ broker.tasks.values, broker.tasks.get? task.id = some task := by
    intro task htask
    obtain ⟨taskId, hget⟩ := OrderedMap.mem_values_iff.mp htask
    have hget' : broker.tasks.get? taskId = some task := hget
    rw [Tasks.id_of_get? hget', hget']
  exact ledger_foldl_failTaskOf error htasks rfl fun _ _ h => h

/-! ## Steps -/

/-- The tasks for which a step calls a handler that ends a task and tells its requester. -/
def endedTasks (config : TaskRunnersConfig) (nanoid : ℕ → String) (broker : TaskBroker) :
    BrokerEvent → List String
  | .deregisterRunner runnerId _ =>
    (broker.tasks.values.filter fun task => task.runnerId = runnerId).map (·.id)
  | .runnerMessage runnerId (.taskDone taskId _) =>
    if broker.knownRunners.has runnerId then [taskId] else []
  | .runnerMessage runnerId (.taskError taskId _) =>
    if broker.knownRunners.has runnerId then [taskId] else []
  | .requesterMessage _ (.taskDataResponse taskId _ _) =>
    if broker.lacksRunner taskId then [taskId] else []
  | .requesterMessage _ (.nodeTypesResponse taskId _ _) =>
    if broker.lacksRunner taskId then [taskId] else []
  | .requesterMessage _ (.rpcResponse taskId _ _ _) =>
    if broker.lacksRunner taskId then [taskId] else []
  | .timerFires timer =>
    match broker.timers[timer]?, config.mode with
    | some (some (.task taskId)), .internal => [taskId]
    | _, _ => []
  | .methodResumes i .resolved =>
    match broker.suspended[i]? with
    | some (.taskTimeout taskId) => [taskId]
    | _ => []
  | .acceptResumes k _ =>
    match broker.calls[k]?.map AcceptCall.phase with
    | some (.awaitingSettings promise) =>
      match broker.promises[promise]? with
      | some (.fulfilled _) => if broker.lacksRunner (nanoid k) then [nanoid k] else []
      | _ => []
    | _ => []
  | _ => []

/-- What becomes of the ledger in a step. -/
inductive Effect (config : TaskRunnersConfig) (nanoid : ℕ → String) (broker : TaskBroker) :
    BrokerEvent → TaskLedger → Prop
  | changes {event : BrokerEvent} {ledger : TaskLedger}
      (h : ReflTransGen (Change nanoid) broker.ledger ledger) :
      Effect config nanoid broker event ledger
  /-- The runner has accepted. -/
  | accept {k promise : ℕ} {callback : CallbackOutcome} {call : AcceptCall} {data : TaskRequest}
      {value : Json} (h : broker.AcceptAt k call data) (hphase : call.phase = .awaitingRunner promise)
      (hpromise : broker.promises[promise]? = some (.fulfilled value)) :
      Effect config nanoid broker (.acceptResumes k callback)
        (broker.ledger.accept (nanoid k) k call.entry data.entry
          (broker.findRequest data.requestId) (data.requesterId ∈ broker.requesters))
  | fail {event : BrokerEvent} (keep : TaskOffer → Bool) {failed : List (String × Bool)}
      (hended : ∀ x ∈ failed, x.1 ∈ broker.endedTasks config nanoid event)
      (hhears : ∀ x ∈ failed, x.2 = true → broker.hears x.1 = true) :
      Effect config nanoid broker event
        ({ broker.ledger with offers := broker.ledger.offers.filter keep }.failAll failed)
  | deliver {event : BrokerEvent} {taskId : String} {task : Task}
      (hended : taskId ∈ broker.endedTasks config nanoid event)
      (hget : broker.tasks.get? taskId = some task) :
      Effect config nanoid broker event (broker.ledger.deliver taskId (broker.recipient task))
  /-- The callback that a delivery awaits is rejected. -/
  | lose {i : ℕ} {method : Suspended} {x : String × Option String}
      {before after : List (String × Option String)} (hmethod : broker.suspended[i]? = some method)
      (hentry : method.entry = some x) (h : broker.ledger.deliveries = before ++ x :: after) :
      Effect config nanoid broker (.methodResumes i .rejected)
        { broker.ledger with deliveries := before ++ after }

variable {config : TaskRunnersConfig} {nanoid : ℕ → String} {broker : TaskBroker}

variable {event : BrokerEvent}

theorem Effect.same {ledger : TaskLedger} (h : ledger = broker.ledger) :
    Effect config nanoid broker event ledger := by
  rw [h]
  exact .changes .refl

theorem effect_deliver (message : String → ToRequester)
    (hledger : broker'.ledger = broker.ledger) (htasks : broker'.tasks = broker.tasks)
    (hrequesters : broker'.requesters = broker.requesters)
    (hended : taskId ∈ broker.endedTasks config nanoid event)
    (hmessage : ∀ requesterId id,
      (LogEntry.toRequester requesterId (message id)).ready? = none ∧
        (LogEntry.toRequester requesterId (message id)).ended? = some id) :
    Effect config nanoid broker event (broker'.deliver taskId message).ledger := by
  cases hget : broker.tasks.get? taskId with
  | none =>
    have hget' : broker'.tasks.get? taskId = none := by rw [htasks, hget]
    simp only [deliver, hget']
    exact .same hledger
  | some task =>
    have hget' : broker'.tasks.get? taskId = some task := by rw [htasks, hget]
    have hrecipient : broker'.recipient task = broker.recipient task := by
      simp only [recipient, hrequesters]
    rw [ledger_deliver broker' hget' (hmessage _ _).1 (hmessage _ _).2, hledger, hrecipient]
    exact .deliver hended hget

theorem effect_timeOutTask (hledger : broker'.ledger = broker.ledger)
    (htasks : broker'.tasks = broker.tasks) (hrequesters : broker'.requesters = broker.requesters)
    (hended : taskId ∈ broker.endedTasks config nanoid event) :
    Effect config nanoid broker event (broker'.timeOutTask config taskId).ledger :=
  effect_deliver (fun id => .taskError id _) hledger htasks hrequesters hended
    fun _ _ => ⟨rfl, rfl⟩

/-- A step in which `getRunnerOrFailTask` is called. -/
theorem effect_getRunnerOrFailTask
    (hended : broker.lacksRunner taskId = true → taskId ∈ broker.endedTasks config nanoid event) :
    Effect config nanoid broker event (broker.getRunnerOrFailTask taskId).1.ledger := by
  rw [ledger_getRunnerOrFailTask]
  split_ifs with hlacks
  · have hkeep : { broker.ledger with offers := broker.ledger.offers.filter fun _ => true } =
        broker.ledger := by rw [List.filter_true]
    have hfail : Effect config nanoid broker event
        ({ broker.ledger with offers := broker.ledger.offers.filter fun _ => true }.failAll
          [(taskId, broker.hears taskId)]) :=
      .fail _ (by simpa using hended hlacks) (by simp)
    rw [hkeep] at hfail
    exact hfail
  · exact .same rfl

theorem effect_passToRunner (response : RequesterResponse)
    (hended : broker.lacksRunner taskId = true → taskId ∈ broker.endedTasks config nanoid event) :
    Effect config nanoid broker event (broker.passToRunner taskId response).ledger := by
  rw [ledger_passToRunner]
  exact effect_getRunnerOrFailTask hended

theorem ledger_passToRequester (broker : TaskBroker) (taskId : String) {message : ToRequester}
    (hmessage : ∀ requesterId, (LogEntry.toRequester requesterId message).ready? = none ∧
      (LogEntry.toRequester requesterId message).ended? = none) :
    (broker.passToRequester taskId message).ledger = broker.ledger := by
  unfold passToRequester
  split
  · rfl
  · exact ledger_messageRequester _ _ (hmessage _).1 (hmessage _).2

theorem onRunnerMessage_effect (runnerId : String) (message : RunnerMessage) :
    Effect config nanoid broker (.runnerMessage runnerId message)
      (broker.onRunnerMessage nanoid runnerId message).ledger := by
  unfold onRunnerMessage
  split
  case isFalse => exact .same rfl
  case isTrue hknown =>
    cases message with
    | info => exact .same rfl
    | taskAccepted taskId => exact .same (ledger_settleRunner ..)
    | taskRejected taskId reason => exact .same (ledger_settleRunner ..)
    | taskDeferred taskId => exact .same (ledger_settleRunner ..)
    | taskOffer offerId taskType validFor offeredAt now =>
      exact .changes (taskOffered_changes nanoid broker rfl now)
    | taskDone taskId data =>
      exact effect_deliver _ rfl rfl rfl (by simp [endedTasks, hknown]) fun _ _ => ⟨rfl, rfl⟩
    | taskError taskId error =>
      exact effect_deliver _ rfl rfl rfl (by simp [endedTasks, hknown]) fun _ _ => ⟨rfl, rfl⟩
    | taskDataRequest taskId requestId requestParams =>
      exact .same (ledger_passToRequester broker taskId fun _ => ⟨rfl, rfl⟩)
    | nodeTypesRequest taskId requestId requestParams =>
      exact .same (ledger_passToRequester broker taskId fun _ => ⟨rfl, rfl⟩)
    | rpc taskId callId name params =>
      exact .same (ledger_passToRequester broker taskId fun _ => ⟨rfl, rfl⟩)

theorem onRequesterMessage_effect (requesterId : String) (message : RequesterMessage) :
    Effect config nanoid broker (.requesterMessage requesterId message)
      (broker.onRequesterMessage nanoid requesterId message).ledger := by
  cases message with
  | taskSettings taskId settings => exact .same (ledger_settleRequester ..)
  | taskCancel taskId reason =>
    simp only [onRequesterMessage, ledger_cancelTask]
    exact .changes (.single (.cancel broker.ledger taskId))
  | taskRequest requestId taskType now =>
    exact .changes (taskRequested_changes nanoid (broker.createRequestTimeout requestId) rfl now)
  | taskDataResponse taskId requestId data =>
    exact effect_passToRunner _ fun h => by simp [endedTasks, h]
  | nodeTypesResponse taskId requestId nodeTypes =>
    exact effect_passToRunner _ fun h => by simp [endedTasks, h]
  | rpcResponse taskId callId status data =>
    exact effect_passToRunner _ fun h => by simp [endedTasks, h]

theorem handleTaskTimeout_effect {timer : ℕ}
    (htimer : broker.timers[timer]? = some (some (.task taskId))) :
    Effect config nanoid broker (.timerFires timer)
      ((broker.clearTimeout (some timer)).handleTaskTimeout config taskId).ledger := by
  cases hget : broker.tasks.get? taskId with
  | none =>
    have hget' : (broker.clearTimeout (some timer)).tasks.get? taskId = none := hget
    simp only [handleTaskTimeout, hget']
    exact .same rfl
  | some task =>
    have hget' : (broker.clearTimeout (some timer)).tasks.get? taskId = some task := hget
    cases hmode : config.mode with
    | internal =>
      have hended : taskId ∈ broker.endedTasks config nanoid (.timerFires timer) := by
        simp [endedTasks, htimer, hmode]
      simp only [handleTaskTimeout, hget', hmode]
      exact effect_timeOutTask (ledger_clearTimeout broker (some timer)) rfl rfl hended
    | external =>
      simp only [handleTaskTimeout, hget', hmode]
      rw [ledger_messageRunner _ _ rfl, ledger_suspend _ rfl]
      exact .same rfl

theorem onTimer_effect {timer : ℕ} {t : Timer} (htimer : broker.timers[timer]? = some (some t)) :
    Effect config nanoid broker (.timerFires timer)
      ((broker.clearTimeout (some timer)).onTimer config t).ledger := by
  cases t with
  | request requestId =>
    exact .changes (handleRequestTimeout_changes nanoid (broker.clearTimeout (some timer)) requestId)
  | runnerAccept promise taskId runnerId => exact .same (ledger_settlePromise ..)
  | requesterAccept promise => exact .same (ledger_settlePromise ..)
  | task taskId => exact handleTaskTimeout_effect htimer

theorem ledger_eraseIdx (broker : TaskBroker) {i : ℕ} {method : Suspended}
    (hmethod : broker.suspended[i]? = some method) :
    ∃ before after, broker.ledger.deliveries = before ++ method.entry.toList ++ after ∧
      { broker with suspended := broker.suspended.eraseIdx i }.ledger =
        { broker.ledger with deliveries := before ++ after } := by
  obtain ⟨before, after, hbefore, hafter⟩ := exists_split_of_eraseIdx (f := Suspended.entry) hmethod
  exact ⟨before, after, hbefore, by simp only [ledger, hafter]⟩

theorem ledger_eraseIdx_of_entry_eq_none (broker : TaskBroker) {i : ℕ} {method : Suspended}
    (hmethod : broker.suspended[i]? = some method) (hentry : method.entry = none) :
    { broker with suspended := broker.suspended.eraseIdx i }.ledger = broker.ledger := by
  obtain ⟨before, after, hdeliveries, herase⟩ := ledger_eraseIdx broker hmethod
  have hsame : before ++ after = broker.ledger.deliveries := by
    simpa [hentry] using hdeliveries.symm
  rw [herase, hsame]

theorem methodResumes_effect {i : ℕ} {method : Suspended}
    (hmethod : broker.suspended[i]? = some method) (callback : CallbackOutcome) :
    Effect config nanoid broker (.methodResumes i callback)
      (resume config { broker with suspended := broker.suspended.eraseIdx i } method
        callback).ledger := by
  cases method with
  | delivery taskId requesterId =>
    obtain ⟨before, after, hdeliveries, herase⟩ := ledger_eraseIdx broker hmethod
    have hdeliveries' : broker.ledger.deliveries = before ++ (taskId, requesterId) :: after := by
      simpa [Suspended.entry] using hdeliveries
    cases callback with
    | resolved =>
      simp only [resume]
      rw [ledger_delete { broker with suspended := broker.suspended.eraseIdx i }, herase]
      exact .changes (.single (.conclude broker.ledger taskId requesterId before after hdeliveries'))
    | rejected =>
      simp only [resume]
      rw [herase]
      exact .lose hmethod rfl hdeliveries'
  | taskTimeout taskId =>
    have hsame := ledger_eraseIdx_of_entry_eq_none broker hmethod rfl
    cases callback with
    | resolved => exact effect_timeOutTask hsame rfl rfl (by simp [endedTasks, hmethod])
    | rejected => exact .same hsame
  | response runnerId taskId response =>
    have hsame := ledger_eraseIdx_of_entry_eq_none broker hmethod rfl
    exact .same ((ledger_messageRunner _ _ rfl).trans hsame)

/-- The request that waits again after this step, because its accept was refused. -/
def refusedRequest (broker : TaskBroker) : BrokerEvent → Option ℕ
  | .acceptResumes k callback =>
    match broker.calls[k]? with
    | none => none
    | some call =>
      match call.phase, callback with
      | .messagingRunner _, .rejected => some call.request
      | .awaitingRunner promise, _ =>
        match broker.promises[promise]? with
        | some (.rejected _) => some call.request
        | _ => none
      | _, _ => none
  | _ => none

/-- What becomes of the ledger when a call of `acceptOffer` goes on. -/
inductive Resumed (nanoid : ℕ → String) (broker : TaskBroker) (k : ℕ) (call : AcceptCall)
    (data : TaskRequest) (callback : CallbackOutcome) : TaskLedger → Prop
  | goesOn : Resumed nanoid broker k call data callback broker.ledger
  | refused (hopen : call.phase.stage = .open)
      (hrefused : broker.refusedRequest (.acceptResumes k callback) = some call.request) :
      Resumed nanoid broker k call data callback
        (broker.ledger.refuse k call.entry data.entry)
  | accepted {promise : ℕ} {value : Json} (hphase : call.phase = .awaitingRunner promise)
      (hpromise : broker.promises[promise]? = some (.fulfilled value)) :
      Resumed nanoid broker k call data callback
        (broker.ledger.accept (nanoid k) k call.entry data.entry
          (broker.findRequest data.requestId) (data.requesterId ∈ broker.requesters))
  | settingsSent {promise : ℕ} {settings : Json} (hphase : call.phase = .awaitingSettings promise)
      (hpromise : broker.promises[promise]? = some (.fulfilled settings)) :
      Resumed nanoid broker k call data callback (broker.getRunnerOrFailTask (nanoid k)).1.ledger
  | givenUp : Resumed nanoid broker k call data callback (broker.ledger.removeTask (nanoid k))

theorem resumed (h : broker.AcceptAt k call data) {callback : CallbackOutcome}
    (hstep : broker.resumeAccept nanoid k call data callback = .ok broker') :
    Resumed nanoid broker k call data callback broker'.ledger := by
  have hgoesOn : ∀ phase : AcceptPhase, phase.stage = call.phase.stage →
      Resumed nanoid broker k call data callback (broker.setPhase k phase).ledger := by
    intro phase hstage
    rw [ledger_setPhase_of_stage_eq broker h.atCall hstage]
    exact .goesOn
  have hgivenUp : ∀ reason, call.phase.stage = .made →
      Resumed nanoid broker k call data callback (broker.giveUp k (nanoid k) reason).ledger := by
    intro reason hmade
    rw [ledger_giveUp broker h.atCall hmade]
    exact .givenUp
  cases hphase : call.phase with
  | messagingRunner promise =>
    have hopen : call.phase.stage = .open := by rw [hphase]; rfl
    cases callback with
    | resolved =>
      simp only [resumeAccept, hphase] at hstep
      cases hstep
      exact hgoesOn _ hopen.symm
    | rejected =>
      simp only [resumeAccept, hphase] at hstep
      cases hstep
      rw [ledger_refuse broker h]
      exact .refused hopen (by simp [refusedRequest, h.atCall, hphase])
  | awaitingRunner promise =>
    have hopen : call.phase.stage = .open := by rw [hphase]; rfl
    simp only [resumeAccept, hphase] at hstep
    split at hstep
    case h_1 value hpromise =>
      cases hstep
      rw [ledger_addTask broker h]
      exact .accepted hphase hpromise
    case h_2 reason hpromise =>
      cases hstep
      rw [ledger_refuse broker h]
      exact .refused hopen (by simp [refusedRequest, h.atCall, hphase, hpromise])
    case h_3 => cases hstep
  | refused => simp [resumeAccept, hphase] at hstep
  | messagingRequester promise =>
    have hmade : call.phase.stage = .made := by rw [hphase]; rfl
    cases callback with
    | resolved =>
      simp only [resumeAccept, hphase] at hstep
      cases hstep
      exact hgoesOn _ hmade.symm
    | rejected =>
      simp only [resumeAccept, hphase] at hstep
      cases hstep
      exact hgivenUp none hmade
  | awaitingSettings promise =>
    have hmade : call.phase.stage = .made := by rw [hphase]; rfl
    simp only [resumeAccept, hphase] at hstep
    split at hstep
    case h_1 settings hpromise =>
      cases hstep
      rw [ledger_sendTaskSettings broker h.atCall hmade]
      exact .settingsSent hphase hpromise
    case h_2 reason hpromise =>
      cases hstep
      exact hgivenUp (some reason) hmade
    case h_3 => cases hstep
  | checkingRunner settings =>
    have hmade : call.phase.stage = .made := by rw [hphase]; rfl
    simp only [resumeAccept, hphase] at hstep
    cases hstep
    rw [ledger_startTask broker h.atCall hmade]
    exact .goesOn
  | runnerMissing =>
    simp only [resumeAccept, hphase] at hstep
    cases hstep
    exact hgivenUp none (by rw [hphase]; rfl)
  | messagingSettings =>
    have hmade : call.phase.stage = .made := by rw [hphase]; rfl
    cases callback with
    | resolved =>
      simp only [resumeAccept, hphase] at hstep
      cases hstep
      exact hgoesOn _ hmade.symm
    | rejected =>
      simp only [resumeAccept, hphase] at hstep
      cases hstep
      exact hgivenUp none hmade
  | finished => simp [resumeAccept, hphase] at hstep

theorem Resumed.effect {callback : CallbackOutcome} {ledger : TaskLedger}
    (h : broker.AcceptAt k call data)
    (hresumed : Resumed nanoid broker k call data callback ledger) :
    Effect config nanoid broker (.acceptResumes k callback) ledger := by
  cases hresumed with
  | goesOn => exact .same rfl
  | refused hopen hrefused =>
    exact .changes
      (.single (.refuse broker.ledger k call.entry data.entry h.matched hopen h.entry))
  | accepted hphase hpromise => exact .accept h hphase hpromise
  | settingsSent hphase hpromise =>
    refine effect_getRunnerOrFailTask fun hlacks => ?_
    simp [endedTasks, h.atCall, hphase, hpromise, hlacks]
  | givenUp => exact .changes (.single (.cancel broker.ledger (nanoid k)))

/-- What a step can do. -/
theorem step_effect (h : broker.step config nanoid event = .ok broker') :
    Effect config nanoid broker event broker'.ledger := by
  cases event with
  | registerRunner runner =>
    cases h
    exact .same (ledger_messageRunner _ _ rfl)
  | deregisterRunner runnerId error =>
    cases h
    obtain ⟨failed, hfailed, hledger⟩ := ledger_deregisterRunner broker runnerId error
    rw [hledger]
    refine .fail _ (fun x hx => ?_) fun x hx => (hfailed x hx).2
    obtain ⟨task, hget, hrunner⟩ := (hfailed x hx).1
    have hvalue : task ∈ broker.tasks.values := OrderedMap.mem_values_iff.mpr ⟨x.1, hget⟩
    exact List.mem_map.mpr
      ⟨task, List.mem_filter.mpr ⟨hvalue, by simpa using hrunner⟩, Tasks.id_of_get? hget⟩
  | registerRequester requesterId =>
    cases h
    exact .same rfl
  | deregisterRequester requesterId =>
    cases h
    exact .same rfl
  | runnerMessage runnerId message =>
    cases h
    exact onRunnerMessage_effect runnerId message
  | requesterMessage requesterId message =>
    cases h
    exact onRequesterMessage_effect requesterId message
  | requesterReject taskId reason =>
    cases h
    exact .same (ledger_settleRequester ..)
  | timerFires timer =>
    simp only [step] at h
    split at h
    case h_1 t htimer =>
      cases h
      exact onTimer_effect htimer
    case h_2 => cases h
  | acceptResumes k callback =>
    simp only [step] at h
    split at h
    case h_1 => cases h
    case h_2 call hcall =>
      split at h
      case h_1 => cases h
      case h_2 data hdata =>
        have hat : broker.AcceptAt k call data := ⟨hcall, hdata⟩
        exact (resumed hat h).effect hat
  | methodResumes i callback =>
    simp only [step] at h
    split at h
    case h_1 => cases h
    case h_2 method hmethod =>
      cases h
      exact methodResumes_effect hmethod callback
  | startDraining =>
    cases h
    exact .same rfl
  | stopDraining =>
    cases h
    exact .same rfl

end TaskBroker

end N8n
