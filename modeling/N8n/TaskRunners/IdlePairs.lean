import N8n.TaskRunners.BrokerEffects

/-!
# Requests and offers that wait for each other

`settleTasks` leaves no pending request without an accept in progress that an offer of its
type is pending for (`settleTasks_noIdlePair`). It runs when an offer or a request comes in,
and nothing else adds to what is pending (`step_pairing`); but a request whose accept is
refused waits again, and nothing is settled then (`run_idlePair`).

In a run in which no refusal leaves an offer of the type of its request that is still valid
(`refusesUnmatched`), no such pair is ever left (`run_noIdlePair`).
-/

open Lib

namespace N8n

/-! ## The ledger -/

namespace TaskLedger

variable {ledger ledger' : TaskLedger} {now : ℤ} {request : ℕ} {offer : TaskOffer}

/-- A pending request that is not being accepted, and a valid pending offer of its type. -/
def IdlePair (ledger : TaskLedger) (now : ℤ) (request : ℕ) (offer : TaskOffer) : Prop :=
  request ∈ ledger.pending ∧ offer ∈ ledger.offers ∧ offer.isValid now = true ∧
    ∃ entry, ledger.requests[request]? = some entry ∧ entry.busy = false ∧
      offer.taskType = entry.taskType

/-- What is pending are requests that were made. -/
def PendingMade (ledger : TaskLedger) : Prop :=
  ∀ request ∈ ledger.pending, request < ledger.requests.length

/-- Nothing more is pending than before. -/
structure Eases (ledger ledger' : TaskLedger) : Prop where
  offers : ledger'.offers ⊆ ledger.offers
  pending : ledger'.pending ⊆ ledger.pending
  requests : ledger.requests <+: ledger'.requests

theorem Eases.refl (ledger : TaskLedger) : ledger.Eases ledger :=
  ⟨List.Subset.refl _, List.Subset.refl _, List.prefix_refl _⟩

theorem Eases.of_eq (h : ledger' = ledger) : ledger.Eases ledger' := h ▸ Eases.refl ledger

theorem Eases.trans {ledger'' : TaskLedger} (h : ledger.Eases ledger') (h' : ledger'.Eases ledger'') :
    ledger.Eases ledger'' :=
  ⟨List.Subset.trans h'.offers h.offers, List.Subset.trans h'.pending h.pending,
    h.requests.trans h'.requests⟩

theorem Eases.idlePair (h : ledger.Eases ledger') (hmade : ledger.PendingMade)
    (hpair : ledger'.IdlePair now request offer) : ledger.IdlePair now request offer := by
  obtain ⟨hrequest, hoffer, hvalid, entry, hentry, hidle⟩ := hpair
  have hlt := hmade request (h.pending hrequest)
  obtain ⟨more, hmore⟩ := h.requests
  rw [← hmore, List.getElem?_append_left hlt] at hentry
  exact ⟨h.pending hrequest, h.offers hoffer, hvalid, entry, hentry, hidle⟩

/-- No offer of the type of the request is pending, or the request is being accepted. -/
def Settled (ledger : TaskLedger) (request : ℕ) : Prop :=
  ∀ entry, ledger.requests[request]? = some entry → entry.busy = false →
    ∀ offer ∈ ledger.offers, offer.taskType ≠ entry.taskType

theorem eases_removeTask (ledger : TaskLedger) (taskId : String) :
    ledger.Eases (ledger.removeTask taskId) :=
  ⟨List.Subset.refl _, List.Subset.refl _, List.prefix_refl _⟩

theorem eases_withdraw (ledger : TaskLedger) (keep : TaskOffer → Bool) :
    ledger.Eases { ledger with offers := ledger.offers.filter keep } :=
  ⟨fun _ h => List.mem_of_mem_filter h, List.Subset.refl _, List.prefix_refl _⟩

theorem eases_deliver (ledger : TaskLedger) (taskId : String) (requester : Option String) :
    ledger.Eases (ledger.deliver taskId requester) :=
  ⟨List.Subset.refl _, List.Subset.refl _, List.prefix_refl _⟩

theorem eases_fail (ledger : TaskLedger) (taskId : String) (reachable : Bool) :
    ledger.Eases (ledger.fail taskId reachable) := by
  unfold fail
  split
  · exact ⟨List.Subset.refl _, List.Subset.refl _, List.prefix_refl _⟩
  · exact Eases.refl ledger

theorem eases_failAll (ledger : TaskLedger) (failed : List (String × Bool)) :
    ledger.Eases (ledger.failAll failed) := by
  induction failed generalizing ledger with
  | nil => exact Eases.refl ledger
  | cons x failed ih => exact (eases_fail ledger x.1 x.2).trans (ih _)

theorem eases_accept (ledger : TaskLedger) (taskId : String) (k : ℕ) (m : OfferMatch)
    (entry : LedgerRequest) (found : Option ℕ) (reachable : Bool) :
    ledger.Eases (ledger.accept taskId k m entry found reachable) := by
  refine ⟨List.Subset.refl _, ?_, List.prefix_refl _⟩
  cases found with
  | none => exact List.Subset.refl _
  | some request => exact List.erase_subset

theorem eases_expire (ledger : TaskLedger) (request : ℕ) (told : List ℕ) :
    ledger.Eases { ledger with
      pending := ledger.pending.erase request
      expired := ledger.expired ++ told } :=
  ⟨List.Subset.refl _, List.erase_subset, List.prefix_refl _⟩

/-! ### Pending requests were made -/

theorem PendingMade.mono (h : ledger.PendingMade) (hpending : ledger'.pending ⊆ ledger.pending)
    (hrequests : ledger.requests.length ≤ ledger'.requests.length) : ledger'.PendingMade :=
  fun request hr => Nat.lt_of_lt_of_le (h request (hpending hr)) hrequests

theorem Eases.pendingMade (h : ledger.Eases ledger') (hmade : ledger.PendingMade) :
    ledger'.PendingMade :=
  hmade.mono h.pending h.requests.length_le

theorem Change.pendingMade {nanoid : ℕ → String} (h : Change nanoid ledger ledger')
    (hmade : ledger.PendingMade) : ledger'.PendingMade := by
  cases h with
  | offer offer href => exact hmade
  | withdraw keep => exact hmade
  | request entry hbusy =>
    intro request hr
    rw [List.length_append, List.length_singleton]
    rcases List.mem_append.mp hr with hr | hr
    · exact Nat.lt_succ_of_lt (hmade request hr)
    · rw [List.mem_singleton.mp hr]
      exact Nat.lt_succ_self _
  | decline entry hbusy told htold => exact hmade.mono (List.Subset.refl _) (by simp)
  | expire request hrequest told htold => exact hmade.mono List.erase_subset (Nat.le_refl _)
  | choose request entry offer now sent hentry hbusy hoffer hvalid hsent =>
    exact hmade.mono (List.Subset.refl _) (Nat.le_of_eq List.length_set.symm)
  | refuse k m entry hk hopen hentry =>
    exact hmade.mono (List.Subset.refl _) (Nat.le_of_eq List.length_set.symm)
  | cancel taskId => exact hmade
  | conclude taskId requester before after h => exact hmade

end TaskLedger

namespace TaskBroker

variable {config : TaskRunnersConfig} {nanoid : ℕ → String} {broker broker' : TaskBroker}

/-- A pending request that is not being accepted, and a pending offer of its type that has not
expired. -/
def IdlePair (broker : TaskBroker) (now : ℤ) (request : ℕ) (offer : TaskOffer) : Prop :=
  request ∈ broker.pendingTaskRequests ∧ offer ∈ broker.pendingTaskOffers ∧
    offer.isValid now = true ∧ ∃ data, broker.requests[request]? = some data ∧
      data.acceptInProgress = false ∧ offer.taskType = data.taskType

theorem idlePair_ledger_iff {now : ℤ} {request : ℕ} {offer : TaskOffer} :
    broker.ledger.IdlePair now request offer ↔ broker.IdlePair now request offer := by
  simp only [TaskLedger.IdlePair, IdlePair, requests_ledger, Option.map_eq_some_iff]
  constructor
  · rintro ⟨hrequest, hoffer, hvalid, _, ⟨data, hdata, rfl⟩, hbusy, htype⟩
    exact ⟨hrequest, hoffer, hvalid, data, hdata, hbusy, htype⟩
  · rintro ⟨hrequest, hoffer, hvalid, data, hdata, hbusy, htype⟩
    exact ⟨hrequest, hoffer, hvalid, data.entry, ⟨data, hdata, rfl⟩, hbusy, htype⟩

/-! ## Settling -/

theorem settled_choose {ledger : TaskLedger} {request request' : ℕ} {entry : LedgerRequest}
    (hentry : ledger.requests[request']? = some entry) (offer : TaskOffer) (now : ℤ)
    (sent : List (String × String)) (h : ledger.Settled request ∨ request = request') :
    (ledger.choose request' entry offer now sent).Settled request := by
  intro e he hbusy o ho
  by_cases hr : request' = request
  · subst hr
    rw [TaskLedger.choose, List.getElem?_set_self (List.getElem?_eq_some_iff.mp hentry).1] at he
    cases he
    cases hbusy
  · rw [TaskLedger.choose, List.getElem?_set_ne hr] at he
    rcases h with h | rfl
    · exact h e he hbusy o (List.mem_of_mem_eraseP ho)
    · exact absurd rfl hr

/-- One iteration settles its request, and leaves settled what was. -/
theorem settleRequest_settles (nanoid : ℕ → String) (now : ℤ) (broker : TaskBroker)
    (request : ℕ) :
    (settleRequest nanoid now broker request).pendingTaskRequests = broker.pendingTaskRequests ∧
      ∀ request', broker.ledger.Settled request' ∨ request' = request →
        (settleRequest nanoid now broker request).ledger.Settled request' := by
  have hsame : ∀ b : TaskBroker, b.ledger = broker.ledger → broker.ledger.Settled request →
      b.pendingTaskRequests = broker.pendingTaskRequests ∧
        ∀ request', broker.ledger.Settled request' ∨ request' = request →
          b.ledger.Settled request' := by
    intro b hb hsettled
    refine ⟨congrArg TaskLedger.pending hb, fun request' h => ?_⟩
    rw [hb]
    rcases h with h | rfl
    · exact h
    · exact hsettled
  have hentry := requests_ledger broker request
  cases hdata : broker.requests[request]? with
  | none =>
    have hresult : settleRequest nanoid now broker request = broker := by
      simp only [settleRequest, hdata]
    rw [hresult]
    refine hsame broker rfl fun e he => ?_
    rw [hentry, hdata] at he
    cases he
  | some data =>
    rw [hdata, Option.map_some] at hentry
    cases hbusy : data.acceptInProgress with
    | true =>
      have hresult : settleRequest nanoid now broker request = broker := by
        simp only [settleRequest, hdata, hbusy, if_true]
      rw [hresult]
      refine hsame broker rfl fun e he hidle => ?_
      rw [hentry] at he
      cases he
      exact absurd (hbusy.symm.trans hidle) (by decide)
    | false =>
      cases hoffer : broker.pendingTaskOffers.find? fun o => o.taskType == data.taskType with
      | none =>
        simp only [settleRequest, hdata, hbusy, Bool.false_eq_true, if_false, hoffer]
        refine hsame _ (ledger_warnOnTaskTypeMismatch broker data) fun e he _ o ho => ?_
        rw [hentry] at he
        cases he
        exact fun htype => List.find?_eq_none.mp hoffer o ho (beq_iff_eq.mpr htype)
      | some offer =>
        obtain ⟨sent, -, hledger⟩ :=
          ledger_settleRequest_of_find nanoid now broker hdata hbusy hoffer
        refine ⟨congrArg TaskLedger.pending hledger, fun request' h => ?_⟩
        rw [hledger]
        exact settled_choose hentry offer now sent h

/-- After `settleTasks` no pending request waits next to an offer of its type. -/
theorem settleTasks_noIdlePair (nanoid : ℕ → String) (broker : TaskBroker) (settledAt now : ℤ)
    (request : ℕ) (offer : TaskOffer) :
    ¬(broker.settleTasks nanoid settledAt).IdlePair now request offer := by
  have hfold : ∀ (requests : List ℕ) (broker : TaskBroker),
      (requests.foldl (settleRequest nanoid settledAt) broker).pendingTaskRequests =
          broker.pendingTaskRequests ∧
        ∀ request, broker.ledger.Settled request ∨ request ∈ requests →
          (requests.foldl (settleRequest nanoid settledAt) broker).ledger.Settled request := by
    intro requests
    induction requests with
    | nil => exact fun broker => ⟨rfl, fun request h => h.resolve_right List.not_mem_nil⟩
    | cons r requests ih =>
      intro broker
      obtain ⟨hpending, hsettles⟩ := settleRequest_settles nanoid settledAt broker r
      obtain ⟨hpending', hsettles'⟩ := ih (settleRequest nanoid settledAt broker r)
      refine ⟨hpending'.trans hpending, fun request h => hsettles' request ?_⟩
      rcases h with h | h
      · exact .inl (hsettles request (.inl h))
      · rcases List.mem_cons.mp h with rfl | h
        · exact .inl (hsettles request (.inr rfl))
        · exact .inr h
  obtain ⟨hpending, hsettles⟩ :=
    hfold (broker.expireTasks settledAt).pendingTaskRequests (broker.expireTasks settledAt)
  rintro ⟨hrequest, hoffer, -, data, hdata, hidle, htype⟩
  have hmem : request ∈ (broker.expireTasks settledAt).pendingTaskRequests := hpending ▸ hrequest
  refine hsettles request (.inr hmem) data.entry ?_ hidle offer hoffer htype
  exact (requests_ledger _ request).trans (by rw [← settleTasks, hdata, Option.map_some])

/-! ## The other steps -/

theorem Effect.pendingMade {event : BrokerEvent} {ledger : TaskLedger}
    (heffect : Effect config nanoid broker event ledger) (hmade : broker.ledger.PendingMade) :
    ledger.PendingMade := by
  cases heffect with
  | changes hchanges =>
    induction hchanges with
    | refl => exact hmade
    | tail _ hchange ih => exact hchange.pendingMade ih
  | accept hat hphase hpromise => exact (TaskLedger.eases_accept ..).pendingMade hmade
  | fail keep hended hhears =>
    exact ((TaskLedger.eases_withdraw _ keep).trans (TaskLedger.eases_failAll _ _)).pendingMade hmade
  | deliver hended hget => exact (TaskLedger.eases_deliver ..).pendingMade hmade
  | lose hmethod hentry hdeliveries => exact hmade

/-- What a step does to the requests and offers that are pending. -/
inductive Pairing (broker : TaskBroker) (event : BrokerEvent) (broker' : TaskBroker) : Prop
  | settles (h : ∀ now request offer, ¬broker'.IdlePair now request offer)
  | eases (h : broker.ledger.Eases broker'.ledger)
  | refuses {k : ℕ} {call : AcceptCall} {data : TaskRequest} (hat : broker.AcceptAt k call data)
      (hrefused : broker.refusedRequest event = some call.request)
      (h : broker'.ledger = broker.ledger.refuse k call.entry data.entry)

theorem Pairing.same {event : BrokerEvent} (h : broker'.ledger = broker.ledger) :
    Pairing broker event broker' :=
  .eases (.of_eq h)

theorem Pairing.deliver {event : BrokerEvent} (hledger : broker'.ledger = broker.ledger)
    (taskId : String) (message : String → ToRequester)
    (hready : ∀ requesterId id, (LogEntry.toRequester requesterId (message id)).ready? = none)
    (hended : ∀ requesterId id, (LogEntry.toRequester requesterId (message id)).ended? = some id) :
    Pairing broker event (broker'.deliver taskId message) := by
  cases hget : broker'.tasks.get? taskId with
  | none =>
    have hsame : broker'.deliver taskId message = broker' := by simp only [TaskBroker.deliver, hget]
    rw [hsame]
    exact .same hledger
  | some task =>
    refine .eases ?_
    rw [ledger_deliver broker' hget (hready _ _) (hended _ _), hledger]
    exact TaskLedger.eases_deliver ..

theorem eases_getRunnerOrFailTask (broker : TaskBroker) (taskId : String) :
    broker.ledger.Eases (broker.getRunnerOrFailTask taskId).1.ledger := by
  rw [ledger_getRunnerOrFailTask]
  split
  · exact TaskLedger.eases_fail ..
  · exact .refl _

theorem Pairing.passToRunner {event : BrokerEvent} (broker : TaskBroker) (taskId : String)
    (response : RequesterResponse) :
    Pairing broker event (broker.passToRunner taskId response) := by
  refine .eases ?_
  rw [ledger_passToRunner]
  exact eases_getRunnerOrFailTask broker taskId

theorem onRunnerMessage_pairing (runnerId : String) (message : RunnerMessage) :
    Pairing broker (.runnerMessage runnerId message)
      (broker.onRunnerMessage nanoid runnerId message) := by
  unfold onRunnerMessage
  split
  case isFalse => exact .same rfl
  case isTrue =>
    cases message with
    | info => exact .same rfl
    | taskAccepted taskId => exact .same (ledger_settleRunner ..)
    | taskRejected taskId reason => exact .same (ledger_settleRunner ..)
    | taskDeferred taskId => exact .same (ledger_settleRunner ..)
    | taskOffer offerId taskType validFor offeredAt now =>
      exact .settles (settleTasks_noIdlePair nanoid _ now)
    | taskDone taskId data => exact .deliver rfl taskId _ (fun _ _ => rfl) fun _ _ => rfl
    | taskError taskId error => exact .deliver rfl taskId _ (fun _ _ => rfl) fun _ _ => rfl
    | taskDataRequest taskId requestId requestParams =>
      exact .same (ledger_passToRequester broker taskId fun _ => ⟨rfl, rfl⟩)
    | nodeTypesRequest taskId requestId requestParams =>
      exact .same (ledger_passToRequester broker taskId fun _ => ⟨rfl, rfl⟩)
    | rpc taskId callId name params =>
      exact .same (ledger_passToRequester broker taskId fun _ => ⟨rfl, rfl⟩)

theorem onRequesterMessage_pairing (requesterId : String) (message : RequesterMessage) :
    Pairing broker (.requesterMessage requesterId message)
      (broker.onRequesterMessage nanoid requesterId message) := by
  cases message with
  | taskSettings taskId settings => exact .same (ledger_settleRequester ..)
  | taskCancel taskId reason =>
    refine .eases ?_
    simp only [onRequesterMessage, ledger_cancelTask]
    exact TaskLedger.eases_removeTask ..
  | taskRequest requestId taskType now =>
    let data : TaskRequest := { requestId, requesterId, taskType, timeout := some broker.timers.length }
    cases hdraining : broker.isDraining with
    | true =>
      obtain ⟨told, -, hledger⟩ := ledger_taskRequested_of_draining nanoid
        (broker.createRequestTimeout requestId) data now hdraining
      refine .eases ?_
      simp only [onRequesterMessage]
      rw [hledger, ledger_createRequestTimeout]
      exact ⟨List.Subset.refl _, List.Subset.refl _, List.prefix_append _ _⟩
    | false =>
      have hresult := taskRequested_of_not_draining nanoid (broker.createRequestTimeout requestId)
        data now hdraining
      refine .settles fun at' request offer => ?_
      simp only [onRequesterMessage]
      rw [hresult]
      exact settleTasks_noIdlePair nanoid _ now at' request offer
  | taskDataResponse taskId requestId data => exact .passToRunner broker taskId _
  | nodeTypesResponse taskId requestId nodeTypes => exact .passToRunner broker taskId _
  | rpcResponse taskId callId status data => exact .passToRunner broker taskId _

theorem onTimer_pairing {event : BrokerEvent} (hledger : broker'.ledger = broker.ledger)
    (t : Timer) : Pairing broker event (broker'.onTimer config t) := by
  cases t with
  | request requestId =>
    rcases ledger_handleRequestTimeout broker' requestId with h | ⟨request, told, -, -, h⟩
    · exact .same (h.trans hledger)
    · refine .eases ?_
      simp only [onTimer]
      rw [h, hledger]
      exact TaskLedger.eases_expire ..
  | runnerAccept promise taskId runnerId => exact .same ((ledger_settlePromise ..).trans hledger)
  | requesterAccept promise => exact .same ((ledger_settlePromise ..).trans hledger)
  | task taskId =>
    simp only [onTimer, handleTaskTimeout]
    split
    · exact .same hledger
    split
    · exact .deliver hledger taskId (fun id => .taskError id _) (fun _ _ => rfl) fun _ _ => rfl
    · refine .same ?_
      rw [ledger_messageRunner _ _ rfl, ledger_suspend _ rfl, hledger]

theorem methodResumes_pairing {i : ℕ} {method : Suspended}
    (hmethod : broker.suspended[i]? = some method) (callback : CallbackOutcome) :
    Pairing broker (.methodResumes i callback)
      (resume config { broker with suspended := broker.suspended.eraseIdx i } method callback) := by
  cases method with
  | delivery taskId requesterId =>
    obtain ⟨before, after, -, herase⟩ := ledger_eraseIdx broker hmethod
    refine .eases ?_
    cases callback with
    | resolved =>
      simp only [resume]
      rw [ledger_delete { broker with suspended := broker.suspended.eraseIdx i }, herase]
      exact ⟨List.Subset.refl _, List.Subset.refl _, List.prefix_refl _⟩
    | rejected =>
      simp only [resume]
      rw [herase]
      exact ⟨List.Subset.refl _, List.Subset.refl _, List.prefix_refl _⟩
  | taskTimeout taskId =>
    have hsame := ledger_eraseIdx_of_entry_eq_none broker hmethod rfl
    cases callback with
    | resolved => exact .deliver hsame taskId (fun id => .taskError id _) (fun _ _ => rfl) fun _ _ => rfl
    | rejected => exact .same hsame
  | response runnerId taskId response =>
    have hsame := ledger_eraseIdx_of_entry_eq_none broker hmethod rfl
    exact .same ((ledger_messageRunner _ _ rfl).trans hsame)

theorem Resumed.pairing {k : ℕ} {call : AcceptCall} {data : TaskRequest}
    {callback : CallbackOutcome} (h : broker.AcceptAt k call data)
    (hresumed : Resumed nanoid broker k call data callback broker'.ledger) :
    Pairing broker (.acceptResumes k callback) broker' := by
  generalize hledger : broker'.ledger = ledger at hresumed
  cases hresumed with
  | goesOn => exact .same hledger
  | refused hopen hrefused => exact .refuses h hrefused hledger
  | accepted hphase hpromise => exact .eases (hledger ▸ TaskLedger.eases_accept ..)
  | settingsSent hphase hpromise => exact .eases (hledger ▸ eases_getRunnerOrFailTask broker _)
  | givenUp => exact .eases (hledger ▸ TaskLedger.eases_removeTask ..)

/-- Only a refusal lets a request wait again, and only settling adds to what is pending. -/
theorem step_pairing {event : BrokerEvent} (h : broker.step config nanoid event = .ok broker') :
    Pairing broker event broker' := by
  cases event with
  | registerRunner runner =>
    cases h
    exact .same (ledger_messageRunner _ _ rfl)
  | deregisterRunner runnerId error =>
    cases h
    obtain ⟨failed, -, hledger⟩ := ledger_deregisterRunner broker runnerId error
    refine .eases ?_
    rw [hledger]
    exact (TaskLedger.eases_withdraw _ _).trans (TaskLedger.eases_failAll _ failed)
  | registerRequester requesterId =>
    cases h
    exact .same rfl
  | deregisterRequester requesterId =>
    cases h
    exact .same rfl
  | runnerMessage runnerId message =>
    cases h
    exact onRunnerMessage_pairing runnerId message
  | requesterMessage requesterId message =>
    cases h
    exact onRequesterMessage_pairing requesterId message
  | requesterReject taskId reason =>
    cases h
    exact .same (ledger_settleRequester ..)
  | timerFires timer =>
    simp only [step] at h
    split at h
    case h_1 t htimer =>
      cases h
      exact onTimer_pairing (ledger_clearTimeout broker (some timer)) t
    case h_2 => cases h
  | acceptResumes k callback =>
    simp only [step] at h
    split at h
    case h_1 => cases h
    case h_2 call hcall =>
      split at h
      case h_1 => cases h
      case h_2 data hdata =>
        have hat : broker.AcceptAt k call data := ⟨hcall, hdata⟩
        exact (resumed hat h).pairing hat
  | methodResumes i callback =>
    simp only [step] at h
    split at h
    case h_1 => cases h
    case h_2 method hmethod =>
      cases h
      exact methodResumes_pairing hmethod callback
  | startDraining =>
    cases h
    exact .same rfl
  | stopDraining =>
    cases h
    exact .same rfl

/-! ## Over a run -/

/-- If the step refuses the accept of a request, the request has expired meanwhile, or no offer
of its type is pending that is valid at this time. -/
def refusesUnmatched (now : ℤ) (broker : TaskBroker) (event : BrokerEvent) : Bool :=
  match broker.refusedRequest event with
  | none => true
  | some request =>
    match broker.requests[request]? with
    | none => true
    | some data => !broker.pendingTaskRequests.contains request ||
      !broker.pendingTaskOffers.any fun o => o.taskType == data.taskType && o.isValid now

theorem Pairing.idlePair {event : BrokerEvent} {now : ℤ} {request : ℕ} {offer : TaskOffer}
    (hpairing : Pairing broker event broker') (hmade : broker.ledger.PendingMade)
    (hrefused : broker.refusesUnmatched now event = true)
    (h : broker'.IdlePair now request offer) : broker.IdlePair now request offer := by
  cases hpairing with
  | settles hnone => exact absurd h (hnone now request offer)
  | eases heases =>
    exact idlePair_ledger_iff.mp (heases.idlePair hmade (idlePair_ledger_iff.mpr h))
  | @refuses k call data hat hrequest hledger =>
    obtain ⟨hpending, hoffer, hvalid, entry, hentry, hidle, htype⟩ := idlePair_ledger_iff.mpr h
    rw [hledger] at hpending hoffer hentry
    have hrequests : (broker.ledger.refuse k call.entry data.entry).requests =
        broker.ledger.requests.set call.request { data.entry with busy := false } := rfl
    rw [hrequests] at hentry
    by_cases hr : call.request = request
    · subst hr
      have hsame : entry = { data.entry with busy := false } := by
        have hlt := (List.getElem?_eq_some_iff.mp hat.entry).1
        rw [List.getElem?_set_self hlt] at hentry
        exact (Option.some.inj hentry).symm
      have htype' : offer.taskType = data.taskType := htype.trans (congrArg (·.taskType) hsame)
      have hpending' : broker.pendingTaskRequests.contains call.request = true :=
        List.contains_iff_mem.mpr hpending
      have hany : (broker.pendingTaskOffers.any fun o =>
          o.taskType == data.taskType && o.isValid now) = true :=
        List.any_eq_true.mpr ⟨offer, hoffer, by simp [htype', hvalid]⟩
      simp only [refusesUnmatched, hrequest, hat.atRequest, hpending', hany] at hrefused
      cases hrefused
    · rw [List.getElem?_set_ne hr] at hentry
      exact idlePair_ledger_iff.mp ⟨hpending, hoffer, hvalid, entry, hentry, hidle, htype⟩

theorem run_noIdlePair {steps : List (TaskBroker × BrokerEvent)} {now : ℤ}
    (h : Run (step config nanoid) {} steps broker)
    (hrefused : ∀ s ∈ steps, s.1.refusesUnmatched now s.2 = true) (request : ℕ)
    (offer : TaskOffer) : ¬broker.IdlePair now request offer := by
  have hinv : broker.ledger.PendingMade ∧ ¬broker.IdlePair now request offer := by
    refine h.invariant
      (I := fun broker => broker.ledger.PendingMade ∧ ¬broker.IdlePair now request offer)
      (C := fun broker event => broker.refusesUnmatched now event = true) ?_ ?_ hrefused
    · exact ⟨fun request hr => absurd hr List.not_mem_nil,
        fun hpair => absurd hpair.1 List.not_mem_nil⟩
    · rintro broker event broker' ⟨hmade, hnone⟩ hrefused hstep
      exact ⟨(step_effect hstep).pendingMade hmade,
        fun hpair => hnone ((step_pairing hstep).idlePair hmade hrefused hpair)⟩
  exact hinv.2

/-- Two offers that do not expire, and a request that is matched with the first. -/
def twoOffers : List BrokerEvent :=
  [.registerRunner ⟨"runner"⟩, .registerRequester "requester",
    .runnerMessage "runner" (.taskOffer "first" "javascript" (-1) 0 1),
    .runnerMessage "runner" (.taskOffer "second" "javascript" (-1) 0 2),
    .requesterMessage "requester" (.taskRequest "request" "javascript" 3),
    .acceptResumes 0 .resolved]

/-- The runner takes the second offer back before it rejects the first. -/
theorem run_noIdlePair_refused :
    ∃ steps broker, Run (step .default toString) {} steps broker ∧
      broker.pendingTaskRequests = [0] ∧ ∀ offer, ¬broker.IdlePair 4 0 offer := by
  have hevents : (runSteps (step .default toString) {}
      (twoOffers ++ [.runnerMessage "runner" (.taskRejected "0" "busy"),
        .deregisterRunner "runner" "gone", .acceptResumes 0 .resolved])).map
      (fun r => (r.2.pendingTaskRequests, r.1.all fun s => s.1.refusesUnmatched 4 s.2)) =
        .ok ([0], true) := by
    decide
  obtain ⟨steps, broker, hrun, -, h⟩ := exists_run hevents
  obtain ⟨hpending, hrefused⟩ := Prod.mk.inj h
  exact ⟨steps, broker, hrun, hpending,
    run_noIdlePair hrun (fun s hs => List.all_eq_true.mp hrefused s hs) 0⟩

/-- The runner rejects the first offer; the request waits next to the second, with nothing
under way. -/
theorem run_idlePair :
    ∃ steps broker, Run (step .default toString) {} steps broker ∧
      (∀ call ∈ broker.calls, call.phase.stage = .refused) ∧ broker.suspended.length = 0 ∧
      ∃ offer, broker.IdlePair 4 0 offer := by
  have hevents : (runSteps (step .default toString) {}
      (twoOffers ++ [.runnerMessage "runner" (.taskRejected "0" "busy"),
        .acceptResumes 0 .resolved])).map
      (fun r => ((r.2.pendingTaskRequests, r.2.suspended.length,
        r.2.calls.map fun call => call.phase.stage),
        r.2.pendingTaskOffers.map fun offer => (offer.taskType, offer.isValid 4),
        r.2.requests.map fun data => (data.taskType, data.acceptInProgress))) =
        .ok (([0], 0, [.refused]), [("javascript", true)], [("javascript", false)]) := by
    decide
  obtain ⟨steps, broker, hrun, -, h⟩ := exists_run hevents
  obtain ⟨hcalls, hoffers, hrequests⟩ := by simpa only [Prod.mk.injEq] using h
  obtain ⟨hpending, hsuspended, hstages⟩ := hcalls
  obtain ⟨offer, hoffer, hvalid⟩ := List.map_eq_singleton_iff.mp hoffers
  obtain ⟨data, hdata, hidle⟩ := List.map_eq_singleton_iff.mp hrequests
  simp only [Prod.mk.injEq] at hvalid hidle
  refine ⟨steps, broker, hrun, fun call hcall => ?_, hsuspended, offer, ?_⟩
  · have hmem := List.mem_map_of_mem (f := fun call => call.phase.stage) hcall
    rw [hstages] at hmem
    exact List.mem_singleton.mp hmem
  · exact ⟨by simp [hpending], by simp [hoffer], hvalid.2, data, by simp [hdata], hidle.2,
      hvalid.1.trans hidle.1.symm⟩

end TaskBroker

end N8n
