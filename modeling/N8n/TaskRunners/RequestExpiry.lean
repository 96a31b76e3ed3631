import N8n.TaskRunners.BrokerEffects

/-!
# Requests that expire while they are accepted

`acceptOffer` sets the task before it looks for the request among those pending. If the
request has expired while the runner was asked, the task stays and no requester hears of
it; the same happens if the requester has gone (`run_expiredInTask`).

In a run in which, whenever `acceptOffer` goes on after the runner has accepted, the request
is the first pending one with its `requestId` and its requester is registered
(`acceptedInTime`), no request that has expired has a task, and of every task the requester
was told (`run_noExpiredTask`).
-/

open Lib

namespace N8n

/-! ## The invariant -/

/-- The match has become a task, and its requester knows. -/
structure OfferMatch.InTime (m : OfferMatch) (taskId : String) (ledger : TaskLedger) : Prop where
  told : ∃ entry, ledger.requests[m.request]? = some entry ∧
    (entry.requesterId, entry.requestId, taskId) ∈ ledger.ready
  not_pending : m.request ∉ ledger.pending
  not_expired : m.request ∉ ledger.expired

structure TaskLedger.InTime (nanoid : ℕ → String) (ledger : TaskLedger) : Prop where
  pending_nodup : ledger.pending.Nodup
  pending_lt : ∀ request ∈ ledger.pending, request < ledger.requests.length
  expired_lt : ∀ request ∈ ledger.expired, request < ledger.requests.length
  not_pending : ∀ request ∈ ledger.expired, request ∉ ledger.pending
  made : ∀ (k : ℕ) (m : OfferMatch), ledger.matched[k]? = some m → m.stage = .made →
    m.InTime (nanoid k) ledger
  tasks : ∀ taskId ∈ ledger.tasks, ∃ (k : ℕ) (m : OfferMatch), ledger.matched[k]? = some m ∧
    m.stage = .made ∧ nanoid k = taskId

theorem OfferMatch.InTime.mono {m : OfferMatch} {taskId : String} {ledger ledger' : TaskLedger}
    (h : m.InTime taskId ledger)
    (hrequests : ∀ entry, ledger.requests[m.request]? = some entry →
      ∃ entry', ledger'.requests[m.request]? = some entry' ∧
        entry'.requesterId = entry.requesterId ∧ entry'.requestId = entry.requestId)
    (hready : ledger.ready ⊆ ledger'.ready)
    (hpending : m.request ∈ ledger'.pending → m.request ∈ ledger.pending)
    (hexpired : m.request ∈ ledger'.expired → m.request ∈ ledger.expired) :
    m.InTime taskId ledger' := by
  obtain ⟨entry, hentry, htold⟩ := h.told
  obtain ⟨entry', hentry', hrequester, hid⟩ := hrequests entry hentry
  exact ⟨⟨entry', hentry', hready (by rw [hrequester, hid]; exact htold)⟩,
    fun hp => h.not_pending (hpending hp), fun he => h.not_expired (hexpired he)⟩

theorem OfferMatch.InTime.lt {m : OfferMatch} {taskId : String} {ledger : TaskLedger}
    (h : m.InTime taskId ledger) : m.request < ledger.requests.length := by
  obtain ⟨entry, hentry, -⟩ := h.told
  exact (List.getElem?_eq_some_iff.mp hentry).1

namespace TaskLedger

variable {nanoid : ℕ → String} {ledger ledger' : TaskLedger} {entry : LedgerRequest}

theorem exists_append {request : ℕ} {requests : List LedgerRequest} (e : LedgerRequest)
    (h : requests[request]? = some entry) :
    ∃ entry', (requests ++ [e])[request]? = some entry' ∧
      entry'.requesterId = entry.requesterId ∧ entry'.requestId = entry.requestId :=
  ⟨entry, by rw [List.getElem?_append_left (List.getElem?_eq_some_iff.mp h).1, h], rfl, rfl⟩

theorem exists_set_busy {e : LedgerRequest} {request request' : ℕ} {requests : List LedgerRequest}
    (hentry : requests[request']? = some e) (busy : Bool) (h : requests[request]? = some entry) :
    ∃ entry', (requests.set request' { e with busy })[request]? = some entry' ∧
      entry'.requesterId = entry.requesterId ∧ entry'.requestId = entry.requestId := by
  by_cases hr : request' = request
  · subst hr
    obtain rfl : entry = e := Option.some.inj (h.symm.trans hentry)
    exact ⟨_, List.getElem?_set_self (List.getElem?_eq_some_iff.mp h).1, rfl, rfl⟩
  · exact ⟨entry, by rw [List.getElem?_set_ne hr, h], rfl, rfl⟩

theorem InTime.request (h : ledger.InTime nanoid) (entry : LedgerRequest) :
    InTime nanoid { ledger with
      requests := ledger.requests ++ [entry]
      pending := ledger.pending ++ [ledger.requests.length] } where
  pending_nodup := by
    refine List.nodup_append.mpr ⟨h.pending_nodup, List.nodup_singleton _, ?_⟩
    rintro a ha b hb rfl
    obtain rfl := List.mem_singleton.mp hb
    exact Nat.lt_irrefl _ (h.pending_lt _ ha)
  pending_lt := by
    intro request hr
    rw [List.length_append, List.length_singleton]
    rcases List.mem_append.mp hr with hr | hr
    · exact Nat.lt_succ_of_lt (h.pending_lt request hr)
    · obtain rfl := List.mem_singleton.mp hr
      exact Nat.lt_succ_self _
  expired_lt request hr := by
    rw [List.length_append]
    exact Nat.lt_succ_of_lt (h.expired_lt request hr)
  not_pending := by
    intro request hr hp
    rcases List.mem_append.mp hp with hp | hp
    · exact h.not_pending request hr hp
    · obtain rfl := List.mem_singleton.mp hp
      exact Nat.lt_irrefl _ (h.expired_lt _ hr)
  made k m hk hmade := by
    have hm := h.made k m hk hmade
    refine hm.mono (fun e he => exists_append entry he) (List.Subset.refl _) (fun hp => ?_) id
    rcases List.mem_append.mp hp with hp | hp
    · exact hp
    · have := hm.lt
      rw [List.mem_singleton.mp hp] at this
      exact absurd this (Nat.lt_irrefl _)
  tasks := h.tasks

theorem InTime.decline (h : ledger.InTime nanoid) (entry : LedgerRequest) {told : List ℕ}
    (htold : told ⊆ [ledger.requests.length]) :
    InTime nanoid { ledger with
      requests := ledger.requests ++ [entry]
      expired := ledger.expired ++ told } where
  pending_nodup := h.pending_nodup
  pending_lt request hr := by
    rw [List.length_append]
    exact Nat.lt_succ_of_lt (h.pending_lt request hr)
  expired_lt := by
    intro request hr
    rw [List.length_append, List.length_singleton]
    rcases List.mem_append.mp hr with hr | hr
    · exact Nat.lt_succ_of_lt (h.expired_lt request hr)
    · rw [List.mem_singleton.mp (htold hr)]
      exact Nat.lt_succ_self _
  not_pending := by
    intro request hr hp
    rcases List.mem_append.mp hr with hr | hr
    · exact h.not_pending request hr hp
    · have := h.pending_lt request hp
      rw [List.mem_singleton.mp (htold hr)] at this
      exact Nat.lt_irrefl _ this
  made k m hk hmade := by
    have hm := h.made k m hk hmade
    refine hm.mono (fun e he => exists_append entry he) (List.Subset.refl _) id fun hr => ?_
    rcases List.mem_append.mp hr with hr | hr
    · exact hr
    · have := hm.lt
      rw [List.mem_singleton.mp (htold hr)] at this
      exact absurd this (Nat.lt_irrefl _)
  tasks := h.tasks

theorem InTime.expire (h : ledger.InTime nanoid) {request : ℕ} (hrequest : request ∈ ledger.pending)
    {told : List ℕ} (htold : told ⊆ [request]) :
    InTime nanoid { ledger with
      pending := ledger.pending.erase request
      expired := ledger.expired ++ told } where
  pending_nodup := h.pending_nodup.erase _
  pending_lt r hr := h.pending_lt r (List.mem_of_mem_erase hr)
  expired_lt := by
    intro r hr
    rcases List.mem_append.mp hr with hr | hr
    · exact h.expired_lt r hr
    · rw [List.mem_singleton.mp (htold hr)]
      exact h.pending_lt request hrequest
  not_pending := by
    intro r hr hp
    rcases List.mem_append.mp hr with hr | hr
    · exact h.not_pending r hr (List.mem_of_mem_erase hp)
    · rw [List.mem_singleton.mp (htold hr)] at hp
      exact h.pending_nodup.not_mem_erase hp
  made k m hk hmade := by
    have hm := h.made k m hk hmade
    refine hm.mono (fun e he => ⟨e, he, rfl, rfl⟩) (List.Subset.refl _) List.mem_of_mem_erase
      fun hr => ?_
    rcases List.mem_append.mp hr with hr | hr
    · exact hr
    · rw [List.mem_singleton.mp (htold hr)]
      exact absurd hrequest (List.mem_singleton.mp (htold hr) ▸ hm.not_pending)
  tasks := h.tasks

theorem InTime.choose (h : ledger.InTime nanoid) {request : ℕ}
    (hentry : ledger.requests[request]? = some entry) (offer : TaskOffer) (now : ℤ)
    (sent : List (String × String)) :
    (ledger.choose request entry offer now sent).InTime nanoid where
  pending_nodup := h.pending_nodup
  pending_lt r hr := by
    rw [TaskLedger.choose, List.length_set]
    exact h.pending_lt r hr
  expired_lt r hr := by
    rw [TaskLedger.choose, List.length_set]
    exact h.expired_lt r hr
  not_pending := h.not_pending
  made k m hk hmade := by
    have hk' : ledger.matched[k]? = some m := by
      rw [TaskLedger.choose, List.getElem?_append] at hk
      split_ifs at hk with hlt
      · exact hk
      · rw [List.getElem?_singleton] at hk
        split_ifs at hk
        cases hk
        cases hmade
    exact (h.made k m hk' hmade).mono (fun e he => exists_set_busy hentry true he)
      (List.Subset.refl _) id id
  tasks := by
    intro taskId ht
    obtain ⟨k, m, hk, hmade, hid⟩ := h.tasks taskId ht
    refine ⟨k, m, ?_, hmade, hid⟩
    rw [TaskLedger.choose, List.getElem?_append_left (List.getElem?_eq_some_iff.mp hk).1, hk]

theorem InTime.refuse (h : ledger.InTime nanoid) {k : ℕ} {m : OfferMatch}
    (hk : ledger.matched[k]? = some m) (hopen : m.stage = .open)
    (hentry : ledger.requests[m.request]? = some entry) :
    (ledger.refuse k m entry).InTime nanoid where
  pending_nodup := h.pending_nodup
  pending_lt r hr := by
    rw [TaskLedger.refuse, List.length_set]
    exact h.pending_lt r hr
  expired_lt r hr := by
    rw [TaskLedger.refuse, List.length_set]
    exact h.expired_lt r hr
  not_pending := h.not_pending
  made j m' hj hmade := by
    have hj' : ledger.matched[j]? = some m' := by
      rw [TaskLedger.refuse, List.getElem?_set] at hj
      split_ifs at hj
      · cases hj
        cases hmade
      · exact hj
    exact (h.made j m' hj' hmade).mono (fun e he => exists_set_busy hentry false he)
      (List.Subset.refl _) id id
  tasks := by
    intro taskId ht
    obtain ⟨j, m', hj, hmade, hid⟩ := h.tasks taskId ht
    have hne : k ≠ j := by
      rintro rfl
      rw [hk] at hj
      cases hj
      rw [hopen] at hmade
      cases hmade
    exact ⟨j, m', by rw [TaskLedger.refuse, List.getElem?_set_ne hne, hj], hmade, hid⟩

/-- Only tasks have gone, and what the invariant is not about has changed. -/
theorem InTime.of_subset (h : ledger.InTime nanoid) (hrequests : ledger'.requests = ledger.requests)
    (hpending : ledger'.pending = ledger.pending) (hexpired : ledger'.expired = ledger.expired)
    (hready : ledger'.ready = ledger.ready) (hmatched : ledger'.matched = ledger.matched)
    (htasks : ledger'.tasks ⊆ ledger.tasks) : ledger'.InTime nanoid where
  pending_nodup := hpending ▸ h.pending_nodup
  pending_lt := by
    rw [hpending, hrequests]
    exact h.pending_lt
  expired_lt := by
    rw [hexpired, hrequests]
    exact h.expired_lt
  not_pending := by
    rw [hexpired, hpending]
    exact h.not_pending
  made := by
    intro k m hk hmade
    rw [hmatched] at hk
    refine (h.made k m hk hmade).mono (fun e he => ⟨e, by rw [hrequests, he], rfl, rfl⟩) ?_ ?_ ?_
    · rw [hready]
      exact List.Subset.refl _
    · rw [hpending]
      exact id
    · rw [hexpired]
      exact id
  tasks := by
    intro taskId ht
    rw [hmatched]
    exact h.tasks taskId (htasks ht)

theorem removeTask_subset (ledger : TaskLedger) (taskId : String) :
    (ledger.removeTask taskId).tasks ⊆ ledger.tasks :=
  List.filter_subset_self _

theorem InTime.change (h : ledger.InTime nanoid) (hchange : Change nanoid ledger ledger') :
    ledger'.InTime nanoid := by
  cases hchange with
  | offer offer href => exact h.of_subset rfl rfl rfl rfl rfl (List.Subset.refl _)
  | withdraw keep => exact h.of_subset rfl rfl rfl rfl rfl (List.Subset.refl _)
  | request entry hbusy => exact h.request entry
  | decline entry hbusy told htold => exact h.decline entry htold
  | expire request hrequest told htold => exact h.expire hrequest htold
  | choose request entry offer now sent hentry hbusy hoffer hvalid hsent =>
    exact h.choose hentry offer now sent
  | refuse k m entry hk hopen hentry => exact h.refuse hk hopen hentry
  | cancel taskId => exact h.of_subset rfl rfl rfl rfl rfl (removeTask_subset ledger taskId)
  | conclude taskId requester before after hdeliveries =>
    exact h.of_subset rfl rfl rfl rfl rfl (removeTask_subset ledger taskId)

/-- The match becomes a task while its request is pending, and the requester is told. -/
theorem InTime.accept (h : ledger.InTime nanoid) {k : ℕ} {m : OfferMatch}
    (hk : ledger.matched[k]? = some m) (hentry : ledger.requests[m.request]? = some entry)
    (hpending : m.request ∈ ledger.pending) :
    (ledger.accept (nanoid k) k m entry (some m.request) true).InTime nanoid where
  pending_nodup := h.pending_nodup.erase _
  pending_lt r hr := h.pending_lt r (List.mem_of_mem_erase hr)
  expired_lt := h.expired_lt
  not_pending r hr hp := h.not_pending r hr (List.mem_of_mem_erase hp)
  made := by
    intro j m' hj hmade
    rw [TaskLedger.accept, List.getElem?_set] at hj
    split_ifs at hj with hkj
    · cases hj
      subst hkj
      exact ⟨⟨entry, hentry, by simp [TaskLedger.accept]⟩, h.pending_nodup.not_mem_erase,
        fun he => h.not_pending _ he hpending⟩
    · refine (h.made j m' hj hmade).mono (fun e he => ⟨e, he, rfl, rfl⟩) ?_ List.mem_of_mem_erase id
      exact List.subset_append_left _ _
  tasks := by
    intro taskId ht
    have hlt := (List.getElem?_eq_some_iff.mp hk).1
    have hold : taskId ∈ ledger.tasks ∨ taskId = nanoid k := by
      simp only [TaskLedger.accept] at ht
      split_ifs at ht
      · exact Or.inl ht
      · simpa using ht
    rcases hold with hold | rfl
    · obtain ⟨j, m', hj, hmade, hid⟩ := h.tasks taskId hold
      by_cases hkj : k = j
      · subst hkj
        exact ⟨k, _, List.getElem?_set_self hlt, rfl, hid⟩
      · exact ⟨j, m', by rw [TaskLedger.accept, List.getElem?_set_ne hkj, hj], hmade, hid⟩
    · exact ⟨k, _, List.getElem?_set_self hlt, rfl, rfl⟩

theorem InTime.failAll (h : ledger.InTime nanoid) (failed : List (String × Bool)) :
    (ledger.failAll failed).InTime nanoid := by
  induction failed generalizing ledger with
  | nil => exact h
  | cons x failed ih =>
    have hfail : (ledger.fail x.1 x.2).InTime nanoid := by
      by_cases hmem : x.1 ∈ ledger.tasks
      · rw [fail, if_pos hmem]
        exact h.of_subset rfl rfl rfl rfl rfl (removeTask_subset ledger x.1)
      · rwa [fail, if_neg hmem]
    exact ih hfail

end TaskLedger

namespace TaskBroker

variable {config : TaskRunnersConfig} {nanoid : ℕ → String} {broker : TaskBroker}

/-- If the step is `acceptOffer` going on after the runner has accepted, the request is the one
that is found among those pending, and its requester is registered. -/
def acceptedInTime (broker : TaskBroker) : BrokerEvent → Bool
  | .acceptResumes k _ =>
    match broker.calls[k]? with
    | none => true
    | some call =>
      match call.phase with
      | .awaitingRunner promise =>
        match broker.promises[promise]?, broker.requests[call.request]? with
        | some (.fulfilled _), some data =>
          broker.findRequest data.requestId == some call.request &&
            data.requesterId ∈ broker.requesters
        | _, _ => true
      | _ => true
  | _ => true

theorem acceptedInTime_accept {k promise : ℕ} {callback : CallbackOutcome} {call : AcceptCall}
    {data : TaskRequest} {value : Json} (hat : broker.AcceptAt k call data)
    (hphase : call.phase = .awaitingRunner promise)
    (hpromise : broker.promises[promise]? = some (.fulfilled value))
    (h : broker.acceptedInTime (.acceptResumes k callback) = true) :
    broker.findRequest data.requestId = some call.request ∧
      data.requesterId ∈ broker.requesters := by
  simpa [acceptedInTime, hat.atCall, hphase, hpromise, hat.atRequest] using h

theorem Effect.inTime {event : BrokerEvent} {ledger : TaskLedger}
    (heffect : Effect config nanoid broker event ledger) (h : broker.ledger.InTime nanoid)
    (htime : broker.acceptedInTime event = true) : ledger.InTime nanoid := by
  cases heffect with
  | changes hchanges =>
    induction hchanges with
    | refl => exact h
    | tail _ hchange ih => exact ih.change hchange
  | accept hat hphase hpromise =>
    obtain ⟨hfind, hregistered⟩ := acceptedInTime_accept hat hphase hpromise htime
    rw [hfind, decide_eq_true hregistered]
    exact h.accept hat.matched hat.entry (List.mem_of_find?_eq_some hfind)
  | fail keep hended hhears =>
    have hkeep : TaskLedger.InTime nanoid
        { broker.ledger with offers := broker.ledger.offers.filter keep } :=
      h.of_subset rfl rfl rfl rfl rfl (List.Subset.refl _)
    exact hkeep.failAll _
  | deliver hended hget => exact h.of_subset rfl rfl rfl rfl rfl (List.Subset.refl _)
  | lose hmethod hentry hdeliveries => exact h.of_subset rfl rfl rfl rfl rfl (List.Subset.refl _)

theorem inTime_init (nanoid : ℕ → String) : ({} : TaskBroker).ledger.InTime nanoid :=
  ⟨.nil, by simp [ledger], by simp [ledger], by simp [ledger], by simp [ledger],
    by simp [ledger, Tasks.keys]⟩

/-! ## What is promised -/

/-- No request that has expired has a task, and of every task the requester was told. -/
structure NoExpiredTask (nanoid : ℕ → String) (broker : TaskBroker) : Prop where
  expired : ∀ request ∈ broker.expired, ∀ taskId ∈ broker.tasks.keys,
    ¬broker.TaskFor nanoid taskId request
  ready : ∀ taskId ∈ broker.tasks.keys, ∃ request data, broker.TaskFor nanoid taskId request ∧
    broker.requests[request]? = some data ∧
    LogEntry.toRequester data.requesterId (.taskReady data.requestId taskId) ∈ broker.log

/-- The broker does not wait for a task that nobody knows of. -/
theorem NoExpiredTask.exists_ready (h : broker.NoExpiredTask nanoid)
    (hactive : broker.hasActiveTasks = true) :
    ∃ taskId ∈ broker.tasks.keys, ∃ requesterId requestId,
      LogEntry.toRequester requesterId (.taskReady requestId taskId) ∈ broker.log := by
  have hpos : 0 < broker.tasks.keys.length := by
    rw [Tasks.keys, OrderedMap.length_keys]
    exact of_decide_eq_true hactive
  obtain ⟨taskId, ht⟩ := List.exists_mem_of_length_pos hpos
  obtain ⟨request, data, -, -, hlog⟩ := h.ready taskId ht
  exact ⟨taskId, ht, data.requesterId, data.requestId, hlog⟩

theorem mem_log_of_ready {requesterId requestId taskId : String}
    (h : (requesterId, requestId, taskId) ∈ broker.ledger.ready) :
    LogEntry.toRequester requesterId (.taskReady requestId taskId) ∈ broker.log := by
  obtain ⟨entry, hmem, hentry⟩ := List.mem_filterMap.mp h
  unfold LogEntry.ready? at hentry
  split at hentry
  · cases hentry
    exact hmem
  · cases hentry

theorem run_noExpiredTask {steps : List (TaskBroker × BrokerEvent)}
    (h : Run (step config nanoid) {} steps broker)
    (htime : ∀ s ∈ steps, s.1.acceptedInTime s.2 = true) : broker.NoExpiredTask nanoid := by
  have hinTime : broker.ledger.InTime nanoid :=
    h.invariant (I := fun broker => broker.ledger.InTime nanoid)
      (C := fun broker event => broker.acceptedInTime event = true) (inTime_init nanoid)
      (fun _ _ _ hinTime htime hstep => (step_effect hstep).inTime hinTime htime) htime
  have hmade : ∀ (k : ℕ) (call : AcceptCall), broker.calls[k]? = some call →
      call.phase.stage = .made → call.entry.InTime (nanoid k) broker.ledger := by
    intro k call hk hstage
    refine hinTime.made k call.entry ?_ hstage
    rw [matched_ledger, hk, Option.map_some]
  refine ⟨?_, ?_⟩
  · rintro request hexpired taskId - ⟨k, call, hk, hstage, -, rfl⟩
    exact (hmade k call hk hstage).not_expired hexpired
  · intro taskId ht
    obtain ⟨k, m, hk, hstage, rfl⟩ := hinTime.tasks taskId ht
    rw [matched_ledger, Option.map_eq_some_iff] at hk
    obtain ⟨call, hk, rfl⟩ := hk
    obtain ⟨entry, hentry, htold⟩ := (hmade k call hk hstage).told
    have hentry' : broker.ledger.requests[call.request]? = some entry := hentry
    rw [requests_ledger, Option.map_eq_some_iff] at hentry'
    obtain ⟨data, hdata, rfl⟩ := hentry'
    exact ⟨call.request, data, ⟨k, call, hk, hstage, rfl, rfl⟩, hdata, mem_log_of_ready htold⟩

/-- A request is matched with an offer. -/
def matchEvents : List BrokerEvent :=
  [.registerRunner ⟨"runner"⟩, .registerRequester "requester",
    .requesterMessage "requester" (.taskRequest "request" "javascript" 0),
    .runnerMessage "runner" (.taskOffer "offer" "javascript" 5000 0 1), .acceptResumes 0 .resolved]

/-- The runner accepts in time. -/
theorem run_noExpiredTask_accepted :
    ∃ steps broker, Run (step .default toString) {} steps broker ∧ broker.tasks.keys = ["0"] ∧
      broker.NoExpiredTask toString := by
  have hevents : (runSteps (step .default toString) {}
      (matchEvents ++ [.runnerMessage "runner" (.taskAccepted "0"), .acceptResumes 0 .resolved])).map
      (fun r => (r.2.tasks.keys, r.1.all fun s => s.1.acceptedInTime s.2)) = .ok (["0"], true) := by
    decide
  obtain ⟨steps, broker, hrun, -, h⟩ := exists_run hevents
  obtain ⟨hkeys, htime⟩ := Prod.mk.inj h
  exact ⟨steps, broker, hrun, hkeys, run_noExpiredTask hrun fun s hs => List.all_eq_true.mp htime s hs⟩

/-- The request expires while the runner is asked, and then the runner accepts. -/
theorem run_expiredInTask :
    ∃ steps broker, Run (step .default toString) {} steps broker ∧
      ¬broker.NoExpiredTask toString := by
  have hevents : (runSteps (step .default toString) {}
      (matchEvents ++ [.timerFires 0, .runnerMessage "runner" (.taskAccepted "0"),
        .acceptResumes 0 .resolved])).map
      (fun r => (r.2.tasks.keys, r.2.expired,
        r.2.calls.map fun call => (call.phase.stage, call.request))) =
        .ok (["0"], [0], [(.made, 0)]) := by
    decide
  obtain ⟨steps, broker, hrun, -, h⟩ := exists_run hevents
  refine ⟨steps, broker, hrun, fun hnone => ?_⟩
  have hkeys : broker.tasks.keys = ["0"] := congrArg Prod.fst h
  have hexpired : broker.expired = [0] := congrArg (fun r => r.2.1) h
  have hcalls : broker.calls.map (fun call => (call.phase.stage, call.request)) = [(.made, 0)] :=
    congrArg (fun r => r.2.2) h
  obtain ⟨call, hcall, hmade⟩ := List.map_eq_singleton_iff.mp hcalls
  obtain ⟨hstage, hrequest⟩ := Prod.mk.inj hmade
  refine hnone.expired 0 (by rw [hexpired]; simp) "0" (by rw [hkeys]; simp)
    ⟨0, call, by rw [hcall]; rfl, hstage, rfl, hrequest⟩

end TaskBroker

end N8n
