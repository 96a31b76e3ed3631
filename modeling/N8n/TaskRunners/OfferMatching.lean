import N8n.TaskRunners.BrokerEffects
import Mathlib.Data.List.Pairwise

/-!
# Offers and requests are matched once

In every run an offer is used for at most one match and is no longer pending then, and a
request has at most one match that was not refused, so at most one accept in progress and at
most one task. An offer that is chosen has the type of the request, is valid and is the
first of its type that is pending (`Matched.choose`, `run_matchedAtMostOnce`).
-/

open Lib

namespace N8n

/-! ## Offers -/

/-- Every offer has its own number. Those pending, in the order in which they came, are not
among those used. -/
structure OffersFresh (offers : List TaskOffer) (offersMade : ℕ) (used : List ℕ) : Prop where
  sorted : (offers.map (·.ref)).Pairwise (· < ·)
  offers_lt : ∀ offer ∈ offers, offer.ref < offersMade
  nodup : used.Nodup
  used_lt : ∀ ref ∈ used, ref < offersMade
  not_used : ∀ offer ∈ offers, offer.ref ∉ used

theorem OffersFresh.offer {offers : List TaskOffer} {offersMade : ℕ} {used : List ℕ}
    (h : OffersFresh offers offersMade used) {offer : TaskOffer} (href : offer.ref = offersMade) :
    OffersFresh (offers ++ [offer]) (offersMade + 1) used where
  sorted := by
    rw [List.map_append, List.pairwise_append]
    refine ⟨h.sorted, List.pairwise_singleton _ _, ?_⟩
    rintro ref hmem ref' hmem'
    obtain ⟨o, ho, rfl⟩ := List.mem_map.mp hmem
    obtain rfl : ref' = offer.ref := by simpa using hmem'
    rw [href]
    exact h.offers_lt o ho
  offers_lt := by
    intro o ho
    rcases List.mem_append.mp ho with ho | ho
    · have := h.offers_lt o ho
      omega
    · obtain rfl := List.mem_singleton.mp ho
      omega
  nodup := h.nodup
  used_lt ref hmem := by
    have := h.used_lt ref hmem
    omega
  not_used := by
    intro o ho hmem
    rcases List.mem_append.mp ho with ho | ho
    · exact h.not_used o ho hmem
    · obtain rfl := List.mem_singleton.mp ho
      have := h.used_lt _ hmem
      omega

theorem OffersFresh.sublist {offers offers' : List TaskOffer} {offersMade : ℕ} {used : List ℕ}
    (h : OffersFresh offers offersMade used) (hsub : offers'.Sublist offers) :
    OffersFresh offers' offersMade used where
  sorted := h.sorted.sublist (hsub.map _)
  offers_lt o ho := h.offers_lt o (hsub.subset ho)
  nodup := h.nodup
  used_lt := h.used_lt
  not_used o ho := h.not_used o (hsub.subset ho)

/-- An offer of the list is taken out of it and used. -/
theorem OffersFresh.use {offers : List TaskOffer} {offersMade : ℕ} {used : List ℕ}
    (h : OffersFresh offers offersMade used) {p : TaskOffer → Bool} {offer : TaskOffer}
    (hfind : offers.find? p = some offer) :
    OffersFresh (offers.eraseP p) offersMade (used ++ [offer.ref]) where
  sorted := h.sorted.sublist (List.eraseP_sublist.map _)
  offers_lt o ho := h.offers_lt o (List.mem_of_mem_eraseP ho)
  nodup := by
    have hnot := h.not_used offer (List.mem_of_find?_eq_some hfind)
    rw [List.nodup_append]
    refine ⟨h.nodup, List.nodup_singleton _, ?_⟩
    rintro a ha b hb rfl
    obtain rfl : a = offer.ref := by simpa using hb
    exact hnot ha
  used_lt ref hmem := by
    rcases List.mem_append.mp hmem with hmem | hmem
    · exact h.used_lt ref hmem
    · obtain rfl : ref = offer.ref := by simpa using hmem
      exact h.offers_lt offer (List.mem_of_find?_eq_some hfind)
  not_used := by
    intro o ho hmem
    rcases List.mem_append.mp hmem with hmem | hmem
    · exact h.not_used o (List.mem_of_mem_eraseP ho) hmem
    · have hnodup : (offers.map (·.ref)).Nodup := h.sorted.imp fun hlt => Nat.ne_of_lt hlt
      exact not_mem_of_mem_eraseP hnodup hfind ho (by simpa using hmem)

/-! ## Matches -/

/-- The offer has the type of the request, is valid and is the first of its type. -/
structure OfferMatch.Chosen (m : OfferMatch) (requests : List LedgerRequest) : Prop where
  sameType : ∃ entry, requests[m.request]? = some entry ∧ m.offer.taskType = entry.taskType
  valid : m.offer.isValid m.now = true
  mem : m.offer ∈ m.offers
  earliest : ∀ offer ∈ m.offers, offer.taskType = m.offer.taskType → m.offer.ref ≤ offer.ref

/-- The match was not refused. -/
def OfferMatch.Holds (m : OfferMatch) : Prop := m.stage ≠ .refused

/-- A request has at most one match that was not refused, and is busy then. -/
structure OneAccept (requests : List LedgerRequest) (matched : List OfferMatch) : Prop where
  busy : ∀ m ∈ matched, m.Holds → ∃ entry, requests[m.request]? = some entry ∧ entry.busy = true
  unique : ∀ (i j : ℕ) (m m' : OfferMatch), matched[i]? = some m → matched[j]? = some m' →
    m.request = m'.request → m.Holds → m'.Holds → i = j

/-- What holds of the ledger at any time. -/
structure TaskLedger.Matched (nanoid : ℕ → String) (ledger : TaskLedger) : Prop where
  fresh : OffersFresh ledger.offers ledger.offersMade (ledger.matched.map (·.offer.ref))
  chosen : ∀ m ∈ ledger.matched, m.Chosen ledger.requests
  once : OneAccept ledger.requests ledger.matched
  accepts : ledger.accepts.Sublist (ledger.matched.mapIdx fun k m => (m.offer.offerId, nanoid k))

variable {requests : List LedgerRequest} {m : OfferMatch}

theorem OfferMatch.Chosen.mono {requests' : List LedgerRequest}
    (h : m.Chosen requests)
    (htypes : ∀ entry, requests[m.request]? = some entry →
      ∃ entry', requests'[m.request]? = some entry' ∧ entry'.taskType = entry.taskType) :
    m.Chosen requests' := by
  obtain ⟨entry, hentry, htype⟩ := h.sameType
  obtain ⟨entry', hentry', htype'⟩ := htypes entry hentry
  exact ⟨⟨entry', hentry', htype.trans htype'.symm⟩, h.valid, h.mem, h.earliest⟩

variable {entry : LedgerRequest}

/-- Setting a request to one of the same type. -/
theorem OfferMatch.Chosen.set (h : m.Chosen requests) {request : ℕ} {entry' : LedgerRequest}
    (hentry : requests[request]? = some entry) (htype : entry'.taskType = entry.taskType) :
    m.Chosen (requests.set request entry') := by
  refine h.mono fun e he => ?_
  by_cases hr : request = m.request
  · subst hr
    obtain rfl : e = entry := Option.some.inj (he.symm.trans hentry)
    exact ⟨entry', List.getElem?_set_self (List.getElem?_eq_some_iff.mp hentry).1, htype⟩
  · exact ⟨e, by rw [List.getElem?_set_ne hr, he], rfl⟩

theorem OfferMatch.Chosen.append_request (h : m.Chosen requests) (entry : LedgerRequest) :
    m.Chosen (requests ++ [entry]) :=
  h.mono fun e he =>
    ⟨e, by rw [List.getElem?_append_left (List.getElem?_eq_some_iff.mp he).1, he], rfl⟩

theorem OneAccept.append_request {matched : List OfferMatch} (h : OneAccept requests matched)
    (entry : LedgerRequest) :
    OneAccept (requests ++ [entry]) matched where
  busy m hm hholds := by
    obtain ⟨e, he, hbusy⟩ := h.busy m hm hholds
    exact ⟨e, by rw [List.getElem?_append_left (List.getElem?_eq_some_iff.mp he).1, he], hbusy⟩
  unique := h.unique

/-- A request that is not busy is matched. -/
theorem OneAccept.choose {matched : List OfferMatch} (h : OneAccept requests matched)
    (hentry : requests[m.request]? = some entry) (hbusy : entry.busy = false) :
    OneAccept (requests.set m.request { entry with busy := true }) (matched ++ [m]) := by
  -- a match that holds the request would have made it busy
  have hfree : ∀ m' ∈ matched, m'.Holds → m'.request ≠ m.request := by
    intro m' hm' hholds hreq
    obtain ⟨e, he, hb⟩ := h.busy m' hm' hholds
    rw [hreq, hentry] at he
    cases he
    rw [hbusy] at hb
    cases hb
  have hlast : ∀ (i : ℕ) (m' : OfferMatch), (matched ++ [m])[i]? = some m' →
      matched[i]? = some m' ∨ i = matched.length ∧ m' = m := by
    intro i m' hi
    rcases lt_or_ge i matched.length with hlt | hge
    · exact Or.inl (by rwa [List.getElem?_append_left hlt] at hi)
    · rw [List.getElem?_append_right hge, List.getElem?_singleton] at hi
      split_ifs at hi with h0
      exact Or.inr ⟨by omega, (Option.some.inj hi).symm⟩
  refine ⟨?_, ?_⟩
  · intro m' hm' hholds
    rcases List.mem_append.mp hm' with hm' | hm'
    · obtain ⟨e, he, hb⟩ := h.busy m' hm' hholds
      refine ⟨e, ?_, hb⟩
      rw [List.getElem?_set_ne (hfree m' hm' hholds).symm, he]
    · obtain rfl := List.mem_singleton.mp hm'
      exact ⟨_, List.getElem?_set_self (List.getElem?_eq_some_iff.mp hentry).1, rfl⟩
  · intro i j mi mj hi hj hreq hholds hholds'
    rcases hlast i mi hi with hi' | ⟨rfl, rfl⟩ <;> rcases hlast j mj hj with hj' | ⟨rfl, rfl⟩
    · exact h.unique i j mi mj hi' hj' hreq hholds hholds'
    · exact absurd hreq (hfree mi (List.mem_of_getElem? hi') hholds)
    · exact absurd hreq.symm (hfree mj (List.mem_of_getElem? hj') hholds')
    · rfl

/-- What the matches were before one of them has changed. -/
theorem getElem?_of_set {matched : List OfferMatch} {k i : ℕ} {x : OfferMatch} (m' : OfferMatch)
    (hk : matched[k]? = some m) (hreq : m'.request = m.request) (hholds : m'.Holds → m.Holds)
    (hi : (matched.set k m')[i]? = some x) :
    ∃ y, matched[i]? = some y ∧ x.request = y.request ∧ (x.Holds → y.Holds) ∧
      (i ≠ k → x = y) ∧ (i = k → x = m') := by
  by_cases h : k = i
  · subst h
    rw [List.getElem?_set_self (List.getElem?_eq_some_iff.mp hk).1] at hi
    cases hi
    exact ⟨m, hk, hreq, hholds, fun hne => absurd rfl hne, fun _ => rfl⟩
  · rw [List.getElem?_set_ne h] at hi
    exact ⟨x, hi, rfl, id, fun _ => rfl, fun heq => absurd heq.symm h⟩

/-- A match that has changed holds no other request. -/
theorem OneAccept.unique_set {matched : List OfferMatch} (h : OneAccept requests matched) {k : ℕ}
    {m' : OfferMatch} (hk : matched[k]? = some m) (hreq : m'.request = m.request)
    (hholds : m'.Holds → m.Holds) (i j : ℕ) (x x' : OfferMatch)
    (hi : (matched.set k m')[i]? = some x) (hj : (matched.set k m')[j]? = some x')
    (hxx' : x.request = x'.request) (hxholds : x.Holds) (hxholds' : x'.Holds) : i = j := by
  obtain ⟨y, hy, hxy, hyholds, -, -⟩ := getElem?_of_set m' hk hreq hholds hi
  obtain ⟨y', hy', hxy', hyholds', -, -⟩ := getElem?_of_set m' hk hreq hholds hj
  exact h.unique i j y y' hy hy' (hxy.symm.trans (hxx'.trans hxy')) (hyholds hxholds)
    (hyholds' hxholds')

/-- A match is refused, and its request is no longer busy. -/
theorem OneAccept.refuse {matched : List OfferMatch} (h : OneAccept requests matched) {k : ℕ}
    (hk : matched[k]? = some m) (hholds : m.Holds) (entry : LedgerRequest) :
    OneAccept (requests.set m.request { entry with busy := false })
      (matched.set k { m with stage := .refused }) := by
  refine ⟨?_, h.unique_set hk rfl fun _ => hholds⟩
  intro x hx hxholds
  obtain ⟨i, hi⟩ := List.mem_iff_getElem?.mp hx
  obtain ⟨y, hy, hreq, hyholds, hne, heq⟩ :=
    getElem?_of_set { m with stage := .refused } hk rfl (fun _ => hholds) hi
  have hik : i ≠ k := fun hik => hxholds (heq hik ▸ rfl)
  obtain rfl := hne hik
  have hother : m.request ≠ x.request := fun hr =>
    hik (h.unique k i m x hk hy hr hholds hxholds).symm
  obtain ⟨e, he, hb⟩ := h.busy x (List.mem_of_getElem? hy) hxholds
  exact ⟨e, by rw [List.getElem?_set_ne hother, he], hb⟩

/-- A match becomes a task. -/
theorem OneAccept.make {matched : List OfferMatch} (h : OneAccept requests matched) {k : ℕ}
    (hk : matched[k]? = some m) (hholds : m.Holds) :
    OneAccept requests (matched.set k { m with stage := .made }) := by
  refine ⟨?_, h.unique_set hk rfl fun _ => hholds⟩
  intro x hx hxholds
  obtain ⟨i, hi⟩ := List.mem_iff_getElem?.mp hx
  obtain ⟨y, hy, hreq, hyholds, -, -⟩ :=
    getElem?_of_set { m with stage := .made } hk rfl (fun _ => hholds) hi
  rw [hreq]
  exact h.busy y (List.mem_of_getElem? hy) (hyholds hxholds)

/-! ## What a step keeps -/

namespace TaskLedger

variable {nanoid : ℕ → String} {ledger ledger' : TaskLedger}

/-- Only what has come of a match has changed. -/
theorem Matched.set_stage (h : ledger.Matched nanoid) {k : ℕ} (hk : ledger.matched[k]? = some m)
    (stage : MatchStage) :
    OffersFresh ledger.offers ledger.offersMade
        ((ledger.matched.set k { m with stage }).map (·.offer.ref)) ∧
      (∀ m' ∈ ledger.matched.set k { m with stage }, m'.Chosen ledger.requests) ∧
      ledger.accepts.Sublist
        ((ledger.matched.set k { m with stage }).mapIdx fun k m => (m.offer.offerId, nanoid k)) := by
  refine ⟨?_, ?_, ?_⟩
  · have hrefs : (ledger.matched.set k { m with stage }).map (·.offer.ref) =
        ledger.matched.map (·.offer.ref) := map_set_of_eq hk rfl
    rw [hrefs]
    exact h.fresh
  · intro m' hm'
    rcases List.mem_or_eq_of_mem_set hm' with hm' | rfl
    · exact h.chosen m' hm'
    · have hm := h.chosen m (List.mem_of_getElem? hk)
      exact ⟨hm.sameType, hm.valid, hm.mem, hm.earliest⟩
  · obtain ⟨hlt, rfl⟩ := List.getElem?_eq_some_iff.mp hk
    have hids : (ledger.matched.set k { ledger.matched[k] with stage }).mapIdx
        (fun k m => (m.offer.offerId, nanoid k)) =
        ledger.matched.mapIdx fun k m => (m.offer.offerId, nanoid k) := by
      refine List.ext_getElem? fun i => ?_
      simp only [List.getElem?_mapIdx, List.getElem?_set]
      by_cases hi : k = i
      · subst hi
        simp [hlt]
      · simp [hi]
    rw [hids]
    exact h.accepts

theorem Matched.choose (h : ledger.Matched nanoid) {request : ℕ} {offer : TaskOffer} {now : ℤ}
    {sent : List (String × String)} (hentry : ledger.requests[request]? = some entry)
    (hbusy : entry.busy = false)
    (hoffer : (ledger.offers.find? fun o => o.taskType == entry.taskType) = some offer)
    (hvalid : offer.isValid now = true)
    (hsent : sent.Sublist [(offer.offerId, nanoid ledger.matched.length)]) :
    (ledger.choose request entry offer now sent).Matched nanoid where
  fresh := by
    have hfresh := h.fresh.use hoffer
    rw [TaskLedger.choose, List.map_append, List.map_singleton]
    exact hfresh
  chosen := by
    intro m hm
    rcases List.mem_append.mp hm with hm | hm
    · exact (h.chosen m hm).set hentry rfl
    · obtain rfl := List.mem_singleton.mp hm
      have htype : offer.taskType = entry.taskType := by simpa using List.find?_some hoffer
      refine ⟨⟨{ entry with busy := true }, ?_, htype⟩, hvalid, List.mem_of_find?_eq_some hoffer, ?_⟩
      · exact List.getElem?_set_self (List.getElem?_eq_some_iff.mp hentry).1
      · intro o ho hotype
        exact le_of_find (f := TaskOffer.ref) h.fresh.sorted hoffer ho
          (by simpa using hotype.trans htype)
  once := h.once.choose (m := { offer, request, stage := .open, offers := ledger.offers, now })
    hentry hbusy
  accepts := by
    simp only [TaskLedger.choose, List.mapIdx_concat]
    exact h.accepts.append hsent

theorem Matched.refuse (h : ledger.Matched nanoid) {k : ℕ} (hk : ledger.matched[k]? = some m)
    (hopen : m.stage = .open) (hentry : ledger.requests[m.request]? = some entry) :
    (ledger.refuse k m entry).Matched nanoid := by
  have hholds : m.Holds := by simp [OfferMatch.Holds, hopen]
  obtain ⟨hfresh, hchosen, haccepts⟩ := h.set_stage hk .refused
  exact ⟨hfresh, fun m' hm' => (hchosen m' hm').set hentry rfl, h.once.refuse hk hholds entry, haccepts⟩

theorem Matched.change (h : ledger.Matched nanoid) (hchange : Change nanoid ledger ledger') :
    ledger'.Matched nanoid := by
  cases hchange with
  | offer offer href => exact ⟨h.fresh.offer href, h.chosen, h.once, h.accepts⟩
  | withdraw keep => exact ⟨h.fresh.sublist List.filter_sublist, h.chosen, h.once, h.accepts⟩
  | request entry hbusy =>
    exact ⟨h.fresh, fun m hm => (h.chosen m hm).append_request entry, h.once.append_request entry,
      h.accepts⟩
  | decline entry hbusy told htold =>
    exact ⟨h.fresh, fun m hm => (h.chosen m hm).append_request entry, h.once.append_request entry,
      h.accepts⟩
  | expire request hrequest told htold => exact ⟨h.fresh, h.chosen, h.once, h.accepts⟩
  | choose request entry offer now sent hentry hbusy hoffer hvalid hsent =>
    exact h.choose hentry hbusy hoffer hvalid hsent
  | refuse k m entry hk hopen hentry => exact h.refuse hk hopen hentry
  | cancel taskId => exact ⟨h.fresh, h.chosen, h.once, h.accepts⟩
  | conclude taskId requester before after hdeliveries =>
    exact ⟨h.fresh, h.chosen, h.once, h.accepts⟩

theorem Matched.accept (h : ledger.Matched nanoid) {k : ℕ} (hk : ledger.matched[k]? = some m)
    (hopen : m.stage = .open) (taskId : String) (entry : LedgerRequest) (found : Option ℕ)
    (reachable : Bool) :
    (ledger.accept taskId k m entry found reachable).Matched nanoid := by
  have hholds : m.Holds := by simp [OfferMatch.Holds, hopen]
  obtain ⟨hfresh, hchosen, haccepts⟩ := h.set_stage hk .made
  exact ⟨hfresh, hchosen, h.once.make hk hholds, haccepts⟩

theorem Matched.failAll (h : ledger.Matched nanoid) (failed : List (String × Bool)) :
    (ledger.failAll failed).Matched nanoid := by
  induction failed generalizing ledger with
  | nil => exact h
  | cons x failed ih =>
    have hfail : (ledger.fail x.1 x.2).Matched nanoid := by
      by_cases hmem : x.1 ∈ ledger.tasks
      · rw [fail, if_pos hmem]
        exact ⟨h.fresh, h.chosen, h.once, h.accepts⟩
      · rwa [fail, if_neg hmem]
    exact ih hfail

end TaskLedger

namespace TaskBroker

variable {config : TaskRunnersConfig} {nanoid : ℕ → String} {broker : TaskBroker}

theorem Effect.matched {event : BrokerEvent} {ledger : TaskLedger}
    (heffect : Effect config nanoid broker event ledger) (h : broker.ledger.Matched nanoid) :
    ledger.Matched nanoid := by
  cases heffect with
  | changes hchanges =>
    induction hchanges with
    | refl => exact h
    | tail _ hchange ih => exact ih.change hchange
  | accept hat hphase hpromise =>
    exact h.accept hat.matched (by simp [AcceptCall.entry, hphase, AcceptPhase.stage]) _ _ _ _
  | fail keep hended hhears =>
    have hkeep : TaskLedger.Matched nanoid
        { broker.ledger with offers := broker.ledger.offers.filter keep } :=
      ⟨h.fresh.sublist List.filter_sublist, h.chosen, h.once, h.accepts⟩
    exact hkeep.failAll _
  | deliver hended hget => exact ⟨h.fresh, h.chosen, h.once, h.accepts⟩
  | lose hmethod hentry hdeliveries => exact ⟨h.fresh, h.chosen, h.once, h.accepts⟩

/-- The broker as it is made. -/
theorem matched_init (nanoid : ℕ → String) : ({} : TaskBroker).ledger.Matched nanoid :=
  ⟨⟨.nil, by simp [ledger], .nil, by simp [ledger], by simp [ledger]⟩, by simp [ledger],
    ⟨by simp [ledger], by simp [ledger]⟩, by simp [ledger]⟩

theorem run_matched {steps : List (TaskBroker × BrokerEvent)}
    (h : Run (step config nanoid) {} steps broker) : broker.ledger.Matched nanoid :=
  h.invariant (C := fun _ _ => True) (I := fun broker => broker.ledger.Matched nanoid)
    (matched_init nanoid) (fun _ _ _ hmatched _ hstep => (step_effect hstep).matched hmatched)
    fun _ _ => trivial

/-! ## What is promised -/

/-- Offers and requests are matched at most once, and as they should be. -/
structure MatchedAtMostOnce (nanoid : ℕ → String) (broker : TaskBroker) : Prop where
  /-- No two calls of `acceptOffer` use the same offer. -/
  offerOnce : (broker.calls.map (·.offer.ref)).Nodup
  /-- A call sends at most one `broker:taskofferaccept`, which is for its offer. -/
  acceptOnce : (broker.log.filterMap LogEntry.accept?).Sublist
    (broker.calls.mapIdx fun k call => (call.offer.offerId, nanoid k))
  /-- An offer that is used is not pending. -/
  removed : ∀ call ∈ broker.calls, ∀ offer ∈ broker.pendingTaskOffers, offer.ref ≠ call.offer.ref
  /-- Two calls for a request that are in progress or have led to a task are the same. -/
  requestOnce : ∀ (i j : ℕ) (call call' : AcceptCall), broker.calls[i]? = some call →
    broker.calls[j]? = some call' → call.request = call'.request → call.phase.stage ≠ .refused →
    call'.phase.stage ≠ .refused → i = j
  taskOnce : ∀ (taskId taskId' : String) (request : ℕ), broker.TaskFor nanoid taskId request →
    broker.TaskFor nanoid taskId' request → taskId = taskId'
  sameType : ∀ call ∈ broker.calls, ∃ data, broker.requests[call.request]? = some data ∧
    call.offer.taskType = data.taskType
  notExpired : ∀ call ∈ broker.calls,
    call.offer.validFor = -1 ∨ call.now ≤ call.offer.validUntil
  earliest : ∀ call ∈ broker.calls, call.offer ∈ call.offers ∧
    ∀ offer ∈ call.offers, offer.taskType = call.offer.taskType → call.offer.ref ≤ offer.ref

theorem run_matchedAtMostOnce {steps : List (TaskBroker × BrokerEvent)}
    (h : Run (step config nanoid) {} steps broker) : broker.MatchedAtMostOnce nanoid := by
  have hmatched := run_matched h
  have hcall : ∀ (k : ℕ) (call : AcceptCall), broker.calls[k]? = some call →
      broker.ledger.matched[k]? = some call.entry := by
    intro k call hk
    rw [matched_ledger, hk, Option.map_some]
  have hmem : ∀ call ∈ broker.calls, call.entry ∈ broker.ledger.matched :=
    fun call hc => List.mem_map_of_mem hc
  have hrefs : broker.ledger.matched.map (·.offer.ref) = broker.calls.map (·.offer.ref) := by
    rw [ledger, List.map_map]
    rfl
  have honce : ∀ (i j : ℕ) (call call' : AcceptCall), broker.calls[i]? = some call →
      broker.calls[j]? = some call' → call.request = call'.request → call.phase.stage ≠ .refused →
      call'.phase.stage ≠ .refused → i = j :=
    fun i j call call' hi hj => hmatched.once.unique i j _ _ (hcall i call hi) (hcall j call' hj)
  refine ⟨hrefs ▸ hmatched.fresh.nodup, ?_, ?_, honce, ?_, ?_, ?_, ?_⟩
  · have hids : broker.ledger.matched.mapIdx (fun k m => (m.offer.offerId, nanoid k)) =
        broker.calls.mapIdx fun k call => (call.offer.offerId, nanoid k) := by
      refine List.ext_getElem? fun k => ?_
      simp only [ledger, List.getElem?_mapIdx, List.getElem?_map, Option.map_map]
      rfl
    rw [← hids]
    exact hmatched.accepts
  · intro call hc offer hoffer href
    refine hmatched.fresh.not_used offer hoffer ?_
    rw [hrefs, href]
    exact List.mem_map_of_mem hc
  · rintro taskId taskId' request ⟨i, call, hi, hstage, rfl, hreq⟩ ⟨j, call', hj, hstage', rfl, hreq'⟩
    rw [honce i j call call' hi hj (hreq.trans hreq'.symm) (by rw [hstage]; decide)
      (by rw [hstage']; decide)]
  · intro call hc
    obtain ⟨entry, hentry, htype⟩ := (hmatched.chosen _ (hmem call hc)).sameType
    have hentry' : broker.ledger.requests[call.request]? = some entry := hentry
    rw [requests_ledger, Option.map_eq_some_iff] at hentry'
    obtain ⟨data, hdata, rfl⟩ := hentry'
    exact ⟨data, hdata, htype⟩
  · intro call hc
    have hvalid := (hmatched.chosen _ (hmem call hc)).valid
    rw [TaskOffer.isValid, Bool.or_eq_true, beq_iff_eq, Bool.not_eq_true', decide_eq_false_iff_not,
      not_lt] at hvalid
    exact hvalid
  · intro call hc
    have hchosen := hmatched.chosen _ (hmem call hc)
    exact ⟨hchosen.mem, hchosen.earliest⟩

/-- An offer and a request come in, and are matched. -/
theorem run_matchedAtMostOnce_match :
    ∃ steps broker, Run (step .default toString) {} steps broker ∧ broker.calls.length = 1 ∧
      broker.MatchedAtMostOnce toString := by
  have hevents : (runSteps (step .default toString) {}
      [.registerRunner ⟨"runner"⟩, .registerRequester "requester",
        .runnerMessage "runner" (.taskOffer "offer" "javascript" 5000 0 0),
        .requesterMessage "requester" (.taskRequest "request" "javascript" 1)]).map
      (fun r => r.2.calls.length) = .ok 1 := by
    decide
  obtain ⟨steps, broker, hrun, -, hlength⟩ := exists_run hevents
  exact ⟨steps, broker, hrun, hlength, run_matchedAtMostOnce hrun⟩

end TaskBroker

end N8n
