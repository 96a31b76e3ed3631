import N8n.TaskRunners.BrokerEffects

/-!
# The last message about a task

`cancelTask` and `failTask` delete the task before they send a message. `taskDoneHandler` and
`taskErrorHandler` delete it only when the callback of the requester has resolved. Until
then another handler finds the task and sends a second `broker:taskdone` or
`broker:taskerror` (`run_endedTwice`).

If callbacks resolve and no handler ends a task while a result of it is being delivered
(`endsOnce`), a requester gets at most one of these messages for each task
(`run_terminalMessages_le_one`).

A task whose offer no runner has accepted is never there or told of (`run_taskFor`).
-/

open Lib

namespace N8n

/-! ## The invariant -/

/-- The match with this task has become one. -/
def TaskLedger.Made (nanoid : ℕ → String) (ledger : TaskLedger) (taskId : String) : Prop :=
  ∃ (k : ℕ) (m : OfferMatch), ledger.matched[k]? = some m ∧ m.stage = .made ∧ nanoid k = taskId

/-- A result of the task is being delivered to a requester. -/
def TaskLedger.Delivering (ledger : TaskLedger) (taskId : String) : Prop :=
  ∃ requesterId, (taskId, some requesterId) ∈ ledger.deliveries

structure TaskLedger.EndedOnce (nanoid : ℕ → String) (ledger : TaskLedger) : Prop where
  nodup : ledger.ended.Nodup
  tasks_made : ∀ taskId ∈ ledger.tasks, ledger.Made nanoid taskId
  ended_made : ∀ taskId ∈ ledger.ended, ledger.Made nanoid taskId
  delivering : ∀ taskId ∈ ledger.tasks, taskId ∈ ledger.ended → ledger.Delivering taskId

namespace TaskLedger

variable {nanoid : ℕ → String} {ledger ledger' : TaskLedger}

/-- Matches that have become tasks stay so. -/
theorem EndedOnce.of_made (h : ledger.EndedOnce nanoid)
    (hmade : ∀ taskId, ledger.Made nanoid taskId → ledger'.Made nanoid taskId)
    (htasks : ledger'.tasks ⊆ ledger.tasks) (hended : ledger'.ended = ledger.ended)
    (hdelivering : ∀ taskId ∈ ledger'.tasks, ledger.Delivering taskId → ledger'.Delivering taskId) :
    ledger'.EndedOnce nanoid where
  nodup := hended ▸ h.nodup
  tasks_made taskId ht := hmade taskId (h.tasks_made taskId (htasks ht))
  ended_made taskId he := hmade taskId (h.ended_made taskId (hended ▸ he))
  delivering taskId ht he :=
    hdelivering taskId ht (h.delivering taskId (htasks ht) (hended ▸ he))

variable {taskId : String}

theorem made_append (h : ledger.Made nanoid taskId) {matched : List OfferMatch}
    (hmatched : ledger'.matched = ledger.matched ++ matched) :
    ledger'.Made nanoid taskId := by
  obtain ⟨k, m, hk, hmade, hid⟩ := h
  refine ⟨k, m, ?_, hmade, hid⟩
  rw [hmatched, List.getElem?_append_left (List.getElem?_eq_some_iff.mp hk).1, hk]

/-- The match that changes was still open. -/
theorem made_set (h : ledger.Made nanoid taskId) {k : ℕ} {m m' : OfferMatch}
    (hk : ledger.matched[k]? = some m) (hopen : m.stage = .open)
    (hmatched : ledger'.matched = ledger.matched.set k m') : ledger'.Made nanoid taskId := by
  obtain ⟨j, mj, hj, hmade, hid⟩ := h
  have hne : k ≠ j := by
    rintro rfl
    rw [hk] at hj
    cases hj
    rw [hopen] at hmade
    cases hmade
  exact ⟨j, mj, by rw [hmatched, List.getElem?_set_ne hne, hj], hmade, hid⟩

theorem EndedOnce.change (h : ledger.EndedOnce nanoid) (hchange : Change nanoid ledger ledger') :
    ledger'.EndedOnce nanoid := by
  have hfilter : ∀ taskId, (ledger.removeTask taskId).tasks ⊆ ledger.tasks :=
    fun taskId => List.filter_subset_self _
  cases hchange with
  | offer offer href =>
    exact h.of_made (fun _ => id) (List.Subset.refl _) rfl fun _ _ => id
  | withdraw keep => exact h.of_made (fun _ => id) (List.Subset.refl _) rfl fun _ _ => id
  | request entry hbusy => exact h.of_made (fun _ => id) (List.Subset.refl _) rfl fun _ _ => id
  | decline entry hbusy told htold =>
    exact h.of_made (fun _ => id) (List.Subset.refl _) rfl fun _ _ => id
  | expire request hrequest told htold =>
    exact h.of_made (fun _ => id) (List.Subset.refl _) rfl fun _ _ => id
  | choose request entry offer now sent hentry hbusy hoffer hvalid hsent =>
    exact h.of_made (fun _ hm => made_append hm rfl) (List.Subset.refl _) rfl fun _ _ => id
  | refuse k m entry hk hopen hentry =>
    exact h.of_made (fun _ hm => made_set hm hk hopen rfl) (List.Subset.refl _) rfl fun _ _ => id
  | cancel taskId => exact h.of_made (fun _ => id) (hfilter taskId) rfl fun _ _ => id
  | conclude taskId requester before after hdeliveries =>
    refine h.of_made (fun _ => id) (hfilter taskId) rfl fun t ht => ?_
    rintro ⟨requesterId, hmem⟩
    refine ⟨requesterId, ?_⟩
    have hne : t ≠ taskId := by simpa using (List.mem_filter.mp ht).2
    rw [hdeliveries] at hmem
    simpa [TaskLedger.removeTask, hne] using hmem

theorem EndedOnce.accept (h : ledger.EndedOnce nanoid) (hnanoid : Function.Injective nanoid)
    {k : ℕ} {m : OfferMatch} (hk : ledger.matched[k]? = some m) (hopen : m.stage = .open)
    (entry : LedgerRequest) (found : Option ℕ) (reachable : Bool) :
    (ledger.accept (nanoid k) k m entry found reachable).EndedOnce nanoid := by
  have hnew : (ledger.accept (nanoid k) k m entry found reachable).Made nanoid (nanoid k) :=
    ⟨k, _, List.getElem?_set_self (List.getElem?_eq_some_iff.mp hk).1, rfl, rfl⟩
  have hold : ∀ taskId, ledger.Made nanoid taskId →
      (ledger.accept (nanoid k) k m entry found reachable).Made nanoid taskId :=
    fun taskId hmade => made_set hmade hk hopen rfl
  have htasks : ∀ taskId ∈ (ledger.accept (nanoid k) k m entry found reachable).tasks,
      taskId ∈ ledger.tasks ∨ taskId = nanoid k := by
    intro taskId ht
    simp only [TaskLedger.accept] at ht
    split_ifs at ht
    · exact Or.inl ht
    · simpa using ht
  -- no message was sent for a task that was not there yet
  have hnot : nanoid k ∉ ledger.ended := by
    intro hmem
    obtain ⟨j, mj, hj, hmade, hid⟩ := h.ended_made _ hmem
    obtain rfl := hnanoid hid
    rw [hk] at hj
    cases hj
    rw [hopen] at hmade
    cases hmade
  refine ⟨h.nodup, ?_, fun taskId he => hold taskId (h.ended_made taskId he), ?_⟩
  · intro taskId ht
    rcases htasks taskId ht with ht | rfl
    · exact hold taskId (h.tasks_made taskId ht)
    · exact hnew
  · intro taskId ht he
    rcases htasks taskId ht with ht | rfl
    · exact h.delivering taskId ht he
    · exact absurd he hnot

/-- No message was sent for a task of which no result is being delivered. -/
theorem EndedOnce.not_mem_ended (h : ledger.EndedOnce nanoid) (ht : taskId ∈ ledger.tasks)
    (hfree : ¬ledger.Delivering taskId) : taskId ∉ ledger.ended :=
  fun he => hfree (h.delivering taskId ht he)

/-- The requester is told of a task for the first time. -/
theorem EndedOnce.tell (h : ledger.EndedOnce nanoid) (ht : taskId ∈ ledger.tasks)
    (hnot : taskId ∉ ledger.ended) :
    (ledger.ended ++ [taskId]).Nodup ∧
      ∀ t ∈ ledger.ended ++ [taskId], ledger.Made nanoid t := by
  refine ⟨?_, fun t hmem => ?_⟩
  · refine List.nodup_append.mpr ⟨h.nodup, List.nodup_singleton _, ?_⟩
    rintro a ha b hb rfl
    obtain rfl := List.mem_singleton.mp hb
    exact hnot ha
  · rcases List.mem_append.mp hmem with hmem | hmem
    · exact h.ended_made t hmem
    · rw [List.mem_singleton.mp hmem]
      exact h.tasks_made taskId ht

theorem EndedOnce.fail (h : ledger.EndedOnce nanoid) {reachable : Bool}
    (hfree : reachable = true → ¬ledger.Delivering taskId) :
    (ledger.fail taskId reachable).EndedOnce nanoid := by
  by_cases ht : taskId ∈ ledger.tasks
  swap
  · rwa [TaskLedger.fail, if_neg ht]
  have hsub : (ledger.removeTask taskId).tasks ⊆ ledger.tasks := List.filter_subset_self _
  rw [TaskLedger.fail, if_pos ht]
  cases reachable with
  | false => exact h.of_made (fun _ => id) hsub rfl fun _ _ => id
  | true =>
    obtain ⟨hnodup, hmade⟩ := h.tell ht (h.not_mem_ended ht (hfree rfl))
    refine ⟨hnodup, fun t hmem => h.tasks_made t (hsub hmem), hmade, fun t hmem he => ?_⟩
    have hne : t ≠ taskId := by simpa using (List.mem_filter.mp hmem).2
    rcases List.mem_append.mp he with he | he
    · exact h.delivering t (hsub hmem) he
    · exact absurd (List.mem_singleton.mp he) hne

@[simp] theorem deliveries_fail (ledger : TaskLedger) (taskId : String) (reachable : Bool) :
    (ledger.fail taskId reachable).deliveries = ledger.deliveries := by
  unfold fail
  split <;> rfl

theorem matched_fail (ledger : TaskLedger) (taskId : String) (reachable : Bool) :
    (ledger.fail taskId reachable).matched = ledger.matched := by
  unfold fail
  split <;> rfl

theorem EndedOnce.failAll (h : ledger.EndedOnce nanoid) {failed : List (String × Bool)}
    (hfree : ∀ x ∈ failed, x.2 = true → ¬ledger.Delivering x.1) :
    (ledger.failAll failed).EndedOnce nanoid := by
  induction failed generalizing ledger with
  | nil => exact h
  | cons x failed ih =>
    refine ih (h.fail (hfree x List.mem_cons_self)) fun y hy hreachable => ?_
    simp only [Delivering, deliveries_fail]
    exact hfree y (List.mem_cons_of_mem _ hy) hreachable

theorem EndedOnce.deliver (h : ledger.EndedOnce nanoid) (ht : taskId ∈ ledger.tasks)
    {requester : Option String} (hfree : requester.isSome = true → ¬ledger.Delivering taskId) :
    (ledger.deliver taskId requester).EndedOnce nanoid := by
  have hkeep : ∀ t, ledger.Delivering t → (ledger.deliver taskId requester).Delivering t :=
    fun t hd => hd.imp fun _ hmem => List.mem_append_left _ hmem
  cases requester with
  | none => exact h.of_made (fun _ => id) (List.Subset.refl _) rfl fun t _ => hkeep t
  | some requesterId =>
    obtain ⟨hnodup, hmade⟩ := h.tell ht (h.not_mem_ended ht (hfree rfl))
    refine ⟨hnodup, h.tasks_made, hmade, fun t hmem he => ?_⟩
    rcases List.mem_append.mp he with he | he
    · exact hkeep t (h.delivering t hmem he)
    · rw [List.mem_singleton.mp he]
      exact ⟨requesterId, List.mem_append_right _ (List.mem_singleton.mpr rfl)⟩

/-! ## No task without an accept -/

/-- The tasks that the broker has or that requesters were told of. -/
def taskIds (ledger : TaskLedger) : List String :=
  ledger.tasks ++ ledger.ready.map (·.2.2) ++ ledger.ended

def OnlyMade (nanoid : ℕ → String) (ledger : TaskLedger) : Prop :=
  ∀ taskId ∈ ledger.taskIds, ledger.Made nanoid taskId

theorem OnlyMade.of_subset (h : ledger.OnlyMade nanoid) (hids : ledger'.taskIds ⊆ ledger.taskIds)
    (hmade : ∀ taskId, ledger.Made nanoid taskId → ledger'.Made nanoid taskId) :
    ledger'.OnlyMade nanoid := fun taskId ht => hmade taskId (h taskId (hids ht))

theorem taskIds_removeTask_subset (ledger : TaskLedger) (taskId : String) :
    (ledger.removeTask taskId).taskIds ⊆ ledger.taskIds := by
  intro t ht
  simp only [taskIds, removeTask] at ht ⊢
  grind

theorem OnlyMade.change (h : ledger.OnlyMade nanoid) (hchange : Change nanoid ledger ledger') :
    ledger'.OnlyMade nanoid := by
  cases hchange with
  | choose request entry offer now sent hentry hbusy hoffer hvalid hsent =>
    exact h.of_subset (List.Subset.refl _) fun _ hm => made_append hm rfl
  | refuse k m entry hk hopen hentry =>
    exact h.of_subset (List.Subset.refl _) fun _ hm => made_set hm hk hopen rfl
  | cancel taskId => exact h.of_subset (taskIds_removeTask_subset _ _) fun _ => id
  | conclude taskId requester before after hdeliveries =>
    exact h.of_subset (taskIds_removeTask_subset _ _) fun _ => id
  | _ => exact h.of_subset (List.Subset.refl _) fun _ => id

theorem OnlyMade.accept (h : ledger.OnlyMade nanoid) {k : ℕ} {m : OfferMatch}
    (hk : ledger.matched[k]? = some m) (hopen : m.stage = .open) (entry : LedgerRequest)
    (found : Option ℕ) (reachable : Bool) :
    (ledger.accept (nanoid k) k m entry found reachable).OnlyMade nanoid := by
  intro taskId ht
  have hids : taskId ∈ ledger.taskIds ∨ taskId = nanoid k := by
    simp only [taskIds, TaskLedger.accept] at ht ⊢
    grind
  rcases hids with hold | rfl
  · exact made_set (h taskId hold) hk hopen rfl
  · exact ⟨k, _, List.getElem?_set_self (List.getElem?_eq_some_iff.mp hk).1, rfl, rfl⟩

theorem OnlyMade.failAll (h : ledger.OnlyMade nanoid) (failed : List (String × Bool)) :
    (ledger.failAll failed).OnlyMade nanoid := by
  induction failed generalizing ledger with
  | nil => exact h
  | cons x failed ih =>
    refine ih (h.of_subset (fun taskId ht => ?_) fun taskId => ?_)
    · simp only [TaskLedger.fail, removeTask, taskIds] at ht ⊢
      grind
    · simp only [Made, matched_fail]
      exact id

end TaskLedger

namespace TaskBroker

variable {config : TaskRunnersConfig} {nanoid : ℕ → String} {broker : TaskBroker}

/-- `taskDoneHandler` or `taskErrorHandler` awaits the callback of a requester for the task. -/
def isDelivering (broker : TaskBroker) (taskId : String) : Bool :=
  broker.suspended.any fun method =>
    match method with
    | .delivery id (some _) => id == taskId
    | _ => false

/-- No handler ends a task and tells its requester while a result of the task is being
delivered to it. -/
def endsOnce (config : TaskRunnersConfig) (nanoid : ℕ → String) (broker : TaskBroker)
    (event : BrokerEvent) : Bool :=
  (broker.endedTasks config nanoid event).all fun taskId =>
    !broker.hears taskId || !broker.isDelivering taskId

/-- If the step is the callback of a requester that ends, it is not rejected. -/
def deliveryResolves (broker : TaskBroker) : BrokerEvent → Bool
  | .methodResumes i .rejected => broker.suspended[i]?.all fun method => method.entry.isNone
  | _ => true

theorem isDelivering_of_ledger {taskId : String} (h : broker.ledger.Delivering taskId) :
    broker.isDelivering taskId = true := by
  obtain ⟨requesterId, hmem⟩ := h
  obtain ⟨method, hmethod, hentry⟩ := List.mem_filterMap.mp hmem
  refine List.any_eq_true.mpr ⟨method, hmethod, ?_⟩
  unfold Suspended.entry at hentry
  split at hentry
  · cases hentry
    simp
  · cases hentry

theorem not_delivering_of_endsOnce {event : BrokerEvent} {taskId : String}
    (hends : broker.endsOnce config nanoid event = true)
    (hended : taskId ∈ broker.endedTasks config nanoid event) (hhears : broker.hears taskId = true) :
    ¬broker.ledger.Delivering taskId := by
  intro hdelivering
  have h := List.all_eq_true.mp hends taskId hended
  rw [hhears, isDelivering_of_ledger hdelivering] at h
  cases h

theorem Effect.endedOnce (hnanoid : Function.Injective nanoid) {event : BrokerEvent}
    {ledger : TaskLedger} (heffect : Effect config nanoid broker event ledger)
    (h : broker.ledger.EndedOnce nanoid) (hends : broker.endsOnce config nanoid event = true)
    (hresolves : broker.deliveryResolves event = true) : ledger.EndedOnce nanoid := by
  cases heffect with
  | changes hchanges =>
    induction hchanges with
    | refl => exact h
    | tail _ hchange ih => exact ih.change hchange
  | accept hat hphase hpromise =>
    exact h.accept hnanoid hat.matched (by simp [AcceptCall.entry, hphase, AcceptPhase.stage]) _ _ _
  | fail keep hended hhears =>
    have hkeep : TaskLedger.EndedOnce nanoid
        { broker.ledger with offers := broker.ledger.offers.filter keep } :=
      h.of_made (fun _ => id) (List.Subset.refl _) rfl fun _ _ => id
    exact hkeep.failAll fun x hx hreachable =>
      not_delivering_of_endsOnce hends (hended x hx) (hhears x hx hreachable)
  | @deliver _ taskId task hended hget =>
    refine h.deliver (OrderedMap.mem_keys_iff.mpr ⟨task, hget⟩) fun hsome => ?_
    refine not_delivering_of_endsOnce hends hended (hears_iff.mpr ⟨task, hget, ?_⟩)
    unfold recipient at hsome
    split at hsome
    · assumption
    · cases hsome
  | lose hmethod hentry hdeliveries =>
    simp [deliveryResolves, hmethod, hentry] at hresolves

theorem Effect.onlyMade {event : BrokerEvent} {ledger : TaskLedger}
    (heffect : Effect config nanoid broker event ledger) (h : broker.ledger.OnlyMade nanoid) :
    ledger.OnlyMade nanoid := by
  cases heffect with
  | changes hchanges =>
    induction hchanges with
    | refl => exact h
    | tail _ hchange ih => exact ih.change hchange
  | accept hat hphase hpromise =>
    exact h.accept hat.matched (by simp [AcceptCall.entry, hphase, AcceptPhase.stage]) _ _ _
  | fail keep hended hhears =>
    have hkeep : TaskLedger.OnlyMade nanoid
        { broker.ledger with offers := broker.ledger.offers.filter keep } := h
    exact hkeep.failAll _
  | @deliver _ taskId task hended hget =>
    have htask : taskId ∈ broker.ledger.tasks := OrderedMap.mem_keys_iff.mpr ⟨task, hget⟩
    refine h.of_subset (fun t ht => ?_) fun _ => id
    simp only [TaskLedger.deliver, TaskLedger.taskIds] at ht ⊢
    grind
  | lose hmethod hentry hdeliveries => exact h

theorem taskFor_of_made {taskId : String} (h : broker.ledger.Made nanoid taskId) :
    ∃ request, broker.TaskFor nanoid taskId request := by
  obtain ⟨k, m, hk, hmade, hid⟩ := h
  rw [matched_ledger] at hk
  obtain ⟨call, hcall, rfl⟩ := Option.map_eq_some_iff.mp hk
  exact ⟨call.request, k, call, hcall, hmade, hid, rfl⟩

theorem endedOnce_init (nanoid : ℕ → String) : ({} : TaskBroker).ledger.EndedOnce nanoid :=
  ⟨by simp [ledger], by simp [ledger, Tasks.keys], by simp [ledger], by simp [ledger, Tasks.keys]⟩

/-! ## What is promised -/

/-- The messages `broker:taskdone` and `broker:taskerror` for the task. -/
def terminalMessages (broker : TaskBroker) (taskId : String) : List LogEntry :=
  broker.log.filter fun entry => entry.ended? == some taskId

theorem run_terminalMessages_le_one (hnanoid : Function.Injective nanoid)
    {steps : List (TaskBroker × BrokerEvent)} (h : Run (step config nanoid) {} steps broker)
    (hresolves : ∀ s ∈ steps, s.1.deliveryResolves s.2 = true)
    (hends : ∀ s ∈ steps, s.1.endsOnce config nanoid s.2 = true) (taskId : String) :
    (broker.terminalMessages taskId).length ≤ 1 := by
  have hended : broker.ledger.EndedOnce nanoid :=
    h.invariant (I := fun broker => broker.ledger.EndedOnce nanoid)
      (C := fun broker event => broker.endsOnce config nanoid event = true ∧
        broker.deliveryResolves event = true) (endedOnce_init nanoid)
      (fun _ _ _ hended hC hstep => (step_effect hstep).endedOnce hnanoid hended hC.1 hC.2)
      fun s hs => ⟨hends s hs, hresolves s hs⟩
  rw [terminalMessages, ← List.countP_eq_length_filter, ← List.count_filterMap]
  exact List.nodup_iff_count_le_one.mp hended.nodup taskId

/-- Each task, and each message to a requester about one, is of a call of `acceptOffer` in which
the runner has accepted the offer. -/
theorem run_taskFor {steps : List (TaskBroker × BrokerEvent)}
    (h : Run (step config nanoid) {} steps broker) :
    (∀ taskId ∈ broker.tasks.keys, ∃ request, broker.TaskFor nanoid taskId request) ∧
      ∀ entry ∈ broker.log, ∀ taskId, entry.ended? = some taskId ∨
        (∃ requesterId requestId, entry.ready? = some (requesterId, requestId, taskId)) →
        ∃ request, broker.TaskFor nanoid taskId request := by
  have hmade : broker.ledger.OnlyMade nanoid :=
    h.invariant (C := fun _ _ => True) (I := fun broker => broker.ledger.OnlyMade nanoid)
      (by rintro taskId ⟨⟩) (fun _ _ _ hmade _ hstep => (step_effect hstep).onlyMade hmade)
      fun _ _ => trivial
  refine ⟨fun taskId ht =>
    taskFor_of_made (hmade taskId (List.mem_append_left _ (List.mem_append_left _ ht))), ?_⟩
  rintro entry hentry taskId (hended | ⟨requesterId, requestId, hready⟩)
  · refine taskFor_of_made (hmade taskId (List.mem_append_right _ ?_))
    exact List.mem_filterMap.mpr ⟨entry, hentry, hended⟩
  · refine taskFor_of_made (hmade taskId (List.mem_append_left _ (List.mem_append_right _ ?_)))
    exact List.mem_map.mpr ⟨_, List.mem_filterMap.mpr ⟨entry, hentry, hready⟩, rfl⟩

/-- Identifiers that differ. -/
def letters (k : ℕ) : String := String.ofList (List.replicate (k + 1) 'a')

theorem letters_injective : Function.Injective letters := by
  intro i j h
  have hlength := congrArg (fun s => s.toList.length) h
  simpa [letters] using hlength

/-- A task is run, up to the callback of the requester that gets its result. -/
def taskDoneEvents : List BrokerEvent :=
  [.registerRunner ⟨"runner"⟩, .registerRequester "requester",
    .requesterMessage "requester" (.taskRequest "request" "javascript" 0),
    .runnerMessage "runner" (.taskOffer "offer" "javascript" 5000 0 1), .acceptResumes 0 .resolved,
    .runnerMessage "runner" (.taskAccepted "a"), .acceptResumes 0 .resolved,
    .acceptResumes 0 .resolved, .requesterMessage "requester" (.taskSettings "a" .null),
    .acceptResumes 0 .resolved, .acceptResumes 0 .resolved,
    .runnerMessage "runner" (.taskDone "a" .null)]

/-- A task whose result is on its way to the requester. -/
theorem run_taskFor_delivering :
    ∃ steps broker, Run (step .default letters) {} steps broker ∧ broker.tasks.keys = ["a"] ∧
      ∀ taskId ∈ broker.tasks.keys, ∃ request, broker.TaskFor letters taskId request := by
  have hevents : (runSteps (step .default letters) {} taskDoneEvents).map
      (fun r => r.2.tasks.keys) = .ok ["a"] := by
    decide
  obtain ⟨steps, broker, hrun, -, hkeys⟩ := exists_run hevents
  exact ⟨steps, broker, hrun, hkeys, (run_taskFor hrun).1⟩

/-- The runner leaves after the result was delivered. -/
theorem run_terminalMessages_le_one_delivered :
    ∃ steps broker, Run (step .default letters) {} steps broker ∧
      (broker.terminalMessages "a").length = 1 ∧
      ∀ taskId, (broker.terminalMessages taskId).length ≤ 1 := by
  have hevents : (runSteps (step .default letters) {}
      (taskDoneEvents ++ [.methodResumes 0 .resolved, .deregisterRunner "runner" "gone"])).map
      (fun r => ((r.2.terminalMessages "a").length,
        r.1.all fun s => s.1.deliveryResolves s.2 && s.1.endsOnce .default letters s.2)) =
        .ok (1, true) := by
    decide
  obtain ⟨steps, broker, hrun, -, h⟩ := exists_run hevents
  obtain ⟨hlength, hC⟩ := Prod.mk.inj h
  have hC' : ∀ s ∈ steps, s.1.deliveryResolves s.2 = true ∧
      s.1.endsOnce .default letters s.2 = true :=
    fun s hs => Bool.and_eq_true_iff.mp (List.all_eq_true.mp hC s hs)
  exact ⟨steps, broker, hrun, hlength, run_terminalMessages_le_one letters_injective hrun
    (fun s hs => (hC' s hs).1) fun s hs => (hC' s hs).2⟩

/-- The runner leaves while the result is being delivered. -/
theorem run_endedTwice :
    ∃ steps broker, Run (step .default letters) {} steps broker ∧
      (∀ s ∈ steps, s.1.deliveryResolves s.2 = true) ∧
      ¬(broker.terminalMessages "a").length ≤ 1 := by
  have hevents : (runSteps (step .default letters) {}
      (taskDoneEvents ++ [.deregisterRunner "runner" "gone", .methodResumes 0 .resolved])).map
      (fun r => ((r.2.terminalMessages "a").length, r.1.all fun s => s.1.deliveryResolves s.2)) =
        .ok (2, true) := by
    decide
  obtain ⟨steps, broker, hrun, -, h⟩ := exists_run hevents
  obtain ⟨hlength, hresolves⟩ := Prod.mk.inj h
  refine ⟨steps, broker, hrun, fun s hs => List.all_eq_true.mp hresolves s hs, ?_⟩
  rw [hlength]
  decide

end TaskBroker

end N8n
