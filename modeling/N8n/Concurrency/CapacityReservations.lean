import N8n.Concurrency.ActiveExecutions

/-!
# Who holds the capacity

A call of `add` that holds a reservation either has its execution still to register, or the
callback of its execution is still to run, or it has the entry of its execution, whose promise
has not settled (`Tracked`). So once all callbacks have run, each slot that is held belongs to an
active execution whose promise has not settled (`run_slotsOwned`).

This needs the steps to spare the reservations (`spares`). Stopping an execution that is waiting
deletes its entry without settling the promise. An execution that is registered takes the place
of one whose promise has not settled, or is deleted by the callback of the one before. And
`release` throws for a mode that has no queue once the service is enabled.
-/

open Lib

namespace N8n

/-! ## The calls that hold a reservation -/

namespace AddCall

def holds (c : AddCall) : Bool := c.acquiredReservation.isSome

def execution (c : AddCall) : Option ExecutingWorkflowData :=
  match c.progress with
  | .added execution => some execution
  | _ => none

/-- The callback of the execution is to run. -/
def willRun (c : AddCall) : Bool := c.execution.any fun e => e.settled && !e.callbackRan

/-- The callback of the execution is to run, and will delete the entry. -/
def willDelete (c : AddCall) : Bool :=
  c.execution.any fun e => e.settled && !e.callbackRan && e.status ≠ .waiting

/-- The promise of the execution has not settled. -/
def unsettled (c : AddCall) : Bool := c.execution.any fun e => !e.settled

/-- The call is on its way to be registered. -/
def inFlight (c : AddCall) : Bool := c.progress = .letThrough || c.progress = .updating

/-- What holds of each call by itself. -/
structure Sound (c : AddCall) : Prop where
  reservation : ∀ target, c.acquiredReservation = some target → target.mode ≠ .evaluation
  throttled : c.progress = .throttled ∨ c.progress = .letThrough → c.executionMode ≠ .evaluation
  ran : ∀ e, c.execution = some e → e.callbackRan = true → e.settled = true

end AddCall

def ExecutionEvent.isShutdown : ExecutionEvent → Bool
  | .shutdown _ => true
  | _ => false

namespace ActiveExecutions

/-- The call that made the entry of the execution. -/
def entryOf (s : ActiveExecutions) (executionId : String) : Option AddCall :=
  (s.activeExecutions.get? executionId).bind fun call => s.calls[call]?

/-! ## Slots -/

/-- All promise callbacks have run : those of the promises that have settled, and those that
take a call of `add` from its reservation to its registration. -/
def Quiet (s : ActiveExecutions) : Prop :=
  ∀ c ∈ s.calls, c.inFlight = false ∧ c.willRun = false

def isQuiet (s : ActiveExecutions) : Bool := s.calls.all fun c => !c.inFlight && !c.willRun

theorem quiet_iff {s : ActiveExecutions} : s.Quiet ↔ s.isQuiet = true := by
  simp [Quiet, isQuiet]

/-- Each slot that is held belongs to an active execution whose promise has not settled. -/
def SlotsOwned (s : ActiveExecutions) : Prop :=
  ∀ call c, s.calls[call]? = some c → c.holds = true →
    s.activeExecutions.get? c.executionId = some call ∧ c.unsettled = true

/-- No reservation is lost when the execution is registered : the entry it replaces has none that
only its promise would release, and no callback will delete the new entry. -/
def mayRegister (s : ActiveExecutions) (executionId : String) (holds : Bool) : Bool :=
  (s.entryOf executionId).all (fun c => !(c.holds && c.unsettled)) &&
    (holds → s.calls.all fun c => c.executionId = executionId → !c.willDelete)

/-- `release` does not throw. -/
def mayRelease (s : ActiveExecutions) (c : AddCall) : Bool :=
  c.acquiredReservation.all fun target => target.mode = .agent → !s.concurrencyControl.isEnabled

/-- Whether a call registers its execution without awaiting anything. -/
def registersAtOnce (s : ActiveExecutions) (c : AddCall) : Bool :=
  c.maybeExecutionId = none && s.executionsConfig.mode = .queue

/-- The event does not keep a reservation from being released. -/
def spares (s : ActiveExecutions) : ExecutionEvent → Bool
  | .created call executionId => s.calls[call]?.all fun c =>
      c.executionMode = .evaluation ∧ s.registersAtOnce c → s.mayRegister executionId c.holds
  | .goesOn call => s.calls[call]?.all fun c =>
      s.registersAtOnce c → s.mayRegister c.executionId true
  | .updated call => s.calls[call]?.all fun c => s.mayRegister c.executionId c.holds
  | .fails call | .callbackRuns call => s.calls[call]?.all s.mayRelease
  | .stopExecution executionId => (s.entryOf executionId).all fun c =>
      c.execution.any (fun e => e.status = .waiting) → !(c.holds && c.unsettled)
  | _ => true

/-! ## Tracked reservations -/

/-- No callback that is to run will delete the entry of the execution. -/
def NoDeleter (calls : List AddCall) (executionId : String) : Prop :=
  ∀ (call : ℕ) (c : AddCall), calls[call]? = some c → c.executionId = executionId → c.willDelete = false

/-- Where each reservation is held. `activeExecutions` names the calls. -/
structure Tracked (activeExecutions : OrderedMap String ℕ) (calls : List AddCall) : Prop where
  sound : ∀ (call : ℕ) (c : AddCall), calls[call]? = some c → c.Sound
  entries : ∀ executionId call, activeExecutions.get? executionId = some call →
    ∃ c, calls[call]? = some c ∧ c.executionId = executionId ∧ c.execution ≠ none
  held : ∀ call c, calls[call]? = some c → c.holds = true →
    c.inFlight = true ∨ c.willRun = true ∨
      (activeExecutions.get? c.executionId = some call ∧ c.unsettled = true ∧
        NoDeleter calls c.executionId)

variable {activeExecutions : OrderedMap String ℕ} {calls : List AddCall} {call : ℕ}
  {c c' : AddCall} {executionId : String} {s s' : ActiveExecutions}

theorem execution_ne_none_of_willDelete (h : c.willDelete = true) : c.execution ≠ none := by
  intro hnone
  simp [AddCall.willDelete, hnone] at h

theorem execution_ne_none_of_unsettled (h : c.unsettled = true) : c.execution ≠ none := by
  intro hnone
  simp [AddCall.unsettled, hnone] at h

theorem willRun_of_willDelete (h : c.willDelete = true) : c.willRun = true := by
  obtain ⟨e, he, hdelete⟩ := (Option.any_eq_true _ _).mp h
  simp only [Bool.and_eq_true] at hdelete
  exact (Option.any_eq_true _ _).mpr ⟨e, he, by simpa using hdelete.1⟩

theorem willRun_of_unsettled (h : c.unsettled = true) : c.willRun = false := by
  obtain ⟨e, he, hunsettled⟩ := (Option.any_eq_true _ _).mp h
  simp only [Bool.not_eq_true'] at hunsettled
  simp [AddCall.willRun, he, hunsettled]

theorem willDelete_of_unsettled (h : c.unsettled = true) : c.willDelete = false := by
  by_contra hdelete
  have hrun := willRun_of_willDelete (Bool.not_eq_false _ ▸ hdelete)
  rw [willRun_of_unsettled h] at hrun
  cases hrun

theorem execution_eq_none_of_inFlight (h : c.inFlight = true) : c.execution = none := by
  rcases (by simpa [AddCall.inFlight] using h : c.progress = .letThrough ∨ c.progress = .updating)
    with h | h <;> simp [AddCall.execution, h]

/-- What a reservation needs that is held for a promise that has not settled. -/
theorem Tracked.unsettled (h : Tracked activeExecutions calls) (hcall : calls[call]? = some c)
    (hholds : c.holds = true) (hunsettled : c.unsettled = true) :
    activeExecutions.get? c.executionId = some call ∧ NoDeleter calls c.executionId := by
  rcases h.held call c hcall hholds with hup | hrun | ⟨hentry, -, hnone⟩
  · exact absurd (execution_eq_none_of_inFlight hup) (execution_ne_none_of_unsettled hunsettled)
  · rw [willRun_of_unsettled hunsettled] at hrun
    cases hrun
  · exact ⟨hentry, hnone⟩

theorem getElem?_modify_cases {change : AddCall → AddCall} (hcall : calls[call]? = some c)
    {other : ℕ} {d : AddCall} (h : (calls.modify call change)[other]? = some d) :
    (other = call ∧ d = change c) ∨ (other ≠ call ∧ calls[other]? = some d) := by
  by_cases hother : call = other
  · subst hother
    rw [List.getElem?_modify_eq, hcall] at h
    exact .inl ⟨rfl, (Option.some.inj h).symm⟩
  · rw [List.getElem?_modify_ne change calls hother] at h
    exact .inr ⟨Ne.symm hother, h⟩

/-- One call goes on, and no entry changes. -/
theorem Tracked.modify (h : Tracked activeExecutions calls) {change : AddCall → AddCall}
    (hcall : calls[call]? = some c) (hsound : (change c).Sound) (hid : c.execution ≠ none →
      (change c).executionId = c.executionId ∧ (change c).execution ≠ none)
    (hheld : (change c).holds = true → (change c).inFlight = true ∨ (change c).willRun = true ∨
      (c.holds = true ∧ c.unsettled = true ∧ (change c).unsettled = true))
    (hdelete : (change c).willDelete = true →
      c.willDelete = true ∨ activeExecutions.get? c.executionId = some call) :
    Tracked activeExecutions (calls.modify call change) := by
  have hexecution : activeExecutions.get? c.executionId = some call → c.execution ≠ none := by
    intro hentry
    obtain ⟨d, hd, -, hexecution⟩ := h.entries _ _ hentry
    rwa [Option.some.inj (hcall.symm.trans hd)]
  -- a call that deletes the entry of a reservation was there before, or has the entry itself
  have hkept : ∀ executionId holder, activeExecutions.get? executionId = some holder →
      (holder = call → (change c).unsettled = true) → NoDeleter calls executionId →
      NoDeleter (calls.modify call change) executionId := by
    intro executionId holder hentry hself hnone other d hd hdid
    rcases getElem?_modify_cases hcall hd with ⟨rfl, rfl⟩ | ⟨-, hd⟩
    · by_contra hdel
      rcases hdelete (Bool.not_eq_false _ ▸ hdel) with hdel' | hentry'
      · have hc := (hid (execution_ne_none_of_willDelete hdel')).1.symm.trans hdid
        rw [hnone other c hcall hc] at hdel'
        cases hdel'
      · rw [← (hid (hexecution hentry')).1, hdid, hentry] at hentry'
        exact hdel (willDelete_of_unsettled (hself (Option.some.inj hentry')))
    · exact hnone other d hd hdid
  refine ⟨fun other d hd => ?_, fun executionId other hentry => ?_, fun other d hd hholds => ?_⟩
  · rcases getElem?_modify_cases hcall hd with ⟨rfl, rfl⟩ | ⟨-, hd⟩
    · exact hsound
    · exact h.sound other d hd
  · obtain ⟨d, hd, rfl, hadded⟩ := h.entries executionId other hentry
    by_cases hother : call = other
    · subst hother
      obtain rfl := Option.some.inj (hcall.symm.trans hd)
      exact ⟨change c, by simp [hcall], hid hadded⟩
    · exact ⟨d, (List.getElem?_modify_ne change calls hother).trans hd, rfl, hadded⟩
  · rcases getElem?_modify_cases hcall hd with ⟨rfl, rfl⟩ | ⟨hother, hd⟩
    · rcases hheld hholds with hup | hrun | ⟨hc, hunsettled, hunsettled'⟩
      · exact .inl hup
      · exact .inr (.inl hrun)
      · obtain ⟨hentry, hnone⟩ := h.unsettled hcall hc hunsettled
        rw [(hid (execution_ne_none_of_unsettled hunsettled)).1]
        exact .inr (.inr ⟨hentry, hunsettled', hkept _ _ hentry (fun _ => hunsettled') hnone⟩)
    · rcases h.held other d hd hholds with hup | hrun | ⟨hentry, hunsettled, hnone⟩
      · exact .inl hup
      · exact .inr (.inl hrun)
      · exact .inr (.inr ⟨hentry, hunsettled,
          hkept _ _ hentry (fun hsame => absurd hsame hother) hnone⟩)

/-- An entry is deleted that no reservation needs. -/
theorem Tracked.delete (h : Tracked activeExecutions calls)
    (hentry : ∀ call c, activeExecutions.get? executionId = some call → calls[call]? = some c →
      c.holds = true → c.unsettled = false) :
    Tracked (activeExecutions.delete executionId) calls := by
  refine ⟨h.sound, fun other call hother => ?_, fun call c hcall hholds => ?_⟩
  · rw [OrderedMap.get?_delete] at hother
    split at hother
    · cases hother
    · exact h.entries other call hother
  · rcases h.held call c hcall hholds with hup | hrun | ⟨hget, hunsettled, hnone⟩
    · exact .inl hup
    · exact .inr (.inl hrun)
    · have hne : executionId ≠ c.executionId := by
        rintro rfl
        rw [hentry call c hget hcall hholds] at hunsettled
        cases hunsettled
      exact .inr (.inr ⟨(OrderedMap.get?_delete_of_ne _ hne).trans hget, hunsettled, hnone⟩)

theorem getElem?_append_cases {d : AddCall} (h : (calls ++ [c])[call]? = some d) :
    calls[call]? = some d ∨ d = c := by
  rw [List.getElem?_append] at h
  split at h
  · exact .inl h
  · exact .inr (List.mem_singleton.mp (List.mem_of_getElem? h))

/-- A call is made that holds no reservation and has no execution. -/
theorem Tracked.append (h : Tracked activeExecutions calls) (hsound : c.Sound) (hholds : c.holds = false)
    (hexecution : c.execution = none) : Tracked activeExecutions (calls ++ [c]) := by
  have hnone : ∀ {executionId}, NoDeleter calls executionId → NoDeleter (calls ++ [c]) executionId := by
    intro executionId hnone other d hd hid
    rcases getElem?_append_cases hd with hd | rfl
    · exact hnone other d hd hid
    · by_contra hdelete
      exact execution_ne_none_of_willDelete (Bool.not_eq_false _ ▸ hdelete) hexecution
  refine ⟨fun call d hd => ?_, fun executionId call hentry => ?_, fun call d hd hd' => ?_⟩
  · rcases getElem?_append_cases hd with hd | rfl
    · exact h.sound call d hd
    · exact hsound
  · obtain ⟨d, hd, hid⟩ := h.entries executionId call hentry
    exact ⟨d, (List.getElem?_append_left (List.getElem?_eq_some_iff.mp hd).1).trans hd, hid⟩
  · rcases getElem?_append_cases hd with hd | rfl
    · rcases h.held call d hd hd' with hup | hrun | ⟨hentry, hunsettled, hnone'⟩
      · exact .inl hup
      · exact .inr (.inl hrun)
      · exact .inr (.inr ⟨hentry, hunsettled, hnone hnone'⟩)
    · rw [hholds] at hd'
      cases hd'

/-- Registering the execution loses no reservation. -/
structure Free (activeExecutions : OrderedMap String ℕ) (calls : List AddCall)
    (executionId : String) (holds : Bool) : Prop where
  entry : ∀ (call : ℕ) (c : AddCall), activeExecutions.get? executionId = some call →
    calls[call]? = some c → c.holds = true → c.unsettled = false
  deleter : holds = true → NoDeleter calls executionId

/-- A call registers its execution. -/
theorem Tracked.register (h : Tracked activeExecutions calls) (hcall : calls[call]? = some c)
    (hexecution : c.execution = none) {status : ExecutionStatus}
    (hfree : Free activeExecutions calls c.executionId c.holds) :
    Tracked (activeExecutions.set c.executionId call)
      (calls.modify call fun c => { c with progress := .added { status } }) := by
  have hkept : ∀ {executionId}, NoDeleter calls executionId →
      NoDeleter (calls.modify call fun c => { c with progress := .added { status } }) executionId := by
    intro executionId hnone other d hd hid
    rcases getElem?_modify_cases hcall hd with ⟨rfl, rfl⟩ | ⟨-, hd⟩
    · rfl
    · exact hnone other d hd hid
  refine ⟨fun other d hd => ?_, fun executionId other hother => ?_, fun other d hd hholds => ?_⟩
  · rcases getElem?_modify_cases hcall hd with ⟨rfl, rfl⟩ | ⟨-, hd⟩
    · refine ⟨(h.sound other c hcall).reservation, fun h => by simp at h, fun e he hran => ?_⟩
      obtain rfl := Option.some.inj he
      cases hran
    · exact h.sound other d hd
  · rw [OrderedMap.get?_set] at hother
    split at hother
    · rename_i hid
      obtain rfl := Option.some.inj hother
      exact ⟨{ c with progress := .added { status } }, by simp [hcall], by simpa using hid, by simp [AddCall.execution]⟩
    · obtain ⟨d, hd, hid, hadded⟩ := h.entries executionId other hother
      have hne : call ≠ other := by
        rintro rfl
        exact hadded (Option.some.inj (hcall.symm.trans hd) ▸ hexecution)
      exact ⟨d, (List.getElem?_modify_ne _ calls hne).trans hd, hid, hadded⟩
  · rcases getElem?_modify_cases hcall hd with ⟨rfl, rfl⟩ | ⟨-, hd⟩
    · exact .inr (.inr ⟨OrderedMap.get?_set_self _ _ _, rfl, hkept (hfree.deleter hholds)⟩)
    · rcases h.held other d hd hholds with hup | hrun | ⟨hget, hunsettled, hnone'⟩
      · exact .inl hup
      · exact .inr (.inl hrun)
      · have hne : c.executionId ≠ d.executionId := by
          intro hid
          rw [hfree.entry other d (hid ▸ hget) hd hholds] at hunsettled
          cases hunsettled
        exact .inr (.inr ⟨(OrderedMap.get?_set_of_ne _ _ hne).trans hget, hunsettled, hkept hnone'⟩)

/-! ## Releasing -/

theorem callQueue_ok {β : Type} {service : ConcurrencyControlService} {mode : WorkflowExecuteMode}
    {call : ConcurrencyQueue → ConcurrencyQueue × β} (hmode : mode ≠ .evaluation)
    (hagent : mode = .agent → service.isEnabled = false) :
    ∃ after, service.callQueue mode call = .ok after := by
  have hresolved : service.ensureResolvedFor mode = .ok service := if_neg hmode
  unfold ConcurrencyControlService.callQueue
  rw [hresolved]
  refine exists_bind_eq_ok ⟨service, rfl⟩ fun service' hservice => ?_
  obtain rfl := Except.ok.inj hservice
  split
  · exact ⟨_, rfl⟩
  · rename_i henabled
    refine exists_bind_eq_ok (exists_bind_eq_ok ?_ fun _ _ => ⟨_, rfl⟩) fun queue _ => ?_
    · cases mode <;> simp_all [ConcurrencyControlService.queueType]
    · rcases queue with _ | ⟨type, queue⟩ <;> exact ⟨_, rfl⟩

/-- Of the calls, letting one through changes at most one that is throttled. -/
theorem letThroughOne_calls (s : ActiveExecutions) (through : ConcurrencyQueueType × String) :
    (s.letThroughOne through).activeExecutions = s.activeExecutions ∧
      ((s.letThroughOne through).calls = s.calls ∨ ∃ call c, s.calls[call]? = some c ∧
        c.progress = .throttled ∧ (s.letThroughOne through).calls =
          s.calls.modify call fun c => { c with progress := .letThrough }) := by
  obtain ⟨type, executionId⟩ := through
  cases type with
  | evaluation => exact ⟨rfl, .inl rfl⟩
  | production =>
    simp only [letThroughOne]
    split
    · rename_i call hfind
      have hwaits := List.find?_some hfind
      obtain ⟨c, hc, hwaits⟩ := (Option.any_eq_true _ _).mp hwaits
      simp only [decide_eq_true_eq] at hwaits
      exact ⟨rfl, .inr ⟨call, c, hc, hwaits.1, rfl⟩⟩
    · exact ⟨rfl, .inl rfl⟩

theorem letThroughOne_call {through : ConcurrencyQueueType × String} (hcall : s.calls[call]? = some c)
    (hprogress : c.progress ≠ .throttled) : (s.letThroughOne through).calls[call]? = some c := by
  obtain ⟨-, hcalls | ⟨other, d, hd, hthrottled, hcalls⟩⟩ := letThroughOne_calls s through
  · rw [hcalls, hcall]
  · have hne : other ≠ call := by
      rintro rfl
      exact hprogress (Option.some.inj (hcall.symm.trans hd) ▸ hthrottled)
    rw [hcalls, List.getElem?_modify_ne _ _ hne, hcall]

theorem Tracked.letThroughOne (h : Tracked s.activeExecutions s.calls)
    (through : ConcurrencyQueueType × String) :
    Tracked (s.letThroughOne through).activeExecutions (s.letThroughOne through).calls := by
  obtain ⟨hactive, hcalls | ⟨call, c, hc, hthrottled, hcalls⟩⟩ := letThroughOne_calls s through
  · rw [hactive, hcalls]
    exact h
  · rw [hactive, hcalls]
    have hexecution : c.execution = none := by simp [AddCall.execution, hthrottled]
    obtain ⟨hreservation, hmode, -⟩ := h.sound call c hc
    refine h.modify hc ⟨hreservation, fun _ => hmode (.inl hthrottled), fun e he => by cases he⟩
      (absurd hexecution) (fun hholds => ?_) (fun hdelete => by cases hdelete)
    rcases h.held call c hc hholds with hup | hrun | ⟨-, hunsettled, -⟩
    · simp [AddCall.inFlight, hthrottled] at hup
    · simp [AddCall.willRun, hexecution] at hrun
    · exact absurd hexecution (execution_ne_none_of_unsettled hunsettled)

theorem release_ok {service : ConcurrencyControlService} {mode : WorkflowExecuteMode}
    (hmode : mode ≠ .evaluation) (hagent : mode = .agent → service.isEnabled = false) :
    ∃ after, service.release mode = .ok after :=
  exists_bind_eq_ok (callQueue_ok hmode hagent) fun _ _ => ⟨_, rfl⟩

theorem Tracked.foldl_letThroughOne (h : Tracked s.activeExecutions s.calls)
    (through : Option (ConcurrencyQueueType × String)) :
    Tracked (through.toList.foldl ActiveExecutions.letThroughOne s).activeExecutions
      (through.toList.foldl ActiveExecutions.letThroughOne s).calls := by
  cases through with
  | none => exact h
  | some through => exact h.letThroughOne through

/-- The call has released its reservation, if it had one. -/
theorem Tracked.releaseReservation (h : Tracked s.activeExecutions s.calls)
    (hcall : s.calls[call]? = some c) (hprogress : c.progress ≠ .throttled)
    (hmay : s.mayRelease c = true) :
    ∃ s', s.releaseReservation call = .ok s' ∧ Tracked s'.activeExecutions s'.calls ∧
      s'.activeExecutions = s.activeExecutions ∧
      s'.calls[call]? = some { c with acquiredReservation := none } := by
  unfold ActiveExecutions.releaseReservation
  rw [hcall, Option.bind_some]
  cases hacquired : c.acquiredReservation with
  | none =>
    refine ⟨s, rfl, h, rfl, ?_⟩
    rw [hcall, ← hacquired]
  | some target =>
    have hagent : target.mode = .agent → s.concurrencyControl.isEnabled = false := by
      intro hagent
      simpa [mayRelease, hacquired, hagent] using hmay
    obtain ⟨⟨concurrencyControl, through⟩, hrelease⟩ :=
      release_ok ((h.sound call c hcall).reservation target hacquired) hagent
    have hthrough := Tracked.foldl_letThroughOne (s := { s with concurrencyControl }) h through
    have hcall' : (through.toList.foldl ActiveExecutions.letThroughOne
        { s with concurrencyControl }).calls[call]? = some c := by
      cases through with
      | none => exact hcall
      | some through => exact letThroughOne_call (s := { s with concurrencyControl }) hcall hprogress
    refine ⟨_, bind_eq_ok.mpr ⟨_, hrelease, rfl⟩, ?_, ?_, ?_⟩
    · obtain ⟨-, hmode, hran⟩ := h.sound call c hcall
      exact hthrough.modify hcall' ⟨fun _ h => (by cases h), hmode, hran⟩ (fun h => ⟨rfl, h⟩)
        (fun h => by cases h) .inl
    · cases through with
      | none => rfl
      | some through => exact (letThroughOne_calls _ through).1
    · exact (List.getElem?_modify_eq _ _ _).trans (congrArg _ hcall')

/-! ## The calls of `add` -/

/-- A call that has neither execution nor reservation. -/
theorem Tracked.setProgress_of_not_holds (h : Tracked s.activeExecutions s.calls)
    (hcall : s.calls[call]? = some c) (hexecution : c.execution = none) (hholds : c.holds = false)
    {progress : AddProgress} (hmode : c.executionMode ≠ .evaluation ∨ progress = .rejected)
    (hprogress : ∀ execution, progress ≠ .added execution) :
    Tracked (s.setProgress call progress).activeExecutions (s.setProgress call progress).calls := by
  obtain ⟨hreservation, -, -⟩ := h.sound call c hcall
  have hnone : AddCall.execution { c with progress } = none := by
    cases progress <;> first | rfl | exact absurd rfl (hprogress _)
  refine h.modify hcall ⟨hreservation, fun hthrottled => ?_, fun e he => ?_⟩ (absurd hexecution)
    (fun h => ?_) (fun hdelete => ?_)
  · rcases hmode with hmode | rfl
    · exact hmode
    · simp at hthrottled
  · rw [hnone] at he
    cases he
  · exact absurd h (by simpa [AddCall.holds] using hholds)
  · exact absurd hnone (execution_ne_none_of_willDelete hdelete)

theorem Tracked.reject (h : Tracked s.activeExecutions s.calls) (hcall : s.calls[call]? = some c)
    (hprogress : c.progress = .creating ∨ c.progress = .updating) (hmay : s.mayRelease c = true) :
    Tracked (s.reject call).activeExecutions (s.reject call).calls := by
  have hthrottled : c.progress ≠ .throttled := by
    rcases hprogress with hprogress | hprogress <;> simp [hprogress]
  obtain ⟨s', hs', htracked, -, hcall'⟩ := h.releaseReservation hcall hthrottled hmay
  simp only [ActiveExecutions.reject, hs']
  refine htracked.setProgress_of_not_holds hcall' ?_ rfl (.inr rfl) (by simp)
  rcases hprogress with hprogress | hprogress <;> simp [AddCall.execution, hprogress]

theorem free_of_mayRegister {holds : Bool} (hmay : s.mayRegister executionId holds = true) :
    Free s.activeExecutions s.calls executionId holds := by
  simp only [mayRegister, Bool.and_eq_true] at hmay
  obtain ⟨hentry, hnone⟩ := hmay
  refine ⟨fun call c hget hc hholds => ?_, fun hholds call c hc hid => ?_⟩
  · simpa [entryOf, hget, hc, hholds] using hentry
  · have hnone' : ∀ c ∈ s.calls, ¬c.executionId = executionId ∨ c.willDelete = false := by
      simpa [hholds] using hnone
    exact (hnone' c (List.mem_of_getElem? hc)).resolve_left (not_not_intro hid)

theorem Tracked.markRunning (h : Tracked s.activeExecutions s.calls)
    (hcall : s.calls[call]? = some c) (hexecution : c.execution = none)
    (hfree : s.registersAtOnce c = true → Free s.activeExecutions s.calls c.executionId c.holds) :
    Tracked (s.markRunning call c).activeExecutions (s.markRunning call c).calls := by
  unfold ActiveExecutions.markRunning
  split
  · rename_i hnew
    exact h.register hcall hexecution (hfree (by simpa [registersAtOnce] using hnew))
  · obtain ⟨hreservation, -, -⟩ := h.sound call c hcall
    exact h.modify hcall ⟨hreservation, fun h => by simp at h, fun e he => by cases he⟩
      (absurd hexecution) (fun _ => .inl rfl) (fun hdelete => by cases hdelete)

theorem Tracked.reserve (h : Tracked s.activeExecutions s.calls) (hcall : s.calls[call]? = some c)
    (hexecution : c.execution = none) (hholds : c.holds = false)
    (hfree : c.executionMode = .evaluation → s.registersAtOnce c = true →
      Free s.activeExecutions s.calls c.executionId c.holds) :
    Tracked (s.reserve call c).activeExecutions (s.reserve call c).calls := by
  unfold ActiveExecutions.reserve
  split
  · rename_i hmode
    exact h.markRunning hcall hexecution (hfree hmode)
  · rename_i hmode
    split
    · exact h.setProgress_of_not_holds hcall hexecution hholds (.inl hmode) (by simp)
    · rename_i concurrencyControl _
      exact Tracked.setProgress_of_not_holds (s := { s with concurrencyControl }) h hcall hexecution
        hholds (.inl hmode) (by simp)
    · rename_i concurrencyControl _
      exact Tracked.setProgress_of_not_holds
        (s := { s with concurrencyControl, throttled := s.throttled ++ [call] }) h hcall hexecution
        hholds (.inl hmode) (by simp)

theorem Tracked.goOn (h : Tracked s.activeExecutions s.calls) (hcall : s.calls[call]? = some c)
    (hprogress : c.progress = .letThrough)
    (hfree : s.registersAtOnce c = true → Free s.activeExecutions s.calls c.executionId true) :
    Tracked (s.goOn call c).activeExecutions (s.goOn call c).calls := by
  have hexecution : c.execution = none := by simp [AddCall.execution, hprogress]
  obtain ⟨-, hmode, -⟩ := h.sound call c hcall
  let reservation : CapacityTarget := { executionId := c.executionId, mode := c.executionMode }
  let acquire := fun c : AddCall => { c with acquiredReservation := some reservation }
  have hacquired : Tracked s.activeExecutions (s.calls.modify call acquire) :=
    h.modify hcall ⟨fun target htarget => Option.some.inj htarget ▸ hmode (.inr hprogress), hmode,
      fun e he => absurd (hexecution.symm.trans he) (by simp)⟩ (absurd hexecution)
      (fun _ => .inl (by simp [acquire, AddCall.inFlight, hprogress])) .inl
  have hcall' : (s.calls.modify call acquire)[call]? = some (acquire c) := by simp [hcall]
  refine Tracked.markRunning (s := { s with calls := s.calls.modify call acquire })
    (c := acquire c) hacquired hcall' hexecution fun hnew => ⟨fun other d hget hd hholds => ?_, fun _ other d hd hid => ?_⟩
  · rcases getElem?_modify_cases hcall hd with ⟨rfl, rfl⟩ | ⟨-, hd⟩
    · simp [acquire, AddCall.unsettled, AddCall.execution, hprogress]
    · exact (hfree hnew).entry other d hget hd hholds
  · rcases getElem?_modify_cases hcall hd with ⟨rfl, rfl⟩ | ⟨-, hd⟩
    · simp [acquire, AddCall.willDelete, AddCall.execution, hprogress]
    · exact (hfree hnew).deleter rfl other d hd hid

/-! ## Active executions -/

variable {execution : ExecutingWorkflowData}

theorem execution?_eq_some (h : s.execution? executionId = some (call, execution)) :
    s.activeExecutions.get? executionId = some call ∧
      ∃ c, s.calls[call]? = some c ∧ c.progress = .added execution := by
  simp only [execution?, progress?, Option.bind_eq_some_iff] at h
  obtain ⟨call', hget, progress, hprogress, h⟩ := h
  obtain ⟨c, hc, rfl⟩ := Option.map_eq_some_iff.mp hprogress
  cases hadded : c.progress with
  | added execution' =>
    simp only [hadded, Option.some.injEq, Prod.mk.injEq] at h
    obtain ⟨rfl, rfl⟩ := h
    exact ⟨hget, c, hc, hadded⟩
  | _ => simp [hadded] at h

/-- The execution of an entry changes. -/
theorem Tracked.setExecution (h : Tracked s.activeExecutions s.calls)
    {execution' : ExecutingWorkflowData}
    (hentry : s.execution? executionId = some (call, execution))
    (hsettled : execution.settled = true → execution'.settled = true)
    (hran : execution'.callbackRan = execution.callbackRan) :
    Tracked (s.setProgress call (.added execution')).activeExecutions
      (s.setProgress call (.added execution')).calls := by
  obtain ⟨hget, c, hc, hprogress⟩ := execution?_eq_some hentry
  have hexecution : c.execution = some execution := by simp [AddCall.execution, hprogress]
  obtain ⟨d, hd, hid, -⟩ := h.entries executionId call hget
  obtain rfl := Option.some.inj (hc.symm.trans hd)
  obtain ⟨hreservation, -, hran'⟩ := h.sound call c hc
  refine h.modify hc ⟨hreservation, fun h => by simp at h, fun e he => ?_⟩
    (fun _ => ⟨rfl, by simp [AddCall.execution]⟩) (fun hholds => ?_) (fun _ => .inr (hid ▸ hget))
  · obtain rfl := Option.some.inj he
    rw [hran]
    exact fun hran => hsettled (hran' execution hexecution hran)
  · have hnotRan : execution.settled = false → execution.callbackRan = false := by
      intro hsettled
      by_contra hran
      rw [hran' execution hexecution (Bool.not_eq_false _ ▸ hran)] at hsettled
      cases hsettled
    rcases h.held call c hc hholds with hup | hrun | ⟨-, hunsettled, -⟩
    · rw [execution_eq_none_of_inFlight hup] at hexecution
      cases hexecution
    · have hrun : execution.settled = true ∧ execution.callbackRan = false := by
        simpa [AddCall.willRun, hexecution] using hrun
      exact .inr (.inl (by simp [AddCall.willRun, AddCall.execution, hsettled hrun.1, hran, hrun.2]))
    · have hpending : execution.settled = false := by
        simpa [AddCall.unsettled, hexecution] using hunsettled
      cases hafter : execution'.settled with
      | true =>
        exact .inr (.inl
          (by simp [AddCall.willRun, AddCall.execution, hafter, hran, hnotRan hpending]))
      | false =>
        exact .inr (.inr ⟨hholds, hunsettled, by simp [AddCall.unsettled, AddCall.execution, hafter]⟩)

theorem Tracked.stopExecution (h : Tracked s.activeExecutions s.calls)
    (hspares : s.spares (.stopExecution executionId) = true) :
    Tracked (s.stopExecution executionId).activeExecutions (s.stopExecution executionId).calls := by
  unfold ActiveExecutions.stopExecution
  split
  · exact h
  · rename_i call execution hentry
    split
    · rename_i hwaiting
      obtain ⟨hget, c, hc, hprogress⟩ := execution?_eq_some hentry
      refine h.delete fun other d hget' hd hholds => ?_
      obtain rfl := Option.some.inj (hget.symm.trans hget')
      obtain rfl := Option.some.inj (hc.symm.trans hd)
      simpa [spares, entryOf, hget, hc, AddCall.execution, hprogress, hwaiting, hholds] using hspares
    · exact h.setExecution hentry (fun _ => rfl) rfl

theorem Tracked.runCallback (h : Tracked s.activeExecutions s.calls)
    (hcall : s.calls[call]? = some c) (hprogress : c.progress = .added execution)
    (hsettled : execution.settled = true) (hran : execution.callbackRan = false)
    (hmay : s.mayRelease c = true) :
    Tracked (s.runCallback call c.executionId execution).activeExecutions
      (s.runCallback call c.executionId execution).calls := by
  obtain ⟨s', hs', htracked, -, hcall'⟩ := h.releaseReservation hcall (by simp [hprogress]) hmay
  have hexecution : c.execution = some execution := by simp [AddCall.execution, hprogress]
  simp only [ActiveExecutions.runCallback, hs']
  -- the callback has done its work
  have hdone : ∀ activeExecutions, Tracked activeExecutions s'.calls →
      Tracked activeExecutions (s'.calls.modify call fun c =>
        { c with progress := .added { execution with callbackRan := true } }) := by
    intro activeExecutions htracked
    refine htracked.modify hcall' ⟨fun _ h => (by cases h), fun h => by simp at h, fun e he _ => ?_⟩
      (fun _ => ⟨rfl, by simp [AddCall.execution]⟩) (fun h => by cases h) (fun hdelete => ?_)
    · obtain rfl := Option.some.inj he
      exact hsettled
    · simp [AddCall.willDelete, AddCall.execution] at hdelete
  split
  · exact hdone _ htracked
  · rename_i hwaiting
    refine hdone _ (htracked.delete fun other d hget hd hholds => ?_)
    by_contra hunsettled
    have hnone := (htracked.unsettled hd hholds (Bool.not_eq_false _ ▸ hunsettled)).2
    obtain ⟨d', hd', hid, -⟩ := htracked.entries _ _ hget
    obtain rfl := Option.some.inj (hd.symm.trans hd')
    have hdelete := hnone call _ hcall' hid.symm
    simp [AddCall.willDelete, AddCall.execution, hprogress, hsettled, hran] at hdelete
    exact hwaiting hdelete

/-! ## Runs -/

theorem Tracked.callControl (h : Tracked s.activeExecutions s.calls)
    (called : Except ConcurrencyError
      (ConcurrencyControlService × Option (ConcurrencyQueueType × String))) :
    Tracked (s.callControl called).activeExecutions (s.callControl called).calls := by
  unfold ActiveExecutions.callControl
  split
  · exact h
  · rename_i concurrencyControl through
    exact Tracked.foldl_letThroughOne (s := { s with concurrencyControl }) h through

theorem forget_calls (s : ActiveExecutions) (target : CapacityTarget) :
    (s.forget target).activeExecutions = s.activeExecutions ∧ (s.forget target).calls = s.calls := by
  unfold forget
  split
  · split <;> exact ⟨rfl, rfl⟩
  · exact ⟨rfl, rfl⟩

theorem holds_eq_false_of_creating (h : Tracked activeExecutions calls)
    (hcall : calls[call]? = some c) (hprogress : c.progress = .creating) : c.holds = false := by
  by_contra hholds
  have hexecution : c.execution = none := by simp [AddCall.execution, hprogress]
  rcases h.held call c hcall (Bool.not_eq_false _ ▸ hholds) with hup | hrun | ⟨-, hunsettled, -⟩
  · simp [AddCall.inFlight, hprogress] at hup
  · simp [AddCall.willRun, hexecution] at hrun
  · exact execution_ne_none_of_unsettled hunsettled hexecution

/-- The insert of a new execution returns its id: without one the `assert` of `add` fails, with one
its reservation is asked for. -/
theorem Tracked.created (h : Tracked s.activeExecutions s.calls) {executionId : String}
    (hs : s.step (.created call executionId) = .ok s')
    (hspares : s.spares (.created call executionId) = true) :
    Tracked s'.activeExecutions s'.calls := by
  simp only [ActiveExecutions.step] at hs
  split at hs
  · rename_i c hcall
    split at hs
    · rename_i hprogress
      have hexecution : c.execution = none := by simp [AddCall.execution, hprogress]
      have hholds := holds_eq_false_of_creating h hcall hprogress
      obtain ⟨hreservation, hmode, -⟩ := h.sound call c hcall
      have hcreated : Tracked s.activeExecutions
          (s.calls.modify call fun c => { c with executionId }) :=
        h.modify hcall ⟨hreservation, hmode, fun e he => absurd (hexecution.symm.trans he) (by simp)⟩
          (absurd hexecution) (fun h => absurd (hholds.symm.trans h) (by simp)) .inl
      have hcall' : (s.calls.modify call fun c => { c with executionId })[call]? =
          some { c with executionId } := by
        simp [hcall]
      obtain rfl := Except.ok.inj hs
      split
      · refine Tracked.reject (s := { s with calls := s.calls.modify call _ }) hcreated hcall'
          (.inl hprogress) ?_
        have hnone : c.acquiredReservation = none := by simpa [AddCall.holds] using hholds
        simp [mayRelease, hnone]
      · refine Tracked.reserve (s := { s with calls := s.calls.modify call _ }) hcreated hcall'
          hexecution hholds fun hevaluation hatOnce => ⟨fun other d hget hd hheld => ?_, fun h => ?_⟩
        · simp only [spares, hcall, Option.all_some] at hspares
          have hfree := free_of_mayRegister (of_decide_eq_true hspares ⟨hevaluation, hatOnce⟩)
          rcases getElem?_modify_cases hcall hd with ⟨rfl, rfl⟩ | ⟨-, hd⟩
          · simp [AddCall.unsettled, AddCall.execution, hprogress]
          · exact hfree.entry other d hget hd hheld
        · exact absurd (hholds.symm.trans h) (by simp)
    · cases hs
  · cases hs

theorem Tracked.step {event : ExecutionEvent} (h : Tracked s.activeExecutions s.calls)
    (hs : s.step event = .ok s') (hspares : s.spares event = true)
    (hshutdown : event.isShutdown = false) :
    Tracked s'.activeExecutions s'.calls := by
  cases event with
  | add executionMode maybeExecutionId =>
    let c : AddCall :=
      { executionMode, maybeExecutionId, executionId := maybeExecutionId.getD "", progress := .creating }
    have hmade : Tracked s.activeExecutions (s.calls ++ [c]) :=
      h.append ⟨fun _ h => (by cases h), fun h => by simp [c] at h, fun e he => by cases he⟩ rfl rfl
    obtain rfl := Except.ok.inj hs
    split
    · exact hmade
    · rename_i hnew
      refine Tracked.reserve (s := { s with calls := s.calls ++ [c] }) (c := c) hmade (by simp) rfl rfl
        fun _ hatOnce => ?_
      simp [registersAtOnce, c, hnew] at hatOnce
  | created call executionId => exact h.created hs hspares
  | goesOn call =>
    simp only [ActiveExecutions.step] at hs
    split at hs
    · rename_i c hcall
      split at hs
      · rename_i hprogress
        obtain rfl := Except.ok.inj hs
        refine h.goOn hcall hprogress fun hatOnce => free_of_mayRegister ?_
        simpa [spares, hcall, hatOnce] using hspares
      · cases hs
    · cases hs
  | updated call =>
    simp only [ActiveExecutions.step] at hs
    split at hs
    · rename_i c hcall
      split at hs
      · rename_i hprogress
        obtain rfl := Except.ok.inj hs
        refine h.register hcall (by simp [AddCall.execution, hprogress]) (free_of_mayRegister ?_)
        simpa [spares, hcall] using hspares
      · cases hs
    · cases hs
  | fails call =>
    simp only [ActiveExecutions.step, progress?] at hs
    cases hcall : s.calls[call]? with
    | none => simp [hcall] at hs
    | some c =>
      have hmay : s.mayRelease c = true := by simpa [spares, hcall] using hspares
      rw [hcall, Option.map_some] at hs
      split at hs
      · rename_i hprogress
        obtain rfl := Except.ok.inj hs
        exact h.reject hcall (.inl (Option.some.inj hprogress)) hmay
      · rename_i hprogress
        obtain rfl := Except.ok.inj hs
        exact h.reject hcall (.inr (Option.some.inj hprogress)) hmay
      · cases hs
  | setStatus executionId status =>
    obtain rfl := Except.ok.inj hs
    unfold ActiveExecutions.setStatus
    split
    · exact h
    · rename_i hentry
      exact h.setExecution hentry id rfl
  | stopExecution executionId =>
    obtain rfl := Except.ok.inj hs
    exact h.stopExecution hspares
  | finalizeExecution executionId =>
    obtain rfl := Except.ok.inj hs
    unfold ActiveExecutions.finalizeExecution
    split
    · exact h
    · rename_i hentry
      exact h.setExecution hentry (fun _ => rfl) rfl
  | callbackRuns call =>
    simp only [ActiveExecutions.step] at hs
    split at hs
    · rename_i executionMode maybeExecutionId executionId execution reservation hcall
      split at hs
      · rename_i hsettled
        obtain rfl := Except.ok.inj hs
        have hran : execution.callbackRan = false := by simpa using hsettled.2
        exact h.runCallback hcall rfl hsettled.1 hran (by simpa [spares, hcall] using hspares)
      · cases hs
    · cases hs
  | throttle executionId =>
    simp only [ActiveExecutions.step] at hs
    split at hs <;> (obtain rfl := Except.ok.inj hs; exact h)
  | release =>
    obtain rfl := Except.ok.inj hs
    exact h.callControl _
  | remove target =>
    obtain rfl := Except.ok.inj hs
    obtain ⟨hactive, hcalls⟩ := forget_calls s target
    exact Tracked.callControl (hactive ▸ hcalls ▸ h) _
  | shutdown cancelAll => cases hshutdown

theorem run_tracked {control : ConcurrencyControlService}
    {steps : List (ActiveExecutions × ExecutionEvent)} (h : Run step (initial control) steps s)
    (hshutdown : ∀ x ∈ steps, x.2.isShutdown = false)
    (hspares : ∀ x ∈ steps, x.1.spares x.2 = true) : Tracked s.activeExecutions s.calls := by
  refine h.invariant (C := fun s event =>
    s.spares event = true ∧ event.isShutdown = false) ?_
    (fun s event s' hs hC h => Tracked.step hs h hC.1 hC.2)
    fun x hx => ⟨hspares x hx, hshutdown x hx⟩
  exact ⟨fun _ _ h => (by cases h), fun _ _ h => (by cases h), fun _ _ h => (by cases h)⟩

/-- In every run whose steps spare the reservations, a slot that is held once all callbacks have
run belongs to an active execution whose promise has not settled. -/
theorem run_slotsOwned {control : ConcurrencyControlService}
    {steps : List (ActiveExecutions × ExecutionEvent)} (h : Run step (initial control) steps s)
    (hshutdown : ∀ x ∈ steps, x.2.isShutdown = false)
    (hspares : ∀ x ∈ steps, x.1.spares x.2 = true) (hquiet : s.Quiet) : s.SlotsOwned := by
  intro call c hc hholds
  obtain ⟨hflight, hrun⟩ := hquiet c (List.mem_of_getElem? hc)
  rcases (run_tracked h hshutdown hspares).held call c hc hholds with hup | hrun' | ⟨hentry, hunsettled, -⟩
  · rw [hflight] at hup
    cases hup
  · rw [hrun] at hrun'
    cases hrun'
  · exact ⟨hentry, hunsettled⟩

/-- A resumed execution holds the only slot, and the next one is throttled. -/
theorem run_slotsOwned_resumed : ∃ steps s, Run step (initial oneAtATime) steps s ∧
    (s.calls.map AddCall.holds, s.throttled) = ([false, true, false], [2]) ∧ s.SlotsOwned := by
  have hevents : (runSteps step (initial oneAtATime)
      [.add .webhook none, .created 0 "1", .goesOn 0, .updated 0, .setStatus "1" .waiting,
        .finalizeExecution "1", .callbackRuns 0, .add .webhook (some "1"), .goesOn 1, .updated 1,
        .add .webhook none, .created 2 "2"]).map
      (fun r => ((r.2.calls.map AddCall.holds, r.2.throttled),
        r.1.all (fun x => !x.2.isShutdown), r.1.all (fun x => x.1.spares x.2), r.2.isQuiet)) =
        .ok (([false, true, false], [2]), true, true, true) := by
    decide
  obtain ⟨steps, s, hrun, -, h⟩ := exists_run hevents
  obtain ⟨hheld, h⟩ := Prod.mk.inj h
  obtain ⟨hshutdown, h⟩ := Prod.mk.inj h
  obtain ⟨hspares, hquiet⟩ := Prod.mk.inj h
  exact ⟨steps, s, hrun, hheld, run_slotsOwned hrun (by simpa using hshutdown)
    (List.all_eq_true.mp hspares) (quiet_iff.mpr hquiet)⟩

/-- An execution is stopped after it began to wait and before its promise has settled : its slot
is held for good. -/
theorem run_not_slotsOwned : ∃ steps s, Run step (initial oneAtATime) steps s ∧
    (∀ x ∈ steps, x.2.isShutdown = false) ∧ s.Quiet ∧ ¬s.SlotsOwned := by
  have hevents : (runSteps step (initial oneAtATime)
      [.add .webhook none, .created 0 "1", .goesOn 0, .updated 0, .setStatus "1" .waiting,
        .stopExecution "1", .finalizeExecution "1"]).map
      (fun r => (r.1.all (fun x => !x.2.isShutdown), r.2.isQuiet, r.2.calls.map AddCall.holds,
        r.2.activeExecutions.keys)) = .ok (true, true, [true], []) := by
    decide
  obtain ⟨steps, s, hrun, -, h⟩ := exists_run hevents
  obtain ⟨hshutdown, h⟩ := Prod.mk.inj h
  obtain ⟨hquiet, h⟩ := Prod.mk.inj h
  obtain ⟨hheld, hactive⟩ := Prod.mk.inj h
  refine ⟨steps, s, hrun, by simpa using hshutdown, quiet_iff.mpr hquiet, fun howned => ?_⟩
  obtain ⟨c, hc, hholds⟩ := List.map_eq_singleton_iff.mp hheld
  have hcall : s.calls[0]? = some c := by rw [show s.calls = [c] from hc]; rfl
  obtain ⟨hentry, -⟩ := howned 0 c hcall hholds
  have hkey := OrderedMap.mem_keys_iff.mpr ⟨0, hentry⟩
  rw [show s.activeExecutions.keys = [] from hactive] at hkey
  cases hkey

end ActiveExecutions
end N8n
