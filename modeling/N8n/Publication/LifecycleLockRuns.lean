import N8n.Publication.LifecycleLock

/-!
# Runs of the publication lifecycle lock

`Coherent` ties the state of a workflow to the calls that hold or await its lock. A holder
that leaves breaks it for its workflow only, as long as nobody has been given the lock, and
`release` restores it (`Coherent.release`). What else happens keeps it, so it holds all along a
run, and with it what the lock promises (`lifecycleLock_run`).
-/

open Lib

namespace N8n

namespace PublicationLifecycleLock

variable {W : Type} {lock lock' : PublicationLifecycleLock W} {workflowId w : W}
  {call other state : ℕ} {c : LockCall W} {P : LockCallProgress → Prop}

/-! ## Calls that are updated -/

theorem getElem?_updateCall (f : LockCall W → LockCall W) :
    (lock.updateCall call f).calls[other]? =
      if other = call then (lock.calls[other]?).map f else lock.calls[other]? := by
  rw [updateCall, List.getElem?_modify]
  by_cases h : other = call
  · simp [h]
  · simp [h, Ne.symm h]

/-- A call keeps its workflow. -/
theorem at_updateCall {f : LockCall W → LockCall W} (hc : lock.calls[call]? = some c)
    (hf : (f c).workflowId = c.workflowId) :
    (lock.updateCall call f).At w P other ↔
      if other = call then c.workflowId = w ∧ P (f c).progress else lock.At w P other := by
  unfold At
  rw [getElem?_updateCall]
  by_cases h : other = call
  · rw [if_pos h, if_pos h, h, hc]
    simp [hf]
  · rw [if_neg h, if_neg h]

theorem at_iff (hc : lock.calls[call]? = some c) :
    lock.At w P call ↔ c.workflowId = w ∧ P c.progress := by
  simp [At, hc]

theorem at_updateCall_iff {f : LockCall W → LockCall W} (hc : lock.calls[call]? = some c)
    (hf : (f c).workflowId = c.workflowId) (hP : P c.progress ↔ P (f c).progress) :
    (lock.updateCall call f).At w P other ↔ lock.At w P other := by
  rw [at_updateCall hc hf]
  split
  · rename_i h
    rw [h, at_iff hc, hP]
  · exact Iff.rfl

theorem At.lt (h : lock.At w P call) : call < lock.calls.length := by
  obtain ⟨c, hc, -, -⟩ := h
  exact (List.getElem?_eq_some_iff.mp hc).1

theorem At.workflowId_eq {Q : LockCallProgress → Prop} (h : lock.At w P call)
    (h' : lock.At workflowId Q call) : w = workflowId := by
  obtain ⟨c, hc, rfl, -⟩ := h
  exact ((at_iff hc).mp h').1

/-- The sort of progress that tells who holds and who awaits the lock. -/
def SameRole (p q : LockCallProgress) : Prop :=
  (p = .waits ↔ q = .waits) ∧
    ((p = .resolved true ∨ p = .runs true ∨ p = .settled true) ↔
      (q = .resolved true ∨ q = .runs true ∨ q = .settled true)) ∧
    (p = .returned true ↔ q = .returned true)

/-- A call that arrives. -/
theorem at_of_push (hcalls : lock'.calls = lock.calls ++ [c]) : lock'.At w P other ↔
    lock.At w P other ∨ other = lock.calls.length ∧ c.workflowId = w ∧ P c.progress := by
  unfold At
  rw [hcalls]
  rcases lt_trichotomy other lock.calls.length with hlt | rfl | hgt
  · simp [List.getElem?_append_left hlt, hlt.ne]
  · simp
  · have hnone : (lock.calls ++ [c])[other]? = none := by
      rw [List.getElem?_eq_none_iff, List.length_append, List.length_singleton]
      omega
    have hnone' : lock.calls[other]? = none := List.getElem?_eq_none hgt.le
    simp [hnone, hnone', hgt.ne']

theorem acquired_of_push (hcalls : lock'.calls = lock.calls ++ [c])
    (hreturned : c.progress ≠ .returned true) : lock'.Acquired w other ↔
      lock.Acquired w other ∨ other = lock.calls.length ∧ c.workflowId = w ∧
        (c.progress = .resolved true ∨ c.progress = .runs true ∨ c.progress = .settled true) := by
  unfold Acquired Holds
  rw [at_of_push hcalls, at_of_push hcalls, or_right_comm]
  simp [hreturned]

theorem mem_of_push (hcalls : lock'.calls = lock.calls ++ [c]) {d : LockCall W}
    (hd : lock'.calls[other]? = some d) : lock.calls[other]? = some d ∨ d = c := by
  rw [hcalls] at hd
  rcases lt_or_ge other lock.calls.length with hlt | hge
  · rw [List.getElem?_append_left hlt] at hd
    exact .inl hd
  · rw [List.getElem?_append_right hge] at hd
    exact .inr (List.mem_singleton.mp (List.mem_of_getElem? hd))

theorem Acquired.lt (h : lock.Acquired w call) : call < lock.calls.length :=
  h.elim At.lt At.lt

theorem stateAt_updateState {g : WorkflowLockState → WorkflowLockState} (h : state < lock.states.length)
    (other : ℕ) : (lock.updateState state g).stateAt other =
      if other = state then g (lock.stateAt state) else lock.stateAt other := by
  unfold stateAt updateState
  rw [List.getD_eq_getElem?_getD, List.getElem?_modify]
  by_cases hother : other = state
  · simp [hother, h]
  · simp [hother, Ne.symm hother]

theorem waiter_waits {c : LockCall W} (hp : c.progress = .waits) (hsettled : c.settled = false)
    (htimer : c.timer = true → c.orTimeout = true) :
    c.waiter.progress = .resolved true ∧ c.waiter.timer = false := by
  unfold LockCall.waiter LockCall.resolve
  cases hor : c.orTimeout with
  | false => simpa [hp, hor] using htimer
  | true => simp [hp, hsettled]

theorem workflowId_waiter (c : LockCall W) : c.waiter.workflowId = c.workflowId := by
  unfold LockCall.waiter LockCall.resolve
  split
  · split
    · rfl
    · split <;> rfl
  · split <;> rfl

/-! ## The invariant -/

variable [DecidableEq W]

/-- What the state of a workflow has to do with the calls. -/
structure Entry (lock : PublicationLifecycleLock W) (w : W) (state : ℕ) : Prop where
  lt : state < lock.states.length
  locked : (lock.stateAt state).locked = true
  sorted : (lock.stateAt state).waiters.Pairwise (· < ·)
  waiters : ∀ call, call ∈ (lock.stateAt state).waiters ↔ lock.Awaits w call

/-- `released` is the workflow whose holder has left and whose lock nobody has been given
yet. -/
structure Coherent (lock : PublicationLifecycleLock W) (released : Option W) : Prop where
  entry : ∀ w state, lock.stateByWorkflowId.get? w = some state → lock.Entry w state
  apart : ∀ w w' state, lock.stateByWorkflowId.get? w = some state →
    lock.stateByWorkflowId.get? w' = some state → w = w'
  held : ∀ w state, lock.stateByWorkflowId.get? w = some state →
    ((∃ call, lock.Holds w call) ↔ released ≠ some w)
  known : ∀ w call, lock.Holds w call ∨ lock.Awaits w call →
    ∃ state, lock.stateByWorkflowId.get? w = some state
  alone : ∀ w call other, lock.Holds w call → lock.Holds w other → call = other
  order : ∀ w call other, lock.Awaits w call → lock.Acquired w other → other < call
  waits : ∀ (call : ℕ) (c : LockCall W), lock.calls[call]? = some c → c.progress = .waits →
    lock.stateByWorkflowId.get? c.workflowId = some c.state ∧ c.settled = false
  timer : ∀ (call : ℕ) (c : LockCall W), lock.calls[call]? = some c → c.timer = true →
    c.progress = .waits ∧ c.orTimeout = true

theorem coherent_initial : Coherent ({} : PublicationLifecycleLock W) none := by
  have hnone : ∀ {w P call}, ¬ ({} : PublicationLifecycleLock W).At w P call := by
    rintro w P call ⟨c, hc, -⟩
    cases hc
  refine ⟨?_, ?_, ?_, ?_, ?_, ?_, ?_, ?_⟩
  · rintro w state ⟨⟩
  · rintro w w' state ⟨⟩
  · rintro w state ⟨⟩
  · exact fun w call h => absurd h (not_or.mpr ⟨hnone, hnone⟩)
  · exact fun w call other h => absurd h hnone
  · exact fun w call other h => absurd h hnone
  · rintro call c ⟨⟩
  · rintro call c ⟨⟩

theorem Coherent.exclusive (h : Coherent lock none) : lock.Exclusive where
  alone w call other hcall hother := by
    refine h.alone w call other ?_ ?_
    · obtain ⟨c, hc, hw, hp⟩ := hcall
      exact ⟨c, hc, hw, .inr (.inl hp)⟩
    · obtain ⟨c, hc, hw, hp⟩ := hother
      exact ⟨c, hc, hw, .inr (.inl hp)⟩
  order := h.order
  keys w := by
    rw [OrderedMap.mem_keys_iff]
    constructor
    · rintro ⟨state, hstate⟩
      obtain ⟨call, hcall⟩ := (h.held w state hstate).mpr (by simp)
      exact ⟨call, .inl hcall⟩
    · rintro ⟨call, hcall⟩
      exact h.known w call hcall

/-! ## A call that goes on -/

/-- A call that does not wait any more has nothing to do with the map. -/
theorem Coherent.waits_update {released : Option W} (h : Coherent lock released)
    (hc : lock.calls[call]? = some c) {f : LockCall W → LockCall W}
    (hwaits : (f c).progress ≠ .waits) (htimer : (f c).timer = false) (i : ℕ) (d : LockCall W)
    (hd : (lock.updateCall call f).calls[i]? = some d) :
    (d.progress = .waits →
      lock.stateByWorkflowId.get? d.workflowId = some d.state ∧ d.settled = false) ∧
      (d.timer = true → d.progress = .waits ∧ d.orTimeout = true) := by
  rw [getElem?_updateCall] at hd
  split at hd
  · rename_i hi
    rw [hi, hc] at hd
    cases hd
    refine ⟨fun hp => absurd hp hwaits, fun ht => ?_⟩
    rw [htimer] at ht
    cases ht
  · exact ⟨h.waits i d hd, h.timer i d hd⟩

/-- The call still has nothing, or holds the lock, or has held it, as before. -/
theorem Coherent.relabel {released : Option W} (h : Coherent lock released)
    (hc : lock.calls[call]? = some c) {f : LockCall W → LockCall W}
    (hworkflow : (f c).workflowId = c.workflowId) (hrole : SameRole c.progress (f c).progress)
    (hnot : c.progress ≠ .waits) (htimer : (f c).timer = c.timer) :
    Coherent (lock.updateCall call f) released ∧
      ∀ w other, (lock.updateCall call f).Acquired w other ↔ lock.Acquired w other := by
  obtain ⟨hwaits, hholds, hreturned⟩ := hrole
  have hawaits : ∀ w other, (lock.updateCall call f).Awaits w other ↔ lock.Awaits w other :=
    fun w other => at_updateCall_iff hc hworkflow hwaits
  have hheld : ∀ w other, (lock.updateCall call f).Holds w other ↔ lock.Holds w other :=
    fun w other => at_updateCall_iff hc hworkflow hholds
  have hacquired : ∀ w other, (lock.updateCall call f).Acquired w other ↔ lock.Acquired w other :=
    fun w other => or_congr (hheld w other) (at_updateCall_iff hc hworkflow hreturned)
  have hidle : (f c).timer = false := by
    rw [htimer, Bool.eq_false_iff]
    exact fun ht => hnot (h.timer call c hc ht).1
  have hrest := h.waits_update hc (mt hwaits.mpr hnot) hidle
  refine ⟨⟨fun w state hw => ?_, h.apart, fun w state hw => ?_, fun w i hi => ?_,
    fun w i j hi hj => ?_, fun w i j hi hj => ?_, fun i d hd => (hrest i d hd).1,
    fun i d hd => (hrest i d hd).2⟩, hacquired⟩
  · obtain ⟨hlt, hlocked, hsorted, hmem⟩ := h.entry w state hw
    exact ⟨hlt, hlocked, hsorted, fun i => (hmem i).trans (hawaits w i).symm⟩
  · rw [← h.held w state hw]
    exact exists_congr (hheld w)
  · rw [hheld, hawaits] at hi
    exact h.known w i hi
  · rw [hheld] at hi hj
    exact h.alone w i j hi hj
  · rw [hawaits] at hi
    rw [hacquired] at hj
    exact h.order w i j hi hj

/-- A holder leaves. -/
theorem Coherent.leave (h : Coherent lock none) (hc : lock.calls[call]? = some c)
    (hp : c.progress = .settled true) :
    Coherent (lock.updateCall call fun c => { c with progress := .returned true })
        (some c.workflowId) ∧
      (∀ w other, (lock.updateCall call fun c => { c with progress := .returned true }).Acquired w
        other ↔ lock.Acquired w other) ∧
      ∀ w other, (lock.updateCall call fun c => { c with progress := .returned true }).Awaits w
        other ↔ lock.Awaits w other := by
  have hholds : lock.Holds c.workflowId call := ⟨c, hc, rfl, .inr (.inr hp)⟩
  have hawaits : ∀ w other,
      (lock.updateCall call fun c => { c with progress := .returned true }).Awaits w other ↔
        lock.Awaits w other :=
    fun w other => at_updateCall_iff hc rfl (by simp [hp])
  have hheld : ∀ w other,
      (lock.updateCall call fun c => { c with progress := .returned true }).Holds w other ↔
        lock.Holds w other ∧ other ≠ call := by
    intro w other
    unfold Holds
    rw [at_updateCall hc rfl]
    by_cases hother : other = call <;> simp [hother]
  have hacquired : ∀ w other,
      (lock.updateCall call fun c => { c with progress := .returned true }).Acquired w other ↔
        lock.Acquired w other := by
    intro w other
    unfold Acquired
    rw [hheld, at_updateCall hc rfl]
    by_cases hother : other = call
    · subst hother
      simp [Holds, at_iff hc, hp]
    · simp [hother]
  have hidle : c.timer = false := by
    rw [Bool.eq_false_iff]
    intro ht
    rw [(h.timer call c hc ht).1] at hp
    cases hp
  have hrest := h.waits_update hc (f := fun c => { c with progress := .returned true })
    (by simp) hidle
  refine ⟨⟨fun w state hw => ?_, h.apart, fun w state hw => ?_, fun w i hi => ?_,
    fun w i j hi hj => ?_, fun w i j hi hj => ?_, fun i d hd => (hrest i d hd).1,
    fun i d hd => (hrest i d hd).2⟩, hacquired, hawaits⟩
  · obtain ⟨hlt, hlocked, hsorted, hmem⟩ := h.entry w state hw
    exact ⟨hlt, hlocked, hsorted, fun i => (hmem i).trans (hawaits w i).symm⟩
  · obtain ⟨holder, hholder⟩ := (h.held w state hw).mpr (by simp)
    constructor
    · rintro ⟨i, hi⟩ hw
      rw [hheld] at hi
      cases hw
      exact hi.2 (h.alone _ _ _ hi.1 hholds)
    · intro hne
      refine ⟨holder, (hheld w holder).mpr ⟨hholder, ?_⟩⟩
      rintro rfl
      exact hne (congrArg some (hholds.workflowId_eq hholder))
  · rw [hheld, hawaits] at hi
    exact h.known w i (hi.imp_left And.left)
  · rw [hheld] at hi hj
    exact h.alone w i j hi.1 hj.1
  · rw [hawaits] at hi
    rw [hacquired] at hj
    exact h.order w i j hi hj

/-! ## A waiter that is taken out -/

/-- The first waiter is given the lock nobody holds, or a waiter gives up. -/
theorem Coherent.take {released : Option W} (h : Coherent lock released)
    (hstate : lock.stateByWorkflowId.get? w = some state) (hcall : lock.Awaits w call)
    {g : WorkflowLockState → WorkflowLockState} {f : LockCall W → LockCall W} {b : Bool}
    (hlocked : (g (lock.stateAt state)).locked = (lock.stateAt state).locked)
    (hsublist : (g (lock.stateAt state)).waiters.Sublist (lock.stateAt state).waiters)
    (hwaiters : ∀ i, i ∈ (g (lock.stateAt state)).waiters ↔
      i ∈ (lock.stateAt state).waiters ∧ i ≠ call)
    (hworkflow : ∀ c, (f c).workflowId = c.workflowId)
    (hprogress : ∀ c, lock.calls[call]? = some c → (f c).progress = .resolved b ∧
      (f c).timer = false)
    (hfirst : b = true → released = some w ∧ ∀ i, lock.Awaits w i → call ≤ i) :
    Coherent ((lock.updateState state g).updateCall call f)
        (if b then none else released) ∧
      (b = true → ((lock.updateState state g).updateCall call f).Holds w call) ∧
      ∀ v i, ((lock.updateState state g).updateCall call f).Acquired v i ↔
        lock.Acquired v i ∨ b = true ∧ i = call ∧ v = w := by
  obtain ⟨c, hc, rfl, hp⟩ := hcall
  obtain ⟨hp', ht'⟩ := hprogress c hc
  have hentry := h.entry _ state hstate
  have hat : ∀ (P : LockCallProgress → Prop) v i,
      ((lock.updateState state g).updateCall call f).At v P i ↔
        if i = call then c.workflowId = v ∧ P (f c).progress else lock.At v P i :=
    fun P v i => at_updateCall (show (lock.updateState state g).calls[call]? = some c from hc)
      (hworkflow c)
  have hawaits : ∀ v i, ((lock.updateState state g).updateCall call f).Awaits v i ↔
      lock.Awaits v i ∧ i ≠ call := by
    intro v i
    unfold Awaits
    rw [hat]
    by_cases hi : i = call <;> simp [hi, hp']
  have hheld : ∀ v i, ((lock.updateState state g).updateCall call f).Holds v i ↔
      lock.Holds v i ∨ b = true ∧ i = call ∧ v = c.workflowId := by
    intro v i
    unfold Holds
    rw [hat]
    by_cases hi : i = call
    · simp [hi, hp', at_iff hc, hp, eq_comm, and_comm]
    · simp [hi]
  have hacquired : ∀ v i, ((lock.updateState state g).updateCall call f).Acquired v i ↔
      lock.Acquired v i ∨ b = true ∧ i = call ∧ v = c.workflowId := by
    intro v i
    have hreturned : ((lock.updateState state g).updateCall call f).At v (· = .returned true) i ↔
        lock.At v (· = .returned true) i := by
      rw [hat]
      by_cases hi : i = call
      · simp [hi, hp', at_iff hc, hp]
      · simp [hi]
    unfold Acquired
    rw [hheld, hreturned, or_right_comm]
  have hrest := h.waits_update hc (f := f) (by simp [hp']) ht'
  refine ⟨⟨fun v s hv => ?_, h.apart, fun v s hv => ?_, fun v i hi => ?_, fun v i j hi hj => ?_,
    fun v i j hi hj => ?_, fun i d hd => (hrest i d hd).1, fun i d hd => (hrest i d hd).2⟩,
    fun hacq => (hheld _ _).mpr (.inr ⟨hacq, rfl, rfl⟩), hacquired⟩
  · obtain ⟨hlt, hlock, hsorted, hmem⟩ := h.entry v s hv
    have hlt' : s < ((lock.updateState state g).updateCall call f).states.length := by
      simpa [updateCall, updateState] using hlt
    have hstateAt : ((lock.updateState state g).updateCall call f).stateAt s =
        if s = state then g (lock.stateAt state) else lock.stateAt s :=
      stateAt_updateState hentry.lt s
    by_cases hs : s = state
    · subst hs
      obtain rfl := h.apart _ _ _ hv hstate
      rw [if_pos rfl] at hstateAt
      refine ⟨hlt', ?_, ?_, fun i => ?_⟩
      · rw [hstateAt, hlocked, hlock]
      · rw [hstateAt]
        exact hsorted.sublist hsublist
      · rw [hstateAt, hwaiters, hmem, hawaits]
    · rw [if_neg hs] at hstateAt
      refine ⟨hlt', by rw [hstateAt, hlock], by rwa [hstateAt], fun i => ?_⟩
      rw [hstateAt, hmem, hawaits, iff_self_and]
      rintro hi rfl
      have hcall : lock.At c.workflowId (fun _ => True) i := ⟨c, hc, rfl, trivial⟩
      obtain rfl := hi.workflowId_eq hcall
      exact hs (Option.some.inj (hv.symm.trans hstate))
  · simp only [hheld, exists_or]
    cases b with
    | false => simpa using h.held v s hv
    | true =>
      obtain ⟨hreleased, -⟩ := hfirst rfl
      have := h.held v s hv
      rw [hreleased] at this
      by_cases hvw : v = c.workflowId
      · simp [hvw]
      · simp only [hvw, and_false, exists_false, or_false, this]
        simp [Ne.symm hvw]
  · rw [hheld, hawaits] at hi
    rcases hi with (hi | ⟨-, -, rfl⟩) | ⟨hi, -⟩
    · exact h.known v i (.inl hi)
    · exact ⟨state, hstate⟩
    · exact h.known v i (.inr hi)
  · -- Nobody else holds the lock the call is given.
    have hnone : b = true → ∀ i, ¬ lock.Holds c.workflowId i := fun hacq i hi =>
      (h.held _ state hstate).mp ⟨i, hi⟩ (hfirst hacq).1
    rw [hheld] at hi hj
    rcases hi with hi | ⟨hacq, hi, hv⟩
    · rcases hj with hj | ⟨hacq, -, rfl⟩
      · exact h.alone v i j hi hj
      · exact absurd hi (hnone hacq i)
    · rcases hj with hj | ⟨-, hj, -⟩
      · exact absurd (hv ▸ hj) (hnone hacq j)
      · rw [hi, hj]
  · rw [hawaits] at hi
    rw [hacquired] at hj
    rcases hj with hj | ⟨hacq, rfl, rfl⟩
    · exact h.order v i j hi.1 hj
    · exact lt_of_le_of_ne ((hfirst hacq).2 i hi.1) (Ne.symm hi.2)

theorem Coherent.not_holds (h : Coherent lock (some w)) (i : ℕ) : ¬ lock.Holds w i := by
  intro hi
  obtain ⟨state, hstate⟩ := h.known w i (.inl hi)
  exact (h.held w state hstate).mp ⟨i, hi⟩ rfl

theorem Coherent.release (h : Coherent lock (some w)) :
    Coherent (lock.release w) none ∧
      (∀ v i, ¬ lock.Acquired v i → (lock.release w).Acquired v i →
        v = w ∧ ∀ j, lock.Awaits w j → i ≤ j) ∧
      ((∃ i, lock.Awaits w i) → ∃ next, lock.Awaits w next ∧ (lock.release w).Holds w next) := by
  cases hstate : lock.stateByWorkflowId.get? w with
  | none =>
    have hlock : lock.release w = lock := by
      unfold PublicationLifecycleLock.release
      rw [hstate]
    rw [hlock]
    refine ⟨⟨h.entry, h.apart, fun v s hv => ?_, h.known, h.alone, h.order, h.waits, h.timer⟩,
      fun v i hnot hi => absurd hi hnot, ?_⟩
    · have hne : w ≠ v := by
        rintro rfl
        rw [hstate] at hv
        cases hv
      simpa [hne] using h.held v s hv
    · rintro ⟨i, hi⟩
      obtain ⟨s, hs⟩ := h.known w i (.inr hi)
      rw [hstate] at hs
      cases hs
  | some state =>
    have hentry := h.entry w state hstate
    cases hwaiters : (lock.stateAt state).waiters with
    | nil =>
      have hlock : lock.release w =
          { lock with stateByWorkflowId := lock.stateByWorkflowId.delete w } := by
        unfold PublicationLifecycleLock.release
        simp only [hstate, hwaiters]
      have hnobody : ∀ i, ¬ lock.Awaits w i := by
        intro i hi
        rw [← hentry.waiters, hwaiters] at hi
        cases hi
      have hget : ∀ v s, (lock.stateByWorkflowId.delete w).get? v = some s →
          v ≠ w ∧ lock.stateByWorkflowId.get? v = some s := by
        intro v s hv
        rw [OrderedMap.get?_delete] at hv
        split at hv
        · cases hv
        · rename_i hne
          exact ⟨Ne.symm hne, hv⟩
      have hkeeps : ∀ v s, v ≠ w → lock.stateByWorkflowId.get? v = some s →
          (lock.stateByWorkflowId.delete w).get? v = some s := fun v s hne hv =>
        (OrderedMap.get?_delete_of_ne _ (Ne.symm hne)).trans hv
      rw [hlock]
      refine ⟨⟨fun v s hv => ?_, fun v v' s hv hv' => ?_, fun v s hv => ?_, fun v i hi => ?_,
        h.alone, h.order, fun i d hd hp => ?_, h.timer⟩, fun v i hnot hi => absurd hi hnot,
        fun ⟨i, hi⟩ => absurd hi (hnobody i)⟩
      · obtain ⟨hlt, hlocked, hsorted, hmem⟩ := h.entry v s (hget v s hv).2
        exact ⟨hlt, hlocked, hsorted, hmem⟩
      · exact h.apart v v' s (hget v s hv).2 (hget v' s hv').2
      · exact (h.held v s (hget v s hv).2).trans (by simp [Ne.symm (hget v s hv).1])
      · have hne : v ≠ w := by
          rintro rfl
          exact hi.elim (h.not_holds i) (hnobody i)
        obtain ⟨s, hs⟩ := h.known v i hi
        exact ⟨s, hkeeps v s hne hs⟩
      · obtain ⟨hs, hsettled⟩ := h.waits i d hd hp
        refine ⟨hkeeps _ _ ?_ hs, hsettled⟩
        rintro rfl
        exact hnobody i ⟨d, hd, rfl, hp⟩
    | cons next rest =>
      have hnext : lock.Awaits w next := by
        rw [← hentry.waiters, hwaiters]
        exact List.mem_cons_self
      have hsorted := hentry.sorted
      rw [hwaiters, List.pairwise_cons] at hsorted
      have hleast : ∀ i, lock.Awaits w i → next ≤ i := by
        intro i hi
        rw [← hentry.waiters, hwaiters] at hi
        rcases List.mem_cons.mp hi with rfl | hi
        · exact le_rfl
        · exact (hsorted.1 i hi).le
      have hrest : ∀ i, i ∈ rest ↔ i ∈ next :: rest ∧ i ≠ next := by
        intro i
        rw [List.mem_cons]
        constructor
        · exact fun hi => ⟨.inr hi, (hsorted.1 i hi).ne'⟩
        · exact fun hi => hi.1.resolve_left hi.2
      have htaken : lock.release w =
          (lock.updateState state fun s => { s with waiters := rest }).updateCall next
            LockCall.waiter := by
        unfold PublicationLifecycleLock.release
        simp only [hstate, hwaiters]
      have hgranted : ∀ c, lock.calls[next]? = some c →
          c.waiter.progress = .resolved true ∧ c.waiter.timer = false := by
        intro c hc
        have hp := ((at_iff hc).mp hnext).2
        exact waiter_waits hp (h.waits next c hc hp).2 fun ht => (h.timer next c hc ht).2
      rw [htaken]
      obtain ⟨hcoherent, hholds, hacquired⟩ := h.take hstate hnext (b := true)
        (g := fun s => { s with waiters := rest }) (f := LockCall.waiter) rfl
        (by rw [hwaiters]; exact List.sublist_cons_self _ _) (by rwa [hwaiters])
        workflowId_waiter hgranted fun _ => ⟨rfl, hleast⟩
      refine ⟨hcoherent, fun v i hnot hi => ?_, fun _ => ⟨next, hnext, hholds rfl⟩⟩
      obtain ⟨-, rfl, hv⟩ := ((hacquired v i).mp hi).resolve_left hnot
      exact ⟨hv, hleast⟩

/-! ## Arrivals and timeouts -/

theorem Coherent.timeout (h : Coherent lock none) (hc : lock.calls[call]? = some c)
    (ht : c.timer = true) :
    Coherent (lock.onTimeout call c) none ∧
      ∀ v i, (lock.onTimeout call c).Acquired v i ↔ lock.Acquired v i := by
  obtain ⟨hp, -⟩ := h.timer call c hc ht
  obtain ⟨hstate, hsettled⟩ := h.waits call c hc hp
  have hentry := h.entry _ _ hstate
  have hawaits : lock.Awaits c.workflowId call := ⟨c, hc, rfl, hp⟩
  have hresolve : ∀ d, lock.calls[call]? = some d →
      ({ d with settled := true, timer := false }.resolve false : LockCall W).progress =
          .resolved false ∧
        ({ d with settled := true, timer := false }.resolve false : LockCall W).timer = false := by
    intro d hd
    obtain rfl := Option.some.inj (hc.symm.trans hd)
    simp [LockCall.resolve, hp]
  have hworkflow : ∀ d : LockCall W,
      ({ d with settled := true, timer := false }.resolve false : LockCall W).workflowId =
        d.workflowId := by
    intro d
    unfold LockCall.resolve
    split <;> rfl
  have hlock : lock.onTimeout call c =
      (lock.updateState c.state (·.withoutWaiter call)).updateCall call
        fun c => { c with settled := true, timer := false }.resolve false := by
    unfold onTimeout
    rw [if_neg (by simp [hsettled])]
  obtain ⟨hcoherent, -, hacquired⟩ := h.take hstate hawaits (b := false)
    (g := (·.withoutWaiter call))
    (f := fun c => { c with settled := true, timer := false }.resolve false)
    (by simp only [WorkflowLockState.withoutWaiter_eq])
    (by simpa only [WorkflowLockState.withoutWaiter_eq] using List.erase_sublist)
    (fun i => by
      simp only [WorkflowLockState.withoutWaiter_eq]
      rw [hentry.sorted.nodup.mem_erase_iff, and_comm])
    hworkflow hresolve (by simp)
  rw [hlock]
  exact ⟨hcoherent, fun v i => by simpa using hacquired v i⟩

theorem acquire_of_none (hstate : lock.stateByWorkflowId.get? w = none) (orTimeout : Bool) :
    lock.acquire w orTimeout =
      { stateByWorkflowId := lock.stateByWorkflowId.set w lock.states.length
        states := lock.states ++ [{ locked := true }]
        calls := lock.calls ++ [⟨w, orTimeout, lock.states.length, false, false,
          .resolved true⟩] } := by
  unfold acquire getOrCreateState updateState stateAt
  rw [hstate]
  simp [List.modify_eq_take_drop]

theorem acquire_of_locked (hstate : lock.stateByWorkflowId.get? w = some state)
    (hlocked : (lock.stateAt state).locked = true) (orTimeout : Bool) :
    lock.acquire w orTimeout =
      { stateByWorkflowId := lock.stateByWorkflowId
        states := (lock.updateState state fun s =>
          { s with waiters := s.waiters ++ [lock.calls.length] }).states
        calls := lock.calls ++ [⟨w, orTimeout, state, false, orTimeout, .waits⟩] } := by
  unfold acquire getOrCreateState
  rw [hstate]
  simp only [hlocked, if_true]
  rfl

/-- The lock of a workflow that is not in the map is free. -/
theorem Coherent.enter (h : Coherent lock none) (hstate : lock.stateByWorkflowId.get? w = none)
    (orTimeout : Bool) :
    Coherent (lock.acquire w orTimeout) none ∧
      ∀ v i, (lock.acquire w orTimeout).Acquired v i → ¬ lock.Acquired v i →
        ∀ j, ¬ lock.Awaits v j := by
  have hnobody : ∀ i, ¬ (lock.Holds w i ∨ lock.Awaits w i) := by
    intro i hi
    obtain ⟨s, hs⟩ := h.known w i hi
    rw [hstate] at hs
    cases hs
  have hlast : ∀ v s, lock.stateByWorkflowId.get? v = some s → s ≠ lock.states.length :=
    fun v s hv => (h.entry v s hv).lt.ne
  have heq := acquire_of_none hstate orTimeout
  generalize lock.acquire w orTimeout = lock' at heq ⊢
  have hcalls : lock'.calls = lock.calls ++
      [⟨w, orTimeout, lock.states.length, false, false, .resolved true⟩] := by rw [heq]
  have hget : ∀ v, lock'.stateByWorkflowId.get? v =
      if w = v then some lock.states.length else lock.stateByWorkflowId.get? v := by
    intro v
    rw [heq]
    exact OrderedMap.get?_set _ _ _ _
  have hawaits : ∀ v i, lock'.Awaits v i ↔ lock.Awaits v i := by
    intro v i
    unfold Awaits
    rw [at_of_push hcalls]
    simp
  have hheld : ∀ v i, lock'.Holds v i ↔ lock.Holds v i ∨ i = lock.calls.length ∧ w = v := by
    intro v i
    unfold Holds
    rw [at_of_push hcalls]
    simp
  have hacquired : ∀ v i, lock'.Acquired v i ↔
      lock.Acquired v i ∨ i = lock.calls.length ∧ w = v := by
    intro v i
    rw [acquired_of_push hcalls (by simp)]
    simp
  refine ⟨⟨fun v s hv => ?_, fun v v' s hv hv' => ?_, fun v s hv => ?_, fun v i hi => ?_,
    fun v i j hi hj => ?_, fun v i j hi hj => ?_, fun i d hd hp => ?_, fun i d hd ht => ?_⟩,
    fun v i hi hnot j hj => ?_⟩
  · rw [hget] at hv
    split at hv
    · rename_i hvw
      cases hv
      have hnew : lock'.stateAt lock.states.length = { locked := true } := by
        rw [heq]
        simp [stateAt]
      refine ⟨by simp [heq], by rw [hnew], by simp [hnew], fun i => ?_⟩
      rw [hnew, hawaits, ← hvw]
      exact iff_of_false (List.not_mem_nil) fun hi => hnobody i (.inr hi)
    · obtain ⟨hlt, hlocked, hsorted, hmem⟩ := h.entry v s hv
      have hold : lock'.stateAt s = lock.stateAt s := by
        rw [heq]
        simp [stateAt, List.getElem?_append_left hlt]
      have hlt' : s < lock'.states.length := by
        rw [heq, List.length_append]
        exact Nat.lt_add_right _ hlt
      refine ⟨hlt', by rwa [hold], by rwa [hold], fun i => ?_⟩
      rw [hold, hmem, hawaits]
  · rw [hget] at hv hv'
    split at hv <;> split at hv'
    · rename_i hvw hvw'
      exact hvw.symm.trans hvw'
    · exact absurd (Option.some.inj hv).symm (hlast v' s hv')
    · exact absurd (Option.some.inj hv').symm (hlast v s hv)
    · exact h.apart v v' s hv hv'
  · rw [hget] at hv
    simp only [ne_eq, reduceCtorEq, not_false_eq_true, iff_true, hheld]
    split at hv
    · rename_i hvw
      exact ⟨_, .inr ⟨rfl, hvw⟩⟩
    · obtain ⟨i, hi⟩ := (h.held v s hv).mpr (by simp)
      exact ⟨i, .inl hi⟩
  · rw [hheld, hawaits] at hi
    rw [hget]
    split
    · exact ⟨_, rfl⟩
    · rename_i hvw
      exact h.known v i (hi.imp_left fun hi => hi.resolve_right fun hi => hvw hi.2)
  · rw [hheld] at hi hj
    rcases hi with hi | ⟨rfl, rfl⟩ <;> rcases hj with hj | ⟨hj, hvw⟩
    · exact h.alone v i j hi hj
    · exact absurd (.inl (hvw ▸ hi)) (hnobody i)
    · exact absurd (.inl hj) (hnobody j)
    · exact hj.symm
  · rw [hawaits] at hi
    rw [hacquired] at hj
    rcases hj with hj | ⟨-, rfl⟩
    · exact h.order v i j hi hj
    · exact absurd (.inr hi) (hnobody i)
  · rcases mem_of_push hcalls hd with hd | rfl
    · obtain ⟨hmap, hsettled⟩ := h.waits i d hd hp
      refine ⟨?_, hsettled⟩
      rw [hget, if_neg]
      · exact hmap
      · rintro rfl
        rw [hstate] at hmap
        cases hmap
    · cases hp
  · rcases mem_of_push hcalls hd with hd | rfl
    · exact h.timer i d hd ht
    · cases ht
  · obtain ⟨-, rfl⟩ := ((hacquired v i).mp hi).resolve_left hnot
    exact hnobody j (.inr hj)

/-- The lock of a workflow in the map is taken. -/
theorem Coherent.queue (h : Coherent lock none) (hstate : lock.stateByWorkflowId.get? w = some state)
    (orTimeout : Bool) :
    Coherent (lock.acquire w orTimeout) none ∧
      ∀ v i, (lock.acquire w orTimeout).Acquired v i → lock.Acquired v i := by
  have hentry := h.entry w state hstate
  have heq := acquire_of_locked hstate hentry.locked orTimeout
  generalize lock.acquire w orTimeout = lock' at heq ⊢
  have hcalls : lock'.calls = lock.calls ++ [⟨w, orTimeout, state, false, orTimeout, .waits⟩] := by
    rw [heq]
  have hmap : lock'.stateByWorkflowId = lock.stateByWorkflowId := by rw [heq]
  have hstateAt : ∀ s, lock'.stateAt s = if s = state then
      { lock.stateAt state with
        waiters := (lock.stateAt state).waiters ++ [lock.calls.length] }
      else lock.stateAt s := by
    rw [heq]
    exact stateAt_updateState hentry.lt
  have hlength : lock'.states.length = lock.states.length := by
    rw [heq]
    exact List.length_modify _ _ _
  have hawaits : ∀ v i, lock'.Awaits v i ↔ lock.Awaits v i ∨ i = lock.calls.length ∧ w = v := by
    intro v i
    unfold Awaits
    rw [at_of_push hcalls]
    simp
  have hheld : ∀ v i, lock'.Holds v i ↔ lock.Holds v i := by
    intro v i
    unfold Holds
    rw [at_of_push hcalls]
    simp
  have hacquired : ∀ v i, lock'.Acquired v i ↔ lock.Acquired v i := by
    intro v i
    rw [acquired_of_push hcalls (by simp)]
    simp
  refine ⟨⟨fun v s hv => ?_, by rw [hmap]; exact h.apart, fun v s hv => ?_, fun v i hi => ?_,
    fun v i j hi hj => ?_, fun v i j hi hj => ?_, fun i d hd hp => ?_, fun i d hd ht => ?_⟩,
    fun v i => (hacquired v i).mp⟩
  · rw [hmap] at hv
    obtain ⟨hlt, hlocked, hsorted, hmem⟩ := h.entry v s hv
    by_cases hs : s = state
    · subst hs
      obtain rfl := h.apart _ _ _ hv hstate
      have hat := hstateAt s
      rw [if_pos rfl] at hat
      refine ⟨hlength ▸ hlt, by rw [hat]; exact hlocked, ?_, fun i => ?_⟩
      · rw [hat, List.pairwise_append]
        refine ⟨hsorted, List.pairwise_singleton _ _, fun i hi j hj => ?_⟩
        rw [List.mem_singleton.mp hj]
        exact ((hmem i).mp hi).lt
      · rw [hat, hawaits, List.mem_append, hmem, List.mem_singleton]
        simp
    · have hat := hstateAt s
      rw [if_neg hs] at hat
      refine ⟨hlength ▸ hlt, by rwa [hat], by rwa [hat], fun i => ?_⟩
      have hne : w ≠ v := by
        rintro rfl
        exact hs (Option.some.inj (hv.symm.trans hstate))
      rw [hat, hmem, hawaits]
      simp [hne]
  · rw [hmap] at hv
    exact (exists_congr fun i => hheld v i).trans (h.held v s hv)
  · rw [hmap]
    rw [hheld, hawaits] at hi
    rcases hi with hi | hi | ⟨-, rfl⟩
    · exact h.known v i (.inl hi)
    · exact h.known v i (.inr hi)
    · exact ⟨state, hstate⟩
  · rw [hheld] at hi hj
    exact h.alone v i j hi hj
  · rw [hawaits] at hi
    rw [hacquired] at hj
    rcases hi with hi | ⟨rfl, -⟩
    · exact h.order v i j hi hj
    · exact hj.lt
  · rw [hmap]
    rcases mem_of_push hcalls hd with hd | rfl
    · exact h.waits i d hd hp
    · exact ⟨hstate, rfl⟩
  · rcases mem_of_push hcalls hd with hd | rfl
    · exact h.timer i d hd ht
    · exact ⟨rfl, ht⟩

/-! ## Steps and runs -/

omit [DecidableEq W] in
/-- A call that is updated without being given anything hands nothing over. -/
theorem handsOver_of_acquired {event : LockEvent W}
    (hacquired : ∀ w i, lock'.Acquired w i → lock.Acquired w i)
    (hleave : ∀ i, event = .leave i → ∀ w, ¬ lock.Holds w i) : lock.HandsOver event lock' where
  first w i hnot hi := absurd (hacquired w i hi) hnot
  released w i hevent hi := absurd hi (hleave i hevent w)

theorem Coherent.step (h : Coherent lock none) {event : LockEvent W}
    (hs : lock.step event = .ok lock') : Coherent lock' none ∧ lock.HandsOver event lock' := by
  have harrival : ∀ w orTimeout, lock.acquire w orTimeout = lock' →
      (∀ i, event ≠ .leave i) → Coherent lock' none ∧ lock.HandsOver event lock' := by
    rintro w orTimeout rfl hevent
    cases hstate : lock.stateByWorkflowId.get? w with
    | none =>
      obtain ⟨hcoherent, hnobody⟩ := h.enter hstate orTimeout
      exact ⟨hcoherent, fun v i hnot hi j hj => absurd hj (hnobody v i hi hnot j),
        fun v i hi => absurd hi (hevent i)⟩
    | some state =>
      obtain ⟨hcoherent, hacquired⟩ := h.queue hstate orTimeout
      exact ⟨hcoherent, handsOver_of_acquired hacquired fun i hi => absurd hi (hevent i)⟩
  cases event with
  | runExclusive w => exact harrival w false (Except.ok.inj hs) (by simp)
  | runExclusiveOrTimeout w => exact harrival w true (Except.ok.inj hs) (by simp)
  | resume i =>
    simp only [PublicationLifecycleLock.step] at hs
    split at hs
    · rename_i acquired hprogress
      obtain ⟨c, hc, hp⟩ := Option.map_eq_some_iff.mp hprogress
      cases hs
      obtain ⟨hcoherent, hacquired⟩ := h.relabel hc
        (f := fun c => { c with progress := .runs acquired }) rfl
        (by simp [SameRole, hp]) (by simp [hp]) rfl
      exact ⟨hcoherent, handsOver_of_acquired (fun v j => (hacquired v j).mp) (by simp)⟩
    · cases hs
  | settle i =>
    simp only [PublicationLifecycleLock.step] at hs
    split at hs
    · rename_i acquired hprogress
      obtain ⟨c, hc, hp⟩ := Option.map_eq_some_iff.mp hprogress
      cases hs
      obtain ⟨hcoherent, hacquired⟩ := h.relabel hc
        (f := fun c => { c with progress := .settled acquired }) rfl
        (by simp [SameRole, hp]) (by simp [hp]) rfl
      exact ⟨hcoherent, handsOver_of_acquired (fun v j => (hacquired v j).mp) (by simp)⟩
    · cases hs
  | leave i =>
    simp only [PublicationLifecycleLock.step] at hs
    split at hs
    · rename_i c hc
      split at hs
      · rename_i acquired hp
        cases hs
        cases acquired with
        | false =>
          obtain ⟨hcoherent, hacquired⟩ := h.relabel hc
            (f := fun c => { c with progress := .returned false }) rfl
            (by simp [SameRole, hp]) (by simp [hp]) rfl
          refine ⟨hcoherent, handsOver_of_acquired (fun v j => (hacquired v j).mp) ?_⟩
          rintro j ⟨⟩ w hholds
          have := ((at_iff hc).mp hholds).2
          simp [hp] at this
        | true =>
          obtain ⟨hcoherent, hacquired, hawaits⟩ := h.leave hc hp
          obtain ⟨hreleased, hfirst, hnext⟩ := hcoherent.release
          refine ⟨hreleased, fun v j hnot hj k hk => ?_, fun v j hj hholds hother => ?_⟩
          · rw [← hacquired] at hnot
            obtain ⟨rfl, hleast⟩ := hfirst v j hnot hj
            exact hleast k ((hawaits _ k).mpr hk)
          · cases hj
            obtain ⟨rfl, -⟩ := (at_iff hc).mp hholds
            simp only [hawaits] at hnext
            exact hnext hother
      · cases hs
    · cases hs
  | timeout i =>
    simp only [PublicationLifecycleLock.step] at hs
    split at hs
    · rename_i c hc
      split at hs
      · rename_i ht
        cases hs
        obtain ⟨hcoherent, hacquired⟩ := h.timeout hc ht
        exact ⟨hcoherent, handsOver_of_acquired (fun v j => (hacquired v j).mp) (by simp)⟩
      · cases hs
    · cases hs

variable {steps : List (PublicationLifecycleLock W × LockEvent W)}

theorem run_coherent (h : Run step {} steps lock) :
    ∀ state ∈ steps.map Prod.fst ++ [lock], Coherent state none :=
  h.forall_states coherent_initial fun _ _ _ hstate hs => (hstate.step hs).1

/-- In all states of a run at most one function runs under the lock of a workflow, nobody who
waits came before one who acquired it, and the map has the workflows whose lock is held or
awaited. In all steps the lock goes to the first who waits, and a holder that leaves hands it
over. -/
theorem lifecycleLock_run (h : Run step {} steps lock) :
    (∀ state ∈ steps.map Prod.fst ++ [lock], state.Exclusive) ∧
      ∀ x ∈ steps, ∀ next, x.1.step x.2 = .ok next → x.1.HandsOver x.2 next := by
  have hcoherent := run_coherent h
  refine ⟨fun state hstate => (hcoherent state hstate).exclusive, fun x hx next hnext => ?_⟩
  have hx' := hcoherent x.1 (List.mem_append_left _ (List.mem_map_of_mem hx))
  exact (hx'.step hnext).2

/-- A waiter times out, the one behind it is handed the lock, and a call of another workflow
does not wait. -/
theorem lifecycleLock_run_timeout : ∃ steps, ∃ lock : PublicationLifecycleLock String,
    Run step {} steps lock ∧ lock.calls.map LockCall.progress =
      [.returned true, .runs false, .runs true, .resolved true] ∧
    (∀ state ∈ steps.map Prod.fst ++ [lock], state.Exclusive) ∧
      ∀ x ∈ steps, ∀ next, x.1.step x.2 = .ok next → x.1.HandsOver x.2 next := by
  have hevents : (runSteps step ({} : PublicationLifecycleLock String)
      [.runExclusive "1", .runExclusiveOrTimeout "1", .runExclusive "1",
        .runExclusiveOrTimeout "2", .resume 0, .timeout 1, .resume 1, .settle 0, .leave 0,
        .resume 2]).map (fun r => r.2.calls.map LockCall.progress) =
      .ok [.returned true, .runs false, .runs true, .resolved true] := by
    decide
  obtain ⟨steps, lock, hrun, -, hprogress⟩ := exists_run hevents
  exact ⟨steps, lock, hrun, hprogress, lifecycleLock_run hrun⟩

end PublicationLifecycleLock

end N8n
