import Mathlib.Algebra.Order.Ring.Int
import Mathlib.Data.Int.Notation
import Mathlib.Data.List.Infix
import N8n.Lib.OrderedSet
import N8n.Lib.Run

/-!
# The concurrency queue

`ConcurrencyQueue` counts down the capacity for each execution that asks to start and lets
it through while the counter is not negative; the others wait in a queue. `dequeue` gives the
capacity of a finished execution back, `remove` that of an execution that waits and is
cancelled, and both let the next one through.

The counter is the limit less the executions that run and the executions that wait
(`Accounted`). Removing an execution that waits frees no place, but the one behind it is let
through all the same : then more run than the limit allows. A run of calls keeps to the limit
exactly when no execution is removed while another one waits with it (`run_limited_iff`), and
for each such removal at most one more runs (`run_running_le`).
-/

open Lib

namespace N8n

/-! ## The queue -/

/-- Each entry of the queue carries the `resolve` of the promise its execution waits for. -/
structure ConcurrencyQueue where
  capacity : ℤ
  queue : List String := []
  deriving DecidableEq, Repr

namespace ConcurrencyQueue

/-- The execution that is let through, if there is one, is told with the queue. -/
def resolveNext (q : ConcurrencyQueue) : ConcurrencyQueue × Option String :=
  match q.queue with
  | [] => (q, none)
  | executionId :: queue => ({ q with queue }, some executionId)

/-- Whether the execution is let through at once is told with the queue. -/
def enqueue (q : ConcurrencyQueue) (executionId : String) : ConcurrencyQueue × Bool :=
  let capacity := q.capacity - 1
  if capacity < 0 then ({ capacity, queue := q.queue ++ [executionId] }, false)
  else ({ q with capacity }, true)

def currentCapacity (q : ConcurrencyQueue) : ℤ := q.capacity

def dequeue (q : ConcurrencyQueue) : ConcurrencyQueue × Option String :=
  resolveNext { q with capacity := q.capacity + 1 }

def remove (q : ConcurrencyQueue) (executionId : String) : ConcurrencyQueue × Option String :=
  if executionId ∈ q.queue then
    resolveNext { capacity := q.capacity + 1, queue := q.queue.erase executionId }
  else (q, none)

def getAll (q : ConcurrencyQueue) : OrderedSet String := .ofList q.queue

def has (q : ConcurrencyQueue) (executionId : String) : Bool := executionId ∈ q.queue

end ConcurrencyQueue

/-! ## Calls -/

/-- The queue with the executions that called `enqueue`, those it let through and those of
them that have not finished. -/
structure QueueUse where
  queue : ConcurrencyQueue
  enqueued : List String := []
  letThrough : List String := []
  running : List String := []
  deriving DecidableEq, Repr

inductive QueueCall where
  | enqueue (executionId : String)
  /-- The call of an execution that was let through and has finished. -/
  | dequeue (executionId : String)
  | remove (executionId : String)
  deriving DecidableEq, Repr

namespace QueueUse

/-- Nothing has called the queue yet. -/
def initial (limit : ℕ) : QueueUse := { queue := { capacity := limit } }

/-- The queue after a call, and whom the call let through. -/
def proceed (use : QueueUse) (after : ConcurrencyQueue × Option String) : QueueUse :=
  { use with
    queue := after.1
    letThrough := use.letThrough ++ after.2.toList
    running := use.running ++ after.2.toList }

/-- Execution ids are fresh, and an execution finishes once, after it was let through. -/
def step (use : QueueUse) : QueueCall → Except Unit QueueUse
  | .enqueue executionId =>
    if executionId ∈ use.enqueued then .error ()
    else
      let after := use.queue.enqueue executionId
      .ok (({ use with enqueued := use.enqueued ++ [executionId] } : QueueUse).proceed
        (after.1, if after.2 then some executionId else none))
  | .dequeue executionId =>
    if executionId ∈ use.running then
      .ok (({ use with running := use.running.erase executionId } : QueueUse).proceed
        use.queue.dequeue)
    else .error ()
  | .remove executionId => .ok (use.proceed (use.queue.remove executionId))

/-- The limit is kept, nobody waits without need, and executions are let through in the
order they were enqueued, those that still wait being last. -/
structure Limited (limit : ℕ) (use : QueueUse) : Prop where
  within : use.running.length ≤ limit
  busy : use.queue.queue ≠ [] → limit ≤ use.running.length
  order : (use.letThrough ++ use.queue.queue).Sublist use.enqueued

/-- The call does not remove an execution that waits together with others. -/
def removesLast (use : QueueUse) : QueueCall → Bool
  | .remove executionId => executionId ∈ use.queue.queue → use.queue.queue.length ≤ 1
  | _ => true

/-! ## What the counter counts -/

/-- The counter is the limit less the executions that run and those that wait. -/
structure Accounted (limit : ℕ) (use : QueueUse) : Prop where
  capacity : use.queue.capacity = limit - use.running.length - use.queue.queue.length
  busy : use.queue.queue ≠ [] → limit ≤ use.running.length
  order : (use.letThrough ++ use.queue.queue).Sublist use.enqueued

variable {limit : ℕ} {use use' : QueueUse} {call : QueueCall}

theorem limited_iff (h : Accounted limit use) : Limited limit use ↔ use.running.length ≤ limit :=
  ⟨Limited.within, fun hwithin => ⟨hwithin, h.busy, h.order⟩⟩

/-- A place was given back : the next one takes it. -/
theorem accounted_proceed {q : ConcurrencyQueue}
    (hcapacity : q.capacity = limit - use.running.length - q.queue.length)
    (hbusy : q.queue ≠ [] → limit ≤ use.running.length + 1)
    (horder : (use.letThrough ++ q.queue).Sublist use.enqueued) :
    Accounted limit (use.proceed q.resolveNext) := by
  obtain ⟨capacity, queue⟩ := q
  cases queue with
  | nil =>
    refine ⟨?_, fun h => absurd rfl h, ?_⟩
    · simpa [proceed, ConcurrencyQueue.resolveNext] using hcapacity
    · simpa [proceed, ConcurrencyQueue.resolveNext] using horder
  | cons executionId queue =>
    refine ⟨?_, fun _ => ?_, ?_⟩
    · simp only [proceed, ConcurrencyQueue.resolveNext, Option.toList_some, List.length_append,
        List.length_cons, List.length_nil, Nat.cast_add, Nat.cast_one] at hcapacity ⊢
      omega
    · simpa [proceed, ConcurrencyQueue.resolveNext] using hbusy (List.cons_ne_nil _ _)
    · simpa [proceed, ConcurrencyQueue.resolveNext] using horder

theorem length_running_proceed {q : ConcurrencyQueue} :
    (use.proceed q.resolveNext).running.length =
      use.running.length + if q.queue = [] then 0 else 1 := by
  obtain ⟨capacity, queue⟩ := q
  cases queue <;> simp [proceed, ConcurrencyQueue.resolveNext]

/-! ## One call -/

theorem Accounted.enqueue {executionId : String} (h : Accounted limit use)
    (hs : use.step (.enqueue executionId) = .ok use') :
    Accounted limit use' ∧ (use.running.length ≤ limit → use'.running.length ≤ limit) := by
  obtain ⟨hcapacity, hbusy, horder⟩ := h
  simp only [step] at hs
  split at hs
  · cases hs
  obtain rfl := Except.ok.inj hs
  simp only [ConcurrencyQueue.enqueue]
  split
  · rename_i hnegative
    refine ⟨⟨?_, fun _ => ?_, ?_⟩, fun hwithin => ?_⟩
    · simp [proceed]
      omega
    · by_cases hqueue : use.queue.queue = []
      · rw [hqueue] at hcapacity
        simp [proceed] at hcapacity ⊢
        omega
      · simpa [proceed] using hbusy hqueue
    · simpa [proceed, ← List.append_assoc] using horder.append_right [executionId]
    · simpa [proceed] using hwithin
  · rename_i hnonneg
    have hidle : use.queue.queue = [] := by
      by_contra hqueue
      have := hbusy hqueue
      omega
    rw [hidle] at hcapacity horder
    refine ⟨⟨?_, fun hqueue => absurd hidle hqueue, ?_⟩, fun _ => ?_⟩
    · simp [proceed, hidle] at hcapacity ⊢
      omega
    · simpa [proceed, hidle] using horder.append_right [executionId]
    · simp [proceed] at hcapacity ⊢
      omega

theorem Accounted.dequeue {executionId : String} (h : Accounted limit use)
    (hs : use.step (.dequeue executionId) = .ok use') :
    Accounted limit use' ∧ (use.running.length ≤ limit → use'.running.length ≤ limit) := by
  obtain ⟨hcapacity, hbusy, horder⟩ := h
  simp only [step] at hs
  split at hs
  · rename_i hrunning
    obtain rfl := Except.ok.inj hs
    have hlength := List.length_erase_of_mem hrunning
    have hpos := List.length_pos_of_mem hrunning
    refine ⟨accounted_proceed ?_ (fun hqueue => ?_) horder, fun hwithin => ?_⟩
    · simp only [hlength]
      omega
    · have := hbusy hqueue
      simp only [hlength]
      omega
    · rw [ConcurrencyQueue.dequeue, length_running_proceed]
      simp only [hlength]
      split <;> omega
  · cases hs

theorem Accounted.remove {executionId : String} (h : Accounted limit use) :
    Accounted limit (use.proceed (use.queue.remove executionId)) := by
  obtain ⟨hcapacity, hbusy, horder⟩ := h
  unfold ConcurrencyQueue.remove
  split
  · rename_i hqueued
    have hlength := List.length_erase_of_mem hqueued
    have hpos := List.length_pos_of_mem hqueued
    refine accounted_proceed ?_ (fun _ => ?_) ?_
    · simp only [hlength]
      omega
    · have := hbusy (List.ne_nil_of_mem hqueued)
      omega
    · exact ((List.erase_sublist).append_left _).trans horder
  · refine ⟨?_, fun hqueue => ?_, ?_⟩
    · simpa [proceed] using hcapacity
    · simpa [proceed] using hbusy hqueue
    · simpa [proceed] using horder

/-- Removing an execution that waits lets one through above the limit, unless it was the only
one. -/
theorem Accounted.remove_within_iff {executionId : String} (h : Accounted limit use)
    (hwithin : use.running.length ≤ limit) :
    (use.proceed (use.queue.remove executionId)).running.length ≤ limit ↔
      use.removesLast (.remove executionId) = true := by
  simp only [removesLast, decide_eq_true_iff]
  unfold ConcurrencyQueue.remove
  split
  · rename_i hqueued
    have hfull := h.busy (List.ne_nil_of_mem hqueued)
    have hlength := List.length_erase_of_mem hqueued
    have hpos := List.length_pos_of_mem hqueued
    rw [length_running_proceed]
    split
    · rename_i hnil
      have hone : use.queue.queue.length - 1 = 0 := hlength.symm.trans (congrArg List.length hnil)
      exact iff_of_true (by omega) fun _ => by omega
    · rename_i hne
      have hmore : 0 < (use.queue.queue.erase executionId).length := List.length_pos_iff.mpr hne
      exact iff_of_false (by omega) fun hlast => by
        have := hlast hqueued
        omega
  · rename_i hqueued
    exact iff_of_true (by simpa [proceed] using hwithin) fun h => absurd h hqueued

theorem Accounted.step (h : Accounted limit use) (hs : use.step call = .ok use') :
    Accounted limit use' ∧ (use.running.length ≤ limit →
      (use'.running.length ≤ limit ↔ use.removesLast call = true)) := by
  cases call with
  | enqueue executionId =>
    obtain ⟨hafter, hwithin⟩ := h.enqueue hs
    exact ⟨hafter, fun hle => iff_of_true (hwithin hle) rfl⟩
  | dequeue executionId =>
    obtain ⟨hafter, hwithin⟩ := h.dequeue hs
    exact ⟨hafter, fun hle => iff_of_true (hwithin hle) rfl⟩
  | remove executionId =>
    obtain rfl := Except.ok.inj hs
    exact ⟨h.remove, h.remove_within_iff⟩

/-- Whether or not the limit is kept : above it, only such a removal lets one more through. -/
theorem Accounted.running_le (h : Accounted limit use) (hs : use.step call = .ok use') :
    use'.running.length ≤
      max limit use.running.length + if use.removesLast call = true then 0 else 1 := by
  have hcapacity := h.capacity
  cases call with
  | enqueue executionId =>
    simp only [QueueUse.step] at hs
    split at hs
    · cases hs
    obtain rfl := Except.ok.inj hs
    simp only [ConcurrencyQueue.enqueue]
    split
    · simp [proceed]
      omega
    · simp [proceed]
      omega
  | dequeue executionId =>
    simp only [QueueUse.step] at hs
    split at hs
    · rename_i hrunning
      obtain rfl := Except.ok.inj hs
      have hlength := List.length_erase_of_mem hrunning
      have hpos := List.length_pos_of_mem hrunning
      rw [ConcurrencyQueue.dequeue, length_running_proceed]
      simp only [hlength]
      split <;> omega
    · cases hs
  | remove executionId =>
    obtain rfl := Except.ok.inj hs
    simp only [removesLast, decide_eq_true_iff]
    unfold ConcurrencyQueue.remove
    split
    · rename_i hqueued
      have hlength := List.length_erase_of_mem hqueued
      rw [length_running_proceed]
      split
      · omega
      · rename_i hne
        have hmore : 0 < (use.queue.queue.erase executionId).length := List.length_pos_iff.mpr hne
        rw [if_neg fun hlast => by have := hlast hqueued; omega]
        omega
    · simp [proceed]
      omega

/-! ## Runs -/

theorem accounted_initial (limit : ℕ) : Accounted limit (initial limit) :=
  ⟨by simp [initial], fun h => absurd rfl h, .slnil⟩

theorem run_accounted {calls : List (QueueUse × QueueCall)}
    (h : Run step (initial limit) calls use) : Accounted limit use :=
  h.invariant (C := fun _ _ => True) (accounted_initial limit) (fun _ _ _ hs _ h => (hs.step h).1)
    fun _ _ => trivial

/-- A run of calls keeps to the limit in all its states exactly when none of them removes an
execution that waits together with others. -/
theorem run_limited_iff {calls : List (QueueUse × QueueCall)}
    (h : Run step (initial limit) calls use) :
    (∀ state ∈ calls.map Prod.fst ++ [use], Limited limit state) ↔
      ∀ call ∈ calls, call.1.removesLast call.2 = true := by
  induction h with
  | nil => simpa using (limited_iff (accounted_initial limit)).mpr (Nat.zero_le limit)
  | @snoc calls use use' call h hs ih =>
    obtain ⟨hafter, hwithin⟩ := (run_accounted h).step hs
    rw [List.map_append, @List.forall_mem_append _ _ (_ ++ _), @List.forall_mem_append _ _ calls,
      List.map_singleton, ih]
    refine and_congr_right fun hbefore => ?_
    have hlimited : Limited limit use := ih.mpr hbefore use (by simp)
    rw [List.forall_mem_singleton, List.forall_mem_singleton, limited_iff hafter,
      hwithin hlimited.within]

/-- Removing the only execution that waits keeps to the limit. -/
theorem run_limited_lastRemoved : ∃ calls use, Run step (initial 1) calls use ∧
    use.letThrough = ["1", "3"] ∧ ∀ state ∈ calls.map Prod.fst ++ [use], Limited 1 state := by
  have hcalls : (runSteps step (initial 1)
      [.enqueue "1", .enqueue "2", .remove "2", .enqueue "3", .dequeue "1"]).map
      (fun r => (r.2.letThrough, r.1.all fun call => call.1.removesLast call.2)) =
        .ok (["1", "3"], true) := by
    decide
  obtain ⟨calls, use, hrun, -, h⟩ := exists_run hcalls
  obtain ⟨hthrough, hlast⟩ := Prod.mk.inj h
  exact ⟨calls, use, hrun, hthrough, (run_limited_iff hrun).mpr (List.all_eq_true.mp hlast)⟩

/-- At most as many executions run above the limit as such removals were made. -/
theorem run_running_le {calls : List (QueueUse × QueueCall)}
    (h : Run step (initial limit) calls use) :
    use.running.length ≤ limit + calls.countP fun call => !call.1.removesLast call.2 := by
  induction h with
  | nil => simp [initial]
  | @snoc calls use use' call h hs ih =>
    have hle := (run_accounted h).running_le hs
    rw [List.countP_append, List.countP_singleton]
    cases hlast : use.removesLast call <;> simp [hlast] at hle ⊢ <;> omega

theorem run_running_le_removed : ∃ calls use, Run step (initial 1) calls use ∧
    use.running.length = 2 ∧
    use.running.length ≤ 1 + calls.countP fun call => !call.1.removesLast call.2 := by
  have hcalls : (runSteps step (initial 1)
      [.enqueue "1", .enqueue "2", .enqueue "3", .remove "2"]).map
      (fun r => r.2.running.length) = .ok 2 := by
    decide
  obtain ⟨calls, use, hrun, -, hrunning⟩ := exists_run hcalls
  exact ⟨calls, use, hrun, hrunning, run_running_le hrun⟩

/-- With a limit of one, removing the first of two that wait lets the second one run beside
the one that runs. -/
theorem run_not_limited : ∃ calls use, Run step (initial 1) calls use ∧ ¬Limited 1 use := by
  have hcalls : (runSteps step (initial 1)
      [.enqueue "1", .enqueue "2", .enqueue "3", .remove "2"]).map (fun r => r.2.running) =
        .ok ["1", "3"] := by
    decide
  obtain ⟨calls, use, hrun, -, hrunning⟩ := exists_run hcalls
  refine ⟨calls, use, hrun, fun hlimited => ?_⟩
  have hwithin := hlimited.within
  rw [show use.running = ["1", "3"] from hrunning] at hwithin
  exact absurd hwithin (by decide)

end QueueUse
end N8n
