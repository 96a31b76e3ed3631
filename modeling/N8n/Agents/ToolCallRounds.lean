import N8n.Agents.ToolCallExecutor

/-!
# A round of tool calls

Everything a round does is about one call at a time and leaves the others alone (`Leaves`,
`Touches`), so what is known of a call is known until its own turn. When it is processed its block
is settled, or left as it is when it suspends (`Processed`), and what is recorded then accounts
for it (`Counted`) : it is pending and not settled, or settled and reported once.

`iterateToolCallsConcurrent_spec` : the round accounts for all calls that the provider does not
execute, whether they have invalid inputs, are executed, or come after a call that suspends.
-/

open Lib

namespace N8n

namespace ToolCallExecutor

open AgentMessageList

variable {I V E M : Type} [DecidableEq I] {executor : ToolCallExecutor V E}
  {round : ToolRound I V E M}

/-! ## Batches -/

omit [DecidableEq I] in
/-- Every call is in one batch. -/
theorem flatten_toolCallBatches (executor : ToolCallExecutor V E)
    (toolMap : String → Option (BuiltTool V E M)) :
    ∀ {n : ℕ} {calls : List (ToolCall I V)}, calls.length ≤ n →
      (executor.toolCallBatches toolMap n calls).flatten = calls
  | 0, calls, h => by
    rw [List.length_eq_zero_iff.mp (Nat.le_zero.mp h)]
    rfl
  | n + 1, [], _ => rfl
  | n + 1, first :: rest, h => by
    have hbatch : executor.takeNextToolCallBatch toolMap first rest =
        rest.take (executor.takeNextToolCallBatch toolMap first rest).length := by
      refine List.prefix_iff_eq_take.mp ?_
      rw [takeNextToolCallBatch]
      split
      · exact List.takeWhile_prefix _
      · exact (List.takeWhile_prefix _).trans (List.take_prefix _ _)
    have hrest : (rest.drop (executor.takeNextToolCallBatch toolMap first rest).length).length ≤
        n := by
      rw [List.length_drop]
      rw [List.length_cons] at h
      omega
    rw [toolCallBatches, List.flatten_cons, flatten_toolCallBatches executor toolMap hrest,
      List.cons_append]
    congr 1
    nth_rewrite 1 [hbatch]
    exact List.take_append_drop _ _

/-! ## What a step leaves alone -/

/-- A change of the world that leaves alone the calls that are not given. -/
structure Leaves (world world' : ToolCallWorld I V E) (ids : List I) : Prop where
  hosted : ∀ id, world'.list.hosts id = world.list.hosts id
  others : ∀ id ∉ ids, SameCall world.list world'.list id ∧
    world'.handled.count id = world.handled.count id

theorem Leaves.refl (world : ToolCallWorld I V E) (ids : List I) : Leaves world world ids :=
  ⟨fun _ => rfl, fun id _ => ⟨SameCall.refl _ id, rfl⟩⟩

variable {world world' world₁ world₂ world₃ : ToolCallWorld I V E} {ids ids' : List I} {id : I}

theorem Leaves.trans (h : Leaves world₁ world₂ ids) (h' : Leaves world₂ world₃ ids') :
    Leaves world₁ world₃ (ids ++ ids') := by
  refine ⟨fun id => (h'.hosted id).trans (h.hosted id), fun id hid => ?_⟩
  rw [List.mem_append, not_or] at hid
  obtain ⟨hsame, hcount⟩ := h.others id hid.1
  obtain ⟨hsame', hcount'⟩ := h'.others id hid.2
  exact ⟨hsame.trans hsame', hcount'.trans hcount⟩

theorem Leaves.mono (h : Leaves world world' ids) (hids : ids ⊆ ids') :
    Leaves world world' ids' :=
  ⟨h.hosted, fun id hid => h.others id fun hmem => hid (hids hmem)⟩

theorem leaves_setToolCallResult {output : V} {canceled : Bool} :
    Leaves world (setToolCallResult world id output canceled) [id] :=
  ⟨fun _ => hosts_setToolCallState, fun _ hid =>
    ⟨setToolCallState_sameCall fun h => hid (List.mem_singleton.mpr h), rfl⟩⟩

variable {error : ToolCallFailure E}

theorem leaves_setToolCallError :
    Leaves world (setToolCallError world id error) [id] :=
  ⟨fun _ => hosts_setToolCallState, fun _ hid =>
    ⟨setToolCallState_sameCall fun h => hid (List.mem_singleton.mpr h), rfl⟩⟩

theorem leaves_addMessage {isResponse : Bool} :
    Leaves world { world with list := world.list.addMessage isResponse } [] :=
  ⟨fun _ => hosts_addMessage, fun _ _ => ⟨addMessage_sameCall, rfl⟩⟩

theorem leaves_handled :
    Leaves world { world with handled := world.handled ++ [id] } [id] := by
  refine ⟨fun _ => rfl, fun other hother => ⟨SameCall.refl _ other, ?_⟩⟩
  change (world.handled ++ [id]).count other = world.handled.count other
  rw [List.count_append, List.count_eq_zero_of_not_mem hother, Nat.add_zero]

/-! ## One call -/

/-- What the list has to say about a call with the outcome given. -/
def Fits (world : ToolCallWorld I V E) (id : I) :
    Except (ToolCallFailure E) (ToolCallOutcome V E M) → Prop
  | .ok (.suspended ..) => world.list.IsUnsettled id
  | .ok .noop => False
  | .ok _ => world.list.IsSettled id
  | .error _ => world.list.hosts id = true

theorem Fits.of_sameCall {outcome : Except (ToolCallFailure E) (ToolCallOutcome V E M)}
    (h : Fits world id outcome) (hsame : SameCall world.list world'.list id) :
    Fits world' id outcome := by
  cases outcome with
  | error _ => exact hsame.hosted.trans h
  | ok outcome =>
    cases outcome with
    | suspended => exact hsame.isUnsettled h
    | noop => exact h
    | success => exact hsame.isSettled h
    | cancelled => exact hsame.isSettled h
    | error => exact hsame.isSettled h

/-- A call that was not settled is processed. -/
structure Processed (world : ToolCallWorld I V E) (id : I) (r : ToolCallStep I V E M) : Prop where
  leaves : Leaves world r.1 [id]
  fits : world.list.IsUnsettled id → Fits r.1 id r.2

theorem Processed.of_leaves {r : ToolCallStep I V E M} (hleaves : Leaves world₁ world₂ [id])
    (h : Processed world₂ id r) (hsame : SameCall world₁.list world₂.list id) :
    Processed world₁ id r :=
  ⟨(hleaves.trans h.leaves).mono (by simp), fun hunsettled => h.fits (hsame.isUnsettled hunsettled)⟩

theorem processed_toolError :
    Processed world id (toolError world id error : ToolCallStep I V E M) :=
  ⟨leaves_setToolCallError, fun h => IsSettled.of_set h.hosted⟩

theorem processed_throws :
    Processed world id ((world, .error error) : ToolCallStep I V E M) :=
  ⟨Leaves.refl _ _, fun h => h.hosted⟩

theorem processed_buildSuspendedOutcome {toolName : String} {tool : BuiltTool V E M}
    {payload : V} : Processed world id (buildSuspendedOutcome world id toolName tool payload) := by
  rw [buildSuspendedOutcome]
  split
  · exact processed_throws
  · exact processed_toolError
  · split
    · exact processed_toolError
    · exact processed_throws
    · exact processed_toolError
    · exact ⟨Leaves.refl _ _, fun h => h⟩

theorem processed_buildSuccessOutcome {toolName : String} {input toolResult : V}
    {tool : BuiltTool V E M} :
    Processed world id (executor.buildSuccessOutcome world id toolName input tool toolResult) := by
  rw [buildSuccessOutcome]
  split
  · exact processed_toolError
  · split
    · exact processed_throws
    · rename_i output _
      have hset : Leaves world (setToolCallResult world id output false) [id] :=
        leaves_setToolCallResult
      dsimp only
      split
      · exact ⟨hset, fun h => (hset.hosted id).trans h.hosted⟩
      · split
        · refine ⟨(hset.trans leaves_addMessage).mono (by simp), fun h => ?_⟩
          exact addMessage_sameCall.isSettled (IsSettled.of_set h.hosted)
        · exact ⟨hset, fun h => IsSettled.of_set h.hosted⟩

theorem processed_runTool {toolName : String} {input : V} {tool : BuiltTool V E M} :
    Processed world id (executor.runTool round world id toolName input tool) := by
  rw [runTool]
  split
  · exact processed_toolError.of_leaves leaves_handled (SameCall.refl _ _)
  · exact processed_buildSuspendedOutcome.of_leaves leaves_handled (SameCall.refl _ _)
  · exact processed_buildSuccessOutcome.of_leaves leaves_handled (SameCall.refl _ _)

theorem processed_processToolCall (executor : ToolCallExecutor V E) (round : ToolRound I V E M)
    (world : ToolCallWorld I V E) (id : I) (toolName : String) (input : V)
    (resumeData : Option V) :
    Processed world id (executor.processToolCall round world id toolName input resumeData) := by
  rw [processToolCall]
  split
  · exact processed_toolError
  · split
    · rename_i c hsettled
      refine ⟨Leaves.refl _ _, fun h => ?_⟩
      rw [h.findSettledToolCall] at hsettled
      cases hsettled
    · split
      · exact ⟨leaves_setToolCallResult, fun h => IsSettled.of_set h.hosted⟩
      · split
        · exact processed_throws
        · exact processed_toolError
        · exact processed_runTool

theorem isCancelled_toolError {outcome : ToolCallOutcome V E M}
    (h : (toolError world id error : ToolCallStep I V E M).2 = .ok outcome) :
    isCancelled outcome = false := by
  cases h
  rfl

/-- Only a call that is resumed is cancelled. -/
theorem not_isCancelled_processToolCall (executor : ToolCallExecutor V E)
    (round : ToolRound I V E M) (world : ToolCallWorld I V E) (id : I) (toolName : String)
    (input : V) (outcome : ToolCallOutcome V E M)
    (h : (executor.processToolCall round world id toolName input none).2 = .ok outcome) :
    isCancelled outcome = false := by
  rw [processToolCall] at h
  split at h
  · exact isCancelled_toolError h
  · split at h
    · cases h
      rfl
    · simp only [Option.bind_none] at h
      split at h
      · cases h
      · exact isCancelled_toolError h
      · rw [runTool] at h
        split at h
        · exact isCancelled_toolError h
        · rw [buildSuspendedOutcome] at h
          split at h
          · cases h
          · exact isCancelled_toolError h
          · split at h
            · exact isCancelled_toolError h
            · cases h
            · exact isCancelled_toolError h
            · cases h
              rfl
        · rw [buildSuccessOutcome] at h
          split at h
          · exact isCancelled_toolError h
          · split at h
            · cases h
            · dsimp only at h
              split at h
              · cases h
              · cases h
                rfl

/-- The calls of a batch are processed, each in its turn. -/
theorem processBatch_spec {calls : List (ToolCall I V)}
    {r : ToolCallWorld I V E × List (ToolCall I V × Except (ToolCallFailure E)
      (ToolCallOutcome V E M))}
    (hr : executor.processBatch round world calls = r)
    (hnodup : (calls.map (·.toolCallId)).Nodup)
    (hunsettled : ∀ tc ∈ calls, world.list.IsUnsettled tc.toolCallId) :
    Leaves world r.1 (calls.map (·.toolCallId)) ∧ r.2.map Prod.fst = calls ∧
      ∀ x ∈ r.2, Fits r.1 x.1.toolCallId x.2 ∧
        ∀ outcome, x.2 = .ok outcome → isCancelled outcome = false := by
  induction calls generalizing world r with
  | nil =>
    subst hr
    exact ⟨Leaves.refl _ _, rfl, fun x hx => (by cases hx)⟩
  | cons tc calls ih =>
    rw [List.map_cons, List.nodup_cons] at hnodup
    obtain ⟨hnew, hnodup⟩ := hnodup
    have hprocessed := processed_processToolCall executor round world tc.toolCallId tc.toolName
      tc.input none
    have hcancelled := not_isCancelled_processToolCall executor round world tc.toolCallId
      tc.toolName tc.input
    generalize hstep : executor.processToolCall round world tc.toolCallId tc.toolName tc.input
      none = step at hprocessed hcancelled
    obtain ⟨world₁, outcome⟩ := step
    have hunsettled₁ : ∀ c ∈ calls, world₁.list.IsUnsettled c.toolCallId := by
      intro c hc
      have hne : c.toolCallId ∉ [tc.toolCallId] := by
        intro h
        exact hnew (List.mem_singleton.mp h ▸ List.mem_map_of_mem hc)
      exact (hprocessed.leaves.others _ hne).1.isUnsettled
        (hunsettled c (List.mem_cons_of_mem _ hc))
    generalize hrest : executor.processBatch round world₁ calls = rest at ih
    obtain ⟨hleaves, hcalls, hfits⟩ := ih hrest hnodup hunsettled₁
    have hr' : r = (rest.1, (tc, outcome) :: rest.2) := by
      rw [← hr, processBatch, hstep]
      simp only [hrest]
    subst hr'
    refine ⟨hprocessed.leaves.trans hleaves, congrArg _ hcalls, ?_⟩
    refine List.forall_mem_cons.mpr ⟨⟨?_, hcancelled⟩, hfits⟩
    exact (hprocessed.fits (hunsettled tc List.mem_cons_self)).of_sameCall
      (hleaves.others _ hnew).1

/-! ## What a round has of a call -/

/-- How often the results and errors of a batch report a call. -/
def reportCount (batch : ToolCallBatchResult I V E M) (id : I) : ℕ :=
  (ToolCallRun.reportedBy batch).count id

/-- Nothing is recorded of the call. -/
def Fresh (s : RoundState I V E M) (id : I) : Prop :=
  id ∉ s.batch.pending.keys ∧ reportCount s.batch id = 0

/-- The call is pending and not settled, or settled and reported once. -/
def Counted (s : RoundState I V E M) (id : I) : Prop :=
  id ∈ s.batch.pending.keys ∧ s.world.list.IsUnsettled id ∧ reportCount s.batch id = 0 ∨
    id ∉ s.batch.pending.keys ∧ s.world.list.IsSettled id ∧ reportCount s.batch id = 1

/-- The pending calls are known by their identifiers. -/
def Keyed (pending : OrderedMap I (PendingToolCall I V)) : Prop :=
  ∀ id entry, pending.get? id = some entry → entry.toolCallId = id

theorem keyed_empty : Keyed (.empty : OrderedMap I (PendingToolCall I V)) :=
  fun _ _ h => (by cases h)

theorem Keyed.set {pending : OrderedMap I (PendingToolCall I V)} (h : Keyed pending) {id : I}
    {entry : PendingToolCall I V} (hid : entry.toolCallId = id) : Keyed (pending.set id entry) := by
  intro other e he
  rw [OrderedMap.get?_set] at he
  split at he
  · rename_i hother
    cases he
    exact hid.trans hother
  · exact h other e he

/-- A change that leaves the calls alone that are not given, and what is recorded of them. -/
structure Touches (s s' : RoundState I V E M) (ids : List I) : Prop where
  leaves : Leaves s.world s'.world ids
  pending : ∀ id ∉ ids, id ∈ s'.batch.pending.keys ↔ id ∈ s.batch.pending.keys
  reported : ∀ id ∉ ids, reportCount s'.batch id = reportCount s.batch id
  keyed : Keyed s.batch.pending → Keyed s'.batch.pending

variable {s s' s₁ s₂ s₃ : RoundState I V E M}

theorem Touches.refl (s : RoundState I V E M) (ids : List I) : Touches s s ids :=
  ⟨Leaves.refl _ _, fun _ _ => Iff.rfl, fun _ _ => rfl, fun h => h⟩

theorem Touches.trans (h : Touches s₁ s₂ ids) (h' : Touches s₂ s₃ ids') :
    Touches s₁ s₃ (ids ++ ids') := by
  refine ⟨h.leaves.trans h'.leaves, fun id hid => ?_, fun id hid => ?_,
    fun hkeyed => h'.keyed (h.keyed hkeyed)⟩
  · rw [List.mem_append, not_or] at hid
    exact (h'.pending id hid.2).trans (h.pending id hid.1)
  · rw [List.mem_append, not_or] at hid
    exact (h'.reported id hid.2).trans (h.reported id hid.1)

theorem Touches.mono (h : Touches s s' ids) (hids : ids ⊆ ids') : Touches s s' ids' :=
  ⟨h.leaves.mono hids, fun id hid => h.pending id fun hmem => hid (hids hmem),
    fun id hid => h.reported id fun hmem => hid (hids hmem), h.keyed⟩

theorem Touches.fresh (h : Touches s s' ids) (hid : id ∉ ids) (hfresh : Fresh s id) :
    Fresh s' id :=
  ⟨fun hmem => hfresh.1 ((h.pending id hid).mp hmem), (h.reported id hid).trans hfresh.2⟩

theorem Touches.counted (h : Touches s s' ids) (hid : id ∉ ids) (hcounted : Counted s id) :
    Counted s' id := by
  have hsame := (h.leaves.others id hid).1
  rcases hcounted with ⟨hmem, hunsettled, hcount⟩ | ⟨hmem, hsettled, hcount⟩
  · exact Or.inl ⟨(h.pending id hid).mpr hmem, hsame.isUnsettled hunsettled,
      (h.reported id hid).trans hcount⟩
  · exact Or.inr ⟨fun hmem' => hmem ((h.pending id hid).mp hmem'), hsame.isSettled hsettled,
      (h.reported id hid).trans hcount⟩

/-- A loop whose iterations account each for a call that is ready accounts for all of them. -/
theorem foldl_counted {α : Type} {f : RoundState I V E M → α → RoundState I V E M} (idOf : α → I)
    (Ready : RoundState I V E M → α → Prop) (as : List α)
    (htouches : ∀ s, ∀ a ∈ as, Touches s (f s a) [idOf a])
    (hcounted : ∀ s, ∀ a ∈ as, Ready s a → Counted (f s a) (idOf a))
    (hready : ∀ s s' a b, Touches s s' [idOf b] → idOf a ∉ [idOf b] → Ready s a → Ready s' a)
    (hnodup : (as.map idOf).Nodup) :
    Touches s (as.foldl f s) (as.map idOf) ∧
      ∀ a ∈ as, Ready s a → Counted (as.foldl f s) (idOf a) := by
  induction as generalizing s with
  | nil => exact ⟨Touches.refl _ _, fun a ha => (by cases ha)⟩
  | cons b as ih =>
    rw [List.map_cons, List.nodup_cons] at hnodup
    obtain ⟨hnew, hnodup⟩ := hnodup
    have htouch : Touches s (f s b) [idOf b] := htouches s b List.mem_cons_self
    obtain ⟨htouches', hcounted'⟩ := ih (s := f s b)
      (fun s a ha => htouches s a (List.mem_cons_of_mem _ ha))
      (fun s a ha => hcounted s a (List.mem_cons_of_mem _ ha)) hnodup
    refine ⟨htouch.trans htouches', List.forall_mem_cons.mpr ⟨fun hb => ?_,
      fun a ha haReady => ?_⟩⟩
    · exact htouches'.counted hnew (hcounted s b List.mem_cons_self hb)
    · refine hcounted' a ha (hready s (f s b) a b htouch (fun heq => ?_) haReady)
      exact hnew (List.mem_singleton.mp heq ▸ List.mem_map_of_mem ha)

/-! ## What is recorded -/

variable {batch : ToolCallBatchResult I V E M}

theorem reportCount_results {result : ToolCallSuccess I V M} :
    reportCount { batch with results := batch.results ++ [result] } id =
      reportCount batch id + [result.toolCallId].count id := by
  simp only [reportCount, ToolCallRun.reportedBy, List.map_append, List.count_append,
    List.map_cons, List.map_nil]
  omega

theorem reportCount_errors {error : ToolCallError I V E} :
    reportCount { batch with errors := batch.errors ++ [error] } id =
      reportCount batch id + [error.toolCallId].count id := by
  simp only [reportCount, ToolCallRun.reportedBy, List.map_append, List.count_append,
    List.map_cons, List.map_nil]
  omega

theorem count_singleton_of_not_mem {other : I} (h : id ∉ [other]) : [other].count id = 0 :=
  List.count_eq_zero_of_not_mem h

/-- A call with a result is settled and reported. -/
theorem touches_report (hleaves : Leaves s.world world [id])
    (hpending : batch.pending = s.batch.pending)
    (hreported : ∀ other, reportCount batch other = reportCount s.batch other + [id].count other) :
    Touches s { world := world, batch := batch } [id] := by
  refine ⟨hleaves, fun other _ => by rw [hpending], fun other hother => ?_, fun h => ?_⟩
  · rw [hreported, count_singleton_of_not_mem hother, Nat.add_zero]
  · rwa [hpending]

theorem counted_report (hfresh : Fresh s id) (hpending : batch.pending = s.batch.pending)
    (hreported : reportCount batch id = reportCount s.batch id + [id].count id)
    (hsettled : world.list.IsSettled id) : Counted { world := world, batch := batch } id := by
  refine Or.inr ⟨?_, hsettled, ?_⟩
  · rw [hpending]
    exact hfresh.1
  · rw [hreported, hfresh.2, List.count_singleton_self]

theorem touches_setPending {entry : PendingToolCall I V}
    (hpending : batch.pending = s.batch.pending.set id entry)
    (hreported : ∀ other, reportCount batch other = reportCount s.batch other)
    (hentry : entry.toolCallId = id) : Touches s { s with batch := batch } [id] := by
  refine ⟨Leaves.refl _ _, fun other hother => ?_, fun other _ => hreported other, fun h => ?_⟩
  · rw [hpending, OrderedMap.mem_keys_set]
    exact or_iff_right fun heq => hother (List.mem_singleton.mpr heq)
  · rw [hpending]
    exact h.set hentry

theorem counted_setPending {entry : PendingToolCall I V} (hfresh : Fresh s id)
    (hpending : batch.pending = s.batch.pending.set id entry)
    (hreported : reportCount batch id = reportCount s.batch id)
    (hunsettled : s.world.list.IsUnsettled id) : Counted { s with batch := batch } id := by
  refine Or.inl ⟨?_, hunsettled, hreported.trans hfresh.2⟩
  rw [hpending]
  exact OrderedMap.mem_keys_set.mpr (Or.inl rfl)

theorem touches_recordOutcome (s : RoundState I V E M)
    (result : ToolCall I V × Except (ToolCallFailure E) (ToolCallOutcome V E M)) :
    Touches s (recordOutcome s result) [result.1.toolCallId] := by
  obtain ⟨tc, outcome⟩ := result
  cases outcome with
  | error reason =>
    exact touches_report leaves_setToolCallError rfl fun _ => reportCount_errors
  | ok outcome =>
    cases outcome with
    | success => exact touches_report (Leaves.refl _ _) rfl fun _ => reportCount_results
    | suspended => exact touches_setPending rfl (fun _ => rfl) rfl
    | cancelled => exact Touches.refl _ _
    | error => exact touches_report (Leaves.refl _ _) rfl fun _ => reportCount_errors
    | noop => exact Touches.refl _ _

/-- A call that was processed in a batch, and nothing is recorded of it. -/
structure Recordable (s : RoundState I V E M)
    (result : ToolCall I V × Except (ToolCallFailure E) (ToolCallOutcome V E M)) : Prop where
  fresh : Fresh s result.1.toolCallId
  fits : Fits s.world result.1.toolCallId result.2
  cancelled : ∀ outcome, result.2 = .ok outcome → isCancelled outcome = false

theorem Recordable.of_touches
    {result : ToolCall I V × Except (ToolCallFailure E) (ToolCallOutcome V E M)}
    (h : Recordable s result) (htouches : Touches s s' ids)
    (hid : result.1.toolCallId ∉ ids) : Recordable s' result :=
  ⟨htouches.fresh hid h.fresh, h.fits.of_sameCall (htouches.leaves.others _ hid).1, h.cancelled⟩

theorem counted_recordOutcome (s : RoundState I V E M)
    (result : ToolCall I V × Except (ToolCallFailure E) (ToolCallOutcome V E M))
    (h : Recordable s result) : Counted (recordOutcome s result) result.1.toolCallId := by
  obtain ⟨hfresh, hfits, hcancelled⟩ := h
  obtain ⟨tc, outcome⟩ := result
  cases outcome with
  | error reason => exact counted_report hfresh rfl reportCount_errors (IsSettled.of_set hfits)
  | ok outcome =>
    cases outcome with
    | success => exact counted_report hfresh rfl reportCount_results hfits
    | suspended => exact counted_setPending hfresh rfl rfl hfits
    | cancelled => cases hcancelled _ rfl
    | error => exact counted_report hfresh rfl reportCount_errors hfits
    | noop => exact absurd hfits id

theorem touches_addUnexecuted (s : RoundState I V E M) (tc : ToolCall I V) :
    Touches s (addUnexecuted s tc) [tc.toolCallId] := touches_setPending rfl (fun _ => rfl) rfl

/-! ## The loop over the batches -/

/-- The call is not settled, and nothing is recorded of it. -/
def Open (s : RoundState I V E M) (id : I) : Prop :=
  s.world.list.IsUnsettled id ∧ Fresh s id

theorem Touches.open (h : Touches s s' ids) (hid : id ∉ ids) (hopen : Open s id) : Open s' id :=
  ⟨(h.leaves.others id hid).1.isUnsettled hopen.1, h.fresh hid hopen.2⟩

theorem counted_addUnexecuted (s : RoundState I V E M) (tc : ToolCall I V)
    (h : Open s tc.toolCallId) : Counted (addUnexecuted s tc) tc.toolCallId :=
  counted_setPending h.2 rfl rfl h.1

variable {tc : ToolCall I V}

omit [DecidableEq I] in
theorem not_mem_of_nodup_append {as bs : List (ToolCall I V)}
    (h : ((as ++ bs).map (·.toolCallId)).Nodup) (htc : tc ∈ bs) :
    tc.toolCallId ∉ as.map (·.toolCallId) := by
  rw [List.map_append] at h
  intro hmem
  exact (List.nodup_append.mp h).2.2 _ hmem _ (List.mem_map_of_mem htc) rfl

theorem runBatches_spec (executor : ToolCallExecutor V E) (round : ToolRound I V E M)
    {batches : List (List (ToolCall I V))} (hnodup : (batches.flatten.map (·.toolCallId)).Nodup)
    (hopen : ∀ tc ∈ batches.flatten, Open s tc.toolCallId) :
    Touches s (executor.runBatches round s batches) (batches.flatten.map (·.toolCallId)) ∧
      ∀ tc ∈ batches.flatten,
        Counted (executor.runBatches round s batches) tc.toolCallId := by
  induction batches generalizing s with
  | nil => exact ⟨Touches.refl _ _, fun tc htc => (by cases htc)⟩
  | cons batch batches ih =>
    rw [List.flatten_cons] at hnodup hopen
    have hnodupBatch : (batch.map (·.toolCallId)).Nodup := by
      rw [List.map_append] at hnodup
      exact (List.nodup_append.mp hnodup).1
    have hnodupRest : (batches.flatten.map (·.toolCallId)).Nodup := by
      rw [List.map_append] at hnodup
      exact (List.nodup_append.mp hnodup).2.1
    generalize hr : executor.processBatch round s.world batch = r
    obtain ⟨hleaves, hcalls, hfits⟩ := processBatch_spec hr hnodupBatch
      fun tc htc => (hopen tc (List.mem_append_left _ htc)).1
    obtain ⟨world, settledResults⟩ := r
    have hids : settledResults.map (fun x => x.1.toolCallId) = batch.map (·.toolCallId) := by
      rw [← hcalls, List.map_map]
      rfl
    -- the outcomes of the batch are recorded
    have hprocessed : Touches s { s with world := world } (batch.map (·.toolCallId)) :=
      ⟨hleaves, fun _ _ => Iff.rfl, fun _ _ => rfl, fun h => h⟩
    have hrecordable : ∀ x ∈ settledResults, Recordable { s with world := world } x := by
      intro x hx
      have hmem : x.1 ∈ batch := hcalls ▸ List.mem_map_of_mem hx
      exact ⟨(hopen x.1 (List.mem_append_left _ hmem)).2, (hfits x hx).1, (hfits x hx).2⟩
    obtain ⟨htouches, hcounted⟩ := foldl_counted (s := { s with world := world })
      (fun x => x.1.toolCallId) Recordable settledResults (fun s x _ => touches_recordOutcome s x)
      (fun s x _ => counted_recordOutcome s x)
      (fun _ _ _ _ h hother ha => ha.of_touches h hother) (hids ▸ hnodupBatch)
    have hrecorded : ∀ tc ∈ batch, Counted (settledResults.foldl recordOutcome
        { s with world := world }) tc.toolCallId := by
      intro tc htc
      rw [← hcalls] at htc
      obtain ⟨x, hx, rfl⟩ := List.mem_map.mp htc
      exact hcounted x hx (hrecordable x hx)
    have htouched : Touches s (settledResults.foldl recordOutcome { s with world := world })
        (batch.map (·.toolCallId)) :=
      (hprocessed.trans htouches).mono (by rw [hids]; simp)
    have hopenRest : ∀ tc ∈ batches.flatten, Open (settledResults.foldl recordOutcome
        { s with world := world }) tc.toolCallId := fun tc htc =>
      htouched.open (not_mem_of_nodup_append hnodup htc) (hopen tc (List.mem_append_right _ htc))
    rw [runBatches, hr, List.flatten_cons, List.map_append]
    dsimp only
    split
    · -- a call has suspended, and those of the other batches are pending
      obtain ⟨htouches', hcounted'⟩ := foldl_counted
        (s := settledResults.foldl recordOutcome { s with world := world }) ToolCall.toolCallId
        (fun s tc => Open s tc.toolCallId) batches.flatten
        (fun s tc _ => touches_addUnexecuted s tc) (fun s tc _ => counted_addUnexecuted s tc)
        (fun _ _ _ _ h hother ha => h.open hother ha) hnodupRest
      refine ⟨htouched.trans htouches', List.forall_mem_append.mpr ⟨fun tc htc => ?_,
        fun tc htc => hcounted' tc htc (hopenRest tc htc)⟩⟩
      refine htouches'.counted ?_ (hrecorded tc htc)
      intro hmem
      obtain ⟨tc', htc', heq⟩ := List.mem_map.mp hmem
      exact not_mem_of_nodup_append hnodup htc' (heq ▸ List.mem_map_of_mem htc)
    · obtain ⟨htouches', hcounted'⟩ := ih hnodupRest hopenRest
      refine ⟨htouched.trans htouches', List.forall_mem_append.mpr ⟨fun tc htc => ?_, hcounted'⟩⟩
      refine htouches'.counted ?_ (hrecorded tc htc)
      intro hmem
      obtain ⟨tc', htc', heq⟩ := List.mem_map.mp hmem
      exact not_mem_of_nodup_append hnodup htc' (heq ▸ List.mem_map_of_mem htc)

/-! ## The first round -/

/-- The calls whose inputs are no objects are recorded as errors. -/
def recordInvalid (executor : ToolCallExecutor V E) (s : RoundState I V E M)
    (tc : ToolCall I V) : RoundState I V E M := (executor.normalizeCall (s, []) tc).1

def isInvalid (executor : ToolCallExecutor V E) (tc : ToolCall I V) : Bool :=
  match executor.normalizeToolInputForModel tc.input with
  | .error _ => true
  | .ok _ => false

def normalized (executor : ToolCallExecutor V E) (tc : ToolCall I V) : Option (ToolCall I V) :=
  match executor.normalizeToolInputForModel tc.input with
  | .error _ => none
  | .ok input => some { tc with input := input }

variable {toolCalls : List (ToolCall I V)}

theorem foldl_normalizeCall {acc : List (ToolCall I V)} :
    toolCalls.foldl executor.normalizeCall (s, acc) =
      ((toolCalls.filter (isInvalid executor)).foldl (recordInvalid executor) s,
        acc ++ toolCalls.filterMap (normalized executor)) := by
  induction toolCalls generalizing s acc with
  | nil => simp
  | cons tc toolCalls ih =>
    rw [List.foldl_cons]
    cases hinput : executor.normalizeToolInputForModel tc.input with
    | error message =>
      have hinvalid : isInvalid executor tc = true := by rw [isInvalid, hinput]
      have hnormalized : normalized executor tc = none := by rw [normalized, hinput]
      rw [List.filter_cons_of_pos hinvalid, List.filterMap_cons_none hnormalized,
        List.foldl_cons, ← ih, recordInvalid]
      simp only [normalizeCall, hinput]
    | ok input =>
      have hinvalid : ¬isInvalid executor tc = true := by simp [isInvalid, hinput]
      have hnormalized : normalized executor tc = some { tc with input := input } := by
        rw [normalized, hinput]
      rw [List.filter_cons_of_neg hinvalid, List.filterMap_cons_some hnormalized]
      simp only [normalizeCall, hinput]
      rw [ih, List.append_assoc, List.singleton_append]

theorem touches_recordInvalid (s : RoundState I V E M) (tc : ToolCall I V) :
    Touches s (recordInvalid executor s tc) [tc.toolCallId] := by
  cases hinput : executor.normalizeToolInputForModel tc.input with
  | error message =>
    simp only [recordInvalid, normalizeCall, hinput]
    exact touches_report leaves_setToolCallError rfl fun _ => reportCount_errors
  | ok input =>
    simp only [recordInvalid, normalizeCall, hinput]
    exact Touches.refl _ _

theorem counted_recordInvalid (hinvalid : isInvalid executor tc = true)
    (hopen : Open s tc.toolCallId) : Counted (recordInvalid executor s tc) tc.toolCallId := by
  cases hinput : executor.normalizeToolInputForModel tc.input with
  | error message =>
    simp only [recordInvalid, normalizeCall, hinput]
    exact counted_report hopen.2 rfl reportCount_errors (IsSettled.of_set hopen.1.hosted)
  | ok input =>
    rw [isInvalid, hinput] at hinvalid
    cases hinvalid

theorem pending_foldl_recordInvalid (executor : ToolCallExecutor V E)
    (toolCalls : List (ToolCall I V)) (s : RoundState I V E M) :
    (toolCalls.foldl (recordInvalid executor) s).batch.pending = s.batch.pending := by
  induction toolCalls generalizing s with
  | nil => rfl
  | cons tc toolCalls ih =>
    rw [List.foldl_cons, ih]
    cases hinput : executor.normalizeToolInputForModel tc.input with
    | error message => simp only [recordInvalid, normalizeCall, hinput]
    | ok input => simp only [recordInvalid, normalizeCall, hinput]

/-- The calls that are executed. -/
def executableCalls (executor : ToolCallExecutor V E) (toolCalls : List (ToolCall I V)) :
    List (ToolCall I V) :=
  (toolCalls.filterMap (normalized executor)).filter fun tc => !tc.providerExecuted

theorem iterateToolCallsConcurrent_eq :
    executor.iterateToolCallsConcurrent round world toolCalls =
      executor.runBatches round
        ((toolCalls.filter (isInvalid executor)).foldl (recordInvalid executor)
          { world := world, batch := {} })
        (executor.toolCallBatches round.toolMap (executableCalls executor toolCalls).length
          (executableCalls executor toolCalls)) := by
  rw [iterateToolCallsConcurrent, foldl_normalizeCall]
  rfl

omit [DecidableEq I] in
theorem toolCallId_normalized {tc' : ToolCall I V} (h : normalized executor tc = some tc') :
    tc'.toolCallId = tc.toolCallId ∧ tc'.providerExecuted = tc.providerExecuted ∧
      isInvalid executor tc = false := by
  rw [normalized] at h
  rw [isInvalid]
  split at h
  · cases h
  · cases h
    exact ⟨rfl, rfl, rfl⟩

omit [DecidableEq I] in
theorem exists_of_mem_executableCalls {tc' : ToolCall I V}
    (h : tc' ∈ executableCalls executor toolCalls) :
    ∃ tc ∈ toolCalls, normalized executor tc = some tc' ∧ tc.providerExecuted = false := by
  obtain ⟨hmem, hprovider⟩ := List.mem_filter.mp h
  obtain ⟨tc, htc, hnormalized⟩ := List.mem_filterMap.mp hmem
  refine ⟨tc, htc, hnormalized, ?_⟩
  rw [← (toolCallId_normalized hnormalized).2.1]
  simpa using hprovider

omit [DecidableEq I] in
theorem map_toolCallId_filterMap_normalized :
    (toolCalls.filterMap (normalized executor)).map (·.toolCallId) =
      (toolCalls.filter fun tc => !isInvalid executor tc).map (·.toolCallId) := by
  induction toolCalls with
  | nil => rfl
  | cons tc toolCalls ih =>
    cases hinput : executor.normalizeToolInputForModel tc.input with
    | error message =>
      have hinvalid : isInvalid executor tc = true := by rw [isInvalid, hinput]
      have hnormalized : normalized executor tc = none := by rw [normalized, hinput]
      rw [List.filterMap_cons_none hnormalized, List.filter_cons_of_neg (by simp [hinvalid]), ih]
    | ok input =>
      have hinvalid : isInvalid executor tc = false := by rw [isInvalid, hinput]
      have hnormalized : normalized executor tc = some { tc with input := input } := by
        rw [normalized, hinput]
      rw [List.filterMap_cons_some hnormalized, List.filter_cons_of_pos (by simp [hinvalid]),
        List.map_cons, List.map_cons, ih]

omit [DecidableEq I] in
theorem sublist_executableCalls :
    ((executableCalls executor toolCalls).map (·.toolCallId)).Sublist
      (toolCalls.map (·.toolCallId)) := by
  refine (List.filter_sublist.map _).trans ?_
  rw [map_toolCallId_filterMap_normalized]
  exact List.filter_sublist.map _

omit [DecidableEq I] in
/-- A call with the identifier of another is that one. -/
theorem eq_of_toolCallId_eq (hnodup : (toolCalls.map (·.toolCallId)).Nodup) {tc' : ToolCall I V}
    (htc : tc ∈ toolCalls) (htc' : tc' ∈ toolCalls) (heq : tc.toolCallId = tc'.toolCallId) :
    tc = tc' :=
  List.inj_on_of_nodup_map hnodup htc htc' heq

omit [DecidableEq I] in
theorem normalized_eq_none_iff :
    normalized executor tc = none ↔ isInvalid executor tc = true := by
  rw [normalized, isInvalid]
  cases executor.normalizeToolInputForModel tc.input with
  | error message => simp
  | ok input => simp

omit [DecidableEq I] in
/-- A call with an invalid input is not executed. -/
theorem not_mem_executableCalls (hnodup : (toolCalls.map (·.toolCallId)).Nodup)
    (htc : tc ∈ toolCalls) (hinvalid : isInvalid executor tc = true) :
    tc.toolCallId ∉ (executableCalls executor toolCalls).map (·.toolCallId) := by
  intro hmem
  obtain ⟨tc', htc', heq⟩ := List.mem_map.mp hmem
  obtain ⟨tc₂, htc₂, hnormalized, -⟩ := exists_of_mem_executableCalls htc'
  obtain ⟨hid, -, hvalid⟩ := toolCallId_normalized hnormalized
  rw [eq_of_toolCallId_eq hnodup htc₂ htc (hid.symm.trans heq), hinvalid] at hvalid
  cases hvalid

/-- The calls that a round has to account for. -/
def ownCalls (toolCalls : List (ToolCall I V)) : List (ToolCall I V) :=
  toolCalls.filter fun tc => !tc.providerExecuted

omit [DecidableEq I] in
theorem mem_ownCalls :
    tc ∈ ownCalls toolCalls ↔ tc ∈ toolCalls ∧ tc.providerExecuted = false := by
  rw [ownCalls, List.mem_filter, Bool.not_eq_true']

/-- All calls are accounted for, and no others are pending. -/
theorem iterateToolCallsConcurrent_spec (executor : ToolCallExecutor V E)
    (round : ToolRound I V E M) (hnodup : (toolCalls.map (·.toolCallId)).Nodup)
    (hunsettled : ∀ tc ∈ ownCalls toolCalls, world.list.IsUnsettled tc.toolCallId) :
    Touches { world := world, batch := {} }
        (executor.iterateToolCallsConcurrent round world toolCalls)
        (toolCalls.map (·.toolCallId)) ∧
      (∀ tc ∈ ownCalls toolCalls,
        Counted (executor.iterateToolCallsConcurrent round world toolCalls) tc.toolCallId) ∧
      (executor.iterateToolCallsConcurrent round world toolCalls).batch.pending.keys ⊆
        (ownCalls toolCalls).map (·.toolCallId) := by
  have hfresh : ∀ id, Fresh ({ world := world, batch := {} } : RoundState I V E M) id :=
    fun id => ⟨List.not_mem_nil, rfl⟩
  -- the calls with invalid inputs are recorded
  have hsublist : ((toolCalls.filter (isInvalid executor)).map (·.toolCallId)).Sublist
      (toolCalls.map (·.toolCallId)) := List.filter_sublist.map _
  obtain ⟨hinvalid, hinvalidCounted⟩ := foldl_counted
    (s := ({ world := world, batch := {} } : RoundState I V E M)) ToolCall.toolCallId
    (fun s tc => Open s tc.toolCallId) (toolCalls.filter (isInvalid executor))
    (fun s tc _ => touches_recordInvalid s tc)
    (fun _ tc htc h => counted_recordInvalid (List.mem_filter.mp htc).2 h)
    (fun _ _ _ _ h hother ha => h.open hother ha) (hnodup.sublist hsublist)
  have hpending := pending_foldl_recordInvalid executor (toolCalls.filter (isInvalid executor))
    ({ world := world, batch := {} } : RoundState I V E M)
  rw [iterateToolCallsConcurrent_eq]
  generalize (toolCalls.filter (isInvalid executor)).foldl (recordInvalid executor)
    ({ world := world, batch := {} } : RoundState I V E M) = s₁ at *
  have hopen : ∀ tc' ∈ executableCalls executor toolCalls, Open s₁ tc'.toolCallId := by
    intro tc' htc'
    refine hinvalid.open ?_ ⟨?_, hfresh _⟩
    · intro hmem
      obtain ⟨tc, htc, heq⟩ := List.mem_map.mp hmem
      obtain ⟨htc, htcInvalid⟩ := List.mem_filter.mp htc
      exact not_mem_executableCalls hnodup htc htcInvalid (heq ▸ List.mem_map_of_mem htc')
    · obtain ⟨tc, htc, hnormalized, hprovider⟩ := exists_of_mem_executableCalls htc'
      rw [(toolCallId_normalized hnormalized).1]
      exact hunsettled tc (mem_ownCalls.mpr ⟨htc, hprovider⟩)
  -- the others are executed in batches
  have hflatten := flatten_toolCallBatches executor round.toolMap
    (Nat.le_refl (executableCalls executor toolCalls).length)
  obtain ⟨hrun, hrunCounted⟩ := runBatches_spec executor round (s := s₁)
    (hflatten.symm ▸ hnodup.sublist sublist_executableCalls) (hflatten.symm ▸ hopen)
  rw [hflatten] at hrun hrunCounted
  refine ⟨(hinvalid.trans hrun).mono (List.append_subset.mpr ⟨hsublist.subset,
    sublist_executableCalls.subset⟩), fun tc htc => ?_, fun id hid => ?_⟩
  · obtain ⟨hmem, hprovider⟩ := mem_ownCalls.mp htc
    cases hinput : normalized executor tc with
    | none =>
      have htcInvalid := normalized_eq_none_iff.mp hinput
      exact hrun.counted (not_mem_executableCalls hnodup hmem htcInvalid)
        (hinvalidCounted tc (List.mem_filter.mpr ⟨hmem, htcInvalid⟩)
          ⟨hunsettled tc htc, hfresh _⟩)
    | some tc' =>
      obtain ⟨hid, hprovider', -⟩ := toolCallId_normalized hinput
      rw [← hid]
      refine hrunCounted tc' (List.mem_filter.mpr ⟨List.mem_filterMap.mpr ⟨tc, hmem, hinput⟩, ?_⟩)
      simp [hprovider', hprovider]
  · by_contra hother
    have hid' : id ∉ (executableCalls executor toolCalls).map (·.toolCallId) := by
      intro hmem
      obtain ⟨tc', htc', rfl⟩ := List.mem_map.mp hmem
      obtain ⟨tc, htc, hnormalized, hprovider⟩ := exists_of_mem_executableCalls htc'
      refine hother (List.mem_map.mpr ⟨tc, mem_ownCalls.mpr ⟨htc, hprovider⟩, ?_⟩)
      exact (toolCallId_normalized hnormalized).1.symm
    have hmem := (hrun.pending id hid').mp hid
    rw [hpending] at hmem
    cases hmem

end ToolCallExecutor

end N8n
