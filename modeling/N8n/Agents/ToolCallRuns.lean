import N8n.Agents.ToolCallRounds
import N8n.Lib.Run

/-!
# Tool calls are conserved

The first round accounts for all calls, and one that resumes a call for those that were pending
(`iteratePendingToolCallsConcurrent_spec`). The others are settled, and no round touches them
again. So `toolCalls_run` : after each round of a run a call is pending, or settled and reported
once, and the handler of a call that is settled is not run again.

`iteratePendingToolCallsConcurrent` does not catch what the resumed call throws, unlike the
batches, so the theorem is about runs in which it throws nothing (`catchesAll`);
`toolCalls_run_toMessage` is one in which it does.
-/

open Lib

namespace N8n

namespace ToolCallExecutor

open AgentMessageList

variable {I V E M : Type} [DecidableEq I] {executor : ToolCallExecutor V E}
  {round : ToolRound I V E M} {world world' : ToolCallWorld I V E} {id : I}
  {s s' : RoundState I V E M}

/-! ## The call that is resumed -/

variable {error : ToolCallFailure E}

theorem throws_buildSuspendedOutcome {toolName : String} {tool : BuiltTool V E M} {payload : V}
    (h : (buildSuspendedOutcome world id toolName tool payload).2 = .error error) :
    (∃ e, (tool.suspendSchema.map fun parse => parse payload).getD (.success payload) =
        .throws e) ∨
      ∃ payload' e, (tool.suspendSchema.map fun parse => parse payload).getD (.success payload) =
        .success payload' ∧ tool.resumeSchema = some (.error e) := by
  rw [buildSuspendedOutcome] at h
  split at h
  · rename_i e hschema
    exact Or.inl ⟨e, hschema⟩
  · cases h
  · rename_i payload' hschema
    split at h
    · cases h
    · rename_i e hresume
      exact Or.inr ⟨payload', e, hschema, hresume⟩
    · cases h
    · cases h

theorem throws_buildSuccessOutcome {toolName : String} {input toolResult : V}
    {tool : BuiltTool V E M}
    (h : (executor.buildSuccessOutcome world id toolName input tool toolResult).2 = .error error) :
    ∃ modelResult, (tool.toModelOutput.map fun transform => transform toolResult).getD
        (.ok toolResult) = .ok modelResult ∧
      ((∃ e, executor.toJsonValue modelResult = .error e) ∨
        ∃ e, (tool.toMessage.map fun toMessage => toMessage toolResult).getD (.ok none) =
          .error e) := by
  rw [buildSuccessOutcome] at h
  split at h
  · cases h
  · rename_i modelResult htransform
    refine ⟨modelResult, htransform, ?_⟩
    split at h
    · rename_i e hjson
      exact Or.inl ⟨e, hjson⟩
    · dsimp only at h
      split at h
      · rename_i e hmessage
        exact Or.inr ⟨e, hmessage⟩
      · cases h

theorem throws_runTool {toolName : String} {input : V} {tool : BuiltTool V E M}
    (h : (executor.runTool round world id toolName input tool).2 = .error error) :
    ToolCallRun.answerThrows executor tool (round.handler id) = true := by
  rw [runTool] at h
  split at h
  · cases h
  · rename_i payload hanswer
    rw [hanswer, ToolCallRun.answerThrows]
    rcases throws_buildSuspendedOutcome h with ⟨e, hschema⟩ | ⟨_, e, hschema, hresume⟩
    · rw [hschema]
    · rw [hschema, hresume]
  · rename_i toolResult hanswer
    rw [hanswer, ToolCallRun.answerThrows]
    obtain ⟨modelResult, htransform, ⟨e, hjson⟩ | ⟨e, hmessage⟩⟩ := throws_buildSuccessOutcome h
    · rw [htransform]
      simp only [hjson]
    · rw [htransform, hmessage]
      dsimp only
      cases executor.toJsonValue modelResult with
      | error e => rfl
      | ok output => rfl

/-- The promise is rejected only when the tool throws where nothing catches it. -/
theorem exists_throwsUncaught {toolName : String} {input resumeData : V}
    (h : (executor.processToolCall round world id toolName input (some resumeData)).2 =
      .error error) :
    ∃ tool, round.toolMap toolName = some tool ∧
      ToolCallRun.throwsUncaught executor tool input resumeData (round.handler id) = true := by
  rw [processToolCall] at h
  cases htool : round.toolMap toolName with
  | none =>
    rw [htool] at h
    cases h
  | some tool =>
    refine ⟨tool, rfl, ?_⟩
    rw [htool] at h
    dsimp only at h
    split at h
    · cases h
    · rw [Option.bind_some] at h
      split at h
      · cases h
      · rename_i hcancel
        rw [ToolCallRun.throwsUncaught, Bool.and_eq_true, Bool.not_eq_true',
          Bool.and_eq_false_iff, Option.isSome_eq_false_iff, Option.isNone_iff_eq_none,
          Bool.not_eq_false']
        refine ⟨?_, ?_⟩
        · cases hmessage : executor.isCancellation resumeData with
          | none => exact Or.inl rfl
          | some message => exact Or.inr (by simpa using hcancel message hmessage)
        · split at h
          · rfl
          · cases h
          · exact throws_runTool h

/-! ## Its record -/

variable {entry : PendingToolCall I V}

theorem touches_recordResumed {outcome : ToolCallOutcome V E M} (hentry : entry.toolCallId = id)
    (hleaves : Leaves world world' [id]) :
    Touches ({ world := world, batch := {} } : RoundState I V E M)
      (recordResumed world' id entry outcome) [id] := by
  subst hentry
  have hrecorded : Touches ({ world := world, batch := {} } : RoundState I V E M)
      { world := world', batch := {} } [entry.toolCallId] :=
    ⟨hleaves, fun _ _ => Iff.rfl, fun _ _ => rfl, fun h => h⟩
  cases outcome with
  | success toolEntry modelOutput customMessage => exact touches_report hleaves rfl fun _ => (Nat.zero_add _).symm
  | suspended payload resumeSchema =>
    have hset : Touches ({ world := world', batch := {} } : RoundState I V E M)
        (recordResumed world' entry.toolCallId entry (.suspended payload resumeSchema))
        [entry.toolCallId] := by
      refine touches_setPending rfl (fun _ => rfl) ?_
      rfl
    exact (hrecorded.trans hset).mono (by simp)
  | cancelled toolEntry modelOutput userMessage =>
    
    exact touches_report ((hleaves.trans leaves_addMessage).mono (by simp)) rfl
      fun _ => (Nat.zero_add _).symm
  | error error => exact touches_report hleaves rfl fun _ => (Nat.zero_add _).symm
  | noop => exact hrecorded

theorem counted_recordResumed {outcome : ToolCallOutcome V E M} (hentry : entry.toolCallId = id)
    (hfits : Fits world id (.ok outcome)) :
    Counted (recordResumed world id entry outcome) id := by
  subst hentry
  have hfresh : Fresh ({ world := world, batch := {} } : RoundState I V E M) entry.toolCallId :=
    ⟨List.not_mem_nil, rfl⟩
  cases outcome with
  | success => exact counted_report hfresh rfl (Nat.zero_add _).symm hfits
  | suspended => exact counted_setPending hfresh rfl rfl hfits
  | cancelled =>
    exact counted_report hfresh rfl (Nat.zero_add _).symm (addMessage_sameCall.isSettled hfits)
  | error => exact counted_report hfresh rfl (Nat.zero_add _).symm hfits
  | noop => exact absurd hfits id

/-! ## The other calls -/

theorem touches_skipSibling (s : RoundState I V E M) {sibling : I × PendingToolCall I V}
    (hsibling : sibling.2.toolCallId = sibling.1) :
    Touches s (executor.skipSibling s sibling) [sibling.1] := by
  refine touches_report leaves_setToolCallResult rfl fun other => ?_
  rw [← hsibling]
  exact reportCount_results

theorem counted_skipSibling {sibling : I × PendingToolCall I V}
    (hsibling : sibling.2.toolCallId = sibling.1) (hopen : Open s sibling.1) :
    Counted (executor.skipSibling s sibling) sibling.1 := by
  refine counted_report hopen.2 rfl ?_ (IsSettled.of_set hopen.1.hosted)
  rw [← hsibling]
  exact reportCount_results

theorem foldl_carryForward {entries : List (I × PendingToolCall I V)} :
    { s with batch := entries.foldl carryForward s.batch } =
      entries.foldl (fun s e => { s with batch := carryForward s.batch e }) s := by
  induction entries generalizing s with
  | nil => rfl
  | cons e entries ih =>
    rw [List.foldl_cons, List.foldl_cons, ← ih]

theorem reportCount_mergeBatch {batch next : ToolCallBatchResult I V E M} :
    reportCount (mergeBatch batch next) id = reportCount batch id + reportCount next id := by
  simp only [reportCount, ToolCallRun.reportedBy, mergeBatch, List.map_append, List.count_append]
  omega

theorem touches_mergeBatch {next : RoundState I V E M} {ids : List I}
    (h : Touches { world := s.world, batch := {} } next ids) :
    Touches s { world := next.world, batch := mergeBatch s.batch next.batch } ids := by
  refine ⟨h.leaves, fun id hid => ?_, fun id hid => ?_, fun hkeyed id entry hentry => ?_⟩
  · rw [mergeBatch, OrderedMap.mem_keys_foldl_set_entries, h.pending id hid]
    exact or_iff_left List.not_mem_nil
  · rw [reportCount_mergeBatch, h.reported id hid]
    rfl
  · rcases OrderedMap.get?_foldl_set_entries.mp hentry with hnext | ⟨-, hbefore⟩
    · exact h.keyed keyed_empty id entry hnext
    · exact hkeyed id entry hbefore

theorem counted_mergeBatch {next : RoundState I V E M} (hfresh : Fresh s id)
    (h : Counted next id) :
    Counted { world := next.world, batch := mergeBatch s.batch next.batch } id := by
  have hcount : reportCount (mergeBatch s.batch next.batch) id = reportCount next.batch id := by
    rw [reportCount_mergeBatch, hfresh.2, Nat.zero_add]
  have hmem : id ∈ (mergeBatch s.batch next.batch).pending.keys ↔
      id ∈ next.batch.pending.keys :=
    OrderedMap.mem_keys_foldl_set_entries.trans (or_iff_right hfresh.1)
  rcases h with ⟨hpending, hunsettled, hzero⟩ | ⟨hpending, hsettled, hone⟩
  · exact Or.inl ⟨hmem.mpr hpending, hunsettled, hcount.trans hzero⟩
  · exact Or.inr ⟨fun h => hpending (hmem.mp h), hsettled, hcount.trans hone⟩

omit [DecidableEq I] in
theorem not_mem_map_filter {p : I × PendingToolCall I V → Bool}
    {entries : List (I × PendingToolCall I V)} (hnodup : (entries.map Prod.fst).Nodup)
    {e : I × PendingToolCall I V} (he : e ∈ entries) (hp : ¬p e = true) :
    e.1 ∉ (entries.filter p).map Prod.fst := by
  intro hmem
  obtain ⟨e', he', heq⟩ := List.mem_map.mp hmem
  obtain ⟨he', hp'⟩ := List.mem_filter.mp he'
  rw [List.inj_on_of_nodup_map hnodup he' he heq] at hp'
  exact hp hp'

def unexecutedCalls (remaining : List (I × PendingToolCall I V)) : List (ToolCall I V) :=
  (remaining.filter fun e => !e.2.suspended).map fun e =>
    { toolCallId := e.1, toolName := e.2.toolName, input := e.2.input }

/-- The entries other than the one resumed are carried forward, or executed. -/
theorem processRemaining_spec (executor : ToolCallExecutor V E) (round : ToolRound I V E M)
    {remaining : List (I × PendingToolCall I V)} (hnodup : (remaining.map Prod.fst).Nodup)
    (hkeyed : ∀ e ∈ remaining, e.2.toolCallId = e.1) (hopen : ∀ e ∈ remaining, Open s e.1) :
    Touches s (executor.processRemaining round s remaining) (remaining.map Prod.fst) ∧
      ∀ e ∈ remaining, Counted (executor.processRemaining round s remaining) e.1 := by
  have hsuspended : (remaining.filter (·.2.suspended)).map Prod.fst ⊆ remaining.map Prod.fst :=
    (List.filter_sublist.map _).subset
  obtain ⟨hcarried, hcarriedCounted⟩ := foldl_counted (s := s) Prod.fst
    (fun s (e : I × PendingToolCall I V) => Open s e.1) (remaining.filter (·.2.suspended))
    (f := fun s e => { s with batch := carryForward s.batch e })
    (fun s e he => touches_setPending rfl (fun _ => rfl) (hkeyed e (List.mem_filter.mp he).1))
    (fun s e _ h => counted_setPending h.2 rfl rfl h.1)
    (fun _ _ _ _ h hother ha => h.open hother ha)
    (hnodup.sublist (List.filter_sublist.map _))
  rw [← foldl_carryForward] at hcarried hcarriedCounted
  have hopenReady : ∀ e ∈ remaining, e.2.suspended = true →
      Counted { s with batch := (remaining.filter (·.2.suspended)).foldl carryForward s.batch }
        e.1 := fun e he hs =>
    hcarriedCounted e (List.mem_filter.mpr ⟨he, hs⟩) (hopen e he)
  rw [processRemaining]
  dsimp only
  split
  · rename_i hempty
    refine ⟨hcarried.mono hsuspended, fun e he => hopenReady e he ?_⟩
    by_contra hs
    rw [List.isEmpty_iff, List.map_eq_nil_iff, List.filter_eq_nil_iff] at hempty
    exact hempty e he (by simpa using hs)
  · -- those that were not executed are executed in a round of their own
    have hids : (unexecutedCalls remaining).map (·.toolCallId) =
        (remaining.filter fun e => !e.2.suspended).map Prod.fst := by
      rw [unexecutedCalls, List.map_map]
      rfl
    have hnodup' : ((unexecutedCalls remaining).map (·.toolCallId)).Nodup :=
      hids ▸ hnodup.sublist (List.filter_sublist.map _)
    have hown : ∀ tc ∈ unexecutedCalls remaining, tc ∈ ownCalls (unexecutedCalls remaining) := by
      intro tc htc
      refine mem_ownCalls.mpr ⟨htc, ?_⟩
      obtain ⟨e, -, rfl⟩ := List.mem_map.mp htc
      rfl
    have hunsettled : ∀ tc ∈ ownCalls (unexecutedCalls remaining),
        s.world.list.IsUnsettled tc.toolCallId := by
      intro tc htc
      obtain ⟨e, he, rfl⟩ := List.mem_map.mp (mem_ownCalls.mp htc).1
      exact (hopen e (List.mem_filter.mp he).1).1
    obtain ⟨hnext, hnextCounted, -⟩ := iterateToolCallsConcurrent_spec executor round hnodup'
      hunsettled
    rw [hids] at hnext
    have hmerged := touches_mergeBatch (s := { s with
      batch := (remaining.filter (·.2.suspended)).foldl carryForward s.batch }) hnext
    refine ⟨(hcarried.trans hmerged).mono (List.append_subset.mpr ⟨hsuspended,
      (List.filter_sublist.map _).subset⟩), fun e he => ?_⟩
    by_cases hs : e.2.suspended = true
    · refine hmerged.counted ?_ (hopenReady e he hs)
      exact not_mem_map_filter hnodup he (by simp [hs])
    · have hmem : ({ toolCallId := e.1, toolName := e.2.toolName, input := e.2.input } :
          ToolCall I V) ∈ unexecutedCalls remaining :=
        List.mem_map.mpr ⟨e, List.mem_filter.mpr ⟨he, by simpa using hs⟩, rfl⟩
      refine counted_mergeBatch (hcarried.fresh ?_ (hopen e he).2) (hnextCounted _ (hown _ hmem))
      exact not_mem_map_filter hnodup he hs

theorem remaining_spec (executor : ToolCallExecutor V E) (round : ToolRound I V E M)
    (cancelled : Bool) {remaining : List (I × PendingToolCall I V)}
    (hnodup : (remaining.map Prod.fst).Nodup) (hkeyed : ∀ e ∈ remaining, e.2.toolCallId = e.1)
    (hopen : ∀ e ∈ remaining, Open s e.1) :
    Touches s (if cancelled then remaining.foldl executor.skipSibling s
        else executor.processRemaining round s remaining) (remaining.map Prod.fst) ∧
      ∀ e ∈ remaining, Counted (if cancelled then remaining.foldl executor.skipSibling s
        else executor.processRemaining round s remaining) e.1 := by
  cases cancelled with
  | false => exact processRemaining_spec executor round hnodup hkeyed hopen
  | true =>
    obtain ⟨hskipped, hskippedCounted⟩ := foldl_counted (s := s) Prod.fst
      (fun s (e : I × PendingToolCall I V) => Open s e.1) remaining
      (fun s e he => touches_skipSibling s (hkeyed e he))
      (fun s e he h => counted_skipSibling (hkeyed e he) h)
      (fun _ _ _ _ h hother ha => h.open hother ha) hnodup
    exact ⟨hskipped, fun e he => hskippedCounted e he (hopen e he)⟩

/-- The calls that were pending are accounted for. -/
theorem iteratePendingToolCallsConcurrent_spec
    {pendingToolCalls : OrderedMap I (PendingToolCall I V)} {resumeData : V} {batch : ToolCallBatchResult I V E M}
    (hkeyed : Keyed pendingToolCalls) (hentry : pendingToolCalls.get? id = some entry)
    (hunsettled : ∀ k ∈ pendingToolCalls.keys, world.list.IsUnsettled k)
    (hr : executor.iteratePendingToolCallsConcurrent round world pendingToolCalls id entry
      resumeData = (world', some batch)) :
    Touches { world := world, batch := {} } { world := world', batch := batch }
        pendingToolCalls.keys ∧
      ∀ k ∈ pendingToolCalls.keys, Counted { world := world', batch := batch } k := by
  have hid : entry.toolCallId = id := hkeyed id entry hentry
  have hmem : id ∈ pendingToolCalls.keys := OrderedMap.mem_keys_iff.mpr ⟨entry, hentry⟩
  have hprocessed := processed_processToolCall executor round world entry.toolCallId
    entry.toolName entry.input (some resumeData)
  rw [iteratePendingToolCallsConcurrent] at hr
  generalize executor.processToolCall round world entry.toolCallId entry.toolName entry.input
    (some resumeData) = step at hprocessed hr
  obtain ⟨world₁, processResult⟩ := step
  rw [hid] at hprocessed
  cases processResult with
  | error e => cases hr
  | ok outcome =>
    have hfits : Fits world₁ id (.ok outcome) := hprocessed.fits (hunsettled id hmem)
    have hrecorded : Touches ({ world := world, batch := {} } : RoundState I V E M)
        (recordResumed world₁ id entry outcome) [id] :=
      touches_recordResumed hid hprocessed.leaves
    have hrecordedCounted := counted_recordResumed hid hfits
    have hnodup : ((pendingToolCalls.entries.filter fun e => e.1 ≠ id).map Prod.fst).Nodup :=
      pendingToolCalls.nodup_keys.sublist (List.filter_sublist.map _)
    have hkeyed' : ∀ e ∈ pendingToolCalls.entries.filter fun e => e.1 ≠ id,
        e.2.toolCallId = e.1 := fun e he =>
      hkeyed e.1 e.2 (OrderedMap.mem_entries_iff.mp (List.mem_filter.mp he).1)
    have hother : ∀ e ∈ pendingToolCalls.entries.filter fun e => e.1 ≠ id, e.1 ∉ [id] := by
      intro e he h
      exact (by simpa using (List.mem_filter.mp he).2 : e.1 ≠ id) (List.mem_singleton.mp h)
    have hopen : ∀ e ∈ pendingToolCalls.entries.filter fun e => e.1 ≠ id,
        Open (recordResumed world₁ id entry outcome) e.1 := fun e he =>
      hrecorded.open (hother e he) ⟨hunsettled e.1 (List.mem_map_of_mem (List.mem_filter.mp he).1),
        List.not_mem_nil, rfl⟩
    obtain ⟨hrest, hrestCounted⟩ := remaining_spec executor round (isCancelled outcome) hnodup
      hkeyed' hopen
    obtain ⟨rfl, hbatch⟩ := Prod.mk.inj hr
    cases hbatch
    refine ⟨(hrecorded.trans hrest).mono (List.append_subset.mpr ⟨?_,
      (List.filter_sublist.map _).subset⟩), fun k hk => ?_⟩
    · exact fun k hk => List.mem_singleton.mp hk ▸ hmem
    · by_cases hk' : k = id
      · subst hk'
        refine hrest.counted ?_ hrecordedCounted
        intro h
        obtain ⟨e, he, heq⟩ := List.mem_map.mp h
        exact hother e he (List.mem_singleton.mpr heq)
      · obtain ⟨e, he, rfl⟩ := List.mem_map.mp hk
        exact hrestCounted e (List.mem_filter.mpr ⟨he, by simpa using hk'⟩)

/-- Nothing is returned only when the call that is resumed throws what nothing catches. -/
theorem throwsUncaught_of_none {pendingToolCalls : OrderedMap I (PendingToolCall I V)} {resumeData : V}
    (hr : executor.iteratePendingToolCallsConcurrent round world pendingToolCalls id entry
      resumeData = (world', none)) :
    ∃ tool, round.toolMap entry.toolName = some tool ∧ ToolCallRun.throwsUncaught executor tool
      entry.input resumeData (round.handler entry.toolCallId) = true := by
  rw [iteratePendingToolCallsConcurrent] at hr
  generalize hstep : executor.processToolCall round world entry.toolCallId entry.toolName
    entry.input (some resumeData) = step at hr
  obtain ⟨world₁, processResult⟩ := step
  cases processResult with
  | error e => exact exists_throwsUncaught (congrArg Prod.snd hstep)
  | ok outcome => cases hr

end ToolCallExecutor

/-! ## Runs -/

namespace ToolCallRun

open AgentMessageList ToolCallExecutor

variable {I V E M : Type} [DecidableEq I] {executor : ToolCallExecutor V E}
  {toolCalls : List (ToolCall I V)} {s s' : ToolCallRun I V E} {id : I}

/-- The call is pending and not settled, or settled and reported once. -/
def CountedInRun (s : ToolCallRun I V E) (id : I) : Prop :=
  id ∈ s.pending.keys ∧ s.world.list.IsUnsettled id ∧ s.reported.count id = 0 ∨
    id ∉ s.pending.keys ∧ s.world.list.IsSettled id ∧ s.reported.count id = 1

theorem CountedInRun.accounted (h : s.CountedInRun id) : s.Accounted id := by
  rcases h with ⟨hmem, hunsettled, -⟩ | h
  · exact Or.inl ⟨hmem, hunsettled.not_isSettled⟩
  · exact Or.inr h

/-- A round accounts for a call that was reported by none before. -/
theorem countedInRun_returned {world : ToolCallWorld I V E} {batch : ToolCallBatchResult I V E M}
    (h : Counted { world := world, batch := batch } id) (hreported : s.reported.count id = 0) :
    (s.returned world batch).CountedInRun id := by
  have hcount : (s.returned world batch).reported.count id = reportCount batch id := by
    rw [returned, List.count_append, hreported, Nat.zero_add, reportCount]
  rcases h with ⟨hmem, hunsettled, hzero⟩ | ⟨hmem, hsettled, hone⟩
  · exact Or.inl ⟨hmem, hunsettled, hcount.trans hzero⟩
  · exact Or.inr ⟨hmem, hsettled, hcount.trans hone⟩

/-- What holds after the rounds so far. -/
structure Sound (toolCalls : List (ToolCall I V)) (s : ToolCallRun I V E) : Prop where
  keyed : Keyed s.pending
  pending : s.pending.keys ⊆ (ownCalls toolCalls).map (·.toolCallId)
  fresh : s.started = false → s.pending = .empty ∧ s.reported = [] ∧
    ∀ tc ∈ ownCalls toolCalls, s.world.list.IsUnsettled tc.toolCallId
  counted : s.started = true → ∀ tc ∈ ownCalls toolCalls, s.CountedInRun tc.toolCallId

theorem Sound.conserves (h : Sound toolCalls s) : s.Conserves toolCalls :=
  fun hstarted tc htc hprovider =>
    (h.counted hstarted tc (mem_ownCalls.mpr ⟨htc, hprovider⟩)).accounted

theorem Sound.started_of_mem (h : Sound toolCalls s) (hid : id ∈ s.pending.keys) :
    s.started = true := by
  by_contra hstarted
  rw [(h.fresh (by simpa using hstarted)).1] at hid
  cases hid

/-- A pending call is not settled, and not reported. -/
theorem Sound.of_mem (h : Sound toolCalls s) (hid : id ∈ s.pending.keys) :
    s.world.list.IsUnsettled id ∧ s.reported.count id = 0 := by
  obtain ⟨tc, htc, rfl⟩ := List.mem_map.mp (h.pending hid)
  rcases h.counted (h.started_of_mem hid) tc htc with ⟨-, hunsettled⟩ | ⟨hnot, -⟩
  · exact hunsettled
  · exact absurd hid hnot

/-- A call that is settled stays so, and its handler is not run again. -/
def Leaves (toolCalls : List (ToolCall I V)) (s s' : ToolCallRun I V E) : Prop :=
  ∀ tc ∈ ownCalls toolCalls, s.world.list.IsSettled tc.toolCallId →
    s'.world.list.IsSettled tc.toolCallId ∧
      s'.world.handled.count tc.toolCallId = s.world.handled.count tc.toolCallId

theorem leaves_trans (s₁ s₂ s₃ : ToolCallRun I V E) (h : Leaves toolCalls s₁ s₂)
    (h' : Leaves toolCalls s₂ s₃) : Leaves toolCalls s₁ s₃ := by
  intro tc htc hsettled
  obtain ⟨hsettled₂, hcount⟩ := h tc htc hsettled
  obtain ⟨hsettled₃, hcount'⟩ := h' tc htc hsettled₂
  exact ⟨hsettled₃, hcount'.trans hcount⟩

theorem iterate_step {round : ToolRound I V E M} (hnodup : (toolCalls.map (·.toolCallId)).Nodup)
    (h : Sound toolCalls s) (hstep : step executor toolCalls s (.iterate round) = .ok s') :
    Sound toolCalls s' ∧ Leaves toolCalls s s' := by
  rw [step] at hstep
  split at hstep
  · cases hstep
  · rename_i hstarted
    cases hstep
    obtain ⟨hpending, hreported, hunsettled⟩ := h.fresh (by simpa using hstarted)
    obtain ⟨htouches, hcounted, hkeys⟩ := iterateToolCallsConcurrent_spec executor round hnodup
      hunsettled
    refine ⟨⟨htouches.keyed keyed_empty, hkeys, fun hnot => (by cases hnot), fun _ tc htc => ?_⟩,
      fun tc htc hsettled => absurd hsettled (hunsettled tc htc).not_isSettled⟩
    exact countedInRun_returned (hcounted tc htc) (by rw [hreported]; rfl)

theorem resume_step {round : ToolRound I V E M} {resumeToolCallId : I} {resumeData : V}
    (h : Sound toolCalls s)
    (hcatches : catchesAll executor s (.resume round resumeToolCallId resumeData) = true)
    (hstep : step executor toolCalls s (.resume round resumeToolCallId resumeData) = .ok s') :
    Sound toolCalls s' ∧ Leaves toolCalls s s' := by
  rw [step] at hstep
  cases hentry : s.pending.get? resumeToolCallId with
  | none =>
    rw [hentry] at hstep
    cases hstep
  | some entry =>
    rw [hentry] at hstep
    dsimp only at hstep
    have hmem : resumeToolCallId ∈ s.pending.keys := OrderedMap.mem_keys_iff.mpr ⟨entry, hentry⟩
    have hstarted : s.started = true := h.started_of_mem hmem
    generalize hr : executor.iteratePendingToolCallsConcurrent round s.world s.pending
      resumeToolCallId entry resumeData = r at hstep
    obtain ⟨world, result⟩ := r
    cases result with
    | none =>
      obtain ⟨tool, htool, hthrows⟩ := throwsUncaught_of_none hr
      rw [catchesAll, hentry, Option.all_some, htool, Option.all_some, hthrows] at hcatches
      cases hcatches
    | some batch =>
      cases hstep
      obtain ⟨htouches, hcounted⟩ := iteratePendingToolCallsConcurrent_spec h.keyed hentry
        (fun k hk => (h.of_mem hk).1) hr
      refine ⟨⟨htouches.keyed keyed_empty, fun k hk => ?_, fun hnot => (by cases hnot),
        fun _ tc htc => ?_⟩, fun tc htc hsettled => ?_⟩
      · by_contra hother
        have hk' : k ∉ s.pending.keys := fun hk' => hother (h.pending hk')
        exact List.not_mem_nil ((htouches.pending k hk').mp hk)
      · rcases h.counted hstarted tc htc with ⟨hpending, -, hzero⟩ | ⟨hpending, hsettled, hone⟩
        · exact countedInRun_returned (hcounted _ hpending) hzero
        · refine Or.inr ⟨fun hk => List.not_mem_nil ((htouches.pending _ hpending).mp hk),
            (htouches.leaves.others _ hpending).1.isSettled hsettled, ?_⟩
          have hreported := htouches.reported _ hpending
          rw [returned, List.count_append, hone, ← reportCount, hreported]
          rfl
      · have hpending : tc.toolCallId ∉ s.pending.keys := fun hk =>
          (h.of_mem hk).1.not_isSettled hsettled
        obtain ⟨hsame, hcount⟩ := htouches.leaves.others _ hpending
        exact ⟨hsame.isSettled hsettled, hcount⟩

theorem sound_step {e : ToolCallRunEvent I V E M} (hnodup : (toolCalls.map (·.toolCallId)).Nodup)
    (h : Sound toolCalls s) (hcatches : catchesAll executor s e = true)
    (hstep : step executor toolCalls s e = .ok s') : Sound toolCalls s' ∧ Leaves toolCalls s s' := by
  cases e with
  | iterate round => exact iterate_step hnodup h hstep
  | resume round resumeToolCallId resumeData => exact resume_step h hcatches hstep

/-- After each round every call that the provider does not execute is pending, or settled and
reported once, and the handler of a call that is settled is not run again. The calls have
different identifiers and blocks that are not settled. -/
theorem toolCalls_run (executor : ToolCallExecutor V E) {toolCalls : List (ToolCall I V)}
    {list : AgentMessageList I (ToolCallResult V E)}
    (hnodup : (toolCalls.map (·.toolCallId)).Nodup)
    (hunsettled : ∀ tc ∈ toolCalls, tc.providerExecuted = false → list.IsUnsettled tc.toolCallId)
    {steps : List (ToolCallRun I V E × ToolCallRunEvent I V E M)}
    (hrun : Run (step executor toolCalls) { world := { list := list } } steps s)
    (hcatches : ∀ x ∈ steps, catchesAll executor x.1 x.2 = true) :
    ∀ s' ∈ steps.map Prod.fst ++ [s], s'.Conserves toolCalls ∧
      ∀ tc ∈ toolCalls, tc.providerExecuted = false → s'.world.list.IsSettled tc.toolCallId →
        s.world.handled.count tc.toolCallId = s'.world.handled.count tc.toolCallId := by
  have hinit : Sound toolCalls ({ world := { list := list } } : ToolCallRun I V E) :=
    ⟨keyed_empty, fun k hk => (by cases hk), fun _ => ⟨rfl, rfl, fun tc htc =>
      hunsettled tc (mem_ownCalls.mp htc).1 (mem_ownCalls.mp htc).2⟩, fun h => (by cases h)⟩
  have hsound := hrun.forall_states_of hinit
    (fun s e s' hs hc hstep => (sound_step hnodup hs hc hstep).1) hcatches
  have hleaves := hrun.forall_related (R := Leaves toolCalls) hinit
    (fun s tc htc hsettled => ⟨hsettled, rfl⟩) leaves_trans
    (fun s e s' hs hc hstep => sound_step hnodup hs hc hstep) hcatches
  intro s' hs'
  refine ⟨(hsound s' hs').conserves, fun tc htc hprovider hsettled => ?_⟩
  exact (hleaves s' hs' tc (mem_ownCalls.mpr ⟨htc, hprovider⟩) hsettled).2

section

/-- Resume data 0 is a cancellation. -/
def plainExecutor : ToolCallExecutor ℕ String :=
  { concurrency := some 2, normalizeToolInputForModel := .ok, emptyInput := 0, toJsonValue := .ok
    isCancellation := fun resumeData => if resumeData = 0 then some "stop" else none
    ofString := String.length }

def askingTool : BuiltTool ℕ String Unit :=
  { suspendSchema := some .success, resumeSchema := some (.ok (some 0)) }

/-- A list with a block for each call, none of which is settled. -/
def blocksOf (toolCalls : List (ToolCall ℕ ℕ)) :
    AgentMessageList ℕ (ToolCallResult ℕ String) :=
  [{ content := toolCalls.map fun tc => { toolCallId := tc.toolCallId, state := .pending } }]

def askingRound (handler : ℕ → HandlerAnswer ℕ String) : ToolRound ℕ ℕ String Unit :=
  { toolMap := fun _ => some askingTool, handler := handler }

def fourCalls : List (ToolCall ℕ ℕ) :=
  [{ toolCallId := 1, toolName := "ask", input := 7 },
    { toolCallId := 2, toolName := "ask", input := 7 },
    { toolCallId := 3, toolName := "ask", input := 7 },
    { toolCallId := 4, toolName := "ask", input := 7 }]

/-- The first of four calls suspends, so that the last two are executed when it is resumed. It
suspends again, as the last one does, and is cancelled then. -/
theorem toolCalls_run_cancelled : ∃ steps, ∃ s : ToolCallRun ℕ ℕ String,
    Run (step (M := Unit) plainExecutor fourCalls) { world := { list := blocksOf fourCalls } }
      steps s ∧
    s.pending.keys = [] ∧ s.reported = [2, 3, 1, 4] ∧ s.world.handled = [1, 2, 1, 3, 4] ∧
    ∀ s' ∈ steps.map Prod.fst ++ [s], s'.Conserves fourCalls ∧
      ∀ tc ∈ fourCalls, tc.providerExecuted = false → s'.world.list.IsSettled tc.toolCallId →
        s.world.handled.count tc.toolCallId = s'.world.handled.count tc.toolCallId := by
  have hevents : (runSteps (step (M := Unit) plainExecutor fourCalls)
      { world := { list := blocksOf fourCalls } }
      [.iterate (askingRound fun id => if id = 1 then .suspends 5 else .returns 6),
        .resume (askingRound fun id => if id = 3 then .throws "lost" else .suspends 5) 1 9,
        .resume (askingRound fun _ => .returns 6) 1 0]).map
      (fun r => (r.2.pending.keys, r.2.reported, r.2.world.handled,
        r.1.all fun x => catchesAll plainExecutor x.1 x.2)) =
      .ok ([], [2, 3, 1, 4], [1, 2, 1, 3, 4], true) := by
    decide
  obtain ⟨steps, s, hrun, -, hresult⟩ := exists_run hevents
  obtain ⟨hpending, hrest⟩ := Prod.mk.inj hresult
  obtain ⟨hreported, hrest⟩ := Prod.mk.inj hrest
  obtain ⟨hhandled, hcatches⟩ := Prod.mk.inj hrest
  exact ⟨steps, s, hrun, hpending, hreported, hhandled,
    toolCalls_run plainExecutor (by decide)
      (fun tc htc _ => ⟨by revert tc; decide, by revert tc; decide⟩) hrun
      (List.all_eq_true.mp hcatches)⟩

/-- A call is resumed, and the message that is made of its output throws : its block has the
output, and it is not reported. -/
theorem toolCalls_run_toMessage : ¬∀ (executor : ToolCallExecutor ℕ String)
    (toolCalls : List (ToolCall ℕ ℕ)) (list : AgentMessageList ℕ (ToolCallResult ℕ String)),
    (toolCalls.map (·.toolCallId)).Nodup →
    (∀ tc ∈ toolCalls, tc.providerExecuted = false → list.IsUnsettled tc.toolCallId) →
    ∀ steps s, Run (step (M := Unit) executor toolCalls) { world := { list := list } } steps s →
      s.Conserves toolCalls := by
  intro h
  let toolCalls : List (ToolCall ℕ ℕ) := [{ toolCallId := 1, toolName := "ask", input := 7 }]
  let round (answer : HandlerAnswer ℕ String) : ToolRound ℕ ℕ String Unit :=
    { toolMap := fun _ => some { askingTool with toMessage := some fun _ => .error "no message" }
      handler := fun _ => answer }
  have hevents : (runSteps (step plainExecutor toolCalls)
      { world := { list := blocksOf toolCalls } }
      [.iterate (round (.suspends 5)), .resume (round (.returns 6)) 1 9]).map
      (fun r => (r.2.started, r.2.pending.keys, r.2.reported)) = .ok (true, [], []) := by
    decide
  obtain ⟨steps, s, hrun, -, hresult⟩ := exists_run hevents
  obtain ⟨hstarted, hrest⟩ := Prod.mk.inj hresult
  obtain ⟨hpending, hreported⟩ := Prod.mk.inj hrest
  have hconserves := h plainExecutor toolCalls (blocksOf toolCalls) (by decide)
    (fun tc htc _ => ⟨by revert tc; decide, by revert tc; decide⟩) steps s hrun
  rcases hconserves hstarted _ List.mem_cons_self rfl with ⟨hmem, -⟩ | ⟨-, -, hone⟩
  · rw [hpending] at hmem
    cases hmem
  · rw [hreported] at hone
    cases hone

end

end ToolCallRun

end N8n
