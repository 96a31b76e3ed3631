import N8n.Insights.InsightsCollection
import N8n.Lib.Run

/-!
# Insights are counted once

Each insight that was collected is in the buffer, in one flush that has not saved it or in the
database, and nowhere twice (`run_countedOnce`). The lists of the three places together are
the insights in another order (`Conserved`), and no step adds or loses one : a flush takes the
whole buffer, a failed flush puts back what it took, and the database stores all of a batch or
nothing.
-/

open Lib

namespace N8n
namespace InsightsCollectionService

/-- The insights that flushes have taken and not saved. -/
def inFlight (service : InsightsCollectionService) : List ℕ :=
  service.flushesInProgress.values.flatMap Flush.holding

/-- Each collected insight is in exactly one place, and there once. -/
def CountedOnce (service : InsightsCollectionService) : Prop :=
  ∀ insight < service.insights.length,
    service.bufferedInsights.elems.count insight + service.inFlight.count insight +
      (service.rows.map Prod.fst).count insight = 1

/-! ## The invariant -/

/-- The places hold the insights together. A flush about to insert has a row for each of its
insights. -/
structure Conserved (service : InsightsCollectionService) : Prop where
  perm : (service.bufferedInsights.elems ++ service.inFlight ++ service.rows.map Prod.fst).Perm
    (List.range service.insights.length)
  numbers : ∀ number ∈ service.flushesInProgress.keys, number < service.flushCount
  complete : ∀ number flush events, service.flushesInProgress.get? number = some flush →
    flush.stage = .insert events → events.length = flush.bufferedInsightsToFlush.length

variable {service service' : InsightsCollectionService} {number : ℕ} {flush : Flush}

theorem Conserved.countedOnce (h : Conserved service) : CountedOnce service := by
  intro insight hinsight
  rw [← List.count_append, ← List.count_append, h.perm.count_eq]
  exact List.count_eq_one_of_mem List.nodup_range (List.mem_range.mpr hinsight)

theorem Conserved.nodup (h : Conserved service) :
    (service.bufferedInsights.elems ++ service.inFlight ++ service.rows.map Prod.fst).Nodup :=
  h.perm.nodup_iff.mpr List.nodup_range

theorem Conserved.lt_of_mem_buffer (h : Conserved service) {insight : ℕ}
    (hmem : insight ∈ service.bufferedInsights) : insight < service.insights.length :=
  List.mem_range.mp (h.perm.mem_iff.mp (by simp [OrderedSet.mem_def.mp hmem]))

/-- What a flush in progress holds, and what the others do. -/
theorem perm_inFlight (h : service.flushesInProgress.get? number = some flush) :
    service.inFlight.Perm
      (flush.holding ++ (service.flushesInProgress.delete number).values.flatMap Flush.holding) :=
  OrderedMap.perm_flatMap_values _ h

/-- Only the places and the flushes count. -/
theorem Conserved.congr (h : Conserved service) (hinsights : service'.insights = service.insights)
    (hbuffer : service'.bufferedInsights = service.bufferedInsights)
    (hflushes : service'.flushesInProgress = service.flushesInProgress)
    (hcount : service'.flushCount = service.flushCount) (hrows : service'.rows = service.rows) :
    Conserved service' := by
  have hinFlight : service'.inFlight = service.inFlight := by simp [inFlight, hflushes]
  refine ⟨?_, ?_, ?_⟩
  · rw [hinsights, hbuffer, hinFlight, hrows]
    exact h.perm
  · rw [hflushes, hcount]
    exact h.numbers
  · rw [hflushes]
    exact h.complete

/-! ## Collecting and flushing -/

/-- Scheduling sets a timer. -/
theorem scheduleFlushing_eq (service : InsightsCollectionService) :
    ∃ timer, service.scheduleFlushing = { service with flushInsightsRawBufferTimer := timer } := by
  unfold scheduleFlushing
  split
  · exact ⟨service.flushInsightsRawBufferTimer, rfl⟩
  · exact ⟨some .pending, rfl⟩

theorem Conserved.scheduleFlushing (h : Conserved service) : Conserved service.scheduleFlushing := by
  obtain ⟨timer, htimer⟩ := scheduleFlushing_eq service
  rw [htimer]
  exact h.congr rfl rfl rfl rfl rfl

theorem Conserved.collect (h : Conserved service) (insight : BufferedInsight) :
    Conserved (service.collect insight) := by
  have hnew : service.insights.length ∉ service.bufferedInsights :=
    fun hmem => lt_irrefl _ (h.lt_of_mem_buffer hmem)
  refine ⟨?_, h.numbers, h.complete⟩
  have hbuffer : (service.collect insight).bufferedInsights.elems =
      service.bufferedInsights.elems ++ [service.insights.length] :=
    OrderedSet.elems_add_of_not_mem hnew
  have hlength : (service.collect insight).insights.length = service.insights.length + 1 := by
    simp [InsightsCollectionService.collect]
  rw [hbuffer, hlength, List.range_succ]
  refine List.Perm.trans ?_ (h.perm.append_right _)
  have hmove : ([service.insights.length] ++ (service.inFlight ++ service.rows.map Prod.fst)).Perm
      (service.inFlight ++ service.rows.map Prod.fst ++ [service.insights.length]) :=
    List.perm_append_comm
  have hperm := hmove.append_left service.bufferedInsights.elems
  rw [← List.append_assoc, ← List.append_assoc, ← List.append_assoc, ← List.append_assoc] at hperm
  exact hperm

theorem Conserved.collectAll (h : Conserved service) (insights : List BufferedInsight) :
    Conserved (insights.foldl InsightsCollectionService.collect service) := by
  induction insights generalizing service with
  | nil => exact h
  | cons insight insights ih => exact ih (h.collect insight)

/-- A flush takes the whole buffer. -/
theorem Conserved.flushEvents (h : Conserved service) : Conserved service.flushEvents.1 := by
  unfold InsightsCollectionService.flushEvents
  split
  · exact h
  split
  · exact h.scheduleFlushing
  have hnew : service.flushesInProgress.get? service.flushCount = none :=
    OrderedMap.get?_eq_none_iff.mpr fun hmem => lt_irrefl _ (h.numbers _ hmem)
  refine ⟨?_, ?_, ?_⟩
  · refine List.Perm.trans ?_ h.perm
    refine List.Perm.append_right _ ?_
    simp only [inFlight, OrderedMap.values_set_of_get?_eq_none hnew, List.flatMap_append,
      List.flatMap_singleton]
    change (service.inFlight ++ service.bufferedInsights.elems).Perm _
    exact List.perm_append_comm
  · intro number hnumber
    rcases OrderedMap.mem_keys_set.mp hnumber with rfl | hkey
    · exact Nat.lt_succ_self _
    · exact (h.numbers number hkey).trans (Nat.lt_succ_self _)
  · intro number flush events hflush hstage
    by_cases hnumber : service.flushCount = number
    · subst hnumber
      rw [OrderedMap.get?_set_self] at hflush
      obtain rfl := Option.some.inj hflush
      cases hstage
    · rw [OrderedMap.get?_set_of_ne _ _ hnumber] at hflush
      exact h.complete number flush events hflush hstage

theorem Conserved.flushIfFull (h : Conserved service) (flushBatchSize : ℕ) :
    Conserved (service.flushIfFull flushBatchSize) := by
  unfold InsightsCollectionService.flushIfFull
  split
  · exact h.flushEvents
  · exact h

theorem Conserved.handleWorkflowExecuteAfter (h : Conserved service) (flushBatchSize : ℕ)
    (ctx : WorkflowExecuteAfterContext) (now : ℤ) :
    Conserved (service.handleWorkflowExecuteAfter flushBatchSize ctx now) := by
  unfold InsightsCollectionService.handleWorkflowExecuteAfter
  split
  · exact h
  split
  · exact h
  have hcollected := h.collectAll (insightsOf ctx now)
  dsimp only
  split
  · exact hcollected.flushEvents.congr rfl rfl rfl rfl rfl
  · exact hcollected.flushIfFull flushBatchSize

/-! ## Saving -/

/-- A flush changes what it waits for, and may have rows stored. -/
theorem Conserved.change (h : Conserved service) {stage : SaveStage} {rows : List (ℕ × InsightsRaw)}
    (hflush : service.flushesInProgress.get? number = some flush)
    (hevents : ∀ events, stage = .insert events →
      events.length = flush.bufferedInsightsToFlush.length)
    (hperm : (Flush.holding { flush with stage } ++ rows.map Prod.fst).Perm
      (flush.holding ++ service.rows.map Prod.fst)) :
    Conserved { service.setStage number flush stage with rows } := by
  refine ⟨?_, ?_, ?_⟩
  · have hbefore := perm_inFlight hflush
    have hafter : (service.setStage number flush stage).inFlight.Perm _ :=
      OrderedMap.perm_flatMap_values_set _ _ _ _
    refine List.Perm.trans ?_ h.perm
    rw [List.append_assoc, List.append_assoc]
    refine List.Perm.append_left _ ?_
    refine (hafter.append_right _).trans (List.Perm.trans ?_ (hbefore.append_right _).symm)
    refine (List.perm_append_comm.append_right _).trans ?_
    refine List.Perm.trans ?_ (List.perm_append_comm.append_right _)
    rw [List.append_assoc, List.append_assoc]
    exact hperm.append_left _
  · intro other hother
    rcases OrderedMap.mem_keys_set.mp hother with rfl | hkey
    · exact h.numbers _ (OrderedMap.mem_keys_iff.mpr ⟨flush, hflush⟩)
    · exact h.numbers other hkey
  · intro other flush' events hother hinsert
    by_cases hnumber : number = other
    · subst hnumber
      have hset := OrderedMap.get?_set_self service.flushesInProgress number { flush with stage }
      obtain rfl := Option.some.inj (hset.symm.trans hother)
      exact hevents events hinsert
    · have hset := OrderedMap.get?_set_of_ne service.flushesInProgress { flush with stage } hnumber
      exact h.complete other flush' events (hset.symm.trans hother) hinsert

/-- A flush that waits for something else holds what it held. -/
theorem Conserved.setStage (h : Conserved service) {stage : SaveStage}
    (hflush : service.flushesInProgress.get? number = some flush) (hunsaved : flush.isUnsaved)
    (hstage : stage ≠ .saved)
    (hevents : ∀ events, stage = .insert events →
      events.length = flush.bufferedInsightsToFlush.length) :
    Conserved (service.setStage number flush stage) := by
  have hholding : Flush.holding { flush with stage } = flush.holding := by
    rw [Flush.holding, Flush.holding, if_pos hunsaved]
    exact if_pos (decide_eq_true hstage)
  exact h.change hflush hevents (by rw [hholding])

/-- What a flush has not saved was collected. -/
theorem Conserved.lt_of_mem_flush (h : Conserved service)
    (hflush : service.flushesInProgress.get? number = some flush) (hunsaved : flush.isUnsaved) :
    ∀ insight ∈ flush.bufferedInsightsToFlush, insight < service.insights.length := by
  intro insight hinsight
  have hholding : insight ∈ flush.holding := by simpa [Flush.holding, hunsaved] using hinsight
  have hmem : insight ∈ service.inFlight :=
    (perm_inFlight hflush).mem_iff.mpr (List.mem_append_left _ hholding)
  exact List.mem_range.mp (h.perm.mem_iff.mp (by simp [hmem]))

/-- There is a row for each insight of the flush. -/
theorem Conserved.length_batch (h : Conserved service)
    (hflush : service.flushesInProgress.get? number = some flush) (hunsaved : flush.isUnsaved) :
    (service.batch flush).length = flush.bufferedInsightsToFlush.length := by
  rw [batch, List.length_filterMap_eq_countP, List.countP_eq_length]
  intro insight hinsight
  simpa using h.lt_of_mem_flush hflush hunsaved insight hinsight

theorem Conserved.saveRaw (h : Conserved service)
    (hflush : service.flushesInProgress.get? number = some flush) (hunsaved : flush.isUnsaved)
    (upsertMetadata : List InsightsMetadata) :
    Conserved (service.saveRaw number flush upsertMetadata) := by
  have hlength := h.length_batch hflush hunsaved
  unfold InsightsCollectionService.saveRaw
  dsimp only
  have hcached : Conserved { service with
      cachedMetadata := upsertMetadata.foldl
        (fun cached metadata => cached.set metadata.workflowId metadata) service.cachedMetadata } :=
    h.congr rfl rfl rfl rfl rfl
  refine hcached.setStage hflush hunsaved ?_ ?_
  · split <;> simp
  · intro events hevents
    split at hevents
    · rename_i raw hraw
      obtain rfl := SaveStage.insert.inj hevents
      exact (mapM_eq_some.mp hraw).length_eq.symm.trans hlength
    · cases hevents

/-- The database has stored the whole batch. -/
theorem Conserved.inserted (h : Conserved service) {events : List InsightsRaw}
    (hflush : service.flushesInProgress.get? number = some flush)
    (hstage : flush.stage = .insert events) :
    Conserved { service.setStage number flush .saved with
      rows := service.rows ++ flush.bufferedInsightsToFlush.zip events } := by
  have hlength := h.complete number flush events hflush hstage
  have hrows : (flush.bufferedInsightsToFlush.zip events).map Prod.fst =
      flush.bufferedInsightsToFlush := List.map_fst_zip hlength.ge
  have hholding : flush.holding = flush.bufferedInsightsToFlush := by
    simp [Flush.holding, Flush.isUnsaved, hstage]
  have hsaved : Flush.holding { flush with stage := .saved } = [] := rfl
  refine h.change hflush (fun _ he => by cases he) ?_
  rw [hsaved, List.nil_append, List.map_append, hrows, hholding]
  exact List.perm_append_comm

/-! ## Settling -/

/-- What a flush that ends holds is back in the buffer. -/
theorem Conserved.remove (h : Conserved service)
    (hflush : service.flushesInProgress.get? number = some flush) {buffer : OrderedSet ℕ}
    (hbuffer : buffer.elems = service.bufferedInsights.elems ++ flush.holding) :
    Conserved { service with
      bufferedInsights := buffer
      flushesInProgress := service.flushesInProgress.delete number } := by
  refine ⟨?_, ?_, ?_⟩
  · refine List.Perm.trans ?_ h.perm
    refine List.Perm.append_right _ ?_
    rw [hbuffer, List.append_assoc]
    exact (perm_inFlight hflush).symm.append_left _
  · exact fun other hother => h.numbers other (OrderedMap.mem_keys_delete.mp hother).2
  · intro other flush' events hother hinsert
    have hne : number ≠ other := by
      rintro rfl
      simp at hother
    rw [OrderedMap.get?_delete_of_ne _ hne] at hother
    exact h.complete other flush' events hother hinsert

/-- The insights of a flush are not in the buffer. -/
theorem Conserved.nodup_restored (h : Conserved service)
    (hflush : service.flushesInProgress.get? number = some flush) :
    (service.bufferedInsights.elems ++ flush.holding).Nodup := by
  have hnodup : (service.bufferedInsights.elems ++ service.inFlight).Nodup :=
    (List.nodup_append.mp h.nodup).1
  rw [((perm_inFlight hflush).append_left _).nodup_iff, ← List.append_assoc] at hnodup
  exact (List.nodup_append.mp hnodup).1

/-- A failed flush puts back what it took. -/
theorem Conserved.settle (h : Conserved service)
    (hflush : service.flushesInProgress.get? number = some flush)
    (hstage : flush.stage = .saved ∨ flush.stage = .failed) :
    Conserved (service.settle number flush) := by
  have hnodup := h.nodup_restored hflush
  unfold InsightsCollectionService.settle
  rcases hstage with hsaved | hfailed
  · have hholding : flush.holding = [] := by simp [Flush.holding, Flush.isUnsaved, hsaved]
    have hremoved := h.remove hflush (by rw [hholding, List.append_nil])
    obtain ⟨timer, htimer⟩ := scheduleFlushing_eq service
    rw [if_neg (by simp [hsaved])]
    dsimp only
    rw [htimer]
    exact hremoved.congr rfl rfl rfl rfl rfl
  · have hholding : flush.holding = flush.bufferedInsightsToFlush := by
      simp [Flush.holding, Flush.isUnsaved, hfailed]
    have hremoved := h.remove hflush (OrderedSet.elems_foldl_add hnodup)
    rw [hholding] at hremoved
    rw [if_pos hfailed]
    dsimp only
    obtain ⟨timer, htimer⟩ := scheduleFlushing_eq { service with
      bufferedInsights := flush.bufferedInsightsToFlush.foldl .add service.bufferedInsights }
    rw [htimer]
    exact hremoved.congr rfl rfl rfl rfl rfl

/-! ## Runs -/

theorem onFlush_eq_ok {continuation : Flush → Except Unit InsightsCollectionService}
    (h : service.onFlush number continuation = .ok service') :
    ∃ flush, service.flushesInProgress.get? number = some flush ∧
      continuation flush = .ok service' := by
  unfold onFlush at h
  split at h
  · rename_i flush hflush
    exact ⟨flush, hflush, h⟩
  · cases h

theorem isUnsaved_of_ne (h : flush.stage ≠ .saved) : flush.isUnsaved := decide_eq_true h

theorem Conserved.step {flushBatchSize : ℕ} {event : InsightsEvent} (h : Conserved service)
    (hs : service.step flushBatchSize event = .ok service') : Conserved service' := by
  cases event with
  | init =>
    obtain rfl := Except.ok.inj hs
    have hmarked : Conserved
        { service with isInitialized := true, isAsynchronouslySavingInsights := true } :=
      h.congr rfl rfl rfl rfl rfl
    exact hmarked.scheduleFlushing
  | workflowExecuteAfter ctx now =>
    obtain rfl := Except.ok.inj hs
    exact h.handleWorkflowExecuteAfter flushBatchSize ctx now
  | handlerResumes handler =>
    simp only [InsightsCollectionService.step] at hs
    split at hs
    · split at hs
      · cases hs
      · obtain rfl := Except.ok.inj hs
        have hresumed : Conserved
            { service with handlers := service.handlers.eraseIdx handler } :=
          h.congr rfl rfl rfl rfl rfl
        exact hresumed.flushIfFull flushBatchSize
    · cases hs
  | timerFires =>
    simp only [InsightsCollectionService.step] at hs
    split at hs
    · obtain rfl := Except.ok.inj hs
      have hfired : Conserved { service with flushInsightsRawBufferTimer := some .fired } :=
        h.congr rfl rfl rfl rfl rfl
      exact hfired.flushEvents
    · cases hs
  | sharedFound number sharedWorkflows =>
    obtain ⟨flush, hflush, hs⟩ := onFlush_eq_ok hs
    split at hs
    · rename_i hstage
      obtain rfl := Except.ok.inj hs
      exact h.setStage hflush (isUnsaved_of_ne (by simp [hstage])) (by simp) (by simp)
    · cases hs
  | metadataUpserted number =>
    obtain ⟨flush, hflush, hs⟩ := onFlush_eq_ok hs
    split at hs
    · rename_i hstage
      obtain rfl := Except.ok.inj hs
      exact h.setStage hflush (isUnsaved_of_ne (by simp [hstage])) (by simp) (by simp)
    · cases hs
  | metadataFound number upsertMetadata =>
    obtain ⟨flush, hflush, hs⟩ := onFlush_eq_ok hs
    split at hs
    · rename_i hstage
      obtain rfl := Except.ok.inj hs
      exact h.saveRaw hflush (isUnsaved_of_ne (by simp [hstage])) upsertMetadata
    · cases hs
  | inserted number =>
    obtain ⟨flush, hflush, hs⟩ := onFlush_eq_ok hs
    split at hs
    · rename_i hstage
      obtain rfl := Except.ok.inj hs
      exact h.inserted hflush hstage
    · cases hs
  | rejected number =>
    obtain ⟨flush, hflush, hs⟩ := onFlush_eq_ok hs
    split at hs
    · cases hs
    · rename_i hstage
      obtain rfl := Except.ok.inj hs
      exact h.setStage hflush (isUnsaved_of_ne fun he => hstage (Or.inl he)) (by simp) (by simp)
  | settled number =>
    obtain ⟨flush, hflush, hs⟩ := onFlush_eq_ok hs
    split at hs
    · rename_i hstage
      obtain rfl := Except.ok.inj hs
      exact h.settle hflush hstage
    · cases hs
  | shutdown =>
    obtain rfl := Except.ok.inj hs
    have hstopped : Conserved
        { service.stopFlushingTimer with isAsynchronouslySavingInsights := false } :=
      h.congr rfl rfl rfl rfl rfl
    exact hstopped.flushEvents.congr rfl rfl rfl rfl rfl
  | shutdownResolves shutdown =>
    simp only [InsightsCollectionService.step] at hs
    split at hs
    · split at hs
      · cases hs
      · obtain rfl := Except.ok.inj hs
        exact h.congr rfl rfl rfl rfl rfl
    · cases hs

theorem conserved_initial : Conserved {} :=
  ⟨by simp [inFlight, OrderedMap.values]; rfl, fun _ hnumber => absurd hnumber List.not_mem_nil,
    fun _ _ _ hflush => by simp at hflush⟩

theorem run_conserved {flushBatchSize : ℕ}
    {events : List (InsightsCollectionService × InsightsEvent)}
    (h : Run (step flushBatchSize) {} events service) : Conserved service :=
  h.invariant (C := fun _ _ => True) conserved_initial (fun _ _ _ hs _ h => hs.step h)
    fun _ _ => trivial

/-- At every moment each collected insight is in exactly one of the buffer, a flush in
progress and the database, and there once. -/
theorem run_countedOnce {flushBatchSize : ℕ}
    {events : List (InsightsCollectionService × InsightsEvent)}
    (h : Run (step flushBatchSize) {} events service) : CountedOnce service :=
  (run_conserved h).countedOnce

/-- A workflow that succeeds gives three insights. -/
def finishedWorkflow : WorkflowExecuteAfterContext where
  workflowId := "workflow"
  workflowName := "Workflow"
  status := .success
  mode := .webhook
  startedAt := 0
  stoppedAt := some 5

/-- A flush fails while another workflow finishes. -/
theorem run_countedOnce_failedFlush : ∃ events service, Run (step 1000) {} events service ∧
    service.bufferedInsights.elems = [3, 4, 5, 0, 1, 2] ∧ CountedOnce service := by
  have hevents : (runSteps (step 1000) {}
      [.init, .workflowExecuteAfter finishedWorkflow 0, .timerFires,
        .workflowExecuteAfter finishedWorkflow 1, .rejected 0, .settled 0]).map
      (fun r => r.2.bufferedInsights.elems) = .ok [3, 4, 5, 0, 1, 2] := by
    decide
  obtain ⟨events, service, hrun, -, hbuffer⟩ := exists_run hevents
  exact ⟨events, service, hrun, hbuffer, run_countedOnce hrun⟩

end InsightsCollectionService
end N8n
