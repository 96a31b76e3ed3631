import N8n.Insights.CountedOnce

/-!
# Insights at shutdown

`shutdown` waits for the flushes in progress and for one more, which takes what is in the
buffer at the call. A flush that fails after that puts its insights back into the buffer, where
nothing takes them again before `shutdown` resolves (`shutdownResolves_not_stored`), and a
workflow that finishes meanwhile starts a flush that `shutdown` does not wait for.

If no flush puts insights back while `shutdown` waits, and those that were started meanwhile
have saved theirs when it resolves (`undisturbed`), every insight is in the database then
(`run_shutdown_stored`).
-/

open Lib

namespace N8n
namespace InsightsCollectionService

/-- Each collected insight is in the database. -/
def AllStored (service : InsightsCollectionService) : Prop :=
  ∀ insight < service.insights.length, insight ∈ service.rows.map Prod.fst

/-- The event does not keep insights from being stored by a `shutdown`. -/
def undisturbed (service : InsightsCollectionService) : InsightsEvent → Bool
  | .shutdown => service.isInitialized
  | .init => service.shutdowns = []
  | .settled number =>
    service.shutdowns = [] ∨
      (service.flushesInProgress.get? number).all fun flush => flush.stage ≠ .failed
  | .shutdownResolves _ => service.flushesInProgress.values.all fun flush => !flush.isUnsaved
  | _ => true

/-- While `shutdown` waits nothing stays in the buffer. -/
structure Drained (service : InsightsCollectionService) : Prop where
  buffer : service.shutdowns ≠ [] → service.bufferedInsights.elems = []
  sync : service.shutdowns ≠ [] → service.isAsynchronouslySavingInsights = false

variable {service service' : InsightsCollectionService} {number : ℕ} {flush : Flush}

/-! ## What a flush leaves -/

theorem flushEvents_frame (service : InsightsCollectionService) :
    service.flushEvents.1.shutdowns = service.shutdowns ∧
      service.flushEvents.1.isAsynchronouslySavingInsights =
        service.isAsynchronouslySavingInsights := by
  obtain ⟨timer, htimer⟩ := scheduleFlushing_eq service
  unfold flushEvents
  split
  · exact ⟨rfl, rfl⟩
  split
  · rw [htimer]
    exact ⟨rfl, rfl⟩
  · exact ⟨rfl, rfl⟩

/-- A flush of a service that was initialized leaves nothing in the buffer. -/
theorem elems_flushEvents (h : service.isInitialized = true) :
    service.flushEvents.1.bufferedInsights.elems = [] := by
  obtain ⟨timer, htimer⟩ := scheduleFlushing_eq service
  unfold flushEvents
  rw [if_neg (by simp [h])]
  split
  · rename_i hempty
    rw [htimer]
    exact List.length_eq_zero_iff.mp hempty
  · rfl

theorem elems_flushEvents_of_eq_nil (h : service.bufferedInsights.elems = []) :
    service.flushEvents.1.bufferedInsights.elems = [] := by
  by_cases hinitialized : service.isInitialized = true
  · exact elems_flushEvents hinitialized
  · unfold flushEvents
    rw [if_pos hinitialized]
    exact h

/-! ## One event -/

/-- An event that leaves the calls of `shutdown` waiting. -/
theorem Drained.congr (h : Drained service) (hshutdowns : service'.shutdowns = service.shutdowns)
    (hdrained : service.shutdowns ≠ [] → service.bufferedInsights.elems = [] →
      service.isAsynchronouslySavingInsights = false →
      service'.bufferedInsights.elems = [] ∧
        service'.isAsynchronouslySavingInsights = false) : Drained service' := by
  refine ⟨fun hne => ?_, fun hne => ?_⟩
  · rw [hshutdowns] at hne
    exact (hdrained hne (h.buffer hne) (h.sync hne)).1
  · rw [hshutdowns] at hne
    exact (hdrained hne (h.buffer hne) (h.sync hne)).2

theorem drained_of_eq_nil (h : service.shutdowns = []) : Drained service :=
  ⟨fun hne => absurd h hne, fun hne => absurd h hne⟩

theorem Drained.flushEvents (h : Drained service) : Drained service.flushEvents.1 := by
  obtain ⟨hshutdowns, hsync⟩ := flushEvents_frame service
  exact h.congr hshutdowns fun _ hbuffer hsync' =>
    ⟨elems_flushEvents_of_eq_nil hbuffer, hsync.trans hsync'⟩

theorem Drained.flushIfFull (h : Drained service) (flushBatchSize : ℕ) :
    Drained (service.flushIfFull flushBatchSize) := by
  unfold InsightsCollectionService.flushIfFull
  split
  · exact h.flushEvents
  · exact h

theorem collectAll_frame (service : InsightsCollectionService) (insights : List BufferedInsight) :
    (insights.foldl collect service).shutdowns = service.shutdowns ∧
      (insights.foldl collect service).isInitialized = service.isInitialized ∧
      (insights.foldl collect service).isAsynchronouslySavingInsights =
        service.isAsynchronouslySavingInsights := by
  induction insights generalizing service with
  | nil => exact ⟨rfl, rfl, rfl⟩
  | cons insight insights ih => exact ih (service.collect insight)

/-- A workflow that finishes while `shutdown` waits has its insights flushed at once. -/
theorem Drained.handleWorkflowExecuteAfter (h : Drained service) (flushBatchSize : ℕ)
    (ctx : WorkflowExecuteAfterContext) (now : ℤ) :
    Drained (service.handleWorkflowExecuteAfter flushBatchSize ctx now) := by
  unfold InsightsCollectionService.handleWorkflowExecuteAfter
  split
  · exact h
  rename_i hinitialized
  split
  · exact h
  obtain ⟨hshutdowns, hinit, hsync⟩ := collectAll_frame service (insightsOf ctx now)
  dsimp only
  split
  · obtain ⟨hflushed, hflushedSync⟩ := flushEvents_frame ((insightsOf ctx now).foldl collect service)
    refine h.congr (hflushed.trans hshutdowns) fun _ _ hsync' => ⟨?_, ?_⟩
    · exact elems_flushEvents (hinit.trans (by simpa using hinitialized))
    · exact hflushedSync.trans (hsync.trans hsync')
  · rename_i hasync
    have hnone : service.shutdowns = [] := by
      by_contra hne
      rw [h.sync hne] at hasync
      exact hasync (by decide)
    exact (drained_of_eq_nil (hshutdowns.trans hnone)).flushIfFull flushBatchSize

theorem Drained.setStage (h : Drained service) {stage : SaveStage} :
    Drained (service.setStage number flush stage) :=
  h.congr rfl fun _ hbuffer hsync => ⟨hbuffer, hsync⟩

/-- A flush that has saved its insights puts nothing back. -/
theorem Drained.settle (h : Drained service) (hquiet : service.shutdowns = [] ∨ flush.stage ≠ .failed) :
    Drained (service.settle number flush) := by
  unfold InsightsCollectionService.settle
  dsimp only
  split
  · rename_i hfailed
    obtain ⟨timer, htimer⟩ := scheduleFlushing_eq { service with
      bufferedInsights := flush.bufferedInsightsToFlush.foldl .add service.bufferedInsights }
    rw [htimer]
    exact drained_of_eq_nil (hquiet.resolve_right fun hne => hne hfailed)
  · obtain ⟨timer, htimer⟩ := scheduleFlushing_eq service
    rw [htimer]
    exact h.congr rfl fun _ hbuffer hsync => ⟨hbuffer, hsync⟩

theorem Drained.step {flushBatchSize : ℕ} {event : InsightsEvent} (h : Drained service)
    (hC : service.undisturbed event = true) (hs : service.step flushBatchSize event = .ok service') :
    Drained service' := by
  cases event with
  | init =>
    obtain rfl := Except.ok.inj hs
    have hnone : service.shutdowns = [] := of_decide_eq_true hC
    obtain ⟨timer, htimer⟩ := scheduleFlushing_eq
      { service with isInitialized := true, isAsynchronouslySavingInsights := true }
    rw [init, htimer]
    exact drained_of_eq_nil hnone
  | workflowExecuteAfter ctx now =>
    obtain rfl := Except.ok.inj hs
    exact h.handleWorkflowExecuteAfter flushBatchSize ctx now
  | handlerResumes handler =>
    simp only [InsightsCollectionService.step] at hs
    split at hs
    · split at hs
      · cases hs
      · obtain rfl := Except.ok.inj hs
        have hresumed : Drained { service with handlers := service.handlers.eraseIdx handler } :=
          h.congr rfl fun _ hbuffer hsync => ⟨hbuffer, hsync⟩
        exact hresumed.flushIfFull flushBatchSize
    · cases hs
  | timerFires =>
    simp only [InsightsCollectionService.step] at hs
    split at hs
    · obtain rfl := Except.ok.inj hs
      have hfired : Drained { service with flushInsightsRawBufferTimer := some .fired } :=
        h.congr rfl fun _ hbuffer hsync => ⟨hbuffer, hsync⟩
      exact hfired.flushEvents
    · cases hs
  | sharedFound number sharedWorkflows =>
    obtain ⟨flush, -, hs⟩ := onFlush_eq_ok hs
    split at hs
    · obtain rfl := Except.ok.inj hs
      exact h.setStage
    · cases hs
  | metadataUpserted number =>
    obtain ⟨flush, -, hs⟩ := onFlush_eq_ok hs
    split at hs
    · obtain rfl := Except.ok.inj hs
      exact h.setStage
    · cases hs
  | metadataFound number upsertMetadata =>
    obtain ⟨flush, -, hs⟩ := onFlush_eq_ok hs
    split at hs
    · obtain rfl := Except.ok.inj hs
      exact h.congr rfl fun _ hbuffer hsync => ⟨hbuffer, hsync⟩
    · cases hs
  | inserted number =>
    obtain ⟨flush, -, hs⟩ := onFlush_eq_ok hs
    split at hs
    · obtain rfl := Except.ok.inj hs
      exact h.congr rfl fun _ hbuffer hsync => ⟨hbuffer, hsync⟩
    · cases hs
  | rejected number =>
    obtain ⟨flush, -, hs⟩ := onFlush_eq_ok hs
    split at hs
    · cases hs
    · obtain rfl := Except.ok.inj hs
      exact h.setStage
  | settled number =>
    obtain ⟨flush, hflush, hs⟩ := onFlush_eq_ok hs
    split at hs
    · obtain rfl := Except.ok.inj hs
      refine h.settle ?_
      simpa [undisturbed, hflush] using hC
    · cases hs
  | shutdown =>
    obtain rfl := Except.ok.inj hs
    have hinitialized : service.isInitialized = true := hC
    refine ⟨fun _ => ?_, fun _ => ?_⟩
    · exact elems_flushEvents hinitialized
    · exact (flushEvents_frame _).2
  | shutdownResolves shutdown =>
    simp only [InsightsCollectionService.step] at hs
    split at hs
    · rename_i flushes hwaiting
      have hne : service.shutdowns ≠ [] := by
        rintro hnil
        rw [hnil] at hwaiting
        cases hwaiting
      split at hs
      · cases hs
      · obtain rfl := Except.ok.inj hs
        exact ⟨fun _ => h.buffer hne, fun _ => h.sync hne⟩
    · cases hs

/-! ## When shutdown resolves -/

theorem run_drained {flushBatchSize : ℕ}
    {events : List (InsightsCollectionService × InsightsEvent)}
    (h : Run (step flushBatchSize) {} events service)
    (hC : ∀ event ∈ events, event.1.undisturbed event.2 = true) : Drained service :=
  h.invariant (C := fun service event => service.undisturbed event = true)
    (drained_of_eq_nil rfl) (fun _ _ _ hs hC h => hs.step hC h) hC

/-- With nothing in the buffer and nothing taken by a flush all insights are stored. -/
theorem Conserved.allStored (h : Conserved service) (hbuffer : service.bufferedInsights.elems = [])
    (hflushes : service.flushesInProgress.values.all (fun flush => !flush.isUnsaved) = true) :
    AllStored service := by
  have hinFlight : service.inFlight = [] := by
    refine List.flatMap_eq_nil_iff.mpr fun flush hflush => ?_
    have hsaved := List.all_eq_true.mp hflushes flush hflush
    exact if_neg (by simpa using hsaved)
  have hperm := h.perm
  rw [hbuffer, hinFlight, List.append_nil, List.nil_append] at hperm
  exact fun insight hinsight => hperm.mem_iff.mpr (List.mem_range.mpr hinsight)

/-- When a `shutdown` resolves that nothing has disturbed, each insight collected before is in
the database. -/
theorem run_shutdown_stored {flushBatchSize shutdown : ℕ}
    {events : List (InsightsCollectionService × InsightsEvent)}
    (h : Run (step flushBatchSize) {} (events ++ [(service, .shutdownResolves shutdown)]) service')
    (hC : ∀ event ∈ events ++ [(service, .shutdownResolves shutdown)],
      event.1.undisturbed event.2 = true) : AllStored service' := by
  rw [List.forall_mem_append, List.forall_mem_singleton] at hC
  obtain ⟨hrun, hs⟩ := h.of_snoc
  simp only [step] at hs
  split at hs
  · rename_i flushes hwaiting
    have hne : service.shutdowns ≠ [] := by
      rintro hnil
      rw [hnil] at hwaiting
      cases hwaiting
    split at hs
    · cases hs
    · obtain rfl := Except.ok.inj hs
      exact (run_conserved hrun).allStored ((run_drained hrun hC.1).buffer hne) hC.2
  · cases hs

/-- The steps of a flush that the database answers. -/
def savedFlush (number : ℕ) : List InsightsEvent :=
  let metadata : NewInsightsMetadata := ⟨"project", "Project", "workflow", "Workflow"⟩
  [.sharedFound number [⟨"workflow", "project", "Project"⟩], .metadataUpserted number,
    .metadataFound number [⟨metadata, 7⟩], .inserted number, .settled number]

/-- A flush fails before the shutdown, and a workflow finishes during it. -/
theorem run_shutdown_stored_retried : ∃ events service service',
    Run (step 1000) {} (events ++ [(service, .shutdownResolves 0)]) service' ∧
      service'.rows.map Prod.fst = [0, 1, 2, 3, 4, 5] ∧ AllStored service' := by
  have hevents : (runSteps (step 1000) {}
      ([.init, .workflowExecuteAfter finishedWorkflow 0, .timerFires, .rejected 0, .settled 0,
        .shutdown, .workflowExecuteAfter finishedWorkflow 1] ++ savedFlush 1 ++ savedFlush 2 ++
        [.shutdownResolves 0])).map
      (fun r => (r.2.rows.map Prod.fst, r.1.all fun event => event.1.undisturbed event.2)) =
        .ok ([0, 1, 2, 3, 4, 5], true) := by
    decide
  obtain ⟨events, service, service', hrun, h⟩ := exists_run_last hevents
  obtain ⟨hrows, hundisturbed⟩ := Prod.mk.inj h
  exact ⟨events, service, service', hrun, hrows,
    run_shutdown_stored hrun (List.all_eq_true.mp hundisturbed)⟩

/-- The only flush fails once while `shutdown` waits for it, and is not tried again. -/
theorem shutdownResolves_not_stored : ∃ events service service',
    Run (step 1000) {} (events ++ [(service, .shutdownResolves 0)]) service' ∧
      service'.flushCount = 1 ∧ ¬AllStored service' := by
  have hevents : (runSteps (step 1000) {}
      ([.init, .workflowExecuteAfter finishedWorkflow 0, .timerFires, .shutdown, .rejected 0,
        .settled 0] ++ [.shutdownResolves 0])).map
      (fun r => (r.2.flushCount, r.2.insights.length, r.2.rows.map Prod.fst)) =
        .ok (1, 3, []) := by
    decide
  obtain ⟨events, service, service', hrun, h⟩ := exists_run_last hevents
  obtain ⟨hcount, h⟩ := Prod.mk.inj h
  obtain ⟨hlength, hrows⟩ := Prod.mk.inj h
  refine ⟨events, service, service', hrun, hcount, fun hstored => ?_⟩
  have hmem : 0 ∈ service'.rows.map Prod.fst := hstored 0 (Nat.lt_of_lt_of_eq (by decide) hlength.symm)
  rw [show service'.rows.map Prod.fst = [] from hrows] at hmem
  cases hmem

end InsightsCollectionService
end N8n
