import N8n.Insights.CountedOnce

/-!
# Insights of workflows without an owner

A flush reads the owner projects of its workflows from the database, adds their metadata to the
cache and looks up the metadata of each insight there. One insight that has none makes the whole
flush fail, and all that the flush has taken goes back into the buffer, whichever workflows it
belongs to (`settled_keeps_owned`).

So a flush whose operations succeed is all or nothing : it stores what it has taken if each
workflow has an owner project or metadata from before, and keeps everything otherwise
(`settled_allOrNothing`). Other flushes may come between its steps, and may fail.
-/

open Lib

namespace N8n

/-- The flush that the event continues. -/
def InsightsEvent.flush? : InsightsEvent → Option ℕ
  | .sharedFound number _ | .metadataUpserted number | .metadataFound number _ | .inserted number
  | .rejected number | .settled number => some number
  | _ => none

namespace InsightsCollectionService

/-- The database answers the flush, and fails in none of its operations : the flush finds the owner
projects there are of the workflows it asks for, and later the metadata it has upserted. `cached`
are the workflows with metadata in the cache when the flush adds to it. -/
def Answers (number : ℕ) (owned cached : String → Prop) (service : InsightsCollectionService) :
    InsightsEvent → Prop
  | .sharedFound number' sharedWorkflows => number' = number →
    ∀ flush, service.flushesInProgress.get? number = some flush →
      ∀ id, id ∈ sharedWorkflows.map (·.workflowId) ↔
        owned id ∧ id ∈ (workflowIdNames (service.batch flush)).keys
  | .metadataFound number' upsertMetadata => number' = number →
    (∀ id, cached id ↔ id ∈ service.cachedMetadata.keys) ∧
      ∀ flush metadata, service.flushesInProgress.get? number = some flush →
        flush.stage = .findMetadata metadata →
          ∀ id, id ∈ upsertMetadata.map (·.workflowId) ↔ id ∈ metadata.map (·.workflowId)
  | .rejected number' => number' ≠ number
  | _ => True

/-- Each insight of the flush belongs to a workflow with an owner project or cached metadata. -/
def Resolvable (owned cached : String → Prop) (service : InsightsCollectionService)
    (flush : Flush) : Prop :=
  ∀ insight ∈ service.batch flush, owned insight.workflowId ∨ cached insight.workflowId

variable {service service' service'' : InsightsCollectionService} {number : ℕ} {flush : Flush}
  {owned cached : String → Prop}

/-! ## What other events leave -/

/-- What was collected, cached and stored stays so, and the flush is as it was, or new. -/
structure Spares (number : ℕ) (service service' : InsightsCollectionService) : Prop where
  insights : service.insights <+: service'.insights
  cached : ∀ id ∈ service.cachedMetadata.keys, id ∈ service'.cachedMetadata.keys
  rows : service.rows <+: service'.rows
  flush : ∀ flush, service'.flushesInProgress.get? number = some flush →
    service.flushesInProgress.get? number = some flush ∨ flush.stage = .findShared

theorem Spares.of_eq (hinsights : service'.insights = service.insights)
    (hcached : service'.cachedMetadata = service.cachedMetadata)
    (hrows : service'.rows = service.rows)
    (hflushes : service'.flushesInProgress = service.flushesInProgress) :
    Spares number service service' :=
  ⟨hinsights ▸ List.prefix_rfl, fun _ h => hcached ▸ h, hrows ▸ List.prefix_rfl,
    fun _ h => .inl (hflushes ▸ h)⟩

theorem Spares.trans (h : Spares number service service') (h' : Spares number service' service'') :
    Spares number service service'' := by
  refine ⟨h.insights.trans h'.insights, fun id hid => h'.cached id (h.cached id hid),
    h.rows.trans h'.rows, fun flush hflush => ?_⟩
  rcases h'.flush flush hflush with hflush | hstage
  · exact h.flush flush hflush
  · exact .inr hstage

theorem spares_flushEvents (number : ℕ) (service : InsightsCollectionService) :
    Spares number service service.flushEvents.1 := by
  unfold flushEvents
  split
  · exact .of_eq rfl rfl rfl rfl
  split
  · obtain ⟨timer, htimer⟩ := scheduleFlushing_eq service
    rw [htimer]
    exact .of_eq rfl rfl rfl rfl
  · refine ⟨List.prefix_rfl, fun _ h => h, List.prefix_rfl, fun flush hflush => ?_⟩
    by_cases hnumber : service.flushCount = number
    · subst hnumber
      rw [OrderedMap.get?_set_self] at hflush
      exact .inr (Option.some.inj hflush ▸ rfl)
    · rw [OrderedMap.get?_set_of_ne _ _ hnumber] at hflush
      exact .inl hflush

theorem spares_flushIfFull (number flushBatchSize : ℕ) (service : InsightsCollectionService) :
    Spares number service (service.flushIfFull flushBatchSize) := by
  unfold flushIfFull
  split
  · exact spares_flushEvents number service
  · exact .of_eq rfl rfl rfl rfl

theorem spares_collectAll (number : ℕ) (service : InsightsCollectionService)
    (insights : List BufferedInsight) : Spares number service (insights.foldl collect service) := by
  induction insights generalizing service with
  | nil => exact .of_eq rfl rfl rfl rfl
  | cons insight insights ih =>
    have hcollect : Spares number service (service.collect insight) :=
      ⟨List.prefix_append _ _, fun _ h => h, List.prefix_rfl, fun _ h => .inl h⟩
    exact hcollect.trans (ih (service.collect insight))

theorem spares_handleWorkflowExecuteAfter (number flushBatchSize : ℕ)
    (service : InsightsCollectionService) (ctx : WorkflowExecuteAfterContext) (now : ℤ) :
    Spares number service (service.handleWorkflowExecuteAfter flushBatchSize ctx now) := by
  unfold handleWorkflowExecuteAfter
  split
  · exact .of_eq rfl rfl rfl rfl
  split
  · exact .of_eq rfl rfl rfl rfl
  have hcollected := spares_collectAll number service (insightsOf ctx now)
  dsimp only
  split
  · exact (hcollected.trans (spares_flushEvents number _)).trans (.of_eq rfl rfl rfl rfl)
  · exact hcollected.trans (spares_flushIfFull number flushBatchSize _)

theorem spares_setStage {other : ℕ} (hne : other ≠ number) (service : InsightsCollectionService)
    (flush : Flush) (stage : SaveStage) : Spares number service (service.setStage other flush stage) := by
  refine ⟨List.prefix_rfl, fun _ h => h, List.prefix_rfl, fun flush' hflush => ?_⟩
  rw [setStage, OrderedMap.get?_set_of_ne _ _ hne] at hflush
  exact .inl hflush

variable {cachedMetadata : OrderedMap String InsightsMetadata}

theorem mem_keys_addMetadata {upsertMetadata : List InsightsMetadata} {id : String} :
    id ∈ (upsertMetadata.foldl (fun cached metadata => cached.set metadata.workflowId metadata)
      cachedMetadata).keys ↔ id ∈ upsertMetadata.map (·.workflowId) ∨ id ∈ cachedMetadata.keys := by
  induction upsertMetadata generalizing cachedMetadata with
  | nil => simp
  | cons metadata upsertMetadata ih =>
    rw [List.foldl_cons, ih, OrderedMap.mem_keys_set, List.map_cons, List.mem_cons]
    tauto

theorem spares_settle {other : ℕ} (hne : other ≠ number) (service : InsightsCollectionService)
    (flush : Flush) : Spares number service (service.settle other flush) := by
  have hdelete : ∀ restored : InsightsCollectionService, Spares number service restored →
      Spares number service
        { restored.scheduleFlushing with
          flushesInProgress := service.flushesInProgress.delete other } := by
    intro restored hrestored
    obtain ⟨timer, htimer⟩ := scheduleFlushing_eq restored
    rw [htimer]
    refine ⟨hrestored.insights, hrestored.cached, hrestored.rows, fun flush' hflush => ?_⟩
    rw [OrderedMap.get?_delete_of_ne _ hne] at hflush
    exact .inl hflush
  unfold settle
  dsimp only
  split
  · exact hdelete _ (.of_eq rfl rfl rfl rfl)
  · exact hdelete _ (.of_eq rfl rfl rfl rfl)

/-- An event of another flush, or of none, spares the flush. -/
theorem spares_step {flushBatchSize : ℕ} {event : InsightsEvent} (hne : event.flush? ≠ some number)
    (hs : service.step flushBatchSize event = .ok service') : Spares number service service' := by
  cases event with
  | init =>
    obtain rfl := Except.ok.inj hs
    obtain ⟨timer, htimer⟩ := scheduleFlushing_eq
      { service with isInitialized := true, isAsynchronouslySavingInsights := true }
    rw [init, htimer]
    exact .of_eq rfl rfl rfl rfl
  | workflowExecuteAfter ctx now =>
    obtain rfl := Except.ok.inj hs
    exact spares_handleWorkflowExecuteAfter number flushBatchSize service ctx now
  | handlerResumes handler =>
    simp only [step] at hs
    split at hs
    · split at hs
      · cases hs
      · obtain rfl := Except.ok.inj hs
        have hresumed : Spares number service
            { service with handlers := service.handlers.eraseIdx handler } :=
          .of_eq rfl rfl rfl rfl
        exact hresumed.trans (spares_flushIfFull number flushBatchSize _)
    · cases hs
  | timerFires =>
    simp only [step] at hs
    split at hs
    · obtain rfl := Except.ok.inj hs
      have hfired : Spares number service
          { service with flushInsightsRawBufferTimer := some .fired } := .of_eq rfl rfl rfl rfl
      exact hfired.trans (spares_flushEvents number _)
    · cases hs
  | sharedFound other sharedWorkflows =>
    obtain ⟨flush, -, hs⟩ := onFlush_eq_ok hs
    split at hs
    · obtain rfl := Except.ok.inj hs
      exact spares_setStage (fun h => hne (congrArg some h)) service flush _
    · cases hs
  | metadataUpserted other =>
    obtain ⟨flush, -, hs⟩ := onFlush_eq_ok hs
    split at hs
    · obtain rfl := Except.ok.inj hs
      exact spares_setStage (fun h => hne (congrArg some h)) service flush _
    · cases hs
  | metadataFound other upsertMetadata =>
    obtain ⟨flush, -, hs⟩ := onFlush_eq_ok hs
    split at hs
    · obtain rfl := Except.ok.inj hs
      have hcached : Spares number service { service with
          cachedMetadata := upsertMetadata.foldl
            (fun cached metadata => cached.set metadata.workflowId metadata)
            service.cachedMetadata } :=
        ⟨List.prefix_rfl, fun id h => mem_keys_addMetadata.mpr (.inr h), List.prefix_rfl,
          fun _ h => .inl h⟩
      exact hcached.trans (spares_setStage (fun h => hne (congrArg some h)) _ flush _)
    · cases hs
  | inserted other =>
    obtain ⟨flush, -, hs⟩ := onFlush_eq_ok hs
    split at hs
    · obtain rfl := Except.ok.inj hs
      have hset := spares_setStage (fun h => hne (congrArg some h)) service flush .saved
      exact ⟨hset.insights, hset.cached, List.prefix_append _ _, hset.flush⟩
    · cases hs
  | rejected other =>
    obtain ⟨flush, -, hs⟩ := onFlush_eq_ok hs
    split at hs
    · cases hs
    · obtain rfl := Except.ok.inj hs
      exact spares_setStage (fun h => hne (congrArg some h)) service flush _
  | settled other =>
    obtain ⟨flush, -, hs⟩ := onFlush_eq_ok hs
    split at hs
    · obtain rfl := Except.ok.inj hs
      exact spares_settle (fun h => hne (congrArg some h)) service flush
    · cases hs
  | shutdown =>
    obtain rfl := Except.ok.inj hs
    have hstopped : Spares number service
        { service.stopFlushingTimer with isAsynchronouslySavingInsights := false } :=
      .of_eq rfl rfl rfl rfl
    exact (hstopped.trans (spares_flushEvents number _)).trans (.of_eq rfl rfl rfl rfl)
  | shutdownResolves shutdown =>
    simp only [step] at hs
    split at hs
    · split at hs
      · cases hs
      · obtain rfl := Except.ok.inj hs
        exact .of_eq rfl rfl rfl rfl
    · cases hs

/-! ## The flush -/

/-- What is known of a flush whose operations succeed, at each of its stages. -/
structure Fate (owned cached : String → Prop) (service : InsightsCollectionService)
    (flush : Flush) : Prop where
  valid : ∀ i ∈ flush.bufferedInsightsToFlush, i < service.insights.length
  upserting : ∀ metadata, flush.stage = .upsert metadata ∨ flush.stage = .findMetadata metadata →
    (∀ insight ∈ service.batch flush, owned insight.workflowId →
        insight.workflowId ∈ metadata.map (·.workflowId) ∨
          insight.workflowId ∈ service.cachedMetadata.keys) ∧
      ∀ id ∈ metadata.map (·.workflowId), owned id
  inserting : ∀ events, flush.stage = .insert events → Resolvable owned cached service flush
  saved : flush.stage = .saved → Resolvable owned cached service flush ∧
    ∀ i ∈ flush.bufferedInsightsToFlush, i ∈ service.rows.map Prod.fst
  failed : flush.stage = .failed → ¬Resolvable owned cached service flush

/-- The insights of a flush do not change. -/
theorem batch_eq (hbefore : service.insights <+: service'.insights)
    (hvalid : ∀ i ∈ flush.bufferedInsightsToFlush, i < service.insights.length) :
    service'.batch flush = service.batch flush := by
  obtain ⟨more, hmore⟩ := hbefore
  refine List.filterMap_congr fun i hi => ?_
  rw [← hmore, List.getElem?_append_left (hvalid i hi)]

theorem Fate.of_spares (h : Fate owned cached service flush) (hspares : Spares number service service') :
    Fate owned cached service' flush := by
  have hbatch := batch_eq hspares.insights h.valid
  have hresolvable : Resolvable owned cached service' flush ↔ Resolvable owned cached service flush := by
    rw [Resolvable, Resolvable, hbatch]
  refine ⟨fun i hi => (h.valid i hi).trans_le hspares.insights.length_le, ?_, ?_, ?_, ?_⟩
  · intro metadata hstage
    obtain ⟨hfound, howned⟩ := h.upserting metadata hstage
    rw [hbatch]
    exact ⟨fun insight hinsight hown =>
      (hfound insight hinsight hown).imp_right (hspares.cached insight.workflowId), howned⟩
  · exact fun events hstage => hresolvable.mpr (h.inserting events hstage)
  · intro hstage
    obtain ⟨hall, hrows⟩ := h.saved hstage
    exact ⟨hresolvable.mpr hall, fun i hi => (hspares.rows.map Prod.fst).subset (hrows i hi)⟩
  · exact fun hstage => hresolvable.not.mpr (h.failed hstage)

theorem fate_of_findShared (hvalid : ∀ i ∈ flush.bufferedInsightsToFlush, i < service.insights.length)
    (hstage : flush.stage = .findShared) : Fate owned cached service flush := by
  refine ⟨hvalid, ?_, ?_, ?_, ?_⟩ <;> simp [hstage]

theorem mem_keys_workflowIdNames {insights : List BufferedInsight} {id : String} :
    id ∈ (workflowIdNames insights).keys ↔ id ∈ insights.map (·.workflowId) := by
  have hfold : ∀ names : OrderedMap String String,
      id ∈ (insights.foldl (fun names event => names.set event.workflowId event.workflowName)
        names).keys ↔ id ∈ insights.map (·.workflowId) ∨ id ∈ names.keys := by
    induction insights with
    | nil => simp
    | cons insight insights ih =>
      intro names
      rw [List.foldl_cons, ih, OrderedMap.mem_keys_set, List.map_cons, List.mem_cons]
      tauto
  rw [workflowIdNames, hfold, OrderedMap.keys_empty, or_iff_left List.not_mem_nil]

/-- The workflows with an owner project are cached or upserted. -/
theorem mem_metadataToUpsert {names : OrderedMap String String}
    {sharedWorkflows : List SharedWorkflow} {id : String}
    (hid : id ∈ sharedWorkflows.map (·.workflowId)) :
    id ∈ (service.metadataToUpsert names sharedWorkflows).map (·.workflowId) ∨
      id ∈ service.cachedMetadata.keys := by
  obtain ⟨workflow, hworkflow, rfl⟩ := List.mem_map.mp hid
  by_cases hcached : workflow.workflowId ∈ service.cachedMetadata.keys
  · exact .inr hcached
  · refine .inl (List.mem_map.mpr ⟨_, List.mem_filter.mpr ⟨List.mem_map_of_mem hworkflow, ?_⟩, rfl⟩)
    simp [OrderedMap.get?_eq_none_iff.mpr hcached]

theorem mem_of_mem_metadataToUpsert {names : OrderedMap String String}
    {sharedWorkflows : List SharedWorkflow} {id : String}
    (hid : id ∈ (service.metadataToUpsert names sharedWorkflows).map (·.workflowId)) :
    id ∈ sharedWorkflows.map (·.workflowId) := by
  obtain ⟨metadata, hmetadata, rfl⟩ := List.mem_map.mp hid
  obtain ⟨workflow, hworkflow, rfl⟩ := List.mem_map.mp (List.mem_of_mem_filter hmetadata)
  exact List.mem_map_of_mem hworkflow

/-- There are rows exactly if all insights have metadata. -/
theorem rawInsights_eq_none_iff {insights : List BufferedInsight} :
    rawInsights cachedMetadata insights = none ↔
      ∃ insight ∈ insights, insight.workflowId ∉ cachedMetadata.keys := by
  induction insights with
  | nil => simp [rawInsights]
  | cons insight insights ih =>
    rw [rawInsights, List.mapM_cons, ← rawInsights, List.exists_mem_cons_iff, ← ih]
    cases hmetadata : cachedMetadata.get? insight.workflowId with
    | none => simp [OrderedMap.get?_eq_none_iff.mp hmetadata]
    | some metadata =>
      have hcached : insight.workflowId ∈ cachedMetadata.keys :=
        OrderedMap.mem_keys_iff.mpr ⟨metadata, hmetadata⟩
      cases hraw : rawInsights cachedMetadata insights <;> simp [hcached]

/-- The fate of the flush, while it is in progress. -/
def HasFate (number : ℕ) (owned cached : String → Prop) (service : InsightsCollectionService) :
    Prop :=
  ∀ flush, service.flushesInProgress.get? number = some flush → Fate owned cached service flush

theorem hasFate_setStage {stage : SaveStage} {rows : List (ℕ × InsightsRaw)}
    (h : Fate owned cached { service with cachedMetadata, rows } { flush with stage }) :
    HasFate number owned cached
      { service.setStage number flush stage with cachedMetadata, rows } := by
  intro flush' hflush'
  have hset := OrderedMap.get?_set_self service.flushesInProgress number { flush with stage }
  obtain rfl := Option.some.inj (hset.symm.trans hflush')
  exact ⟨h.valid, h.upserting, h.inserting, h.saved, h.failed⟩

theorem HasFate.step {flushBatchSize : ℕ} {event : InsightsEvent}
    (h : HasFate number owned cached service) (hconserved : Conserved service)
    (hanswers : Answers number owned cached service event)
    (hs : service.step flushBatchSize event = .ok service') :
    HasFate number owned cached service' := by
  by_cases hne : event.flush? = some number
  · cases event with
    | sharedFound number' sharedWorkflows =>
      obtain rfl := Option.some.inj hne
      obtain ⟨flush, hflush, hs⟩ := onFlush_eq_ok hs
      have hfate := h flush hflush
      split at hs
      · rename_i hstage
        obtain rfl := Except.ok.inj hs
        have hids := hanswers rfl flush hflush
        refine hasFate_setStage ⟨hfate.valid, ?_, by simp, by simp, by simp⟩
        rintro metadata (hmetadata | hmetadata)
        · obtain rfl := SaveStage.upsert.inj hmetadata
          refine ⟨fun insight hinsight hown => mem_metadataToUpsert ?_, fun id hid => ?_⟩
          · have hasked := mem_keys_workflowIdNames.mpr (List.mem_map_of_mem hinsight)
            exact (hids insight.workflowId).mpr ⟨hown, hasked⟩
          · exact ((hids id).mp (mem_of_mem_metadataToUpsert hid)).1
        · cases hmetadata
      · cases hs
    | metadataUpserted number' =>
      obtain rfl := Option.some.inj hne
      obtain ⟨flush, hflush, hs⟩ := onFlush_eq_ok hs
      have hfate := h flush hflush
      split at hs
      · rename_i metadata hstage
        obtain rfl := Except.ok.inj hs
        refine hasFate_setStage ⟨hfate.valid, ?_, by simp, by simp, by simp⟩
        rintro metadata' (hmetadata | hmetadata)
        · cases hmetadata
        · obtain rfl := SaveStage.findMetadata.inj hmetadata
          exact hfate.upserting metadata (.inl hstage)
      · cases hs
    | metadataFound number' upsertMetadata =>
      obtain rfl := Option.some.inj hne
      obtain ⟨flush, hflush, hs⟩ := onFlush_eq_ok hs
      have hfate := h flush hflush
      split at hs
      · rename_i metadata hstage
        obtain rfl := Except.ok.inj hs
        obtain ⟨hcached, hfound⟩ := hanswers rfl
        obtain ⟨hupserted, howned⟩ := hfate.upserting metadata (.inr hstage)
        have hmetadata := hfound flush metadata hflush hstage
        -- the cache holds what it held and what was upserted
        have hresolvable : Resolvable owned cached service flush ↔
            ∀ insight ∈ service.batch flush, insight.workflowId ∈
              (upsertMetadata.foldl (fun cached metadata => cached.set metadata.workflowId metadata)
                service.cachedMetadata).keys := by
          refine forall₂_congr fun insight hinsight => ?_
          rw [mem_keys_addMetadata, hcached, hmetadata]
          constructor
          · rintro (hown | hcache)
            · exact hupserted insight hinsight hown
            · exact .inr hcache
          · rintro (hupsert | hcache)
            · exact .inl (howned _ hupsert)
            · exact .inr hcache
        rw [saveRaw]
        split
        · rename_i events hraw
          refine hasFate_setStage ⟨hfate.valid, by simp, fun _ _ => ?_, by simp, by simp⟩
          refine hresolvable.mpr fun insight hinsight => ?_
          by_contra hmissing
          have hnone := rawInsights_eq_none_iff.mpr ⟨insight, hinsight, hmissing⟩
          exact absurd (hraw.symm.trans hnone) (by simp)
        · rename_i hraw
          refine hasFate_setStage ⟨hfate.valid, by simp, by simp, by simp, fun _ hall => ?_⟩
          obtain ⟨insight, hinsight, hmissing⟩ := rawInsights_eq_none_iff.mp hraw
          exact hmissing (hresolvable.mp hall insight hinsight)
      · cases hs
    | inserted number' =>
      obtain rfl := Option.some.inj hne
      obtain ⟨flush, hflush, hs⟩ := onFlush_eq_ok hs
      have hfate := h flush hflush
      split at hs
      · rename_i events hstage
        obtain rfl := Except.ok.inj hs
        have hlength := hconserved.complete number' flush events hflush hstage
        refine hasFate_setStage ⟨hfate.valid, by simp, by simp, fun _ => ?_, by simp⟩
        refine ⟨hfate.inserting events hstage, fun i hi => ?_⟩
        rw [List.map_append, List.map_fst_zip hlength.ge]
        exact List.mem_append_right _ hi
      · cases hs
    | rejected number' => exact absurd (Option.some.inj hne) hanswers
    | settled number' =>
      obtain rfl := Option.some.inj hne
      obtain ⟨flush, hflush, hs⟩ := onFlush_eq_ok hs
      split at hs
      · obtain rfl := Except.ok.inj hs
        intro flush' hflush'
        rw [settle, OrderedMap.get?_delete_self] at hflush'
        cases hflush'
      · cases hs
    | _ => cases hne
  · have hspares := spares_step hne hs
    have hconserved' := hconserved.step hs
    intro flush hflush
    rcases hspares.flush flush hflush with hold | hstage
    · exact (h flush hold).of_spares hspares
    · refine fate_of_findShared (hconserved'.lt_of_mem_flush hflush ?_) hstage
      exact isUnsaved_of_ne (by simp [hstage])

/-! ## Runs -/

theorem run_hasFate {flushBatchSize : ℕ}
    {events : List (InsightsCollectionService × InsightsEvent)}
    (h : Run (step flushBatchSize) {} events service)
    (hanswers : ∀ event ∈ events, Answers number owned cached event.1 event.2) :
    Conserved service ∧ HasFate number owned cached service :=
  h.invariant (I := fun service => Conserved service ∧ HasFate number owned cached service)
    (C := Answers number owned cached)
    ⟨conserved_initial, fun flush hflush => by simp at hflush⟩
    (fun _ _ _ hs hC h => ⟨hs.1.step h, hs.2.step hs.1 hC h⟩) hanswers

/-- When a flush ends whose operations have all succeeded, the database has all it has taken if each
workflow of it has an owner project or was cached, and otherwise it is all in the buffer. -/
theorem settled_allOrNothing {flushBatchSize number : ℕ} {owned cached : String → Prop}
    {events : List (InsightsCollectionService × InsightsEvent)}
    {service service' : InsightsCollectionService}
    (h : Run (step flushBatchSize) {} (events ++ [(service, .settled number)]) service')
    (hanswers : ∀ event ∈ events, Answers number owned cached event.1 event.2) :
    ∃ flush, service.flushesInProgress.get? number = some flush ∧
      (Resolvable owned cached service flush → ∀ insight ∈ flush.bufferedInsightsToFlush,
        insight ∈ service'.rows.map Prod.fst ∧ insight ∉ service'.bufferedInsights) ∧
      (¬Resolvable owned cached service flush → ∀ insight ∈ flush.bufferedInsightsToFlush,
        insight ∈ service'.bufferedInsights ∧ insight ∉ service'.rows.map Prod.fst) := by
  obtain ⟨hrun, hs⟩ := h.of_snoc
  obtain ⟨hconserved, hfate⟩ := run_hasFate hrun hanswers
  have hconserved' := hconserved.step hs
  have hdisjoint : ∀ insight, insight ∈ service'.bufferedInsights →
      insight ∉ service'.rows.map Prod.fst := by
    intro insight hbuffer hrows
    have hnodup := hconserved'.nodup
    exact (List.nodup_append.mp hnodup).2.2 insight
      (List.mem_append_left _ (OrderedSet.mem_def.mp hbuffer)) insight hrows rfl
  obtain ⟨flush, hflush, hs⟩ := onFlush_eq_ok hs
  have hflushFate := hfate flush hflush
  refine ⟨flush, hflush, ?_⟩
  split at hs
  · rename_i hstage
    obtain rfl := Except.ok.inj hs
    rcases hstage with hsaved | hfailed
    · obtain ⟨hall, hrows⟩ := hflushFate.saved hsaved
      refine ⟨fun _ insight hinsight => ?_, fun hnot => absurd hall hnot⟩
      have hstored : insight ∈ (service.settle number flush).rows.map Prod.fst := by
        obtain ⟨timer, htimer⟩ := scheduleFlushing_eq service
        rw [settle, if_neg (by simp [hsaved]), htimer]
        exact hrows insight hinsight
      exact ⟨hstored, fun hbuffer => hdisjoint insight hbuffer hstored⟩
    · refine ⟨fun hall => absurd hall (hflushFate.failed hfailed), fun _ insight hinsight => ?_⟩
      have hrestored : insight ∈ (service.settle number flush).bufferedInsights := by
        obtain ⟨timer, htimer⟩ := scheduleFlushing_eq { service with
          bufferedInsights := flush.bufferedInsightsToFlush.foldl .add service.bufferedInsights }
        rw [settle, if_pos hfailed, htimer]
        exact OrderedSet.mem_foldl_add.mpr (.inr hinsight)
      exact ⟨hrestored, hdisjoint insight hrestored⟩
  · cases hs

/-- A workflow without an owner project. -/
def ownerlessWorkflow : WorkflowExecuteAfterContext where
  workflowId := "ownerless"
  workflowName := "Ownerless"
  status := .error
  mode := .webhook
  startedAt := 0

/-- A flush of the insights of two workflows, of which one has an owner project. -/
def blockedFlush : List InsightsEvent :=
  [.init, .workflowExecuteAfter finishedWorkflow 0, .workflowExecuteAfter ownerlessWorkflow 1,
    .timerFires, .sharedFound 0 [⟨"workflow", "project", "Project"⟩], .metadataUpserted 0,
    .metadataFound 0 [⟨⟨"project", "Project", "workflow", "Workflow"⟩, 7⟩]]

def answersBlocked (service : InsightsCollectionService) : InsightsEvent → Bool
  | .sharedFound _ sharedWorkflows => sharedWorkflows.map (·.workflowId) = ["workflow"] ∧
    (service.flushesInProgress.get? 0).all fun flush =>
      "workflow" ∈ (workflowIdNames (service.batch flush)).keys
  | .metadataFound _ upsertMetadata => service.cachedMetadata.keys = [] ∧
    upsertMetadata.map (·.workflowId) = ["workflow"] ∧
      (service.flushesInProgress.get? 0).all fun flush =>
        match flush.stage with
        | .findMetadata metadata => metadata.map (·.workflowId) = ["workflow"]
        | _ => false
  | .rejected _ => false
  | _ => true

theorem answers_of_answersBlocked {event : InsightsEvent}
    (h : service.answersBlocked event = true) :
    Answers 0 (· = "workflow") (fun _ => False) service event := by
  cases event with
  | sharedFound number sharedWorkflows =>
    obtain ⟨hids, hasked⟩ := of_decide_eq_true h
    rintro - flush hflush id
    rw [hflush] at hasked
    have hmem := of_decide_eq_true (show decide _ = true from hasked)
    rw [hids, List.mem_singleton, iff_self_and]
    rintro rfl
    exact hmem
  | metadataFound number upsertMetadata =>
    obtain ⟨hkeys, hids, hmetadata⟩ := of_decide_eq_true h
    refine fun _ => ⟨fun id => by simp [hkeys], fun flush metadata hflush hstage id => ?_⟩
    rw [hflush] at hmetadata
    simp only [Option.all_some, hstage, decide_eq_true_eq] at hmetadata
    rw [hids, hmetadata]
  | rejected number => cases h
  | _ => trivial

theorem exists_blockedFlush : ∃ events service service',
    Run (step 1000) {} (events ++ [(service, .settled 0)]) service' ∧
      (∀ event ∈ events, Answers 0 (· = "workflow") (fun _ => False) event.1 event.2) ∧
        (service.flushesInProgress.get? 0).map Flush.bufferedInsightsToFlush = some [0, 1, 2, 3] ∧
          (service.insights[0]?).map BufferedInsight.workflowId = some "workflow" ∧
            0 ∈ service'.bufferedInsights.elems ∧ 0 ∉ service'.rows.map Prod.fst := by
  have hevents : (runSteps (step 1000) {} (blockedFlush ++ [.settled 0])).map
      (fun r => (r.1.dropLast.all fun event => event.1.answersBlocked event.2,
        (r.1.getLast?).map fun event =>
          ((event.1.flushesInProgress.get? 0).map Flush.bufferedInsightsToFlush,
            (event.1.insights[0]?).map BufferedInsight.workflowId),
        r.2.bufferedInsights.elems, r.2.rows.map Prod.fst)) =
      .ok (true, some (some [0, 1, 2, 3], some "workflow"), [0, 1, 2, 3], []) := by
    rfl
  obtain ⟨events, service, service', hrun, h⟩ := exists_run_last hevents
  obtain ⟨hanswers, h⟩ := Prod.mk.inj h
  obtain ⟨hlast, h⟩ := Prod.mk.inj h
  obtain ⟨hbuffer, hrows⟩ := Prod.mk.inj h
  rw [List.getLast?_concat] at hlast
  obtain ⟨hflush, hinsight⟩ := Prod.mk.inj (Option.some.inj hlast)
  rw [List.dropLast_concat] at hanswers
  refine ⟨events, service, service', hrun, fun event hevent => ?_, hflush, hinsight, ?_, ?_⟩
  · exact answers_of_answersBlocked (List.all_eq_true.mp hanswers event hevent)
  · rw [show service'.bufferedInsights.elems = [0, 1, 2, 3] from hbuffer]
    simp
  · rw [show service'.rows.map Prod.fst = [] from hrows]
    simp

theorem settled_allOrNothing_blocked : ∃ events service service',
    Run (step 1000) {} (events ++ [(service, .settled 0)]) service' ∧
      ∃ flush, service.flushesInProgress.get? 0 = some flush ∧
        (Resolvable (· = "workflow") (fun _ => False) service flush →
          ∀ insight ∈ flush.bufferedInsightsToFlush,
            insight ∈ service'.rows.map Prod.fst ∧ insight ∉ service'.bufferedInsights) ∧
        (¬Resolvable (· = "workflow") (fun _ => False) service flush →
          ∀ insight ∈ flush.bufferedInsightsToFlush,
            insight ∈ service'.bufferedInsights ∧ insight ∉ service'.rows.map Prod.fst) := by
  obtain ⟨events, service, service', hrun, hanswers, -⟩ := exists_blockedFlush
  exact ⟨events, service, service', hrun, settled_allOrNothing hrun hanswers⟩

/-- An insight of a workflow with an owner project stays in the buffer. -/
theorem settled_keeps_owned : ¬∀ (owned cached : String → Prop) events service service',
    Run (step 1000) {} (events ++ [(service, .settled 0)]) service' →
      (∀ event ∈ events, Answers 0 owned cached event.1 event.2) →
        ∀ flush, service.flushesInProgress.get? 0 = some flush →
          ∀ i ∈ flush.bufferedInsightsToFlush, ∀ insight, service.insights[i]? = some insight →
            owned insight.workflowId →
              i ∈ service'.rows.map Prod.fst ∧ i ∉ service'.bufferedInsights := by
  intro hall
  obtain ⟨events, service, service', hrun, hanswers, hflush, hinsight, -, hrows⟩ :=
    exists_blockedFlush
  obtain ⟨flush, hflush, htaken⟩ := Option.map_eq_some_iff.mp hflush
  obtain ⟨insight, hinsight, hid⟩ := Option.map_eq_some_iff.mp hinsight
  have hmem : 0 ∈ flush.bufferedInsightsToFlush := by
    rw [htaken]
    simp
  exact hrows (hall _ _ events service service' hrun hanswers flush hflush 0 hmem insight hinsight
    hid).1

end InsightsCollectionService
end N8n
