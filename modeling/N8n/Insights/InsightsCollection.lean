import Mathlib.Data.Rat.Floor
import N8n.Interfaces
import N8n.Lib.OrderedSet

/-!
# Collecting insights

`InsightsCollectionService` keeps an insight or more for each workflow that finishes in a
buffer, and flushes the buffer to the database : when a timer fires, when the buffer is full
and at shutdown. A flush takes what is in the buffer and saves it in steps, each of which waits
for the database; if one fails the insights go back into the buffer.

`step` is the service between two points where it waits. An insight object is its number in the
order of collection, a flush its number in the order of starting. Flushes overlap : the steps of
one come between the steps of another and between finished workflows.
-/

open Lib

namespace N8n

/-! ## Insights -/

inductive TypeUnit where
  | timeSavedMin | runtimeMs | success | failure
  deriving DecidableEq, Repr

def shouldSkipStatus : ExecutionStatus → Bool
  | .success | .crashed | .error => false
  | .canceled | .new | .running | .unknown | .waiting => true

def shouldSkipMode : WorkflowExecuteMode → Bool
  | .cli | .error | .retry | .trigger | .webhook | .evaluation => false
  | .integrated | .internal | .manual | .chat | .agent => true

def MIN_RUNTIME : ℤ := 0

def MAX_RUNTIME : ℤ := 2 ^ 31 - 1

def integerValueForInsightsRaw (value : ℚ) : ℤ := ⌊value + 1 / 2⌋

structure BufferedInsight where
  workflowId : String
  workflowName : String
  timestamp : ℤ
  type : TypeUnit
  value : ℚ
  deriving DecidableEq, Repr

inductive TimeSavedMode where
  | fixed | dynamic
  deriving DecidableEq, Repr

structure WorkflowSettings where
  timeSavedPerExecution : Option ℚ := none
  timeSavedMode : Option TimeSavedMode := none

/-- What a finished workflow tells. Of the data of a node it has the minutes each run saved. -/
structure WorkflowExecuteAfterContext where
  workflowId : String
  workflowName : String
  settings : WorkflowSettings := {}
  status : ExecutionStatus
  mode : WorkflowExecuteMode
  startedAt : ℤ
  stoppedAt : Option ℤ := none
  runData : OrderedMap String (List (Option ℚ)) := ∅

/-- The minutes all runs of all nodes saved. -/
def extractTimeSavedFromNodes (ctx : WorkflowExecuteAfterContext) : ℚ :=
  (ctx.runData.values.flatten.reduceOption).sum

def calculateTimeSaved (ctx : WorkflowExecuteAfterContext) : ℚ :=
  if ctx.settings.timeSavedMode ≠ some .dynamic then ctx.settings.timeSavedPerExecution.getD 0
  else extractTimeSavedFromNodes ctx

/-- The insights a finished workflow gives, in the order they are added. -/
def insightsOf (ctx : WorkflowExecuteAfterContext) (now : ℤ) : List BufferedInsight :=
  let status := if ctx.status = .success then TypeUnit.success else .failure
  let insight := BufferedInsight.mk ctx.workflowId ctx.workflowName now
  let runtime := fun stoppedAt : ℤ =>
    ((min (max (stoppedAt - ctx.startedAt) MIN_RUNTIME) MAX_RUNTIME : ℤ) : ℚ)
  [insight status 1] ++
    (ctx.stoppedAt.map fun stoppedAt => insight .runtimeMs (runtime stoppedAt)).toList ++
    if status = .success ∧ ctx.mode ≠ .error then
      [insight .timeSavedMin (calculateTimeSaved ctx)]
    else []

/-! ## Flushes -/

structure SharedWorkflow where
  workflowId : String
  projectId : String
  projectName : String
  deriving DecidableEq, Repr

/-- Metadata that the database has not numbered. -/
structure NewInsightsMetadata where
  projectId : String
  projectName : String
  workflowId : String
  workflowName : String
  deriving DecidableEq, Repr

structure InsightsMetadata extends NewInsightsMetadata where
  metaId : ℕ
  deriving DecidableEq, Repr

structure InsightsRaw where
  metaId : ℕ
  type : TypeUnit
  value : ℤ
  timestamp : ℤ
  deriving DecidableEq, Repr

/-- What `saveInsightsMetadataAndRaw` waits for, or how it has ended. -/
inductive SaveStage where
  | findShared
  | upsert (metadataToUpsert : List NewInsightsMetadata)
  | findMetadata (metadataToUpsert : List NewInsightsMetadata)
  | insert (events : List InsightsRaw)
  | saved
  | failed
  deriving DecidableEq, Repr

structure Flush where
  bufferedInsightsToFlush : List ℕ
  stage : SaveStage := .findShared
  deriving DecidableEq, Repr

/-- The insights of the flush are not in the database. -/
def Flush.isUnsaved (flush : Flush) : Bool := flush.stage ≠ .saved

/-- The insights a flush has taken and not saved. -/
def Flush.holding (flush : Flush) : List ℕ :=
  if flush.isUnsaved then flush.bufferedInsightsToFlush else []

/-! ## The service -/

/-- A timer that has fired keeps its handle until it is cleared. -/
inductive FlushTimer where
  | pending | fired
  deriving DecidableEq, Repr

/-- The service, the objects it has made and the rows of the database, each with the insight it
was made from. `handlers` are the calls of `handleWorkflowExecuteAfter` that wait for the flush
they started, if they started one, and `shutdowns` the calls of `shutdown` with the flushes
they wait for. -/
structure InsightsCollectionService where
  cachedMetadata : OrderedMap String InsightsMetadata := ∅
  bufferedInsights : OrderedSet ℕ := ∅
  flushInsightsRawBufferTimer : Option FlushTimer := none
  isAsynchronouslySavingInsights : Bool := true
  flushesInProgress : OrderedMap ℕ Flush := ∅
  isInitialized : Bool := false
  insights : List BufferedInsight := []
  flushCount : ℕ := 0
  handlers : List (Option ℕ) := []
  shutdowns : List (List ℕ) := []
  rows : List (ℕ × InsightsRaw) := []

inductive InsightsEvent where
  | init
  | workflowExecuteAfter (ctx : WorkflowExecuteAfterContext) (now : ℤ)
  | handlerResumes (handler : ℕ)
  | timerFires
  | sharedFound (flush : ℕ) (sharedWorkflows : List SharedWorkflow)
  | metadataUpserted (flush : ℕ)
  | metadataFound (flush : ℕ) (upsertMetadata : List InsightsMetadata)
  | inserted (flush : ℕ)
  /-- The database rejects what the flush waits for. -/
  | rejected (flush : ℕ)
  /-- The flush goes on after `saveInsightsMetadataAndRaw` has returned or thrown. -/
  | settled (flush : ℕ)
  | shutdown
  | shutdownResolves (shutdown : ℕ)

namespace InsightsCollectionService

def cancelScheduledFlushing (service : InsightsCollectionService) : InsightsCollectionService :=
  { service with flushInsightsRawBufferTimer := none }

def scheduleFlushing (service : InsightsCollectionService) : InsightsCollectionService :=
  if ¬service.isInitialized then service
  else { service.cancelScheduledFlushing with flushInsightsRawBufferTimer := some .pending }

def init (service : InsightsCollectionService) : InsightsCollectionService :=
  scheduleFlushing { service with isInitialized := true, isAsynchronouslySavingInsights := true }

def stopFlushingTimer (service : InsightsCollectionService) : InsightsCollectionService :=
  service.cancelScheduledFlushing

/-- The flush that was started, if one was, is told with the service. -/
def flushEvents (service : InsightsCollectionService) : InsightsCollectionService × Option ℕ :=
  if ¬service.isInitialized then (service, none)
  else if service.bufferedInsights.size = 0 then (service.scheduleFlushing, none)
  else
    let flush : Flush := { bufferedInsightsToFlush := service.bufferedInsights.elems }
    ({ service.cancelScheduledFlushing with
        bufferedInsights := ∅
        flushesInProgress := service.flushesInProgress.set service.flushCount flush
        flushCount := service.flushCount + 1 },
      some service.flushCount)

/-- `bufferedInsights.add` of a new insight. -/
def collect (service : InsightsCollectionService) (insight : BufferedInsight) :
    InsightsCollectionService :=
  { service with
    insights := service.insights ++ [insight]
    bufferedInsights := service.bufferedInsights.add service.insights.length }

/-- The end of `handleWorkflowExecuteAfter`. -/
def flushIfFull (flushBatchSize : ℕ) (service : InsightsCollectionService) :
    InsightsCollectionService :=
  if flushBatchSize ≤ service.bufferedInsights.size then service.flushEvents.1 else service

def handleWorkflowExecuteAfter (flushBatchSize : ℕ) (service : InsightsCollectionService)
    (ctx : WorkflowExecuteAfterContext) (now : ℤ) : InsightsCollectionService :=
  if ¬service.isInitialized then service
  else if shouldSkipStatus ctx.status ∨ shouldSkipMode ctx.mode then service
  else
    let collected := (insightsOf ctx now).foldl collect service
    if ¬service.isAsynchronouslySavingInsights then
      let (flushed, flush) := collected.flushEvents
      { flushed with handlers := flushed.handlers ++ [flush] }
    else collected.flushIfFull flushBatchSize

/-! ## Saving -/

/-- The insights of a flush, with their numbers. -/
def batch (service : InsightsCollectionService) (flush : Flush) : List BufferedInsight :=
  flush.bufferedInsightsToFlush.filterMap fun i => service.insights[i]?

/-- `workflowIdNames` : the name of a workflow is that of its last insight. -/
def workflowIdNames (insights : List BufferedInsight) : OrderedMap String String :=
  insights.foldl (fun names event => names.set event.workflowId event.workflowName) ∅

/-- The metadata of the workflows that are not in the cache or have other names there. -/
def metadataToUpsert (service : InsightsCollectionService) (names : OrderedMap String String)
    (sharedWorkflows : List SharedWorkflow) : List NewInsightsMetadata :=
  (sharedWorkflows.map fun workflow =>
      { projectId := workflow.projectId
        projectName := workflow.projectName
        workflowId := workflow.workflowId
        workflowName := (names.get? workflow.workflowId).getD "" : NewInsightsMetadata }).filter
    fun metadata =>
      (service.cachedMetadata.get? metadata.workflowId).map InsightsMetadata.toNewInsightsMetadata ≠
        some metadata

/-- The rows for the insights, unless one of them has no metadata. -/
def rawInsights (cachedMetadata : OrderedMap String InsightsMetadata)
    (insights : List BufferedInsight) : Option (List InsightsRaw) :=
  insights.mapM fun event =>
    (cachedMetadata.get? event.workflowId).map fun metadata =>
      { metaId := metadata.metaId
        type := event.type
        value := integerValueForInsightsRaw event.value
        timestamp := event.timestamp }

def setStage (service : InsightsCollectionService) (number : ℕ) (flush : Flush)
    (stage : SaveStage) : InsightsCollectionService :=
  { service with
    flushesInProgress := service.flushesInProgress.set number { flush with stage } }

/-- What `saveInsightsMetadataAndRaw` does once the database has the metadata. -/
def saveRaw (service : InsightsCollectionService) (number : ℕ) (flush : Flush)
    (upsertMetadata : List InsightsMetadata) : InsightsCollectionService :=
  let cachedMetadata := upsertMetadata.foldl
    (fun cached metadata => cached.set metadata.workflowId metadata) service.cachedMetadata
  let stage := match rawInsights cachedMetadata (service.batch flush) with
    | some events => SaveStage.insert events
    | none => .failed
  { service with cachedMetadata }.setStage number flush stage

/-- `catch` and `finally` of a flush. -/
def settle (service : InsightsCollectionService) (number : ℕ) (flush : Flush) :
    InsightsCollectionService :=
  let restored :=
    if flush.stage = .failed then
      { service with
        bufferedInsights := flush.bufferedInsightsToFlush.foldl .add service.bufferedInsights }
    else service
  { restored.scheduleFlushing with flushesInProgress := service.flushesInProgress.delete number }

/-- The continuation of a flush in progress. -/
def onFlush (service : InsightsCollectionService) (number : ℕ)
    (continuation : Flush → Except Unit InsightsCollectionService) :
    Except Unit InsightsCollectionService :=
  match service.flushesInProgress.get? number with
  | some flush => continuation flush
  | none => .error ()

/-- An event that cannot happen in the state is an error. -/
def step (flushBatchSize : ℕ) (service : InsightsCollectionService) :
    InsightsEvent → Except Unit InsightsCollectionService
  | .init => .ok service.init
  | .workflowExecuteAfter ctx now =>
    .ok (service.handleWorkflowExecuteAfter flushBatchSize ctx now)
  | .handlerResumes handler =>
    match service.handlers[handler]? with
    | some flush =>
      if flush.any service.flushesInProgress.has then .error ()
      else
        .ok (flushIfFull flushBatchSize
          { service with handlers := service.handlers.eraseIdx handler })
    | none => .error ()
  | .timerFires =>
    if service.flushInsightsRawBufferTimer = some .pending then
      .ok (flushEvents { service with flushInsightsRawBufferTimer := some .fired }).1
    else .error ()
  | .sharedFound number sharedWorkflows =>
    service.onFlush number fun flush =>
      if flush.stage = .findShared then
        let names := workflowIdNames (service.batch flush)
        .ok (service.setStage number flush
          (.upsert (service.metadataToUpsert names sharedWorkflows)))
      else .error ()
  | .metadataUpserted number =>
    service.onFlush number fun flush =>
      match flush.stage with
      | .upsert metadata => .ok (service.setStage number flush (.findMetadata metadata))
      | _ => .error ()
  | .metadataFound number upsertMetadata =>
    service.onFlush number fun flush =>
      match flush.stage with
      | .findMetadata _ => .ok (service.saveRaw number flush upsertMetadata)
      | _ => .error ()
  | .inserted number =>
    service.onFlush number fun flush =>
      match flush.stage with
      | .insert events =>
        .ok { service.setStage number flush .saved with
          rows := service.rows ++ flush.bufferedInsightsToFlush.zip events }
      | _ => .error ()
  | .rejected number =>
    service.onFlush number fun flush =>
      if flush.stage = .saved ∨ flush.stage = .failed then .error ()
      else .ok (service.setStage number flush .failed)
  | .settled number =>
    service.onFlush number fun flush =>
      if flush.stage = .saved ∨ flush.stage = .failed then .ok (service.settle number flush)
      else .error ()
  | .shutdown =>
    let inProgress := service.flushesInProgress.keys
    let stopped := { service.stopFlushingTimer with isAsynchronouslySavingInsights := false }
    let (flushed, flush) := stopped.flushEvents
    .ok { flushed with shutdowns := flushed.shutdowns ++ [inProgress ++ flush.toList] }
  | .shutdownResolves shutdown =>
    match service.shutdowns[shutdown]? with
    | some flushes =>
      if flushes.any service.flushesInProgress.has then .error ()
      else
        .ok { service with
          isInitialized := false
          shutdowns := service.shutdowns.eraseIdx shutdown }
    | none => .error ()

end InsightsCollectionService
end N8n
