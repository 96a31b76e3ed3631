import N8n.Agents.AgentMessageList
import N8n.Lib.OrderedMap

/-!
# The tool calls of an agent's turn

The calls of a turn are executed in batches. A call may suspend : it is kept as pending then, with
the calls of the later batches, which are not executed. The run is resumed with data for one of
the pending calls. Calls that are suspended stay pending, and those that were not executed are
executed as at first; a call that is cancelled settles all the others.

What a tool does is an answer of its handler, chosen anew in each round (`ToolRound`), and so are
the tools. Values are opaque, and what the runtime computes from them is part of the executor. The
calls of a batch run concurrently, but each changes the list at its own block, so they are run one
after the other. Aborts, events, telemetry and the counting of calls are left out.
-/

open Lib

namespace N8n

/-! ## Tools and calls -/

inductive ToolCallFailure (E : Type) where
  | error (message : String)
  | thrown (error : E)
  deriving DecidableEq, Repr

/-- What a schema makes of a value. -/
inductive ParseResult (V E : Type) where
  | success (data : V)
  | failure (error : String)
  | throws (error : E)

inductive HandlerAnswer (V E : Type) where
  | returns (output : V)
  | suspends (payload : V)
  | throws (error : E)

/-- `maxChildren` is the policy of an inline delegate. The schema of resume data is known by its
JSON schema, unless its conversion throws. -/
structure BuiltTool (V E M : Type) where
  maxChildren : Option ℕ := none
  handleCancellation : Bool := false
  inputSchema : Option (V → ParseResult V E) := none
  suspendSchema : Option (V → ParseResult V E) := none
  resumeSchema : Option (Except E (Option V)) := none
  toModelOutput : Option (V → Except E V) := none
  toMessage : Option (V → Except E (Option M)) := none
  maxChildren_pos : maxChildren ≠ some 0 := by decide

structure ToolResultEntry (V : Type) where
  tool : String
  input : V
  output : V
  transformed : Bool
  canceled : Bool := false
  deriving DecidableEq, Repr

structure ToolCallSuccess (I V M : Type) where
  toolCallId : I
  toolName : String
  input : V
  toolEntry : ToolResultEntry V
  modelOutput : V
  customMessage : Option M := none
  deriving DecidableEq, Repr

structure ToolCallSuspension (I V : Type) where
  toolCallId : I
  toolName : String
  input : V
  payload : Option V
  resumeSchema : Option V
  deriving DecidableEq, Repr

structure ToolCallError (I V E : Type) where
  toolCallId : I
  toolName : String
  input : V
  error : ToolCallFailure E
  deriving DecidableEq, Repr

structure PendingToolCall (I V : Type) where
  suspended : Bool
  toolCallId : I
  toolName : String
  input : V
  suspendPayload : Option V := none
  resumeSchema : Option V := none
  deriving DecidableEq, Repr

structure ToolCall (I V : Type) where
  toolCallId : I
  toolName : String
  input : V
  providerExecuted : Bool := false
  deriving DecidableEq, Repr

/-- What the block of a settled call has. -/
inductive ToolCallResult (V E : Type) where
  | resolved (output : V) (canceled : Bool)
  | rejected (error : ToolCallFailure E)
  deriving DecidableEq, Repr

inductive ToolCallOutcome (V E M : Type) where
  | success (toolEntry : ToolResultEntry V) (modelOutput : V) (customMessage : Option M)
  | suspended (payload : V) (resumeSchema : V)
  | cancelled (toolEntry : ToolResultEntry V) (modelOutput : V) (userMessage : String)
  | error (error : ToolCallFailure E)
  /-- The call was settled before. -/
  | noop

/-- The concurrency is `none` when it is not limited. -/
structure ToolCallExecutor (V E : Type) where
  concurrency : Option ℕ
  normalizeToolInputForModel : V → Except String V
  emptyInput : V
  toJsonValue : V → Except E V
  /-- The message of a cancellation. -/
  isCancellation : V → Option String
  ofString : String → V
  concurrency_pos : concurrency ≠ some 0 := by decide

/-- The tools of a round, and what the handler of the tool does for each call. -/
structure ToolRound (I V E M : Type) where
  toolMap : String → Option (BuiltTool V E M)
  handler : I → HandlerAnswer V E

/-- The list, and the calls whose handlers were run, one after the other. -/
structure ToolCallWorld (I V E : Type) where
  list : AgentMessageList I (ToolCallResult V E)
  handled : List I := []

namespace ToolCallExecutor

variable {I V E M : Type} (executor : ToolCallExecutor V E)

/-! ## Batches -/

def DELEGATE_SUB_AGENT_TOOL_NAME : String := "delegate_subagent"

def DEFAULT_SUB_AGENT_MAX_CHILDREN : ℕ := 10

def isDelegateSubAgentCall (toolName : String) : Bool := toolName = DELEGATE_SUB_AGENT_TOOL_NAME

/-- It is `none` when there is no limit. -/
def getToolCallBatchSize (toolMap : String → Option (BuiltTool V E M)) (toolName : String) :
    Option ℕ :=
  if isDelegateSubAgentCall toolName then
    some (((toolMap toolName).bind (·.maxChildren)).getD DEFAULT_SUB_AGENT_MAX_CHILDREN)
  else executor.concurrency

/-- The batch that begins with the first call, and its size is not zero : the calls that follow
the first and are in its batch. -/
def takeNextToolCallBatch (toolMap : String → Option (BuiltTool V E M)) (first : ToolCall I V)
    (rest : List (ToolCall I V)) : List (ToolCall I V) :=
  let isDelegateBatch := isDelegateSubAgentCall first.toolName
  let candidates :=
    match executor.getToolCallBatchSize toolMap first.toolName with
    | none => rest
    | some batchSize => rest.take (batchSize - 1)
  candidates.takeWhile fun candidate =>
    isDelegateSubAgentCall candidate.toolName = isDelegateBatch

/-- All batches. There are no more of them than calls. -/
def toolCallBatches (toolMap : String → Option (BuiltTool V E M)) :
    ℕ → List (ToolCall I V) → List (List (ToolCall I V))
  | 0, _ => []
  | _ + 1, [] => []
  | n + 1, first :: rest =>
    let batch := executor.takeNextToolCallBatch toolMap first rest
    (first :: batch) :: toolCallBatches toolMap n (rest.drop batch.length)

variable [DecidableEq I]

/-! ## One call -/

section

variable (round : ToolRound I V E M) (world : ToolCallWorld I V E) (toolCallId : I)
  (toolName : String) (input : V)

def setToolCallResult (output : V) (canceled : Bool) : ToolCallWorld I V E :=
  { world with
    list := world.list.setToolCallState toolCallId (.settled (.resolved output canceled)) }

def setToolCallError (error : ToolCallFailure E) : ToolCallWorld I V E :=
  { world with list := world.list.setToolCallState toolCallId (.settled (.rejected error)) }

/-- The promise of `processToolCall` may be rejected, which is an error here. -/
abbrev ToolCallStep (I V E M : Type) :=
  ToolCallWorld I V E × Except (ToolCallFailure E) (ToolCallOutcome V E M)

def toolError (error : ToolCallFailure E) : ToolCallStep I V E M :=
  (setToolCallError world toolCallId error, .ok (.error error))

def buildCancelledOutcome (userMessage : String) : ToolCallStep I V E M :=
  let modelOutput :=
    executor.ofString ("[Tool call cancelled. User said: \"" ++ userMessage ++ "\"]")
  (setToolCallResult world toolCallId modelOutput true,
    .ok (.cancelled
      { tool := toolName, input := input, output := modelOutput, transformed := false
        canceled := true }
      modelOutput userMessage))

def buildSuspendedOutcome (tool : BuiltTool V E M) (payload : V) : ToolCallStep I V E M :=
  match (tool.suspendSchema.map fun parse => parse payload).getD (.success payload) with
  | .throws error => (world, .error (.thrown error))
  | .failure error =>
    toolError world toolCallId (.error ("Invalid suspend payload: " ++ error))
  | .success payload =>
    match tool.resumeSchema with
    | none =>
      toolError world toolCallId (.error ("Tool " ++ toolName ++ " has no resume schema"))
    | some (.error error) => (world, .error (.thrown error))
    | some (.ok none) => toolError world toolCallId (.error "Invalid resume schema")
    | some (.ok (some resumeSchema)) => (world, .ok (.suspended payload resumeSchema))

/-- A transform of the output that throws is an error of the tool. What comes after it is not
guarded. -/
def buildSuccessOutcome (tool : BuiltTool V E M) (toolResult : V) : ToolCallStep I V E M :=
  match (tool.toModelOutput.map fun transform => transform toolResult).getD (.ok toolResult) with
  | .error error => toolError world toolCallId (.thrown error)
  | .ok modelResult =>
    match executor.toJsonValue modelResult with
    | .error error => (world, .error (.thrown error))
    | .ok output =>
      let world := setToolCallResult world toolCallId output false
      match (tool.toMessage.map fun toMessage => toMessage toolResult).getD (.ok none) with
      | .error error => (world, .error (.thrown error))
      | .ok customMessage =>
        let world :=
          if customMessage.isSome then { world with list := world.list.addMessage true } else world
        (world,
          .ok (.success
            { tool := toolName, input := input, output := toolResult
              transformed := tool.toModelOutput.isSome }
            modelResult customMessage))

/-- The handler of the tool is run on an input that was validated. -/
def runTool (tool : BuiltTool V E M) : ToolCallStep I V E M :=
  let world := { world with handled := world.handled ++ [toolCallId] }
  match round.handler toolCallId with
  | .throws error => toolError world toolCallId (.thrown error)
  | .suspends payload => buildSuspendedOutcome world toolCallId toolName tool payload
  | .returns toolResult =>
    executor.buildSuccessOutcome world toolCallId toolName input tool toolResult

/-- `resumeData` is absent unless the call is resumed. -/
def processToolCall (resumeData : Option V) : ToolCallStep I V E M :=
  match round.toolMap toolName with
  | none => toolError world toolCallId (.error ("Tool " ++ toolName ++ " not found"))
  | some tool =>
    match world.list.findSettledToolCall toolCallId with
    | some _ => (world, .ok .noop)
    | none =>
      match resumeData.bind executor.isCancellation, tool.handleCancellation with
      | some userMessage, false =>
        executor.buildCancelledOutcome world toolCallId toolName input userMessage
      | _, _ =>
        match (tool.inputSchema.map fun parse => parse input).getD (.success input) with
        | .throws error => (world, .error (.thrown error))
        | .failure error =>
          toolError world toolCallId (.error ("Invalid tool input: " ++ error))
        | .success input => executor.runTool round world toolCallId toolName input tool

end

/-! ## Rounds -/

variable (I V E M) in
structure ToolCallBatchResult where
  results : List (ToolCallSuccess I V M) := []
  suspensions : List (ToolCallSuspension I V) := []
  errors : List (ToolCallError I V E) := []
  pending : OrderedMap I (PendingToolCall I V) := .empty

variable (round : ToolRound I V E M)

/-- A round and what it has so far. -/
structure RoundState (I V E M : Type) where
  world : ToolCallWorld I V E
  batch : ToolCallBatchResult I V E M

/-- The calls of a batch are processed. -/
def processBatch (world : ToolCallWorld I V E) : List (ToolCall I V) →
    ToolCallWorld I V E ×
      List (ToolCall I V × Except (ToolCallFailure E) (ToolCallOutcome V E M))
  | [] => (world, [])
  | tc :: calls =>
    let (world, outcome) :=
      executor.processToolCall round world tc.toolCallId tc.toolName tc.input none
    let (world, settledResults) := processBatch world calls
    (world, (tc, outcome) :: settledResults)

/-- What is recorded of a call in a batch. -/
def recordOutcome (s : RoundState I V E M)
    (result : ToolCall I V × Except (ToolCallFailure E) (ToolCallOutcome V E M)) :
    RoundState I V E M :=
  let tc := result.1
  match result.2 with
  | .error reason =>
    { world := setToolCallError s.world tc.toolCallId reason
      batch := { s.batch with
        errors := s.batch.errors ++
          [{ toolCallId := tc.toolCallId, toolName := tc.toolName, input := tc.input
             error := reason }] } }
  | .ok (.suspended payload resumeSchema) =>
    { s with
      batch := { s.batch with
        suspensions := s.batch.suspensions ++
          [{ toolCallId := tc.toolCallId, toolName := tc.toolName, input := tc.input
             payload := some payload, resumeSchema := some resumeSchema }]
        pending := s.batch.pending.set tc.toolCallId
          { suspended := true, toolCallId := tc.toolCallId, toolName := tc.toolName
            input := tc.input, suspendPayload := some payload
            resumeSchema := some resumeSchema } } }
  | .ok (.success toolEntry modelOutput customMessage) =>
    { s with
      batch := { s.batch with
        results := s.batch.results ++
          [{ toolCallId := tc.toolCallId, toolName := tc.toolName, input := tc.input
             toolEntry := toolEntry, modelOutput := modelOutput
             customMessage := customMessage }] } }
  | .ok (.error error) =>
    { s with
      batch := { s.batch with
        errors := s.batch.errors ++
          [{ toolCallId := tc.toolCallId, toolName := tc.toolName, input := tc.input
             error := error }] } }
  | .ok (.cancelled ..) | .ok .noop => s

/-- A call that was not executed. -/
def addUnexecuted (s : RoundState I V E M) (tc : ToolCall I V) : RoundState I V E M :=
  { s with
    batch := { s.batch with
      pending := s.batch.pending.set tc.toolCallId
        { suspended := false, toolCallId := tc.toolCallId, toolName := tc.toolName
          input := tc.input } } }

def isSuspension
    (result : ToolCall I V × Except (ToolCallFailure E) (ToolCallOutcome V E M)) : Bool :=
  match result.2 with
  | .ok (.suspended ..) => true
  | _ => false

/-- The loop over the batches. When a call has suspended, those of the batches left are not
executed. -/
def runBatches (s : RoundState I V E M) : List (List (ToolCall I V)) → RoundState I V E M
  | [] => s
  | batch :: batches =>
    let (world, settledResults) := executor.processBatch round s.world batch
    let s := settledResults.foldl recordOutcome { s with world := world }
    if settledResults.any isSuspension then batches.flatten.foldl addUnexecuted s
    else runBatches s batches

/-- The first loop, over all calls : one whose input is no object is an error, the others are
executed when their inputs are normalized. -/
def normalizeCall (s : RoundState I V E M × List (ToolCall I V)) (toolCall : ToolCall I V) :
    RoundState I V E M × List (ToolCall I V) :=
  match executor.normalizeToolInputForModel toolCall.input with
  | .error message =>
    ({ world := setToolCallError s.1.world toolCall.toolCallId (.error message)
       batch := { s.1.batch with
         errors := s.1.batch.errors ++
           [{ toolCallId := toolCall.toolCallId, toolName := toolCall.toolName
              input := executor.emptyInput, error := .error message }] } }, s.2)
  | .ok input => (s.1, s.2 ++ [{ toolCall with input := input }])

def iterateToolCallsConcurrent (world : ToolCallWorld I V E) (toolCalls : List (ToolCall I V)) :
    RoundState I V E M :=
  let (s, runtimeToolCalls) := toolCalls.foldl executor.normalizeCall ({ world, batch := {} }, [])
  let executableCalls := runtimeToolCalls.filter fun tc => !tc.providerExecuted
  executor.runBatches round s
    (executor.toolCallBatches round.toolMap executableCalls.length executableCalls)

def skippedText : String := "[Skipped: a sibling tool call was cancelled]"

/-- A sibling of a call that was cancelled. -/
def skipSibling (s : RoundState I V E M) (sibling : I × PendingToolCall I V) :
    RoundState I V E M :=
  let modelOutput := executor.ofString skippedText
  { world := setToolCallResult s.world sibling.1 modelOutput true
    batch := { s.batch with
      results := s.batch.results ++
        [{ toolCallId := sibling.2.toolCallId, toolName := sibling.2.toolName
           input := sibling.2.input
           toolEntry :=
             { tool := sibling.2.toolName, input := sibling.2.input, output := modelOutput
               transformed := false, canceled := true }
           modelOutput := modelOutput }] } }

/-- A call that is suspended stays so. -/
def carryForward (batch : ToolCallBatchResult I V E M) (entry : I × PendingToolCall I V) :
    ToolCallBatchResult I V E M :=
  { batch with
    pending := batch.pending.set entry.1 entry.2
    suspensions := batch.suspensions ++
      [{ toolCallId := entry.1, toolName := entry.2.toolName, input := entry.2.input
         payload := entry.2.suspendPayload, resumeSchema := entry.2.resumeSchema }] }

/-- What a round of some of the calls has is added. -/
def mergeBatch (batch next : ToolCallBatchResult I V E M) : ToolCallBatchResult I V E M :=
  { results := batch.results ++ next.results
    suspensions := batch.suspensions ++ next.suspensions
    errors := batch.errors ++ next.errors
    pending := next.pending.entries.foldl (fun pending e => pending.set e.1 e.2) batch.pending }

/-- The entries of `pending` other than the one resumed : those suspended are carried forward, and
the others executed as at first. -/
def processRemaining (s : RoundState I V E M) (remaining : List (I × PendingToolCall I V)) :
    RoundState I V E M :=
  let carried := (remaining.filter (·.2.suspended)).foldl carryForward s.batch
  let unexecuted : List (ToolCall I V) := (remaining.filter fun e => !e.2.suspended).map fun e =>
    { toolCallId := e.1, toolName := e.2.toolName, input := e.2.input }
  if unexecuted.isEmpty then { s with batch := carried }
  else
    let next := executor.iterateToolCallsConcurrent round s.world unexecuted
    { world := next.world, batch := mergeBatch carried next.batch }

/-- What is recorded of the call that is resumed, and whether it was cancelled. -/
def recordResumed (world : ToolCallWorld I V E) (id : I) (entry : PendingToolCall I V) :
    ToolCallOutcome V E M → RoundState I V E M
  | .suspended payload resumeSchema =>
    { world := world
      batch :=
        { pending := OrderedMap.empty.set id
            { entry with
              suspended := true
              suspendPayload := some payload
              resumeSchema := some resumeSchema }
          suspensions :=
            [{ toolCallId := id, toolName := entry.toolName, input := entry.input
               payload := some payload, resumeSchema := some resumeSchema }] } }
  | .success toolEntry modelOutput customMessage =>
    { world := world
      batch :=
        { results :=
            [{ toolCallId := entry.toolCallId, toolName := entry.toolName, input := entry.input
               toolEntry := toolEntry, modelOutput := modelOutput
               customMessage := customMessage }] } }
  | .cancelled toolEntry modelOutput _ =>
    { world := { world with list := world.list.addMessage false }
      batch :=
        { results :=
            [{ toolCallId := entry.toolCallId, toolName := entry.toolName, input := entry.input
               toolEntry := toolEntry, modelOutput := modelOutput }] } }
  | .error error =>
    { world := world
      batch :=
        { errors :=
            [{ toolCallId := entry.toolCallId, toolName := entry.toolName, input := entry.input
               error := error }] } }
  | .noop => { world := world, batch := {} }

def isCancelled : ToolCallOutcome V E M → Bool
  | .cancelled .. => true
  | _ => false

/-- The promise is rejected when that of the resumed call is, and nothing is returned. -/
def iteratePendingToolCallsConcurrent (world : ToolCallWorld I V E)
    (pendingToolCalls : OrderedMap I (PendingToolCall I V)) (resumedId : I)
    (entry : PendingToolCall I V) (resumeData : V) :
    ToolCallWorld I V E × Option (ToolCallBatchResult I V E M) :=
  let (world, processResult) := executor.processToolCall round world entry.toolCallId
    entry.toolName entry.input (some resumeData)
  match processResult with
  | .error _ => (world, none)
  | .ok outcome =>
    let s : RoundState I V E M := recordResumed world resumedId entry outcome
    let remaining := pendingToolCalls.entries.filter fun e => e.1 ≠ resumedId
    let s :=
      if isCancelled outcome then remaining.foldl executor.skipSibling s
      else executor.processRemaining round s remaining
    (s.world, some s.batch)

end ToolCallExecutor

/-! ## Runs of rounds -/

open ToolCallExecutor

/-- The pending calls that the last round returned, and the calls reported by all rounds in
results or errors. -/
structure ToolCallRun (I V E : Type) where
  world : ToolCallWorld I V E
  started : Bool := false
  pending : OrderedMap I (PendingToolCall I V) := .empty
  reported : List I := []

inductive ToolCallRunEvent (I V E M : Type) where
  | iterate (round : ToolRound I V E M)
  | resume (round : ToolRound I V E M) (resumeToolCallId : I) (resumeData : V)

namespace ToolCallRun

variable {I V E M : Type} [DecidableEq I] (executor : ToolCallExecutor V E)
  (toolCalls : List (ToolCall I V)) (s : ToolCallRun I V E)

omit [DecidableEq I] in
/-- The calls in the results and errors of a round. -/
def reportedBy (batch : ToolCallBatchResult I V E M) : List I :=
  batch.results.map (·.toolCallId) ++ batch.errors.map (·.toolCallId)

omit [DecidableEq I] in
def returned (world : ToolCallWorld I V E) (batch : ToolCallBatchResult I V E M) :
    ToolCallRun I V E :=
  { world := world
    started := true
    pending := batch.pending
    reported := s.reported ++ reportedBy batch }

/-- A round that cannot happen is an error. One that throws leaves no pending calls. -/
def step : ToolCallRunEvent I V E M → Except Unit (ToolCallRun I V E)
  | .iterate round =>
    if s.started then .error ()
    else
      let next := executor.iterateToolCallsConcurrent round s.world toolCalls
      .ok (s.returned next.world next.batch)
  | .resume round resumeToolCallId resumeData =>
    match s.pending.get? resumeToolCallId with
    | none => .error ()
    | some entry =>
      match executor.iteratePendingToolCallsConcurrent round s.world s.pending resumeToolCallId
          entry resumeData with
      | (world, some batch) => .ok (s.returned world batch)
      | (world, none) => .ok { s with world := world, pending := .empty }

/-- A call is pending, or settled and reported once. -/
def Accounted (toolCallId : I) : Prop :=
  toolCallId ∈ s.pending.keys ∧ ¬s.world.list.IsSettled toolCallId ∨
    toolCallId ∉ s.pending.keys ∧ s.world.list.IsSettled toolCallId ∧
      s.reported.count toolCallId = 1

/-- After each round every call that the provider does not execute is pending, or settled and
reported once. -/
def Conserves : Prop :=
  s.started = true → ∀ tc ∈ toolCalls, tc.providerExecuted = false → s.Accounted tc.toolCallId

/-! ## Rounds that throw -/

/-- The answer of the handler makes the call throw what nothing catches : the conversion of its
schemas, or what comes after the transform of its output. -/
def answerThrows (tool : BuiltTool V E M) : HandlerAnswer V E → Bool
  | .throws _ => false
  | .suspends payload =>
    match (tool.suspendSchema.map fun parse => parse payload).getD (.success payload) with
    | .throws _ => true
    | .failure _ => false
    | .success _ =>
      match tool.resumeSchema with
      | some (.error _) => true
      | _ => false
  | .returns toolResult =>
    match (tool.toModelOutput.map fun transform => transform toolResult).getD
        (.ok toolResult) with
    | .error _ => false
    | .ok modelResult =>
      match executor.toJsonValue modelResult,
          (tool.toMessage.map fun toMessage => toMessage toolResult).getD (.ok none) with
      | .ok _, .ok _ => false
      | _, _ => true

/-- The call throws what nothing catches. It does not when it is cancelled by the runtime, or its
input is invalid. -/
def throwsUncaught (tool : BuiltTool V E M) (input resumeData : V)
    (answer : HandlerAnswer V E) : Bool :=
  !((executor.isCancellation resumeData).isSome && !tool.handleCancellation) &&
    match (tool.inputSchema.map fun parse => parse input).getD (.success input) with
    | .throws _ => true
    | .failure _ => false
    | .success _ => answerThrows executor tool answer

/-- The call that is resumed throws nothing that is not caught. -/
def catchesAll : ToolCallRunEvent I V E M → Bool
  | .iterate _ => true
  | .resume round resumeToolCallId resumeData =>
    (s.pending.get? resumeToolCallId).all fun entry =>
      (round.toolMap entry.toolName).all fun tool =>
        !throwsUncaught executor tool entry.input resumeData (round.handler entry.toolCallId)

end ToolCallRun

end N8n
