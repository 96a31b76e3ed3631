import N8n.Engine.EngineRequest

/-!
# Running one node

What an iteration of the execution loop does between taking an item from the stack and
having the output of its node : it pairs the input items, checks that there is data for
the inputs, and calls `runNode` until it succeeds or there is no try left.

`runNode` itself is not modelled. Its results are a sequence, the `k`th one for the `k`th
call; they are what is left after binary data has been converted and failed items have
been moved to the error output.
-/

open Lib

namespace N8n

variable {J : Type}

/-- What stays the same during an execution. -/
structure LoopConfig (J : Type) where
  workflow : Workflow
  runNodeFilter : Option (List String) := none
  destinationNode : Option String := none
  pinData : IPinData J := ∅

structure LoopState (J : Type) extends ExecutionState J where
  rewireOutputLogTo : OrderedMap String NodeConnectionType := ∅
  lastExecutionTry : String := ""
  lastNodeExecuted : Option String := none
  waitTill : Bool := false
  executionError : Option String := none

/-- Change the waiting nodes and the stack. -/
def LoopState.modify (st : LoopState J)
    (f : ExecutionState J → Except EngineError (ExecutionState J)) :
    Except EngineError (LoopState J) := do
  return { st with toExecutionState := ← f st.toExecutionState }

/-- How an iteration ends. -/
inductive Exit where
  /-- The execution was canceled before it. -/
  | canceled
  /-- The node is not in `runNodeFilter`. -/
  | filtered
  /-- Data is missing; the item is back on the stack. -/
  | inputMissing
  /-- The node asked for other nodes. -/
  | engineRequest
  /-- The node returned `null`. -/
  | noOutput
  | nodeError
  | waitTill
  /-- The destination node got executed. -/
  | destination
  /-- The iteration ran to its end. -/
  | completed
  deriving DecidableEq, Repr

/-- The loop is left whatever is on the stack. -/
def Exit.breaks : Exit → Bool
  | canceled | nodeError | waitTill => true
  | _ => false

/-! ## The input of the node -/

def resolveSourceOverwrite (item : INodeExecutionData J) (executionData : IExecuteData J) :
    Option ISourceData :=
  match executionData.metadata with
  | none => none
  | some metadata =>
    if !metadata.preserveSourceOverwrite then none
    else if metadata.preservedSourceOverwrite.isSome then metadata.preservedSourceOverwrite
    else match item.pairedItem with
      | some (.single pairedItem) => pairedItem.sourceOverwrite
      | _ => none

/-- The items of one input, each paired with its own position. -/
def pairInput (executionData : IExecuteData J) (inputIndex : ℕ) :
    Slot (Items J) → Except EngineError (Slot (Items J))
  | .undefined => .error .typeError
  | .val input => .ok (.val (input.zipIdx.map fun (item, itemIndex) => { item with
      pairedItem := some (.single {
        item := itemIndex
        input := if inputIndex = 0 then none else some inputIndex
        sourceOverwrite := resolveSourceOverwrite item executionData }) }))
  | slot => .ok slot

/-- The input data with updated paired items. -/
def newTaskDataConnections (executionData : IExecuteData J) :
    Except EngineError (ITaskDataConnections J) :=
  executionData.data.entries.foldlM (fun connections (connectionType, inputs) => do
    let inputs ← inputs.zipIdx.mapM fun (input, inputIndex) =>
      pairInput executionData inputIndex input
    return connections.set connectionType inputs) ∅

/-- The index of the current run of the node. -/
def currentRunIndex (executionData : IExecuteData J) (nodeName : String) (runData : IRunData J) :
    ℕ :=
  executionData.runIndex.getD (((runData.get? nodeName).map (·.length)).getD 0)

/-- Whether there is data for these inputs of the node. -/
def hasDataForInputs (workflow : Workflow) (nodeName : String) (data : ITaskDataConnections J) :
    List ℕ → Bool
  | [] => true
  | connectionIndex :: rest =>
    if workflow.getHighestNode nodeName (some connectionIndex) = [] then true
    else match data.get? .main with
      | none => false
      | some main =>
        if workflow.isLegacyExecutionOrder && (main.length < connectionIndex ||
            (main.getD connectionIndex .hole).isNull) then false
        else hasDataForInputs workflow nodeName data rest

/-- Whether the node can be executed; if not, its item is put back on the stack. -/
def ensureInputData (workflow : Workflow) (executionNode : INode) (executionData : IExecuteData J)
    (st : LoopState J) : LoopState J × Bool :=
  if hasDataForInputs workflow executionNode.name executionData.data
      (List.range (workflow.numberOfInputs executionNode.name)) then (st, true)
  else ({ st with nodeExecutionStack := st.nodeExecutionStack ++ [executionData] }, false)

/-! ## Engine requests -/

def NodeToBeExecuted.toDelivery (nodeData : NodeToBeExecuted J) :
    Except EngineError (Delivery J) := do
  let parentOutputData ← orTypeError nodeData.parentOutputData
  return {
    connectionData := nodeData.inputConnectionData
    outputIndex := nodeData.parentOutputIndex
    parentNodeName := nodeData.parentNode
    nodeSuccessData := some parentOutputData
    runIndex := nodeData.runIndex
    newRunIndex := some nodeData.nodeRunIndex
    metadata := nodeData.metadata }

section NodeRun

variable [DataObject J]

/-- Put the nodes of a request on the stack, up to one for which that fails. -/
def addRequestedNodes (workflow : Workflow) :
    List (NodeToBeExecuted J) → LoopState J → LoopState J × Option EngineError
  | [], st => (st, none)
  | nodeData :: rest, st =>
    match (do st.modify (addNodeToBeExecuted workflow (← nodeData.toDelivery))) with
    | .ok st => addRequestedNodes workflow rest st
    | .error e => (st, some e)

def handleEngineRequest (workflow : Workflow) (currentNode : INode) (request : EngineRequest J)
    (runIndex : ℕ) (executionData : IExecuteData J) (st : LoopState J) :
    LoopState J × Option EngineError :=
  let (changed, nodesToBeExecuted) := handleRequest currentNode runIndex executionData workflow
    request { runData := st.runData, rewireOutputLogTo := st.rewireOutputLogTo }
  let st := { st with
    runData := changed.runData
    rewireOutputLogTo := changed.rewireOutputLogTo }
  match nodesToBeExecuted with
  | .ok nodesToBeExecuted => addRequestedNodes workflow nodesToBeExecuted st
  | .error e => (st, some e)

/-! ## The output of the node -/

/-- `data?.[0]?.[0]` -/
def firstItem? (data : List (Slot (Items J))) : Option (INodeExecutionData J) :=
  (data.getD 0 .hole).toOption.bind List.head?

/-- Pair the items of the outputs up to the first that cannot be paired. -/
def pairOutputs (pair : Option (ℕ → ℕ)) :
    List (Slot (Items J)) → Except EngineError (List (Slot (Items J)))
  | [] => .ok []
  | .null :: rest => do return .null :: (← pairOutputs pair rest)
  | .val items :: rest =>
    match pair with
    | none =>
      if items.any (·.pairedItem.isNone) then .ok (.val items :: rest)
      else do return .val items :: (← pairOutputs pair rest)
    | some pair => do
      let items := items.zipIdx.map fun (item, index) =>
        if item.pairedItem.isNone then
          { item with pairedItem := some (.single { item := pair index }) }
        else item
      return .val items :: (← pairOutputs (some pair) rest)
  | _ :: _ => .error .typeError

def assignPairedItems (nodeSuccessData : List (Slot (Items J))) (executionData : IExecuteData J) :
    Except EngineError (List (Slot (Items J))) := do
  if nodeSuccessData = [] then return []
  let main ← orTypeError (executionData.data.get? .main)
  let inputLength := (main.getD 0 .hole).toOption.map List.length
  let outputLength := (nodeSuccessData.getD 0 .hole).toOption.map List.length
  let isSingleInputAndOutput := main.length = 1 ∧ inputLength = some 1
  let isSameNumberOfItems ←
    if nodeSuccessData.length = 1 ∧ main.length = 1 then do
      let outputLength ← orTypeError outputLength
      pure (inputLength = some outputLength : Bool)
    else pure false
  let isSingleOutput := nodeSuccessData.length = 1 ∧ outputLength = some 1 ∧ main.length = 1 ∧
    1 < inputLength.getD 0
  let pair : Option (ℕ → ℕ) :=
    if isSingleInputAndOutput then some fun _ => 0
    else if isSameNumberOfItems then some id
    else if isSingleOutput then some fun _ => 0
    else none
  pairOutputs pair nodeSuccessData

/-- The item a node with `alwaysOutputData` outputs when it has no other. -/
def alwaysOutputItem (main : List (Slot (Items J))) : INodeExecutionData J where
  json := DataObject.empty
  pairedItem := some (.many (main.zipIdx.flatMap fun (inputData, inputIndex) =>
    match inputData with
    | .val items => (List.range items.length).map fun itemIndex =>
        { item := itemIndex, input := some inputIndex }
    | _ => []))

/-- Make sure that a node with `alwaysOutputData` outputs an item. -/
def ensureOutput (executionData : IExecuteData J) (node : INode)
    (nodeSuccessData : Option (List (Slot (Items J)))) :
    Except EngineError (Option (List (Slot (Items J)))) :=
  if (nodeSuccessData.bind firstItem?).isNone && node.alwaysOutputData = some true then do
    let main ← orTypeError (executionData.data.get? .main)
    return some (writeAt (nodeSuccessData.getD []) 0 (.val [alwaysOutputItem main]))
  else .ok nodeSuccessData

/-! ## The tries -/

/-- What a call of `runNode` gives. -/
inductive RunResult (J : Type) where
  /-- The output, `none` for `null`, and whether the execution is put to wait. -/
  | output (data : Option (List (Slot (Items J)))) (waitTill : Bool := false)
  | request (request : EngineRequest J)
  | thrown (message : String)

/-- The first item reports an error. -/
def RunResult.failed : RunResult J → Bool
  | output data _ => (data.bind firstItem?).any fun item => DataObject.hasError item.json
  | _ => false

/-- What the tries have led to so far. -/
structure Attempt (J : Type) where
  st : LoopState J
  /-- How often `runNode` has been called. -/
  calls : ℕ := 0
  nodeSuccessData : Option (List (Slot (Items J))) := none
  executionError : Option String := none

/-- How a try ends. -/
inductive TryOutcome where
  | leave (exit : Exit)
  | done
  | thrown (message : String)

def EngineError.message : EngineError → String
  | typeError => "TypeError"
  | userError message => message
  | unexpectedError message => message
  | outOfFuel => ""

def callRunNode (results : ℕ → RunResult J) (attempt : Attempt J) : RunResult J × Attempt J :=
  let result := results attempt.calls
  let waits := match result with
    | .output _ waitTill => waitTill
    | _ => false
  (result, { attempt with
    calls := attempt.calls + 1
    st := { attempt.st with waitTill := attempt.st.waitTill || waits } })

/-- While the result is a failure and there is another try, call `runNode` again. The
first component is how many tries are left after the current one. -/
def retryFailed (results : ℕ → RunResult J) :
    ℕ → RunResult J → Attempt J → ℕ × RunResult J × Attempt J
  | 0, result, attempt => (0, result, attempt)
  | left + 1, result, attempt =>
    if !result.failed then (left + 1, result, attempt)
    else
      let (result, attempt) := callRunNode results attempt
      match result with
      | .thrown _ => (left + 1, result, attempt)
      | _ => retryFailed results left result attempt

/-- The rest of a try, once the node has given output. -/
def settleOutput (executionData : IExecuteData J) (node : INode) (attempt : Attempt J) :
    Attempt J × TryOutcome :=
  match attempt.nodeSuccessData.mapM (assignPairedItems · executionData) with
  | .error e => (attempt, .thrown e.message)
  | .ok nodeSuccessData =>
    let attempt := { attempt with
      nodeSuccessData
      st := if nodeSuccessData.isSome then
          { attempt.st with lastNodeExecuted := some node.name }
        else attempt.st }
    match ensureOutput executionData node nodeSuccessData with
    | .error e => (attempt, .thrown e.message)
    | .ok nodeSuccessData =>
      ({ attempt with nodeSuccessData },
        if nodeSuccessData.isNone && !attempt.st.waitTill then .leave .noOutput else .done)

variable (config : LoopConfig J) (executionNode : INode) (executionData : IExecuteData J)
  (runIndex : ℕ) (results : ℕ → RunResult J)

/-- The pinned data of the node, unless it is disabled. -/
def LoopConfig.nodePinData? : Option (Items J) :=
  if executionNode.disabled = some true then none else config.pinData.get? executionNode.name

/-- One try; `left` is how many tries are left after it. -/
def tryNode (left : ℕ) (attempt : Attempt J) : ℕ × Attempt J × TryOutcome :=
  match config.nodePinData? executionNode with
  | some nodePinData =>
    (left, settleOutput executionData executionNode
      { attempt with nodeSuccessData := some [.val nodePinData] })
  | none =>
    let (result, attempt) := callRunNode results attempt
    let (left, result, attempt) := retryFailed results left result attempt
    match result with
    | .thrown message => (left, attempt, .thrown message)
    | .request request =>
      let (st, error) := handleEngineRequest config.workflow executionNode request runIndex
        executionData attempt.st
      (left, { attempt with st }, match error with
        | none => .leave .engineRequest
        | some e => .thrown e.message)
    | .output data _ =>
      (left, settleOutput executionData executionNode { attempt with nodeSuccessData := data })

def maxTries : ℕ :=
  let isResumedError := (executionData.metadata.bind (·.resumeError)).isSome
  if executionNode.retryOnFail = some true ∧ !isResumedError then
    min 5 (max 2 (match executionNode.maxTries with
      | none => 3
      | some 0 => 3
      | some maxTries => maxTries))
  else 1

/-- Try until it works or `tries` tries have failed. There are at most as many rounds as
tries, since each uses up one. The second component is how the loop is left, if a try
leaves it. -/
def runTries : ℕ → ℕ → Attempt J → Attempt J × Option Exit
  | 0, _, attempt => (attempt, none)
  | _, 0, attempt => (attempt, none)
  | rounds + 1, tries + 1, attempt =>
    let (left, attempt, outcome) := tryNode config executionNode executionData runIndex results
      tries { attempt with executionError := none }
    match outcome with
    | .leave exit => (attempt, some exit)
    | .done => (attempt, none)
    | .thrown message =>
      runTries rounds left { attempt with
        executionError := some message
        st := { attempt.st with lastNodeExecuted := some executionNode.name } }

/-- Run the node of the item, as often as it may be tried. -/
def runNodeWithRetries (st : LoopState J) : Attempt J × Option Exit :=
  let tries := maxTries executionNode executionData
  runTries config executionNode executionData runIndex results tries tries { st }

end NodeRun

end N8n
