import N8n.Engine.Waiting

/-!
# Engine requests

A node may ask the engine to run other nodes, its tools, and to run it again with their
results. `handleRequest` gives every tool a run with the arguments it was called with,
and lists what has to be put on the stack : the requesting node first, then the tools. If
the requesting node was started by no other node the request is ignored.

Run data is changed before a request can fail, so what has changed is returned next to
the outcome.
-/

open Lib

namespace N8n

variable {J : Type}

structure EngineRequest (J : Type) where
  actions : List (EngineAction J)

/-- What `addNodeToBeExecuted` is called with for a node of a request. -/
structure NodeToBeExecuted (J : Type) where
  inputConnectionData : IConnection
  parentOutputIndex : ℕ
  parentNode : String
  /-- `none` for `undefined`. -/
  parentOutputData : Option (List (Slot (Items J)))
  runIndex : ℕ
  nodeRunIndex : ℕ
  metadata : Option (ITaskMetadata J) := none

/-- What a request changes : the run data, and the connection type each node's output is
logged under. -/
structure RequestState (J : Type) where
  runData : IRunData J
  rewireOutputLogTo : OrderedMap String NodeConnectionType := ∅

def buildParentOutputData (json : J) (parentRunIndex parentOutputIndex : ℕ)
    (parentSourceNode : String) : List (Slot (Items J)) :=
  [.val [{
    json
    pairedItem := some (.single {
      item := parentRunIndex
      input := some parentOutputIndex
      sourceOverwrite := some {
        previousNode := parentSourceNode
        previousNodeOutput := some parentOutputIndex
        previousNodeRun := some parentRunIndex } }) }]]

/-- A name that is there and not empty. -/
def truthyName (name : Option String) : Option String := name.filter (· ≠ "")

/-- Give the node a run that shows its input; the result is the index of the run. -/
def initializeNodeRunData (runData : IRunData J) (nodeName parentNode : String)
    (parentOutputIndex parentRunIndex : ℕ) (parentNodeName : Option String) (runIndex : ℕ)
    (displayOutputData : List (Slot (Items J))) : IRunData J × ℕ :=
  let nodeRunData := (runData.get? nodeName).getD []
  let sourceData : ISourceData :=
    { previousNode := parentNode
      previousNodeOutput := some parentOutputIndex
      previousNodeRun := some (if (truthyName parentNodeName).isSome then parentRunIndex
        else runIndex) }
  let taskData : ITaskData J :=
    { inputOverride := some
        ((∅ : ITaskDataConnections J).set .aiTool displayOutputData)
      source := [.val sourceData] }
  (runData.set nodeName (nodeRunData ++ [taskData]), nodeRunData.length)

/-- `executionData.source?.main?.[index]` -/
def IExecuteData.mainSource? (executionData : IExecuteData J) (index : ℕ) : Option ISourceData := do
  let main ← (← executionData.source).get? .main
  (readAt main index).toOption

/-- `executionData.data.main?.[0]?.[itemIndex]` -/
def IExecuteData.mainItem? (executionData : IExecuteData J) (itemIndex : ℕ) :
    Option (INodeExecutionData J) := do
  let main ← executionData.data.get? .main
  let items ← (readAt main 0).toOption
  items[itemIndex]?

section Request

variable [DataObject J] (currentNode : INode) (runIndex : ℕ) (executionData : IExecuteData J)

/-- The item a tool is called with : the item of the agent, the arguments and the call. -/
def mergedJson (action : EngineAction J) : J :=
  let agentInputData := executionData.mainItem? (action.itemIndex.getD 0)
  DataObject.assign (DataObject.assign ((agentInputData.map (·.json)).getD DataObject.empty)
    action.input) (DataObject.ofToolCallId action.id)

/-- The node to be executed for an action, and its run. -/
def prepareAction (action : EngineAction J) (nodeName : String) (st : RequestState J) :
    RequestState J × NodeToBeExecuted J × SubNodeExecutionDataAction J :=
  let parentSourceData := executionData.mainSource? runIndex
  let defaultParentOutputIndex := (parentSourceData.bind (·.previousNodeOutput)).getD 0
  let defaultParentSourceNode := (parentSourceData.map (·.previousNode)).getD currentNode.name
  let parentNode := action.parentNodeName.getD currentNode.name
  let hasParentNodeName := (truthyName action.parentNodeName).isSome
  let parentRunIndex :=
    if hasParentNodeName then ((st.runData.get? parentNode).map (·.length)).getD 1 - 1
    else (parentSourceData.bind (·.previousNodeRun)).getD 0
  let parentOutputData := buildParentOutputData (mergedJson executionData action) parentRunIndex
    defaultParentOutputIndex defaultParentSourceNode
  let displayOutputData := buildParentOutputData (DataObject.assign DataObject.empty action.input)
    parentRunIndex defaultParentOutputIndex defaultParentSourceNode
  let (runData, nodeRunIndex) := initializeNodeRunData st.runData nodeName parentNode
    defaultParentOutputIndex parentRunIndex action.parentNodeName runIndex displayOutputData
  ({ runData, rewireOutputLogTo := st.rewireOutputLogTo.set nodeName action.type },
    { inputConnectionData := { type := action.type, node := action.nodeName, index := 0 }
      parentOutputIndex := 0
      parentNode
      parentOutputData
      runIndex := if hasParentNodeName then parentRunIndex else runIndex
      nodeRunIndex
      metadata := some {
        preserveSourceOverwrite := true
        preservedSourceOverwrite := some
          ((executionData.metadata.bind (·.preservedSourceOverwrite)).getD {
            previousNode := defaultParentSourceNode
            previousNodeOutput := some defaultParentOutputIndex
            previousNodeRun := some parentRunIndex }) } },
    { action, nodeName := action.nodeName, runIndex := nodeRunIndex })

/-- The loop over the actions; it stops at an action on a node the workflow does not have. -/
def prepareRequestedNodesForExecution (workflow : Workflow) :
    List (EngineAction J) → RequestState J →
      RequestState J × Except EngineError
        (List (NodeToBeExecuted J) × List (SubNodeExecutionDataAction J))
  | [], st => (st, .ok ([], []))
  | action :: rest, st =>
    match workflow.getNode action.nodeName with
    | none => (st, .error (.unexpectedError
        s!"Workflow does not contain a node with the name of \"{action.nodeName}\"."))
    | some node =>
      let (st, nodeToBeExecuted, subNode) :=
        prepareAction currentNode runIndex executionData action node.name st
      let (st, prepared) := prepareRequestedNodesForExecution workflow rest st
      (st, prepared.map fun (nodes, subNodes) => (nodeToBeExecuted :: nodes, subNode :: subNodes))

/-- How the requesting node resumes; `none` if no node started it. -/
def prepareRequestingNodeForResuming (executionNode : INode) :
    Option (IConnection × String × ITaskMetadata J) := do
  let parentNode ← truthyName ((executionData.mainSource? 0).map (·.previousNode))
  let metadata : ITaskMetadata J :=
    match executionData.metadata with
    | none => {}
    | some metadata =>
      if metadata.preservedSourceOverwrite.isSome && metadata.preserveSourceOverwrite then
        { preserveSourceOverwrite := true
          preservedSourceOverwrite := metadata.preservedSourceOverwrite }
      else {}
  return ({ type := .aiTool, node := executionNode.name, index := 0 }, parentNode, metadata)

/-- The nodes a request puts on the stack, and what it has changed by then. -/
def handleRequest (workflow : Workflow) (request : EngineRequest J) (st : RequestState J) :
    RequestState J × Except EngineError (List (NodeToBeExecuted J)) :=
  let (st, prepared) := prepareRequestedNodesForExecution currentNode runIndex executionData
    workflow request.actions st
  (st, prepared.map fun (nodesToBeExecuted, subNodeExecutionData) =>
    match prepareRequestingNodeForResuming executionData currentNode with
    | none => []
    | some (connectionData, parentNode, metadata) =>
      { inputConnectionData := connectionData
        parentOutputIndex := 0
        parentNode
        parentOutputData := executionData.data.get? .main
        runIndex
        nodeRunIndex := runIndex
        metadata := some { metadata with
          nodeWasResumed := true
          subNodeExecutionData := some subNodeExecutionData } } :: nodesToBeExecuted)

end Request

end N8n
