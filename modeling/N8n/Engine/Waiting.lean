import N8n.Workflow.Workflow

/-!
# Waiting for the inputs of a node

A node with several Main inputs waits in `waitingExecution` until all of them have data.
The waiting entries of a node are numbered; an entry has one slot for each input, `null`
while nothing has arrived there. `addNodeToBeExecuted` delivers data to an input : it
fills the first entry that lacks the input or creates an entry, and moves an entry without
`null` to the execution stack. `promoteWaiting` moves an incomplete entry to the stack once
nothing else is left to run.
-/

open Lib

namespace N8n

variable {J : Type}

/-- How the engine can fail. -/
inductive EngineError where
  /-- A property of `undefined` or `null` is read. -/
  | typeError
  | userError (message : String)
  | unexpectedError (message : String)
  /-- A loop takes longer than it can; never returned. -/
  | outOfFuel
  deriving DecidableEq, Repr

/-- A tool a node asks to be run. -/
structure EngineAction (J : Type) where
  nodeName : String
  input : J
  type : NodeConnectionType
  id : String
  parentNodeName : Option String := none
  itemIndex : Option ℕ := none
  deriving DecidableEq, Repr

structure SubNodeExecutionDataAction (J : Type) where
  action : EngineAction J
  nodeName : String
  runIndex : ℕ
  deriving DecidableEq, Repr

structure ITaskMetadata (J : Type) where
  subNodeExecutionData : Option (List (SubNodeExecutionDataAction J)) := none
  preserveSourceOverwrite : Bool := false
  preservedSourceOverwrite : Option ISourceData := none
  nodeWasResumed : Bool := false
  resumeError : Option String := none
  deriving DecidableEq, Repr

/-- An item of the execution stack. -/
structure IExecuteData (J : Type) where
  /-- `none` when the workflow has no node of the name. -/
  node : Option INode
  data : ITaskDataConnections J
  source : Option ITaskDataConnectionsSource := none
  runIndex : Option ℕ := none
  metadata : Option (ITaskMetadata J) := none

/-- The entries of one waiting node. -/
abbrev WaitingEntries (β : Type) := OrderedMap ℕ β

abbrev IWaitingForExecution (J : Type) :=
  OrderedMap String (WaitingEntries (ITaskDataConnections J))

abbrev IWaitingForExecutionSource := OrderedMap String (WaitingEntries ITaskDataConnectionsSource)

structure ExecutionState (J : Type) where
  runData : IRunData J := ∅
  nodeExecutionStack : List (IExecuteData J) := []
  waitingExecution : IWaitingForExecution J := ∅
  waitingExecutionSource : IWaitingForExecutionSource := ∅

/-- `value!`, where reading a property of a missing value fails. -/
def orTypeError {β : Type} : Option β → Except EngineError β
  | some x => .ok x
  | none => .error .typeError

theorem orTypeError_eq_ok {β : Type} {o : Option β} {x : β} : orTypeError o = .ok x ↔ o = some x := by
  cases o <;> simp [orTypeError]

/-! ## Entries -/

def prepareWaitingToExecution (nodeName : String) (numberOfConnections runIndex : ℕ)
    (st : ExecutionState J) : ExecutionState J :=
  let nodeWaiting := (st.waitingExecution.get? nodeName).getD ∅
  let nodeWaitingSource := (st.waitingExecutionSource.get? nodeName).getD ∅
  { st with
    waitingExecution := st.waitingExecution.set nodeName
      (nodeWaiting.set runIndex (mainConnections (List.replicate numberOfConnections .null)))
    waitingExecutionSource := st.waitingExecutionSource.set nodeName
      (nodeWaitingSource.set runIndex (mainConnections (List.replicate numberOfConnections .null))) }

/-- `entries[index].main` -/
def entryMain {β : Type} (entries : WaitingEntries (OrderedMap NodeConnectionType (List (Slot β))))
    (index : ℕ) : Except EngineError (List (Slot β)) :=
  orTypeError ((entries.get? index).bind (·.get? .main))

/-- The first of the entries, by index, that has no data for the input. -/
def findWaitingNodeIndex (entries : WaitingEntries (ITaskDataConnections J)) (inputIndex : ℤ) :
    List ℕ → Except EngineError (Option ℕ)
  | [] => .ok none
  | index :: rest => do
    let main ← entryMain entries index
    if (readAt main inputIndex).truthy then findWaitingNodeIndex entries inputIndex rest
    else return some index

/-- `entries[index].main[inputIndex] = slot`, in the entries of one node. -/
def writeEntry {β : Type} (waiting : OrderedMap String (WaitingEntries
    (OrderedMap NodeConnectionType (List (Slot β))))) (nodeName : String) (index : ℕ)
    (inputIndex : ℤ) (slot : Slot β) : Except EngineError (OrderedMap String (WaitingEntries
      (OrderedMap NodeConnectionType (List (Slot β))))) := do
  let entries ← orTypeError (waiting.get? nodeName)
  let entry ← orTypeError (entries.get? index)
  let main ← orTypeError (entry.get? .main)
  return waiting.set nodeName (entries.set index (entry.set .main (writeAt main inputIndex slot)))

/-- Delete an entry of a node, and the node once it has no entry left. -/
def deleteWaiting (nodeName : String) (index : ℕ) (st : ExecutionState J) : ExecutionState J :=
  let entries := ((st.waitingExecution.get? nodeName).getD ∅).delete index
  let sources := ((st.waitingExecutionSource.get? nodeName).getD ∅).delete index
  if entries.size = 0 then
    { st with
      waitingExecution := st.waitingExecution.delete nodeName
      waitingExecutionSource := st.waitingExecutionSource.delete nodeName }
  else
    { st with
      waitingExecution := st.waitingExecution.set nodeName entries
      waitingExecutionSource := st.waitingExecutionSource.set nodeName sources }

@[simp] theorem nodeExecutionStack_deleteWaiting (nodeName : String) (index : ℕ)
    (st : ExecutionState J) :
    (deleteWaiting nodeName index st).nodeExecutionStack = st.nodeExecutionStack := by
  unfold deleteWaiting
  dsimp only
  split_ifs <;> rfl

/-! ## Delivering data -/

/-- The arguments of `addNodeToBeExecuted`. -/
structure Delivery (J : Type) where
  connectionData : IConnection
  outputIndex : ℕ
  parentNodeName : String
  nodeSuccessData : Option (List (Slot (Items J)))
  runIndex : ℕ
  newRunIndex : Option ℕ := none
  metadata : Option (ITaskMetadata J) := none

/-- `nodeSuccessData[outputIndex]`, or `null` without data. -/
def Delivery.slot (call : Delivery J) : Slot (Items J) :=
  match call.nodeSuccessData with
  | none => .null
  | some data => (data.getD call.outputIndex .hole).read

def Delivery.source (call : Delivery J) : ISourceData :=
  { previousNode := call.parentNodeName
    previousNodeOutput := some call.outputIndex
    previousNodeRun := some call.runIndex }

def Delivery.sourceSlot (call : Delivery J) : Slot ISourceData :=
  match call.nodeSuccessData with
  | none => .null
  | some _ => .val call.source

/-- `connectionsByDestinationNode[nodeName]?.main?.length ?? 0` -/
def Workflow.numberOfInputs (workflow : Workflow) (nodeName : String) : ℕ :=
  ((workflow.mainInputs? nodeName).getD []).length

/-- `nodeExecutionStack[enqueueFn](item)` -/
def enqueue (workflow : Workflow) (stack : List (IExecuteData J)) (item : IExecuteData J) :
    List (IExecuteData J) :=
  if workflow.executionOrder = some .v1 then item :: stack else stack ++ [item]

theorem countP_enqueue (workflow : Workflow) (p : IExecuteData J → Bool) (stack : List (IExecuteData J))
    (item : IExecuteData J) :
    (enqueue workflow stack item).countP p = stack.countP p + if p item then 1 else 0 := by
  unfold enqueue
  split_ifs with h <;> simp [List.countP_append, *]

theorem countP_foldl_enqueue (workflow : Workflow) (p : IExecuteData J → Bool) (stack added : List (IExecuteData J)) :
    (added.foldl (enqueue workflow) stack).countP p = stack.countP p + added.countP p := by
  induction added generalizing stack with
  | nil => rfl
  | cons item added ih =>
    rw [List.foldl_cons, ih, countP_enqueue, List.countP_cons]
    omega

/-- Make sure that the node has a, possibly empty, record of entries. -/
def createRecord (nodeName : String) (st : ExecutionState J) : ExecutionState J :=
  if st.waitingExecution.has nodeName then st
  else { st with
    waitingExecution := st.waitingExecution.set nodeName ∅
    waitingExecutionSource := st.waitingExecutionSource.set nodeName ∅ }

/-- The entry the delivery belongs to. If all entries have data for the input, create one
whose index is the number of entries. -/
def selectEntry (workflow : Workflow) (call : Delivery J) (st : ExecutionState J) :
    Except EngineError (ExecutionState J × ℕ) := do
  let nodeName := call.connectionData.node
  let entries := (st.waitingExecution.get? nodeName).getD ∅
  match ← findWaitingNodeIndex entries call.connectionData.index (numericKeys entries) with
  | some waitingNodeIndex => return (st, waitingNodeIndex)
  | none =>
    let waitingNodeIndex := entries.size
    return (prepareWaitingToExecution nodeName (workflow.numberOfInputs nodeName) waitingNodeIndex
      st, waitingNodeIndex)

/-- Write the data into the entry it belongs to. -/
def storeDelivery (workflow : Workflow) (call : Delivery J) (st : ExecutionState J) :
    Except EngineError (ExecutionState J × ℕ) := do
  let nodeName := call.connectionData.node
  let (st, waitingNodeIndex) ← selectEntry workflow call (createRecord nodeName st)
  let waitingExecution ← writeEntry st.waitingExecution nodeName waitingNodeIndex
    call.connectionData.index call.slot
  let waitingExecutionSource ← writeEntry st.waitingExecutionSource nodeName waitingNodeIndex
    call.connectionData.index call.sourceSlot
  return ({ st with waitingExecution, waitingExecutionSource }, waitingNodeIndex)

/-! ### Nodes nothing else will run -/

def incomingConnectionIsEmpty (runData : IRunData J) (runIndex : ℕ) :
    List IConnection → Except EngineError Bool
  | [] => .ok true
  | inputConnection :: rest =>
    let main := do (← (← (← runData.get? inputConnection.node)[runIndex]?).data).get? .main
    match main.map (readAt · inputConnection.index) with
    | some .null => .error .typeError
    | some (.val items) =>
      if items.length ≠ 0 then .ok false else incomingConnectionIsEmpty runData runIndex rest
    | _ => incomingConnectionIsEmpty runData runIndex rest

/-- `connectionsByDestinationNode[nodeName].main[0] ?? []` -/
def firstInputConnections (workflow : Workflow) (nodeName : String) :
    Except EngineError (List IConnection) := do
  let main ← orTypeError (workflow.mainInputs? nodeName)
  return (main.getD 0 none).getD []

/-- The nodes the Main outputs of a node are connected to. -/
def outputNodes (workflow : Workflow) (nodeName : String) : Except EngineError (List String) := do
  let connections ← orTypeError (workflow.connectionsBySourceNode.get? nodeName)
  return ((connections.get? .main).getD []).flatMap fun output => (output.getD []).map (·.node)

/-- Go up from `inputNode` to the node that has to be run for it. -/
def findNodeToAdd (checkOutputNodes executionStackNodes : List String) (runData : IRunData J)
    (inputNode : String) : Option String → List String → Option String
  | nodeToAdd, [] => nodeToAdd
  | nodeToAdd, parentNode :: rest =>
    if inputNode ≠ parentNode ∧ parentNode ∈ checkOutputNodes then none
    else if parentNode ∈ executionStackNodes then none
    else if runData.has parentNode then nodeToAdd
    else findNodeToAdd checkOutputNodes executionStackNodes runData inputNode (some parentNode) rest

/-- The stack item with one empty item for a node nothing else will run. -/
def emptyItemFor [DataObject J] (workflow : Workflow) (call : Delivery J) (nodeToAdd : String) :
    IExecuteData J :=
  { node := workflow.getNode nodeToAdd
    data := mainConnections [.val [emptyItem]]
    source := some (mainConnections [.val call.source]) }

/-- What has to be put on the stack for the node of one of the other inputs. -/
def itemForInput [DataObject J] (workflow : Workflow) (call : Delivery J) (st : ExecutionState J)
    (checkOutputNodes : List String) (inputNode : String) :
    Except EngineError (Option (IExecuteData J)) := do
  if inputNode = call.parentNodeName then return none
  let executionStackNodes ← st.nodeExecutionStack.mapM fun item =>
    orTypeError (item.node.map (·.name))
  if inputNode ∈ checkOutputNodes then
    let inputConnections ← firstInputConnections workflow inputNode
    if !(← incomingConnectionIsEmpty st.runData call.runIndex inputConnections) then return none
  if inputNode ∈ executionStackNodes then return none
  if st.runData.has inputNode then return none
  if !workflow.isLegacyExecutionOrder then return none
  let parentNodes := (workflow.getParentNodes inputNode ++ [inputNode]).reverse
  let nodeToAdd := findNodeToAdd checkOutputNodes executionStackNodes st.runData inputNode
    (some inputNode) parentNodes
  let nodeToAdd ← if call.parentNodeName ∈ workflow.getParentNodes (nodeToAdd.getD "undefined") then
      match call.slot with
      | .val items => pure (if items.length = 0 then none else nodeToAdd)
      | _ => .error .typeError
    else pure nodeToAdd
  match nodeToAdd with
  | none => return none
  | some nodeToAdd =>
    let addEmptyItem ← if !workflow.connectionsByDestinationNode.has nodeToAdd then pure true
      else do
        let inputConnections ← firstInputConnections workflow nodeToAdd
        incomingConnectionIsEmpty st.runData call.runIndex inputConnections
    return if addEmptyItem then some (emptyItemFor workflow call nodeToAdd) else none

/-- What the other inputs of the node still need on the stack. -/
def itemsForInputs [DataObject J] (workflow : Workflow) (call : Delivery J)
    (st : ExecutionState J) : Except EngineError (List (IExecuteData J)) := do
  let checkOutputNodes ← outputNodes workflow call.parentNodeName
  let main ← orTypeError (workflow.mainInputs? call.connectionData.node)
  let inputNodes := main.flatMap fun input => (input.getD []).map (·.node)
  inputNodes.foldlM (fun added inputNode => do
    let nodeExecutionStack := added.foldl (enqueue workflow) st.nodeExecutionStack
    let item ← itemForInput workflow call { st with nodeExecutionStack } checkOutputNodes inputNode
    return added ++ item.toList) []

/-! ### The delivery -/

/-- Keep waiting : the entry is rebuilt with its Main data and sources. -/
def keepWaiting (workflow : Workflow) (call : Delivery J) (waitingNodeIndex : ℕ)
    (st : ExecutionState J) : Except EngineError (ExecutionState J) := do
  let nodeName := call.connectionData.node
  let entries ← orTypeError (st.waitingExecution.get? nodeName)
  let connectionDataArray := writeAt (← entryMain entries waitingNodeIndex)
    call.connectionData.index call.slot
  let sources ← orTypeError (st.waitingExecutionSource.get? nodeName)
  let waitingExecutionSource ← entryMain sources waitingNodeIndex
  let st := prepareWaitingToExecution nodeName (workflow.numberOfInputs nodeName) waitingNodeIndex st
  return { st with
    waitingExecution := st.waitingExecution.set nodeName
      (entries.set waitingNodeIndex (mainConnections connectionDataArray))
    waitingExecutionSource := st.waitingExecutionSource.set nodeName
      (sources.set waitingNodeIndex (mainConnections waitingExecutionSource)) }

/-- The delivery to a node with several inputs, with the items it puts on the stack for
other nodes. -/
def addToWaiting [DataObject J] (workflow : Workflow) (call : Delivery J) (st : ExecutionState J) :
    Except EngineError (ExecutionState J × List (IExecuteData J)) := do
  let nodeName := call.connectionData.node
  let nodeWasWaiting := st.waitingExecution.has nodeName
  let (st, waitingNodeIndex) ← storeDelivery workflow call st
  let entries ← orTypeError (st.waitingExecution.get? nodeName)
  let main ← entryMain entries waitingNodeIndex
  if main.all (!·.isNull) then
    let item : IExecuteData J :=
      { node := workflow.nodes.get? nodeName
        data := (entries.get? waitingNodeIndex).getD ∅
        source := (st.waitingExecutionSource.get? nodeName).bind (·.get? waitingNodeIndex) }
    return (deleteWaiting nodeName waitingNodeIndex
      { st with nodeExecutionStack := enqueue workflow st.nodeExecutionStack item }, [])
  let added ← (if nodeWasWaiting then .ok [] else itemsForInputs workflow call st)
  let st := { st with nodeExecutionStack := added.foldl (enqueue workflow) st.nodeExecutionStack }
  return (← keepWaiting workflow call waitingNodeIndex st, added)

/-- The delivery to a node with at most one input. -/
def addToStack (workflow : Workflow) (call : Delivery J) (st : ExecutionState J) :
    ExecutionState J :=
  let connectionData := call.connectionData
  let connectionDataArray := writeAt
    (List.replicate (connectionData.index + 1).toNat .null) connectionData.index call.slot
  match workflow.nodes.get? connectionData.node with
  | none => st
  | some node =>
    { st with
      nodeExecutionStack := enqueue workflow st.nodeExecutionStack
        { node := some node
          data := mainConnections connectionDataArray
          source := some (mainConnections [.val call.source])
          runIndex := call.newRunIndex
          metadata := call.metadata } }

/-- `addNodeToBeExecuted`, with the items it puts on the stack for other nodes. -/
def deliver [DataObject J] (workflow : Workflow) (call : Delivery J) (st : ExecutionState J) :
    Except EngineError (ExecutionState J × List (IExecuteData J)) :=
  if workflow.numberOfInputs call.connectionData.node > 1 then addToWaiting workflow call st
  else .ok (addToStack workflow call st, [])

def addNodeToBeExecuted [DataObject J] (workflow : Workflow) (call : Delivery J)
    (st : ExecutionState J) : Except EngineError (ExecutionState J) := do
  return (← deliver workflow call st).1

/-! ## Promotion -/

/-- The run indexes of the entries in the order of their spelling; the first one. -/
def firstRunIndex {β : Type} (entries : WaitingEntries β) : Option ℕ :=
  ((numericKeys entries).insertionSort fun a b => toString a ≤ toString b).head?

/-- `data === null ? [] : data` -/
def orEmpty : Slot (Items J) → Slot (Items J)
  | .null => .val []
  | s => s

/-- Whether any of the inputs has items; a hole is skipped. -/
def hasItems : List (Slot (Items J)) → Except EngineError Bool
  | [] => .ok false
  | .hole :: rest => hasItems rest
  | .val data :: rest => do
    let restHas ← hasItems rest
    return data.length ≠ 0 || restHas
  | _ :: _ => .error .typeError

/-- Take an entry out of waiting. If it has items the node is put on the stack, each of its
`inputs` inputs with an array. The second component says whether it was. -/
def promoteEntry (workflow : Workflow) (inputs : ℕ) (nodeName : String) (index : ℕ)
    (st : ExecutionState J) : Except EngineError (ExecutionState J × Bool) := do
  let entries ← orTypeError (st.waitingExecution.get? nodeName)
  let taskDataMain := (← entryMain entries index).map orEmpty
  let hasData ← hasItems taskDataMain
  let sources ← orTypeError (st.waitingExecutionSource.get? nodeName)
  let nodeExecutionStack := if hasData then
      st.nodeExecutionStack ++ [{
        node := workflow.nodes.get? nodeName
        data := mainConnections
          (taskDataMain ++ List.replicate (inputs - taskDataMain.length) (.val []))
        source := sources.get? index }]
    else st.nodeExecutionStack
  return (deleteWaiting nodeName index { st with nodeExecutionStack }, hasData)

end N8n
