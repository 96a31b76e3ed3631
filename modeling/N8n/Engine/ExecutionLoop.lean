import N8n.Engine.NodeRun
import N8n.Engine.Promotion

/-!
# The execution loop

`iteration` is one pass of the loop of `processRunExecutionData` : it takes the first item
from the stack, runs its node, stores the output as run data and delivers it to the
connected nodes. If that leaves the stack empty, a waiting node is promoted. An iteration
can end early in several ways (`Exit`), and only the one that runs to its end looks for a
waiting node.

When the loop leaves with an empty stack after such an iteration, no waiting node is left
that would be promoted (`executionLoop_not_stranded`). After the destination node no
waiting node is looked for (`executionLoop_stranded_destination`).
-/

open Lib

namespace N8n

variable {J : Type}

/-! ## Run data -/

/-- `Object.assign(currentTaskData, taskData)` -/
def ITaskData.assign (currentTaskData taskData : ITaskData J) : ITaskData J where
  data := taskData.data <|> currentTaskData.data
  inputOverride := taskData.inputOverride <|> currentTaskData.inputOverride
  error := taskData.error <|> currentTaskData.error
  source := taskData.source

/-- Store the run of a node. A run that is there already, with its input, is completed. -/
def storeTaskData (runData : IRunData J) (nodeName : String) (runIndex : ℕ)
    (taskData : ITaskData J) : IRunData J :=
  let runs := (runData.get? nodeName).getD []
  runData.set nodeName (match runs[runIndex]? with
    | some currentTaskData => runs.set runIndex (currentTaskData.assign taskData)
    | none => runs ++ [taskData])

def continuesOnError (node : INode) : Bool :=
  node.continueOnFail = some true || node.onError = some .continueRegularOutput ||
    node.onError = some .continueErrorOutput

/-- Where the input of the item came from. -/
def IExecuteData.mainSource (executionData : IExecuteData J) : List (Slot ISourceData) :=
  (executionData.source.bind (·.get? .main)).getD []

/-- The input override of the run, kept only for nodes whose output is logged elsewhere. -/
def inputOverrideOf (runData : IRunData J) (nodeName : String) (runIndex : ℕ) :
    ITaskDataConnections J :=
  ((((runData.get? nodeName).getD [])[runIndex]?).bind (·.inputOverride)).getD ∅

section Iteration

variable [DataObject J]

/-- Report the errors of the items in their data. -/
def mergeError (lineResult : INodeExecutionData J) : INodeExecutionData J :=
  match DataObject.errorMessage lineResult.json with
  | some message => { lineResult with error := some message, json := DataObject.ofError message }
  | none =>
    match lineResult.error with
    | some message => { lineResult with json := DataObject.ofError message }
    | none => lineResult

def mergeErrors (nodeSuccessData : List (Slot (Items J))) :
    Except EngineError (List (Slot (Items J))) :=
  nodeSuccessData.mapM fun
    | .val execution => .ok (.val (execution.map mergeError))
    | _ => .error .typeError

/-- The output a node that failed passes on. -/
def errorOutput (isAiToolExecution : Bool) (executionData : IExecuteData J) (message : String)
    (nodeSuccessData : Option (List (Slot (Items J)))) : Option (List (Slot (Items J))) :=
  if isAiToolExecution then some [.val [{ json := DataObject.ofError message }]]
  else match executionData.data.get? .main with
    | some (input :: _) => if input.isNull then nodeSuccessData else some [input.read]
    | _ => nodeSuccessData

/-! ## The connected nodes -/

/-- The comparison that puts the node more to the top left last. -/
def comparePositions (a b : ℤ × ℤ) : ℤ :=
  if a.2 < b.2 then 1 else if a.2 > b.2 then -1 else if a.1 > b.1 then -1 else 0

/-- A node that gets the output. -/
structure NodeToAdd where
  position : ℤ × ℤ
  connection : IConnection
  outputIndex : ℕ

/-- `nodesToAdd.sort(…)` -/
def sortNodesToAdd (nodesToAdd : List NodeToAdd) : List NodeToAdd :=
  nodesToAdd.insertionSort fun a b => ¬comparePositions b.position a.position < 0

/-- The output is there, and not empty unless it goes to a second input in legacy order. -/
def receivesOutput (workflow : Workflow) (nodeSuccessData : List (Slot (Items J)))
    (nodeToAdd : NodeToAdd) : Bool :=
  match nodeSuccessData.getD nodeToAdd.outputIndex .hole with
  | .val items => items.length ≠ 0 ||
      (nodeToAdd.connection.index > 0 && workflow.isLegacyExecutionOrder)
  | _ => false

/-- The Main connections of a node, output by output. -/
def outputConnections (workflow : Workflow) (nodeName : String) : List NodeToAdd :=
  match (workflow.connectionsBySourceNode.get? nodeName).bind (·.get? .main) with
  | none => []
  | some main => main.zipIdx.flatMap fun (connections, outputIndex) =>
    (connections.getD []).map fun connection =>
      { position := ((workflow.getNode connection.node).map (·.position)).getD (0, 0)
        connection
        outputIndex }

def addChild (workflow : Workflow) (nodeName : String) (nodeSuccessData : List (Slot (Items J)))
    (runIndex : ℕ) (st : ExecutionState J) (nodeToAdd : NodeToAdd) :
    Except EngineError (ExecutionState J) :=
  addNodeToBeExecuted workflow
    { connectionData := nodeToAdd.connection
      outputIndex := nodeToAdd.outputIndex
      parentNodeName := nodeName
      nodeSuccessData := some nodeSuccessData
      runIndex } st

/-- Deliver the output of a node to the nodes it is connected to. -/
def enqueueChildren (workflow : Workflow) (nodeName : String)
    (nodeSuccessData : List (Slot (Items J))) (runIndex : ℕ) (st : ExecutionState J) :
    Except EngineError (ExecutionState J) :=
  let checkDestination (nodeToAdd : NodeToAdd) : Except EngineError Unit :=
    if workflow.nodes.has nodeToAdd.connection.node then .ok ()
    else .error (.unexpectedError "Destination node not found")
  let connections := outputConnections workflow nodeName
  if workflow.executionOrder = some .v1 then do
    connections.forM checkDestination
    (sortNodesToAdd (connections.filter (receivesOutput workflow nodeSuccessData))).foldlM
      (addChild workflow nodeName nodeSuccessData runIndex) st
  else
    connections.foldlM (fun st nodeToAdd => do
      checkDestination nodeToAdd
      if receivesOutput workflow nodeSuccessData nodeToAdd then
        addChild workflow nodeName nodeSuccessData runIndex st nodeToAdd
      else return st) st

/-! ## One iteration -/

/-- What the world does in an iteration. -/
structure IterationInput (J : Type) where
  /-- The execution has been canceled, or its time is over. -/
  canceled : Bool := false
  /-- The results of the calls of `runNode`. -/
  results : ℕ → RunResult J

variable (config : LoopConfig J)

/-- The stack is empty and nodes are waiting : promote one. -/
def promoteIfIdle (workflow : Workflow) (st : ExecutionState J) :
    Except EngineError (ExecutionState J) :=
  if st.nodeExecutionStack.length = 0 ∧ objectKeys st.waitingExecution ≠ [] then
    promoteWaiting workflow st
  else .ok st

/-- Store the output of the node and deliver it. -/
def passOn (executionNode : INode) (executionData : IExecuteData J) (runIndex : ℕ)
    (nodeSuccessData : List (Slot (Items J))) (st : LoopState J) :
    Except EngineError (LoopState J × Exit) := do
  let nodeSuccessData ← mergeErrors nodeSuccessData
  let rewireOutputLogTo := st.rewireOutputLogTo.get? executionNode.name
  let taskData : ITaskData J :=
    { data := some ((∅ : ITaskDataConnections J).set (rewireOutputLogTo.getD .main) nodeSuccessData)
      inputOverride := rewireOutputLogTo.map fun _ =>
        inputOverrideOf st.runData executionNode.name runIndex
      error := st.executionError
      source := executionData.mainSource }
  let st := { st with runData := storeTaskData st.runData executionNode.name runIndex taskData }
  if st.waitTill then
    return ({ st with nodeExecutionStack := executionData :: st.nodeExecutionStack }, .waitTill)
  if config.destinationNode = some executionNode.name then return (st, .destination)
  let st ← st.modify
    (enqueueChildren config.workflow executionNode.name nodeSuccessData runIndex)
  return (← st.modify (promoteIfIdle config.workflow), .completed)

/-- The node failed and the workflow does not continue. -/
def stopOnError (executionNode : INode) (executionData : IExecuteData J) (runIndex : ℕ)
    (message : String) (st : LoopState J) : LoopState J × Exit :=
  let rewireOutputLogTo := st.rewireOutputLogTo.get? executionNode.name
  let taskData : ITaskData J :=
    { data := rewireOutputLogTo.map fun type => (∅ : ITaskDataConnections J).set type
        [.val [{ json := DataObject.ofError message }]]
      inputOverride := rewireOutputLogTo.map fun _ =>
        inputOverrideOf st.runData executionNode.name runIndex
      error := some message
      source := executionData.mainSource }
  ({ st with
      runData := storeTaskData st.runData executionNode.name runIndex taskData
      nodeExecutionStack := executionData :: st.nodeExecutionStack }, .nodeError)

/-- What follows the tries. -/
def finishIteration (executionNode : INode) (executionData : IExecuteData J) (runIndex : ℕ)
    (attempt : Attempt J) : Except EngineError (LoopState J × Exit) :=
  let st := { attempt.st with executionError := attempt.executionError }
  match attempt.executionError with
  | none => do
    let nodeSuccessData ← orTypeError attempt.nodeSuccessData
    passOn config executionNode executionData runIndex nodeSuccessData st
  | some message =>
    let isAiToolExecution := st.rewireOutputLogTo.get? executionNode.name = some .aiTool
    if continuesOnError executionNode ||
        (isAiToolExecution && executionNode.onError ≠ some .stopWorkflow) then do
      let nodeSuccessData ← orTypeError
        (errorOutput isAiToolExecution executionData message attempt.nodeSuccessData)
      passOn config executionNode executionData runIndex nodeSuccessData st
    else .ok (stopOnError executionNode executionData runIndex message st)

/-- One pass of the loop, from a stack that is not empty. -/
def iteration (input : IterationInput J) (st : LoopState J) :
    Except EngineError (LoopState J × Exit) := do
  if input.canceled then return (st, .canceled)
  let executionData ← orTypeError st.nodeExecutionStack.head?
  let st := { st with
    nodeExecutionStack := st.nodeExecutionStack.tail
    executionError := none }
  let data ← newTaskDataConnections executionData
  let executionData := { executionData with data }
  let executionNode ← orTypeError executionData.node
  let runIndex := currentRunIndex executionData executionNode.name st.runData
  let currentExecutionTry := executionNode.name ++ ":" ++ toString runIndex
  if currentExecutionTry = st.lastExecutionTry then
    .error (.userError "Stopped execution because it seems to be in an endless loop")
  else if config.runNodeFilter.any (executionNode.name ∉ ·) then return (st, .filtered)
  else
    let (st, hasInputData) := ensureInputData config.workflow executionNode executionData st
    if !hasInputData then
      return ({ st with lastExecutionTry := currentExecutionTry }, .inputMissing)
    let (attempt, exit) := runNodeWithRetries config executionNode executionData runIndex
      input.results st
    match exit with
    | some exit => return (attempt.st, exit)
    | none => finishIteration config executionNode executionData runIndex attempt

/-- The loop, for as many iterations as there are inputs; `none` if it needs more. With the
state the loop is left in comes how the last iteration ended. -/
def executionLoop : List (IterationInput J) → LoopState J → Option Exit →
    Except EngineError (Option (LoopState J × Option Exit))
  | inputs, st, exit =>
    if st.nodeExecutionStack.isEmpty then .ok (some (st, exit))
    else match inputs with
      | [] => .ok none
      | input :: inputs => do
        let (st, exit) ← iteration config input st
        if exit.breaks then return some (st, some exit)
        else executionLoop inputs st (some exit)

/-! ## How an iteration ends -/

variable {config} {workflow : Workflow} {executionNode : INode} {executionData : IExecuteData J}
  {runIndex : ℕ}

omit [DataObject J] in
/-- After looking for a waiting node in vain, looking again is in vain. -/
theorem promoteIfIdle_eq_ok {st st' : ExecutionState J}
    (h : promoteIfIdle workflow st = .ok st') (hempty : st'.nodeExecutionStack = []) :
    promoteWaiting workflow st' = .ok st' := by
  unfold promoteIfIdle at h
  split_ifs at h with hidle
  · exact promoteWaiting_eq_self h hempty
  · cases h
    have hnone : objectKeys st.waitingExecution = [] := by simpa [hempty] using hidle
    rw [promoteWaiting, promoteFuel, hnone]
    rfl

omit [DataObject J] in
theorem LoopState.modify_eq_ok {st st' : LoopState J}
    {f : ExecutionState J → Except EngineError (ExecutionState J)} (h : st.modify f = .ok st') :
    f st.toExecutionState = .ok st'.toExecutionState := by
  obtain ⟨e, he, h⟩ := bind_eq_ok.mp h
  cases h
  exact he

/-- How an iteration may have ended. If it ran to its end, a waiting node was looked for at
the end of it; if it failed, waits or lacks data, its item is back on the stack. -/
def EndsWell (workflow : Workflow) (st : LoopState J) : Exit → Prop
  | .completed => ∃ st₀, promoteIfIdle workflow st₀ = .ok st.toExecutionState
  | .canceled | .inputMissing | .nodeError | .waitTill => st.nodeExecutionStack ≠ []
  | .filtered | .engineRequest | .noOutput | .destination => True

variable {exit : Exit}

theorem passOn_endsWell {nodeSuccessData : List (Slot (Items J))} {st st' : LoopState J}
    (h : passOn config executionNode executionData runIndex nodeSuccessData st = .ok (st', exit)) :
    EndsWell config.workflow st' exit := by
  obtain ⟨merged, -, h⟩ := bind_eq_ok.mp h
  dsimp only at h
  split_ifs at h
  · cases h
    exact List.cons_ne_nil _ _
  · cases h
    trivial
  · obtain ⟨st₁, -, h⟩ := bind_eq_ok.mp h
    obtain ⟨st₂, hpromote, h⟩ := bind_eq_ok.mp h
    cases h
    exact ⟨_, LoopState.modify_eq_ok hpromote⟩

theorem finishIteration_endsWell {attempt : Attempt J} {st' : LoopState J}
    (h : finishIteration config executionNode executionData runIndex attempt = .ok (st', exit)) :
    EndsWell config.workflow st' exit := by
  unfold finishIteration at h
  cases herror : attempt.executionError with
  | none =>
    simp only [herror] at h
    obtain ⟨nodeSuccessData, -, h⟩ := bind_eq_ok.mp h
    exact passOn_endsWell h
  | some message =>
    simp only [herror] at h
    split_ifs at h
    · obtain ⟨nodeSuccessData, -, h⟩ := bind_eq_ok.mp h
      exact passOn_endsWell h
    · cases h
      exact List.cons_ne_nil _ _

theorem settleOutput_leave {attempt : Attempt J}
    (h : (settleOutput executionData executionNode attempt).2 = .leave exit) :
    exit = .noOutput := by
  unfold settleOutput at h
  cases hassign : attempt.nodeSuccessData.mapM (assignPairedItems · executionData) with
  | error e => simp [hassign] at h
  | ok data =>
    simp only [hassign] at h
    cases hensure : ensureOutput executionData executionNode data with
    | error e => simp [hensure] at h
    | ok data =>
      simp only [hensure] at h
      split_ifs at h <;> cases h <;> rfl

theorem tryNode_leave {results : ℕ → RunResult J} {left : ℕ} {attempt : Attempt J}
    (h : (tryNode config executionNode executionData runIndex results left attempt).2.2 =
      .leave exit) : exit = .engineRequest ∨ exit = .noOutput := by
  unfold tryNode at h
  cases hpin : config.nodePinData? executionNode with
  | some nodePinData =>
    simp only [hpin] at h
    exact Or.inr (settleOutput_leave h)
  | none =>
    rcases hcall : callRunNode results attempt with ⟨result, attempt₁⟩
    rcases hretry : retryFailed results left result attempt₁ with ⟨left', result', attempt₂⟩
    simp only [hpin, hcall, hretry] at h
    cases result' with
    | thrown message => cases h
    | request request =>
      cases herror : (handleEngineRequest config.workflow executionNode request runIndex
          executionData attempt₂.st).2 with
      | none =>
        simp only [herror] at h
        exact Or.inl (TryOutcome.leave.inj h).symm
      | some e => simp [herror] at h
    | output data waitTill => exact Or.inr (settleOutput_leave h)

theorem runTries_leave {results : ℕ → RunResult J} {rounds tries : ℕ} {attempt : Attempt J}
    (h : (runTries config executionNode executionData runIndex results rounds tries attempt).2 =
      some exit) : exit = .engineRequest ∨ exit = .noOutput := by
  induction rounds generalizing tries attempt with
  | zero => simp [runTries] at h
  | succ rounds ih =>
    cases tries with
    | zero => simp [runTries] at h
    | succ tries =>
      rw [runTries] at h
      rcases htry : tryNode config executionNode executionData runIndex results tries
        { attempt with executionError := none } with ⟨left, attempt₁, outcome⟩
      rw [htry] at h
      cases outcome with
      | leave exit' =>
        cases h
        exact tryNode_leave (by rw [htry])
      | done => cases h
      | thrown message => exact ih h

omit [DataObject J] in
theorem ensureInputData_false {st : LoopState J}
    (h : (ensureInputData workflow executionNode executionData st).2 = false) :
    (ensureInputData workflow executionNode executionData st).1.nodeExecutionStack ≠ [] := by
  unfold ensureInputData at h ⊢
  split_ifs at h ⊢
  simp

theorem iteration_endsWell {input : IterationInput J} {st st' : LoopState J}
    (hne : st.nodeExecutionStack ≠ []) (h : iteration config input st = .ok (st', exit)) :
    EndsWell config.workflow st' exit := by
  unfold iteration at h
  split_ifs at h with hcanceled
  · cases h
    exact hne
  obtain ⟨executionData, -, h⟩ := bind_eq_ok.mp h
  obtain ⟨data, -, h⟩ := bind_eq_ok.mp h
  obtain ⟨executionNode, -, h⟩ := bind_eq_ok.mp h
  dsimp only at h
  split_ifs at h with hloop hfilter hdata
  · cases h
    trivial
  · cases h
    exact ensureInputData_false (by simpa using hdata)
  · split at h
    next exit hexit =>
      cases h
      obtain rfl | rfl := runTries_leave hexit <;> trivial
    next => exact finishIteration_endsWell h

/-! ## Leaving the loop -/

/-- The loop is left before the first iteration, or by the last one. -/
theorem executionLoop_eq_ok {inputs : List (IterationInput J)} {st st' : LoopState J}
    {exit exit' : Option Exit} (h : executionLoop config inputs st exit = .ok (some (st', exit'))) :
    (st' = st ∧ exit' = exit) ∨ ∃ e, exit' = some e ∧ EndsWell config.workflow st' e := by
  induction inputs generalizing st exit with
  | nil =>
    unfold executionLoop at h
    split_ifs at h
    · cases h
      exact Or.inl ⟨rfl, rfl⟩
    · cases h
  | cons input inputs ih =>
    unfold executionLoop at h
    split_ifs at h with hempty
    · cases h
      exact Or.inl ⟨rfl, rfl⟩
    · obtain ⟨⟨st₁, exit₁⟩, hiteration, h⟩ := bind_eq_ok.mp h
      have hends := iteration_endsWell (by simpa using hempty) hiteration
      dsimp only at h
      split_ifs at h
      · cases h
        exact Or.inr ⟨exit₁, rfl, hends⟩
      · obtain ⟨rfl, rfl⟩ | hright := ih h
        · exact Or.inr ⟨exit₁, rfl, hends⟩
        · exact Or.inr hright

/-- Looking for a waiting node would put one on the stack. -/
def Stranded (workflow : Workflow) (st : ExecutionState J) : Prop :=
  ∃ st', promoteWaiting workflow st = .ok st' ∧ st'.nodeExecutionStack ≠ st.nodeExecutionStack

/-- If the loop leaves because the stack is empty, no waiting node is stranded, unless the
last iteration executed the destination node, skipped a node that is not in the filter,
had no output or handled an engine request. -/
theorem executionLoop_not_stranded {inputs : List (IterationInput J)} {init st : LoopState J}
    {exit : Exit}
    (h : executionLoop config inputs init none = .ok (some (st, some exit)))
    (hempty : st.nodeExecutionStack = [])
    (hexit : exit ∉ [.destination, .filtered, .noOutput, .engineRequest]) :
    ¬Stranded config.workflow st.toExecutionState := by
  obtain ⟨-, hnone⟩ | ⟨e, he, hends⟩ := executionLoop_eq_ok h
  · cases hnone
  obtain rfl := Option.some.inj he
  have hpromoted : promoteWaiting config.workflow st.toExecutionState = .ok st.toExecutionState := by
    cases exit with
    | completed =>
      obtain ⟨st₀, hst₀⟩ := hends
      exact promoteIfIdle_eq_ok hst₀ hempty
    | canceled | inputMissing | nodeError | waitTill => exact absurd hempty hends
    | filtered | engineRequest | noOutput | destination => simp at hexit
  rintro ⟨st', hst', hne⟩
  rw [hpromoted] at hst'
  cases hst'
  exact hne rfl

end Iteration

/-! ## A destination node next to a waiting node -/

/-- `Trigger` leads to `Set` and to input 0 of `Merge`, `Other` to its input 1. -/
def sideWorkflow : Workflow where
  nodes := setNodes [.named "Trigger", .named "Set", .named "Other", .named "Merge"]
  connectionsBySourceNode :=
    ((∅ : IConnections).set "Trigger" ((∅ : INodeConnections).set .main
      [some [⟨"Set", .main, 0⟩, ⟨"Merge", .main, 0⟩]])).set "Other"
      ((∅ : INodeConnections).set .main [some [⟨"Merge", .main, 1⟩]])
  connectionsByDestinationNode :=
    ((∅ : IConnections).set "Set" ((∅ : INodeConnections).set .main
      [some [⟨"Trigger", .main, 0⟩]])).set "Merge" ((∅ : INodeConnections).set .main
      [some [⟨"Trigger", .main, 0⟩], some [⟨"Other", .main, 0⟩]])
  executionOrder := some .v1
  name_of_get? := name_of_setNodes

/-- Every node outputs one item. -/
def oneItem : IterationInput ℕ where
  results _ := .output (some [.val [emptyItem]])

/-- The execution starts at `Trigger`. -/
def startAtTrigger : LoopState ℕ where
  nodeExecutionStack := [{ node := some (.named "Trigger"), data := mainConnections [.val [emptyItem]] }]

/-- What evaluating the loop shows about the state it is left in. -/
theorem exists_of_map_executionLoop [DataObject J] {config : LoopConfig J}
    {inputs : List (IterationInput J)} {init : LoopState J} {β : Type}
    {f : LoopState J × Option Exit → β} {b : β}
    (h : (executionLoop config inputs init none).map (·.map f) = .ok (some b)) :
    ∃ r, executionLoop config inputs init none = .ok (some r) ∧ f r = b := by
  cases hloop : executionLoop config inputs init none with
  | error e =>
    rw [hloop] at h
    cases h
  | ok r =>
    rw [hloop] at h
    obtain ⟨r, rfl, hr⟩ := Option.map_eq_some_iff.mp (Except.ok.inj h)
    exact ⟨r, rfl, hr⟩

/-- `Merge` is waiting when the destination node `Set` has been executed, and the stack is
empty. It would be promoted. -/
theorem executionLoop_stranded_destination :
    ∃ st exit, executionLoop { workflow := sideWorkflow, destinationNode := some "Set" }
        [oneItem, oneItem] startAtTrigger none = .ok (some (st, some exit)) ∧
      st.nodeExecutionStack = [] ∧ exit = .destination ∧
      Stranded sideWorkflow st.toExecutionState := by
  have hrun : (executionLoop { workflow := sideWorkflow, destinationNode := some "Set" }
      [oneItem, oneItem] startAtTrigger none).map (·.map fun r =>
        (r.2, r.1.nodeExecutionStack.length,
          (promoteWaiting sideWorkflow r.1.toExecutionState).map (·.nodeExecutionStack.length))) =
      .ok (some (some .destination, 0, .ok 1)) := by
    decide +kernel
  obtain ⟨⟨st, exit⟩, hloop, hst⟩ := exists_of_map_executionLoop hrun
  obtain ⟨rfl, hlen, hpromote⟩ : exit = some .destination ∧ st.nodeExecutionStack.length = 0 ∧
      (promoteWaiting sideWorkflow st.toExecutionState).map (·.nodeExecutionStack.length) = .ok 1 := by
    simpa using hst
  refine ⟨st, .destination, hloop, List.length_eq_zero_iff.mp hlen, rfl, ?_⟩
  cases hpromoted : promoteWaiting sideWorkflow st.toExecutionState with
  | error e =>
    rw [hpromoted] at hpromote
    cases hpromote
  | ok st' =>
    rw [hpromoted] at hpromote
    refine ⟨st', hpromoted, fun he => ?_⟩
    have hlen' : st'.nodeExecutionStack.length = 1 := Except.ok.inj hpromote
    rw [he, hlen] at hlen'
    cases hlen'

/-- Without a destination node `Merge` is promoted and executed. -/
theorem executionLoop_not_stranded_side :
    ∃ st exit, executionLoop { workflow := sideWorkflow } [oneItem, oneItem, oneItem] startAtTrigger
        none = .ok (some (st, some exit)) ∧
      st.nodeExecutionStack = [] ∧ exit = .completed ∧
      ¬Stranded sideWorkflow st.toExecutionState := by
  have hrun : (executionLoop { workflow := sideWorkflow } [oneItem, oneItem, oneItem]
      startAtTrigger none).map (·.map fun r => (r.2, r.1.nodeExecutionStack.length)) =
      .ok (some (some .completed, 0)) := by
    decide +kernel
  obtain ⟨⟨st, exit⟩, hloop, hst⟩ := exists_of_map_executionLoop hrun
  obtain ⟨rfl, hlen⟩ : exit = some .completed ∧ st.nodeExecutionStack.length = 0 := by
    simpa using hst
  have hempty := List.length_eq_zero_iff.mp hlen
  exact ⟨st, .completed, hloop, hempty, rfl,
    executionLoop_not_stranded hloop hempty (by decide)⟩

end N8n
