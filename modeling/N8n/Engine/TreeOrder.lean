import N8n.Engine.Children
import N8n.Engine.StackOrder
import N8n.Lib.PreorderTraversal

/-!
# The order in which a tree is executed

In execution order v1 the children of a node are put on top of the stack, the one most to
the top left first. So the stack lists subtrees that are still to be executed, and a
workflow in which no node has more than one incoming Main connection is executed in
preorder (`executionLoop_inPreorder`), if every node that is executed outputs items on all
its connected outputs.

The incoming connection must be to the first input of the node. A connection to a later
input makes inputs before it, for whose data the node waits until nothing else is left to
run (`executionLoop_not_inPreorder`).
-/

open Lib

namespace N8n

variable {J : Type} [DataObject J]

/-! ## Running a node leaves the stack alone -/

/-- What is on the stack and what is waiting stays the same. -/
structure LoopState.Untouched (st st' : LoopState J) : Prop where
  state : st'.toExecutionState = st.toExecutionState
  lastExecutionTry : st'.lastExecutionTry = st.lastExecutionTry

/-- The result does not ask for other nodes. -/
def RunResult.noRequest : RunResult J → Prop
  | request _ => False
  | _ => True

theorem runNodeWithRetries_untouched (config : LoopConfig J) (executionNode : INode)
    (executionData : IExecuteData J) (runIndex : ℕ) {results : ℕ → RunResult J}
    (hresults : ∀ k, (results k).noRequest) (st : LoopState J) :
    st.Untouched
      (runNodeWithRetries config executionNode executionData runIndex results st).1.st := by
  have hkept : KeptByTries config executionNode executionData runIndex results st.Untouched := {
    notes := fun _ _ _ h => ⟨h.state, h.lastExecutionTry⟩
    request := fun _ k _ _ hk => by
      have := hresults k
      rw [hk] at this
      exact this.elim }
  exact hkept.runNodeWithRetries ⟨rfl, rfl⟩

/-! ## What is passed on -/

/-- The output a node passes on after its last try. -/
def passedOn (executionNode : INode) (executionData : IExecuteData J) (attempt : Attempt J) :
    Option (List (Slot (Items J))) :=
  match attempt.executionError with
  | none => attempt.nodeSuccessData
  | some message =>
    let isAiToolExecution := attempt.st.rewireOutputLogTo.get? executionNode.name = some .aiTool
    if continuesOnError executionNode ||
        (isAiToolExecution && executionNode.onError ≠ some .stopWorkflow) then
      errorOutput isAiToolExecution executionData message attempt.nodeSuccessData
    else none

theorem finishIteration_of_passedOn {config : LoopConfig J} {executionNode : INode}
    {executionData : IExecuteData J} {runIndex : ℕ} {attempt : Attempt J}
    {nodeSuccessData : List (Slot (Items J))}
    (h : passedOn executionNode executionData attempt = some nodeSuccessData) :
    finishIteration config executionNode executionData runIndex attempt =
      passOn config executionNode executionData runIndex nodeSuccessData
        { attempt.st with executionError := attempt.executionError } := by
  unfold passedOn at h
  cases herror : attempt.executionError with
  | none =>
    simp only [herror] at h
    simp only [finishIteration, herror, h]
    rfl
  | some message =>
    simp only [herror] at h
    split_ifs at h with hcontinues
    simp only [finishIteration, herror, if_pos hcontinues, h]
    rfl

variable (config : LoopConfig J)

/-- What the node on top of the stack passes on in an iteration, with its name; `none` if the
execution of the node fails, waits, or gives no output. -/
def topOutput (input : IterationInput J) (st : LoopState J) :
    Option (String × List (Slot (Items J))) := do
  let executionData ← st.nodeExecutionStack.head?
  let data ← (newTaskDataConnections executionData).toOption
  let executionData := { executionData with data }
  let executionNode ← executionData.node
  let runIndex := currentRunIndex executionData executionNode.name st.runData
  let (attempt, exit) := runNodeWithRetries config executionNode executionData runIndex
    input.results { st with
      nodeExecutionStack := st.nodeExecutionStack.tail
      executionError := none }
  if exit.isSome || attempt.st.waitTill then none
  else (passedOn executionNode executionData attempt).map (executionNode.name, ·)

/-- The output has at least one item. -/
def hasItem (nodeSuccessData : List (Slot (Items J))) (outputIndex : ℕ) : Bool :=
  match nodeSuccessData.getD outputIndex .hole with
  | .val items => items.length ≠ 0
  | _ => false

/-- The node on top of the stack passes on an array on every output, and at least one item
on every connected output. -/
def emits (input : IterationInput J) (st : LoopState J) : Bool :=
  (topOutput config input st).any fun (nodeName, nodeSuccessData) =>
    nodeSuccessData.all (fun output => output.toOption.isSome) &&
      (outputConnections config.workflow nodeName).all fun c => hasItem nodeSuccessData c.outputIndex

variable {config} {st : LoopState J}

/-- How the node on top of the stack came to its output. -/
theorem exists_attempt_of_emits {input : IterationInput J} {executionData : IExecuteData J}
    {executionNode : INode} (hhead : st.nodeExecutionStack.head? = some executionData)
    (hnode : executionData.node = some executionNode) (h : emits config input st) :
    ∃ data attempt nodeSuccessData, newTaskDataConnections executionData = .ok data ∧
      runNodeWithRetries config executionNode { executionData with data }
        (currentRunIndex { executionData with data } executionNode.name st.runData) input.results
        { st with
          nodeExecutionStack := st.nodeExecutionStack.tail
          executionError := none } = (attempt, none) ∧
      attempt.st.waitTill = false ∧
      passedOn executionNode { executionData with data } attempt = some nodeSuccessData ∧
      (∀ output ∈ nodeSuccessData, output.toOption.isSome) ∧
      ∀ c ∈ outputConnections config.workflow executionNode.name,
        hasItem nodeSuccessData c.outputIndex := by
  obtain ⟨⟨name, nodeSuccessData⟩, houtput, hitems⟩ := (Option.any_eq_true _ _).mp h
  obtain ⟨executionData', hhead', houtput⟩ := Option.bind_eq_some_iff.mp houtput
  obtain rfl := Option.some.inj (hhead.symm.trans hhead')
  obtain ⟨data, hdata, houtput⟩ := Option.bind_eq_some_iff.mp houtput
  obtain ⟨executionNode', hnode', houtput⟩ := Option.bind_eq_some_iff.mp houtput
  obtain rfl := Option.some.inj (hnode.symm.trans hnode')
  rcases hrun : runNodeWithRetries config executionNode { executionData with data }
    (currentRunIndex { executionData with data } executionNode.name st.runData) input.results
    { st with
      nodeExecutionStack := st.nodeExecutionStack.tail
      executionError := none } with ⟨attempt, exit⟩
  simp only [hrun] at houtput
  split_ifs at houtput with hends
  obtain ⟨output, hpassed, hpair⟩ := Option.map_eq_some_iff.mp houtput
  cases hpair
  simp only [Bool.or_eq_true, not_or, Option.isSome_iff_ne_none, not_not, Bool.not_eq_true] at hends
  obtain ⟨rfl, hwait⟩ := hends
  simp only [Bool.and_eq_true, List.all_eq_true] at hitems
  refine ⟨data, attempt, nodeSuccessData, ?_, hrun, hwait, hpassed, hitems.1, hitems.2⟩
  cases hnew : newTaskDataConnections executionData with
  | error e => simp [hnew, Except.toOption] at hdata
  | ok data' => simpa [hnew, Except.toOption] using hdata

variable (config)

/-! ## The trace of the loop -/

/-- The node on top of the stack. -/
def LoopState.topNode (st : LoopState J) : Option String :=
  (st.nodeExecutionStack.head?.bind (·.node)).map (·.name)

/-- The nodes the iterations take from the stack. -/
def executedNodes (inputs : List (IterationInput J)) (st : LoopState J) : List String :=
  (iterations config inputs st).filterMap (·.1.topNode)

/-! ## Trees -/

/-- One end of the connection at least is Main. -/
def OutputConnection.isMain (c : OutputConnection) : Bool :=
  c.type = .main || c.connection.type = .main

/-- The nodes Main connections lead to, one by one. -/
def Workflow.mainTargets (workflow : Workflow) : List String :=
  ((allConnections workflow.connectionsBySourceNode).filter (·.isMain)).map (·.connection.node)

/-- The Main connections make a tree below the start node, and no two nodes are at the same
position. -/
structure Workflow.TreeShaped (workflow : Workflow) (start : INode) : Prop where
  byDestination : workflow.connectionsByDestinationNode =
    mapConnectionsByDestination workflow.connectionsBySourceNode
  connected : ∀ c ∈ allConnections workflow.connectionsBySourceNode,
    workflow.nodes.has c.connection.node
  /-- Each node has at most one incoming Main connection. -/
  nodup_mainTargets : workflow.mainTargets.Nodup
  has_start : workflow.nodes.has start.name
  not_cyclic : ¬Relation.TransGen (fun a b => b ∈ workflow.children a) start.name start.name
  nodup_positions : (workflow.nodes.values.map (·.position)).Nodup

section Tree

variable {workflow : Workflow} {start : INode} {nodeName : String}

theorem mem_allConnections_of_outputConnections {c : NodeToAdd}
    (h : c ∈ outputConnections workflow nodeName) :
    OutputConnection.mk nodeName .main c.outputIndex c.connection ∈
      allConnections workflow.connectionsBySourceNode :=
  (outputConnections_sublist workflow nodeName).subset (List.mem_map_of_mem h)

theorem mem_children_iff {child : String} :
    child ∈ workflow.children nodeName ↔
      ∃ c ∈ outputConnections workflow nodeName, c.connection.node = child := by
  rw [(workflow.perm_children nodeName).mem_iff, List.mem_map]

theorem Workflow.TreeShaped.has_child (h : workflow.TreeShaped start) {child : String}
    (hchild : child ∈ workflow.children nodeName) : workflow.nodes.has child := by
  obtain ⟨c, hc, rfl⟩ := mem_children_iff.mp hchild
  exact h.connected _ (mem_allConnections_of_outputConnections hc)

/-- No node has two parents. -/
theorem Workflow.TreeShaped.parent_eq (h : workflow.TreeShaped start) {a b child : String}
    (ha : child ∈ workflow.children a) (hb : child ∈ workflow.children b) : a = b := by
  obtain ⟨c, hc, rfl⟩ := mem_children_iff.mp ha
  obtain ⟨d, hd, hnode⟩ := mem_children_iff.mp hb
  have hc' := List.mem_filter (p := OutputConnection.isMain) |>.mpr
    ⟨mem_allConnections_of_outputConnections hc, rfl⟩
  have hd' := List.mem_filter (p := OutputConnection.isMain) |>.mpr
    ⟨mem_allConnections_of_outputConnections hd, rfl⟩
  have heq := List.inj_on_of_nodup_map h.nodup_mainTargets hc' hd' hnode.symm
  exact congrArg OutputConnection.sourceNode heq

theorem Workflow.TreeShaped.position_inj (h : workflow.TreeShaped start) {a b : String}
    (ha : workflow.nodes.has a) (hb : workflow.nodes.has b)
    (hpos : workflow.positionOf a = workflow.positionOf b) : a = b := by
  obtain ⟨na, hna⟩ := Option.isSome_iff_exists.mp ha
  obtain ⟨nb, hnb⟩ := Option.isSome_iff_exists.mp hb
  have hpos' : na.position = nb.position := by
    simpa [Workflow.positionOf, Workflow.getNode, hna, hnb] using hpos
  have heq : na = nb := List.inj_on_of_nodup_map h.nodup_positions
    (OrderedMap.mem_values_iff.mpr ⟨a, hna⟩) (OrderedMap.mem_values_iff.mpr ⟨b, hnb⟩) hpos'
  rw [← workflow.name_of_get? hna, ← workflow.name_of_get? hnb, heq]

/-- If everything that leads to a Main input leads to the first one, no node has more. -/
theorem Workflow.TreeShaped.numberOfInputs_le_one (h : workflow.TreeShaped start)
    (hfirst : ∀ c ∈ allConnections workflow.connectionsBySourceNode,
      c.connection.type = .main → c.connection.index = 0) (nodeName : String) :
    workflow.numberOfInputs nodeName ≤ 1 := by
  unfold Workflow.numberOfInputs Workflow.mainInputs?
  rw [h.byDestination]
  refine length_mapConnectionsByDestination_le fun c hc _ htype => ?_
  rw [hfirst c hc htype]
  decide

/-- A tree has a preorder. -/
theorem Workflow.TreeShaped.exists_inPreorder (h : workflow.TreeShaped start) :
    ∃ order, InPreorder workflow.children [start.name] order := by
  have hnodes : ∀ a, ∀ b ∈ workflow.children a, b ∈ {n | n ∈ workflow.nodes.keys} :=
    fun a b hb => OrderedMap.has_iff.mp (h.has_child hb)
  exact Lib.exists_inPreorder (List.finite_toSet _) hnodes
    (fun a b c ha hb => h.parent_eq ha hb) h.not_cyclic

theorem not_cyclic_of_not_mem_mainTargets (h : nodeName ∉ workflow.mainTargets) :
    ¬Relation.TransGen (fun a b => b ∈ workflow.children a) nodeName nodeName := by
  intro hcycle
  obtain ⟨parent, -, hchild⟩ := Relation.TransGen.tail'_iff.mp hcycle
  obtain ⟨c, hc, rfl⟩ := mem_children_iff.mp hchild
  exact h (List.mem_map_of_mem (List.mem_filter.mpr
    ⟨mem_allConnections_of_outputConnections hc, by simp [OutputConnection.isMain]⟩))

end Tree

/-! ## One iteration -/

/-- The stack holds, in this order, items for the nodes of these names, and nothing is
waiting. -/
structure LoopState.Holds (st : LoopState J) (workflow : Workflow) (names : List String) : Prop where
  stack : List.Forall₂ IExecuteData.Runs st.nodeExecutionStack names
  nodes : ∀ nodeName ∈ names, workflow.nodes.has nodeName
  waiting : st.waitingExecution = ∅
  lastExecutionTry : st.lastExecutionTry = ""

section Iteration

variable {config} {nodeName : String} {nodeSuccessData : List (Slot (Items J))}

theorem mergeErrors_eq_ok (h : ∀ output ∈ nodeSuccessData, output.toOption.isSome) :
    ∃ merged, mergeErrors nodeSuccessData = .ok merged ∧
      ∀ i, hasItem merged i = hasItem nodeSuccessData i := by
  let merge : Slot (Items J) → Slot (Items J)
    | .val execution => .val (execution.map mergeError)
    | slot => slot
  refine ⟨nodeSuccessData.map merge, ?_, fun i => ?_⟩
  · refine mapM_eq_ok.mpr (List.forall₂_map_right_iff.mpr (List.forall₂_same.mpr fun output ho => ?_))
    obtain ⟨items, hitems⟩ := Option.isSome_iff_exists.mp (h output ho)
    rw [Slot.toOption_eq_some.mp hitems]
  · have hget : (nodeSuccessData.map merge).getD i .hole = merge (nodeSuccessData.getD i .hole) := by
      rw [List.getD_eq_getElem?_getD, List.getElem?_map, List.getD_eq_getElem?_getD]
      cases nodeSuccessData[i]? <;> rfl
    unfold hasItem
    rw [hget]
    cases nodeSuccessData.getD i .hole <;> simp [merge]

omit [DataObject J] in
/-- In order v1 the data of a node with a Main input entry is enough. -/
theorem hasDataForInputs_eq_true {workflow : Workflow} (hv1 : workflow.executionOrder = some .v1)
    {data : ITaskDataConnections J} (hmain : (data.get? .main).isSome) (inputs : List ℕ) :
    hasDataForInputs workflow nodeName data inputs = true := by
  obtain ⟨main, hmain⟩ := Option.isSome_iff_exists.mp hmain
  have hlegacy : workflow.isLegacyExecutionOrder = false := by
    simp [Workflow.isLegacyExecutionOrder, hv1]
  induction inputs with
  | nil => rfl
  | cons input inputs ih => simp [hasDataForInputs, hmain, hlegacy, ih]

omit [DataObject J] in
theorem main_newTaskDataConnections {executionData : IExecuteData J} {data : ITaskDataConnections J}
    {slots : List (Slot (Items J))} (hmain : executionData.data = mainConnections slots)
    (h : newTaskDataConnections executionData = .ok data) : (data.get? .main).isSome := by
  have hentries : (mainConnections slots).entries = [(.main, slots)] := rfl
  rw [newTaskDataConnections, hmain, hentries, List.foldlM_cons] at h
  obtain ⟨connections, hstep, h⟩ := bind_eq_ok.mp h
  obtain ⟨inputs, -, hstep⟩ := bind_eq_ok.mp hstep
  cases hstep
  cases h
  simp

variable {executionNode : INode} {names : List String}

section Delivery

variable {start : INode} (htree : config.workflow.TreeShaped start)
  (hfirst : ∀ c ∈ allConnections config.workflow.connectionsBySourceNode,
    c.connection.type = .main → c.connection.index = 0)
  (hv1 : config.workflow.executionOrder = some .v1)

include htree hfirst hv1

/-- The children of a node are put on top of the stack, and no waiting node is looked for. -/
theorem enqueueChildren_holds (runIndex : ℕ)
    (hst : st.Holds config.workflow names)
    (hreceives : ∀ c ∈ outputConnections config.workflow nodeName,
      receivesOutput config.workflow nodeSuccessData c) :
    ∃ st₁ st₂, st.modify (enqueueChildren config.workflow nodeName nodeSuccessData runIndex) =
        .ok st₁ ∧ st₁.modify (promoteIfIdle config.workflow) = .ok st₂ ∧
      st₂.Holds config.workflow (config.workflow.children nodeName ++ names) := by
  obtain ⟨items, hruns, henqueue⟩ := enqueueChildren_eq_ok runIndex hv1
    (fun c _ => htree.numberOfInputs_le_one hfirst c.connection.node)
    (fun c hc => htree.has_child (mem_children_iff.mpr ⟨c, hc, rfl⟩)) hreceives
    (fun a ha b hb => htree.position_inj (htree.has_child ha) (htree.has_child hb))
    st.toExecutionState
  have hidle : ¬(({ st with nodeExecutionStack := items ++ st.nodeExecutionStack } :
      LoopState J).nodeExecutionStack.length = 0 ∧ objectKeys st.waitingExecution ≠ []) := by
    rw [hst.waiting]
    exact fun h => h.2 rfl
  refine ⟨_, { st with nodeExecutionStack := items ++ st.nodeExecutionStack },
    bind_eq_ok.mpr ⟨_, henqueue, rfl⟩, bind_eq_ok.mpr ⟨_, if_neg hidle, rfl⟩, ?_⟩
  refine ⟨List.rel_append hruns hst.stack, fun n hn => ?_, hst.waiting, hst.lastExecutionTry⟩
  rcases List.mem_append.mp hn with hn | hn
  · exact htree.has_child hn
  · exact hst.nodes n hn

theorem passOn_holds (executionData : IExecuteData J) (runIndex : ℕ)
    (hdestination : config.destinationNode = none)
    (hst : st.Holds config.workflow names) (hwait : st.waitTill = false)
    (harrays : ∀ output ∈ nodeSuccessData, output.toOption.isSome)
    (hitems : ∀ c ∈ outputConnections config.workflow executionNode.name,
      hasItem nodeSuccessData c.outputIndex) :
    ∃ st', passOn config executionNode executionData runIndex nodeSuccessData st =
        .ok (st', .completed) ∧
      st'.Holds config.workflow (config.workflow.children executionNode.name ++ names) := by
  obtain ⟨merged, hmerge, hsame⟩ := mergeErrors_eq_ok harrays
  have hreceives : ∀ c ∈ outputConnections config.workflow executionNode.name,
      receivesOutput config.workflow merged c := fun c hc => by
    have hitem := (hsame c.outputIndex).trans (hitems c hc)
    unfold hasItem at hitem
    unfold receivesOutput
    split at hitem <;> simp_all
  have hstored : ∀ runData : IRunData J, LoopState.Holds { st with runData } config.workflow names :=
    fun _ => ⟨hst.stack, hst.nodes, hst.waiting, hst.lastExecutionTry⟩
  obtain ⟨st₁, st₂, henqueue, hpromote, hholds⟩ :=
    enqueueChildren_holds htree hfirst hv1 runIndex (hstored _) hreceives
  refine ⟨st₂, bind_eq_ok.mpr ⟨merged, hmerge, ?_⟩, hholds⟩
  dsimp only
  rw [if_neg (by simp [hwait]), if_neg (by simp [hdestination])]
  exact bind_eq_ok.mpr ⟨st₁, henqueue, bind_eq_ok.mpr ⟨st₂, hpromote, rfl⟩⟩

/-- An iteration replaces the node on top of the stack by its children. -/
theorem iteration_holds (hdestination : config.destinationNode = none)
    (hfilter : ∀ filter ∈ config.runNodeFilter, ∀ n, config.workflow.nodes.has n → n ∈ filter)
    {input : IterationInput J} (hcanceled : input.canceled = false)
    (hresults : ∀ k, (input.results k).noRequest)
    (hst : st.Holds config.workflow (nodeName :: names)) (hemits : emits config input st) :
    ∃ st', iteration config input st = .ok (st', .completed) ∧
      st'.Holds config.workflow (config.workflow.children nodeName ++ names) := by
  obtain ⟨item, rest, ⟨⟨node, hnode, rfl⟩, slots, hslots⟩, hrest, hstack⟩ :=
    List.forall₂_cons_right_iff.mp hst.stack
  have hhead : st.nodeExecutionStack.head? = some item := by rw [hstack]; rfl
  obtain ⟨data, attempt, nodeSuccessData, hdata, hrun, hwait, hpassed, harrays, hitems⟩ :=
    exists_attempt_of_emits hhead hnode hemits
  have hkept := runNodeWithRetries_untouched config node { item with data }
    (currentRunIndex { item with data } node.name st.runData) hresults
    { st with
      nodeExecutionStack := st.nodeExecutionStack.tail
      executionError := none }
  rw [hrun] at hkept
  have hnames : LoopState.Holds { attempt.st with executionError := attempt.executionError }
      config.workflow names := by
    refine ⟨?_, fun n hn => hst.nodes n (List.mem_cons_of_mem _ hn), ?_,
      hkept.lastExecutionTry.trans hst.lastExecutionTry⟩
    · rw [hkept.state, hstack]
      exact hrest
    · rw [hkept.state]
      exact hst.waiting
  obtain ⟨st', hpass, hholds⟩ := passOn_holds htree hfirst hv1 { item with data }
    (currentRunIndex { item with data } node.name st.runData) hdestination hnames hwait harrays hitems
  refine ⟨st', ?_, hholds⟩
  have hinputs : ∀ st : LoopState J, ensureInputData config.workflow node { item with data } st =
      (st, true) := fun _ => if_pos (hasDataForInputs_eq_true hv1
        (main_newTaskDataConnections hslots hdata) _)
  have htry : node.name ++ ":" ++ toString (currentRunIndex { item with data } node.name st.runData) ≠
      st.lastExecutionTry := by
    rw [hst.lastExecutionTry]
    simp
  have hin : ¬config.runNodeFilter.any (node.name ∉ ·) = true := by
    simp only [Option.any_eq_true, decide_eq_true_eq, not_exists, not_and, not_not]
    exact fun filter hmem => hfilter filter hmem _ (hst.nodes _ List.mem_cons_self)
  unfold iteration
  rw [if_neg (by simp [hcanceled])]
  refine bind_eq_ok.mpr ⟨item, orTypeError_eq_ok.mpr hhead, bind_eq_ok.mpr ⟨data, hdata,
    bind_eq_ok.mpr ⟨node, orTypeError_eq_ok.mpr hnode, ?_⟩⟩⟩
  dsimp only
  rw [if_neg htry, if_neg hin, hinputs, hrun]
  exact (finishIteration_of_passedOn hpassed).trans hpass

end Delivery

end Iteration

/-! ## The whole execution -/

/-- An execution of a tree from its start node in order v1, in which no node is filtered out
or the destination, no node asks for others to be run, and every node emits. -/
structure TreeExecution (config : LoopConfig J) (start : INode) (inputs : List (IterationInput J))
    (init : LoopState J) : Prop where
  tree : config.workflow.TreeShaped start
  executionOrder : config.workflow.executionOrder = some .v1
  not_filtered : ∀ filter ∈ config.runNodeFilter, ∀ nodeName,
    config.workflow.nodes.has nodeName → nodeName ∈ filter
  no_destination : config.destinationNode = none
  holds_start : init.Holds config.workflow [start.name]
  not_canceled : ∀ input ∈ inputs, input.canceled = false
  no_request : ∀ input ∈ inputs, ∀ k, (input.results k).noRequest
  emits : ∀ x ∈ iterations config inputs init, emits config x.2 x.1

variable {config} {inputs : List (IterationInput J)}

theorem iterations_of_stack_eq_nil (h : st.nodeExecutionStack = []) :
    iterations config inputs st = [] := by
  cases inputs <;> simp [iterations, h]

theorem executionLoop_of_stack_eq_nil {exit : Option Exit} (h : st.nodeExecutionStack = []) :
    executionLoop config inputs st exit = .ok (some (st, exit)) := by
  unfold executionLoop
  rw [h]
  rfl

/-- The nodes on the stack are executed, each with what is below it before the next. -/
theorem executionLoop_holds {start : INode} (htree : config.workflow.TreeShaped start)
    (hfirst : ∀ c ∈ allConnections config.workflow.connectionsBySourceNode,
      c.connection.type = .main → c.connection.index = 0)
    (hv1 : config.workflow.executionOrder = some .v1) (hdestination : config.destinationNode = none)
    (hfilter : ∀ filter ∈ config.runNodeFilter, ∀ n, config.workflow.nodes.has n → n ∈ filter) (hcanceled : ∀ input ∈ inputs, input.canceled = false)
    (hresults : ∀ input ∈ inputs, ∀ k, (input.results k).noRequest) {names order : List String}
    (horder : InPreorder config.workflow.children names order)
    (hst : st.Holds config.workflow names) {exit : Option Exit}
    (hemits : ∀ x ∈ iterations config inputs st, emits config x.2 x.1)
    (hexit : names = [] → exit = some .completed) :
    executedNodes config inputs st = order.take inputs.length ∧
      (order.length ≤ inputs.length → ∃ st', st'.nodeExecutionStack = [] ∧
        executionLoop config inputs st exit = .ok (some (st', some .completed))) := by
  induction inputs generalizing names order st exit with
  | nil =>
    cases names with
    | nil =>
      obtain rfl := inPreorder_nil_iff.mp horder
      have hstack := List.forall₂_nil_right_iff.mp hst.stack
      rw [hexit rfl]
      exact ⟨rfl, fun _ => ⟨st, hstack, executionLoop_of_stack_eq_nil hstack⟩⟩
    | cons nodeName names =>
      obtain ⟨order, rfl, -⟩ := inPreorder_cons_iff.mp horder
      exact ⟨rfl, fun hlen => absurd hlen (by simp)⟩
  | cons input inputs ih =>
    cases names with
    | nil =>
      obtain rfl := inPreorder_nil_iff.mp horder
      have hstack := List.forall₂_nil_right_iff.mp hst.stack
      rw [hexit rfl, executedNodes, iterations_of_stack_eq_nil hstack]
      exact ⟨rfl, fun _ => ⟨st, hstack, executionLoop_of_stack_eq_nil hstack⟩⟩
    | cons nodeName names =>
      obtain ⟨order, rfl, hrest⟩ := inPreorder_cons_iff.mp horder
      obtain ⟨item, rest, ⟨⟨node, hnode, rfl⟩, -⟩, -, hstack⟩ :=
        List.forall₂_cons_right_iff.mp hst.stack
      have hne : st.nodeExecutionStack.isEmpty = false := by rw [hstack]; rfl
      have hemits₁ : emits config input st := hemits (st, input) (by simp [iterations, hne])
      obtain ⟨st', hiteration, hst'⟩ := iteration_holds htree hfirst hv1 hdestination hfilter
        (hcanceled input (by simp)) (hresults input (by simp)) hst hemits₁
      have hiterations : iterations config (input :: inputs) st =
          (st, input) :: iterations config inputs st' := by
        simp [iterations, hne, hiteration, Exit.breaks]
      obtain ⟨hexecuted, hloop⟩ := ih (fun input hi => hcanceled input (by simp [hi]))
        (fun input hi => hresults input (by simp [hi])) hrest hst'
        (fun x hx => hemits x (by simp [hiterations, hx])) (fun _ => rfl)
      refine ⟨?_, fun hlen => ?_⟩
      · have hname : (st, input).1.topNode = some node.name := by
          rw [LoopState.topNode, hstack, List.head?_cons, Option.bind_some, hnode, Option.map_some]
        simp only [executedNodes, hiterations, List.filterMap_cons, hname, List.length_cons,
          List.take_succ_cons]
        exact congrArg _ hexecuted
      · obtain ⟨st'', hempty, hdone⟩ := hloop (by simpa using hlen)
        refine ⟨st'', hempty, ?_⟩
        rw [executionLoop, hne]
        exact bind_eq_ok.mpr ⟨_, hiteration, hdone⟩

/-- If every connection to a Main input is to the first one, a tree is executed in preorder,
as far as there are iterations; with an iteration for each node it is executed to its end. -/
theorem executionLoop_inPreorder {start : INode} {inputs : List (IterationInput J)}
    {init : LoopState J} (h : TreeExecution config start inputs init)
    (hfirst : ∀ c ∈ allConnections config.workflow.connectionsBySourceNode,
      c.connection.type = .main → c.connection.index = 0) :
    ∃ order, InPreorder config.workflow.children [start.name] order ∧
      executedNodes config inputs init = order.take inputs.length ∧
      (order.length ≤ inputs.length → ∃ st, st.nodeExecutionStack = [] ∧
        executionLoop config inputs init none = .ok (some (st, some .completed))) := by
  obtain ⟨order, horder⟩ := h.tree.exists_inPreorder
  exact ⟨order, horder, executionLoop_holds h.tree hfirst h.executionOrder h.no_destination
    h.not_filtered h.not_canceled h.no_request horder h.holds_start h.emits
    fun hnil => absurd hnil (List.cons_ne_nil _ _)⟩

/-! ## A tree, and one with a connection to a second input -/

/-- A workflow in order v1 with these nodes and connections. -/
def workflowOf (nodes : List INode) (connections : IConnections) : Workflow where
  nodes := setNodes nodes
  connectionsBySourceNode := connections
  connectionsByDestinationNode := mapConnectionsByDestination connections
  executionOrder := some .v1
  name_of_get? := name_of_setNodes

/-- `Trigger` leads to `Below` and to `Top`, and `Top` to `Right`. -/
def treeWorkflow : Workflow :=
  workflowOf
    [{ name := "Trigger" }, { name := "Below", position := (100, 100) },
      { name := "Top", position := (100, 0) }, { name := "Right", position := (200, 0) }]
    (((∅ : IConnections).set "Trigger" ((∅ : INodeConnections).set .main
      [some [⟨"Below", .main, 0⟩, ⟨"Top", .main, 0⟩]])).set "Top"
      ((∅ : INodeConnections).set .main [some [⟨"Right", .main, 0⟩]]))

theorem treeShaped_treeWorkflow : treeWorkflow.TreeShaped (.named "Trigger") where
  byDestination := by rw [treeWorkflow, workflowOf]
  connected := by decide
  nodup_mainTargets := by decide
  has_start := by decide
  not_cyclic := not_cyclic_of_not_mem_mainTargets (by decide)
  nodup_positions := by decide

theorem treeExecution_treeWorkflow :
    TreeExecution { workflow := treeWorkflow } (.named "Trigger") (List.replicate 4 oneItem)
      startAtTrigger where
  tree := treeShaped_treeWorkflow
  executionOrder := rfl
  not_filtered := by simp
  no_destination := rfl
  holds_start := ⟨.cons ⟨⟨_, rfl, rfl⟩, _, rfl⟩ .nil, by decide, rfl, rfl⟩
  not_canceled input h := by rw [List.eq_of_mem_replicate h]; rfl
  no_request input h k := by rw [List.eq_of_mem_replicate h]; trivial
  emits := by decide

theorem executionLoop_inPreorder_treeWorkflow :
    executedNodes { workflow := treeWorkflow } (List.replicate 4 oneItem) startAtTrigger =
        ["Trigger", "Top", "Right", "Below"] ∧
      ∃ order, InPreorder treeWorkflow.children ["Trigger"] order ∧
        executedNodes { workflow := treeWorkflow } (List.replicate 4 oneItem) startAtTrigger =
          order.take 4 ∧
        (order.length ≤ 4 → ∃ st, st.nodeExecutionStack = [] ∧
          executionLoop { workflow := treeWorkflow } (List.replicate 4 oneItem) startAtTrigger none =
            .ok (some (st, some .completed))) := by
  obtain ⟨order, horder, hnodes, hcompleted⟩ :=
    executionLoop_inPreorder treeExecution_treeWorkflow (by decide)
  rw [List.length_replicate] at hnodes hcompleted
  exact ⟨by decide, order, horder, hnodes, hcompleted⟩

/-- `Trigger` leads to `Below` and to the second input of `Merge`, which needs one input. -/
def lateWorkflow : Workflow :=
  { workflowOf
      [{ name := "Trigger" }, { name := "Below", position := (100, 100) },
        { name := "Merge", position := (100, 0) }]
      ((∅ : IConnections).set "Trigger" ((∅ : INodeConnections).set .main
        [some [⟨"Below", .main, 0⟩, ⟨"Merge", .main, 1⟩]])) with
    nodeType := fun node =>
      some (if node.name = "Merge" then { inputs := 2, requiredInputs := some (.count 1) } else {}) }

theorem treeShaped_lateWorkflow : lateWorkflow.TreeShaped (.named "Trigger") where
  byDestination := by rw [lateWorkflow, workflowOf]
  connected := by decide
  nodup_mainTargets := by decide
  has_start := by decide
  not_cyclic := not_cyclic_of_not_mem_mainTargets (by decide)
  nodup_positions := by decide

theorem treeExecution_lateWorkflow :
    TreeExecution { workflow := lateWorkflow } (.named "Trigger") (List.replicate 3 oneItem)
      startAtTrigger where
  tree := treeShaped_lateWorkflow
  executionOrder := rfl
  not_filtered := by simp
  no_destination := rfl
  holds_start := ⟨.cons ⟨⟨_, rfl, rfl⟩, _, rfl⟩ .nil, by decide, rfl, rfl⟩
  not_canceled input h := by rw [List.eq_of_mem_replicate h]; rfl
  no_request input h k := by rw [List.eq_of_mem_replicate h]; trivial
  emits := by decide

theorem inPreorder_lateWorkflow :
    InPreorder lateWorkflow.children ["Trigger"] ["Trigger", "Merge", "Below"] := by
  have htrigger : lateWorkflow.children "Trigger" = ["Merge", "Below"] := by decide
  have hmerge : lateWorkflow.children "Merge" = [] := by decide
  have hbelow : lateWorkflow.children "Below" = [] := by decide
  refine inPreorder_cons_iff.mpr ⟨_, rfl, ?_⟩
  rw [htrigger]
  refine inPreorder_cons_iff.mpr ⟨_, rfl, ?_⟩
  rw [hmerge]
  refine inPreorder_cons_iff.mpr ⟨_, rfl, ?_⟩
  rw [hbelow]
  exact .nil

/-- `Merge` has one incoming connection and is the child to be executed first. It waits for
its first input, which nothing is connected to, until `Below` has been executed. -/
theorem executionLoop_not_inPreorder :
    TreeExecution { workflow := lateWorkflow } (.named "Trigger") (List.replicate 3 oneItem)
        startAtTrigger ∧
      InPreorder lateWorkflow.children ["Trigger"] ["Trigger", "Merge", "Below"] ∧
      executedNodes { workflow := lateWorkflow } (List.replicate 3 oneItem) startAtTrigger =
        ["Trigger", "Below", "Merge"] :=
  ⟨treeExecution_lateWorkflow, inPreorder_lateWorkflow, by decide⟩

end N8n
