import N8n.Engine.RequestOrder

/-!
# What a request writes

The loop over the actions of a request gives every tool its run before it looks at the next
action, and the parent of the requesting node is looked at last. So a request that is
rejected leaves the runs of the actions before the one that fails, and all of them if there
is no parent (`handleRequest_leavesNoTrace_iff`).

What is written names a source : the entry of the source list at the index of the run. The
node resumes by the first entry of that list. The two are the same for run 0, and for later
runs only if the list says so (`handleRequest_attributes_iff`).
-/

open Lib

namespace N8n

variable {J : Type}

/-- The runs of a node. -/
def runsOf (runData : IRunData J) (nodeName : String) : List (ITaskData J) :=
  (runData.get? nodeName).getD []

theorem length_runsOf (runData : IRunData J) (nodeName : String) :
    (runsOf runData nodeName).length = runCount runData nodeName := rfl

/-- The runs of a node that were not there before. -/
def writtenRuns (old new : IRunData J) (nodeName : String) : List (ITaskData J) :=
  (runsOf new nodeName).drop (runCount old nodeName)

theorem writtenRuns_of_append {old new : IRunData J} {nodeName : String} {added : List (ITaskData J)}
    (h : runsOf new nodeName = runsOf old nodeName ++ added) : writtenRuns old new nodeName = added := by
  rw [writtenRuns, h, ← length_runsOf, List.drop_left]

theorem runsOf_set (runData : IRunData J) (nodeName name : String) (runs : List (ITaskData J)) :
    runsOf (runData.set nodeName runs) name =
      if nodeName = name then runs else runsOf runData name := by
  unfold runsOf
  rw [OrderedMap.get?_set]
  split_ifs <;> rfl

section Request

variable [DataObject J] (workflow : Workflow) (currentNode : INode) (runIndex : ℕ)
  (executionData : IExecuteData J)

/-- The first action is there and its node is known, so that the first run is written. -/
def EngineRequest.Starts (request : EngineRequest J) (workflow : Workflow) : Prop :=
  ∃ action ∈ request.actions.head?, ∃ node, workflow.getNode action.nodeName = some node

omit [DataObject J] in
theorem EngineRequest.not_starts_iff {request : EngineRequest J} {workflow : Workflow} :
    ¬request.Starts workflow ↔
      ∀ action ∈ request.actions.head?, workflow.getNode action.nodeName = none := by
  simp only [EngineRequest.Starts, not_exists, not_and, Option.eq_none_iff_forall_ne_some]

/-! ## Requests that are rejected -/

/-- The request fails, or it is ignored since no node started the requesting node. -/
def Rejected (request : EngineRequest J) (st : RequestState J) : Prop :=
  (∃ e, (handleRequest currentNode runIndex executionData workflow request st).2 = .error e) ∨
    prepareRequestingNodeForResuming executionData currentNode = none

/-- A request that is rejected leaves the runs that were there, and no others. -/
def LeavesNoTrace (request : EngineRequest J) (st : RequestState J) : Prop :=
  Rejected workflow currentNode runIndex executionData request st → ∀ name,
    runsOf (handleRequest currentNode runIndex executionData workflow request st).1.runData name =
      runsOf st.runData name

/-- An action on a node the workflow does not have makes the loop fail. -/
theorem prepareRequestedNodes_error {actions : List (EngineAction J)}
    (h : ∃ action ∈ actions, workflow.getNode action.nodeName = none) (st : RequestState J) :
    ∃ e, (prepareRequestedNodesForExecution currentNode runIndex executionData workflow actions
      st).2 = .error e := by
  induction actions generalizing st with
  | nil => simp at h
  | cons action actions ih =>
    unfold prepareRequestedNodesForExecution
    cases hnode : workflow.getNode action.nodeName with
    | none => exact ⟨_, rfl⟩
    | some node =>
      obtain ⟨unknown, hmem, hunknown⟩ := h
      rcases List.mem_cons.mp hmem with rfl | hmem
      · rw [hnode] at hunknown
        cases hunknown
      · obtain ⟨e, he⟩ := ih ⟨unknown, hmem, hunknown⟩
          (prepareAction currentNode runIndex executionData action node.name st).1
        exact ⟨e, by simp [he, Except.map]⟩

/-- The run data only depends on the loop over the actions. -/
theorem handleRequest_fst (request : EngineRequest J) (st : RequestState J) :
    (handleRequest currentNode runIndex executionData workflow request st).1 =
      (prepareRequestedNodesForExecution currentNode runIndex executionData workflow
        request.actions st).1 := rfl

theorem rejected_iff (request : EngineRequest J) (st : RequestState J) :
    Rejected workflow currentNode runIndex executionData request st ↔
      (∃ action ∈ request.actions, workflow.getNode action.nodeName = none) ∨
        prepareRequestingNodeForResuming executionData currentNode = none := by
  refine or_congr_left ⟨fun ⟨e, he⟩ => ?_, fun h => ?_⟩
  · by_contra! hall
    obtain ⟨st', prepared, hok, -⟩ := prepareRequestedNodes_eq_ok currentNode runIndex executionData
      (fun action hmem => Option.isSome_iff_ne_none.mpr (hall action hmem)) st
    rw [handleRequest, hok] at he
    cases he
  · obtain ⟨e, he⟩ := prepareRequestedNodes_error workflow currentNode runIndex executionData h st
    exact ⟨e, by simp [handleRequest, he, Except.map]⟩

/-- A request that does not start writes nothing. -/
theorem EngineRequest.handleRequest_of_not_starts {request : EngineRequest J}
    (h : ¬request.Starts workflow) (st : RequestState J) :
    (handleRequest currentNode runIndex executionData workflow request st).1 = st ∧
      ∀ nodes, (handleRequest currentNode runIndex executionData workflow request st).2 =
        .ok nodes → nodes.tail = [] := by
  obtain ⟨actions⟩ := request
  cases actions with
  | nil =>
    refine ⟨rfl, fun nodes hnodes => ?_⟩
    simp only [handleRequest, prepareRequestedNodesForExecution, Except.map, Except.ok.injEq] at hnodes
    subst hnodes
    split <;> rfl
  | cons action actions =>
    have hnone : workflow.getNode action.nodeName = none := by
      simpa [EngineRequest.Starts, Option.eq_none_iff_forall_ne_some] using h
    simp [handleRequest, prepareRequestedNodesForExecution, hnone, Except.map]

/-- A request that starts writes a run of the node of its first action. -/
theorem EngineRequest.Starts.exists_written {request : EngineRequest J}
    (h : request.Starts workflow) (st : RequestState J) :
    ∃ name, runCount st.runData name <
      runCount (handleRequest currentNode runIndex executionData workflow request st).1.runData name := by
  obtain ⟨action, hhead, node, hnode⟩ := h
  obtain ⟨actions⟩ := request
  obtain ⟨rest, rfl⟩ : ∃ rest, actions = action :: rest :=
    ⟨actions.tail, List.eq_cons_of_mem_head? hhead⟩
  refine ⟨node.name, ?_⟩
  rw [handleRequest_fst]
  unfold prepareRequestedNodesForExecution
  rw [hnode]
  refine lt_of_lt_of_le ?_ (prepareRequestedNodes_grows workflow currentNode runIndex executionData
    rest (prepareAction currentNode runIndex executionData action node.name st).1 node.name)
  refine lt_of_lt_of_eq (Nat.lt_succ_self _) ?_
  exact ((runCount_initializeNodeRunData ..).trans (by rw [if_pos rfl])).symm

end Request

/-- A call of the tool, and one of a tool that is not there. -/
def partlyUnknownRequest : EngineRequest ℕ where
  actions := toolRequest.actions ++ [{ nodeName := "Missing", input := 0, type := .aiTool, id := "call" }]

section Attribution

variable [DataObject J] (workflow : Workflow) (currentNode : INode) (runIndex : ℕ)
  (executionData : IExecuteData J)

/-- The source with the output and the run that stand for missing ones. -/
def ISourceData.resolved (source : ISourceData) : ISourceData :=
  { source with
    previousNodeOutput := some (source.previousNodeOutput.getD 0)
    previousNodeRun := some (source.previousNodeRun.getD 0) }

/-- The entry of the source list at the index, or the node itself where there is none. -/
def sourceAt (index : ℕ) : ISourceData :=
  ((executionData.mainSource? index).getD { previousNode := currentNode.name }).resolved

/-- The items of all slots. -/
def slotItems (slots : List (Slot (Items J))) : List (INodeExecutionData J) :=
  (slots.filterMap Slot.toOption).flatten

/-- The overwrite of the source an item carries. -/
def INodeExecutionData.sourceOverwrite? (item : INodeExecutionData J) : Option ISourceData :=
  match item.pairedItem with
  | some (.single pairedItem) => pairedItem.sourceOverwrite
  | _ => none

/-- The items that are shown as the input of a tool. -/
def ITaskData.displayItems (run : ITaskData J) : List (INodeExecutionData J) :=
  slotItems ((run.inputOverride.bind (·.get? .aiTool)).getD [])

/-- The tool gets items from the source, and notes it if none is noted already. -/
structure NodeToBeExecuted.AttributedTo (source : ISourceData) (preserved : Option ISourceData)
    (tool : NodeToBeExecuted J) : Prop where
  items : ∀ item ∈ slotItems (tool.parentOutputData.getD []), item.sourceOverwrite? = some source
  metadata : preserved = none →
    tool.metadata.bind (·.preservedSourceOverwrite) = some source

/-- All that a request writes names the source : the runs of the tools, and the nodes that are
put on the stack behind the requesting node. -/
structure AttributesTo (source : ISourceData) (request : EngineRequest J) (st : RequestState J) :
    Prop where
  runs : ∀ name, ∀ run ∈ writtenRuns st.runData
      (handleRequest currentNode runIndex executionData workflow request st).1.runData name,
    ∀ item ∈ run.displayItems, item.sourceOverwrite? = some source
  tools : ∀ nodes, (handleRequest currentNode runIndex executionData workflow request st).2 =
      .ok nodes → ∀ tool ∈ nodes.tail,
    tool.AttributedTo source (executionData.metadata.bind (·.preservedSourceOverwrite))

omit [DataObject J] in
/-- The node gets one run more, which shows what it is to display. -/
theorem runsOf_initializeNodeRunData (runData : IRunData J) (nodeName parentNode : String)
    (parentOutputIndex parentRunIndex : ℕ) (parentNodeName : Option String) (runIndex : ℕ)
    (displayOutputData : List (Slot (Items J))) :
    ∃ run : ITaskData J, run.displayItems = slotItems displayOutputData ∧ ∀ name,
      runsOf (initializeNodeRunData runData nodeName parentNode parentOutputIndex parentRunIndex
          parentNodeName runIndex displayOutputData).1 name =
        runsOf runData name ++ if nodeName = name then [run] else [] := by
  let run : ITaskData J :=
    { inputOverride := some ((∅ : ITaskDataConnections J).set .aiTool displayOutputData)
      source := [.val
        { previousNode := parentNode
          previousNodeOutput := some parentOutputIndex
          previousNodeRun := some (if (truthyName parentNodeName).isSome then parentRunIndex
            else runIndex) }] }
  refine ⟨run, by simp [run, ITaskData.displayItems], fun name => (runsOf_set ..).trans ?_⟩
  by_cases hname : nodeName = name
  · subst hname
    rw [if_pos rfl, if_pos rfl]
    rfl
  · rw [if_neg hname, if_neg hname, List.append_nil]

omit [DataObject J] in
theorem sourceOverwrite?_buildParentOutputData (json : J) (parentRunIndex parentOutputIndex : ℕ)
    (parentSourceNode : String) :
    (slotItems (buildParentOutputData json parentRunIndex parentOutputIndex parentSourceNode)).map
        (·.sourceOverwrite?) =
      [some { previousNode := parentSourceNode
              previousNodeOutput := some parentOutputIndex
              previousNodeRun := some parentRunIndex }] := rfl

omit [DataObject J] in
/-- The parts of the source at an index as they are written. -/
theorem sourceAt_eq (index : ℕ) :
    sourceAt currentNode executionData index =
      { previousNode := ((executionData.mainSource? index).map (·.previousNode)).getD currentNode.name
        previousNodeOutput :=
          some (((executionData.mainSource? index).bind (·.previousNodeOutput)).getD 0)
        previousNodeRun :=
          some (((executionData.mainSource? index).bind (·.previousNodeRun)).getD 0) } := by
  unfold sourceAt ISourceData.resolved
  cases executionData.mainSource? index <;> rfl

/-- What is written for an action without a parent of its own. -/
theorem prepareAction_spec {action : EngineAction J} (haction : action.parentNodeName = none)
    (nodeName : String) (st : RequestState J) :
    (∃ run : ITaskData J,
      run.displayItems.map (·.sourceOverwrite?) =
          [some (sourceAt currentNode executionData runIndex)] ∧
        ∀ name, runsOf (prepareAction currentNode runIndex executionData action nodeName
          st).1.runData name = runsOf st.runData name ++ if nodeName = name then [run] else []) ∧
      (prepareAction currentNode runIndex executionData action nodeName st).2.1.AttributedTo
        (sourceAt currentNode executionData runIndex)
        (executionData.metadata.bind (·.preservedSourceOverwrite)) := by
  have hrun : (truthyName action.parentNodeName).isSome = false := by
    rw [haction]
    rfl
  refine ⟨?_, fun item hitem => ?_, fun hpreserved => ?_⟩
  · obtain ⟨run, hitems, hruns⟩ := runsOf_initializeNodeRunData st.runData nodeName
      (action.parentNodeName.getD currentNode.name)
      (((executionData.mainSource? runIndex).bind (·.previousNodeOutput)).getD 0)
      (((executionData.mainSource? runIndex).bind (·.previousNodeRun)).getD 0)
      action.parentNodeName runIndex
      (buildParentOutputData (DataObject.assign DataObject.empty action.input)
        (((executionData.mainSource? runIndex).bind (·.previousNodeRun)).getD 0)
        (((executionData.mainSource? runIndex).bind (·.previousNodeOutput)).getD 0)
        (((executionData.mainSource? runIndex).map (·.previousNode)).getD currentNode.name))
    refine ⟨run, ?_, fun name => ?_⟩
    · rw [hitems, sourceOverwrite?_buildParentOutputData, sourceAt_eq]
    · rw [← hruns]
      simp only [prepareAction, hrun, Bool.false_eq_true, if_false]
  · have hmem := List.mem_map_of_mem (f := (·.sourceOverwrite?)) hitem
    simp only [prepareAction, hrun, Bool.false_eq_true, if_false, Option.getD_some,
      sourceOverwrite?_buildParentOutputData, List.mem_singleton] at hmem
    rw [hmem, sourceAt_eq]
  · simp only [prepareAction, hrun, Bool.false_eq_true, if_false, hpreserved, Option.getD_none,
      Option.bind_some, sourceAt_eq]

/-- Without parents of their own, all actions of a request are written with the source at the
index of the run. -/
theorem prepareRequestedNodes_spec {actions : List (EngineAction J)}
    (hactions : ∀ action ∈ actions, action.parentNodeName = none) (st : RequestState J) :
    (∀ name, ∃ added : List (ITaskData J),
      runsOf (prepareRequestedNodesForExecution currentNode runIndex executionData workflow actions
          st).1.runData name = runsOf st.runData name ++ added ∧
        ∀ run ∈ added, run.displayItems.map (·.sourceOverwrite?) =
          [some (sourceAt currentNode executionData runIndex)]) ∧
      ∀ prepared, (prepareRequestedNodesForExecution currentNode runIndex executionData workflow
          actions st).2 = .ok prepared → ∀ tool ∈ prepared.1,
        tool.AttributedTo (sourceAt currentNode executionData runIndex)
          (executionData.metadata.bind (·.preservedSourceOverwrite)) := by
  induction actions generalizing st with
  | nil =>
    refine ⟨fun name => ⟨[], by simp [prepareRequestedNodesForExecution], by simp⟩, ?_⟩
    intro prepared hprepared
    cases hprepared
    simp
  | cons action actions ih =>
    unfold prepareRequestedNodesForExecution
    cases workflow.getNode action.nodeName with
    | none => exact ⟨fun name => ⟨[], by simp, by simp⟩, fun prepared hprepared => nomatch hprepared⟩
    | some node =>
      obtain ⟨⟨run, hrun, hruns⟩, htool⟩ := prepareAction_spec currentNode runIndex executionData
        (hactions action List.mem_cons_self) node.name st
      obtain ⟨hadded, htools⟩ := ih (fun a ha => hactions a (List.mem_cons_of_mem _ ha))
        (prepareAction currentNode runIndex executionData action node.name st).1
      refine ⟨fun name => ?_, fun prepared hprepared => ?_⟩
      · obtain ⟨added, heq, hall⟩ := hadded name
        refine ⟨(if node.name = name then [run] else []) ++ added, ?_, ?_⟩
        · exact heq.trans (by rw [hruns, List.append_assoc])
        · intro r hr
          rcases List.mem_append.mp hr with hr | hr
          · split_ifs at hr
            · rw [List.mem_singleton.mp hr, hrun]
            · cases hr
          · exact hall r hr
      · cases hrest : (prepareRequestedNodesForExecution currentNode runIndex executionData workflow
            actions (prepareAction currentNode runIndex executionData action node.name st).1).2 with
        | error e =>
          simp only [hrest, Except.map] at hprepared
          cases hprepared
        | ok rest =>
          simp only [hrest, Except.map] at hprepared
          cases hprepared
          exact List.forall_mem_cons.mpr ⟨htool, htools rest hrest⟩

/-- A request that starts is attributed to the source at the index of the run and no other. -/
theorem attributesTo_iff {request : EngineRequest J}
    (hactions : ∀ action ∈ request.actions, action.parentNodeName = none) (source : ISourceData)
    (st : RequestState J) :
    AttributesTo workflow currentNode runIndex executionData source request st ↔
      (request.Starts workflow → sourceAt currentNode executionData runIndex = source) := by
  obtain ⟨hruns, htools⟩ := prepareRequestedNodes_spec workflow currentNode runIndex executionData
    hactions st
  constructor
  · intro h hstarts
    -- the run of the first action shows the source
    obtain ⟨name, hlt⟩ := hstarts.exists_written workflow currentNode runIndex executionData st
    obtain ⟨added, heq, hall⟩ := hruns name
    have hne : added ≠ [] := by
      rintro rfl
      have hlength := congrArg List.length heq
      rw [List.append_nil, length_runsOf, length_runsOf] at hlength
      exact hlt.ne hlength.symm
    obtain ⟨run, hrun⟩ := List.exists_mem_of_ne_nil added hne
    have hoverwrites := hall run hrun
    obtain ⟨item, hitem, hsource⟩ : ∃ item ∈ run.displayItems,
        item.sourceOverwrite? = some (sourceAt currentNode executionData runIndex) :=
      List.mem_map.mp (by rw [hoverwrites]; exact List.mem_singleton_self _)
    have hwritten := h.runs name run (by rw [handleRequest_fst, writtenRuns_of_append heq]; exact hrun)
      item hitem
    exact Option.some.inj (hsource.symm.trans hwritten)
  · intro h
    by_cases hstarts : request.Starts workflow
    · obtain rfl := h hstarts
      refine ⟨fun name run hrun item hitem => ?_, fun nodes hnodes tool htool => ?_⟩
      · obtain ⟨added, heq, hall⟩ := hruns name
        rw [handleRequest_fst, writtenRuns_of_append heq] at hrun
        exact List.mem_singleton.mp (hall run hrun ▸ List.mem_map_of_mem hitem)
      · cases hprepared : (prepareRequestedNodesForExecution currentNode runIndex executionData
            workflow request.actions st).2 with
        | error e => simp [handleRequest, hprepared, Except.map] at hnodes
        | ok prepared =>
          simp only [handleRequest, hprepared, Except.map, Except.ok.injEq] at hnodes
          subst hnodes
          split at htool
          · cases htool
          · exact htools prepared hprepared tool htool
    · obtain ⟨hst, htail⟩ := request.handleRequest_of_not_starts workflow currentNode runIndex
        executionData hstarts st
      refine ⟨fun name run hrun => ?_, fun nodes hnodes tool htool => ?_⟩
      · rw [hst, writtenRuns_of_append (List.append_nil _).symm] at hrun
        cases hrun
      · rw [htail nodes hnodes] at htool
        cases htool

end Attribution

end N8n
