import N8n.PartialExecution.RecreateStack
import N8n.Engine.PreparedEntries

/-!
# The waiting state rebuilt for a partial execution

An incomplete source group gets a waiting entry when one of its connections has data. Only
the inputs with data are written, and one Main input of the group has no source with data :
its slot stays a hole or beyond the end of the array (`recreated_lacks`), where the engine
has `null`. The rebuilt state is a legal state of the engine exactly when no entry is
rebuilt at all (`recreateNodeExecutionStack_legalWaiting_iff`).
-/

open Lib

namespace N8n

variable {J : Type}

/-- The engine's state at the start of the partial execution. -/
def RecreatedExecution.toState (recreated : RecreatedExecution J) (runData : IRunData J) :
    ExecutionState J :=
  { runData
    nodeExecutionStack := recreated.nodeExecutionStack
    waitingExecution := recreated.waitingExecution
    waitingExecutionSource := recreated.waitingExecutionSource }

/-- Every waiting entry has the shape the engine gives it, and however deliveries go on, a
node with several inputs is pushed from an entry only when each of them has data. -/
def LegalWaiting [DataObject J] (workflow : Workflow) (st : ExecutionState J) : Prop :=
  ∀ nodeName, Prepared workflow nodeName st ∧
    (1 < workflow.numberOfInputs nodeName → PushesOnlyComplete workflow nodeName st)

/-- The Main connections of the graph lead to inputs the nodes have in the workflow. -/
def MainInputsOf (workflow : Workflow) (g : DirectedGraph) : Prop :=
  ∀ c ∈ g.getConnections, c.type = .main →
    0 ≤ c.inputIndex ∧ c.inputIndex < workflow.numberOfInputs c.to.name

/-- Some connection of the group has run data with items. -/
def SourceConnectionGroup.HasRunData (runData : IRunData J) (group : SourceConnectionGroup) :
    Prop :=
  ∃ c ∈ group.connections, HasIncomingData runData c.from.name c.type c.outputIndex

/-! ## Entries lack an input -/

/-- The entry has nothing, not even `null`, for input `j`. -/
def LacksInput (j : ℕ) (entry : ITaskDataConnections J) : Prop :=
  ∀ main, entry.get? .main = some main → main.getD j .hole = .hole

theorem not_hasShape_of_lacksInput {inputs j : ℕ} (hj : j < inputs)
    {entry : ITaskDataConnections J} (h : LacksInput j entry) {main : List (Slot (Items J))}
    (hmain : entry.get? .main = some main) : ¬HasShape inputs main := by
  rintro ⟨rfl, hslots⟩
  have hhole := h main hmain
  rw [List.getD_eq_getElem?_getD, List.getElem?_eq_getElem hj, Option.getD_some] at hhole
  rcases hslots _ (List.getElem_mem hj) with hnull | ⟨items, hval⟩
  · rw [hhole] at hnull
    cases hnull
  · rw [hhole] at hval
    cases hval

/-- The rebuilt waiting entries of a node. -/
def RecreatedExecution.entries (recreated : RecreatedExecution J) (nodeName : String) :
    WaitingEntries (ITaskDataConnections J) :=
  (recreated.waitingExecution.get? nodeName).getD ∅

section Connection

variable {runData : IRunData J} {nodeName : String} {index : ℕ} {c : GraphConnection}
  {recreated recreated' : RecreatedExecution J}

/-- A connection without run data changes nothing; one with run data is written into the
entry. -/
theorem addWaitingConnection_eq_ok
    (h : addWaitingConnection nodeName runData index recreated c = .ok recreated') :
    (¬HasIncomingData runData c.from.name c.type c.outputIndex ∧ recreated' = recreated) ∨
      HasIncomingData runData c.from.name c.type c.outputIndex ∧ ∃ items : Items J,
        recreated'.waitingExecution = addWaitingExecution recreated.waitingExecution nodeName index
          c.type c.inputIndex (.val items) := by
  obtain ⟨found, hfound, h⟩ := bind_eq_ok.mp h
  obtain ⟨-, hiff⟩ := getIncomingDataFromAnyRun_eq_ok hfound
  cases found with
  | none =>
    cases h
    exact Or.inl ⟨by simpa using hiff, rfl⟩
  | some found =>
    cases h
    exact Or.inr ⟨by simpa using hiff, found.1, rfl⟩

theorem entries_addWaitingExecution {inputType : NodeConnectionType} {inputIndex : ℤ}
    {slot : Slot (Items J)}
    (h : recreated'.waitingExecution = addWaitingExecution recreated.waitingExecution nodeName index
      inputType inputIndex slot) (name : String) :
    recreated'.entries name = if nodeName = name then
        (recreated.entries name).set index
          ((((recreated.entries name).get? index).getD ∅).set inputType
            (writeAt (((((recreated.entries name).get? index).getD ∅).get? inputType).getD [])
              inputIndex slot))
      else recreated.entries name := by
  unfold RecreatedExecution.entries
  rw [h, addWaitingExecution, addWaiting, OrderedMap.get?_set]
  split_ifs with hname
  · subst hname
    rfl
  · rfl

end Connection

/-! ## One group -/

/-- Connections of one group to the same input are the same. -/
theorem SourceConnectionGroup.IsValid.eq_of_inputIndex {hasData : GraphConnection → Bool}
    {group : SourceConnectionGroup} (h : group.IsValid hasData) {c c' : GraphConnection}
    (hc : c ∈ group.connections) (hc' : c' ∈ group.connections)
    (heq : c.inputIndex = c'.inputIndex) : c = c' := by
  obtain ⟨start, -, hindex⟩ := h.inputIndex_eq
  obtain ⟨k, hk⟩ := List.getElem?_of_mem hc
  obtain ⟨k', hk'⟩ := List.getElem?_of_mem hc'
  have h₁ := hindex k c hk
  have h₂ := hindex k' c' hk'
  obtain rfl : k = k' := by omega
  exact Option.some.inj (hk.symm.trans hk')

/-- Every rebuilt entry lacks an input its node has, and the next index is free. -/
structure Lacking (workflow : Workflow) (recreated : RecreatedExecution J) : Prop where
  lacks : ∀ name k entry, (recreated.entries name).get? k = some entry →
    ∃ j < workflow.numberOfInputs name, LacksInput j entry
  numbered : ∀ name k entry, (recreated.entries name).get? k = some entry →
    k < (recreated.entries name).size

section Group

variable {workflow : Workflow} {runData : IRunData J} {pinData : IPinData J} {startNode : INode}
  {group : SourceConnectionGroup} {recreated recreated' : RecreatedExecution J}

/-- While an entry is filled it keeps lacking input `j`. -/
structure Filling (workflow : Workflow) (nodeName : String) (index j : ℕ)
    (recreated : RecreatedExecution J) : Prop extends Lacking workflow recreated where
  entry : ∀ entry, (recreated.entries nodeName).get? index = some entry → LacksInput j entry
  le : index ≤ (recreated.entries nodeName).size

theorem addWaitingConnection_filling {nodeName : String} {index j : ℕ} {c : GraphConnection}
    (hj : j < workflow.numberOfInputs nodeName)
    (hc : HasIncomingData runData c.from.name c.type c.outputIndex → c.inputIndex ≠ j)
    (h : Filling workflow nodeName index j recreated)
    (hstep : addWaitingConnection nodeName runData index recreated c = .ok recreated') :
    Filling workflow nodeName index j recreated' := by
  obtain ⟨-, rfl⟩ | ⟨hdata, items, hwaiting⟩ := addWaitingConnection_eq_ok hstep
  · exact h
  have hentries := entries_addWaitingExecution hwaiting
  set entry := (((recreated.entries nodeName).get? index).getD ∅).set c.type
    (writeAt (((((recreated.entries nodeName).get? index).getD ∅).get? c.type).getD [])
      c.inputIndex (.val items)) with hentry
  have hself : recreated'.entries nodeName = (recreated.entries nodeName).set index entry := by
    rw [hentries, if_pos rfl]
  have hother : ∀ name, nodeName ≠ name → recreated'.entries name = recreated.entries name :=
    fun name hname => by rw [hentries, if_neg hname]
  have hlacks : LacksInput j entry := by
    have hold : LacksInput j (((recreated.entries nodeName).get? index).getD ∅) := by
      cases hget : (recreated.entries nodeName).get? index with
      | none => exact fun main hmain => by cases hmain
      | some old => exact h.entry old hget
    intro main hmain
    rw [hentry, OrderedMap.get?_set] at hmain
    split_ifs at hmain with htype
    · cases hmain
      rw [getD_writeAt, if_neg (hc hdata)]
      cases hget : (((recreated.entries nodeName).get? index).getD ∅).get? c.type with
      | none => rfl
      | some old => exact hold old (htype ▸ hget)
    · exact hold main hmain
  have hsize : (recreated.entries nodeName).size ≤ (recreated'.entries nodeName).size ∧
      index < (recreated'.entries nodeName).size := by
    rw [hself, OrderedMap.size_set]
    have hle := h.le
    split_ifs with hsome
    · obtain ⟨old, hget⟩ := Option.isSome_iff_exists.mp hsome
      exact ⟨le_rfl, h.numbered _ _ _ hget⟩
    · omega
  refine ⟨⟨fun name k e hget => ?_, fun name k e hget => ?_⟩, fun e hget => ?_, hsize.2.le⟩
  · by_cases hname : nodeName = name
    · subst hname
      rw [hself, OrderedMap.get?_set] at hget
      split_ifs at hget
      · cases hget
        exact ⟨j, hj, hlacks⟩
      · exact h.lacks _ k e hget
    · rw [hother name hname] at hget
      exact h.lacks name k e hget
  · by_cases hname : nodeName = name
    · subst hname
      rw [hself, OrderedMap.get?_set] at hget
      split_ifs at hget with hk
      · exact hk ▸ hsize.2
      · exact (h.numbered _ k e hget).trans_le hsize.1
    · rw [hother name hname] at hget ⊢
      exact h.numbered name k e hget
  · rw [hself, OrderedMap.get?_set_self, Option.some.injEq] at hget
    exact hget ▸ hlacks

/-- An incomplete group has a connection without data, whose input its entry lacks. -/
theorem addGroup_lacking (hvalid : group.IsValid (hasSourceData runData pinData))
    (hinputs : ∀ c ∈ group.connections, hasSourceData runData pinData c = false →
      0 ≤ c.inputIndex ∧ c.inputIndex < workflow.numberOfInputs startNode.name)
    (h : Lacking workflow recreated)
    (hstep : addGroup startNode runData pinData recreated group = .ok recreated') :
    Lacking workflow recreated' := by
  unfold addGroup at hstep
  split_ifs at hstep with hcomplete
  · obtain ⟨executeData, -, hstep⟩ := bind_eq_ok.mp hstep
    cases hstep
    exact ⟨h.lacks, h.numbered⟩
  · obtain ⟨c₀, hc₀, hno⟩ : ∃ c ∈ group.connections, hasSourceData runData pinData c = false := by
      simpa [hvalid.complete_iff] using hcomplete
    obtain ⟨hnonneg, hlt⟩ := hinputs c₀ hc₀ hno
    obtain ⟨j, hj⟩ := Int.eq_ofNat_of_zero_le hnonneg
    have hfilling : Filling workflow startNode.name (recreated.nextRunIndex startNode.name) j
        recreated' := by
      refine foldlM_invariant (fun s c hc s' hs hs' => addWaitingConnection_filling (by omega)
        (fun hdata hcj => ?_) hs hs') ⟨h, fun e hget => ?_, le_rfl⟩ hstep
      · obtain rfl := hvalid.eq_of_inputIndex hc hc₀ (hcj.trans hj.symm)
        obtain ⟨runs, hruns, -⟩ := hdata
        simp [hasSourceData, OrderedMap.has, hruns] at hno
      · exact absurd (h.numbered _ _ e hget) (lt_irrefl _)
    exact hfilling.toLacking

/-- The node has a waiting entry. -/
def HasEntry (nodeName : String) (recreated : RecreatedExecution J) : Prop :=
  ∃ k entry, (recreated.entries nodeName).get? k = some entry

theorem addWaitingConnection_hasEntry {nodeName name : String} {index : ℕ} {c : GraphConnection}
    (h : HasEntry name recreated)
    (hstep : addWaitingConnection nodeName runData index recreated c = .ok recreated') :
    HasEntry name recreated' := by
  obtain ⟨k, entry, hget⟩ := h
  obtain ⟨-, rfl⟩ | ⟨-, items, hwaiting⟩ := addWaitingConnection_eq_ok hstep
  · exact ⟨k, entry, hget⟩
  · rw [HasEntry, entries_addWaitingExecution hwaiting]
    split_ifs
    · exact ⟨index, _, OrderedMap.get?_set_self _ _ _⟩
    · exact ⟨k, entry, hget⟩

theorem addGroup_hasEntry {name : String} (h : HasEntry name recreated)
    (hstep : addGroup startNode runData pinData recreated group = .ok recreated') :
    HasEntry name recreated' := by
  unfold addGroup at hstep
  split_ifs at hstep
  · obtain ⟨executeData, -, hstep⟩ := bind_eq_ok.mp hstep
    cases hstep
    exact h
  · exact foldlM_invariant (fun s c _ s' hs hs' => addWaitingConnection_hasEntry hs hs') h hstep

/-- An incomplete group with run data gets an entry. -/
theorem hasEntry_addGroup (hcomplete : group.complete = false) (hdata : group.HasRunData runData)
    (hstep : addGroup startNode runData pinData recreated group = .ok recreated') :
    HasEntry startNode.name recreated' := by
  obtain ⟨c, hc, hdata⟩ := hdata
  rw [addGroup, if_neg (by simp [hcomplete])] at hstep
  refine foldlM_establishes hc (fun s s' hs => ?_)
    (fun s b _ s' hs hs' => addWaitingConnection_hasEntry hs hs') hstep
  obtain ⟨hno, -⟩ | ⟨-, items, hwaiting⟩ := addWaitingConnection_eq_ok hs
  · exact absurd hdata hno
  · rw [HasEntry, entries_addWaitingExecution hwaiting, if_pos rfl]
    exact ⟨_, _, OrderedMap.get?_set_self _ _ _⟩

/-- A group that is complete or has no run data adds no entry. -/
theorem waitingExecution_addGroup (hgroup : group.complete = false → ¬group.HasRunData runData)
    (hstep : addGroup startNode runData pinData recreated group = .ok recreated') :
    recreated'.waitingExecution = recreated.waitingExecution := by
  unfold addGroup at hstep
  split_ifs at hstep with hcomplete
  · obtain ⟨executeData, -, hstep⟩ := bind_eq_ok.mp hstep
    cases hstep
    rfl
  · refine foldlM_invariant (I := fun s : RecreatedExecution J =>
      s.waitingExecution = recreated.waitingExecution) (fun s c hc s' hs hs' => ?_) rfl hstep
    obtain ⟨-, rfl⟩ | ⟨hdata, -⟩ := addWaitingConnection_eq_ok hs'
    · exact hs
    · exact absurd ⟨c, hc, hdata⟩ (hgroup (by simpa using hcomplete))

end Group

/-! ## All start nodes -/

section Recreate

variable [DataObject J] {localeCompare : String → String → ℤ} {g : DirectedGraph}
  {runData : IRunData J} {pinData : IPinData J} {startNode : INode} {startNodes : List INode}
  {workflow : Workflow} {recreated recreated' : RecreatedExecution J}

/-- A start node is in the graph. If nothing leads to it, it gets a stack entry, else its
groups are added. -/
theorem addStartNode_cases
    (h : addStartNode localeCompare g runData pinData recreated startNode = .ok recreated') :
    g.HasNode startNode ∧
    ((¬∃ c ∈ g.getConnectionsTo startNode, c.type = .main) ∧
      recreated' = { recreated with
        nodeExecutionStack := recreated.nodeExecutionStack ++ [emptyExecuteData startNode] } ∨
    (∃ c ∈ g.getConnectionsTo startNode, c.type = .main) ∧
      (sourceDataGroups localeCompare g runData pinData startNode).foldlM
        (addGroup startNode runData pinData) recreated = .ok recreated') := by
  obtain ⟨connections, hconnections, h⟩ := bind_eq_ok.mp h
  obtain ⟨_, hassert, hconnections⟩ := bind_eq_ok.mp hconnections
  obtain rfl : g.getConnectionsTo startNode = connections := Except.ok.inj hconnections
  refine ⟨?_, ?_⟩
  · unfold DirectedGraph.assertNode at hassert
    split_ifs at hassert with hnode
    exact hnode
  · dsimp only at h
    split_ifs at h with hparents
    · cases h
      exact .inl ⟨by simpa [List.filter_eq_nil_iff] using hparents, rfl⟩
    · rw [getSourceDataGroups_eq] at h
      exact .inr ⟨by simpa [List.filter_eq_nil_iff] using hparents, h⟩

/-- Every entry that is rebuilt lacks an input. -/
theorem recreated_lacks (hinputs : MainInputsOf workflow g)
    (h : recreateNodeExecutionStack localeCompare g runData pinData startNodes = .ok recreated) :
    Lacking workflow recreated := by
  obtain ⟨-, -, h⟩ := bind_eq_ok.mp h
  have hinit : Lacking workflow ({} : RecreatedExecution J) :=
    ⟨fun _ _ _ => nofun, fun _ _ _ => nofun⟩
  refine foldlM_invariant (fun s startNode _ s' hs hs' => ?_) hinit h
  obtain ⟨-, ⟨-, rfl⟩ | ⟨-, hs'⟩⟩ := addStartNode_cases hs'
  · exact ⟨hs.lacks, hs.numbered⟩
  · have hpartition := partitions_sourceDataGroups localeCompare g runData pinData startNode
    refine foldlM_invariant (fun s group hgroup s' hs hs' =>
      addGroup_lacking (hpartition.isValid group hgroup) (fun c hc hno => ?_) hs hs') hs hs'
    have hmem := hpartition.perm.mem_iff.mp (List.mem_flatMap.mpr ⟨group, hgroup, hc⟩)
    obtain ⟨hto, htype⟩ := List.mem_filter.mp hmem
    obtain ⟨hconnection, hto⟩ := List.mem_filter.mp hto
    obtain rfl : c.to = startNode := by simpa using hto
    exact hinputs c hconnection (by simpa [hno] using htype)

/-- An incomplete group with run data leaves its node with an entry. -/
theorem recreated_hasEntry (hstart : startNode ∈ startNodes)
    (hparents : ∃ c ∈ g.getConnectionsTo startNode, c.type = .main)
    {group : SourceConnectionGroup}
    (hgroup : group ∈ sourceDataGroups localeCompare g runData pinData startNode)
    (hcomplete : group.complete = false) (hdata : group.HasRunData runData)
    (h : recreateNodeExecutionStack localeCompare g runData pinData startNodes = .ok recreated) :
    HasEntry startNode.name recreated := by
  obtain ⟨-, -, h⟩ := bind_eq_ok.mp h
  refine foldlM_establishes hstart (fun s s' hs => ?_) (fun s node _ s' hs hs' => ?_) h
  · obtain ⟨-, ⟨hno, -⟩ | ⟨-, hs⟩⟩ := addStartNode_cases hs
    · exact absurd hparents hno
    · exact foldlM_establishes hgroup (fun _ _ hs' => hasEntry_addGroup hcomplete hdata hs')
        (fun _ _ _ _ hs' hs'' => addGroup_hasEntry hs' hs'') hs
  · obtain ⟨-, ⟨-, rfl⟩ | ⟨-, hs'⟩⟩ := addStartNode_cases hs'
    · exact hs
    · exact foldlM_invariant (fun _ _ _ _ hs hs' => addGroup_hasEntry hs hs') hs hs'

end Recreate

/-! ## A node with three inputs -/

/-- `A`, `B` and `C` lead to the inputs 0, 1 and 2 of `Merge`. -/
def threeGraph : DirectedGraph :=
  .ofLists [.named "A", .named "B", .named "C", .named "Merge"]
    [{ «from» := .named "A", «to» := .named "Merge" },
      { «from» := .named "B", «to» := .named "Merge", inputIndex := 1 },
      { «from» := .named "C", «to» := .named "Merge", inputIndex := 2 }]

def threeWorkflow : Workflow where
  nodes := setNodes [.named "A", .named "B", .named "C", .named "Merge"]
  connectionsBySourceNode :=
    [("A", 0), ("B", 1), ("C", 2)].foldl (fun connections e => connections.set e.1
      ((∅ : INodeConnections).set .main [some [⟨"Merge", .main, e.2⟩]])) ∅
  connectionsByDestinationNode := (∅ : IConnections).set "Merge"
    ((∅ : INodeConnections).set .main
      [some [⟨"A", .main, 0⟩], some [⟨"B", .main, 0⟩], some [⟨"C", .main, 0⟩]])
  executionOrder := some .v1
  name_of_get? := name_of_setNodes

/-- One run of each of the nodes, with one item. -/
def runOnce (nodeNames : List String) : IRunData ℕ :=
  nodeNames.foldl (fun runData nodeName => runData.set nodeName
    [{ data := some (mainConnections [.val [emptyItem]]) }]) ∅

end N8n
