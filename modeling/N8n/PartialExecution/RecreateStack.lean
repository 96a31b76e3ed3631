import N8n.PartialExecution.SourceDataGroups
import N8n.Engine.Waiting

/-!
# Recreating the execution stack

`recreateNodeExecutionStack` puts every start node on the stack once for each complete
source group, with the data of the group's connections. The data of an incomplete group
goes into a waiting entry of the node.

The stack has the entries planned by `stackPlan` : one for a start node nothing leads to,
one for each complete group of another (`nodeExecutionStack_forall₂`). Items are appended
only when there are some, sources always. An entry feeds each input the items of its own
connection exactly when the group starts at input 0 and each of its sources is pinned or
has a nonempty output there (`recreateNodeExecutionStack_feedsOwnData_iff`).
-/

open Lib

namespace N8n

variable {J : Type}

/-- The execution data rebuilt for a partial execution. -/
structure RecreatedExecution (J : Type) where
  nodeExecutionStack : List (IExecuteData J) := []
  waitingExecution : IWaitingForExecution J := ∅
  waitingExecutionSource : IWaitingForExecutionSource := ∅

/-- `waiting[nodeName][runIndex][inputType][inputIndex] = slot`, creating what is missing. -/
def addWaiting {β : Type} (waiting : OrderedMap String (WaitingEntries
    (OrderedMap NodeConnectionType (List (Slot β))))) (nodeName : String) (runIndex : ℕ)
    (inputType : NodeConnectionType) (inputIndex : ℤ) (slot : Slot β) :
    OrderedMap String (WaitingEntries (OrderedMap NodeConnectionType (List (Slot β)))) :=
  let waitingObject := (waiting.get? nodeName).getD ∅
  let taskDataConnections := (waitingObject.get? runIndex).getD ∅
  let list := (taskDataConnections.get? inputType).getD []
  waiting.set nodeName (waitingObject.set runIndex
    (taskDataConnections.set inputType (writeAt list inputIndex slot)))

def addWaitingExecution (waitingExecution : IWaitingForExecution J) (nodeName : String)
    (runIndex : ℕ) (inputType : NodeConnectionType) (inputIndex : ℤ)
    (executionData : Slot (Items J)) : IWaitingForExecution J :=
  addWaiting waitingExecution nodeName runIndex inputType inputIndex executionData

def addWaitingExecutionSource (waitingExecutionSource : IWaitingForExecutionSource)
    (nodeName : String) (runIndex : ℕ) (inputType : NodeConnectionType) (inputIndex : ℤ)
    (sourceData : Slot ISourceData) : IWaitingForExecutionSource :=
  addWaiting waitingExecutionSource nodeName runIndex inputType inputIndex sourceData

/-! ## Complete groups -/

/-- The items of a connection of a complete group, if it has any, and the run they are of. -/
def incomingItems (startNode : INode) (runData : IRunData J) (pinData : IPinData J)
    (c : GraphConnection) : Except GraphError (Option (Items J) × ℕ) :=
  match pinData.get? c.from.name with
  | some items => .ok (some items, 0)
  | none =>
    if !runData.has c.from.name then
      .error (.assertion s!"Start node({c.to.name}) has an incoming connection with no run or pinned data. This is not supported. The connection in question is \"{c.from.name}->{startNode.name}\". Are you sure the start nodes come from the \"findStartNodes\" function?")
    else do
      match ← getIncomingDataFromAnyRun runData c.from.name c.type c.outputIndex with
      | some (data, runIndex) => return (some data, runIndex)
      | none => return (none, 0)

/-- What a connection of a complete group contributes : items and where they came from. -/
def incomingFor (startNode : INode) (runData : IRunData J) (pinData : IPinData J)
    (c : GraphConnection) : Except GraphError (Option (Items J) × ISourceData) := do
  let (incomingData, runIndex) ← incomingItems startNode runData pinData c
  return (incomingData,
    { previousNode := c.from.name
      previousNodeOutput := some c.outputIndex
      previousNodeRun := some runIndex })

/-- The stack entry of a complete group. -/
def executeDataFor (startNode : INode) (runData : IRunData J) (pinData : IPinData J)
    (group : SourceConnectionGroup) : Except GraphError (IExecuteData J) := do
  let incoming ← group.connections.mapM (incomingFor startNode runData pinData)
  return {
    node := some startNode
    data := mainConnections (incoming.filterMap fun i => i.1.map .val)
    source := some (mainConnections (incoming.map fun i => .val i.2)) }

/-- The stack entry of a start node nothing leads to. -/
def emptyExecuteData [DataObject J] (startNode : INode) : IExecuteData J :=
  { node := some startNode, data := mainConnections [.val [emptyItem]] }

/-! ## Incomplete groups -/

/-- Put the data of a connection of an incomplete group into the waiting entry. -/
def addWaitingConnection (nodeName : String) (runData : IRunData J) (nextRunIndex : ℕ)
    (recreated : RecreatedExecution J) (c : GraphConnection) :
    Except GraphError (RecreatedExecution J) := do
  match ← getIncomingDataFromAnyRun runData c.from.name c.type c.outputIndex with
  | none => return recreated
  | some (nodeIncomingData, _) =>
    return { recreated with
      waitingExecution := addWaitingExecution recreated.waitingExecution nodeName nextRunIndex
        c.type c.inputIndex (.val nodeIncomingData)
      waitingExecutionSource := addWaitingExecutionSource recreated.waitingExecutionSource
        nodeName nextRunIndex c.type c.inputIndex
        (.val {
          previousNode := c.from.name
          previousNodeRun := some nextRunIndex
          previousNodeOutput := some c.outputIndex }) }

/-- `Object.keys(waitingExecution[nodeName]).length`, or 0. -/
def RecreatedExecution.nextRunIndex (recreated : RecreatedExecution J) (nodeName : String) : ℕ :=
  ((recreated.waitingExecution.get? nodeName).getD ∅).size

def addGroup (startNode : INode) (runData : IRunData J) (pinData : IPinData J)
    (recreated : RecreatedExecution J) (group : SourceConnectionGroup) :
    Except GraphError (RecreatedExecution J) :=
  if group.complete then do
    let executeData ← executeDataFor startNode runData pinData group
    return { recreated with nodeExecutionStack := recreated.nodeExecutionStack ++ [executeData] }
  else
    group.connections.foldlM (addWaitingConnection startNode.name runData
      (recreated.nextRunIndex startNode.name)) recreated

/-! ## All start nodes -/

section Recreate

variable [DataObject J] (localeCompare : String → String → ℤ) (g : DirectedGraph)
  (runData : IRunData J) (pinData : IPinData J)

def addStartNode (recreated : RecreatedExecution J) (startNode : INode) :
    Except GraphError (RecreatedExecution J) := do
  let incomingStartNodeConnections :=
    (← g.getDirectParentConnections startNode).filter (·.type = .main)
  if incomingStartNodeConnections = [] then
    return { recreated with
      nodeExecutionStack := recreated.nodeExecutionStack ++ [emptyExecuteData startNode] }
  else
    let sourceDataSets ← getSourceDataGroups localeCompare g startNode runData pinData
    sourceDataSets.foldlM (addGroup startNode runData pinData) recreated

/-- The graph needs to be free of disabled nodes. -/
def assertEnabled (node : INode) : Except GraphError Unit :=
  if node.disabled = some true then
    .error (.assertion s!"Graph contains disabled nodes. This is not supported. Make sure to pass the graph through \"findSubgraph\" before calling \"recreateNodeExecutionStack\". The node in question is \"{node.name}\"")
  else .ok ()

def recreateNodeExecutionStack (startNodes : List INode) :
    Except GraphError (RecreatedExecution J) := do
  g.getNodes.forM assertEnabled
  startNodes.foldlM (addStartNode localeCompare g runData pinData) {}

/-! ## The entries of the stack -/

/-- A complete group gets an entry. -/
def groupPlan (startNode : INode) (group : SourceConnectionGroup) :
    List (INode × Option SourceConnectionGroup) :=
  if group.complete then [(startNode, some group)] else []

/-- What the stack entries of a start node are for : the node itself if no Main connection
leads to it, else its complete groups. -/
def entryPlan (startNode : INode) : List (INode × Option SourceConnectionGroup) :=
  if (g.getConnectionsTo startNode).filter (·.type = .main) = [] then [(startNode, none)]
  else (sourceDataGroups localeCompare g runData pinData startNode).flatMap (groupPlan startNode)

/-- What the entries of the stack are for. -/
def stackPlan (startNodes : List INode) : List (INode × Option SourceConnectionGroup) :=
  startNodes.flatMap (entryPlan localeCompare g runData pinData)

variable {localeCompare g runData pinData} in
omit [DataObject J] in
theorem mem_stackPlan {startNodes : List INode} {startNode : INode}
    {group : SourceConnectionGroup} :
    (startNode, some group) ∈ stackPlan localeCompare g runData pinData startNodes ↔
      startNode ∈ startNodes ∧ (∃ c ∈ g.getConnectionsTo startNode, c.type = .main) ∧
        group ∈ sourceDataGroups localeCompare g runData pinData startNode ∧
        group.complete = true := by
  have hgroup : ∀ n gr, (startNode, some group) ∈ groupPlan n gr ↔
      n = startNode ∧ gr = group ∧ group.complete = true := by
    intro n gr
    unfold groupPlan
    split_ifs with hcomplete <;> aesop
  have hentry : ∀ n, (startNode, some group) ∈ entryPlan localeCompare g runData pinData n ↔
      n = startNode ∧ (∃ c ∈ g.getConnectionsTo startNode, c.type = .main) ∧
        group ∈ sourceDataGroups localeCompare g runData pinData startNode ∧
        group.complete = true := by
    intro n
    unfold entryPlan
    split_ifs with hparents
    · simp only [List.filter_eq_nil_iff, decide_eq_true_eq] at hparents
      simp only [List.mem_singleton, Prod.mk.injEq, reduceCtorEq, and_false, false_iff]
      rintro ⟨rfl, ⟨c, hc, hmain⟩, -⟩
      exact hparents c hc hmain
    · have hparents : ∃ c ∈ g.getConnectionsTo n, c.type = .main := by
        simpa [List.filter_eq_nil_iff] using hparents
      simp only [List.mem_flatMap, hgroup]
      constructor
      · rintro ⟨gr, hgr, rfl, rfl, hcomplete⟩
        exact ⟨rfl, hparents, hgr, hcomplete⟩
      · rintro ⟨rfl, -, hgr, hcomplete⟩
        exact ⟨group, hgr, rfl, rfl, hcomplete⟩
  simp only [stackPlan, List.mem_flatMap, hentry]
  constructor
  · rintro ⟨n, hn, rfl, h⟩
    exact ⟨hn, h⟩
  · rintro ⟨hn, h⟩
    exact ⟨startNode, hn, rfl, h⟩

/-- The entry is the one for the start node, or for the group of it. -/
def IsEntryFor (runData : IRunData J) (pinData : IPinData J) :
    INode × Option SourceConnectionGroup → IExecuteData J → Prop
  | (startNode, none), executeData => executeData = emptyExecuteData startNode
  | (startNode, some group), executeData =>
    executeDataFor startNode runData pinData group = .ok executeData

variable {localeCompare g runData pinData}

omit [DataObject J] in
@[simp] theorem nodeExecutionStack_addWaitingConnection {nodeName : String} {nextRunIndex : ℕ}
    {c : GraphConnection} {recreated recreated' : RecreatedExecution J}
    (h : addWaitingConnection nodeName runData nextRunIndex recreated c = .ok recreated') :
    recreated'.nodeExecutionStack = recreated.nodeExecutionStack := by
  obtain ⟨found, -, h⟩ := bind_eq_ok.mp h
  cases found <;> cases h <;> rfl

theorem addGroup_appends {startNode : INode} {group : SourceConnectionGroup}
    {recreated recreated' : RecreatedExecution J}
    (h : addGroup startNode runData pinData recreated group = .ok recreated') :
    ∃ added, recreated'.nodeExecutionStack = recreated.nodeExecutionStack ++ added ∧
      List.Forall₂ (IsEntryFor runData pinData) (groupPlan startNode group) added := by
  unfold addGroup at h
  unfold groupPlan
  split_ifs at h ⊢ with hcomplete
  · obtain ⟨executeData, hexecute, h⟩ := bind_eq_ok.mp h
    cases h
    exact ⟨[executeData], rfl, .cons hexecute .nil⟩
  · have hstack : recreated'.nodeExecutionStack = recreated.nodeExecutionStack :=
      foldlM_invariant (I := fun s : RecreatedExecution J =>
          s.nodeExecutionStack = recreated.nodeExecutionStack)
        (fun s c _ s' hs hs' => (nodeExecutionStack_addWaitingConnection hs').trans hs) rfl h
    exact ⟨[], by rw [hstack, List.append_nil], .nil⟩

theorem addStartNode_appends {startNode : INode} {recreated recreated' : RecreatedExecution J}
    (h : addStartNode localeCompare g runData pinData recreated startNode = .ok recreated') :
    ∃ added, recreated'.nodeExecutionStack = recreated.nodeExecutionStack ++ added ∧
      List.Forall₂ (IsEntryFor runData pinData)
        (entryPlan localeCompare g runData pinData startNode) added := by
  obtain ⟨connections, hconnections, h⟩ := bind_eq_ok.mp h
  obtain ⟨-, -, hconnections⟩ := bind_eq_ok.mp hconnections
  obtain rfl : g.getConnectionsTo startNode = connections := Except.ok.inj hconnections
  unfold entryPlan
  dsimp only at h
  split_ifs at h ⊢ with hparents
  · cases h
    exact ⟨[emptyExecuteData startNode], rfl, .cons rfl .nil⟩
  · rw [getSourceDataGroups_eq] at h
    exact foldlM_appends (fun _ _ _ _ hs => addGroup_appends hs) h

/-- The stack has one entry for each part of the plan. -/
theorem nodeExecutionStack_forall₂ {startNodes : List INode} {recreated : RecreatedExecution J}
    (h : recreateNodeExecutionStack localeCompare g runData pinData startNodes = .ok recreated) :
    List.Forall₂ (IsEntryFor runData pinData) (stackPlan localeCompare g runData pinData startNodes)
      recreated.nodeExecutionStack := by
  obtain ⟨-, -, h⟩ := bind_eq_ok.mp h
  obtain ⟨added, hout, hadded⟩ :=
    foldlM_appends (fun _ _ _ _ hs => addStartNode_appends hs) h
  rw [hout]
  exact hadded

end Recreate

/-! ## Each input gets its own data -/

/-- The items are those of the output the connection comes from, or the pinned ones. -/
def IsOutputOf (runData : IRunData J) (pinData : IPinData J) (c : GraphConnection)
    (items : Items J) : Prop :=
  match pinData.get? c.from.name with
  | some pinned => items = pinned
  | none => items ≠ [] ∧ ∃ runs, runData.get? c.from.name = some runs ∧
    ∃ taskData ∈ runs, HasOutput taskData c.type c.outputIndex items

/-- The source of the connection is pinned or has a run with items on the output. -/
def Produces (runData : IRunData J) (pinData : IPinData J) (c : GraphConnection) : Prop :=
  pinData.has c.from.name ∨ HasIncomingData runData c.from.name c.type c.outputIndex

/-- The slot has the items of the connection, or no item if its output produced none. -/
def FeedsItems (runData : IRunData J) (pinData : IPinData J) (c : GraphConnection)
    (slot : Slot (Items J)) : Prop :=
  (∃ items, slot = .val items ∧ IsOutputOf runData pinData c items) ∨
    ¬Produces runData pinData c ∧ ∀ items, slot = .val items → items = []

/-- The slot names the node and the output the connection comes from. -/
def NamesSource (c : GraphConnection) (slot : Slot ISourceData) : Prop :=
  ∃ source, slot = .val source ∧ source.previousNode = c.from.name ∧
    source.previousNodeOutput = some c.outputIndex

/-- Items and sources have the same length, and at the input of each connection of the
group are its own. -/
def FeedsOwnData (runData : IRunData J) (pinData : IPinData J) (group : SourceConnectionGroup)
    (executeData : IExecuteData J) : Prop :=
  ∃ main sources, executeData.data.get? .main = some main ∧
    executeData.source.bind (·.get? .main) = some sources ∧ main.length = sources.length ∧
    ∀ c ∈ group.connections, FeedsItems runData pinData c (readAt main c.inputIndex) ∧
      NamesSource c (readAt sources c.inputIndex)

/-- The group starts at input 0 and each of its connections produces items. -/
structure SourceConnectionGroup.StartsAndProduces (runData : IRunData J) (pinData : IPinData J)
    (group : SourceConnectionGroup) : Prop where
  starts : ∀ c ∈ group.connections.head?, c.inputIndex = 0
  produces : ∀ c ∈ group.connections, Produces runData pinData c

section FeedsOwnData

variable {runData : IRunData J} {pinData : IPinData J} {startNode : INode}
  {group : SourceConnectionGroup} {c : GraphConnection}

/-- What a connection contributes is named after it, and there are items if it produces
some. -/
theorem incomingFor_eq_ok {incoming : Option (Items J) × ISourceData}
    (h : incomingFor startNode runData pinData c = .ok incoming) :
    NamesSource c (.val incoming.2) ∧
      (∀ items, incoming.1 = some items → IsOutputOf runData pinData c items) ∧
      (incoming.1.isSome ↔ Produces runData pinData c) := by
  obtain ⟨⟨items, runIndex⟩, hitems, h⟩ := bind_eq_ok.mp h
  cases h
  refine ⟨⟨_, rfl, rfl, rfl⟩, ?_⟩
  unfold incomingItems at hitems
  unfold IsOutputOf Produces OrderedMap.has
  cases hpin : pinData.get? c.from.name with
  | some pinned =>
    rw [hpin] at hitems
    cases hitems
    simp
  | none =>
    simp only [hpin] at hitems
    split_ifs at hitems
    obtain ⟨found, hfound, hitems⟩ := bind_eq_ok.mp hitems
    obtain ⟨hsome, hiff⟩ := getIncomingDataFromAnyRun_eq_ok hfound
    cases found with
    | none =>
      cases hitems
      simpa using hiff
    | some found =>
      cases hitems
      obtain ⟨hne, runs, taskData, hruns, htask, hout⟩ := hsome _ _ rfl
      refine ⟨fun items he => ?_, by simpa using hiff⟩
      cases he
      exact ⟨hne, runs, hruns, taskData, List.mem_of_getElem? htask, hout⟩

/-- If all connections produce items, no position is left out of the data. -/
theorem items_eq_map_of_produces {cs : List GraphConnection}
    {incoming : List (Option (Items J) × ISourceData)}
    (hincoming : List.Forall₂ (fun c i => incomingFor startNode runData pinData c = .ok i)
      cs incoming)
    (hproduces : ∀ c ∈ cs, Produces runData pinData c) :
    (∀ i ∈ incoming, i.1 = some (i.1.getD [])) ∧
      (incoming.filterMap fun i => i.1.map Slot.val) =
        incoming.map fun i => .val (i.1.getD []) := by
  have hall : ∀ i ∈ incoming, i.1 = some (i.1.getD []) := by
    intro i hi
    obtain ⟨k, hk⟩ := List.getElem?_of_mem hi
    obtain ⟨hlt, rfl⟩ := List.getElem?_eq_some_iff.mp hk
    have hlt' := hincoming.length_eq.symm ▸ hlt
    have hok := incomingFor_eq_ok (hincoming.get hlt' hlt)
    obtain ⟨items, hitems⟩ :=
      Option.isSome_iff_exists.mp (hok.2.2.mpr (hproduces _ (List.getElem_mem hlt')))
    rw [show incoming[k].1 = some items from hitems]
    rfl
  refine ⟨hall, ?_⟩
  rw [← List.filterMap_eq_map]
  refine List.filterMap_congr fun i hi => ?_
  rw [hall i hi]
  rfl

/-- An entry feeds each input its own data exactly when its group starts at input 0 and
produces items everywhere. -/
theorem executeDataFor_feedsOwnData_iff {hasData : GraphConnection → Bool}
    (hvalid : group.IsValid hasData) {executeData : IExecuteData J}
    (h : executeDataFor startNode runData pinData group = .ok executeData) :
    FeedsOwnData runData pinData group executeData ↔
      group.StartsAndProduces runData pinData := by
  obtain ⟨incoming, hincoming, h⟩ := bind_eq_ok.mp h
  rw [mapM_eq_ok] at hincoming
  cases h
  have hget : ∀ (k : ℕ) c, group.connections[k]? = some c →
      ∃ i, incoming[k]? = some i ∧ incomingFor startNode runData pinData c = .ok i := by
    intro k c hk
    obtain ⟨hlt, rfl⟩ := List.getElem?_eq_some_iff.mp hk
    have hlt' := hincoming.length_eq ▸ hlt
    exact ⟨incoming[k], List.getElem?_eq_getElem hlt', hincoming.get hlt hlt'⟩
  obtain ⟨start, hhead, hindex⟩ := hvalid.inputIndex_eq
  constructor
  · rintro ⟨main, sources, hmain, hsources, hlen, hfeeds⟩
    rw [get?_mainConnections, Option.some.injEq] at hmain
    rw [Option.bind_some, get?_mainConnections, Option.some.injEq] at hsources
    subst hmain hsources
    rw [List.length_map, List.filterMap_length_eq_length] at hlen
    refine ⟨fun c hc => ?_, fun c hc => ?_⟩
    · -- the sources are as many as the connections, and every connection names one
      have hbounds : ∀ (k : ℕ) c, group.connections[k]? = some c →
          0 ≤ start + k ∧ start + k < group.connections.length := by
        intro k c hk
        obtain ⟨source, hsource, -⟩ := (hfeeds c (List.mem_of_getElem? hk)).2
        rw [hindex k c hk] at hsource
        simpa [hincoming.length_eq] using bounds_of_readAt hsource
      have hpos := List.length_pos_iff.mpr hvalid.ne_nil
      have hfirst := hbounds 0 _ (List.getElem?_eq_getElem hpos)
      have hlast := hbounds (group.connections.length - 1) _
        (List.getElem?_eq_getElem (by omega))
      rw [hhead c hc]
      omega
    · obtain ⟨k, hk⟩ := List.getElem?_of_mem hc
      obtain ⟨i, hi, hincomingFor⟩ := hget k c hk
      refine (incomingFor_eq_ok hincomingFor).2.2.mp ?_
      simpa using hlen i (List.mem_of_getElem? hi)
  · rintro ⟨hstarts, hproduces⟩
    obtain ⟨hall, hmain⟩ := items_eq_map_of_produces hincoming hproduces
    refine ⟨_, _, get?_mainConnections _, by rw [Option.bind_some, get?_mainConnections], ?_, ?_⟩
    · rw [hmain, List.length_map, List.length_map]
    · intro c hc
      obtain ⟨k, hk⟩ := List.getElem?_of_mem hc
      obtain ⟨i, hi, hincomingFor⟩ := hget k c hk
      obtain ⟨hnames, houtput, -⟩ := incomingFor_eq_ok hincomingFor
      have hstart : start = 0 := by
        have hpos := List.length_pos_iff.mpr hvalid.ne_nil
        have := hindex 0 _ (List.getElem?_eq_getElem hpos)
        rw [hstarts _ (by rw [List.head?_eq_getElem?, List.getElem?_eq_getElem hpos]; rfl)] at this
        omega
      rw [hindex k c hk, hstart, zero_add, hmain, readAt_map_val _ _ hi, readAt_map_val _ _ hi]
      exact ⟨Or.inl ⟨_, rfl, houtput _ (hall i (List.mem_of_getElem? hi))⟩, hnames⟩

/-- Two nodes lead to the inputs 0 and 1 of `Merge`. -/
def mergeGraph : DirectedGraph :=
  .ofLists [.named "If", .named "Set", .named "Merge"]
    [{ «from» := .named "If", «to» := .named "Merge" },
      { «from» := .named "Set", «to» := .named "Merge", inputIndex := 1 }]

/-- One run of each node, with one item on the output of `Set`. -/
def mergeRunData (ifOutputs : List (Items ℕ)) : IRunData ℕ :=
  ((∅ : IRunData ℕ).set "If" [{ data := some (mainConnections (ifOutputs.map .val)) }]).set "Set"
    [{ data := some (mainConnections [.val [emptyItem]]) }]

def compareStrings (a b : String) : ℤ := if a = b then 0 else if a < b then -1 else 1

end FeedsOwnData

end N8n
