import N8n.Codegen.SemanticGraph

/-!
# What the semantic graph records

Building the graph makes writes : an output of a node is given targets, and each target
that exists gets the output as a source. `Records` says that one graph is another one with a
list of writes recorded on both sides. Steps compose (`Records.trans`, `Records.foldl`), so
the whole construction records the writes of all entries (`records_buildSemanticGraph`).

On the side of the outputs a later write under the same name replaces an earlier one; on
the side of the inputs nothing is replaced.
-/

open Lib

namespace N8n.Codegen

/-! ## What the graph records about a node -/

section Observations

variable (graph : SemanticGraph)

def SemanticGraph.jsonOf (name : String) : Option NodeJSON :=
  (graph.nodes.get? name).map SemanticNode.json

def SemanticGraph.outputsOf (name : String) :
    Option (OrderedMap String (List SemanticConnection)) :=
  (graph.nodes.get? name).map SemanticNode.outputs

def SemanticGraph.SourceAt (name inputSlot : String) (source : SourceInfo) : Prop :=
  ∃ node, graph.nodes.get? name = some node ∧
    source ∈ (node.inputSources.get? inputSlot).getD []

variable {graph} {name name' : String} {f : SemanticNode → SemanticNode}

theorem get?_updateNode : (graph.updateNode name f).nodes.get? name' =
    if name = name' then (graph.nodes.get? name').map f else graph.nodes.get? name' := by
  unfold SemanticGraph.updateNode
  cases h : graph.nodes.get? name with
  | none =>
    by_cases hn : name = name'
    · subst hn
      simp [h]
    · simp [hn]
  | some node =>
    simp only [OrderedMap.get?_set]
    by_cases hn : name = name'
    · subst hn
      simp [h]
    · simp [hn]

theorem jsonOf_updateNode (h : ∀ node, (f node).json = node.json) :
    (graph.updateNode name f).jsonOf name' = graph.jsonOf name' := by
  unfold SemanticGraph.jsonOf
  rw [get?_updateNode]
  split_ifs
  · rw [Option.map_map]
    exact congrArg (Option.map · _) (funext h)
  · rfl

theorem outputsOf_updateNode (h : ∀ node, (f node).outputs = node.outputs) :
    (graph.updateNode name f).outputsOf name' = graph.outputsOf name' := by
  unfold SemanticGraph.outputsOf
  rw [get?_updateNode]
  split_ifs
  · rw [Option.map_map]
    exact congrArg (Option.map · _) (funext h)
  · rfl

theorem sourceAt_updateNode (h : ∀ node, (f node).inputSources = node.inputSources)
    {slot : String} {source : SourceInfo} :
    (graph.updateNode name f).SourceAt name' slot source ↔ graph.SourceAt name' slot source := by
  unfold SemanticGraph.SourceAt
  rw [get?_updateNode]
  split_ifs
  · simp [h]
  · rfl

theorem mem_inputSources_addSource {node : SemanticNode} {slot slot' : String}
    {source source' : SourceInfo} :
    source' ∈ ((node.addSource slot source).inputSources.get? slot').getD [] ↔
      source' ∈ (node.inputSources.get? slot').getD [] ∨ slot' = slot ∧ source' = source := by
  rw [SemanticNode.addSource, OrderedMap.get?_set]
  by_cases h : slot = slot'
  · subst h
    simp
  · simp [h, show slot' ≠ slot from fun he => h he.symm]

theorem sourceAt_addSource {slot slot' : String} {source source' : SourceInfo} :
    (graph.updateNode name (.addSource slot source)).SourceAt name' slot' source' ↔
      graph.SourceAt name' slot' source' ∨
        (graph.jsonOf name).isSome ∧ name' = name ∧ slot' = slot ∧ source' = source := by
  unfold SemanticGraph.SourceAt SemanticGraph.jsonOf
  rw [get?_updateNode]
  by_cases h : name = name'
  · subst h
    cases hnode : graph.nodes.get? name with
    | none => simp
    | some node => simp [mem_inputSources_addSource]
  · simp [h, show name' ≠ name from fun he => h he.symm]

end Observations

/-! ## Parsing the targets of an output -/

/-- The connection a target stands for, if the target exists. -/
def connectionTo (jsonOf : String → Option NodeJSON) (target : TargetJSON) :
    Option SemanticConnection :=
  (jsonOf target.node).map fun node => ⟨target.node, getInputName node.type target.index node⟩

section Parsing

variable {graph : SemanticGraph} {sourceName outputName name slot : String}
  {targets : List TargetJSON} {source : SourceInfo}

theorem connectionTo_of_none {target : TargetJSON} (h : graph.nodes.get? target.node = none) :
    connectionTo graph.jsonOf target = none := by
  simp [connectionTo, SemanticGraph.jsonOf, h]

theorem connectionTo_of_some {target : TargetJSON} {node : SemanticNode}
    (h : graph.nodes.get? target.node = some node) :
    connectionTo graph.jsonOf target =
      some ⟨target.node, getInputName node.type target.index node.json⟩ := by
  simp [connectionTo, SemanticGraph.jsonOf, h, SemanticNode.type]

theorem jsonOf_addSource : (graph.updateNode name (.addSource slot source)).jsonOf = graph.jsonOf :=
  funext fun _ => jsonOf_updateNode fun _ => rfl

theorem jsonOf_parseTargets :
    (parseTargets sourceName outputName targets graph).1.jsonOf = graph.jsonOf := by
  induction targets generalizing graph with
  | nil => rfl
  | cons target targets ih =>
    unfold parseTargets
    cases h : graph.nodes.get? target.node with
    | none => exact ih
    | some node => exact Eq.trans ih jsonOf_addSource

theorem outputsOf_parseTargets :
    (parseTargets sourceName outputName targets graph).1.outputsOf name =
      graph.outputsOf name := by
  induction targets generalizing graph with
  | nil => rfl
  | cons target targets ih =>
    unfold parseTargets
    cases h : graph.nodes.get? target.node with
    | none => exact ih
    | some node => exact Eq.trans ih (outputsOf_updateNode fun _ => rfl)

theorem parseTargets_snd :
    (parseTargets sourceName outputName targets graph).2 =
      targets.filterMap (connectionTo graph.jsonOf) := by
  induction targets generalizing graph with
  | nil => rfl
  | cons target targets ih =>
    unfold parseTargets
    cases h : graph.nodes.get? target.node with
    | none =>
      rw [List.filterMap_cons_none (connectionTo_of_none h)]
      exact ih
    | some node =>
      rw [List.filterMap_cons_some (connectionTo_of_some h)]
      exact congrArg _ (ih.trans (by rw [jsonOf_addSource]))

theorem sourceAt_parseTargets :
    (parseTargets sourceName outputName targets graph).1.SourceAt name slot source ↔
      graph.SourceAt name slot source ∨ source = ⟨sourceName, outputName⟩ ∧
        ⟨name, slot⟩ ∈ targets.filterMap (connectionTo graph.jsonOf) := by
  induction targets generalizing graph with
  | nil => simp [parseTargets]
  | cons target targets ih =>
    unfold parseTargets
    cases h : graph.nodes.get? target.node with
    | none =>
      rw [List.filterMap_cons_none (connectionTo_of_none h)]
      exact ih
    | some node =>
      have hexists : (graph.jsonOf target.node).isSome := by
        simp [SemanticGraph.jsonOf, h]
      rw [List.filterMap_cons_some (connectionTo_of_some h), List.mem_cons]
      refine ih.trans ?_
      rw [jsonOf_addSource, sourceAt_addSource, SemanticConnection.mk.injEq]
      tauto

end Parsing

/-! ## What parsing records -/

/-- An output of a node, with the targets it is given. -/
structure OutputWrite where
  source : String
  outputName : String
  targets : List TargetJSON

/-- What a write to the map of outputs leaves there. -/
def applyWrite (m : OrderedMap String (List SemanticConnection))
    (write : String × List SemanticConnection) : OrderedMap String (List SemanticConnection) :=
  if write.2 = [] then m else m.set write.1 write.2

def OutputWrite.connections (jsonOf : String → Option NodeJSON) (write : OutputWrite) :
    List SemanticConnection :=
  write.targets.filterMap (connectionTo jsonOf)

/-- The writes to the outputs of a node. -/
def writesTo (jsonOf : String → Option NodeJSON) (name : String) (writes : List OutputWrite) :
    List (String × List SemanticConnection) :=
  (writes.filter fun write => write.source = name).map fun write =>
    (write.outputName, write.connections jsonOf)

/-- The second graph is the first one with the writes recorded on both sides. -/
structure Records (graph graph' : SemanticGraph) (writes : List OutputWrite) : Prop where
  json : graph'.jsonOf = graph.jsonOf
  outputs : ∀ name, graph'.outputsOf name =
    (graph.outputsOf name).map fun m => (writesTo graph.jsonOf name writes).foldl applyWrite m
  sources : ∀ name slot source, graph'.SourceAt name slot source ↔
    graph.SourceAt name slot source ∨ ∃ write ∈ writes,
      source = ⟨write.source, write.outputName⟩ ∧ ⟨name, slot⟩ ∈ write.connections graph.jsonOf

theorem Records.refl (graph : SemanticGraph) : Records graph graph [] where
  json := rfl
  outputs _ := Option.map_id'.symm
  sources := by simp

theorem Records.trans {graph graph' graph'' : SemanticGraph} {writes writes' : List OutputWrite}
    (h : Records graph graph' writes) (h' : Records graph' graph'' writes') :
    Records graph graph'' (writes ++ writes') where
  json := h'.json.trans h.json
  outputs name := by
    rw [h'.outputs, h.outputs, h.json, Option.map_map]
    simp only [writesTo, List.filter_append, List.map_append, List.foldl_append]
    rfl
  sources name slot source := by
    rw [h'.sources, h.sources, h.json, or_assoc]
    simp only [List.mem_append, or_and_right, exists_or]

/-- Steps that each record their writes record the writes of all of them. -/
theorem Records.foldl {α : Type*} {step : SemanticGraph → α → SemanticGraph}
    {writes : α → List OutputWrite} {jsonOf : String → Option NodeJSON} (as : List α)
    (h : ∀ a ∈ as, ∀ graph, graph.jsonOf = jsonOf → Records graph (step graph a) (writes a))
    {graph : SemanticGraph} (hjson : graph.jsonOf = jsonOf) :
    Records graph (as.foldl step graph) (as.flatMap writes) := by
  induction as generalizing graph with
  | nil => exact .refl graph
  | cons a as ih =>
    have hstep := h a List.mem_cons_self graph hjson
    exact hstep.trans (ih (fun b hb => h b (List.mem_cons_of_mem _ hb)) (hstep.json.trans hjson))

theorem Records.foldl_nil {α : Type*} {step : SemanticGraph → α → SemanticGraph} (as : List α)
    (h : ∀ a graph, Records graph (step graph a) []) (graph : SemanticGraph) :
    Records graph (as.foldl step graph) [] := by
  induction as generalizing graph with
  | nil => exact .refl graph
  | cons a as ih => exact (h a graph).trans (ih _)

/-- An update that keeps the connections of the node records nothing. -/
theorem records_updateNode {graph : SemanticGraph} {name : String}
    {f : SemanticNode → SemanticNode} (hjson : ∀ node, (f node).json = node.json)
    (houtputs : ∀ node, (f node).outputs = node.outputs)
    (hsources : ∀ node, (f node).inputSources = node.inputSources) :
    Records graph (graph.updateNode name f) [] where
  json := funext fun _ => jsonOf_updateNode hjson
  outputs _ := (outputsOf_updateNode houtputs).trans Option.map_id'.symm
  sources _ _ _ := by simpa using sourceAt_updateNode hsources

section ParsingConnections

variable {graph : SemanticGraph}

theorem outputs_setOutput (node : SemanticNode) (outputName : String)
    (connections : List SemanticConnection) :
    (node.setOutput outputName connections).outputs =
      applyWrite node.outputs (outputName, connections) := by
  unfold SemanticNode.setOutput applyWrite
  split_ifs <;> rfl

theorem records_parseOutput (write : OutputWrite) :
    Records graph (parseOutput write.source write.outputName write.targets graph) [write] where
  json := by
    refine Eq.trans (funext fun n => jsonOf_updateNode fun node => ?_) jsonOf_parseTargets
    unfold SemanticNode.setOutput
    split_ifs <;> rfl
  outputs name := by
    have hbefore : (parseTargets write.source write.outputName write.targets graph).1.outputsOf
        name = graph.outputsOf name := outputsOf_parseTargets
    simp only [parseOutput, parseTargets_snd, writesTo]
    rw [← hbefore]
    unfold SemanticGraph.outputsOf
    rw [get?_updateNode]
    by_cases hname : write.source = name
    · rw [if_pos hname, Option.map_map, Option.map_map, List.filter_singleton,
        decide_eq_true hname]
      exact congrArg (Option.map · _) (funext fun node => outputs_setOutput node _ _)
    · rw [if_neg hname, List.filter_singleton, decide_eq_false hname]
      exact Option.map_id'.symm
  sources name slot source := by
    have hbefore : (parseTargets write.source write.outputName write.targets graph).1.SourceAt
        name slot source ↔ _ := sourceAt_parseTargets
    refine Iff.trans (sourceAt_updateNode fun node => ?_) (hbefore.trans (by simp [OutputWrite.connections]))
    unfold SemanticNode.setOutput
    split_ifs <;> rfl

/-- The writes that parsing the outputs of one type makes. -/
def outputWrites (node : NodeJSON) (sourceName connType : String)
    (outputs : List (Option (List TargetJSON))) : List OutputWrite :=
  if connType = "main" then
    outputs.zipIdx.filterMap fun output =>
      output.1.map fun targets => ⟨sourceName, getOutputName node.type output.2 node, targets⟩
  else if connType = "error" then [⟨sourceName, "error", outputs.reduceOption.flatten⟩]
  else []

/-- Parsing the connections of a node that exists. -/
theorem records_parseConnections {sourceName connType : String}
    {outputs : List (Option (List TargetJSON))} {node : SemanticNode}
    (h : graph.nodes.get? sourceName = some node) :
    Records graph (parseConnections sourceName connType outputs graph)
      (outputWrites node.json sourceName connType outputs) := by
  unfold parseConnections outputWrites
  split_ifs
  · simp only [parseMainConnections, h]
    have hstep : ∀ output ∈ outputs.zipIdx, ∀ g : SemanticGraph, g.jsonOf = graph.jsonOf →
        Records g (parseMainOutput node sourceName g output) (output.1.map fun targets =>
          ⟨sourceName, getOutputName node.json.type output.2 node.json, targets⟩).toList := by
      rintro ⟨output, index⟩ - g -
      cases output with
      | none => exact .refl g
      | some targets => exact records_parseOutput ⟨sourceName, _, targets⟩
    have hfold := Records.foldl _ hstep rfl
    rwa [← List.filterMap_eq_flatMap_toList] at hfold
  · simp only [parseErrorConnections, h]
    exact records_parseOutput ⟨sourceName, "error", _⟩
  · cases AI_CONNECTION_TYPES.lookup connType with
    | none => exact .refl graph
    | some aiType =>
      simp only [parseAiConnections, h]
      refine .foldl_nil _ (fun target g => ?_) graph
      exact records_updateNode (fun _ => rfl) (fun _ => rfl) fun _ => rfl

theorem parseConnections_of_missing {sourceName connType : String}
    {outputs : List (Option (List TargetJSON))} (h : graph.nodes.get? sourceName = none) :
    parseConnections sourceName connType outputs graph = graph := by
  unfold parseConnections
  split_ifs
  · simp [parseMainConnections, h]
  · simp [parseErrorConnections, h]
  · cases AI_CONNECTION_TYPES.lookup connType with
    | none => rfl
    | some aiType => simp [parseAiConnections, h]

end ParsingConnections

/-! ## What building the graph records -/

/-- The writes that parsing an entry of the connections makes. -/
def entryWrites (jsonOf : String → Option NodeJSON)
    (entry : String × String × List (Option (List TargetJSON))) : List OutputWrite :=
  ((jsonOf entry.1).map fun node => outputWrites node entry.1 entry.2.1 entry.2.2).getD []

def allWrites (jsonOf : String → Option NodeJSON) (json : WorkflowJSON) : List OutputWrite :=
  (connectionEntries json).flatMap (entryWrites jsonOf)

theorem records_parseAllConnections (json : WorkflowJSON) (graph : SemanticGraph) :
    Records graph (parseAllConnections json graph) (allWrites graph.jsonOf json) := by
  refine Records.foldl _ (fun entry _ g hg => ?_) rfl
  unfold entryWrites
  cases h : g.nodes.get? entry.1 with
  | none =>
    have hjson : graph.jsonOf entry.1 = none := by
      rw [← hg]
      simp [SemanticGraph.jsonOf, h]
    rw [parseConnections_of_missing h, hjson]
    exact .refl g
  | some node =>
    have hjson : graph.jsonOf entry.1 = some node.json := by
      rw [← hg]
      simp [SemanticGraph.jsonOf, h]
    rw [hjson]
    exact records_parseConnections h

theorem records_sortSubnodes (graph : SemanticGraph) :
    Records graph (sortSubnodes graph) [] := by
  refine .foldl_nil _ (fun name g => ?_) graph
  exact records_updateNode (fun _ => rfl) (fun _ => rfl) fun _ => rfl

theorem Records.of_nodes {graph graph' graph'' : SemanticGraph} {writes : List OutputWrite}
    (h : Records graph graph' writes) (hnodes : graph''.nodes = graph'.nodes) :
    Records graph graph'' writes := by
  obtain ⟨nodes, roots, cycleEdges⟩ := graph''
  obtain rfl : nodes = graph'.nodes := hnodes
  exact ⟨h.json, h.outputs, h.sources⟩

/-- The roots that are looked for last change no node. -/
theorem nodes_buildSemanticGraph (json : WorkflowJSON) :
    (buildSemanticGraph json).nodes =
      (sortSubnodes (parseAllConnections json { nodes := createNodes json.nodes })).nodes := by
  rw [buildSemanticGraph]

theorem records_buildSemanticGraph (json : WorkflowJSON) :
    let created : SemanticGraph := { nodes := createNodes json.nodes }
    Records created (buildSemanticGraph json) (allWrites created.jsonOf json) := by
  intro created
  have hsorted := (records_parseAllConnections json created).trans (records_sortSubnodes _)
  rw [List.append_nil] at hsorted
  exact hsorted.of_nodes (nodes_buildSemanticGraph json)

/-! ## Nodes with distinct names -/

def WorkflowJSON.names (json : WorkflowJSON) : List String :=
  json.nodes.map fun node => node.name.getD ""

/-- The nodes have distinct non-empty names. -/
structure WorkflowJSON.WellNamed (json : WorkflowJSON) : Prop where
  distinct : json.names.Nodup
  nonempty : "" ∉ json.names

theorem addNode_of_fresh {state : NamingState} {nodeJson : NodeJSON} {name : String}
    (hname : nodeJson.name = some name) (hne : name ≠ "") (hfresh : name ∉ state.nodes.keys) :
    addNode state nodeJson =
      { state with nodes := state.nodes.set name (createSemanticNode name nodeJson) } := by
  have hhas : ¬state.nodes.has name = true := fun h => hfresh (OrderedMap.has_iff.mp h)
  simp only [addNode, hname, if_neg hne, if_neg hhas]

theorem entries_foldl_addNode {nodes : List NodeJSON} {state : NamingState}
    (hnodup : (state.nodes.keys ++ nodes.map fun node => node.name.getD "").Nodup)
    (hne : "" ∉ nodes.map fun node => node.name.getD "") :
    (nodes.foldl addNode state).nodes.entries = state.nodes.entries ++
      nodes.map fun node => (node.name.getD "", createSemanticNode (node.name.getD "") node) := by
  induction nodes generalizing state with
  | nil => simp
  | cons node nodes ih =>
    rw [List.map_cons, List.mem_cons, not_or] at hne
    obtain ⟨name, hname⟩ : ∃ name, node.name = some name := by
      cases h : node.name with
      | none => exact absurd (by simp [h]) hne.1
      | some name => exact ⟨name, rfl⟩
    have hget : node.name.getD "" = name := by rw [hname]; rfl
    rw [List.map_cons, hget, List.nodup_append] at hnodup
    obtain ⟨hkeys, hrest, hdisjoint⟩ := hnodup
    have hfresh : name ∉ state.nodes.keys := fun h => hdisjoint _ h _ List.mem_cons_self rfl
    have hentries : (state.nodes.set name (createSemanticNode name node)).entries = _ :=
      OrderedMap.entries_set_of_get?_eq_none (OrderedMap.get?_eq_none_iff.mpr hfresh)
    rw [List.foldl_cons, addNode_of_fresh hname (fun h => hne.1 (by rw [hget, h])) hfresh, ih _ hne.2]
    · simp [hentries, hget]
    · have hkeys' : (state.nodes.set name (createSemanticNode name node)).keys =
          state.nodes.keys ++ [name] := by
        rw [OrderedMap.keys, hentries, List.map_append]
        rfl
      rw [hkeys', List.append_assoc]
      exact List.nodup_append.mpr ⟨hkeys, hrest, hdisjoint⟩

def WorkflowJSON.NodeNamed (json : WorkflowJSON) (name : String) (node : NodeJSON) : Prop :=
  node ∈ json.nodes ∧ node.name = some name

theorem get?_createNodes {json : WorkflowJSON} (h : json.WellNamed) {name : String}
    {node : SemanticNode} : (createNodes json.nodes).get? name = some node ↔
      ∃ nodeJson, json.NodeNamed name nodeJson ∧ createSemanticNode name nodeJson = node := by
  have hentries : (json.nodes.foldl addNode {}).nodes.entries = _ :=
    entries_foldl_addNode (by simpa [WorkflowJSON.names] using h.distinct) h.nonempty
  rw [← OrderedMap.mem_entries_iff, createNodes, hentries, OrderedMap.entries_empty,
    List.nil_append, List.mem_map]
  constructor
  · rintro ⟨nodeJson, hmem, heq⟩
    obtain ⟨rfl, rfl⟩ := Prod.mk.inj heq
    refine ⟨nodeJson, ⟨hmem, ?_⟩, rfl⟩
    cases hname : nodeJson.name with
    | none => exact absurd (List.mem_map.mpr ⟨nodeJson, hmem, by simp [hname]⟩) h.nonempty
    | some name => rfl
  · rintro ⟨nodeJson, ⟨hmem, hname⟩, rfl⟩
    exact ⟨nodeJson, hmem, by simp [hname]⟩

end N8n.Codegen
