import Mathlib.Data.List.ReduceOption
import N8n.Codegen.GraphRecords

/-!
# The connections of the semantic graph

What the graph keeps of the main and error connections of a workflow. The error output of
a node has one name, whether the workflow writes it as a connection of type `error` or as
the last main output of a node that continues on its error output; the graph does not tell
these apart (`legacyErrorWorkflow_graph`).

Reading the error output as one pin, the graph has exactly the connections of the workflow :
on the side of the inputs always, on the side of the outputs for a node that does not write
its error output in both ways (`represented_iff_hasPinConnection`).
-/

open Lib

namespace N8n.Codegen

/-! ## The connections of a workflow -/

inductive ConnectionKind where
  | main | error
  deriving DecidableEq, Repr

def ConnectionKind.key : ConnectionKind → String
  | .main => "main"
  | .error => "error"

structure WorkflowConnection where
  source : String
  type : ConnectionKind
  outputIndex : ℕ
  target : String
  inputIndex : ℕ
  deriving DecidableEq, Repr

def WorkflowJSON.HasConnection (json : WorkflowJSON) (c : WorkflowConnection) : Prop :=
  ∃ outputs targets type, (c.source, c.type.key, outputs) ∈ connectionEntries json ∧
    outputs[c.outputIndex]? = some (some targets) ∧ ⟨c.target, type, c.inputIndex⟩ ∈ targets

/-! ## Two workflows with one graph -/

def httpNode : NodeJSON :=
  { id := "1", name := some "HTTP", type := "n8n-nodes-base.httpRequest",
    onError := some .continueErrorOutput }

def handlerNode : NodeJSON :=
  { id := "2", name := some "Handler", type := "n8n-nodes-base.noOp" }

/-- The error output as a connection of type `error`. -/
def legacyErrorWorkflow : WorkflowJSON where
  nodes := [httpNode, handlerNode]
  connections := (∅ : OrderedMap _ _).set "HTTP"
    ((∅ : OrderedMap _ _).set "error" [.targets [{ node := "Handler", type := "main" }]])

/-- The error output as the last main output. -/
def errorPinWorkflow : WorkflowJSON where
  nodes := [httpNode, handlerNode]
  connections := (∅ : OrderedMap _ _).set "HTTP"
    ((∅ : OrderedMap _ _).set "main" [.targets [], .targets [{ node := "Handler", type := "main" }]])

theorem legacyErrorWorkflow_graph :
    buildSemanticGraph legacyErrorWorkflow = buildSemanticGraph errorPinWorkflow := by
  rfl

theorem legacyErrorWorkflow_hasConnection :
    legacyErrorWorkflow.HasConnection ⟨"HTTP", .error, 0, "Handler", 0⟩ :=
  ⟨[some [⟨"Handler", "main", 0⟩]], [⟨"Handler", "main", 0⟩], "main", by decide, rfl, by decide⟩

variable {outputs : List (Option (List TargetJSON))} {source connType : String}

theorem mem_connectionEntries {json : WorkflowJSON} :
    (source, connType, outputs) ∈ connectionEntries json ↔
      ∃ types, json.connections.get? source = some types ∧
        ∃ slots, types.get? connType = some slots ∧ slots.map normalizeSlot = outputs := by
  simp only [connectionEntries, List.mem_flatMap, List.mem_map, Prod.exists, mem_objectEntries,
    Prod.mk.injEq]
  constructor
  · rintro ⟨_, types, htypes, _, slots, hslots, rfl, rfl, houtputs⟩
    exact ⟨types, htypes, slots, hslots, houtputs⟩
  · rintro ⟨types, htypes, slots, hslots, houtputs⟩
    exact ⟨source, types, htypes, connType, slots, hslots, rfl, rfl, houtputs⟩

/-- A source has one list of outputs for each type. -/
theorem connectionEntries_functional {json : WorkflowJSON}
    {outputs' : List (Option (List TargetJSON))}
    (h : (source, connType, outputs) ∈ connectionEntries json)
    (h' : (source, connType, outputs') ∈ connectionEntries json) : outputs = outputs' := by
  obtain ⟨types, htypes, slots, hslots, rfl⟩ := mem_connectionEntries.mp h
  obtain ⟨types', htypes', slots', hslots', rfl⟩ := mem_connectionEntries.mp h'
  obtain rfl := Option.some.inj (htypes.symm.trans htypes')
  obtain rfl := Option.some.inj (hslots.symm.trans hslots')
  rfl

variable {write : OutputWrite}

theorem mem_allWrites {jsonOf : String → Option NodeJSON} {json : WorkflowJSON} :
    write ∈ allWrites jsonOf json ↔
      ∃ source connType outputs node, (source, connType, outputs) ∈ connectionEntries json ∧
        jsonOf source = some node ∧ write ∈ outputWrites node source connType outputs := by
  simp only [allWrites, List.mem_flatMap, Prod.exists, entryWrites]
  constructor
  · rintro ⟨source, connType, outputs, hentry, hwrite⟩
    cases h : jsonOf source with
    | none => simp [h] at hwrite
    | some node => exact ⟨source, connType, outputs, node, hentry, h, by simpa [h] using hwrite⟩
  · rintro ⟨source, connType, outputs, node, hentry, hnode, hwrite⟩
    exact ⟨source, connType, outputs, hentry, by simpa [hnode] using hwrite⟩

/-- An output in use : an index of a main output, or the error output. -/
inductive OutputPin where
  | main (index : ℕ)
  | error
  deriving DecidableEq, Repr

/-- The pin a connection leaves from. The error output has no index of its own. -/
def pinOf (node : NodeJSON) : ConnectionKind → ℕ → OutputPin
  | .error, _ => .error
  | .main, index =>
    if hasErrorOutput node ∧ index = getErrorOutputIndex node.type node then .error
    else .main index

def pinName (node : NodeJSON) : OutputPin → String
  | .main index => naturalOutputName node.type index node
  | .error => "error"

theorem pinName_injective (node : NodeJSON) : Function.Injective (pinName node) := by
  intro p q h
  cases p with
  | main i =>
    cases q with
    | main j => exact congrArg _ (naturalOutputName_injective node.type node h)
    | error => exact absurd h (naturalOutputName_ne_error _ _ _)
  | error =>
    cases q with
    | main j => exact absurd h.symm (naturalOutputName_ne_error _ _ _)
    | error => rfl

theorem pinName_pinOf_main (node : NodeJSON) (index : ℕ) :
    pinName node (pinOf node .main index) = getOutputName node.type index node := by
  by_cases h : hasErrorOutput node ∧ index = getErrorOutputIndex node.type node
  · simp only [pinOf, getOutputName, if_pos h, pinName]
  · simp only [pinOf, getOutputName, if_neg h, pinName]

variable {node : NodeJSON}

theorem connType_of_mem_outputWrites (h : write ∈ outputWrites node source connType outputs) :
    ∃ kind : ConnectionKind, connType = kind.key := by
  unfold outputWrites at h
  split_ifs at h with hmain herror
  · exact ⟨.main, hmain⟩
  · exact ⟨.error, herror⟩
  · cases h

theorem source_of_mem_outputWrites (h : write ∈ outputWrites node source connType outputs) :
    write.source = source := by
  unfold outputWrites at h
  split_ifs at h
  · obtain ⟨output, -, houtput⟩ := List.mem_filterMap.mp h
    obtain ⟨targets, -, rfl⟩ := Option.map_eq_some_iff.mp houtput
    rfl
  · rw [List.mem_singleton.mp h]
  · cases h

/-- A write of one main output. -/
theorem mem_outputWrites_main :
    write ∈ outputWrites node source ConnectionKind.main.key outputs ↔
      ∃ index targets, outputs[index]? = some (some targets) ∧
        write = ⟨source, pinName node (pinOf node .main index), targets⟩ := by
  simp only [outputWrites, ConnectionKind.key, if_true, List.mem_filterMap, Prod.exists,
    List.mem_zipIdx_iff_getElem?, Option.map_eq_some_iff, pinName_pinOf_main]
  constructor
  · rintro ⟨_, index, hindex, targets, rfl, rfl⟩
    exact ⟨index, targets, hindex, rfl⟩
  · rintro ⟨index, targets, hindex, rfl⟩
    exact ⟨_, index, hindex, targets, rfl, rfl⟩

theorem mem_outputWrites_error :
    write ∈ outputWrites node source ConnectionKind.error.key outputs ↔
      write = ⟨source, "error", outputs.reduceOption.flatten⟩ := by
  simp [outputWrites, ConnectionKind.key]

/-- The targets written under a pin are those of the connections that leave from it. -/
theorem exists_outputWrite_iff {pin : OutputPin} {target : TargetJSON} :
    (∃ write ∈ outputWrites node source connType outputs,
        write.outputName = pinName node pin ∧ target ∈ write.targets) ↔
      ∃ kind index targets, connType = ConnectionKind.key kind ∧
        outputs[index]? = some (some targets) ∧ target ∈ targets ∧ pinOf node kind index = pin := by
  constructor
  · rintro ⟨write, hwrite, hname, htarget⟩
    obtain ⟨kind, rfl⟩ := connType_of_mem_outputWrites hwrite
    cases kind with
    | main =>
      obtain ⟨index, targets, hindex, rfl⟩ := mem_outputWrites_main.mp hwrite
      exact ⟨.main, index, targets, rfl, hindex, htarget, pinName_injective node hname⟩
    | error =>
      obtain rfl := mem_outputWrites_error.mp hwrite
      obtain ⟨targets, htargets, htarget⟩ := List.mem_flatten.mp htarget
      obtain ⟨index, hindex⟩ := List.mem_iff_getElem?.mp (List.reduceOption_mem_iff.mp htargets)
      exact ⟨.error, index, targets, rfl, hindex, htarget, pinName_injective node hname⟩
  · rintro ⟨kind, index, targets, rfl, hindex, htarget, rfl⟩
    cases kind with
    | main =>
      exact ⟨_, mem_outputWrites_main.mpr ⟨index, targets, hindex, rfl⟩, rfl, htarget⟩
    | error =>
      refine ⟨_, mem_outputWrites_error.mpr rfl, rfl, List.mem_flatten.mpr ⟨targets, ?_, htarget⟩⟩
      exact List.reduceOption_mem_iff.mpr (List.mem_of_getElem? hindex)

/-! ## The connections of the graph -/

structure PinConnection where
  source : String
  pin : OutputPin
  target : String
  inputIndex : ℕ
  deriving DecidableEq, Repr

def WorkflowJSON.HasPinConnection (json : WorkflowJSON) (p : PinConnection) : Prop :=
  ∃ node kind outputIndex, json.NodeNamed p.source node ∧
    json.HasConnection ⟨p.source, kind, outputIndex, p.target, p.inputIndex⟩ ∧
    pinOf node kind outputIndex = p.pin

/-- The connection is in the map of outputs of its source. -/
def RepresentedInOutputs (graph : SemanticGraph) (p : PinConnection) : Prop :=
  ∃ source target connections, graph.nodes.get? p.source = some source ∧
    graph.nodes.get? p.target = some target ∧
    source.outputs.get? (pinName source.json p.pin) = some connections ∧
    ⟨p.target, getInputName target.type p.inputIndex target.json⟩ ∈ connections

/-- The connection is among the input sources of its target. -/
def RepresentedInInputs (graph : SemanticGraph) (p : PinConnection) : Prop :=
  ∃ source target sources, graph.nodes.get? p.source = some source ∧
    graph.nodes.get? p.target = some target ∧
    target.inputSources.get? (getInputName target.type p.inputIndex target.json) = some sources ∧
    ⟨p.source, pinName source.json p.pin⟩ ∈ sources

/-- The node has connections of type `error`, and main connections from its error output. -/
def WorkflowJSON.WritesErrorTwice (json : WorkflowJSON) (name : String) : Prop :=
  (∃ node index target inputIndex, json.NodeNamed name node ∧ target ∈ json.names ∧
    json.HasConnection ⟨name, .main, index, target, inputIndex⟩ ∧
    pinOf node .main index = .error) ∧
  ∃ index target inputIndex, target ∈ json.names ∧
    json.HasConnection ⟨name, .error, index, target, inputIndex⟩

section Represented

variable {json : WorkflowJSON} (h : json.WellNamed)

/-- The nodes of the workflow, without connections. -/
def createdGraph (json : WorkflowJSON) : SemanticGraph := { nodes := createNodes json.nodes }

theorem records_createdGraph (json : WorkflowJSON) :
    Records (createdGraph json) (buildSemanticGraph json)
      (allWrites (createdGraph json).jsonOf json) :=
  records_buildSemanticGraph json

variable {name : String}

theorem jsonOf_createdGraph (h : json.WellNamed) :
    (createdGraph json).jsonOf name = some node ↔ json.NodeNamed name node := by
  rw [SemanticGraph.jsonOf, Option.map_eq_some_iff]
  constructor
  · rintro ⟨created, hcreated, rfl⟩
    obtain ⟨nodeJson, hnode, rfl⟩ := (get?_createNodes h).mp hcreated
    exact hnode
  · intro hnode
    exact ⟨_, (get?_createNodes h).mpr ⟨node, hnode, rfl⟩, rfl⟩

/-- The nodes of the graph are the nodes of the workflow. -/
theorem json_of_get? (h : json.WellNamed) {node : SemanticNode}
    (hnode : (buildSemanticGraph json).nodes.get? name = some node) :
    json.NodeNamed name node.json := by
  rw [← jsonOf_createdGraph h, ← (records_createdGraph json).json, SemanticGraph.jsonOf, hnode]
  rfl

theorem exists_get? (h : json.WellNamed) (hname : name ∈ json.names) :
    ∃ node, (buildSemanticGraph json).nodes.get? name = some node := by
  obtain ⟨nodeJson, hmem, rfl⟩ := List.mem_map.mp hname
  have hnamed : json.NodeNamed (nodeJson.name.getD "") nodeJson := by
    refine ⟨hmem, ?_⟩
    cases hn : nodeJson.name with
    | none => exact absurd (List.mem_map.mpr ⟨nodeJson, hmem, by simp [hn]⟩) h.nonempty
    | some name => rfl
  have hjson := (jsonOf_createdGraph h).mpr hnamed
  rw [← (records_createdGraph json).json, SemanticGraph.jsonOf, Option.map_eq_some_iff] at hjson
  exact hjson.imp fun _ => And.left

theorem nodeNamed_unique (h : json.WellNamed) {node' : NodeJSON}
    (hnode : json.NodeNamed name node) (hnode' : json.NodeNamed name node') : node = node' :=
  Option.some.inj
    (((jsonOf_createdGraph h).mpr hnode).symm.trans ((jsonOf_createdGraph h).mpr hnode'))

/-- A connection is written when its target exists. -/
theorem mem_connections_iff (h : json.WellNamed) {target : NodeJSON} {index : ℕ}
    (htarget : json.NodeNamed name target) :
    ⟨name, getInputName target.type index target⟩ ∈
        write.connections (createdGraph json).jsonOf ↔
      ∃ type, ⟨name, type, index⟩ ∈ write.targets := by
  simp only [OutputWrite.connections, List.mem_filterMap, connectionTo, Option.map_eq_some_iff,
    SemanticConnection.mk.injEq, jsonOf_createdGraph h]
  constructor
  · rintro ⟨⟨_, type, index'⟩, hmem, node, hnode, rfl, hslot⟩
    obtain rfl := nodeNamed_unique h htarget hnode
    obtain rfl := getInputName_injective _ _ hslot
    exact ⟨type, hmem⟩
  · rintro ⟨type, hmem⟩
    exact ⟨_, hmem, target, htarget, rfl, rfl⟩

/-- The connections that are written are those of the workflow. -/
theorem exists_write_iff (h : json.WellNamed) {p : PinConnection} {source target : NodeJSON}
    (hsource : json.NodeNamed p.source source) (htarget : json.NodeNamed p.target target) :
    (∃ write ∈ allWrites (createdGraph json).jsonOf json, write.source = p.source ∧
        write.outputName = pinName source p.pin ∧
        ⟨p.target, getInputName target.type p.inputIndex target⟩ ∈
          write.connections (createdGraph json).jsonOf) ↔
      json.HasPinConnection p := by
  constructor
  · rintro ⟨write, hwrite, hfrom, hname, hmem⟩
    obtain ⟨type, htype⟩ := (mem_connections_iff h htarget).mp hmem
    obtain ⟨_, connType, outputs, node, hentry, hnode, hwrite⟩ := mem_allWrites.mp hwrite
    obtain rfl := (source_of_mem_outputWrites hwrite).symm.trans hfrom
    obtain rfl := nodeNamed_unique h hsource ((jsonOf_createdGraph h).mp hnode)
    obtain ⟨kind, index, targets, rfl, hindex, htargets, hpin⟩ :=
      exists_outputWrite_iff.mp ⟨write, hwrite, hname, htype⟩
    exact ⟨source, kind, index, hsource, ⟨outputs, targets, type, hentry, hindex, htargets⟩, hpin⟩
  · rintro ⟨node, kind, index, hnode, ⟨outputs, targets, type, hentry, hindex, htargets⟩, hpin⟩
    obtain rfl := nodeNamed_unique h hsource hnode
    obtain ⟨write, hwrite, hname, htype⟩ :=
      exists_outputWrite_iff.mpr ⟨kind, index, targets, rfl, hindex, htargets, hpin⟩
    exact ⟨write, mem_allWrites.mpr ⟨_, _, outputs, source, hentry,
      (jsonOf_createdGraph h).mpr hsource, hwrite⟩, source_of_mem_outputWrites hwrite, hname,
      (mem_connections_iff h htarget).mpr ⟨type, htype⟩⟩

theorem not_sourceAt_createdGraph (h : json.WellNamed) (name slot : String) (source : SourceInfo) :
    ¬(createdGraph json).SourceAt name slot source := by
  rintro ⟨node, hnode, hmem⟩
  obtain ⟨nodeJson, -, rfl⟩ := (get?_createNodes h).mp hnode
  cases hmem

theorem representedInInputs_iff (h : json.WellNamed) {p : PinConnection}
    (hsource : p.source ∈ json.names) (htarget : p.target ∈ json.names) :
    RepresentedInInputs (buildSemanticGraph json) p ↔ json.HasPinConnection p := by
  obtain ⟨source, hget⟩ := exists_get? h hsource
  obtain ⟨target, hget'⟩ := exists_get? h htarget
  rw [← exists_write_iff h (json_of_get? h hget) (json_of_get? h hget')]
  have hsources := (records_createdGraph json).sources p.target
    (getInputName target.type p.inputIndex target.json) ⟨p.source, pinName source.json p.pin⟩
  rw [or_iff_right (not_sourceAt_createdGraph h _ _ _)] at hsources
  constructor
  · rintro ⟨source', target', sources, hs, ht, hslot, hmem⟩
    obtain rfl := Option.some.inj (hget.symm.trans hs)
    obtain rfl := Option.some.inj (hget'.symm.trans ht)
    obtain ⟨write, hwrite, heq, hconn⟩ := hsources.mp ⟨target, hget', by rwa [hslot]⟩
    obtain ⟨hfrom, hname⟩ := SourceInfo.mk.inj heq
    exact ⟨write, hwrite, hfrom.symm, hname.symm, hconn⟩
  · rintro ⟨write, hwrite, hfrom, hname, hconn⟩
    obtain ⟨node, hnode, hmem⟩ := hsources.mpr ⟨write, hwrite, by rw [hfrom, hname], hconn⟩
    obtain rfl := Option.some.inj (hget'.symm.trans hnode)
    cases hslot : target.inputSources.get? (getInputName target.type p.inputIndex target.json) with
    | none =>
      rw [hslot] at hmem
      cases hmem
    | some sources =>
      rw [hslot] at hmem
      exact ⟨source, target, sources, hget, hget', hslot, hmem⟩

/-- A write that is not empty has a target that exists. -/
theorem exists_target_of_connections_ne_nil (h : json.WellNamed)
    (hne : write.connections (createdGraph json).jsonOf ≠ []) :
    ∃ target ∈ write.targets, target.node ∈ json.names := by
  obtain ⟨connection, hmem⟩ := List.exists_mem_of_ne_nil _ hne
  obtain ⟨target, htarget, hconn⟩ := List.mem_filterMap.mp hmem
  obtain ⟨node, hnode, -⟩ := Option.map_eq_some_iff.mp hconn
  obtain ⟨hnodes, hname⟩ := (jsonOf_createdGraph h).mp hnode
  exact ⟨target, htarget, List.mem_map.mpr ⟨node, hnodes, by simp [hname]⟩⟩

/-- A write of a main output and one of the error outputs under the same name. -/
theorem writesErrorTwice_of_writes (h : json.WellNamed)
    {outputs' : List (Option (List TargetJSON))} {write' : OutputWrite}
    (hnode : json.NodeNamed source node)
    (hentry : (source, ConnectionKind.main.key, outputs) ∈ connectionEntries json)
    (hwrite : write ∈ outputWrites node source ConnectionKind.main.key outputs)
    (hentry' : (source, ConnectionKind.error.key, outputs') ∈ connectionEntries json)
    (hwrite' : write' ∈ outputWrites node source ConnectionKind.error.key outputs')
    (hname : write.outputName = write'.outputName)
    (hne : write.connections (createdGraph json).jsonOf ≠ [])
    (hne' : write'.connections (createdGraph json).jsonOf ≠ []) :
    json.WritesErrorTwice source := by
  obtain ⟨target, htarget, hexists⟩ := exists_target_of_connections_ne_nil h hne
  obtain ⟨target', htarget', hexists'⟩ := exists_target_of_connections_ne_nil h hne'
  obtain ⟨index, targets, hindex, rfl⟩ := mem_outputWrites_main.mp hwrite
  obtain rfl := mem_outputWrites_error.mp hwrite'
  obtain ⟨targets', htargets', hmem'⟩ := List.mem_flatten.mp htarget'
  obtain ⟨index', hindex'⟩ := List.mem_iff_getElem?.mp (List.reduceOption_mem_iff.mp htargets')
  exact ⟨⟨node, index, target.node, target.index, hnode, hexists,
      ⟨outputs, targets, target.type, hentry, hindex, htarget⟩, pinName_injective node hname⟩,
    index', target'.node, target'.index, hexists',
    outputs', targets', target'.type, hentry', hindex', hmem'⟩

/-- Writes under one name are the same, unless the error output is written twice. -/
theorem connections_eq_of_outputName_eq (h : json.WellNamed)
    (htwice : ¬json.WritesErrorTwice source) {write' : OutputWrite}
    (hwrite : write ∈ allWrites (createdGraph json).jsonOf json)
    (hwrite' : write' ∈ allWrites (createdGraph json).jsonOf json) (hfrom : write.source = source)
    (hfrom' : write'.source = source) (hname : write.outputName = write'.outputName)
    (hne : write.connections (createdGraph json).jsonOf ≠ [])
    (hne' : write'.connections (createdGraph json).jsonOf ≠ []) :
    write.connections (createdGraph json).jsonOf =
      write'.connections (createdGraph json).jsonOf := by
  obtain ⟨_, connType, outputs, node, hentry, hnode, hmem⟩ := mem_allWrites.mp hwrite
  obtain ⟨_, connType', outputs', node', hentry', hnode', hmem'⟩ := mem_allWrites.mp hwrite'
  obtain rfl := (source_of_mem_outputWrites hmem).symm.trans hfrom
  obtain rfl := (source_of_mem_outputWrites hmem').symm.trans hfrom'
  obtain rfl := Option.some.inj (hnode.symm.trans hnode')
  have hnamed := (jsonOf_createdGraph h).mp hnode
  obtain ⟨kind, rfl⟩ := connType_of_mem_outputWrites hmem
  obtain ⟨kind', rfl⟩ := connType_of_mem_outputWrites hmem'
  cases kind with
  | main =>
    cases kind' with
    | main =>
      obtain rfl := connectionEntries_functional hentry hentry'
      obtain ⟨index, targets, hindex, rfl⟩ := mem_outputWrites_main.mp hmem
      obtain ⟨index', targets', hindex', rfl⟩ := mem_outputWrites_main.mp hmem'
      simp only [pinName_pinOf_main] at hname
      obtain rfl := getOutputName_injective _ _ hname
      obtain rfl := Option.some.inj (Option.some.inj (hindex.symm.trans hindex'))
      rfl
    | error =>
      exact absurd (writesErrorTwice_of_writes h hnamed hentry hmem hentry' hmem' hname hne hne')
        htwice
  | error =>
    cases kind' with
    | main =>
      exact absurd (writesErrorTwice_of_writes h hnamed hentry' hmem' hentry hmem hname.symm hne' hne)
        htwice
    | error =>
      obtain rfl := connectionEntries_functional hentry hentry'
      rw [mem_outputWrites_error.mp hmem, mem_outputWrites_error.mp hmem']

theorem foldl_applyWrite (writes : List (String × List SemanticConnection))
    (m : OrderedMap String (List SemanticConnection)) :
    writes.foldl applyWrite m =
      (writes.filter fun write => write.2 ≠ []).foldl (fun m write => m.set write.1 write.2) m := by
  induction writes generalizing m with
  | nil => rfl
  | cons write writes ih =>
    rw [List.foldl_cons, ih, List.filter_cons]
    by_cases hne : write.2 = [] <;> simp [applyWrite, hne]

/-- What the map of outputs of a node that writes its error output once holds. -/
theorem outputs_get?_iff (h : json.WellNamed) (htwice : ¬json.WritesErrorTwice name)
    {node : SemanticNode} (hget : (buildSemanticGraph json).nodes.get? name = some node)
    {outputName : String} {connections : List SemanticConnection} :
    node.outputs.get? outputName = some connections ↔
      connections ≠ [] ∧ ∃ write ∈ allWrites (createdGraph json).jsonOf json,
        write.source = name ∧ write.outputName = outputName ∧
        write.connections (createdGraph json).jsonOf = connections := by
  have houtputs := (records_createdGraph json).outputs name
  obtain ⟨created, hcreated, -⟩ : ∃ created, (createdGraph json).nodes.get? name = some created ∧
      True := by
    have hjson := (jsonOf_createdGraph h).mpr (json_of_get? h hget)
    obtain ⟨created, hcreated, -⟩ := Option.map_eq_some_iff.mp hjson
    exact ⟨created, hcreated, trivial⟩
  obtain ⟨nodeJson, -, rfl⟩ := (get?_createNodes h).mp hcreated
  simp only [SemanticGraph.outputsOf, hget, hcreated, Option.map_some, Option.some.injEq] at houtputs
  have hmem : ∀ write, write ∈ (writesTo (createdGraph json).jsonOf name
      (allWrites (createdGraph json).jsonOf json)).filter (fun write => write.2 ≠ []) ↔
      write.2 ≠ [] ∧ ∃ w ∈ allWrites (createdGraph json).jsonOf json, w.source = name ∧
        w.outputName = write.1 ∧ w.connections (createdGraph json).jsonOf = write.2 := by
    rintro ⟨outputName, connections⟩
    simp only [writesTo, List.mem_filter, List.mem_map, decide_eq_true_iff, Prod.mk.injEq]
    rw [and_comm]
    exact and_congr_right fun _ => exists_congr fun w => by rw [and_assoc]
  rw [houtputs, foldl_applyWrite, OrderedMap.get?_foldl_set_of_functional, hmem]
  · simp [createSemanticNode]
  · rintro ⟨x, cs⟩ hx ⟨_, cs'⟩ hx' rfl
    obtain ⟨hne, w, hw, hfrom, hname, rfl⟩ := (hmem _).mp hx
    obtain ⟨hne', w', hw', hfrom', hname', rfl⟩ := (hmem _).mp hx'
    exact connections_eq_of_outputName_eq h htwice hw hw' hfrom hfrom' (hname.trans hname'.symm)
      hne hne'

theorem representedInOutputs_iff (h : json.WellNamed) {p : PinConnection}
    (htwice : ¬json.WritesErrorTwice p.source)
    (hsource : p.source ∈ json.names) (htarget : p.target ∈ json.names) :
    RepresentedInOutputs (buildSemanticGraph json) p ↔ json.HasPinConnection p := by
  obtain ⟨source, hget⟩ := exists_get? h hsource
  obtain ⟨target, hget'⟩ := exists_get? h htarget
  rw [← exists_write_iff h (json_of_get? h hget) (json_of_get? h hget')]
  constructor
  · rintro ⟨source', target', connections, hs, ht, hslot, hmem⟩
    obtain rfl := Option.some.inj (hget.symm.trans hs)
    obtain rfl := Option.some.inj (hget'.symm.trans ht)
    obtain ⟨-, write, hwrite, hfrom, hname, rfl⟩ := (outputs_get?_iff h htwice hget).mp hslot
    exact ⟨write, hwrite, hfrom, hname, hmem⟩
  · rintro ⟨write, hwrite, hfrom, hname, hconn⟩
    exact ⟨source, target, _, hget, hget', (outputs_get?_iff h htwice hget).mpr
      ⟨List.ne_nil_of_mem hconn, write, hwrite, hfrom, hname, rfl⟩, hconn⟩

end Represented

theorem legacyErrorWorkflow_not_writesErrorTwice : ¬legacyErrorWorkflow.WritesErrorTwice "HTTP" := by
  rintro ⟨⟨_, _, _, _, -, -, ⟨outputs, _, _, hentry, -, -⟩, -⟩, -⟩
  have hentries : connectionEntries legacyErrorWorkflow =
      [("HTTP", "error", [some [⟨"Handler", "main", 0⟩]])] := by decide
  rw [hentries, List.mem_singleton] at hentry
  have htype : ConnectionKind.main.key = "error" := congrArg (·.2.1) hentry
  exact absurd htype (by decide)

end N8n.Codegen
