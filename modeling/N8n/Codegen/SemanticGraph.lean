import Mathlib.Data.List.Infix
import N8n.Codegen.SemanticRegistry

/-!
# The semantic graph

`buildSemanticGraph` turns a workflow into a graph whose connections carry names in place
of indexes : each node maps the names of its outputs to the connections that leave there,
and the names of its inputs to where the data comes from.
-/

open Lib

namespace N8n.Codegen

/-! ## The workflow -/

/-- A connection as a workflow may write it. -/
structure RawConnection where
  node : String
  type : String
  index : Option ℕ := none
  deriving DecidableEq, Repr

/-- What stands at an output index : `null`, one connection written as an array of up to
three parts, or the connections. -/
inductive RawSlot where
  | null
  | tuple (node : String) (type : Option String) (index : Option ℕ)
  | targets (connections : List RawConnection)
  deriving DecidableEq, Repr

structure TargetJSON where
  node : String
  type : String
  index : ℕ
  deriving DecidableEq, Repr

structure WorkflowJSON where
  nodes : List NodeJSON
  connections : OrderedMap String (OrderedMap String (List RawSlot))

def normalizeSlot : RawSlot → Option (List TargetJSON)
  | .null => none
  | .tuple node type index => some [⟨node, type.getD "main", index.getD 0⟩]
  | .targets connections => some (connections.map fun c => ⟨c.node, c.type, c.index.getD 0⟩)

/-! ## The graph -/

inductive AiConnectionType where
  | languageModel | memory | tool | outputParser | embedding | vectorStore | retriever
  | document | textSplitter | reranker
  deriving DecidableEq, Repr

def AI_CONNECTION_TYPES : List (String × AiConnectionType) :=
  [("ai_languageModel", .languageModel), ("ai_memory", .memory), ("ai_tool", .tool),
    ("ai_outputParser", .outputParser), ("ai_embedding", .embedding),
    ("ai_vectorStore", .vectorStore), ("ai_retriever", .retriever), ("ai_document", .document),
    ("ai_textSplitter", .textSplitter), ("ai_reranker", .reranker)]

structure SubnodeConnection where
  connectionType : AiConnectionType
  subnodeName : String
  index : ℕ
  deriving DecidableEq, Repr

structure SemanticConnection where
  target : String
  targetInputSlot : String
  deriving DecidableEq, Repr

structure SourceInfo where
  «from» : String
  outputSlot : String
  deriving DecidableEq, Repr

structure NodeAnnotations where
  isTrigger : Bool
  isCycleTarget : Bool := false
  isConvergencePoint : Bool := false

structure SemanticNode where
  name : String
  json : NodeJSON
  outputs : OrderedMap String (List SemanticConnection) := ∅
  inputSources : OrderedMap String (List SourceInfo) := ∅
  subnodes : List SubnodeConnection := []
  annotations : NodeAnnotations

def SemanticNode.type (node : SemanticNode) : String := node.json.type

structure SemanticGraph where
  nodes : OrderedMap String SemanticNode
  roots : List String := []
  cycleEdges : OrderedMap String (List String) := ∅

/-! ## Nodes -/

def TRIGGER_NODE_TYPES : List String :=
  ["n8n-nodes-base.webhook", "n8n-nodes-base.cron", "n8n-nodes-base.emailReadImap",
    "n8n-nodes-base.telegramBot", "n8n-nodes-base.start"]

def isTriggerNodeType (type : String) : Bool :=
  type ∈ TRIGGER_NODE_TYPES ∨ "trigger".toList <:+: type.toList.map Char.toLower

def createSemanticNode (name : String) (nodeJson : NodeJSON) : SemanticNode where
  name
  json := nodeJson
  annotations := { isTrigger := isTriggerNodeType nodeJson.type }

/-- `type.split('.').pop()` -/
def typeSuffix (type : String) : String :=
  String.ofList (type.toList.reverse.takeWhile (· ≠ '.')).reverse

/-- The first name from `counter` on that is not taken. One of as many names as there are
taken ones, and one more, is free. -/
def uniqueNameFrom (baseName : String) (taken : List String) : ℕ → ℕ → String
  | 0, counter => s!"{baseName} {counter}"
  | n + 1, counter =>
    if s!"{baseName} {counter}" ∈ taken then uniqueNameFrom baseName taken n (counter + 1)
    else s!"{baseName} {counter}"

def generateUniqueName (baseName : String) (taken : List String) : String :=
  uniqueNameFrom baseName taken taken.length 2

/-- The nodes so far, and how many unnamed nodes there were with each suffix. -/
structure NamingState where
  nodes : OrderedMap String SemanticNode := ∅
  unnamedCounters : OrderedMap String ℕ := ∅

def addNode (state : NamingState) (nodeJson : NodeJSON) : NamingState :=
  match nodeJson.name with
  | none => addUnnamed
  | some name =>
    if name = "" then addUnnamed
    else if state.nodes.has name then
      let unique := generateUniqueName name state.nodes.keys
      { state with nodes := state.nodes.set unique (createSemanticNode unique nodeJson) }
    else { state with nodes := state.nodes.set name (createSemanticNode name nodeJson) }
where
  addUnnamed : NamingState :=
    let suffix := typeSuffix nodeJson.type
    let counter := (state.unnamedCounters.get? suffix).getD 0 + 1
    let name := s!"__unnamed_{suffix}_{counter}__"
    { nodes := state.nodes.set name (createSemanticNode name nodeJson)
      unnamedCounters := state.unnamedCounters.set suffix counter }

def createNodes (nodes : List NodeJSON) : OrderedMap String SemanticNode :=
  (nodes.foldl addNode {}).nodes

/-! ## Connections -/

def SemanticGraph.updateNode (graph : SemanticGraph) (name : String)
    (f : SemanticNode → SemanticNode) : SemanticGraph :=
  match graph.nodes.get? name with
  | none => graph
  | some node => { graph with nodes := graph.nodes.set name (f node) }

def SemanticNode.addSource (inputSlot : String) (source : SourceInfo) (node : SemanticNode) :
    SemanticNode :=
  { node with
    inputSources :=
      node.inputSources.set inputSlot ((node.inputSources.get? inputSlot).getD [] ++ [source]) }

def SemanticNode.setOutput (outputName : String) (connections : List SemanticConnection)
    (node : SemanticNode) : SemanticNode :=
  if connections = [] then node
  else { node with outputs := node.outputs.set outputName connections }

def SemanticNode.addSubnode (subnode : SubnodeConnection) (node : SemanticNode) : SemanticNode :=
  { node with subnodes := node.subnodes ++ [subnode] }

/-- Records the source on each target that exists, and collects the connections. -/
def parseTargets (sourceName outputName : String) :
    List TargetJSON → SemanticGraph → SemanticGraph × List SemanticConnection
  | [], graph => (graph, [])
  | target :: targets, graph =>
    match graph.nodes.get? target.node with
    | none => parseTargets sourceName outputName targets graph
    | some targetNode =>
      let inputSlot := getInputName targetNode.type target.index targetNode.json
      let rest := parseTargets sourceName outputName targets
        (graph.updateNode target.node (.addSource inputSlot ⟨sourceName, outputName⟩))
      (rest.1, ⟨target.node, inputSlot⟩ :: rest.2)

/-- Records the targets of one output under its name. -/
def parseOutput (sourceName outputName : String) (targets : List TargetJSON)
    (graph : SemanticGraph) : SemanticGraph :=
  let parsed := parseTargets sourceName outputName targets graph
  parsed.1.updateNode sourceName (.setOutput outputName parsed.2)

/-- One main output. -/
def parseMainOutput (sourceNode : SemanticNode) (sourceName : String) (graph : SemanticGraph)
    (output : Option (List TargetJSON) × ℕ) : SemanticGraph :=
  match output.1 with
  | none => graph
  | some targets =>
    parseOutput sourceName (getOutputName sourceNode.type output.2 sourceNode.json) targets graph

def parseMainConnections (sourceName : String) (outputs : List (Option (List TargetJSON)))
    (graph : SemanticGraph) : SemanticGraph :=
  match graph.nodes.get? sourceName with
  | none => graph
  | some sourceNode => outputs.zipIdx.foldl (parseMainOutput sourceNode sourceName) graph

def parseErrorConnections (sourceName : String) (outputs : List (Option (List TargetJSON)))
    (graph : SemanticGraph) : SemanticGraph :=
  match graph.nodes.get? sourceName with
  | none => graph
  | some _ => parseOutput sourceName "error" (outputs.reduceOption.flatten) graph

def parseAiConnections (sourceName : String) (connectionType : AiConnectionType)
    (outputs : List (Option (List TargetJSON))) (graph : SemanticGraph) : SemanticGraph :=
  match graph.nodes.get? sourceName with
  | none => graph
  | some _ =>
    outputs.reduceOption.flatten.foldl (fun graph target =>
      graph.updateNode target.node
        (.addSubnode ⟨connectionType, sourceName, target.index⟩)) graph

def parseConnections (sourceName connType : String) (outputs : List (Option (List TargetJSON)))
    (graph : SemanticGraph) : SemanticGraph :=
  if connType = "main" then parseMainConnections sourceName outputs graph
  else if connType = "error" then parseErrorConnections sourceName outputs graph
  else
    match AI_CONNECTION_TYPES.lookup connType with
    | some aiType => parseAiConnections sourceName aiType outputs graph
    | none => graph

/-- The outputs of each source and type, as the two loops go through them. -/
def connectionEntries (json : WorkflowJSON) :
    List (String × String × List (Option (List TargetJSON))) :=
  (objectEntries json.connections).flatMap fun source =>
    (objectEntries source.2).map fun outputs => (source.1, outputs.1, outputs.2.map normalizeSlot)

def parseAllConnections (json : WorkflowJSON) (graph : SemanticGraph) : SemanticGraph :=
  (connectionEntries json).foldl (fun graph entry =>
    parseConnections entry.1 entry.2.1 entry.2.2 graph) graph

def sortSubnodes (graph : SemanticGraph) : SemanticGraph :=
  graph.nodes.keys.foldl (fun graph name =>
    graph.updateNode name fun node =>
      { node with subnodes := node.subnodes.insertionSort fun a b => a.index ≤ b.index }) graph

/-! ## Roots -/

/-- The targets of the main and error connections of a node, output by output. -/
def SemanticGraph.targets (graph : SemanticGraph) (name : String) : List String :=
  match graph.nodes.get? name with
  | none => []
  | some node => (node.outputs.values.flatten).map SemanticConnection.target

def SemanticGraph.subnodeNames (graph : SemanticGraph) : List String :=
  graph.nodes.values.flatMap fun node => node.subnodes.map SubnodeConnection.subnodeName

def identifyRoots (graph : SemanticGraph) : List String :=
  let hasIncomingConnections := graph.nodes.keys.flatMap graph.targets
  let subnodeNames := graph.subnodeNames
  (graph.nodes.entries.filter fun entry =>
      entry.1 ∉ subnodeNames ∧
        (entry.2.annotations.isTrigger ∨ entry.1 ∉ hasIncomingConnections)).map Prod.fst

/-- Takes names from the stack, marks each that is new and pushes those of its targets that
are in the scope and not marked. -/
def markReachable (graph : SemanticGraph) (scope : String → Bool) :
    ℕ → List String → List String → List String
  | 0, _, processed => processed
  | _ + 1, [], processed => processed
  | fuel + 1, current :: stack, processed =>
    if current ∈ processed then markReachable graph scope fuel stack processed
    else
      let pushed := (graph.targets current).filter fun t => scope t ∧ t ∉ processed ++ [current]
      markReachable graph scope fuel (pushed.reverse ++ stack) (processed ++ [current])

/-- Enough rounds : a target is pushed at most once for each connection. -/
def markFuel (graph : SemanticGraph) : ℕ :=
  (graph.nodes.keys.flatMap graph.targets).length + graph.nodes.size + 1

def findDisconnectedRoots (graph : SemanticGraph) : List String :=
  let subnodeNames := graph.subnodeNames
  let reachable := markReachable graph (fun _ => true) (graph.roots.length + markFuel graph)
    graph.roots.reverse []
  let disconnected := graph.nodes.keys.filter fun name =>
    name ∉ reachable ∧ name ∉ subnodeNames
  let hasIncoming := fun name =>
    disconnected.any fun other => other ≠ name ∧ name ∈ graph.targets other
  let enter := fun (state : List String × List String) name =>
    if name ∈ state.2 then state
    else
      (state.1 ++ [name],
        markReachable graph (· ∈ disconnected) (markFuel graph) [name] state.2)
  let sources := (disconnected.filter fun name => ¬hasIncoming name).foldl enter ([], [])
  (disconnected.foldl enter sources).1

def buildSemanticGraph (json : WorkflowJSON) : SemanticGraph :=
  let parsed := parseAllConnections json { nodes := createNodes json.nodes }
  let sorted := sortSubnodes parsed
  let rooted := { sorted with roots := identifyRoots sorted }
  { rooted with roots := rooted.roots ++ findDisconnectedRoots rooted }

end N8n.Codegen
