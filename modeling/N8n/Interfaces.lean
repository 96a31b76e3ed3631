import N8n.Lib.JsObject

/-!
# Workflow data

The records the execution engine and the partial-execution planner share : nodes and
their connections, the items nodes pass on, run data and pinned data.

Items carry a JSON payload `J` the engine hardly looks into; `DataObject` collects what
it does with one. Objects keyed by node name are `OrderedMap`s. A node value stands for
the node object, so that equality of nodes is the identity `===` of the source.

Left out are the fields nothing modelled here reads : node parameters and credentials,
binary data, timing and logging fields.
-/

open Lib

namespace N8n

/-- The UTF-16 code units of a string. -/
abbrev JsString := List UInt16

/-- A character of the basic multilingual plane, as a code unit. -/
def codeUnit (c : Char) : UInt16 := c.toNat.toUInt16

/-- The types of connections between nodes. -/
inductive NodeConnectionType where
  | aiAgent | aiChain | aiDocument | aiEmbedding | aiLanguageModel | aiMemory
  | aiOutputParser | aiRetriever | aiReranker | aiTextSplitter | aiTool | aiVectorStore
  | main
  deriving DecidableEq, Repr

/-- The key of a connection type in the workflow format. -/
def NodeConnectionType.toKey : NodeConnectionType → String
  | aiAgent => "ai_agent"
  | aiChain => "ai_chain"
  | aiDocument => "ai_document"
  | aiEmbedding => "ai_embedding"
  | aiLanguageModel => "ai_languageModel"
  | aiMemory => "ai_memory"
  | aiOutputParser => "ai_outputParser"
  | aiRetriever => "ai_retriever"
  | aiReranker => "ai_reranker"
  | aiTextSplitter => "ai_textSplitter"
  | aiTool => "ai_tool"
  | aiVectorStore => "ai_vectorStore"
  | main => "main"

/-- What the node does when its execution fails. -/
inductive OnError where
  | continueErrorOutput | continueRegularOutput | stopWorkflow
  deriving DecidableEq, Repr

structure INode where
  name : String
  id : String := ""
  type : String := ""
  position : ℤ × ℤ := (0, 0)
  disabled : Option Bool := none
  alwaysOutputData : Option Bool := none
  continueOnFail : Option Bool := none
  retryOnFail : Option Bool := none
  maxTries : Option ℕ := none
  onError : Option OnError := none
  deriving DecidableEq, Repr

/-- A node of which only the name matters. -/
def INode.named (name : String) : INode := { name }

structure IConnection where
  /-- The node the connection is to. -/
  node : String
  /-- The type of the input on the destination node. -/
  type : NodeConnectionType
  /-- The index of the input on the destination node. -/
  index : ℤ
  deriving DecidableEq, Repr

/-- The connections of each output index; `none` stands for `null` and for a hole. -/
abbrev NodeInputConnections := List (Option (List IConnection))

abbrev INodeConnections := OrderedMap NodeConnectionType NodeInputConnections

abbrev IConnections := OrderedMap String INodeConnections

/-- What the engine does with the JSON payload of an item. -/
class DataObject (J : Type) where
  /-- `{}` -/
  empty : J
  /-- `{ error: message }` -/
  ofError : String → J
  /-- `{ ...a, ...b }` -/
  assign : J → J → J
  /-- `{ toolCallId: id }` -/
  ofToolCallId : String → J
  /-- The message of `$error`, when both `$error` and `$json` are there. -/
  errorMessage : J → Option String
  /-- `error` is there, and not `null` or `false`. -/
  hasError : J → Bool

/-- Numbers as payloads. -/
instance : DataObject ℕ where
  empty := 0
  ofError _ := 0
  assign _ b := b
  ofToolCallId _ := 0
  errorMessage _ := none
  hasError _ := false

/-- Where the data of an input came from. -/
structure ISourceData where
  previousNode : String
  previousNodeOutput : Option ℕ := none
  previousNodeRun : Option ℕ := none
  deriving DecidableEq, Repr

structure IPairedItemData where
  item : ℕ
  input : Option ℕ := none
  sourceOverwrite : Option ISourceData := none
  deriving DecidableEq, Repr

/-- The items an item was made from. -/
inductive PairedItem where
  | single (item : IPairedItemData)
  | many (items : List IPairedItemData)
  deriving DecidableEq, Repr

structure INodeExecutionData (J : Type) where
  json : J
  pairedItem : Option PairedItem := none
  error : Option String := none
  deriving DecidableEq, Repr

/-- The items on one input or output. -/
abbrev Items (J : Type) := List (INodeExecutionData J)

/-- `{ json: {} }` -/
def emptyItem {J : Type} [DataObject J] : INodeExecutionData J := { json := DataObject.empty }

/-- The items of each input, by type of connection. -/
abbrev ITaskDataConnections (J : Type) := OrderedMap NodeConnectionType (List (Slot (Items J)))

/-- The source of each input, by type of connection. -/
abbrev ITaskDataConnectionsSource := OrderedMap NodeConnectionType (List (Slot ISourceData))

/-- `{ main: slots }` -/
def mainConnections {β : Type} (slots : List (Slot β)) :
    OrderedMap NodeConnectionType (List (Slot β)) :=
  (∅ : OrderedMap NodeConnectionType (List (Slot β))).set .main slots

@[simp] theorem get?_mainConnections {β : Type} (slots : List (Slot β)) :
    (mainConnections slots).get? .main = some slots :=
  OrderedMap.get?_set_self _ _ _

/-- One run of a node. -/
structure ITaskData (J : Type) where
  data : Option (ITaskDataConnections J) := none
  inputOverride : Option (ITaskDataConnections J) := none
  error : Option String := none
  source : List (Slot ISourceData) := []

/-- The runs of each node. -/
abbrev IRunData (J : Type) := OrderedMap String (List (ITaskData J))

/-- The pinned output of each node. -/
abbrev IPinData (J : Type) := OrderedMap String (Items J)

/-! ## Executions -/

inductive ExecutionStatus where
  | canceled | crashed | error | new | running | success | unknown | waiting
  deriving DecidableEq, Repr

/-- What started an execution. -/
inductive WorkflowExecuteMode where
  | cli | error | integrated | internal | manual | retry | trigger | webhook | evaluation
  | chat | agent
  deriving DecidableEq, Repr

end N8n
