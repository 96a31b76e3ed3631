import N8n.Workflow.ConnectedNodes

/-!
# Workflows

What the engine asks a workflow : its nodes by name, its connections by source and by
destination, the execution order and the description of its node types.

The nodes are keyed by their names, which is a field of the structure. Resolving an
expression that says which inputs a node requires is left to the expression engine and is
a function of the workflow here.
-/

open Lib

namespace N8n

inductive ExecutionOrder where
  | v0 | v1
  deriving DecidableEq, Repr

/-- The inputs that need data before a node may run. -/
inductive RequiredInputs where
  /-- An expression to be resolved. -/
  | expression (value : String)
  /-- These inputs. -/
  | indexes (inputs : List ℕ)
  /-- Some inputs, at least this many. -/
  | count (amount : ℕ)
  deriving DecidableEq, Repr

/-- The nodes by name. -/
def setNodes (nodes : List INode) : OrderedMap String INode :=
  nodes.foldl (fun m node => m.set node.name node) ∅

theorem name_of_setNodes {nodes : List INode} {k : String} {n : INode}
    (h : (setNodes nodes).get? k = some n) : n.name = k := by
  have hfold : ∀ m : OrderedMap String INode, (∀ k n, m.get? k = some n → n.name = k) →
      ∀ k n, (nodes.foldl (fun m node => m.set node.name node) m).get? k = some n → n.name = k := by
    clear h
    induction nodes with
    | nil => exact fun m hm => hm
    | cons node nodes ih =>
      refine fun m hm => ih _ fun k n hn => ?_
      rw [OrderedMap.get?_set] at hn
      split_ifs at hn with hk
      · cases hn
        exact hk
      · exact hm k n hn
  exact hfold ∅ (by simp) k n h

structure INodeTypeDescription where
  /-- How many inputs the node type has. -/
  inputs : ℕ := 1
  requiredInputs : Option RequiredInputs := none
  deriving DecidableEq, Repr

structure Workflow where
  nodes : OrderedMap String INode := ∅
  connectionsBySourceNode : IConnections := ∅
  connectionsByDestinationNode : IConnections := ∅
  executionOrder : Option ExecutionOrder := none
  /-- The description of the type of a node, if the type is known. -/
  nodeType : INode → Option INodeTypeDescription := fun _ => some {}
  /-- What the expression evaluates to on the node; `none` for `undefined`. -/
  getSimpleParameterValue : INode → String → Option RequiredInputs := fun _ _ => none
  name_of_get? : ∀ {k : String} {n : INode}, nodes.get? k = some n → n.name = k

namespace Workflow

variable (workflow : Workflow)

def isLegacyExecutionOrder : Bool := workflow.executionOrder ≠ some .v1

def getNode (nodeName : String) : Option INode := workflow.nodes.get? nodeName

/-- The Main inputs of a node, if anything is connected to it. -/
def mainInputs? (nodeName : String) : Option NodeInputConnections :=
  (workflow.connectionsByDestinationNode.get? nodeName).bind (·.get? .main)

def getParentNodes (nodeName : String) (type : ConnectionSelector := .type .main)
    (depth : ℤ := -1) : List String :=
  N8n.getParentNodes workflow.connectionsByDestinationNode nodeName type depth

/-- The search of `getHighestNode`, one recursion level for each node it checks; it returns
the nodes found and those checked. -/
def highestNodes : ℕ → String → Option ℕ → List String → List String × List String
  | 0, _, _, checkedNodes => ([], checkedNodes)
  | fuel + 1, nodeName, nodeConnectionIndex, checkedNodes =>
    match workflow.nodes.get? nodeName with
    | none => ([], checkedNodes)
    | some node =>
      let currentHighest := if node.disabled = some false then [nodeName] else []
      match workflow.mainInputs? nodeName with
      | none => (currentHighest, checkedNodes)
      | some main =>
        if nodeName ∈ checkedNodes then (currentHighest, checkedNodes)
        else
          let inputs := match nodeConnectionIndex with
            | none => main
            | some index => (main[index]?).toList
          (inputs.flatMap (Option.getD · [])).foldl (fun (returnNodes, checkedNodes) connection =>
            if connection.node ∈ checkedNodes then (returnNodes, checkedNodes)
            else match workflow.nodes.get? connection.node with
            | none => (returnNodes, checkedNodes)
            | some connectionNode =>
              let (addNodes, checkedNodes) := highestNodes fuel connection.node none checkedNodes
              let addNodes := if addNodes = [] ∧ connectionNode.disabled ≠ some true then
                  [connection.node]
                else addNodes
              (addNodes.foldl (fun found name => if name ∈ found then found else found ++ [name])
                returnNodes, checkedNodes))
            ([], checkedNodes ++ [nodeName])

/-- The nodes without parents the node, or one of its inputs, gets its data from. -/
def getHighestNode (nodeName : String) (nodeConnectionIndex : Option ℕ := none) : List String :=
  (workflow.highestNodes (workflow.nodes.size + 1) nodeName nodeConnectionIndex []).1

end Workflow

end N8n
