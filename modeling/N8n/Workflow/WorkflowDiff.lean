import N8n.Lib.Compaction
import N8n.Lib.Json
import N8n.Lib.Subsequence
import N8n.Workflow.ConnectionsDiff

/-!
# Compacting the history of a workflow

`groupWorkflows` goes through the versions of a workflow from the newest and removes each
one that a rule merges into the version kept after it. `mergeAdditiveChanges` is the rule
that only additions may be merged : no node, connection, group or member of a group is gone,
and the parameters of a node are as they were, but for strings that may have grown.

Parameters are JSON values. The rules that compare times and authors are left out, skip rules
are any.
-/

open Lib

namespace N8n

/-! ## Parameters -/

/-- All code units of the second string, in order, are in the first. -/
def stringContainsParts (s substr : String) : Bool := containsParts (codeUnits s) (codeUnits substr)

/-- The same of strings whose code units need not make whole characters. -/
def JsString.stringContainsParts (s substr : JsString) : Bool := containsParts s substr

/-- Giving up early rejects no subsequence. -/
theorem JsString.stringContainsParts_iff_sublist (s substr : JsString) :
    stringContainsParts s substr = true ↔ substr.Sublist s :=
  containsParts_iff

def parametersAreSuperset : Json → Json → Bool
  | .null, next => match next with
    | .null => true
    | _ => false
  | .bool b, next => match next with
    | .bool b' => b == b'
    | _ => false
  | .number x, next => match next with
    | .number x' => x == x'
    | _ => false
  | .string s, next => match next with
    | .string s' => stringContainsParts s' s
    | _ => false
  | .array length items, next => match next with
    | .array length' items' =>
      if h : length = length' then
        (List.finRange length).all fun i => parametersAreSuperset (items i) (items' (i.cast h))
      else false
    | _ => false
  | .object keys _ values, next => match next with
    -- The keys of an array are its indexes.
    | .object _ _ _ | .array _ _ =>
      if keys.length ≠ next.keys.length then false
      else if keys.any fun x => (next.get? x).isNone then false
      else (List.finRange keys.length).all fun i =>
        match next.get? (keys.get i) with
        | some value => parametersAreSuperset (values i) value
        | none => false
    | _ => false

/-- A rough size of the parameters of a node. -/
def determineNodeSize : Json → ℕ
  | .string s => if s = "" then 1 else (codeUnits s).length
  | .array length items => ((List.finRange length).map fun i => determineNodeSize (items i)).sum + 1
  | .object keys _ values =>
    ((List.finRange keys.length).map fun i => determineNodeSize (values i)).sum + 1
  | _ => 1

/-! ## Versions -/

/-- What the comparison reads of a node. -/
structure DiffableNode where
  id : String
  name : String
  type : Option String := none
  typeVersion : Option ℚ := none
  webhookId : Option String := none
  credentials : Option Json := none
  parameters : Json

structure IWorkflowGroup where
  id : String
  name : String
  nodeIds : List String
  deriving DecidableEq, Repr

/-- The versions of a workflow. A value stands for the object, so that equality is the
identity `===`. -/
class DiffableWorkflow (W : Type) where
  nodes : W → List DiffableNode
  connections : W → IConnections
  nodeGroups : W → Option (List IWorkflowGroup)

/-- `node[key]` -/
def DiffableNode.prop (node : DiffableNode) : String → Option Json
  | "name" => some (.string node.name)
  | "type" => node.type.map .string
  | "typeVersion" => node.typeVersion.map .number
  | "webhookId" => node.webhookId.map .string
  | "credentials" => node.credentials
  | "parameters" => some node.parameters
  | _ => none

def propsToCompare : List String :=
  ["name", "type", "typeVersion", "webhookId", "credentials", "parameters"]

/-- Pick a property that is there. -/
def DiffableNode.pickProp (node : DiffableNode) (picked : OrderedMap String Json) (key : String) :
    OrderedMap String Json :=
  match node.prop key with
  | some value => picked.set key value
  | none => picked

/-- `pick(node, propsToCompare)` -/
def DiffableNode.pick (node : DiffableNode) : OrderedMap String Json :=
  propsToCompare.foldl node.pickProp ∅

section

/- `isEqual` of lodash. -/
variable (isEqual : Json → Json → Bool)

def compareNodes (base target : Option DiffableNode) : Bool :=
  let baseNode := (base.map DiffableNode.pick).getD ∅
  let targetNode := (target.map DiffableNode.pick).getD ∅
  isEqual (.ofEntries baseNode) (.ofEntries targetNode)

inductive NodeDiffStatus where
  | eq | modified | added | deleted
  deriving DecidableEq, Repr

structure NodeDiff where
  status : NodeDiffStatus
  node : DiffableNode

abbrev WorkflowDiff := OrderedMap String NodeDiff

def nodesById (nodes : List DiffableNode) : OrderedMap String DiffableNode :=
  nodes.foldl (fun acc node => acc.set node.id node) ∅

/-- The status of a node of the base. -/
def baseStatus (targetNodes : OrderedMap String DiffableNode) (id : String) (node : DiffableNode) :
    NodeDiffStatus :=
  if !targetNodes.has id then .deleted
  else if !compareNodes isEqual (some node) (targetNodes.get? id) then .modified
  else .eq

def compareWorkflowsNodes (base target : List DiffableNode) : WorkflowDiff :=
  let baseNodes := nodesById base
  let targetNodes := nodesById target
  let diff := baseNodes.entries.foldl (fun diff entry =>
    diff.set entry.1
      { status := baseStatus isEqual targetNodes entry.1 entry.2, node := entry.2 }) ∅
  (targetNodes.entries.filter fun entry => !baseNodes.has entry.1).foldl (fun diff entry =>
    diff.set entry.1 { status := .added, node := entry.2 }) diff

structure WorkflowChangeSet where
  nodes : WorkflowDiff
  connections : ConnectionsDiff

variable {W : Type} [DecidableEq W] [DiffableWorkflow W]

/-- `new WorkflowChangeSet(from, to)` -/
def WorkflowChangeSet.new («from» «to» : W) : WorkflowChangeSet :=
  if «from» = «to» then
    { nodes := (DiffableWorkflow.nodes «from»).foldl (fun diff node => diff.set node.id { status := .eq, node }) ∅
      connections := {} }
  else
    { nodes := compareWorkflowsNodes isEqual (DiffableWorkflow.nodes «from») (DiffableWorkflow.nodes «to»)
      connections := compareConnections (DiffableWorkflow.connections «from»)
        (DiffableWorkflow.connections «to») }

/-! ## The rule -/

def nodeIsSuperset (prevNode nextNode : DiffableNode) : Bool :=
  if !compareNodes isEqual (some { prevNode with parameters := .ofEntries ∅ })
      (some { nextNode with parameters := .ofEntries ∅ }) then false
  else parametersAreSuperset prevNode.parameters nextNode.parameters

omit [DecidableEq W] in
def nodeGroupChangesAreAdditive (prev next : W) : Bool :=
  let nextGroupsById := ((DiffableWorkflow.nodeGroups next).getD []).foldl
    (fun m group => m.set group.id group) (∅ : OrderedMap String IWorkflowGroup)
  ((DiffableWorkflow.nodeGroups prev).getD []).all fun prevGroup =>
    match nextGroupsById.get? prevGroup.id with
    | some nextGroup =>
      nextGroup.name == prevGroup.name && prevGroup.nodeIds.all (· ∈ nextGroup.nodeIds)
    | none => false

/-- The check of the nodes; `nextNodes` are the nodes of the later version. -/
def nodeChangesAreAdditive (nextNodes : List DiffableNode) : List NodeDiff → Except String Bool
  | [] => .ok true
  | d :: rest =>
    if d.status = .deleted then .ok false
    else if d.status = .added then nodeChangesAreAdditive nextNodes rest
    else match nextNodes.find? (·.id == d.node.id) with
    | none => .error "invariant broken - no next node"
    | some nextNode =>
      if d.status = .modified && !nodeIsSuperset isEqual d.node nextNode then .ok false
      else nodeChangesAreAdditive nextNodes rest

structure DiffMetaData where
  workflowSizeScore : Option ℕ := none

abbrev DiffRule (W : Type) := W → W → WorkflowChangeSet → DiffMetaData → Except String Bool

def mergeAdditiveChanges : DiffRule W := fun prev next diff _ => do
  if !(← nodeChangesAreAdditive isEqual (DiffableWorkflow.nodes next) diff.nodes.values) then return false
  if diff.connections.removed.keys.length > 0 then return false
  return nodeGroupChangesAreAdditive prev next

/-! ## Grouping -/

structure GroupedWorkflows (W : Type) where
  removed : List W
  remaining : List W

/-- Whether one of the rules applies. -/
def anyRule (rules : List (DiffRule W)) (prev next : W) (wcs : WorkflowChangeSet)
    (metaData : DiffMetaData) : Except String Bool :=
  match rules with
  | [] => .ok false
  | rule :: rules => do
    if ← rule prev next wcs metaData then return true
    anyRule rules prev next wcs metaData

/-- Whether a version is merged into the one kept after it. -/
def shouldMerge (rules skipRules : List (DiffRule W)) (metaData : DiffMetaData) (prev next : W) :
    Except String Bool := do
  let wcs := WorkflowChangeSet.new isEqual prev next
  if ← anyRule skipRules prev next wcs metaData then return false
  anyRule rules prev next wcs metaData

/-- The iterations with index `i` and below. -/
def diffLoop (rules skipRules : List (DiffRule W)) (metaData : DiffMetaData) :
    ℕ → GroupedWorkflows W → Except String (GroupedWorkflows W)
  | 0, s => .ok s
  | i + 1, s =>
    match s.remaining[i]?, s.remaining[i + 1]? with
    | some prev, some next => do
      if ← shouldMerge isEqual rules skipRules metaData prev next then
        diffLoop rules skipRules metaData i
          { removed := s.removed ++ [prev], remaining := s.remaining.eraseIdx i }
      else diffLoop rules skipRules metaData i s
    | _, _ => .error "Cannot read properties of undefined (reading 'nodes')"

omit [DecidableEq W] in
def determineNodeParametersSize (workflow : W) : ℕ :=
  ((DiffableWorkflow.nodes workflow).map fun x => determineNodeSize x.parameters).sum

omit [DecidableEq W] in
/-- The size of the latest and of an average version, if it is asked for. -/
def groupMetaData (workflows : List W) (workflowSizeScore : Bool) : DiffMetaData :=
  let size := fun i => ((workflows[i]?).map determineNodeParametersSize).getD 0
  { workflowSizeScore :=
      if workflowSizeScore then some (max (size (workflows.length / 2)) (size (workflows.length - 1)))
      else none }

def groupWorkflows (workflows : List W) (rules skipRules : List (DiffRule W))
    (workflowSizeScore : Bool) : Except String (GroupedWorkflows W) :=
  if workflows.length ≤ 1 then .ok { removed := [], remaining := workflows }
  else
    let metaData := groupMetaData workflows workflowSizeScore
    diffLoop isEqual rules skipRules metaData (workflows.length - 1)
      { removed := [], remaining := workflows }

end

end N8n
