import N8n.Workflow.WorkflowDiff

/-!
# Applying publications

`apply` brings the triggers of a workflow from the version that is published to the one a
record asks for. It removes the triggers that are gone or changed, advances the published
version, and adds those that are new, changed, or wanted and not registered. Each of the
steps may fail and leave the work half done.

The trigger nodes of a workflow are registered in memory, as active and poll triggers, or by
their webhooks in storage (`RegisteredTrigger`). A node may be registered both ways, and a
node with a webhook function and no webhook of its own needs neither. How the steps of a call
turn out is told by its `ApplyFaults`.
-/

open Lib

namespace N8n

/-! ## Versions -/

/-- What a node type says about its nodes being triggers. -/
structure TriggerNodeType where
  trigger : Bool := false
  poll : Bool := false
  webhook : Bool := false
  deriving DecidableEq, Repr

structure WorkflowNode extends DiffableNode where
  disabled : Bool := false

/-- The part of a version of a workflow that tells its triggers. -/
structure WorkflowTriggerVersion where
  nodes : List WorkflowNode

/-- `getByNameAndVersion`, the parameters a workflow fills in for a node of a known type, and
whether the node has a webhook that is not only for waiting executions. -/
structure TriggerNodeTypes where
  getByNameAndVersion : Option String → Option ℚ → Option TriggerNodeType
  getNodeParameters : DiffableNode → Json
  hasWebhooks : DiffableNode → Bool

namespace TriggerNodeTypes

variable (nodeTypes : TriggerNodeTypes)

/-- What `new Workflow` makes of a node. -/
def addDefaults (node : WorkflowNode) : WorkflowNode :=
  match nodeTypes.getByNameAndVersion node.type node.typeVersion with
  | none => node
  | some _ => { node with parameters := nodeTypes.getNodeParameters node.toDiffableNode }

/-- `workflow.nodes` -/
def workflowNodes (nodes : List WorkflowNode) : List WorkflowNode :=
  ((nodes.map nodeTypes.addDefaults).foldl (fun m node => m.set node.name node)
    (∅ : OrderedMap String WorkflowNode)).values

def queryNodes (checkFunction : TriggerNodeType → Bool) (nodes : List WorkflowNode) :
    List WorkflowNode :=
  (nodeTypes.workflowNodes nodes).filter fun node => !node.disabled &&
    (nodeTypes.getByNameAndVersion node.type node.typeVersion).any checkFunction

def getEnabledTriggerNodes : Option WorkflowTriggerVersion → List WorkflowNode
  | none => []
  | some version => nodeTypes.queryNodes (fun t => t.trigger || t.poll || t.webhook) version.nodes

/-- The ids of the nodes given that are active or poll triggers. -/
def getNonWebhookTriggerNodeIds (nodes : List WorkflowNode) : List String :=
  (nodeTypes.queryNodes TriggerNodeType.trigger nodes ++
    nodeTypes.queryNodes TriggerNodeType.poll nodes).map (·.id)

/-- The ids of the nodes that have webhooks. -/
def getWebhookTriggers (nodes : List WorkflowNode) : List String :=
  ((nodeTypes.workflowNodes nodes).filter fun node =>
    !node.disabled && nodeTypes.hasWebhooks node.toDiffableNode).map (·.id)

end TriggerNodeTypes

/-! ## Registrations -/

/-- A node is registered in memory, or all its webhooks are stored. -/
inductive RegisteredTrigger where
  | nonWebhook (nodeId : String)
  | webhooks (nodeId : String)
  deriving DecidableEq, Repr

@[simp] def RegisteredTrigger.nodeId : RegisteredTrigger → String
  | .nonWebhook nodeId => nodeId
  | .webhooks nodeId => nodeId

structure PublicationState where
  publishedVersion : Option String := none
  registered : List RegisteredTrigger := []
  deriving DecidableEq, Repr

structure TriggerDiff where
  toAdd : OrderedSet String
  toRemove : OrderedSet String

/-- A node goes by its status. -/
def TriggerDiff.addNode (sets : TriggerDiff) (entry : String × NodeDiff) : TriggerDiff :=
  match entry.2.status with
  | .added => { sets with toAdd := sets.toAdd.add entry.1 }
  | .deleted => { sets with toRemove := sets.toRemove.add entry.1 }
  | .modified => { toRemove := sets.toRemove.add entry.1, toAdd := sets.toAdd.add entry.1 }
  | .eq => sets

def computeTriggerDiff (isEqual : Json → Json → Bool)
    (oldTriggerNodes newTriggerNodes : List WorkflowNode) : TriggerDiff :=
  let diff := compareWorkflowsNodes isEqual (oldTriggerNodes.map (·.toDiffableNode))
    (newTriggerNodes.map (·.toDiffableNode))
  diff.entries.foldl .addNode { toAdd := ∅, toRemove := ∅ }

/-! ## Activation -/

structure ActivationError where
  message : String
  transient : Bool := false
  deriving DecidableEq, Repr

structure TriggerActivationFailure where
  nodeId : String
  nodeName : String
  error : ActivationError
  deriving DecidableEq, Repr

structure TriggerActivationOutcome where
  activated : List String
  failures : List TriggerActivationFailure
  deriving DecidableEq, Repr

inductive PublicationSkipReason where
  | workflowNotFound
  | workflowInactive
  deriving DecidableEq, Repr

inductive PublicationResult where
  | completed
  | unpublished
  | skipped (reason : PublicationSkipReason)
  | versionMissing
  | partialActivation (activatedNodeIds : List String) (failures : List TriggerActivationFailure)
  | failed (error : ActivationError)
  deriving DecidableEq, Repr

/-- The call that threw. -/
inductive ApplyFailure where
  | resolveVersions
  | getNodesWithUnregisteredWebhooks
  | deactivate
  | setPublishedVersion
  | removePublishedVersion
  deriving DecidableEq, Repr

/-- How a write of the published version turns out : it is done, or it throws, before or after
it has taken effect. -/
inductive WriteFault where
  | done
  | throws (tookEffect : Bool)
  deriving DecidableEq, Repr

/-- How the steps of a call turn out. `deactivate` throws when it is given what it does not
get to remove, `activate` registers what it is told to, and throws when it is given an error
after that. -/
structure ApplyFaults where
  resolveVersions : Bool := false
  getNodesWithUnregisteredWebhooks : Bool := false
  deactivate : Option (List RegisteredTrigger) := none
  setPublishedVersion : WriteFault := .done
  activates : List RegisteredTrigger := []
  activationError : String → ActivationError := fun _ => { message := "" }
  activate : Option ActivationError := none
  updateTriggerCount : Option ActivationError := none
  removePublishedVersion : WriteFault := .done

/-- The record's version, and the workflow as it is found with its active version. -/
structure ApplyCall where
  publishedVersionId : String
  workflow : Option (Option String)
  faults : ApplyFaults := {}

/-- What the calls of the applier do to the published version and the registrations. A call
that throws may have left its mark. -/
abbrev Applied (α : Type) := PublicationState × Except ApplyFailure α

section

variable (nodeTypes : TriggerNodeTypes) (state : PublicationState) (faults : ApplyFaults)

namespace WorkflowTriggerActivator

/-- The registrations the trigger nodes of a version need. -/
def triggerRegistrations (version : WorkflowTriggerVersion) : List RegisteredTrigger :=
  let enabled := nodeTypes.getEnabledTriggerNodes (some version)
  (nodeTypes.getNonWebhookTriggerNodeIds enabled).map .nonWebhook ++
    ((nodeTypes.getWebhookTriggers version.nodes).filter (· ∈ enabled.map (·.id))).map .webhooks

def getUnregisteredNonWebhookTriggerNodeIds (desiredNodes : List WorkflowNode) :
    OrderedSet String :=
  .ofList ((nodeTypes.getNonWebhookTriggerNodeIds desiredNodes).filter
    (.nonWebhook · ∉ state.registered))

def getNodesWithUnregisteredWebhooks (version : WorkflowTriggerVersion) : OrderedSet String :=
  let desiredNodes := (nodeTypes.getEnabledTriggerNodes (some version)).map (·.id)
  .ofList (((nodeTypes.getWebhookTriggers version.nodes).filter (· ∈ desiredNodes)).filter
    (.webhooks · ∉ state.registered))

/-- The nodes given are removed, or some of them before the call throws. -/
def deactivate (nodeIds : OrderedSet String) : Applied Unit :=
  match faults.deactivate with
  | none => ({ state with registered := state.registered.filter (·.nodeId ∉ nodeIds) }, .ok ())
  | some survivors =>
    ({ state with
        registered := state.registered.filter fun r => r.nodeId ∉ nodeIds || r ∈ survivors },
      .error .deactivate)

def nodeNameOf (version : WorkflowTriggerVersion) (nodeId : String) : String :=
  ((version.nodes.find? (·.id = nodeId)).map (·.name)).getD ""

/-- Some of the nodes given are registered, and the others are failures. -/
def activate (version : WorkflowTriggerVersion) (nodeIds : OrderedSet String) :
    PublicationState × Except ActivationError TriggerActivationOutcome :=
  let given := (triggerRegistrations nodeTypes version).filter (·.nodeId ∈ nodeIds)
  let added := given.filter (· ∈ faults.activates)
  ({ state with registered := state.registered ++ added },
    match faults.activate with
    | some error => .error error
    | none => .ok
      { activated := added.map (·.nodeId)
        failures := (given.filter (· ∉ faults.activates)).map fun r =>
          { nodeId := r.nodeId, nodeName := nodeNameOf version r.nodeId
            error := faults.activationError r.nodeId } })

end WorkflowTriggerActivator

end

/-! ## The applier -/

namespace WorkflowPublicationApplier

open WorkflowTriggerActivator

section

variable (isEqual : Json → Json → Bool) (nodeTypes : TriggerNodeTypes) (state : PublicationState)
  (faults : ApplyFaults)

def advancePublishedVersion (publishedVersionId : String) : Applied Unit :=
  match faults.setPublishedVersion with
  | .done => ({ state with publishedVersion := some publishedVersionId }, .ok ())
  | .throws tookEffect =>
    (if tookEffect then { state with publishedVersion := some publishedVersionId } else state,
      .error .setPublishedVersion)

def removePublishedVersion : Applied Unit :=
  match faults.removePublishedVersion with
  | .done => ({ state with publishedVersion := none }, .ok ())
  | .throws tookEffect =>
    (if tookEffect then { state with publishedVersion := none } else state,
      .error .removePublishedVersion)

/-- Several failures are combined in one error. -/
def toActivationError (failures : List TriggerActivationFailure) : ActivationError :=
  match failures with
  | [failure] => failure.error
  | _ =>
    { message := "Triggers failed to activate: " ++ "; ".intercalate (failures.map fun failure =>
        "\"" ++ failure.nodeName ++ "\": " ++ failure.error.message) }

def classifyActivationOutcome (outcome : TriggerActivationOutcome) : PublicationResult :=
  if outcome.failures.length = 0 then .completed
  else
    let allDeterministic := outcome.failures.all fun failure => !failure.error.transient
    if outcome.activated.length = 0 && allDeterministic then
      .failed (toActivationError outcome.failures)
    else .partialActivation outcome.activated outcome.failures

/-- The new triggers are added, after the published version was advanced. -/
def addTriggers (newVersion : WorkflowTriggerVersion) (toAdd toRemove : OrderedSet String) :
    Applied PublicationResult :=
  if toAdd.size > 0 then
    let (state, outcome) := activate nodeTypes state faults newVersion toAdd
    match outcome with
    | .ok outcome => (state, .ok (classifyActivationOutcome outcome))
    | .error error => (state, .ok (.failed error))
  else if toRemove.size > 0 then
    match faults.updateTriggerCount with
    | some error => (state, .ok (.failed error))
    | none => (state, .ok .completed)
  else (state, .ok .completed)

def publish (oldVersion : Option WorkflowTriggerVersion) (newVersion : WorkflowTriggerVersion)
    (publishedVersionId : String) : Applied PublicationResult :=
  let oldTriggerNodes := nodeTypes.getEnabledTriggerNodes oldVersion
  let desiredTriggerNodes := nodeTypes.getEnabledTriggerNodes (some newVersion)
  let { toAdd, toRemove } := computeTriggerDiff isEqual oldTriggerNodes desiredTriggerNodes
  let toAdd := (getUnregisteredNonWebhookTriggerNodeIds nodeTypes state
    desiredTriggerNodes).elems.foldl .add toAdd
  if faults.getNodesWithUnregisteredWebhooks then
    (state, .error .getNodesWithUnregisteredWebhooks)
  else
    let toAdd :=
      (getNodesWithUnregisteredWebhooks nodeTypes state newVersion).elems.foldl .add toAdd
    if toAdd.size = 0 && toRemove.size = 0 then
      let (state, advanced) := advancePublishedVersion state faults publishedVersionId
      (state, advanced.map fun _ => .completed)
    else
      let (state, removed) :=
        if toRemove.size > 0 && oldVersion.isSome then deactivate state faults toRemove
        else (state, .ok ())
      match removed with
      | .error failure => (state, .error failure)
      | .ok _ =>
        let (state, advanced) := advancePublishedVersion state faults publishedVersionId
        match advanced with
        | .error failure => (state, .error failure)
        | .ok _ => addTriggers nodeTypes state faults newVersion toAdd toRemove

def unpublish (oldVersion : Option WorkflowTriggerVersion) : Applied PublicationResult :=
  match oldVersion with
  | none => (state, .ok (.skipped .workflowInactive))
  | some version =>
    let toRemove : OrderedSet String :=
      .ofList ((nodeTypes.getEnabledTriggerNodes (some version)).map (·.id))
    let (state, removed) :=
      if toRemove.size > 0 then deactivate state faults toRemove else (state, .ok ())
    match removed with
    | .error failure => (state, .error failure)
    | .ok _ =>
      let (state, removed) := removePublishedVersion state faults
      (state, removed.map fun _ => .unpublished)

end

/-- `resolveVersions` reads the published version and the one of the record. -/
def apply (isEqual : Json → Json → Bool) (nodeTypes : TriggerNodeTypes)
    (history : String → Option WorkflowTriggerVersion) (state : PublicationState)
    (call : ApplyCall) : Applied PublicationResult :=
  if call.faults.resolveVersions then (state, .error .resolveVersions)
  else
    let oldVersion := state.publishedVersion.bind history
    let newVersion := history call.publishedVersionId
    match call.workflow with
    | none => (state, .ok (.skipped .workflowNotFound))
    | some none => unpublish nodeTypes state call.faults oldVersion
    | some (some _) =>
      match newVersion with
      | none => (state, .ok .versionMissing)
      | some newVersion =>
        publish isEqual nodeTypes state call.faults oldVersion newVersion call.publishedVersionId

/-- One call after another. -/
def applyStep (isEqual : Json → Json → Bool) (nodeTypes : TriggerNodeTypes)
    (history : String → Option WorkflowTriggerVersion) (state : PublicationState)
    (call : ApplyCall) : Except Unit PublicationState :=
  .ok (apply isEqual nodeTypes history state call).1

end WorkflowPublicationApplier

end N8n
