import N8n.Publication.PublicationApplier
import N8n.Workflow.NodeChanges

/-!
# Runs of the publication applier

The triggers that are registered are always among those of the published version
(`PublicationState.Consistent`). A failed removal leaves the published version, and so the
triggers it may have left are still wanted ; once the removal is done, what is left is wanted
by the version before and after. `apply_run` states it of every sequence of calls, with what a
completed call and one that failed to remove triggers do.
-/

open Lib

namespace N8n

/-! ## The nodes of a version -/

namespace TriggerNodeTypes

variable {nodeTypes : TriggerNodeTypes} {nodes : List WorkflowNode} {node : WorkflowNode}

@[simp] theorem addDefaults_id (node : WorkflowNode) : (nodeTypes.addDefaults node).id = node.id := by
  unfold addDefaults
  split <;> rfl

@[simp] theorem addDefaults_name (node : WorkflowNode) :
    (nodeTypes.addDefaults node).name = node.name := by
  unfold addDefaults
  split <;> rfl

@[simp] theorem addDefaults_type (node : WorkflowNode) :
    (nodeTypes.addDefaults node).type = node.type := by
  unfold addDefaults
  split <;> rfl

@[simp] theorem addDefaults_typeVersion (node : WorkflowNode) :
    (nodeTypes.addDefaults node).typeVersion = node.typeVersion := by
  unfold addDefaults
  split <;> rfl

@[simp] theorem addDefaults_disabled (node : WorkflowNode) :
    (nodeTypes.addDefaults node).disabled = node.disabled := by
  unfold addDefaults
  split <;> rfl

/-- A map of nodes by their names. -/
theorem name_of_mem_entries {m : OrderedMap String WorkflowNode} {l : List WorkflowNode}
    (hm : ∀ entry ∈ m.entries, entry.2.name = entry.1) :
    ∀ entry ∈ (l.foldl (fun m node => m.set node.name node) m).entries,
      entry.2.name = entry.1 ∧ (entry.2 ∈ l ∨ entry ∈ m.entries) := by
  induction l generalizing m with
  | nil => exact fun entry hentry => ⟨hm entry hentry, .inr hentry⟩
  | cons node l ih =>
    have hset : ∀ entry ∈ (m.set node.name node).entries,
        entry = (node.name, node) ∨ entry ∈ m.entries := by
      rintro ⟨name, n⟩ hentry
      rw [OrderedMap.mem_entries_iff, OrderedMap.get?_set] at hentry
      split at hentry
      · rename_i hname
        obtain rfl := Option.some.inj hentry
        exact .inl (by rw [hname])
      · exact .inr (OrderedMap.mem_entries_iff.mpr hentry)
    intro entry hentry
    obtain ⟨hname, hmem⟩ := ih (m := m.set node.name node) (fun entry hentry => by
      rcases hset entry hentry with rfl | hentry
      · rfl
      · exact hm entry hentry) entry hentry
    refine ⟨hname, ?_⟩
    rcases hmem with hmem | hmem
    · exact .inl (List.mem_cons_of_mem _ hmem)
    · rcases hset entry hmem with rfl | hmem
      · exact .inl List.mem_cons_self
      · exact .inr hmem

/-- The nodes of a workflow have different names. -/
theorem nodup_names_workflowNodes (nodes : List WorkflowNode) :
    ((nodeTypes.workflowNodes nodes).map (·.name)).Nodup := by
  have hnames : (nodeTypes.workflowNodes nodes).map (·.name) =
      ((nodes.map nodeTypes.addDefaults).foldl (fun m node => m.set node.name node)
        (∅ : OrderedMap String WorkflowNode)).keys := by
    rw [workflowNodes, OrderedMap.values, OrderedMap.keys, List.map_map]
    exact List.map_congr_left fun entry hentry =>
      (name_of_mem_entries (m := ∅) (by simp) entry hentry).1
  rw [hnames]
  exact OrderedMap.nodup_keys' _

theorem workflowNodes_of_nodup (nodeTypes : TriggerNodeTypes) (h : (nodes.map (·.name)).Nodup) :
    nodeTypes.workflowNodes nodes = nodes.map nodeTypes.addDefaults := by
  have hnames : ((nodes.map nodeTypes.addDefaults).map (·.name)).Nodup := by
    rw [List.map_map]
    simpa [Function.comp_def] using h
  rw [workflowNodes, OrderedMap.values, OrderedMap.entries_foldl_set_map (by simpa using hnames),
    OrderedMap.entries_empty, List.nil_append, List.map_map]
  exact List.map_id _

/-- What queries ask of a node does not depend on its parameters. -/
theorem mem_queryNodes {checkFunction : TriggerNodeType → Bool} :
    node ∈ nodeTypes.queryNodes checkFunction nodes ↔ node ∈ nodeTypes.workflowNodes nodes ∧
      node.disabled = false ∧
      (nodeTypes.getByNameAndVersion node.type node.typeVersion).any checkFunction = true := by
  rw [queryNodes, List.mem_filter, Bool.and_eq_true, Bool.not_eq_true']

/-- The ids of the enabled trigger nodes. -/
def enabledIds (nodeTypes : TriggerNodeTypes) (version : Option WorkflowTriggerVersion) :
    List String :=
  (nodeTypes.getEnabledTriggerNodes version).map (·.id)

/-- Active and poll triggers are registered in memory. -/
def isNonWebhook (nodeTypes : TriggerNodeTypes) (node : WorkflowNode) : Bool :=
  (nodeTypes.getByNameAndVersion node.type node.typeVersion).any fun t => t.trigger || t.poll

variable {version : WorkflowTriggerVersion}

theorem nodup_names_getEnabledTriggerNodes (nodeTypes : TriggerNodeTypes)
    (version : WorkflowTriggerVersion) :
    ((nodeTypes.getEnabledTriggerNodes (some version)).map (·.name)).Nodup :=
  (nodup_names_workflowNodes version.nodes).sublist (List.filter_sublist.map _)

theorem mem_getNonWebhookTriggerNodeIds {id : String} :
    id ∈ nodeTypes.getNonWebhookTriggerNodeIds (nodeTypes.getEnabledTriggerNodes (some version)) ↔
      ∃ node ∈ nodeTypes.getEnabledTriggerNodes (some version),
        nodeTypes.isNonWebhook node = true ∧ node.id = id := by
  have hnodes := workflowNodes_of_nodup nodeTypes
    (nodup_names_getEnabledTriggerNodes nodeTypes version)
  have hquery : ∀ checkFunction, id ∈ (nodeTypes.queryNodes checkFunction
        (nodeTypes.getEnabledTriggerNodes (some version))).map (·.id) ↔
      ∃ node ∈ nodeTypes.getEnabledTriggerNodes (some version),
        (nodeTypes.getByNameAndVersion node.type node.typeVersion).any checkFunction = true ∧
          node.id = id := by
    intro checkFunction
    constructor
    · intro h
      obtain ⟨node, hnode, rfl⟩ := List.mem_map.mp h
      obtain ⟨hmem, -, hcheck⟩ := mem_queryNodes.mp hnode
      rw [hnodes] at hmem
      obtain ⟨n, hn, rfl⟩ := List.mem_map.mp hmem
      exact ⟨n, hn, by simpa using hcheck, (addDefaults_id n).symm⟩
    · rintro ⟨node, hnode, hcheck, rfl⟩
      refine List.mem_map.mpr ⟨nodeTypes.addDefaults node, mem_queryNodes.mpr ⟨?_, ?_, ?_⟩,
        addDefaults_id node⟩
      · rw [hnodes]
        exact List.mem_map_of_mem hnode
      · rw [addDefaults_disabled]
        exact (mem_queryNodes.mp hnode).2.1
      · simpa using hcheck
  rw [getNonWebhookTriggerNodeIds, List.map_append, List.mem_append, hquery, hquery]
  simp only [isNonWebhook, Option.any_eq_true, Bool.or_eq_true]
  grind

theorem mem_getWebhookTriggers (h : node ∈ nodeTypes.getEnabledTriggerNodes (some version))
    (hwebhooks : nodeTypes.hasWebhooks node.toDiffableNode = true) :
    node.id ∈ nodeTypes.getWebhookTriggers version.nodes := by
  obtain ⟨hmem, henabled, -⟩ := mem_queryNodes.mp h
  refine List.mem_map.mpr ⟨node, List.mem_filter.mpr ⟨hmem, ?_⟩, rfl⟩
  rw [henabled, hwebhooks]
  rfl

end TriggerNodeTypes

open TriggerNodeTypes

/-! ## The difference of two versions -/

/-- Nodes are removed from the old version and added from the new one. Those that stay are of
both, and those that are changed are removed and added. -/
structure TriggerDiff.Between (sets : TriggerDiff) (oldIds newIds : List String) : Prop where
  added : ∀ id ∈ sets.toAdd, id ∈ newIds
  removed : ∀ id ∈ sets.toRemove, id ∈ oldIds
  kept : ∀ id ∈ oldIds, id ∉ sets.toRemove → id ∈ newIds
  replaced : ∀ id ∈ newIds, id ∈ sets.toRemove → id ∈ sets.toAdd

section

variable {isEqual : Json → Json → Bool} {oldTriggerNodes newTriggerNodes : List WorkflowNode}
  {id : String}

theorem mem_foldl_addNode (id : String) (entries : List (String × NodeDiff))
    (sets : TriggerDiff) :
    (id ∈ (entries.foldl .addNode sets).toAdd ↔ id ∈ sets.toAdd ∨
      (∃ entry ∈ entries, entry.1 = id ∧ entry.2.status = .added) ∨
      ∃ entry ∈ entries, entry.1 = id ∧ entry.2.status = .modified) ∧
    (id ∈ (entries.foldl .addNode sets).toRemove ↔ id ∈ sets.toRemove ∨
      (∃ entry ∈ entries, entry.1 = id ∧ entry.2.status = .deleted) ∨
      ∃ entry ∈ entries, entry.1 = id ∧ entry.2.status = .modified) := by
  induction entries generalizing sets with
  | nil => simp
  | cons entry entries ih =>
    rw [List.foldl_cons, (ih _).1, (ih _).2]
    simp only [List.mem_cons, exists_eq_or_imp, TriggerDiff.addNode]
    cases hstatus : entry.2.status <;> simp [or_assoc, eq_comm, or_left_comm]

theorem computeTriggerDiff_between (isEqual : Json → Json → Bool)
    (oldTriggerNodes newTriggerNodes : List WorkflowNode) :
    (computeTriggerDiff isEqual oldTriggerNodes newTriggerNodes).Between
      (oldTriggerNodes.map (·.id)) (newTriggerNodes.map (·.id)) := by
  have hids : ∀ nodes : List WorkflowNode,
      nodes.map (·.id) = (nodes.map (·.toDiffableNode)).map (·.id) := fun nodes => by
    rw [List.map_map]
    rfl
  rw [hids oldTriggerNodes, hids newTriggerNodes]
  unfold computeTriggerDiff
  generalize oldTriggerNodes.map (·.toDiffableNode) = base
  generalize newTriggerNodes.map (·.toDiffableNode) = target
  have hdiff (id : String) := mem_foldl_addNode id
    (compareWorkflowsNodes isEqual base target).entries { toAdd := ∅, toRemove := ∅ }
  simp only [OrderedSet.not_mem_empty, false_or] at hdiff
  refine ⟨fun id hid => ?_, fun id hid => ?_, fun id hid hnot => ?_, fun id hid hremove => ?_⟩
  · rcases (hdiff id).1.mp hid with h | h
    · exact mem_of_hasStatus_added h
    · exact (mem_of_hasStatus_modified h).2
  · rcases (hdiff id).2.mp hid with h | h
    · exact (hasStatus_deleted_iff.mp h).1
    · exact (mem_of_hasStatus_modified h).1
  · by_contra hnew
    exact hnot ((hdiff id).2.mpr (.inl (hasStatus_deleted_iff.mpr ⟨hid, hnew⟩)))
  · rcases (hdiff id).2.mp hremove with h | h
    · exact absurd hid (hasStatus_deleted_iff.mp h).2
    · exact (hdiff id).1.mpr (.inr h)

end

/-! ## Calls -/

/-- A trigger of the version is registered every way it runs, and nothing else is. -/
structure PublicationState.RegistersExactly (state : PublicationState)
    (nodeTypes : TriggerNodeTypes) (version : WorkflowTriggerVersion) : Prop where
  enabled : ∀ r ∈ state.registered, r.nodeId ∈ nodeTypes.enabledIds (some version)
  nonWebhook : ∀ node ∈ nodeTypes.getEnabledTriggerNodes (some version),
    nodeTypes.isNonWebhook node = true → .nonWebhook node.id ∈ state.registered
  webhooks : ∀ node ∈ nodeTypes.getEnabledTriggerNodes (some version),
    nodeTypes.hasWebhooks node.toDiffableNode = true → .webhooks node.id ∈ state.registered

/-- The registered triggers are enabled triggers of the published version. -/
def PublicationState.Consistent (state : PublicationState) (nodeTypes : TriggerNodeTypes)
    (history : String → Option WorkflowTriggerVersion) : Prop :=
  ∀ r ∈ state.registered, r.nodeId ∈ nodeTypes.enabledIds (state.publishedVersion.bind history)

/-- What a call does. -/
structure PublicationState.Applies (nodeTypes : TriggerNodeTypes)
    (history : String → Option WorkflowTriggerVersion) (state : PublicationState)
    (call : ApplyCall) (applied : Applied PublicationResult) : Prop where
  consistent : applied.1.Consistent nodeTypes history
  completed : applied.2 = .ok .completed →
    applied.1.publishedVersion = some call.publishedVersionId ∧
      ∃ version, history call.publishedVersionId = some version ∧
        applied.1.RegistersExactly nodeTypes version
  failedRemoval : applied.2 = .error .deactivate →
    applied.1.publishedVersion = state.publishedVersion

/-- Which triggers a call removes and adds : what it keeps is wanted, and what is wanted and not
kept is added. -/
structure PublicationState.Plans (state : PublicationState) (nodeTypes : TriggerNodeTypes)
    (version : WorkflowTriggerVersion) (toAdd toRemove : OrderedSet String) : Prop where
  kept : ∀ r ∈ state.registered, r.nodeId ∉ toRemove →
    r.nodeId ∈ nodeTypes.enabledIds (some version)
  missing : ∀ r ∈ WorkflowTriggerActivator.triggerRegistrations nodeTypes version,
    r ∉ state.registered ∨ r.nodeId ∈ toRemove → r.nodeId ∈ toAdd

variable {isEqual : Json → Json → Bool} {nodeTypes : TriggerNodeTypes}
  {history : String → Option WorkflowTriggerVersion} {state : PublicationState}
  {faults : ApplyFaults} {version : WorkflowTriggerVersion}

namespace WorkflowTriggerActivator

theorem mem_triggerRegistrations {r : RegisteredTrigger} :
    r ∈ triggerRegistrations nodeTypes version ↔
      (∃ id ∈ nodeTypes.getNonWebhookTriggerNodeIds (nodeTypes.getEnabledTriggerNodes (some version)),
        .nonWebhook id = r) ∨
      ∃ id ∈ nodeTypes.getWebhookTriggers version.nodes,
        id ∈ nodeTypes.enabledIds (some version) ∧ .webhooks id = r := by
  simp [triggerRegistrations, enabledIds, and_assoc]

theorem nodeId_mem_enabledIds {r : RegisteredTrigger}
    (h : r ∈ triggerRegistrations nodeTypes version) :
    r.nodeId ∈ nodeTypes.enabledIds (some version) := by
  rcases mem_triggerRegistrations.mp h with ⟨id, hid, rfl⟩ | ⟨id, -, hid, rfl⟩
  · obtain ⟨node, hnode, -, rfl⟩ := mem_getNonWebhookTriggerNodeIds.mp hid
    exact List.mem_map_of_mem hnode
  · exact hid

/-- All the registrations a version needs. -/
theorem registersExactly (henabled : ∀ r ∈ state.registered,
      r.nodeId ∈ nodeTypes.enabledIds (some version))
    (hall : ∀ r ∈ triggerRegistrations nodeTypes version, r ∈ state.registered) :
    state.RegistersExactly nodeTypes version := by
  refine ⟨henabled, fun node hnode hnonWebhook => hall _ ?_, fun node hnode hwebhooks => hall _ ?_⟩
  · exact mem_triggerRegistrations.mpr (.inl ⟨node.id,
      mem_getNonWebhookTriggerNodeIds.mpr ⟨node, hnode, hnonWebhook, rfl⟩, rfl⟩)
  · exact mem_triggerRegistrations.mpr (.inr ⟨node.id, mem_getWebhookTriggers hnode hwebhooks,
      List.mem_map_of_mem hnode, rfl⟩)

/-- What the version needs and is not registered, the checks of storage and memory find. -/
theorem mem_unregistered {r : RegisteredTrigger}
    (h : r ∈ triggerRegistrations nodeTypes version) (hnot : r ∉ state.registered) :
    r.nodeId ∈ getUnregisteredNonWebhookTriggerNodeIds nodeTypes state
        (nodeTypes.getEnabledTriggerNodes (some version)) ∨
      r.nodeId ∈ getNodesWithUnregisteredWebhooks nodeTypes state version := by
  rcases mem_triggerRegistrations.mp h with ⟨id, hid, rfl⟩ | ⟨id, hid, henabled, rfl⟩
  · exact .inl (OrderedSet.mem_ofList.mpr (List.mem_filter.mpr ⟨hid, decide_eq_true hnot⟩))
  · refine .inr (OrderedSet.mem_ofList.mpr (List.mem_filter.mpr ⟨List.mem_filter.mpr
      ⟨hid, decide_eq_true henabled⟩, decide_eq_true hnot⟩))

end WorkflowTriggerActivator

open WorkflowTriggerActivator

namespace WorkflowPublicationApplier

theorem failures_of_completed {outcome : TriggerActivationOutcome}
    (h : classifyActivationOutcome outcome = .completed) : outcome.failures = [] := by
  unfold classifyActivationOutcome at h
  split at h
  · rename_i hlength
    exact List.length_eq_zero_iff.mp hlength
  · dsimp only at h
    split at h <;> cases h

/-- What is given and not activated is a failure. -/
theorem mem_activates {nodeIds : OrderedSet String} {outcome : TriggerActivationOutcome}
    {r : RegisteredTrigger} (hfailures : outcome.failures = [])
    (houtcome : (activate nodeTypes state faults version nodeIds).2 = .ok outcome)
    (hr : r ∈ (triggerRegistrations nodeTypes version).filter (·.nodeId ∈ nodeIds)) :
    r ∈ faults.activates := by
  simp only [activate] at houtcome
  split at houtcome
  · cases houtcome
  · obtain rfl := Except.ok.inj houtcome
    dsimp only at hfailures
    by_contra hnot
    exact List.filter_eq_nil_iff.mp (List.map_eq_nil_iff.mp hfailures) r hr (decide_eq_true hnot)

/-- What the addition of triggers does, once those that stay are registered and the others that
are wanted are to be added. -/
theorem addTriggers_spec (faults : ApplyFaults) {toAdd : OrderedSet String}
    (toRemove : OrderedSet String)
    (henabled : ∀ r ∈ state.registered, r.nodeId ∈ nodeTypes.enabledIds (some version))
    (hmissing : ∀ r ∈ triggerRegistrations nodeTypes version, r ∉ state.registered →
      r.nodeId ∈ toAdd) :
    let applied := addTriggers nodeTypes state faults version toAdd toRemove
    applied.1.publishedVersion = state.publishedVersion ∧
      (∀ r ∈ applied.1.registered, r.nodeId ∈ nodeTypes.enabledIds (some version)) ∧
      (applied.2 = .ok .completed → applied.1.RegistersExactly nodeTypes version) ∧
      ∃ result, applied.2 = .ok result := by
  unfold addTriggers
  split
  · -- What is not activated is a failure, and the call is not completed then.
    have hactivated : ∀ r ∈ (activate nodeTypes state faults version toAdd).1.registered,
        r.nodeId ∈ nodeTypes.enabledIds (some version) := by
      intro r hr
      rcases List.mem_append.mp hr with hr | hr
      · exact henabled r hr
      · exact nodeId_mem_enabledIds (List.mem_filter.mp (List.mem_filter.mp hr).1).1
    dsimp only
    split
    · rename_i outcome houtcome
      refine ⟨rfl, hactivated, fun hcompleted => registersExactly hactivated fun r hr => ?_, _, rfl⟩
      have hfailures := failures_of_completed (Except.ok.inj hcompleted)
      by_cases hregistered : r ∈ state.registered
      · exact List.mem_append_left _ hregistered
      · have hgiven : r ∈ (triggerRegistrations nodeTypes version).filter (·.nodeId ∈ toAdd) :=
          List.mem_filter.mpr ⟨hr, decide_eq_true (hmissing r hr hregistered)⟩
        exact List.mem_append_right _ (List.mem_filter.mpr
          ⟨hgiven, decide_eq_true (mem_activates hfailures houtcome hgiven)⟩)
    · exact ⟨rfl, hactivated, fun h => (by cases h), _, rfl⟩
  · rename_i hsize
    have hall : ∀ r ∈ triggerRegistrations nodeTypes version, r ∈ state.registered := by
      intro r hr
      by_contra hnot
      exact OrderedSet.size_eq_zero_iff.mp (by omega) _ (hmissing r hr hnot)
    split
    · split
      · exact ⟨rfl, henabled, fun h => (by cases h), _, rfl⟩
      · exact ⟨rfl, henabled, fun _ => registersExactly henabled hall, _, rfl⟩
    · exact ⟨rfl, henabled, fun _ => registersExactly henabled hall, _, rfl⟩

variable {call : ApplyCall}

/-- A call that leaves the versions and the registrations. -/
theorem applies_of_eq {result : Except ApplyFailure PublicationResult}
    (hconsistent : state.Consistent nodeTypes history) (hresult : result ≠ .ok .completed) :
    state.Applies nodeTypes history call (state, result) :=
  ⟨hconsistent, fun h => absurd h hresult, fun _ => rfl⟩

theorem deactivate_spec {nodeIds : OrderedSet String} :
    let removed := deactivate state faults nodeIds
    removed.1.publishedVersion = state.publishedVersion ∧
      (∀ r ∈ removed.1.registered, r ∈ state.registered) ∧
      (removed.2 = .ok () → ∀ r, r ∈ removed.1.registered ↔
        r ∈ state.registered ∧ r.nodeId ∉ nodeIds) := by
  unfold deactivate
  split
  · refine ⟨rfl, fun r hr => (List.mem_filter.mp hr).1, fun _ r => ?_⟩
    rw [List.mem_filter, decide_eq_true_eq]
  · exact ⟨rfl, fun r hr => (List.mem_filter.mp hr).1, fun h => by cases h⟩

theorem advancePublishedVersion_spec (state : PublicationState) (faults : ApplyFaults)
    (publishedVersionId : String) :
    let advanced := advancePublishedVersion state faults publishedVersionId
    advanced.1.registered = state.registered ∧
      (advanced.1.publishedVersion = some publishedVersionId ∨
        advanced.1.publishedVersion = state.publishedVersion) ∧
      (advanced.2 = .ok () → advanced.1.publishedVersion = some publishedVersionId) ∧
      advanced.2 ≠ .error .deactivate := by
  unfold advancePublishedVersion
  split
  · exact ⟨rfl, .inl rfl, fun _ => rfl, by simp⟩
  · dsimp only
    split
    · exact ⟨rfl, .inl rfl, fun h => (by cases h), by simp⟩
    · exact ⟨rfl, .inr rfl, fun h => (by cases h), by simp⟩

theorem removePublishedVersion_spec (state : PublicationState) (faults : ApplyFaults) :
    let removed := removePublishedVersion state faults
    removed.1.registered = state.registered ∧ removed.2 ≠ .error .deactivate := by
  unfold removePublishedVersion
  split
  · exact ⟨rfl, by simp⟩
  · dsimp only
    split <;> exact ⟨rfl, by simp⟩

variable {toRemove : OrderedSet String}

/-- The removal, which is skipped when nothing that is registered is to be removed. -/
theorem removed_spec (faults : ApplyFaults) {p : Prop} [Decidable p]
    (hp : ¬p → ∀ r ∈ state.registered, r.nodeId ∉ toRemove) :
    let removed := if p then deactivate state faults toRemove else (state, .ok ())
    removed.1.publishedVersion = state.publishedVersion ∧
      (∀ r ∈ removed.1.registered, r ∈ state.registered) ∧
      (removed.2 = .ok () → ∀ r, r ∈ removed.1.registered ↔
        r ∈ state.registered ∧ r.nodeId ∉ toRemove) := by
  split
  · exact deactivate_spec
  · rename_i hnone
    exact ⟨rfl, fun r hr => hr, fun _ r => ⟨fun hr => ⟨hr, hp hnone r hr⟩, And.left⟩⟩

theorem not_mem_of_size (h : ¬toRemove.size > 0) (id : String) :
    id ∉ toRemove :=
  OrderedSet.size_eq_zero_iff.mp (by omega) id

/-- The difference of the versions with what the checks of storage and memory find. -/
theorem plans_of_between {sets : TriggerDiff} (hconsistent : state.Consistent nodeTypes history)
    (h : sets.Between (nodeTypes.enabledIds (state.publishedVersion.bind history))
      (nodeTypes.enabledIds (some version))) :
    state.Plans nodeTypes version
      ((getNodesWithUnregisteredWebhooks nodeTypes state version).elems.foldl .add
        ((getUnregisteredNonWebhookTriggerNodeIds nodeTypes state
          (nodeTypes.getEnabledTriggerNodes (some version))).elems.foldl .add sets.toAdd))
      sets.toRemove := by
  refine ⟨fun r hr hnot => h.kept _ (hconsistent r hr) hnot, fun r hr hmissing => ?_⟩
  rw [OrderedSet.mem_foldl_add, OrderedSet.mem_foldl_add]
  rcases hmissing with hnot | hremove
  · rcases mem_unregistered hr hnot with h | h
    · exact .inl (.inr h)
    · exact .inr h
  · exact .inl (.inl (h.replaced _ (nodeId_mem_enabledIds hr) hremove))

/-- What is registered is wanted by the version before and by the one that is published. -/
theorem consistent_advance {s : PublicationState} (hconsistent : s.Consistent nodeTypes history)
    (hversion : history call.publishedVersionId = some version)
    (henabled : ∀ r ∈ s.registered, r.nodeId ∈ nodeTypes.enabledIds (some version)) :
    (advancePublishedVersion s call.faults call.publishedVersionId).1.Consistent nodeTypes
      history := by
  obtain ⟨hregistered, hpublished, -, -⟩ := advancePublishedVersion_spec s
    call.faults call.publishedVersionId
  intro r hr
  rw [hregistered] at hr
  rcases hpublished with hpublished | hpublished
  · rw [hpublished, Option.bind_some, hversion]
    exact henabled r hr
  · rw [hpublished]
    exact hconsistent r hr

/-- Nothing is to be removed or added. -/
theorem advance_applies {toAdd : OrderedSet String}
    (hconsistent : state.Consistent nodeTypes history)
    (hversion : history call.publishedVersionId = some version)
    (hplans : state.Plans nodeTypes version toAdd toRemove)
    (hempty : (toAdd.size = 0 && toRemove.size = 0) = true) :
    let advanced := advancePublishedVersion state call.faults call.publishedVersionId
    state.Applies nodeTypes history call
      (advanced.1, advanced.2.map fun _ => PublicationResult.completed) := by
  rw [Bool.and_eq_true, decide_eq_true_eq, decide_eq_true_eq] at hempty
  have henabled : ∀ r ∈ state.registered, r.nodeId ∈ nodeTypes.enabledIds (some version) :=
    fun r hr => hplans.kept r hr (OrderedSet.size_eq_zero_iff.mp hempty.2 _)
  have hall : ∀ r ∈ triggerRegistrations nodeTypes version, r ∈ state.registered := by
    intro r hr
    by_contra hnot
    exact OrderedSet.size_eq_zero_iff.mp hempty.1 _ (hplans.missing r hr (.inl hnot))
  have hafter := consistent_advance hconsistent hversion henabled
  obtain ⟨hregistered, -, hdone, hfailure⟩ := advancePublishedVersion_spec state
    call.faults call.publishedVersionId
  rw [← hregistered] at henabled hall
  generalize advancePublishedVersion state call.faults call.publishedVersionId = advanced
    at hafter hdone hfailure henabled hall ⊢
  obtain ⟨s, advanced⟩ := advanced
  cases advanced with
  | error failure =>
    exact ⟨hafter, fun h => (by cases h), fun h => absurd (congrArg _ (Except.error.inj h)) hfailure⟩
  | ok _ =>
    exact ⟨hafter, fun _ => ⟨hdone rfl, version, hversion, registersExactly henabled hall⟩,
      fun h => (by cases h)⟩

/-- The version is published, and then the triggers are added. -/
theorem advanceAndAdd_applies {s : PublicationState} {toAdd : OrderedSet String}
    {applied : Applied PublicationResult} (hconsistent : s.Consistent nodeTypes history)
    (hversion : history call.publishedVersionId = some version)
    (henabled : ∀ r ∈ s.registered, r.nodeId ∈ nodeTypes.enabledIds (some version))
    (hmissing : ∀ r ∈ triggerRegistrations nodeTypes version, r ∉ s.registered →
      r.nodeId ∈ toAdd)
    (herror : ∀ s' failure, advancePublishedVersion s call.faults call.publishedVersionId =
      (s', .error failure) → applied = (s', .error failure))
    (hok : ∀ s', advancePublishedVersion s call.faults call.publishedVersionId = (s', .ok ()) →
      applied = addTriggers nodeTypes s' call.faults version toAdd toRemove) :
    state.Applies nodeTypes history call applied := by
  have hafter := consistent_advance hconsistent hversion henabled
  obtain ⟨hregistered, -, hdone, hfailure⟩ := advancePublishedVersion_spec s
    call.faults call.publishedVersionId
  rw [← hregistered] at henabled hmissing
  generalize advancePublishedVersion s call.faults call.publishedVersionId = advanced
    at hafter hdone hfailure henabled hmissing herror hok
  obtain ⟨s', advanced⟩ := advanced
  cases advanced with
  | error failure =>
    rw [herror s' failure rfl]
    exact ⟨hafter, fun h => (by cases h), fun h => absurd (congrArg _ (Except.error.inj h)) hfailure⟩
  | ok _ =>
    rw [hok s' rfl]
    obtain ⟨hsame, hsub, hcompleted, result, hresult⟩ := addTriggers_spec call.faults
      toRemove henabled hmissing
    rw [hdone rfl] at hsame
    refine ⟨fun r hr => ?_, fun h => ⟨hsame, version, hversion, hcompleted h⟩, fun h => ?_⟩
    · rw [hsame, Option.bind_some, hversion]
      exact hsub r hr
    · exact absurd (hresult.symm.trans h) (by simp)

/-- The triggers that stay after a removal are of both versions. -/
theorem publish_applies (hconsistent : state.Consistent nodeTypes history)
    (hversion : history call.publishedVersionId = some version) :
    state.Applies nodeTypes history call (publish isEqual nodeTypes state call.faults
      (state.publishedVersion.bind history) version call.publishedVersionId) := by
  have hplans := plans_of_between hconsistent
    (computeTriggerDiff_between isEqual _ (nodeTypes.getEnabledTriggerNodes (some version)))
  unfold publish
  dsimp only
  generalize computeTriggerDiff isEqual _ _ = diff at hplans ⊢
  obtain ⟨toAdd₀, toRemove⟩ := diff
  dsimp only at hplans ⊢
  split
  · exact applies_of_eq hconsistent (by simp)
  generalize (getNodesWithUnregisteredWebhooks nodeTypes state version).elems.foldl _ _ = toAdd
    at hplans ⊢
  split
  · rename_i hempty
    exact advance_applies hconsistent hversion hplans hempty
  have hskipped : ¬(toRemove.size > 0 && (state.publishedVersion.bind history).isSome) = true →
      ∀ r ∈ state.registered, r.nodeId ∉ toRemove := by
    intro hnone r hr
    cases hold : state.publishedVersion.bind history with
    | none =>
      have henabled := hconsistent r hr
      rw [hold] at henabled
      exact absurd henabled List.not_mem_nil
    | some version =>
      rw [hold, Option.isSome_some, Bool.and_true, decide_eq_true_eq] at hnone
      exact not_mem_of_size hnone r.nodeId
  obtain ⟨hpublished, hsubset, hremoved⟩ := removed_spec call.faults hskipped
  generalize (if (toRemove.size > 0 && (state.publishedVersion.bind history).isSome) = true then
    deactivate state call.faults toRemove else (state, .ok ())) = removed
    at hpublished hsubset hremoved ⊢
  obtain ⟨s, removed⟩ := removed
  dsimp only at hpublished hsubset hremoved ⊢
  have hkept : s.Consistent nodeTypes history := by
    intro r hr
    rw [hpublished]
    exact hconsistent r (hsubset r hr)
  cases removed with
  | error failure => exact ⟨hkept, fun h => (by cases h), fun _ => hpublished⟩
  | ok _ =>
    refine advanceAndAdd_applies hkept hversion (fun r hr => ?_) (fun r hr hnot => ?_)
      (fun s' failure h => by rw [h]) (fun s' h => by rw [h])
    · exact hplans.kept r (hsubset r hr) ((hremoved rfl r).mp hr).2
    · refine hplans.missing r hr (or_iff_not_imp_left.mpr fun hregistered => ?_)
      by_contra hnotRemoved
      exact hnot ((hremoved rfl r).mpr ⟨not_not.mp hregistered, hnotRemoved⟩)

theorem unpublish_applies (hconsistent : state.Consistent nodeTypes history) :
    state.Applies nodeTypes history call
      (unpublish nodeTypes state call.faults (state.publishedVersion.bind history)) := by
  unfold unpublish
  cases hold : state.publishedVersion.bind history with
  | none => exact applies_of_eq hconsistent (by simp)
  | some version =>
    dsimp only
    generalize htoRemove :
      OrderedSet.ofList ((nodeTypes.getEnabledTriggerNodes (some version)).map (·.id)) = toRemove
    obtain ⟨hpublished, hsubset, hremoved⟩ := removed_spec call.faults (p := toRemove.size > 0)
      fun hsize r (_ : r ∈ state.registered) => not_mem_of_size hsize r.nodeId
    generalize (if toRemove.size > 0 then deactivate state call.faults toRemove
      else (state, .ok ())) = removed at hpublished hsubset hremoved ⊢
    obtain ⟨s, removed⟩ := removed
    dsimp only at hpublished hsubset hremoved ⊢
    cases removed with
    | error failure =>
      refine ⟨fun r hr => ?_, fun h => (by cases h), fun _ => hpublished⟩
      rw [hpublished]
      exact hconsistent r (hsubset r hr)
    | ok _ =>
      -- All that was registered is among what is removed.
      have hnone : ∀ r, r ∉ s.registered := by
        intro r hr
        obtain ⟨hr, hnot⟩ := (hremoved rfl r).mp hr
        have henabled := hconsistent r hr
        rw [hold] at henabled
        exact hnot (htoRemove ▸ OrderedSet.mem_ofList.mpr henabled)
      obtain ⟨hregistered, hfailure⟩ := removePublishedVersion_spec s call.faults
      generalize removePublishedVersion s call.faults = unpublished at hregistered hfailure ⊢
      obtain ⟨s', unpublished⟩ := unpublished
      dsimp only at hregistered hfailure ⊢
      rw [← hregistered] at hnone
      refine ⟨fun r hr => absurd hr (hnone r), fun h => ?_, fun h => ?_⟩
      · cases unpublished <;> cases h
      · cases unpublished with
        | error failure => exact absurd (congrArg _ (Except.error.inj h)) hfailure
        | ok _ => cases h

theorem apply_applies (hconsistent : state.Consistent nodeTypes history) :
    state.Applies nodeTypes history call (apply isEqual nodeTypes history state call) := by
  unfold apply
  split
  · exact applies_of_eq hconsistent (by simp)
  · dsimp only
    split
    · exact applies_of_eq hconsistent (by simp)
    · exact unpublish_applies hconsistent
    · split
      · exact applies_of_eq hconsistent (by simp)
      · rename_i version hversion
        exact publish_applies hconsistent hversion

variable {steps : List (PublicationState × ApplyCall)}

/-- After every call the registered triggers are enabled triggers of the published version,
after a completed one they are exactly those of the version of the record, and one whose
removal failed leaves the published version. -/
theorem apply_run (h : Run (applyStep isEqual nodeTypes history) {} steps state) :
    state.Consistent nodeTypes history ∧ ∀ x ∈ steps,
      x.1.Applies nodeTypes history x.2 (apply isEqual nodeTypes history x.1 x.2) := by
  have hconsistent := h.forall_states (I := (·.Consistent nodeTypes history)) (by rintro r ⟨⟩)
    fun s call s' hs hstep => by
      obtain rfl := Except.ok.inj hstep
      exact (apply_applies hs).consistent
  refine ⟨hconsistent state (by simp), fun x hx => apply_applies (hconsistent x.1 ?_)⟩
  exact List.mem_append_left _ (List.mem_map_of_mem hx)

/-! ## Example -/

def sampleTriggerNodeTypes : TriggerNodeTypes where
  getByNameAndVersion type _ :=
    if type = some "scheduleTrigger" then some { trigger := true }
    else if type = some "webhook" then some { webhook := true }
    else none
  getNodeParameters node := node.parameters
  hasWebhooks node := node.type = some "webhook"

/-- The schedule changes, the webhook goes, and another schedule comes. -/
def sampleTriggerVersions (versionId : String) : Option WorkflowTriggerVersion :=
  if versionId = "v1" then some { nodes := [
    { id := "1", name := "Schedule", type := some "scheduleTrigger", parameters := .number 1 },
    { id := "2", name := "Webhook", type := some "webhook", parameters := .null }] }
  else if versionId = "v2" then some { nodes := [
    { id := "1", name := "Schedule", type := some "scheduleTrigger", parameters := .number 2 },
    { id := "3", name := "Schedule1", type := some "scheduleTrigger", parameters := .null }] }
  else none

/-- A schedule is not activated, then the removal for the next version fails half way, and then
all goes well. -/
theorem apply_run_failures : ∃ steps state,
    Run (applyStep Json.isEqual sampleTriggerNodeTypes sampleTriggerVersions) {} steps state ∧
    state = { publishedVersion := some "v2", registered := [.nonWebhook "1", .nonWebhook "3"] } ∧
    state.Consistent sampleTriggerNodeTypes sampleTriggerVersions ∧
    ∀ x ∈ steps, x.1.Applies sampleTriggerNodeTypes sampleTriggerVersions x.2
      (apply Json.isEqual sampleTriggerNodeTypes sampleTriggerVersions x.1 x.2) := by
  have hevents : (runSteps (applyStep Json.isEqual sampleTriggerNodeTypes sampleTriggerVersions) {}
      [{ publishedVersionId := "v1", workflow := some (some "v1"),
         faults := { activates := [.webhooks "2"] } },
        { publishedVersionId := "v1", workflow := some (some "v1"),
          faults := { activates := [.nonWebhook "1"] } },
        { publishedVersionId := "v2", workflow := some (some "v2"),
          faults := { deactivate := some [.nonWebhook "1"] } },
        { publishedVersionId := "v2", workflow := some (some "v2"),
          faults := { activates := [.nonWebhook "1", .nonWebhook "3"] } }]).map
        (fun r => (r.2, r.1.map fun x => x.1)) =
      .ok ({ publishedVersion := some "v2", registered := [.nonWebhook "1", .nonWebhook "3"] },
        [{}, { publishedVersion := some "v1", registered := [.webhooks "2"] },
          { publishedVersion := some "v1", registered := [.webhooks "2", .nonWebhook "1"] },
          { publishedVersion := some "v1", registered := [.nonWebhook "1"] }]) := by
    decide
  obtain ⟨steps, state, hrun, -, hstate⟩ := exists_run hevents
  exact ⟨steps, state, hrun, (Prod.mk.inj hstate).1, apply_run hrun⟩

end WorkflowPublicationApplier

end N8n
