import N8n.Workflow.WorkflowDiff

/-!
# The changes between two lists of nodes

What `compareWorkflowsNodes` says of an id depends on which of the two lists have it, and on
the last node each has with it.
-/

open Lib

namespace N8n

section

variable {isEqual : Json → Json → Bool} {base target : List DiffableNode} {id : String}

theorem mem_ids_iff {nodes : List DiffableNode} :
    (nodesById nodes).has id = true ↔ id ∈ nodes.map (·.id) := by
  have hfold : ∀ (l : List DiffableNode) (m : OrderedMap String DiffableNode),
      id ∈ (l.foldl (fun acc node => acc.set node.id node) m).keys ↔
        id ∈ l.map (·.id) ∨ id ∈ m.keys := by
    intro l
    induction l with
    | nil => simp
    | cons node l ih =>
      intro m
      rw [List.foldl_cons, ih, OrderedMap.mem_keys_set, List.map_cons, List.mem_cons]
      tauto
  rw [OrderedMap.has_iff, nodesById, hfold]
  simp

/-- The last node of each id of the base, then those of the target with a new id. -/
theorem entries_compareWorkflowsNodes_nodesById :
    (compareWorkflowsNodes isEqual base target).entries =
      ((nodesById base).entries.map fun entry => (entry.1,
        { status := baseStatus isEqual (nodesById target) entry.1 entry.2, node := entry.2 })) ++
      ((nodesById target).entries.filter fun entry => !(nodesById base).has entry.1).map
        fun entry => (entry.1, { status := .added, node := entry.2 }) := by
  have hfirst := OrderedMap.entries_foldl_set_map (m := (∅ : OrderedMap String NodeDiff))
    (l := (nodesById base).entries) (f := Prod.fst) (g := fun entry =>
      { status := baseStatus isEqual (nodesById target) entry.1 entry.2, node := entry.2 })
    (by simpa [OrderedMap.keys] using (nodesById base).nodup_keys')
  rw [OrderedMap.entries_empty, List.nil_append] at hfirst
  unfold compareWorkflowsNodes
  dsimp only
  rw [OrderedMap.entries_foldl_set_map, hfirst]
  rw [OrderedMap.keys, hfirst, List.map_map]
  refine List.Nodup.append (nodesById base).nodup_keys'
    ((nodesById target).nodup_keys'.sublist (List.filter_sublist.map _)) ?_
  rintro id hid hnew
  obtain ⟨entry, hentry, rfl⟩ := List.mem_map.mp hnew
  have hhas := (List.mem_filter.mp hentry).2
  rw [OrderedMap.has_iff.mpr hid] at hhas
  cases hhas

theorem baseStatus_ne_added {targetNodes : OrderedMap String DiffableNode} {id : String}
    {node : DiffableNode} : baseStatus isEqual targetNodes id node ≠ .added := by
  unfold baseStatus
  split
  · simp
  · split <;> simp

/-- The comparison gives the id the status. -/
def HasStatus (isEqual : Json → Json → Bool) (base target : List DiffableNode) (id : String)
    (status : NodeDiffStatus) : Prop :=
  ∃ entry ∈ (compareWorkflowsNodes isEqual base target).entries,
    entry.1 = id ∧ entry.2.status = status

theorem hasStatus_iff {status : NodeDiffStatus} :
    HasStatus isEqual base target id status ↔
      (∃ node, (nodesById base).get? id = some node ∧
        baseStatus isEqual (nodesById target) id node = status) ∨
      status = .added ∧ id ∉ base.map (·.id) ∧ id ∈ target.map (·.id) := by
  rw [HasStatus, entries_compareWorkflowsNodes_nodesById, ← mem_ids_iff, ← mem_ids_iff]
  constructor
  · rintro ⟨entry, hentry, rfl, rfl⟩
    rcases List.mem_append.mp hentry with hentry | hentry
    · obtain ⟨⟨id, node⟩, hnode, rfl⟩ := List.mem_map.mp hentry
      exact .inl ⟨node, OrderedMap.mem_entries_iff.mp hnode, rfl⟩
    · obtain ⟨⟨id, node⟩, hnode, rfl⟩ := List.mem_map.mp hentry
      obtain ⟨hnode, hnot⟩ := List.mem_filter.mp hnode
      refine .inr ⟨rfl, by simpa using hnot, ?_⟩
      exact OrderedMap.has_iff.mpr (OrderedMap.mem_keys_iff.mpr
        ⟨node, OrderedMap.mem_entries_iff.mp hnode⟩)
  · rintro (⟨node, hnode, rfl⟩ | ⟨rfl, hnot, hhas⟩)
    · exact ⟨_, List.mem_append_left _ (List.mem_map_of_mem
        (OrderedMap.mem_entries_iff.mpr hnode)), rfl, rfl⟩
    · obtain ⟨node, hnode⟩ := OrderedMap.mem_keys_iff.mp (OrderedMap.has_iff.mp hhas)
      refine ⟨_, List.mem_append_right _ (List.mem_map_of_mem (List.mem_filter.mpr
        ⟨OrderedMap.mem_entries_iff.mpr hnode, ?_⟩)), rfl, rfl⟩
      simpa using hnot

theorem exists_get?_nodesById {nodes : List DiffableNode} :
    (∃ node, (nodesById nodes).get? id = some node) ↔ id ∈ nodes.map (·.id) := by
  rw [← mem_ids_iff, OrderedMap.has_iff, OrderedMap.mem_keys_iff]

theorem baseStatus_eq_deleted_iff {node : DiffableNode} :
    baseStatus isEqual (nodesById target) id node = .deleted ↔ id ∉ target.map (·.id) := by
  rw [← mem_ids_iff]
  unfold baseStatus
  split
  · rename_i hhas
    simpa using hhas
  · rename_i hhas
    split <;> simpa using hhas

theorem mem_of_hasStatus_added (h : HasStatus isEqual base target id .added) :
    id ∈ target.map (·.id) := by
  rcases hasStatus_iff.mp h with ⟨node, -, hstatus⟩ | ⟨-, -, hmem⟩
  · exact absurd hstatus baseStatus_ne_added
  · exact hmem

/-- The deleted nodes are those of the base that the target has not. -/
theorem hasStatus_deleted_iff :
    HasStatus isEqual base target id .deleted ↔ id ∈ base.map (·.id) ∧ id ∉ target.map (·.id) := by
  rw [hasStatus_iff, ← exists_get?_nodesById]
  constructor
  · rintro (⟨node, hnode, hstatus⟩ | ⟨hstatus, -⟩)
    · exact ⟨⟨node, hnode⟩, baseStatus_eq_deleted_iff.mp hstatus⟩
    · cases hstatus
  · rintro ⟨⟨node, hnode⟩, hnot⟩
    exact .inl ⟨node, hnode, baseStatus_eq_deleted_iff.mpr hnot⟩

/-- A modified node is of both. -/
theorem mem_of_hasStatus_modified (h : HasStatus isEqual base target id .modified) :
    id ∈ base.map (·.id) ∧ id ∈ target.map (·.id) := by
  rcases hasStatus_iff.mp h with ⟨node, hnode, hstatus⟩ | ⟨hstatus, -⟩
  · refine ⟨exists_get?_nodesById.mp ⟨node, hnode⟩, ?_⟩
    by_contra hnot
    rw [baseStatus_eq_deleted_iff.mpr hnot] at hstatus
    cases hstatus
  · cases hstatus

end

end N8n
