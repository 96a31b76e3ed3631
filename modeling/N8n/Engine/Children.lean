import N8n.Engine.ExecutionLoop
import N8n.Workflow.ConnectionsByDestination

/-!
# The children of a node

The Main outputs of a node lead to its children. In execution order v1 they are sorted by
position before they are put on the stack one after another, so that the one more to the
top left ends on top (`reverse_sortNodesToAdd`).

If a node has no more than one incoming Main connection, and that to its first input, its
data goes straight to the stack : `enqueueChildren_eq_ok` says what the stack is after the
output of a node has been delivered to such children.
-/

open Lib

namespace N8n

variable {J : Type}

/-! ## Positions -/

/-- `a` is above `b`, or level with it and not to its right. -/
def TopLeftFirst (a b : ℤ × ℤ) : Prop := a.2 < b.2 ∨ a.2 = b.2 ∧ a.1 ≤ b.1

instance : DecidableRel TopLeftFirst := fun _ _ => inferInstanceAs (Decidable (_ ∨ _))

/-- The comparison moves a node forward when it is not the one that goes first. -/
theorem comparePositions_neg_iff {a b : ℤ × ℤ} :
    comparePositions a b < 0 ↔ ¬TopLeftFirst a b := by
  unfold comparePositions TopLeftFirst
  split_ifs <;> omega

theorem TopLeftFirst.antisymm {a b : ℤ × ℤ} (h : TopLeftFirst a b) (h' : TopLeftFirst b a) :
    a = b := by
  unfold TopLeftFirst at h h'
  ext <;> omega

/-- The nodes in the order in which they are put on the stack : the bottom right first. -/
theorem pairwise_sortNodesToAdd (nodesToAdd : List NodeToAdd) :
    (sortNodesToAdd nodesToAdd).Pairwise fun a b => TopLeftFirst b.position a.position := by
  let later (a b : NodeToAdd) : Prop := ¬comparePositions b.position a.position < 0
  have hlater : ∀ a b, later a b ↔ TopLeftFirst b.position a.position := fun a b => by
    rw [← not_iff_not]
    exact not_not.trans comparePositions_neg_iff
  have htotal : Std.Total later := ⟨fun a b => by
    simp only [hlater, TopLeftFirst]
    omega⟩
  have htrans : IsTrans NodeToAdd later := ⟨fun a b c => by
    simp only [hlater, TopLeftFirst]
    omega⟩
  exact (List.pairwise_insertionSort later nodesToAdd).imp fun h => (hlater _ _).mp h

theorem perm_sortNodesToAdd (nodesToAdd : List NodeToAdd) :
    (sortNodesToAdd nodesToAdd).Perm nodesToAdd :=
  List.perm_insertionSort _ _

/-! ## Children -/

def Workflow.positionOf (workflow : Workflow) (nodeName : String) : ℤ × ℤ :=
  ((workflow.getNode nodeName).map (·.position)).getD (0, 0)

/-- The nodes the Main outputs of a node lead to, the one most to the top left first. -/
def Workflow.children (workflow : Workflow) (nodeName : String) : List String :=
  ((outputConnections workflow nodeName).map (·.connection.node)).insertionSort
    fun a b => TopLeftFirst (workflow.positionOf a) (workflow.positionOf b)

theorem Workflow.perm_children (workflow : Workflow) (nodeName : String) :
    (workflow.children nodeName).Perm
      ((outputConnections workflow nodeName).map (·.connection.node)) :=
  List.perm_insertionSort _ _

theorem Workflow.pairwise_children (workflow : Workflow) (nodeName : String) :
    (workflow.children nodeName).Pairwise fun a b =>
      TopLeftFirst (workflow.positionOf a) (workflow.positionOf b) := by
  let earlier (a b : String) : Prop := TopLeftFirst (workflow.positionOf a) (workflow.positionOf b)
  have htotal : Std.Total earlier := ⟨fun a b => by
    simp only [earlier, TopLeftFirst]
    omega⟩
  have htrans : IsTrans String earlier := ⟨fun a b c => by
    simp only [earlier, TopLeftFirst]
    omega⟩
  exact List.pairwise_insertionSort earlier _

theorem position_of_mem_outputConnections {workflow : Workflow} {nodeName : String} {c : NodeToAdd}
    (h : c ∈ outputConnections workflow nodeName) :
    c.position = workflow.positionOf c.connection.node := by
  unfold outputConnections at h
  split at h
  · cases h
  · simp only [List.mem_flatMap, List.mem_map] at h
    obtain ⟨_, -, _, -, rfl⟩ := h
    rfl

/-- The stack gets the children with the first of them on top. -/
theorem reverse_sortNodesToAdd {workflow : Workflow} {nodeName : String}
    (hposition : ∀ a ∈ workflow.children nodeName, ∀ b ∈ workflow.children nodeName,
      workflow.positionOf a = workflow.positionOf b → a = b) :
    ((sortNodesToAdd (outputConnections workflow nodeName)).map (·.connection.node)).reverse =
      workflow.children nodeName := by
  have hperm := perm_sortNodesToAdd (outputConnections workflow nodeName)
  have hnames : (((sortNodesToAdd (outputConnections workflow nodeName)).map
      (·.connection.node)).reverse).Perm (workflow.children nodeName) :=
    (List.reverse_perm _).trans ((hperm.map _).trans (workflow.perm_children nodeName).symm)
  have hsorted : ((sortNodesToAdd (outputConnections workflow nodeName)).map
      (·.connection.node)).reverse.Pairwise fun a b =>
        TopLeftFirst (workflow.positionOf a) (workflow.positionOf b) := by
    rw [List.pairwise_reverse, List.pairwise_map]
    refine (pairwise_sortNodesToAdd _).imp_of_mem fun ha hb h => ?_
    rwa [position_of_mem_outputConnections (hperm.mem_iff.mp ha),
      position_of_mem_outputConnections (hperm.mem_iff.mp hb)] at h
  refine List.Perm.eq_of_pairwise (fun a b ha hb hab hba => ?_) hsorted
    (workflow.pairwise_children nodeName) hnames
  exact hposition a (hnames.mem_iff.mp ha) b hb (hab.antisymm hba)

/-- The connections a node's output goes to are connections of the workflow. -/
theorem outputConnections_sublist (workflow : Workflow) (nodeName : String) :
    ((outputConnections workflow nodeName).map fun c =>
      OutputConnection.mk nodeName .main c.outputIndex c.connection).Sublist
        (allConnections workflow.connectionsBySourceNode) := by
  unfold outputConnections
  cases hnode : workflow.connectionsBySourceNode.get? nodeName with
  | none => exact List.nil_sublist _
  | some nodeConnections =>
    cases hmain : nodeConnections.get? .main with
    | none => simp [hmain]
    | some main =>
      simp only [Option.bind_some, hmain, allConnections, List.flatMap_def]
      refine .trans ?_ (List.sublist_flatten_of_mem
        (List.mem_map_of_mem (mem_objectEntries.mpr hnode)))
      refine .trans ?_ (List.sublist_flatten_of_mem
        (List.mem_map_of_mem (OrderedMap.mem_entries_iff.mpr hmain)))
      rw [List.map_flatten, List.map_map]
      simp [Function.comp_def]

/-! ## Delivering to the children -/

/-- An item that runs the node of the name, with data on its Main inputs. -/
def IExecuteData.Runs (item : IExecuteData J) (nodeName : String) : Prop :=
  (∃ node, item.node = some node ∧ node.name = nodeName) ∧
    ∃ slots, item.data = mainConnections slots

section Delivery

variable [DataObject J] {workflow : Workflow} (nodeName : String)
  (nodeSuccessData : List (Slot (Items J))) (runIndex : ℕ)

theorem addChild_eq_ok (hv1 : workflow.executionOrder = some .v1) {c : NodeToAdd}
    (hinputs : workflow.numberOfInputs c.connection.node ≤ 1)
    (hnode : workflow.nodes.has c.connection.node) (st : ExecutionState J) :
    ∃ item : IExecuteData J, item.Runs c.connection.node ∧
      addChild workflow nodeName nodeSuccessData runIndex st c =
        .ok { st with nodeExecutionStack := item :: st.nodeExecutionStack } := by
  obtain ⟨node, hget⟩ := Option.isSome_iff_exists.mp hnode
  unfold addChild addNodeToBeExecuted deliver
  rw [if_neg (by simpa using hinputs)]
  simp only [addToStack, hget, enqueue, if_pos hv1]
  exact ⟨_, ⟨⟨node, rfl, workflow.name_of_get? hget⟩, _, rfl⟩, rfl⟩

theorem foldlM_addChild_eq_ok (hv1 : workflow.executionOrder = some .v1) {cs : List NodeToAdd}
    (hinputs : ∀ c ∈ cs, workflow.numberOfInputs c.connection.node ≤ 1)
    (hnode : ∀ c ∈ cs, workflow.nodes.has c.connection.node) (st : ExecutionState J) :
    ∃ items : List (IExecuteData J),
      List.Forall₂ IExecuteData.Runs items (cs.map (·.connection.node)).reverse ∧
      cs.foldlM (addChild workflow nodeName nodeSuccessData runIndex) st =
        .ok { st with nodeExecutionStack := items ++ st.nodeExecutionStack } := by
  induction cs generalizing st with
  | nil => exact ⟨[], .nil, rfl⟩
  | cons c cs ih =>
    obtain ⟨item, hitem, hadd⟩ := addChild_eq_ok nodeName nodeSuccessData runIndex hv1
      (hinputs c (by simp)) (hnode c (by simp)) st
    obtain ⟨items, hitems, hfold⟩ := ih (fun c hc => hinputs c (by simp [hc]))
      (fun c hc => hnode c (by simp [hc]))
      { st with nodeExecutionStack := item :: st.nodeExecutionStack }
    refine ⟨items ++ [item], ?_, ?_⟩
    · rw [List.map_cons, List.reverse_cons]
      exact List.rel_append hitems (.cons hitem .nil)
    · rw [List.foldlM_cons]
      exact bind_eq_ok.mpr ⟨_, hadd, by simpa using hfold⟩

variable {nodeName nodeSuccessData}

/-- The output goes to every child, and the first one is on top of the stack. -/
theorem enqueueChildren_eq_ok (hv1 : workflow.executionOrder = some .v1)
    (hinputs : ∀ c ∈ outputConnections workflow nodeName,
      workflow.numberOfInputs c.connection.node ≤ 1)
    (hnode : ∀ c ∈ outputConnections workflow nodeName, workflow.nodes.has c.connection.node)
    (hreceives : ∀ c ∈ outputConnections workflow nodeName,
      receivesOutput workflow nodeSuccessData c)
    (hposition : ∀ a ∈ workflow.children nodeName, ∀ b ∈ workflow.children nodeName,
      workflow.positionOf a = workflow.positionOf b → a = b) (st : ExecutionState J) :
    ∃ items : List (IExecuteData J),
      List.Forall₂ IExecuteData.Runs items (workflow.children nodeName) ∧
      enqueueChildren workflow nodeName nodeSuccessData runIndex st =
        .ok { st with nodeExecutionStack := items ++ st.nodeExecutionStack } := by
  have hmem : ∀ {c}, c ∈ sortNodesToAdd (outputConnections workflow nodeName) →
      c ∈ outputConnections workflow nodeName := (perm_sortNodesToAdd _).mem_iff.mp
  obtain ⟨items, hitems, hfold⟩ := foldlM_addChild_eq_ok nodeName nodeSuccessData runIndex hv1
    (fun c hc => hinputs c (hmem hc)) (fun c hc => hnode c (hmem hc)) st
  rw [reverse_sortNodesToAdd hposition] at hitems
  refine ⟨items, hitems, ?_⟩
  have hcheck : (outputConnections workflow nodeName).forM (fun c : NodeToAdd =>
      if workflow.nodes.has c.connection.node then (.ok () : Except EngineError Unit)
      else .error (.unexpectedError "Destination node not found")) = .ok () :=
    forM_eq_ok fun c hc => if_pos (hnode c hc)
  unfold enqueueChildren
  simp only [if_pos hv1]
  rw [hcheck, List.filter_eq_self.mpr hreceives]
  exact hfold

end Delivery

end N8n
