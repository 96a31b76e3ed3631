import N8n.Interfaces

/-!
# Connections by destination

`mapConnectionsByDestination` turns the connections of a workflow, which are kept by source
node, round. The inputs of a destination node are numbered without a gap, so a connection
to an input makes all inputs before it. A node has no more inputs than the highest index
anything is connected to needs (`length_mapConnectionsByDestination_le`).
-/

open Lib

namespace N8n

/-- A connection with the output it comes out of. -/
structure OutputConnection where
  sourceNode : String
  type : NodeConnectionType
  outputIndex : ℕ
  connection : IConnection
  deriving DecidableEq, Repr

/-- The connections in the order in which a loop over them meets them. -/
def allConnections (connections : IConnections) : List OutputConnection :=
  (objectEntries connections).flatMap fun (sourceNode, nodeConnections) =>
    nodeConnections.entries.flatMap fun (type, outputs) =>
      outputs.zipIdx.flatMap fun (connections, outputIndex) =>
        (connections.getD []).map fun connection =>
          { sourceNode, type, outputIndex, connection }

theorem mem_allConnections {connections : IConnections} {c : OutputConnection} :
    c ∈ allConnections connections ↔ ∃ nodeConnections outputs list,
      connections.get? c.sourceNode = some nodeConnections ∧
      nodeConnections.get? c.type = some outputs ∧
      outputs[c.outputIndex]? = some (some list) ∧ c.connection ∈ list := by
  obtain ⟨sourceNode, type, outputIndex, connection⟩ := c
  simp only [allConnections, List.mem_flatMap, List.mem_map, Prod.exists, mem_objectEntries,
    OrderedMap.mem_entries_iff, List.mem_zipIdx_iff_getElem?, OutputConnection.mk.injEq]
  constructor
  · rintro ⟨_, nodeConnections, hnode, _, outputs, htype, slot, _, hslot, _, hmem, rfl, rfl, rfl, rfl⟩
    cases slot with
    | none => cases hmem
    | some list => exact ⟨nodeConnections, outputs, list, hnode, htype, hslot, hmem⟩
  · rintro ⟨nodeConnections, outputs, list, hnode, htype, hslot, hmem⟩
    exact ⟨_, nodeConnections, hnode, _, outputs, htype, some list, _, hslot, _, hmem,
      rfl, rfl, rfl, rfl⟩

/-- Push empty inputs until there is one of the index, and the connection to it. -/
def addInput (inputs : NodeInputConnections) (index : ℤ) (connection : IConnection) :
    NodeInputConnections :=
  let inputs := inputs ++ List.replicate (index + 1 - inputs.length).toNat (some [])
  if 0 ≤ index then inputs.modify index.toNat (·.map (· ++ [connection])) else inputs

theorem length_addInput (inputs : NodeInputConnections) (index : ℤ) (connection : IConnection) :
    (addInput inputs index connection).length = max inputs.length (index + 1).toNat := by
  unfold addInput
  dsimp only
  split_ifs with h
  · rw [List.length_modify, List.length_append, List.length_replicate]
    omega
  · rw [List.length_append, List.length_replicate]
    omega

def addByDestination (returnConnection : IConnections) (c : OutputConnection) : IConnections :=
  let nodeConnections := (returnConnection.get? c.connection.node).getD ∅
  let inputs := (nodeConnections.get? c.connection.type).getD []
  returnConnection.set c.connection.node (nodeConnections.set c.connection.type
    (addInput inputs c.connection.index
      { node := c.sourceNode, type := c.type, index := c.outputIndex }))

def mapConnectionsByDestination (connections : IConnections) : IConnections :=
  (allConnections connections).foldl addByDestination ∅

/-- The inputs of one type of a node. -/
def inputsOf (connections : IConnections) (nodeName : String) (type : NodeConnectionType) :
    NodeInputConnections :=
  ((connections.get? nodeName).bind (·.get? type)).getD []

theorem inputsOf_addByDestination (connections : IConnections) (c : OutputConnection)
    (nodeName : String) (type : NodeConnectionType) :
    inputsOf (addByDestination connections c) nodeName type =
      if c.connection.node = nodeName ∧ c.connection.type = type then
        addInput (inputsOf connections nodeName type) c.connection.index
          { node := c.sourceNode, type := c.type, index := c.outputIndex }
      else inputsOf connections nodeName type := by
  unfold inputsOf addByDestination
  dsimp only
  rw [OrderedMap.get?_set]
  by_cases hnode : c.connection.node = nodeName
  · subst hnode
    rw [if_pos rfl, Option.bind_some, OrderedMap.get?_set]
    by_cases htype : c.connection.type = type
    · subst htype
      rw [if_pos rfl, if_pos ⟨rfl, rfl⟩]
      cases connections.get? c.connection.node <;> rfl
    · rw [if_neg htype, if_neg (fun h => htype h.2)]
      cases connections.get? c.connection.node <;> rfl
  · rw [if_neg hnode, if_neg (fun h => hnode h.1)]

theorem length_mapConnectionsByDestination_le {connections : IConnections} {nodeName : String}
    {type : NodeConnectionType} {k : ℕ}
    (h : ∀ c ∈ allConnections connections, c.connection.node = nodeName →
      c.connection.type = type → c.connection.index < k) :
    (inputsOf (mapConnectionsByDestination connections) nodeName type).length ≤ k := by
  have hfold : ∀ (cs : List OutputConnection) (m : IConnections), cs ⊆ allConnections connections →
      (inputsOf m nodeName type).length ≤ k →
      (inputsOf (cs.foldl addByDestination m) nodeName type).length ≤ k := by
    intro cs
    induction cs with
    | nil => exact fun m _ hm => hm
    | cons c cs ih =>
      intro m hsub hm
      refine ih _ (List.subset_of_cons_subset hsub) ?_
      rw [inputsOf_addByDestination]
      split_ifs with hc
      · have := h c (hsub List.mem_cons_self) hc.1 hc.2
        rw [length_addInput]
        omega
      · exact hm
  exact hfold _ ∅ (List.Subset.refl _) (Nat.zero_le _)

end N8n
