import N8n.Workflow.ConnectionsByDestination
import Mathlib.Data.List.Count
import Mathlib.Data.List.Sigma

/-!
# The destination index is an inverse

Going through the connections one after another, `mapConnectionsByDestination` appends each
to the slot of the input it leads to (`slotAt_addByDestination`). So a slot of the index lists
the connections to its input in the order of the loop (`slotAt_mapConnectionsByDestination`).
A connection is as often among all connections as in its slot (`count_allConnections`), which
makes the connections of the index those of the workflow turned round, with multiplicity.

Keys that hide or set a property every object inherits are left out.
-/

open Lib

namespace N8n

/-- The connections in a slot. -/
def slotAt (connections : IConnections) (nodeName : String) (type : NodeConnectionType)
    (index : ℕ) : List IConnection :=
  ((inputsOf connections nodeName type).getD index none).getD []

/-- The connection as it stands in the index. -/
def OutputConnection.turnedRound (c : OutputConnection) : OutputConnection where
  sourceNode := c.connection.node
  type := c.connection.type
  outputIndex := c.connection.index.toNat
  connection := { node := c.sourceNode, type := c.type, index := c.outputIndex }

/-- No connection is to an input with a negative index. -/
def HasInputIndexes (connections : IConnections) : Prop :=
  ∀ c ∈ allConnections connections, 0 ≤ c.connection.index

/-- No input of the index is `null`. -/
def HasNoNull (connections : IConnections) : Prop :=
  ∀ nodeName type, none ∉ inputsOf connections nodeName type

/-! ## Filling the slots -/

/-- Push empty inputs until there is one of the index. -/
def padded (inputs : NodeInputConnections) (index : ℤ) : NodeInputConnections :=
  inputs ++ List.replicate (index + 1 - inputs.length).toNat (some [])

variable {inputs : NodeInputConnections}

theorem none_notMem_padded (h : none ∉ inputs) (index : ℤ) :
    none ∉ padded inputs index := by
  simp [padded, h]

theorem getD_padded (inputs : NodeInputConnections) (index : ℤ) (i : ℕ) :
    ((padded inputs index).getD i none).getD [] = (inputs.getD i none).getD [] := by
  rw [List.getD_eq_getElem?_getD, List.getD_eq_getElem?_getD, padded, List.getElem?_append]
  split_ifs with hi
  · rfl
  · rw [List.getElem?_eq_none (Nat.le_of_not_lt hi), List.getElem?_replicate]
    split_ifs <;> rfl

theorem addInput_of_nonneg {index : ℤ} (hindex : 0 ≤ index) (connection : IConnection) :
    addInput inputs index connection =
      (padded inputs index).modify index.toNat (·.map (· ++ [connection])) :=
  if_pos hindex

theorem none_notMem_addInput (h : none ∉ inputs) {index : ℤ} (hindex : 0 ≤ index)
    (connection : IConnection) : none ∉ addInput inputs index connection := by
  rw [addInput_of_nonneg hindex]
  intro hmem
  obtain ⟨i, hi⟩ := List.mem_iff_getElem?.mp hmem
  rw [List.getElem?_modify] at hi
  obtain ⟨slot, hslot, hmap⟩ := Option.map_eq_some_iff.mp hi
  have hnone : slot = none := by
    split_ifs at hmap
    · exact Option.map_eq_none_iff.mp hmap
    · exact hmap
  rw [hnone] at hslot
  exact none_notMem_padded h index (List.mem_of_getElem? hslot)

theorem getD_addInput (h : none ∉ inputs) {index : ℤ} (hindex : 0 ≤ index)
    (connection : IConnection) (i : ℕ) :
    ((addInput inputs index connection).getD i none).getD [] =
      (inputs.getD i none).getD [] ++ if index = i then [connection] else [] := by
  rw [addInput_of_nonneg hindex, ← getD_padded inputs index, List.getD_eq_getElem?_getD,
    List.getD_eq_getElem?_getD, List.getElem?_modify]
  by_cases hi : index = i
  · subst hi
    have hlt : i < (padded inputs i).length := by
      rw [padded, List.length_append, List.length_replicate]
      omega
    rw [List.getElem?_eq_getElem hlt, Int.toNat_natCast, if_pos rfl]
    cases hslot : (padded inputs i)[i] with
    | none => exact absurd (hslot ▸ List.getElem_mem hlt) (none_notMem_padded h i)
    | some list => simp
  · have hne : index.toNat ≠ i := by omega
    simp [hi, hne]

/-! ## The slots of the index -/

/-- What a connection adds to a slot. -/
def slotPart? (nodeName : String) (type : NodeConnectionType) (index : ℕ) (c : OutputConnection) :
    Option IConnection :=
  if c.connection.node = nodeName ∧ c.connection.type = type ∧ c.connection.index = index then
    some c.turnedRound.connection
  else none

theorem hasNoNull_empty : HasNoNull ∅ := fun _ _ => by simp [inputsOf]

variable {connections : IConnections} {c : OutputConnection}

theorem HasNoNull.addByDestination (h : HasNoNull connections) (hindex : 0 ≤ c.connection.index) :
    HasNoNull (addByDestination connections c) := by
  intro nodeName type
  rw [inputsOf_addByDestination]
  split_ifs
  · exact none_notMem_addInput (h nodeName type) hindex _
  · exact h nodeName type

theorem slotAt_addByDestination (h : HasNoNull connections) (hindex : 0 ≤ c.connection.index)
    (nodeName : String) (type : NodeConnectionType) (index : ℕ) :
    slotAt (addByDestination connections c) nodeName type index =
      slotAt connections nodeName type index ++ (slotPart? nodeName type index c).toList := by
  rw [slotAt, inputsOf_addByDestination]
  by_cases hinput : c.connection.node = nodeName ∧ c.connection.type = type
  · obtain ⟨rfl, rfl⟩ := hinput
    rw [if_pos ⟨rfl, rfl⟩, getD_addInput (h _ _) hindex, slotAt, slotPart?]
    split_ifs <;> simp_all [OutputConnection.turnedRound]
  · have hnone : slotPart? nodeName type index c = none :=
      if_neg fun hall => hinput ⟨hall.1, hall.2.1⟩
    rw [if_neg hinput, hnone, Option.toList_none, List.append_nil, slotAt]

/-- A slot of the index lists the connections to its input. -/
theorem slotAt_mapConnectionsByDestination (h : HasInputIndexes connections) (nodeName : String)
    (type : NodeConnectionType) (index : ℕ) :
    slotAt (mapConnectionsByDestination connections) nodeName type index =
      (allConnections connections).filterMap (slotPart? nodeName type index) := by
  have hfold : ∀ (cs : List OutputConnection) (m : IConnections), HasNoNull m →
      (∀ c ∈ cs, 0 ≤ c.connection.index) →
      slotAt (cs.foldl addByDestination m) nodeName type index =
        slotAt m nodeName type index ++ cs.filterMap (slotPart? nodeName type index) := by
    intro cs
    induction cs with
    | nil => simp
    | cons c cs ih =>
      intro m hm hcs
      have hc := hcs c List.mem_cons_self
      rw [List.foldl_cons, ih _ (hm.addByDestination hc) fun d hd => hcs d (List.mem_cons_of_mem _ hd),
        slotAt_addByDestination hm hc, List.append_assoc]
      cases hentry : slotPart? nodeName type index c <;> simp [hentry]
  rw [mapConnectionsByDestination, hfold _ ∅ hasNoNull_empty h]
  simp [slotAt, inputsOf]

/-! ## With multiplicity -/

/-- A value only one element of the list contributes is in the whole as often as there. -/
theorem count_flatMap_of_unique {α β : Type} [DecidableEq β] {l : List α} {f : α → List β} {a : α}
    {b : β} (hnodup : l.Nodup) (ha : a ∈ l) (h : ∀ a' ∈ l, b ∈ f a' → a' = a) :
    (l.flatMap f).count b = (f a).count b := by
  induction l with
  | nil => cases ha
  | cons x l ih =>
    obtain ⟨hx, hnodup⟩ := List.nodup_cons.mp hnodup
    rw [List.flatMap_cons, List.count_append]
    by_cases hxa : x = a
    · subst hxa
      have hrest : (l.flatMap f).count b = 0 := by
        refine List.count_eq_zero.mpr fun hmem => ?_
        obtain ⟨y, hy, hb⟩ := List.mem_flatMap.mp hmem
        exact hx (h y (List.mem_cons_of_mem _ hy) hb ▸ hy)
      omega
    · have hfirst : (f x).count b = 0 :=
        List.count_eq_zero.mpr fun hmem => hxa (h x List.mem_cons_self hmem)
      have hrest := ih hnodup ((List.mem_cons.mp ha).resolve_left (Ne.symm hxa))
        fun y hy => h y (List.mem_cons_of_mem _ hy)
      omega

theorem slotAt_eq {nodeName : String} {type : NodeConnectionType} {index : ℕ}
    {nodeConnections : INodeConnections} {outputs : NodeInputConnections}
    {list : List IConnection} (hnode : connections.get? nodeName = some nodeConnections)
    (htype : nodeConnections.get? type = some outputs)
    (hslot : outputs[index]? = some (some list)) :
    slotAt connections nodeName type index = list := by
  simp [slotAt, inputsOf, hnode, htype, hslot]

theorem mem_slotAt :
    c.connection ∈ slotAt connections c.sourceNode c.type c.outputIndex ↔
      c ∈ allConnections connections := by
  rw [mem_allConnections]
  constructor
  · intro h
    unfold slotAt inputsOf at h
    cases hnode : connections.get? c.sourceNode with
    | none => simp [hnode] at h
    | some nodeConnections =>
      cases htype : nodeConnections.get? c.type with
      | none => simp [hnode, htype] at h
      | some outputs =>
        cases hslot : outputs[c.outputIndex]? with
        | none => simp [hnode, htype, hslot] at h
        | some slot =>
          cases slot with
          | none => simp [hnode, htype, hslot] at h
          | some list =>
            exact ⟨nodeConnections, outputs, list, rfl, htype, hslot,
              by simpa [hnode, htype, hslot] using h⟩
  · rintro ⟨nodeConnections, outputs, list, hnode, htype, hslot, hmem⟩
    rwa [slotAt_eq hnode htype hslot]

/-- A connection is as often among all connections as it is in its slot. -/
theorem count_allConnections (connections : IConnections) (c : OutputConnection) :
    (allConnections connections).count c =
      (slotAt connections c.sourceNode c.type c.outputIndex).count c.connection := by
  by_cases hmem : c ∈ allConnections connections
  swap
  · rw [List.count_eq_zero.mpr hmem, List.count_eq_zero.mpr fun h => hmem (mem_slotAt.mp h)]
  obtain ⟨nodeConnections, outputs, list, hnode, htype, hslot, -⟩ := mem_allConnections.mp hmem
  obtain ⟨sourceNode, type, outputIndex, connection⟩ := c
  -- only one node, one type and one output make connections with these
  rw [slotAt_eq hnode htype hslot, allConnections,
    count_flatMap_of_unique (a := (sourceNode, nodeConnections))
      (nodup_keys_objectEntries _).of_map (mem_objectEntries.mpr hnode),
    count_flatMap_of_unique (a := (type, outputs))
      nodeConnections.nodup_entries (OrderedMap.mem_entries_iff.mpr htype),
    count_flatMap_of_unique (a := (some list, outputIndex))
      (List.nodup_zipIdx_map_snd outputs).of_map (List.mem_zipIdx_iff_getElem?.mpr hslot)]
  · exact List.count_map_of_injective list _ (fun _ _ h => (OutputConnection.mk.inj h).2.2.2) connection
  · rintro ⟨slot, index⟩ hentry hc
    obtain ⟨connection', -, heq⟩ := List.mem_map.mp hc
    obtain rfl : index = outputIndex := (OutputConnection.mk.inj heq).2.2.1
    obtain rfl : slot = some list :=
      Option.some.inj ((List.mem_zipIdx_iff_getElem?.mp hentry).symm.trans hslot)
    rfl
  · rintro ⟨type', outputs'⟩ hentry hc
    obtain ⟨⟨slot, index⟩, -, hc⟩ := List.mem_flatMap.mp hc
    obtain ⟨connection', -, heq⟩ := List.mem_map.mp hc
    obtain rfl : type' = type := (OutputConnection.mk.inj heq).2.1
    rw [OrderedMap.mem_entries_iff.mp hentry] at htype
    rw [Option.some.inj htype]
  · rintro ⟨sourceNode', nodeConnections'⟩ hentry hc
    obtain ⟨⟨type', outputs'⟩, -, hc⟩ := List.mem_flatMap.mp hc
    obtain ⟨⟨slot, index⟩, -, hc⟩ := List.mem_flatMap.mp hc
    obtain ⟨connection', -, heq⟩ := List.mem_map.mp hc
    obtain rfl : sourceNode' = sourceNode := (OutputConnection.mk.inj heq).1
    rw [mem_objectEntries.mp hentry] at hnode
    rw [Option.some.inj hnode]

/-- What a connection adds to a slot is the connection turned round. -/
theorem slotPart?_eq_some_iff {d : OutputConnection} (hindex : 0 ≤ c.connection.index) :
    slotPart? d.sourceNode d.type d.outputIndex c = some d.connection ↔ c.turnedRound = d := by
  obtain ⟨sourceNode, type, outputIndex, connection⟩ := d
  have hnat : c.connection.index = outputIndex ↔ c.connection.index.toNat = outputIndex := by omega
  simp only [slotPart?, OutputConnection.turnedRound, OutputConnection.mk.injEq, hnat]
  split_ifs with hinput
  · simp [hinput]
  · exact iff_of_false (by simp) fun h => hinput ⟨h.1, h.2.1, h.2.2.1⟩

/-- The connections of the index are those of the workflow turned round. -/
theorem perm_mapConnectionsByDestination (h : HasInputIndexes connections) :
    (allConnections (mapConnectionsByDestination connections)).Perm
      ((allConnections connections).map OutputConnection.turnedRound) := by
  refine List.perm_iff_count.mpr fun d => ?_
  rw [count_allConnections, slotAt_mapConnectionsByDestination h, List.count_filterMap,
    List.count_eq_countP, List.countP_map]
  refine List.countP_congr fun c hc => ?_
  simpa using slotPart?_eq_some_iff (h c hc)

theorem turnedRound_turnedRound (hindex : 0 ≤ c.connection.index) :
    c.turnedRound.turnedRound = c := by
  obtain ⟨sourceNode, type, outputIndex, node, inputType, index⟩ := c
  simp [OutputConnection.turnedRound, Int.toNat_of_nonneg hindex]

theorem hasInputIndexes_mapConnectionsByDestination (h : HasInputIndexes connections) :
    HasInputIndexes (mapConnectionsByDestination connections) := by
  intro d hd
  obtain ⟨c, -, rfl⟩ := List.mem_map.mp ((perm_mapConnectionsByDestination h).mem_iff.mp hd)
  exact Int.natCast_nonneg _

/-- The index has one entry for each connection, at the input it leads to, and no other; the
index of the index has the connections of the workflow. -/
theorem mapConnectionsByDestination_inverse {connections : IConnections}
    (h : HasInputIndexes connections) :
    (∀ nodeName type index, slotAt (mapConnectionsByDestination connections) nodeName type index =
        (allConnections connections).filterMap (slotPart? nodeName type index)) ∧
      (allConnections (mapConnectionsByDestination connections)).Perm
        ((allConnections connections).map OutputConnection.turnedRound) ∧
      (allConnections (mapConnectionsByDestination (mapConnectionsByDestination connections))).Perm
        (allConnections connections) := by
  refine ⟨slotAt_mapConnectionsByDestination h, perm_mapConnectionsByDestination h, ?_⟩
  have htwice : ((allConnections connections).map OutputConnection.turnedRound).map
      OutputConnection.turnedRound = allConnections connections := by
    rw [List.map_map]
    exact (List.map_congr_left fun c hc => turnedRound_turnedRound (h c hc)).trans (List.map_id _)
  refine (perm_mapConnectionsByDestination (hasInputIndexes_mapConnectionsByDestination h)).trans ?_
  exact ((perm_mapConnectionsByDestination h).map _).trans (List.Perm.of_eq htwice)

/-- `Trigger` leads to both inputs of `Merge`, and nothing is on its second output. -/
def mergeConnections : IConnections :=
  (∅ : IConnections).set "Trigger" ((∅ : INodeConnections).set .main
    [some [⟨"Merge", .main, 1⟩], none, some [⟨"Merge", .main, 0⟩]])

theorem mapConnectionsByDestination_inverse_merge :
    (allConnections (mapConnectionsByDestination (mapConnectionsByDestination
      mergeConnections))).Perm (allConnections mergeConnections) := by
  have hindexes : HasInputIndexes mergeConnections := by
    unfold HasInputIndexes
    decide
  exact (mapConnectionsByDestination_inverse hindexes).2.2

end N8n
