import N8n.Lib.OrderedSet
import N8n.Lib.Run
import N8n.Workflow.ConnectionsByDestination

/-!
# Differences of connections

`compareConnections` compares the connections of two versions of a workflow slot by slot :
by source node, type and output index. Two connections are the same if their JSON texts
are, here if they are equal.

What is added or removed is collected in plain objects by node name. An entry of a node
named like a member of `Object.prototype` is put on the inherited value of the member and
not in the collection, so nothing counts as removed exactly when the later version has
every connection of the other nodes (`removed_compareConnections_iff`). What later
comparisons see of the values put there is left out.
-/

open Lib

namespace N8n

/-- A connection that differs, with its position in the list of its slot. -/
structure ConnectionEntry where
  sourceIndex : ℕ
  index : ℕ
  connection : IConnection
  deriving DecidableEq, Repr

abbrev INodeConnectionsDiff := OrderedMap NodeConnectionType (List ConnectionEntry)

structure ConnectionsDiff where
  added : OrderedMap String INodeConnectionsDiff := ∅
  removed : OrderedMap String INodeConnectionsDiff := ∅

/-- The connections of a slot, each with its last position. -/
def connectionMap (connections : List IConnection) : OrderedMap IConnection ℕ :=
  connections.zipIdx.foldl (fun m (conn, idx) => m.set conn idx) ∅

/-- The entries of the first map that are missing in the second. -/
def missingConnections (sourceIndex : ℕ) (map other : OrderedMap IConnection ℕ) :
    List ConnectionEntry :=
  (map.entries.filter fun (key, _) => !other.has key).map fun (connection, index) =>
    { sourceIndex, index, connection }

/-- `record[nodeName][inputName].push(entry)`, where both are created if they are missing. An
inherited member is not missing. -/
def pushEntry (nodeName : String) (inputName : NodeConnectionType)
    (record : OrderedMap String INodeConnectionsDiff) (entry : ConnectionEntry) :
    OrderedMap String INodeConnectionsDiff :=
  match record.get? nodeName with
  | some inputs =>
    record.set nodeName (inputs.set inputName ((inputs.get? inputName).getD [] ++ [entry]))
  | none =>
    if nodeName ∈ objectPrototypeKeys then record
    else record.set nodeName ((∅ : INodeConnectionsDiff).set inputName [entry])

/-- `inputConnections[sourceIndex] ?? []` -/
def slotConnections (inputConnections : NodeInputConnections) (sourceIndex : ℕ) :
    List IConnection :=
  (inputConnections.getD sourceIndex none).getD []

def compareSource (nodeName : String) (inputName : NodeConnectionType)
    (prevInputConnections nextInputConnections : NodeInputConnections) (diff : ConnectionsDiff)
    (sourceIndex : ℕ) : ConnectionsDiff :=
  let prevMap := connectionMap (slotConnections prevInputConnections sourceIndex)
  let nextMap := connectionMap (slotConnections nextInputConnections sourceIndex)
  { added := (missingConnections sourceIndex nextMap prevMap).foldl
      (pushEntry nodeName inputName) diff.added
    removed := (missingConnections sourceIndex prevMap nextMap).foldl
      (pushEntry nodeName inputName) diff.removed }

def compareInput (nodeName : String) (prevNodeConnections nextNodeConnections : INodeConnections)
    (diff : ConnectionsDiff) (inputName : NodeConnectionType) : ConnectionsDiff :=
  let prevInputConnections := (prevNodeConnections.get? inputName).getD []
  let nextInputConnections := (nextNodeConnections.get? inputName).getD []
  let maxLength := max prevInputConnections.length nextInputConnections.length
  (List.range maxLength).foldl
    (compareSource nodeName inputName prevInputConnections nextInputConnections) diff

/-- An inherited member has no keys of its own. -/
def compareNode (prev next : IConnections) (diff : ConnectionsDiff) (nodeName : String) :
    ConnectionsDiff :=
  let prevNodeConnections := (prev.get? nodeName).getD ∅
  let nextNodeConnections := (next.get? nodeName).getD ∅
  let allInputNames := OrderedSet.ofList (prevNodeConnections.keys ++ nextNodeConnections.keys)
  allInputNames.elems.foldl (compareInput nodeName prevNodeConnections nextNodeConnections) diff

def compareConnections (prev next : IConnections) : ConnectionsDiff :=
  let allNodeNames := OrderedSet.ofList (prev.keys ++ next.keys)
  allNodeNames.elems.foldl (compareNode prev next) {}

/-! ## What is removed -/

theorem pushEntry_keys_eq_nil_iff {nodeName : String} {inputName : NodeConnectionType}
    {record : OrderedMap String INodeConnectionsDiff} {entry : ConnectionEntry} :
    (pushEntry nodeName inputName record entry).keys = [] ↔
      record.keys = [] ∧ nodeName ∈ objectPrototypeKeys := by
  have hset : ∀ inputs, (record.set nodeName inputs).keys ≠ [] := fun inputs =>
    List.ne_nil_of_mem (OrderedMap.mem_keys_set.mpr (Or.inl rfl))
  unfold pushEntry
  cases hget : record.get? nodeName with
  | some inputs =>
    have hkeys : record.keys ≠ [] :=
      List.ne_nil_of_mem (OrderedMap.mem_keys_iff.mpr ⟨inputs, hget⟩)
    exact iff_of_false (hset _) fun h => hkeys h.1
  | none =>
    dsimp only
    split
    · rename_i hname
      exact (and_iff_left hname).symm
    · rename_i hname
      exact iff_of_false (hset _) fun h => hname h.2

theorem mem_keys_connectionMap {connections : List IConnection} {c : IConnection} :
    c ∈ (connectionMap connections).keys ↔ c ∈ connections := by
  have hfold : ∀ (l : List (IConnection × ℕ)) (m : OrderedMap IConnection ℕ),
      c ∈ (l.foldl (fun m (conn, idx) => m.set conn idx) m).keys ↔
        c ∈ m.keys ∨ c ∈ l.map Prod.fst := by
    intro l
    induction l with
    | nil => simp
    | cons x l ih =>
      intro m
      rw [List.foldl_cons, ih, OrderedMap.mem_keys_set, List.map_cons, List.mem_cons, ← or_assoc,
        or_comm (a := c = x.1)]
  rw [connectionMap, hfold, List.zipIdx_map_fst]
  simp

theorem compareSource_removed_iff {nodeName : String} {inputName : NodeConnectionType}
    {prevInput nextInput : NodeInputConnections} {diff : ConnectionsDiff} {sourceIndex : ℕ} :
    (compareSource nodeName inputName prevInput nextInput diff sourceIndex).removed.keys = [] ↔
      diff.removed.keys = [] ∧ ∀ c ∈ slotConnections prevInput sourceIndex,
        c ∉ slotConnections nextInput sourceIndex → nodeName ∈ objectPrototypeKeys := by
  refine (foldl_iff (P := fun record : OrderedMap String INodeConnectionsDiff => record.keys = [])
    (fun _ _ _ => pushEntry_keys_eq_nil_iff) diff.removed).trans (and_congr_right fun _ => ?_)
  constructor
  · intro h c hc hcn
    obtain ⟨i, hi⟩ := OrderedMap.mem_keys_iff.mp (mem_keys_connectionMap.mpr hc)
    refine h ⟨sourceIndex, i, c⟩ (List.mem_map.mpr ⟨(c, i), List.mem_filter.mpr ⟨?_, ?_⟩, rfl⟩)
    · exact OrderedMap.mem_entries_iff.mpr hi
    · have hnot := mt OrderedMap.has_iff.mp (mt mem_keys_connectionMap.mp hcn)
      simpa using hnot
  · intro h entry hentry
    obtain ⟨⟨c, i⟩, hmem, -⟩ := List.mem_map.mp hentry
    obtain ⟨hmem, hnot⟩ := List.mem_filter.mp hmem
    have hc : c ∈ slotConnections prevInput sourceIndex := mem_keys_connectionMap.mp
      (OrderedMap.mem_keys_iff.mpr ⟨i, OrderedMap.mem_entries_iff.mp hmem⟩)
    refine h c hc fun hcn => ?_
    have hhas := OrderedMap.has_iff.mpr (mem_keys_connectionMap.mpr hcn)
    simp [hhas] at hnot

theorem slotConnections_eq_nil {inputConnections : NodeInputConnections} {sourceIndex : ℕ}
    (h : inputConnections.length ≤ sourceIndex) :
    slotConnections inputConnections sourceIndex = [] := by
  rw [slotConnections, List.getD_eq_getElem?_getD, List.getElem?_eq_none h]
  rfl

theorem compareInput_removed_iff {nodeName : String} {prevNode nextNode : INodeConnections}
    {diff : ConnectionsDiff} {inputName : NodeConnectionType} :
    (compareInput nodeName prevNode nextNode diff inputName).removed.keys = [] ↔
      diff.removed.keys = [] ∧ ∀ sourceIndex,
        ∀ c ∈ slotConnections ((prevNode.get? inputName).getD []) sourceIndex,
          c ∉ slotConnections ((nextNode.get? inputName).getD []) sourceIndex →
            nodeName ∈ objectPrototypeKeys := by
  refine (foldl_iff (P := fun d : ConnectionsDiff => d.removed.keys = [])
    (f := compareSource nodeName inputName ((prevNode.get? inputName).getD [])
      ((nextNode.get? inputName).getD []))
    (fun _ _ _ => compareSource_removed_iff) diff).trans ?_
  refine and_congr_right fun _ => ⟨fun h sourceIndex c hc => ?_, fun h sourceIndex _ => h sourceIndex⟩
  refine h sourceIndex (List.mem_range.mpr ?_) c hc
  by_contra hge
  rw [slotConnections_eq_nil (by omega)] at hc
  cases hc

/-- The connections of a slot. -/
def connectionsAt (connections : IConnections) (nodeName : String) (inputName : NodeConnectionType)
    (sourceIndex : ℕ) : List IConnection :=
  slotConnections ((((connections.get? nodeName).getD ∅).get? inputName).getD []) sourceIndex

theorem compareNode_removed_iff {prev next : IConnections} {diff : ConnectionsDiff}
    {nodeName : String} :
    (compareNode prev next diff nodeName).removed.keys = [] ↔
      diff.removed.keys = [] ∧ ∀ inputName sourceIndex,
        ∀ c ∈ connectionsAt prev nodeName inputName sourceIndex,
          c ∉ connectionsAt next nodeName inputName sourceIndex →
            nodeName ∈ objectPrototypeKeys := by
  refine (foldl_iff (P := fun d : ConnectionsDiff => d.removed.keys = [])
    (f := compareInput nodeName ((prev.get? nodeName).getD ∅) ((next.get? nodeName).getD ∅))
    (fun _ _ _ => compareInput_removed_iff) diff).trans ?_
  refine and_congr_right fun _ => ⟨fun h inputName => ?_, fun h inputName _ => h inputName⟩
  intro sourceIndex c hc
  refine h inputName (OrderedSet.mem_ofList.mpr (List.mem_append_left _ ?_)) sourceIndex c hc
  by_contra hkey
  rw [connectionsAt, OrderedMap.get?_eq_none_iff.mpr hkey] at hc
  cases hc

theorem mem_connectionsAt {connections : IConnections} {c : OutputConnection} :
    c.connection ∈ connectionsAt connections c.sourceNode c.type c.outputIndex ↔
      c ∈ allConnections connections := by
  rw [mem_allConnections, connectionsAt, slotConnections]
  cases hnode : connections.get? c.sourceNode with
  | none => simp
  | some nodeConnections =>
    cases htype : nodeConnections.get? c.type with
    | none => simp [htype]
    | some outputs =>
      cases hslot : outputs[c.outputIndex]? with
      | none => simp [htype, hslot]
      | some slot => cases slot <;> simp [htype, hslot]

/-- Nothing counts as removed exactly when the later version has all connections but those
of nodes named like an inherited member. -/
theorem removed_compareConnections_iff {prev next : IConnections} :
    (compareConnections prev next).removed.keys = [] ↔
      ∀ c ∈ allConnections prev, c ∉ allConnections next → c.sourceNode ∈ objectPrototypeKeys := by
  refine (foldl_iff (P := fun d : ConnectionsDiff => d.removed.keys = [])
    (f := compareNode prev next) (fun _ _ _ => compareNode_removed_iff) {}).trans ?_
  constructor
  · rintro ⟨-, h⟩ c hc hcn
    obtain ⟨nodeConnections, -, -, hnode, -⟩ := mem_allConnections.mp hc
    have hname := OrderedMap.mem_keys_iff.mpr ⟨nodeConnections, hnode⟩
    exact h c.sourceNode (OrderedSet.mem_ofList.mpr (List.mem_append_left _ hname)) c.type
      c.outputIndex c.connection (mem_connectionsAt.mpr hc) (mt mem_connectionsAt.mp hcn)
  · intro h
    refine ⟨rfl, fun nodeName _ inputName sourceIndex c hc hcn => ?_⟩
    let d : OutputConnection :=
      { sourceNode := nodeName, type := inputName, outputIndex := sourceIndex, connection := c }
    exact h d (mem_connectionsAt.mp hc) (mt mem_connectionsAt.mpr hcn)

end N8n
