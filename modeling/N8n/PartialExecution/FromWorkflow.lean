import N8n.Lib.Separator
import N8n.PartialExecution.WorkflowFormat
import N8n.Workflow.Workflow

/-!
# Importing a workflow

`fromWorkflow` adds the connections of a workflow one after another. The graph keeps them
under a key that joins the name of the source, the type, the indexes and the name of the
target with `-`, a character the names may contain, so that different connections can have
one key; the one added last stays.

`makeKey_eq_iff` : two connections have one key when they are the same, or when they
overlap : the source of the one is named like the beginning of the key of the other, and the
target of that one like the end of the key of the first. The import keeps all connections
just in case no two of them overlap (`fromWorkflow_keepsConnections_iff`).
-/

open Lib

namespace N8n

/-! ## Keys -/

/-- The part of the key between the two names. -/
def GraphConnection.link (c : GraphConnection) : String :=
  c.type.toKey ++ "-" ++ toString c.outputIndex ++ "-" ++ toString c.inputIndex

/-- The source of `d` is named like the beginning of the key of `c`, the target of `c` like
the end of the key of `d`, and the names may share a text in between. -/
def Overlap (c d : GraphConnection) : Prop :=
  (d.from.name = c.from.name ++ "-" ++ c.link ∧ c.to.name = d.link ++ "-" ++ d.to.name) ∨
    ∃ text, d.from.name = c.from.name ++ "-" ++ c.link ++ "-" ++ text ∧
      c.to.name = text ++ "-" ++ d.link ++ "-" ++ d.to.name

section Keys

variable {c d : GraphConnection}

theorem toList_makeKey :
    (makeKey c).toList = c.from.name.toList ++ '-' :: (c.link.toList ++ '-' :: c.to.name.toList) := by
  simp [makeKey, GraphConnection.link]

/-- A connection type is a word without `-` that begins with a letter. -/
theorem toList_toKey (type : NodeConnectionType) :
    '-' ∉ type.toKey.toList ∧
      ∃ letter rest, type.toKey.toList = letter :: rest ∧ letter.isDigit = false ∧ letter ≠ '-' := by
  cases type <;> exact ⟨by decide, _, _, rfl, by decide, by decide⟩

theorem toKey_injective : Function.Injective NodeConnectionType.toKey := by
  intro type type' h
  cases type <;> cases type' <;> first | rfl | exact absurd h (by decide)

theorem toList_link :
    c.link.toList = c.type.toKey.toList ++
      '-' :: ((toString c.outputIndex).toList ++ '-' :: (toString c.inputIndex).toList) := by
  simp [GraphConnection.link]

/-- The part between the names can be told from the name that follows. -/
theorem link_inj {u v : List Char} (h : c.link.toList ++ '-' :: u = d.link.toList ++ '-' :: v) :
    (c.type = d.type ∧ c.outputIndex = d.outputIndex ∧ c.inputIndex = d.inputIndex) ∧ u = v := by
  simp only [toList_link, List.append_assoc, List.cons_append] at h
  obtain ⟨htype, h⟩ := append_cons_inj h (toList_toKey _).1 (toList_toKey _).1
  obtain ⟨houtput, h⟩ := append_cons_inj h (notMem_natToString _) (notMem_natToString _)
  obtain ⟨hinput, huv⟩ := append_cons_intToString_inj h
  exact ⟨⟨toKey_injective (String.toList_inj.mp htype), natToString_inj.mp houtput, hinput⟩, huv⟩

/-- The part between the names does not begin inside such a part : there are only digits and
signs after a `-` in it. -/
theorem link_ne_of_inside {r s u v : List Char} (hr : c.link.toList = r ++ '-' :: s) :
    d.link.toList ++ u ≠ s ++ '-' :: v := by
  intro h
  obtain ⟨-, letter, rest, htype, hdigit, hminus⟩ := toList_toKey d.type
  rw [toList_link, htype, List.cons_append, List.cons_append] at h
  have hsuffix : s <:+ (toString c.outputIndex).toList ++ '-' :: (toString c.inputIndex).toList :=
    suffix_of_append_cons (toList_link.symm.trans hr) (toList_toKey _).1
  cases s with
  | nil => exact hminus (List.cons.inj h).1
  | cons a s =>
    rw [List.cons_append] at h
    have hmem := hsuffix.subset (List.mem_cons_self (a := a) (l := s))
    rw [← (List.cons.inj h).1, List.mem_append, List.mem_cons] at hmem
    rcases hmem with hmem | rfl | hmem
    · simp [isDigit_of_mem_natToString hmem] at hdigit
    · exact hminus rfl
    · rcases isDigit_or_eq_of_mem_intToString hmem with h' | rfl
      · simp [h'] at hdigit
      · exact hminus rfl

theorem makeKey_eq_of_overlap (h : Overlap c d) : makeKey c = makeKey d := by
  rw [← String.toList_inj, toList_makeKey, toList_makeKey]
  rcases h with ⟨hfrom, hto⟩ | ⟨text, hfrom, hto⟩
  · simp [hfrom, hto]
  · simp [hfrom, hto]

/-- Connections with one key overlap, if the name of the one source is shorter. -/
theorem overlap_of_makeKey_eq (h : makeKey c = makeKey d)
    (hlen : c.from.name.toList.length < d.from.name.toList.length) : Overlap c d := by
  rw [← String.toList_inj, toList_makeKey, toList_makeKey] at h
  obtain ⟨r, hfrom, hrest⟩ : ∃ r, d.from.name.toList = c.from.name.toList ++ '-' :: r ∧
      c.link.toList ++ '-' :: c.to.name.toList =
        r ++ '-' :: (d.link.toList ++ '-' :: d.to.name.toList) := by
    rcases List.append_eq_append_iff.mp h with ⟨as, hfrom, hrest⟩ | ⟨bs, hfrom, -⟩
    · cases as with
      | nil => simp [hfrom] at hlen
      | cons a as =>
        obtain ⟨rfl, hrest'⟩ := List.cons.inj hrest
        exact ⟨as, hfrom, hrest'⟩
    · simp [hfrom] at hlen
  have hend : ∀ {s : List Char}, '-' :: c.to.name.toList =
      s ++ '-' :: (d.link.toList ++ '-' :: d.to.name.toList) → r = c.link.toList ++ s →
      Overlap c d := by
    intro s hto hr
    subst hr
    cases s with
    | nil =>
      refine Or.inl ⟨?_, ?_⟩
      · simp [← String.toList_inj, hfrom]
      · simp [← String.toList_inj, (List.cons.inj hto).2]
    | cons a s =>
      obtain ⟨rfl, hto'⟩ := List.cons.inj hto
      refine Or.inr ⟨String.ofList s, ?_, ?_⟩
      · simp [← String.toList_inj, hfrom]
      · simpa [← String.toList_inj] using hto'
  rcases List.append_eq_append_iff.mp hrest with ⟨as, hr, hto⟩ | ⟨bs, hlink, hto⟩
  · exact hend hto hr
  · cases bs with
    | nil => exact hend (s := []) (by simpa using hto.symm) (by simpa using hlink.symm)
    | cons b bs =>
      obtain ⟨rfl, hto'⟩ := List.cons.inj hto
      exact absurd hto' (link_ne_of_inside hlink)

/-- The same names, type and indexes. -/
structure SameTuple (c d : GraphConnection) : Prop where
  source : c.from.name = d.from.name
  type : c.type = d.type
  outputIndex : c.outputIndex = d.outputIndex
  inputIndex : c.inputIndex = d.inputIndex
  target : c.to.name = d.to.name

/-- When two connections have one key. -/
theorem makeKey_eq_iff : makeKey c = makeKey d ↔ SameTuple c d ∨ Overlap c d ∨ Overlap d c := by
  constructor
  · intro h
    rcases lt_trichotomy c.from.name.toList.length d.from.name.toList.length with hlen | hlen | hlen
    · exact Or.inr (Or.inl (overlap_of_makeKey_eq h hlen))
    · left
      rw [← String.toList_inj, toList_makeKey, toList_makeKey] at h
      obtain ⟨hfrom, hrest⟩ := List.append_inj h hlen
      obtain ⟨⟨htype, houtput, hinput⟩, hto⟩ := link_inj (List.cons.inj hrest).2
      exact ⟨String.toList_inj.mp hfrom, htype, houtput, hinput, String.toList_inj.mp hto⟩
    · exact Or.inr (Or.inr (overlap_of_makeKey_eq h.symm hlen))
  · rintro (h | h | h)
    · simp only [makeKey, h.source, h.type, h.outputIndex, h.inputIndex, h.target]
    · exact makeKey_eq_of_overlap h
    · exact (makeKey_eq_of_overlap h).symm

/-- Overlapping connections have different sources. -/
theorem Overlap.not_sameTuple (h : Overlap c d) : ¬SameTuple c d := by
  intro hsame
  have hlen := congrArg (fun s => s.toList.length) hsame.source
  rcases h with ⟨hfrom, -⟩ | ⟨text, hfrom, -⟩ <;> simp [hfrom] at hlen

end Keys

namespace DirectedGraph

/-! ## The import -/

/-- `nodeMap` of `fromNodesAndConnections` is `workflow.getNode` here. -/
def fromWorkflow (workflow : Workflow) : Except GraphError DirectedGraph :=
  let graph := (∅ : DirectedGraph).addNodes ((objectEntries workflow.nodes).map Prod.snd)
  (objectEntries workflow.connectionsBySourceNode).foldlM (importNode workflow.nodes) graph

/-- The connection is one of the workflow. -/
def ConnectionOf (workflow : Workflow) (c : GraphConnection) : Prop :=
  ∃ conn, Lists workflow.connectionsBySourceNode c.from.name c.type c.outputIndex conn ∧
    workflow.getNode c.from.name = some c.from ∧ workflow.getNode conn.node = some c.to ∧
    conn.index = c.inputIndex

/-- The connections of the workflow refer to its nodes. -/
structure RefersToNodes (workflow : Workflow) : Prop where
  sources : ∀ name ∈ workflow.connectionsBySourceNode.keys, (workflow.getNode name).isSome
  targets : ∀ m ∈ workflow.connectionsBySourceNode.values, ∀ outputs ∈ m.values,
    ∀ conns ∈ outputs, ∀ conn ∈ conns.getD [], (workflow.getNode conn.node).isSome

variable {workflow : Workflow}

theorem RefersToNodes.exists_target (hw : RefersToNodes workflow) {name : String}
    {type : NodeConnectionType} {i : ℕ} {conn : IConnection}
    (h : Lists workflow.connectionsBySourceNode name type i conn) :
    ∃ n, workflow.getNode conn.node = some n := by
  obtain ⟨m, outputs, conns, hm, hout, hconns, hconn⟩ := h
  have hmem : some conns ∈ outputs := by
    rw [List.getD_eq_getElem?_getD] at hconns
    cases ho : outputs[i]? with
    | none =>
      rw [ho] at hconns
      cases hconns
    | some output =>
      rw [ho] at hconns
      exact hconns ▸ List.mem_of_getElem? ho
  exact Option.isSome_iff_exists.mp (hw.targets m (OrderedMap.mem_values_iff.mpr ⟨name, hm⟩)
    outputs (OrderedMap.mem_values_iff.mpr ⟨type, hout⟩) _ hmem conn hconn)

/-- Connections of a workflow with the same tuple are the same. -/
theorem ConnectionOf.eq_of_sameTuple {c d : GraphConnection} (hc : ConnectionOf workflow c)
    (hd : ConnectionOf workflow d) (h : SameTuple c d) : c = d := by
  obtain ⟨conn, -, hcf, hct, -⟩ := hc
  obtain ⟨conn', -, hdf, hdt, -⟩ := hd
  have hto : conn.node = conn'.node := by
    rw [← workflow.name_of_get? hct, ← workflow.name_of_get? hdt, h.target]
  rw [h.source, hdf, Option.some.injEq] at hcf
  rw [hto, hdt, Option.some.injEq] at hct
  cases c
  cases d
  obtain ⟨-, rfl, rfl, rfl, -⟩ := h
  simp_all

/-- The graph has the nodes of the workflow, and only connections of the workflow. -/
structure Imports (workflow : Workflow) (graph : DirectedGraph) : Prop where
  nodes : ∀ n, workflow.getNode n.name = some n ↔ graph.HasNode n
  connections : ∀ c ∈ graph.getConnections, ConnectionOf workflow c

/-- Between such graphs the step succeeds and adds the keys that satisfy `P`. -/
def AddsKeys (workflow : Workflow) (P : String → Prop)
    (step : DirectedGraph → Except GraphError DirectedGraph) : Prop :=
  Collects (Imports workflow) (fun graph k => k ∈ graph.connections.keys) step P

theorem addsKeys_addConnection {c : GraphConnection} (hc : ConnectionOf workflow c) :
    AddsKeys workflow (· = makeKey c) (fun graph => graph.addConnection c) := by
  intro graph hgraph
  obtain ⟨conn, -, hfrom, hto, -⟩ := id hc
  have hfrom' : graph.HasNode c.from := (hgraph.nodes _).mp hfrom
  have hto' : graph.HasNode c.to :=
    (hgraph.nodes _).mp (by rwa [workflow.name_of_get? hto])
  refine ⟨_, addConnection_eq_ok hfrom' hto', ⟨hgraph.nodes, fun d hd => ?_⟩, fun k => ?_⟩
  · rcases mem_getConnections_setConnection.mp hd with rfl | ⟨-, hd⟩
    · exact hc
    · exact hgraph.connections d hd
  · change k ∈ (graph.connections.set (makeKey c) c).keys ↔
      k ∈ graph.connections.keys ∨ k = makeKey c
    rw [OrderedMap.mem_keys_set, or_comm]

section Import

variable {name : String} {«from» : INode} {type : NodeConnectionType}

theorem addsKeys_importOutput (hfrom : workflow.getNode name = some «from»)
    {output : Option (List IConnection) × ℕ}
    (h : ∀ conn ∈ output.1.getD [],
      Lists workflow.connectionsBySourceNode name type output.2 conn ∧
        ∃ n, workflow.getNode conn.node = some n) :
    AddsKeys workflow (fun k => ∃ conn ∈ output.1.getD [], ∃ «to»,
        workflow.getNode conn.node = some «to» ∧
          makeKey { «from», «to», type, outputIndex := output.2, inputIndex := conn.index } = k)
      (fun graph => importOutput workflow.nodes «from» type graph output) := by
  refine collects_foldlM fun conn hconn => ?_
  obtain ⟨hlists, «to», hto⟩ := h conn hconn
  have hname := workflow.name_of_get? hfrom
  have hc : ConnectionOf workflow
      { «from», «to», type, outputIndex := output.2, inputIndex := conn.index } :=
    ⟨conn, by simpa [hname] using hlists, by simpa [hname] using hfrom, hto, rfl⟩
  have hto' : workflow.nodes.get? conn.node = some «to» := hto
  simp only [hto', assertOk]
  refine (addsKeys_addConnection hc).congr fun k => ?_
  simp [hto, eq_comm]

theorem addsKeys_importType (hw : RefersToNodes workflow) (hfrom : workflow.getNode name = some «from»)
    {outputs : NodeInputConnections}
    (h : ∀ i, ∀ conn ∈ (outputs.getD i none).getD [],
      Lists workflow.connectionsBySourceNode name type i conn) :
    AddsKeys workflow (fun k => ∃ i, ∃ conn ∈ (outputs.getD i none).getD [], ∃ «to»,
        workflow.getNode conn.node = some «to» ∧
          makeKey { «from», «to», type, outputIndex := i, inputIndex := conn.index } = k)
      (fun graph => importType workflow.nodes «from» graph (type, outputs)) := by
  refine (collects_foldlM fun output hout => addsKeys_importOutput hfrom fun conn hconn => ?_).congr
    fun k => exists_mem_zipIdx_iff (P := fun i conn => ∃ «to»,
      workflow.getNode conn.node = some «to» ∧
        makeKey { «from», «to», type, outputIndex := i, inputIndex := conn.index } = k)
  rw [← getD_of_mem_zipIdx hout] at hconn
  have hlists := h output.2 conn hconn
  exact ⟨hlists, hw.exists_target hlists⟩

theorem addsKeys_importNode (hw : RefersToNodes workflow) {entry : String × INodeConnections}
    (hentry : entry ∈ objectEntries workflow.connectionsBySourceNode) :
    AddsKeys workflow (fun k => ∃ type i conn «from» «to»,
        Lists workflow.connectionsBySourceNode entry.1 type i conn ∧
          workflow.getNode entry.1 = some «from» ∧ workflow.getNode conn.node = some «to» ∧
          makeKey { «from», «to», type, outputIndex := i, inputIndex := conn.index } = k)
      (fun graph => importNode workflow.nodes graph entry) := by
  obtain ⟨name, m⟩ := entry
  have hm := mem_objectEntries.mp hentry
  obtain ⟨«from», hfrom⟩ :=
    Option.isSome_iff_exists.mp (hw.sources name (OrderedMap.mem_keys_iff.mpr ⟨m, hm⟩))
  have hlists : ∀ {type outputs i conn}, (type, outputs) ∈ m.entries →
      conn ∈ (outputs.getD i none).getD [] →
        Lists workflow.connectionsBySourceNode name type i conn := by
    intro type outputs i conn hout hconn
    cases ho : outputs.getD i none with
    | none =>
      rw [ho] at hconn
      cases hconn
    | some conns =>
      rw [ho] at hconn
      exact ⟨m, outputs, conns, hm, OrderedMap.mem_entries_iff.mp hout, ho, hconn⟩
  have hfrom' : workflow.nodes.get? name = some «from» := hfrom
  simp only [importNode, hfrom', assertOk]
  refine (collects_foldlM fun output hout =>
    addsKeys_importType hw hfrom fun i conn hconn => hlists hout hconn).congr fun k => ?_
  constructor
  · rintro ⟨⟨type, outputs⟩, hout, i, conn, hconn, «to», hto, hk⟩
    exact ⟨type, i, conn, «from», «to», hlists hout hconn, hfrom, hto, hk⟩
  · rintro ⟨type, i, conn, from', «to», ⟨m', outputs, conns, hm', hout, hconns, hconn⟩, hf, hto, hk⟩
    obtain rfl : m' = m := Option.some.inj (hm'.symm.trans hm)
    obtain rfl : from' = «from» := Option.some.inj (hf.symm.trans hfrom)
    exact ⟨(type, outputs), OrderedMap.mem_entries_iff.mpr hout, i, conn,
      by rwa [hconns], «to», hto, hk⟩

end Import

theorem hasNode_addNodes_entries {n : INode} :
    ((∅ : DirectedGraph).addNodes ((objectEntries workflow.nodes).map Prod.snd)).HasNode n ↔
      workflow.getNode n.name = some n := by
  have hset : ∀ (m : OrderedMap String INode), ∀ e ∈ objectEntries workflow.nodes,
      m.set e.2.name e.2 = m.set e.1 e.2 :=
    fun m e he => by rw [workflow.name_of_get? (mem_objectEntries.mp he)]
  rw [HasNode, nodes_addNodes, List.foldl_map]
  change (((objectEntries workflow.nodes).foldl (fun (m : OrderedMap String INode) e =>
    m.set e.2.name e.2) ∅).get? n.name = some n) ↔ _
  rw [List.foldl_ext _ _ _ hset, OrderedMap.get?_foldl_set (nodup_keys_objectEntries _),
    mem_objectEntries]
  rfl

/-- The import succeeds, and has the keys of all connections of the workflow. -/
theorem fromWorkflow_spec (hw : RefersToNodes workflow) :
    ∃ g, fromWorkflow workflow = .ok g ∧ Imports workflow g ∧
      ∀ c, ConnectionOf workflow c → makeKey c ∈ g.connections.keys := by
  obtain ⟨g, hg, himports, hkeys⟩ := collects_foldlM (fun entry hentry => addsKeys_importNode hw hentry)
    ((∅ : DirectedGraph).addNodes ((objectEntries workflow.nodes).map Prod.snd))
    ⟨fun n => hasNode_addNodes_entries.symm, fun c hc => by
      rw [getConnections, connections_addNodes] at hc
      cases hc⟩
  refine ⟨g, hg, himports, fun c hc => (hkeys _).mpr (Or.inr ?_)⟩
  obtain ⟨conn, hlists, hfrom, hto, hindex⟩ := hc
  obtain ⟨m, -, -, hm, -⟩ := id hlists
  refine ⟨(c.from.name, m), mem_objectEntries.mpr hm, c.type, c.outputIndex, conn, c.from, c.to,
    hlists, hfrom, hto, ?_⟩
  rw [hindex]

/-- The graph has exactly the connections of the workflow. -/
def KeepsConnections (workflow : Workflow) (g : DirectedGraph) : Prop :=
  ∀ c, c ∈ g.getConnections ↔ ConnectionOf workflow c

theorem not_keepsConnections_of_overlap {g : DirectedGraph} {c d : GraphConnection}
    (hc : ConnectionOf workflow c) (hd : ConnectionOf workflow d) (hcd : Overlap c d) :
    ¬KeepsConnections workflow g := by
  intro h
  have heq := eq_of_makeKey ((h c).mpr hc) ((h d).mpr hd) (makeKey_eq_of_overlap hcd)
  exact hcd.not_sameTuple (heq ▸ ⟨rfl, rfl, rfl, rfl, rfl⟩)

/-- `A` leads to a node named like the end of a key, and a node named like the beginning of
one leads to `B`. -/
def dashedWorkflow : Workflow where
  nodes := setNodes [.named "A", .named "A-main-0-0-X", .named "X-main-0-0-B", .named "B"]
  connectionsBySourceNode :=
    ((∅ : IConnections).set "A"
      ((∅ : INodeConnections).set .main [some [⟨"X-main-0-0-B", .main, 0⟩]])).set "A-main-0-0-X"
        ((∅ : INodeConnections).set .main [some [⟨"B", .main, 0⟩]])
  name_of_get? := name_of_setNodes

end DirectedGraph

end N8n
