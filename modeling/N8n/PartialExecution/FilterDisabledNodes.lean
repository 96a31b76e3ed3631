import N8n.Lib.Bypass
import N8n.PartialExecution.FromWorkflow

/-!
# Removing the disabled nodes

`filterDisabledNodes` removes the disabled nodes of a graph one at a time. `removeNode`
connects every Main parent of the node with every Main child, deletes the connections of
the node and then sets the new ones, so that a connection from the node to itself comes
back, and with it connections of a node that is no longer there.

`filterDisabledNode_disabled` : a removal splices the connections at the node, as long as different
connections have different keys. `filterDisabledNodes_exact_iff` : the enabled nodes keep
their connections and get one for each Main path through disabled nodes, and nothing else,
just in case no such path leads from a disabled node back to it.
-/

open Lib

namespace N8n

structure RemoveNodeOptions where
  reconnectConnections : Bool := false
  skipConnectionFn : GraphConnection → Bool := fun _ => false

/-- The new connection past the node that the first leads to and the second comes from. -/
def GraphConnection.reconnect (incomingConnection outgoingConnection : GraphConnection) :
    GraphConnection :=
  { incomingConnection with
    «to» := outgoingConnection.to
    inputIndex := outgoingConnection.inputIndex }

namespace DirectedGraph

variable (g : DirectedGraph)

/-- The graph without the connections that use the node. -/
def deleteConnectionsOf (node : INode) : DirectedGraph where
  nodes := g.nodes
  connections := g.connections.deleteAll
    ((g.connections.entries.filter fun e => e.2.to = node || e.2.from = node).map Prod.fst)
  name_of_get? := g.name_of_get?
  makeKey_of_get? {k c} h := by
    rw [OrderedMap.get?_deleteAll] at h
    split_ifs at h
    exact g.makeKey_of_get? h

/-- `this.nodes.delete(node.name)` -/
def deleteNode (node : INode) : DirectedGraph where
  nodes := g.nodes.delete node.name
  connections := g.connections
  name_of_get? {k n} h := by
    rw [OrderedMap.get?_delete] at h
    split_ifs at h
    exact g.name_of_get? h
  makeKey_of_get? := g.makeKey_of_get?

/-- Remove the node. If connections are to be reconnected, these are returned. -/
def removeNode (node : INode) (options : RemoveNodeOptions := {}) :
    Except GraphError (DirectedGraph × Option (List GraphConnection)) :=
  if options.reconnectConnections then do
    let incomingConnections ← g.getDirectParentConnections node
    let outgoingConnections ← g.getDirectChildConnections node
    let newConnections :=
      (incomingConnections.filter (!options.skipConnectionFn ·)).flatMap fun incomingConnection =>
        (outgoingConnections.filter (!options.skipConnectionFn ·)).map
          incomingConnection.reconnect
    return ((newConnections.foldl setConnection (g.deleteConnectionsOf node)).deleteNode node,
      some newConnections)
  else .ok ((g.deleteConnectionsOf node).deleteNode node, none)

def clone : Except GraphError DirectedGraph :=
  (empty.addNodes g.getNodes).addConnections g.getConnections

/-- Remove the node if it is disabled. -/
def filterDisabledNode (filteredGraph : DirectedGraph) (node : INode) :
    Except GraphError DirectedGraph :=
  if node.disabled = some true then do
    let removed ← filteredGraph.removeNode node
      { reconnectConnections := true, skipConnectionFn := fun c => c.type ≠ .main }
    return removed.1
  else .ok filteredGraph

def filterDisabledNodes : Except GraphError DirectedGraph := do
  let filteredGraph ← g.clone
  filteredGraph.getNodes.foldlM filterDisabledNode filteredGraph

/-! ## Paths past disabled nodes -/

def IsMain (c : GraphConnection) : Prop := c.type = .main

/-- The node is in the graph and disabled. -/
def IsDisabled (node : INode) : Prop := g.HasNode node ∧ node.disabled = some true

/-- The connection leads from the first output to the last input of a path of Main
connections through disabled nodes. -/
def BypassesDisabled : GraphConnection → Prop :=
  Bypasses GraphConnection.from GraphConnection.to GraphConnection.reconnect
    (fun c => c ∈ g.getConnections ∧ IsMain c) g.IsDisabled

/-- Some Main path through disabled nodes leads from one of them back to it. -/
def HasDisabledCycle : Prop :=
  Lib.Cyclic GraphConnection.from GraphConnection.to GraphConnection.reconnect
    (fun c => c ∈ g.getConnections ∧ IsMain c) g.IsDisabled

/-- The graph and the paths through its disabled nodes have different keys for different
connections. -/
def KeysDistinguish : Prop :=
  ∀ c c', (c ∈ g.getConnections ∨ g.BypassesDisabled c) →
    (c' ∈ g.getConnections ∨ g.BypassesDisabled c') → makeKey c = makeKey c' → c = c'

/-- The nodes are the enabled ones, and the connections are those that join two of them, in
the graph or past disabled nodes. -/
structure IsFiltered (g filteredGraph : DirectedGraph) : Prop where
  nodes : ∀ node, filteredGraph.HasNode node ↔ g.HasNode node ∧ node.disabled ≠ some true
  connections : ∀ c, c ∈ filteredGraph.getConnections ↔
    (filteredGraph.HasNode c.from ∧ filteredGraph.HasNode c.to) ∧
      (c ∈ g.getConnections ∨ g.BypassesDisabled c)

variable {filteredGraph : DirectedGraph}

theorem IsFiltered.joinsNodes {g : DirectedGraph} (h : IsFiltered g filteredGraph) :
    filteredGraph.JoinsNodes :=
  fun c hc => ((h.connections c).mp hc).1

theorem isSplice_reconnect : IsSplice GraphConnection.from GraphConnection.to IsMain
    GraphConnection.reconnect :=
  ⟨fun _ _ => rfl, fun _ _ => rfl, fun _ _ _ => rfl, fun _ _ _ => rfl, fun _ _ h => h⟩

variable {g} {node : INode} {c : GraphConnection}

/-! ## One removal -/

theorem mem_getConnections_deleteConnectionsOf :
    c ∈ (g.deleteConnectionsOf node).getConnections ↔
      c ∈ g.getConnections ∧ c.from ≠ node ∧ c.to ≠ node := by
  simp only [mem_getConnections_iff, deleteConnectionsOf, OrderedMap.get?_deleteAll]
  split_ifs with hkey
  · obtain ⟨⟨k, c'⟩, he, hk⟩ := List.mem_map.mp hkey
    obtain ⟨hget, huses⟩ := List.mem_filter.mp he
    rw [OrderedMap.mem_entries_iff] at hget
    obtain rfl : k = makeKey c := hk
    simp only [hget, Option.some.injEq, false_iff, not_and]
    rintro rfl hfrom hto
    simp [hfrom, hto] at huses
  · refine ⟨fun hget => ⟨hget, ?_⟩, fun h => h.1⟩
    by_contra huses
    refine hkey (List.mem_map.mpr ⟨(makeKey c, c), List.mem_filter.mpr
      ⟨OrderedMap.mem_entries_iff.mpr hget, ?_⟩, rfl⟩)
    simp only [Bool.or_eq_true, decide_eq_true_eq]
    by_contra hother
    exact huses ⟨fun hfrom => hother (.inr hfrom), fun hto => hother (.inl hto)⟩

theorem nodes_foldl_setConnection (cs : List GraphConnection) :
    (cs.foldl setConnection g).nodes = g.nodes := by
  induction cs generalizing g with
  | nil => rfl
  | cons c cs ih => exact ih (g := g.setConnection c)

/-- Setting connections overwrites nothing if their keys are their own. -/
theorem mem_getConnections_foldl_setConnection {cs : List GraphConnection}
    (hkeys : ∀ d ∈ cs, ∀ d', d' ∈ g.getConnections ∨ d' ∈ cs → makeKey d' = makeKey d → d' = d) :
    c ∈ (cs.foldl setConnection g).getConnections ↔ c ∈ g.getConnections ∨ c ∈ cs := by
  induction cs generalizing g with
  | nil => simp
  | cons d cs ih =>
    have hset : ∀ d', d' ∈ (g.setConnection d).getConnections ↔ d' ∈ g.getConnections ∨ d' = d := by
      intro d'
      rw [mem_getConnections_setConnection, or_comm]
      by_cases heq : d' = d
      · simp [heq]
      · simp only [heq, or_false, and_iff_right_iff_imp]
        exact fun hd' hkey => heq (hkeys d (by simp) d' (.inl hd') hkey)
    rw [List.foldl_cons, ih, hset, List.mem_cons, or_assoc]
    intro e he d' hd'
    rw [hset, or_assoc] at hd'
    exact hkeys e (by simp [he]) d' (by simpa using hd')

/-- The connections a removal adds. -/
theorem mem_newConnections {cs : List GraphConnection} {isSkipped : GraphConnection → Bool} :
    c ∈ ((cs.filter (·.to = node)).filter (!isSkipped ·)).flatMap (fun i =>
        ((cs.filter (·.from = node)).filter (!isSkipped ·)).map i.reconnect) ↔
      ∃ i o, i ∈ cs ∧ isSkipped i = false ∧ i.to = node ∧ o ∈ cs ∧ isSkipped o = false ∧
        o.from = node ∧ c = i.reconnect o := by
  simp only [List.mem_flatMap, List.mem_map, List.mem_filter, Bool.not_eq_true',
    decide_eq_true_eq]
  constructor
  · rintro ⟨i, ⟨⟨hi, hto⟩, hiskip⟩, o, ⟨⟨ho, hfrom⟩, hoskip⟩, rfl⟩
    exact ⟨i, o, hi, hiskip, hto, ho, hoskip, hfrom, rfl⟩
  · rintro ⟨i, o, hi, hiskip, hto, ho, hoskip, hfrom, rfl⟩
    exact ⟨i, ⟨⟨hi, hto⟩, hiskip⟩, o, ⟨⟨ho, hfrom⟩, hoskip⟩, rfl⟩

/-- Removing a disabled node takes it out of the graph and splices its Main connections, if
the keys of the connections distinguish them. -/
theorem filterDisabledNode_disabled (hdisabled : node.disabled = some true) (hnode : g.HasNode node)
    (hkeys : ∀ c c', (c ∈ g.getConnections ∨ ∃ i o, i ∈ g.getConnections ∧ IsMain i ∧ i.to = node ∧
        o ∈ g.getConnections ∧ IsMain o ∧ o.from = node ∧ c = i.reconnect o) →
      (c' ∈ g.getConnections ∨ ∃ i o, i ∈ g.getConnections ∧ IsMain i ∧ i.to = node ∧
        o ∈ g.getConnections ∧ IsMain o ∧ o.from = node ∧ c' = i.reconnect o) →
      makeKey c = makeKey c' → c = c') :
    ∃ g', filterDisabledNode g node = .ok g' ∧
      (∀ n, g'.HasNode n ↔ g.HasNode n ∧ n ≠ node) ∧
      Eliminates GraphConnection.from GraphConnection.to GraphConnection.reconnect IsMain node
        (· ∈ g.getConnections) (· ∈ g'.getConnections) := by
  rw [filterDisabledNode, if_pos hdisabled, removeNode, if_pos rfl,
    getDirectParentConnections_eq hnode, getDirectChildConnections_eq hnode]
  refine ⟨_, rfl, fun n => ?_, fun c => ?_⟩
  · simp only [HasNode, deleteNode, nodes_foldl_setConnection, deleteConnectionsOf,
      OrderedMap.get?_delete]
    split_ifs with hname
    · simp only [false_iff, not_and, not_not]
      exact fun hn => (hnode.eq_of_name hn hname).symm
    · exact ⟨fun hn => ⟨hn, fun heq => hname (by rw [heq])⟩, And.left⟩
  · have hmain : ∀ c : GraphConnection, (decide (c.type ≠ .main) = false) ↔ IsMain c := by
      intro c
      simp [IsMain]
    change c ∈ (List.foldl setConnection (g.deleteConnectionsOf node) _).getConnections ↔ _
    rw [mem_getConnections_foldl_setConnection, mem_getConnections_deleteConnectionsOf,
      mem_newConnections]
    · simp only [hmain]
    · intro d hd d' hd' hkey
      rw [mem_newConnections] at hd hd'
      simp only [hmain] at hd hd'
      rw [mem_getConnections_deleteConnectionsOf] at hd'
      exact hkeys d' d (hd'.imp_left And.left) (.inr hd) hkey

/-! ## All removals -/

/-- The graph after the nodes with `R` have been removed from `g`. -/
structure Removed (g : DirectedGraph) (R : INode → Prop) (filteredGraph : DirectedGraph) :
    Prop where
  nodes : ∀ n, filteredGraph.HasNode n ↔ g.HasNode n ∧ ¬R n
  eliminated : Eliminated GraphConnection.from GraphConnection.to GraphConnection.reconnect
    (· ∈ g.getConnections) IsMain R (· ∈ filteredGraph.getConnections)

theorem removed_none : Removed g (fun _ => False) g := ⟨fun n => by simp, .init⟩

theorem Removed.congr {R R' : INode → Prop} (h : Removed g R filteredGraph)
    (hiff : ∀ n, R' n ↔ R n) : Removed g R' filteredGraph := by
  obtain rfl : R' = R := funext fun n => propext (hiff n)
  exact h

theorem Removed.filterDisabledNode {R : INode → Prop} (hkeys : g.KeysDistinguish)
    (hR : ∀ n, R n → g.IsDisabled n) (h : Removed g R filteredGraph) (hnode : g.HasNode node)
    (hleft : ¬R node) :
    ∃ next, DirectedGraph.filterDisabledNode filteredGraph node = .ok next ∧
      Removed g (fun n => R n ∨ n = node ∧ n.disabled = some true) next := by
  by_cases hdisabled : node.disabled = some true
  · -- what the removal may set runs along paths through disabled nodes
    have hR' : ∀ n, R n ∨ n = node → g.IsDisabled n := by
      rintro n (hn | rfl)
      · exact hR n hn
      · exact ⟨hnode, hdisabled⟩
    have hmay : ∀ c, (c ∈ filteredGraph.getConnections ∨ ∃ i o, i ∈ filteredGraph.getConnections ∧
        IsMain i ∧ i.to = node ∧ o ∈ filteredGraph.getConnections ∧ IsMain o ∧ o.from = node ∧
        c = i.reconnect o) → c ∈ g.getConnections ∨ g.BypassesDisabled c := by
      rintro c (hc | ⟨i, o, hi, hmi, hto, ho, hmo, hfrom, rfl⟩)
      · exact (h.eliminated.bypasses c hc).imp_right (·.mono fun n hn => hR n hn)
      · exact .inr (((h.eliminated.bypasses_of hi hmi).mono fun n hn => hR n hn).append
          isSplice_reconnect ((h.eliminated.bypasses_of ho hmo).mono fun n hn => hR n hn)
          (hto ▸ ⟨hnode, hdisabled⟩) (hfrom.trans hto.symm))
    obtain ⟨next, heq, hnodes, heliminates⟩ := filterDisabledNode_disabled hdisabled
      ((h.nodes node).mpr ⟨hnode, hleft⟩)
      (fun c c' hc hc' => hkeys c c' (hmay c hc) (hmay c' hc'))
    refine ⟨next, heq, ?_⟩
    have hremoved : Removed g (fun n => R n ∨ n = node) next :=
      ⟨fun n => by rw [hnodes, h.nodes, and_assoc, not_or],
        h.eliminated.step isSplice_reconnect hleft heliminates⟩
    refine hremoved.congr fun n => or_congr_right (and_iff_left_of_imp ?_)
    rintro rfl
    exact hdisabled
  · refine ⟨filteredGraph, by rw [DirectedGraph.filterDisabledNode, if_neg hdisabled],
      h.congr fun n => or_iff_left ?_⟩
    rintro ⟨rfl, hn⟩
    exact hdisabled hn

theorem Removed.foldlM_filterDisabledNode {R : INode → Prop} {nodes : List INode}
    (hkeys : g.KeysDistinguish) (hR : ∀ n, R n → g.IsDisabled n) (h : Removed g R filteredGraph)
    (hnodes : ∀ n ∈ nodes, g.HasNode n ∧ ¬R n) (hnodup : nodes.Nodup) :
    ∃ filtered, nodes.foldlM DirectedGraph.filterDisabledNode filteredGraph = .ok filtered ∧
      Removed g (fun n => R n ∨ n ∈ nodes ∧ n.disabled = some true) filtered := by
  induction nodes generalizing R filteredGraph with
  | nil => exact ⟨filteredGraph, rfl, h.congr fun n => by simp⟩
  | cons node nodes ih =>
    obtain ⟨hnotMem, hnodup⟩ := List.nodup_cons.mp hnodup
    obtain ⟨hnode, hleft⟩ := hnodes node (by simp)
    obtain ⟨next, heq, hnext⟩ := h.filterDisabledNode hkeys hR hnode hleft
    obtain ⟨filtered, hrest, hfiltered⟩ := ih (R := fun n => R n ∨ n = node ∧ n.disabled = some true)
      (by
        rintro n (hn | ⟨rfl, hdisabled⟩)
        · exact hR n hn
        · exact ⟨hnode, hdisabled⟩) hnext (by
        intro n hn
        refine ⟨(hnodes n (by simp [hn])).1, ?_⟩
        rintro (hRn | ⟨rfl, -⟩)
        · exact (hnodes n (by simp [hn])).2 hRn
        · exact hnotMem hn) hnodup
    refine ⟨filtered, by rw [List.foldlM_cons, heq]; exact hrest, hfiltered.congr fun n => ?_⟩
    rw [List.mem_cons, or_and_right, or_assoc]

theorem connections_foldl_setConnection (cs : List GraphConnection) :
    (cs.foldl setConnection g).connections =
      cs.foldl (fun m c => m.set (makeKey c) c) g.connections := by
  induction cs generalizing g with
  | nil => rfl
  | cons c cs ih => exact ih (g := g.setConnection c)

theorem addConnections_eq_ok {cs : List GraphConnection}
    (hcs : ∀ c ∈ cs, g.HasNode c.from ∧ g.HasNode c.to) :
    g.addConnections cs = .ok (cs.foldl setConnection g) := by
  unfold addConnections
  induction cs generalizing g with
  | nil => rfl
  | cons c cs ih =>
    obtain ⟨hfrom, hto⟩ := hcs c (by simp)
    rw [List.foldlM_cons, addConnection_eq_ok hfrom hto]
    exact ih (g := g.setConnection c) fun d hd => hcs d (by simp [hd])

/-- Setting the connections of a graph, by key, in an empty map gives its connection map. -/
theorem foldl_set_getConnections :
    g.getConnections.foldl (fun m c => m.set (makeKey c) c) ∅ = g.connections := by
  have hentries : g.connections.entries = g.getConnections.map fun c => (makeKey c, c) := by
    rw [getConnections, OrderedMap.values, List.map_map]
    refine (List.map_id' _).symm.trans (List.map_congr_left fun e he => ?_)
    exact Prod.ext (g.makeKey_of_get? (OrderedMap.mem_entries_iff.mp he)).symm rfl
  have h := OrderedMap.foldl_set_entries g.connections
  rwa [hentries, List.foldl_map] at h

/-- A copy of a graph whose connections join its nodes is the graph. -/
theorem clone_eq (hg : g.JoinsNodes) : g.clone = .ok g := by
  have hnodes : (empty.addNodes g.getNodes).nodes = g.nodes :=
    (nodes_addNodes g.getNodes).trans foldl_set_getNodes
  have hconnections : (empty.addNodes g.getNodes).connections = ∅ :=
    connections_addNodes g.getNodes
  rw [clone, addConnections_eq_ok fun c hc => by simpa only [HasNode, hnodes] using hg c hc]
  have hall : ((g.getConnections.foldl setConnection (empty.addNodes g.getNodes)).nodes = g.nodes) ∧
      (g.getConnections.foldl setConnection (empty.addNodes g.getNodes)).connections =
        g.connections := by
    rw [nodes_foldl_setConnection, connections_foldl_setConnection, hnodes, hconnections,
      foldl_set_getConnections]
    exact ⟨rfl, rfl⟩
  generalize g.getConnections.foldl setConnection (empty.addNodes g.getNodes) = copy at hall
  obtain ⟨hcopyNodes, hcopyConnections⟩ := hall
  cases copy
  cases g
  simp_all

theorem nodup_getNodes (g : DirectedGraph) : g.getNodes.Nodup := by
  refine g.nodes.nodup_entries.map_on fun e he e' he' heq => Prod.ext ?_ heq
  rw [← g.name_of_get? (OrderedMap.mem_entries_iff.mp he),
    ← g.name_of_get? (OrderedMap.mem_entries_iff.mp he'), heq]

/-- A path past disabled nodes joins nodes of the graph. -/
theorem BypassesDisabled.hasNode (hg : g.JoinsNodes) (h : g.BypassesDisabled c) :
    g.HasNode c.from ∧ g.HasNode c.to := by
  unfold BypassesDisabled at h
  induction h with
  | edge hc => exact hg _ hc.1
  | cons he _ _ _ ih => exact ⟨(hg _ he.1).1, ih.2⟩

/-- The filtered graph is exact if no Main path through disabled nodes comes back to one of
them, and only then, provided that different connections have different keys. -/
theorem filterDisabledNodes_exact_iff (hg : g.JoinsNodes) (hkeys : g.KeysDistinguish) :
    ∃ filteredGraph, g.filterDisabledNodes = .ok filteredGraph ∧
      (IsFiltered g filteredGraph ↔ ¬g.HasDisabledCycle) := by
  obtain ⟨filtered, heq, h⟩ := removed_none.foldlM_filterDisabledNode hkeys
    (fun _ hn => False.elim hn) (fun n hn => ⟨mem_getNodes_iff.mp hn, not_false⟩)
    (nodup_getNodes g)
  have h : Removed g g.IsDisabled filtered := h.congr fun n => by
    simp [IsDisabled, mem_getNodes_iff]
  refine ⟨filtered, ?_, ?_⟩
  · rw [filterDisabledNodes, clone_eq hg]
    exact heq
  · have hnodes : ∀ n, filtered.HasNode n ↔ g.HasNode n ∧ n.disabled ≠ some true := by
      intro n
      rw [h.nodes, IsDisabled]
      tauto
    constructor
    · intro hfiltered hcycle
      obtain ⟨c, hc, hfrom, -⟩ := h.eliminated.dangling hcycle
      exact ((h.nodes _).mp ((hfiltered.connections c).mp hc).1.1).2 hfrom
    · intro hacyclic
      refine ⟨hnodes, fun c => ?_⟩
      rw [h.eliminated.iff_of_not_cyclic hacyclic, ← and_assoc]
      refine and_congr_left fun hc => ?_
      obtain ⟨hfrom, hto⟩ : g.HasNode c.from ∧ g.HasNode c.to :=
        hc.elim (hg c) (BypassesDisabled.hasNode hg)
      simp [h.nodes, hfrom, hto]

/-- Names without `-` make keys that can be told apart. -/
theorem keysDistinguish_of_names (hg : g.JoinsNodes)
    (hnames : ∀ n ∈ g.getNodes, '-' ∉ n.name.toList) : g.KeysDistinguish := by
  have hnode : ∀ c, c ∈ g.getConnections ∨ g.BypassesDisabled c →
      g.HasNode c.from ∧ g.HasNode c.to :=
    fun c hc => hc.elim (hg c) (BypassesDisabled.hasNode hg)
  have hoverlap : ∀ {c d}, g.HasNode d.from → ¬Overlap c d := by
    rintro c d hd (⟨hfrom, -⟩ | ⟨text, hfrom, -⟩) <;>
      exact hnames _ (mem_getNodes_iff.mpr hd) (by simp [hfrom])
  intro c d hc hd hkey
  obtain ⟨hcfrom, hcto⟩ := hnode c hc
  obtain ⟨hdfrom, hdto⟩ := hnode d hd
  rcases makeKey_eq_iff.mp hkey with hsame | h | h
  · have hfrom := hcfrom.eq_of_name hdfrom hsame.source
    have hto := hcto.eq_of_name hdto hsame.target
    obtain ⟨-, htype, houtput, hinput, -⟩ := hsame
    cases c
    cases d
    simp_all
  · exact absurd h (hoverlap hdfrom)
  · exact absurd h (hoverlap hcfrom)

end DirectedGraph

/-! ## A disabled node between two others -/

def disabledNode : INode := { name := "Disabled", disabled := some true }

/-- `Trigger` leads to the disabled node, and that to `Destination`. -/
def disabledGraph : DirectedGraph :=
  .ofLists [.named "Trigger", disabledNode, .named "Destination"]
    [{ «from» := .named "Trigger", «to» := disabledNode },
      { «from» := disabledNode, «to» := .named "Destination" }]

theorem filterDisabledNodes_exact_iff_disabledGraph :
    ∃ filteredGraph, disabledGraph.filterDisabledNodes = .ok filteredGraph ∧
      (DirectedGraph.IsFiltered disabledGraph filteredGraph ↔ ¬disabledGraph.HasDisabledCycle) :=
  have hjoins : disabledGraph.JoinsNodes := by decide
  DirectedGraph.filterDisabledNodes_exact_iff hjoins
    (DirectedGraph.keysDistinguish_of_names hjoins (by decide))

/-- The disabled node also leads to itself. -/
def selfLoopGraph : DirectedGraph :=
  .ofLists [.named "Trigger", disabledNode, .named "Destination"]
    [{ «from» := .named "Trigger", «to» := disabledNode },
      { «from» := disabledNode, «to» := disabledNode },
      { «from» := disabledNode, «to» := .named "Destination" }]

/-- The removed node keeps connections. -/
theorem filterDisabledNodes_not_isFiltered :
    selfLoopGraph.JoinsNodes ∧ ∃ filteredGraph, selfLoopGraph.filterDisabledNodes = .ok filteredGraph ∧
      ¬filteredGraph.JoinsNodes ∧ ¬DirectedGraph.IsFiltered selfLoopGraph filteredGraph := by
  refine ⟨by decide, _, rfl, by decide, fun hfiltered => ?_⟩
  exact absurd hfiltered.joinsNodes (by decide)

end N8n
