import N8n.Interfaces
import N8n.Lib.Search
import N8n.Lib.Walk

/-!
# The directed graph of the partial-execution planner

`DirectedGraph` keeps one map for the nodes, by name, and one for the connections, by a
key made from their five parts. The two key invariants are fields : nothing outside the
class writes to the maps.

The methods that assert that a node belongs to the graph return an error when it does
not. On a graph whose connections all join nodes of the graph (`JoinsNodes`) the
assertions hold along every traversal : `getChildren` and `getParentConnections` return
exactly what is reachable downstream and upstream (`getChildren_spec`,
`getParentConnections_spec`).
-/

open Lib

namespace N8n

structure GraphConnection where
  «from» : INode
  «to» : INode
  type : NodeConnectionType := .main
  outputIndex : ℕ := 0
  inputIndex : ℤ := 0
  deriving DecidableEq, Repr

/-- How a planner function can fail. -/
inductive GraphError where
  /-- An assertion does not hold. -/
  | assertion (message : String)
  /-- A property of `undefined` is read. -/
  | typeError
  /-- The recursion is deeper than the graph allows; never returned. -/
  | outOfFuel
  deriving DecidableEq, Repr

/-- fromName-outputType-outputIndex-inputIndex-toName -/
def makeKey (c : GraphConnection) : String :=
  c.from.name ++ "-" ++ c.type.toKey ++ "-" ++ toString c.outputIndex ++ "-" ++
    toString c.inputIndex ++ "-" ++ c.to.name

structure DirectedGraph where
  nodes : OrderedMap String INode
  connections : OrderedMap String GraphConnection
  name_of_get? : ∀ {k : String} {n : INode}, nodes.get? k = some n → n.name = k
  makeKey_of_get? : ∀ {k : String} {c : GraphConnection},
    connections.get? k = some c → makeKey c = k

namespace DirectedGraph

/-- `new DirectedGraph()` -/
def empty : DirectedGraph :=
  ⟨∅, ∅, fun h => by simp at h, fun h => by simp at h⟩

instance : EmptyCollection DirectedGraph := ⟨empty⟩

variable (g : DirectedGraph)

def hasNode (nodeName : String) : Bool := g.nodes.has nodeName

/-- The nodes, in insertion order. -/
def getNodes : List INode := g.nodes.values

def getNodesByNames (names : List String) : List INode := (names.filterMap g.nodes.get?).dedup

/-- The connections, in insertion order. -/
def getConnections : List GraphConnection := g.connections.values

/-- The connections into `to`. -/
def getConnectionsTo («to» : INode) : List GraphConnection :=
  g.getConnections.filter (·.to = «to»)

def addNode (node : INode) : DirectedGraph where
  nodes := g.nodes.set node.name node
  connections := g.connections
  name_of_get? {k n} h := by
    rw [OrderedMap.get?_set] at h
    split_ifs at h with hk
    · cases h
      exact hk
    · exact g.name_of_get? h
  makeKey_of_get? := g.makeKey_of_get?

def addNodes (nodes : List INode) : DirectedGraph := nodes.foldl addNode g

/-- `this.nodes.get(node.name) === node` -/
def HasNode (node : INode) : Prop := g.nodes.get? node.name = some node

instance (node : INode) : Decidable (g.HasNode node) :=
  inferInstanceAs (Decidable (_ = _))

/-- `this.connections.set(this.makeKey(connection), connection)` -/
def setConnection (c : GraphConnection) : DirectedGraph where
  nodes := g.nodes
  connections := g.connections.set (makeKey c) c
  name_of_get? := g.name_of_get?
  makeKey_of_get? {k c'} h := by
    rw [OrderedMap.get?_set] at h
    split_ifs at h with hk
    · cases h
      exact hk
    · exact g.makeKey_of_get? h

def addConnection (c : GraphConnection) : Except GraphError DirectedGraph :=
  if ¬g.HasNode c.from then
    .error (.assertion s!"Cannot add connection: source node \"{c.from.name}\" is not part of this graph.")
  else if ¬g.HasNode c.to then
    .error (.assertion s!"Cannot add connection: target node \"{c.to.name}\" is not part of this graph.")
  else .ok (g.setConnection c)

def addConnections (cs : List GraphConnection) : Except GraphError DirectedGraph :=
  cs.foldlM addConnection g

/-- The graph with these nodes and connections. -/
def ofLists (nodes : List INode) (cs : List GraphConnection) : DirectedGraph :=
  cs.foldl setConnection (empty.addNodes nodes)

/-- The assertion the traversals start with. -/
def assertNode (node : INode) : Except GraphError Unit :=
  if g.HasNode node then .ok ()
  else .error (.assertion s!"Node \"{node.name}\" is not part of this graph.")

def getDirectChildConnections (node : INode) : Except GraphError (List GraphConnection) := do
  g.assertNode node
  return g.getConnections.filter (·.from = node)

def getDirectParentConnections (node : INode) : Except GraphError (List GraphConnection) := do
  g.assertNode node
  return g.getConnections.filter (·.to = node)

/-- The recursion depth no traversal that marks what it visits exceeds. -/
def fuel : ℕ := g.nodes.size + g.connections.size + 1

def getChildrenRecursive (node : INode) (children : List INode) :
    Except GraphError (List INode) :=
  expand (fun n => do return (← g.getDirectChildConnections n).map (·.to)) id .outOfFuel
    g.fuel node children

/-- All nodes downstream of `node`; `node` itself only if it is on a cycle. -/
def getChildren (node : INode) : Except GraphError (List INode) :=
  g.getChildrenRecursive node []

def getParentConnectionsRecursive (node : INode) (connections : List GraphConnection) :
    Except GraphError (List GraphConnection) :=
  expand g.getDirectParentConnections (·.from) .outOfFuel g.fuel node connections

/-- All connections upstream of `node`. -/
def getParentConnections (node : INode) : Except GraphError (List GraphConnection) :=
  g.getParentConnectionsRecursive node []

def getConnection («from» : INode) (outputIndex : ℕ) (type : NodeConnectionType)
    (inputIndex : ℤ) («to» : INode) : Option GraphConnection :=
  g.connections.get? (makeKey { «from», «to», type, outputIndex, inputIndex })

/-! ## Membership -/

variable {g} {node : INode} {c : GraphConnection}

theorem mem_getConnections_iff : c ∈ g.getConnections ↔ g.connections.get? (makeKey c) = some c := by
  rw [getConnections, OrderedMap.mem_values_iff]
  constructor
  · rintro ⟨k, hk⟩
    rw [g.makeKey_of_get? hk, hk]
  · exact fun h => ⟨_, h⟩

theorem mem_getNodes_iff : node ∈ g.getNodes ↔ g.HasNode node := by
  rw [getNodes, OrderedMap.mem_values_iff, HasNode]
  constructor
  · rintro ⟨k, hk⟩
    rw [g.name_of_get? hk, hk]
  · exact fun h => ⟨_, h⟩

theorem hasNode_iff {nodeName : String} :
    g.hasNode nodeName = true ↔ ∃ n, g.HasNode n ∧ n.name = nodeName := by
  rw [hasNode, OrderedMap.has_iff, OrderedMap.mem_keys_iff]
  constructor
  · rintro ⟨n, hn⟩
    have hname := g.name_of_get? hn
    exact ⟨n, by rwa [HasNode, hname], hname⟩
  · rintro ⟨n, hn, rfl⟩
    exact ⟨n, hn⟩

/-- Nodes of one graph with one name are one node. -/
theorem HasNode.eq_of_name {n n' : INode} (h : g.HasNode n) (h' : g.HasNode n')
    (hname : n.name = n'.name) : n = n' := by
  rw [HasNode, hname, h'] at h
  exact (Option.some.inj h).symm

/-- Connections of one graph with one key are one connection. -/
theorem eq_of_makeKey {c' : GraphConnection} (h : c ∈ g.getConnections)
    (h' : c' ∈ g.getConnections) (hk : makeKey c = makeKey c') : c = c' := by
  rw [mem_getConnections_iff] at h h'
  rw [hk, h'] at h
  exact (Option.some.inj h).symm

theorem nodup_getConnections (g : DirectedGraph) : g.getConnections.Nodup := by
  refine g.connections.nodup_entries.map_on fun e he e' he' heq => Prod.ext ?_ heq
  rw [← g.makeKey_of_get? (OrderedMap.mem_entries_iff.mp he),
    ← g.makeKey_of_get? (OrderedMap.mem_entries_iff.mp he'), heq]

theorem length_getNodes : g.getNodes.length = g.nodes.size := List.length_map _

theorem length_getConnections : g.getConnections.length = g.connections.size :=
  List.length_map _

@[simp] theorem getConnections_addNode : (g.addNode node).getConnections = g.getConnections := rfl

theorem hasNode_addNode {n : INode} :
    (g.addNode node).HasNode n ↔ n = node ∨ (n.name ≠ node.name ∧ g.HasNode n) := by
  simp only [HasNode, addNode, OrderedMap.get?_set]
  by_cases h : node.name = n.name
  · rw [if_pos h, Option.some.injEq]
    simp only [h, ne_eq, not_true_eq_false, false_and, or_false]
    exact eq_comm
  · rw [if_neg h]
    constructor
    · exact fun hn => Or.inr ⟨fun he => h he.symm, hn⟩
    · rintro (rfl | ⟨-, hn⟩)
      · exact absurd rfl h
      · exact hn

theorem mem_getConnections_setConnection {c' : GraphConnection} :
    c' ∈ (g.setConnection c).getConnections ↔
      c' = c ∨ (makeKey c' ≠ makeKey c ∧ c' ∈ g.getConnections) := by
  simp only [mem_getConnections_iff, setConnection, OrderedMap.get?_set]
  by_cases h : makeKey c = makeKey c'
  · rw [if_pos h, Option.some.injEq]
    simp only [h, ne_eq, not_true_eq_false, false_and, or_false]
    exact eq_comm
  · rw [if_neg h]
    constructor
    · exact fun hc => Or.inr ⟨fun he => h he.symm, hc⟩
    · rintro (rfl | ⟨-, hc⟩)
      · exact absurd rfl h
      · exact hc

theorem addConnection_eq_ok (hf : g.HasNode c.from) (ht : g.HasNode c.to) :
    g.addConnection c = .ok (g.setConnection c) := by
  simp [addConnection, hf, ht]

theorem nodes_addNodes (nodes : List INode) :
    (g.addNodes nodes).nodes = nodes.foldl (fun m n => m.set n.name n) g.nodes := by
  induction nodes generalizing g with
  | nil => rfl
  | cons n nodes ih => exact ih (g := g.addNode n)

@[simp] theorem connections_addNodes (nodes : List INode) :
    (g.addNodes nodes).connections = g.connections := by
  induction nodes generalizing g with
  | nil => rfl
  | cons n nodes ih => exact ih (g := g.addNode n)

/-- Adding the nodes of a graph, by name, to an empty map gives its node map. -/
theorem foldl_set_getNodes :
    g.getNodes.foldl (fun m n => m.set n.name n) ∅ = g.nodes := by
  have hentries : g.nodes.entries = g.getNodes.map fun n => (n.name, n) := by
    rw [getNodes, OrderedMap.values, List.map_map]
    refine (List.map_id' _).symm.trans (List.map_congr_left fun e he => ?_)
    exact Prod.ext (g.name_of_get? (OrderedMap.mem_entries_iff.mp he)).symm rfl
  have h := OrderedMap.foldl_set_entries g.nodes
  rwa [hentries, List.foldl_map] at h

/-! ## Graphs whose connections join their nodes -/

/-- Both ends of every connection are nodes of the graph. -/
def JoinsNodes (g : DirectedGraph) : Prop :=
  ∀ c ∈ g.getConnections, g.HasNode c.from ∧ g.HasNode c.to

instance : DecidablePred JoinsNodes := fun g =>
  inferInstanceAs (Decidable (∀ c ∈ g.getConnections, g.HasNode c.from ∧ g.HasNode c.to))

/-- Some connection leads from the one node to the other. -/
def Connected (g : DirectedGraph) : INode → INode → Prop :=
  JoinedBy GraphConnection.from GraphConnection.to (· ∈ g.getConnections)

/-- The other node is reachable along connections, of any type, from the first. -/
def Reachable (g : DirectedGraph) : INode → INode → Prop :=
  Reaches GraphConnection.from GraphConnection.to (· ∈ g.getConnections)

theorem getDirectChildConnections_eq (h : g.HasNode node) :
    g.getDirectChildConnections node = .ok (g.getConnections.filter (·.from = node)) := by
  simp only [getDirectChildConnections, assertNode, if_pos h]
  rfl

theorem getDirectParentConnections_eq (h : g.HasNode node) :
    g.getDirectParentConnections node = .ok (g.getConnections.filter (·.to = node)) := by
  simp only [getDirectParentConnections, assertNode, if_pos h]
  rfl

/-- `getChildren` returns the nodes reachable along at least one connection. -/
theorem getChildren_spec (hg : g.JoinsNodes) (h : g.HasNode node) :
    ∃ children, g.getChildren node = .ok children ∧ children.Nodup ∧
      ∀ n, n ∈ children ↔ ∃ m, g.Connected node m ∧ g.Reachable m n := by
  have hnext : ∀ k, g.HasNode k →
      (do return (← g.getDirectChildConnections k).map (·.to) : Except GraphError _) =
        .ok ((g.getConnections.filter (·.from = k)).map (·.to)) := by
    intro k hk
    rw [getDirectChildConnections_eq hk]
    rfl
  have hU : ∀ k, g.HasNode k → ∀ x ∈ (g.getConnections.filter (·.from = k)).map (·.to),
      x ∈ g.getNodes.toFinset ∧ g.HasNode (id x) := by
    intro k _ x hx
    obtain ⟨c, hc, rfl⟩ := List.mem_map.mp hx
    have := (hg c (List.mem_of_mem_filter hc)).2
    exact ⟨List.mem_toFinset.mpr (mem_getNodes_iff.mpr this), this⟩
  have hfuel : g.getNodes.toFinset.card < g.fuel := by
    have := g.getNodes.toFinset_card_le
    rw [length_getNodes] at this
    unfold fuel
    omega
  obtain ⟨r, heq, hn, hr⟩ := expand_spec GraphError.outOfFuel hnext hU hfuel h
  have hstep : (fun a b => b ∈ (g.getConnections.filter (·.from = id a)).map (·.to)) =
      g.Connected := by
    funext a b
    simp [Connected, JoinedBy, and_assoc]
  refine ⟨r, heq, hn, fun n => (hr n).trans ?_⟩
  unfold Leads
  rw [hstep]
  simp [Connected, JoinedBy, Reachable, Reaches]

/-- `getParentConnections` returns the connections whose target reaches the node. -/
theorem getParentConnections_spec (hg : g.JoinsNodes) (h : g.HasNode node) :
    ∃ connections, g.getParentConnections node = .ok connections ∧ connections.Nodup ∧
      ∀ c, c ∈ connections ↔ c ∈ g.getConnections ∧ g.Reachable c.to node := by
  have hU : ∀ k, g.HasNode k → ∀ x ∈ g.getConnections.filter (·.to = k),
      x ∈ g.getConnections.toFinset ∧ g.HasNode x.from := by
    intro k _ x hx
    have hx' := List.mem_of_mem_filter hx
    exact ⟨List.mem_toFinset.mpr hx', (hg x hx').1⟩
  have hfuel : g.getConnections.toFinset.card < g.fuel := by
    have := g.getConnections.toFinset_card_le
    rw [length_getConnections] at this
    unfold fuel
    omega
  obtain ⟨r, heq, hn, hr⟩ := expand_spec GraphError.outOfFuel
    (fun k (hk : g.HasNode k) => getDirectParentConnections_eq hk) hU hfuel h
  refine ⟨r, heq, hn, fun c => (hr c).trans ?_⟩
  simp only [Leads, List.mem_filter, decide_eq_true_eq]
  constructor
  · rintro ⟨d, ⟨hd, rfl⟩, hdc⟩
    induction hdc with
    | refl => exact ⟨hd, .refl⟩
    | tail _ hstep ih => exact ⟨hstep.1, .head ⟨_, ih.1, hstep.2.symm, rfl⟩ ih.2⟩
  · rintro ⟨hc, hreach⟩
    generalize hto : c.to = u at hreach
    induction hreach using Relation.ReflTransGen.head_induction_on generalizing c with
    | refl => exact ⟨c, ⟨hc, hto⟩, .refl⟩
    | head hstep _ ih =>
      obtain ⟨d, hd, rfl, rfl⟩ := hstep
      obtain ⟨e, he, hed⟩ := ih d hd rfl
      exact ⟨e, he, hed.tail ⟨hc, hto⟩⟩

/-! ## Building a subgraph -/

/-- The graph has the node or the connection. -/
def Has (g : DirectedGraph) : INode ⊕ GraphConnection → Prop
  | .inl n => g.HasNode n
  | .inr c => c ∈ g.getConnections

/-- What the first graph has, the second has too. -/
def IsSubgraph (sub g : DirectedGraph) : Prop := ∀ x, sub.Has x → g.Has x

theorem isSubgraph_empty (g : DirectedGraph) : IsSubgraph ∅ g := by
  rintro (n | c) h
  · exact absurd (show (none : Option INode) = some n from h) (by simp)
  · exact absurd (show c ∈ [] from h) (by simp)

/-- Adding a node of `g` to a subgraph of `g` adds just this node. -/
theorem has_addNode {sub : DirectedGraph} (hsub : IsSubgraph sub g) (h : g.HasNode node)
    (x : INode ⊕ GraphConnection) : (sub.addNode node).Has x ↔ sub.Has x ∨ x = .inl node := by
  cases x with
  | inr c => simp [Has]
  | inl n =>
    simp only [Has, hasNode_addNode, Sum.inl.injEq, or_comm (b := n = node)]
    by_cases hn : n = node
    · simp [hn]
    · simp only [hn, false_or]
      exact ⟨And.right, fun hs => ⟨fun he => hn ((hsub (.inl n) hs).eq_of_name h he), hs⟩⟩

theorem IsSubgraph.addNode {sub : DirectedGraph} (hsub : IsSubgraph sub g) (h : g.HasNode node) :
    IsSubgraph (sub.addNode node) g := by
  intro x hx
  rcases (has_addNode hsub h x).mp hx with hx | rfl
  · exact hsub x hx
  · exact h

theorem collects_addNode (h : g.HasNode node) :
    Collects (IsSubgraph · g) Has (fun sub => (.ok (sub.addNode node) : Except GraphError _))
      (· = .inl node) :=
  fun _ hsub => ⟨_, rfl, hsub.addNode h, has_addNode hsub h⟩

/-- `newGraph.addNodes(connection.from, connection.to); newGraph.addConnection(connection)` -/
def addWithNodes (newGraph : DirectedGraph) (c : GraphConnection) :
    Except GraphError DirectedGraph :=
  (newGraph.addNodes [c.from, c.to]).addConnection c

/-- The connection and the nodes it joins. -/
def PartOf (c : GraphConnection) (x : INode ⊕ GraphConnection) : Prop :=
  x = .inl c.from ∨ x = .inl c.to ∨ x = .inr c

theorem collects_addWithNodes (hg : g.JoinsNodes) (hc : c ∈ g.getConnections) :
    Collects (IsSubgraph · g) Has (addWithNodes · c) (PartOf c) := by
  intro sub hsub
  obtain ⟨hf, ht⟩ := hg c hc
  have hsub₁ := hsub.addNode hf
  have hsub₂ := hsub₁.addNode ht
  have hhas : ∀ x, (sub.addNodes [c.from, c.to]).Has x ↔
      (sub.Has x ∨ x = .inl c.from) ∨ x = .inl c.to := fun x => by
    change ((sub.addNode c.from).addNode c.to).Has x ↔ _
    rw [has_addNode hsub₁ ht, has_addNode hsub hf]
  have hadded : ∀ x, ((sub.addNodes [c.from, c.to]).setConnection c).Has x ↔
      sub.Has x ∨ PartOf c x := by
    rintro (n | d)
    · rw [PartOf, ← or_assoc, ← or_assoc, ← hhas]
      simp [Has, HasNode, setConnection]
    · have hd := hhas (.inr d)
      simp only [Has, reduceCtorEq, or_false] at hd
      simp only [Has, mem_getConnections_setConnection, hd, PartOf, reduceCtorEq, false_or,
        Sum.inr.injEq]
      by_cases hdc : d = c
      · simp [hdc]
      · simp only [hdc, false_or, or_false]
        exact ⟨And.right, fun hs => ⟨fun hk => hdc (eq_of_makeKey (hsub (.inr d) hs) hc hk), hs⟩⟩
  refine ⟨_, addConnection_eq_ok ((hhas (.inl c.from)).mpr (by simp))
    ((hhas (.inl c.to)).mpr (by simp)), fun x hx => ?_, hadded⟩
  rcases (hadded x).mp hx with hx | rfl | rfl | rfl
  · exact hsub x hx
  · exact hf
  · exact ht
  · exact hc

end DirectedGraph

end N8n
