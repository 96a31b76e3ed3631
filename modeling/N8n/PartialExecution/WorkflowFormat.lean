import N8n.Lib.Run
import N8n.PartialExecution.DirectedGraph

/-!
# The workflow format and back

`toIConnections` writes the connections of a graph into the nested format of a workflow :
by source node, by type, by output index. `fromNodesAndConnections` reads that format.

The export creates the record of a source node with the type of its first connection as
the only key. A second type finds no array and the export fails
(`exists_toIConnections_iff`); it also fails for a source node named like a member of
`Object.prototype`, whose inherited value is taken for the record. Whenever the export
succeeds, importing it gives the graph back (`fromNodesAndConnections_toIConnections`).
-/

open Lib

namespace N8n

namespace DirectedGraph

/-! ## Export -/

/-- `result[from.name] ?? { [type]: [] }` . For an inherited member the next access, to
the key `type` of it, fails. -/
def sourceRecord (result : IConnections) (c : GraphConnection) :
    Except GraphError INodeConnections :=
  match result.get? c.from.name with
  | some resultConnection => .ok resultConnection
  | none =>
    if c.from.name ∈ objectPrototypeKeys then .error .typeError
    else .ok ((∅ : INodeConnections).set c.type [])

/-- The connection as the workflow format has it. -/
def toIConnection (c : GraphConnection) : IConnection :=
  { node := c.to.name, type := c.type, index := c.inputIndex }

def exportConnection (result : IConnections) (c : GraphConnection) :
    Except GraphError IConnections := do
  let resultConnection ← sourceRecord result c
  match resultConnection.get? c.type with
  | none => .error .typeError
  | some outputs =>
    let group := (outputs.getD c.outputIndex none).getD []
    let outputs := growSet none outputs c.outputIndex (some (group ++ [toIConnection c]))
    .ok (result.set c.from.name (resultConnection.set c.type outputs))

def toIConnections (g : DirectedGraph) : Except GraphError IConnections :=
  g.getConnections.foldlM exportConnection ∅

/-! ## Import -/

/-- `a.ok(value)` -/
def assertOk {β : Type} : Option β → Except GraphError β
  | some x => .ok x
  | none => .error (.assertion "The expression evaluated to a falsy value")

def importOutput (nodeMap : OrderedMap String INode) («from» : INode) (outputType : NodeConnectionType)
    (graph : DirectedGraph) (output : Option (List IConnection) × ℕ) :
    Except GraphError DirectedGraph :=
  (output.1.getD []).foldlM (fun graph conn => do
    let «to» ← assertOk (nodeMap.get? conn.node)
    graph.addConnection
      { «from», «to», type := outputType, outputIndex := output.2, inputIndex := conn.index })
    graph

def importType (nodeMap : OrderedMap String INode) («from» : INode) (graph : DirectedGraph)
    (entry : NodeConnectionType × NodeInputConnections) : Except GraphError DirectedGraph :=
  entry.2.zipIdx.foldlM (importOutput nodeMap «from» entry.1) graph

def importNode (nodeMap : OrderedMap String INode) (graph : DirectedGraph)
    (entry : String × INodeConnections) : Except GraphError DirectedGraph := do
  let «from» ← assertOk (nodeMap.get? entry.1)
  entry.2.entries.foldlM (importType nodeMap «from») graph

def fromNodesAndConnections (nodes : List INode) (connections : IConnections) :
    Except GraphError DirectedGraph :=
  let graph := (∅ : DirectedGraph).addNodes nodes
  let nodeMap := nodes.foldl (fun m node => m.set node.name node) ∅
  (objectEntries connections).foldlM (importNode nodeMap) graph

/-! ## What the export contains -/

/-- The workflow format lists `conn` at this source, type and output index. -/
def Lists (ic : IConnections) (name : String) (type : NodeConnectionType) (outputIndex : ℕ)
    (conn : IConnection) : Prop :=
  ∃ m outputs conns, ic.get? name = some m ∧ m.get? type = some outputs ∧
    outputs.getD outputIndex none = some conns ∧ conn ∈ conns

/-- `result` is what exporting `cs` gives. -/
structure Exported (cs : List GraphConnection) (result : IConnections) : Prop where
  lists : ∀ name type i conn, Lists result name type i conn ↔
    ∃ c ∈ cs, c.from.name = name ∧ c.type = type ∧ c.outputIndex = i ∧ toIConnection c = conn
  record : ∀ c ∈ cs, ∃ m, result.get? c.from.name = some m ∧ m.keys = [c.type]
  own : ∀ name m, result.get? name = some m →
    name ∉ objectPrototypeKeys ∧ ∃ c ∈ cs, c.from.name = name

theorem exported_nil : Exported [] ∅ where
  lists := by simp [Lists]
  record := by simp
  own := by simp

section Step

variable {cs : List GraphConnection} {result result' : IConnections} {c : GraphConnection}
  {m : INodeConnections} {outputs : NodeInputConnections}

/-- A step that succeeds appends to the array the record of the source has for the type. -/
theorem exportConnection_eq_ok (h : exportConnection result c = .ok result') :
    ∃ m outputs, sourceRecord result c = .ok m ∧ m.get? c.type = some outputs ∧
      result' = result.set c.from.name (m.set c.type (growSet none outputs c.outputIndex
        (some ((outputs.getD c.outputIndex none).getD [] ++ [toIConnection c])))) := by
  obtain ⟨m, hm, h⟩ := bind_eq_ok.mp h
  cases hout : m.get? c.type with
  | none => simp [hout] at h
  | some outputs =>
    simp only [hout, Except.ok.injEq] at h
    exact ⟨m, outputs, hm, hout, h.symm⟩

/-- A new record lists nothing, so it does not matter whether the record was there. -/
theorem lists_sourceRecord (h : sourceRecord result c = .ok m) (type : NodeConnectionType) (i : ℕ)
    (conn : IConnection) :
    (∃ outputs conns, m.get? type = some outputs ∧ outputs.getD i none = some conns ∧
      conn ∈ conns) ↔ Lists result c.from.name type i conn := by
  unfold sourceRecord at h
  cases hr : result.get? c.from.name with
  | some m' =>
    obtain rfl : m' = m := by simpa [hr] using h
    simp [Lists, hr]
  | none =>
    simp only [hr] at h
    split_ifs at h
    cases h
    simp only [Lists, hr, reduceCtorEq, false_and, exists_false, iff_false, OrderedMap.get?_set,
      OrderedMap.get?_empty]
    rintro ⟨outputs, conns, hout, hconns, -⟩
    split_ifs at hout
    cases hout
    simp at hconns

/-- What one export step does to the listed connections. -/
theorem lists_exportConnection (h : exportConnection result c = .ok result') (name : String)
    (type : NodeConnectionType) (i : ℕ) (conn : IConnection) :
    Lists result' name type i conn ↔ Lists result name type i conn ∨
      (c.from.name = name ∧ c.type = type ∧ c.outputIndex = i ∧ toIConnection c = conn) := by
  obtain ⟨m, outputs, hm, hout, rfl⟩ := exportConnection_eq_ok h
  by_cases hname : c.from.name = name
  · subst hname
    rw [← lists_sourceRecord hm]
    simp only [Lists, OrderedMap.get?_set_self, Option.some.injEq, exists_and_left,
      exists_eq_left', OrderedMap.get?_set]
    by_cases htype : c.type = type
    · subst htype
      simp only [if_true, hout, Option.some.injEq, exists_eq_left', getD_growSet, true_and]
      by_cases hi : c.outputIndex = i
      · subst hi
        simp only [if_true, Option.some.injEq, exists_eq_left', true_and, List.mem_append,
          List.mem_singleton, eq_comm (a := conn)]
        cases outputs.getD c.outputIndex none <;> simp
      · simp [hi]
    · simp [htype]
  · simp [Lists, OrderedMap.get?_set, hname]

/-- The record a step writes to has the type as its only key. -/
theorem Exported.keys_sourceRecord (he : Exported cs result) (hm : sourceRecord result c = .ok m)
    (hout : m.get? c.type = some outputs) :
    m.keys = [c.type] ∧ c.from.name ∉ objectPrototypeKeys := by
  unfold sourceRecord at hm
  cases hr : result.get? c.from.name with
  | none =>
    simp only [hr] at hm
    split_ifs at hm with hp
    cases hm
    exact ⟨rfl, hp⟩
  | some m' =>
    obtain rfl : m' = m := by simpa [hr] using hm
    obtain ⟨hp, d, hd, hname⟩ := he.own _ _ hr
    obtain ⟨m', hm', hk⟩ := he.record d hd
    rw [hname, hr, Option.some.injEq] at hm'
    subst hm'
    have hmem := OrderedMap.mem_keys_iff.mpr ⟨_, hout⟩
    rw [hk, List.mem_singleton] at hmem
    exact ⟨by rw [hk, hmem], hp⟩

theorem Exported.step (he : Exported cs result) (h : exportConnection result c = .ok result') :
    Exported (cs ++ [c]) result' := by
  have hlists := lists_exportConnection h
  obtain ⟨m, outputs, hm, hout, rfl⟩ := exportConnection_eq_ok h
  obtain ⟨hkeys, hproto⟩ := he.keys_sourceRecord hm hout
  refine ⟨fun name type i conn => ?_, fun d hd => ?_, fun name m' hm' => ?_⟩
  · rw [hlists, he.lists]
    simp only [List.mem_append, List.mem_singleton, or_and_right, exists_or, exists_eq_left]
  · by_cases hname : c.from.name = d.from.name
    · refine ⟨_, by rw [hname, OrderedMap.get?_set_self], ?_⟩
      have hmem : c.type ∈ m.entries.map Prod.fst := OrderedMap.mem_keys_iff.mpr ⟨_, hout⟩
      rw [OrderedMap.keys, OrderedMap.set, OrderedMap.map_fst_put, if_pos hmem]
      change m.keys = [d.type]
      rw [hkeys]
      rcases List.mem_append.mp hd with hd | hd
      · obtain ⟨m', hm', hk⟩ := he.record d hd
        have hrec : sourceRecord result c = .ok m' := by simp [sourceRecord, hname, hm']
        rw [hrec, Except.ok.injEq] at hm
        rw [← hkeys, ← hm, hk]
      · rw [List.mem_singleton.mp hd]
    · rw [OrderedMap.get?_set_of_ne _ _ hname]
      refine he.record d ((List.mem_append.mp hd).resolve_right fun hdc => hname ?_)
      rw [List.mem_singleton.mp hdc]
  · rw [OrderedMap.get?_set] at hm'
    split_ifs at hm' with hname
    · exact ⟨hname ▸ hproto, c, by simp, hname⟩
    · obtain ⟨hp, d, hd, hdn⟩ := he.own name m' hm'
      exact ⟨hp, d, by simp [hd], hdn⟩

end Step

/-- A step succeeds when the record, if it is there, is of the right type. -/
theorem Exported.exists_step {cs : List GraphConnection} {result : IConnections}
    {c : GraphConnection} (he : Exported cs result) (hp : c.from.name ∉ objectPrototypeKeys)
    (ht : ∀ d ∈ cs, d.from.name = c.from.name → d.type = c.type) :
    ∃ result', exportConnection result c = .ok result' := by
  unfold exportConnection
  cases hr : result.get? c.from.name with
  | none =>
    simp only [sourceRecord, hr, if_neg hp, bind, Except.bind, OrderedMap.get?_set_self]
    exact ⟨_, rfl⟩
  | some m =>
    obtain ⟨-, d, hd, hname⟩ := he.own _ _ hr
    obtain ⟨m', hm', hk⟩ := he.record d hd
    rw [hname, hr, Option.some.injEq] at hm'
    subst hm'
    obtain ⟨outputs, hout⟩ := OrderedMap.mem_keys_iff.mp
      (show c.type ∈ m.keys by rw [hk, ht d hd hname]; simp)
    simp only [sourceRecord, hr, bind, Except.bind, hout]
    exact ⟨_, rfl⟩

theorem Exported.foldlM {done cs : List GraphConnection} {result result' : IConnections}
    (he : Exported done result) (h : cs.foldlM exportConnection result = .ok result') :
    Exported (done ++ cs) result' := by
  induction cs generalizing done result with
  | nil =>
    cases h
    simpa using he
  | cons c cs ih =>
    rw [List.foldlM_cons] at h
    obtain ⟨r, hc, h⟩ := bind_eq_ok.mp h
    simpa using ih (he.step hc) h

theorem Exported.exists_foldlM {done cs : List GraphConnection} {result : IConnections}
    (he : Exported done result) (hp : ∀ c ∈ cs, c.from.name ∉ objectPrototypeKeys)
    (ht : ∀ c ∈ done ++ cs, ∀ d ∈ done ++ cs, c.from.name = d.from.name → c.type = d.type) :
    ∃ result', cs.foldlM exportConnection result = .ok result' := by
  induction cs generalizing done result with
  | nil => exact ⟨result, rfl⟩
  | cons c cs ih =>
    obtain ⟨r, hr⟩ := he.exists_step (hp c (by simp)) fun d hd hname =>
      ht d (by simp [hd]) c (by simp) hname
    obtain ⟨result', h⟩ := ih (he.step hr) (fun d hd => hp d (by simp [hd])) (by simpa using ht)
    exact ⟨result', by rw [List.foldlM_cons, hr]; exact h⟩

/-- No node emits connections of two types. -/
def OneTypePerNode (g : DirectedGraph) : Prop :=
  ∀ c ∈ g.getConnections, ∀ d ∈ g.getConnections, c.from = d.from → c.type = d.type

/-- No node with an outgoing connection is named like an inherited member of objects. -/
def NoInheritedNames (g : DirectedGraph) : Prop :=
  ∀ c ∈ g.getConnections, c.from.name ∉ objectPrototypeKeys

variable {g : DirectedGraph}

theorem exported_toIConnections {ic : IConnections} (h : g.toIConnections = .ok ic) :
    Exported g.getConnections ic := by
  simpa using exported_nil.foldlM h

/-! ## The import of an export -/

/-- `graph` has the nodes of `g`, and only connections of `g`. -/
structure Within (g graph : DirectedGraph) : Prop where
  nodes : graph.nodes = g.nodes
  connections : ∀ c ∈ graph.getConnections, c ∈ g.getConnections

/-- Between graphs within `g` the step succeeds and adds the connections that satisfy `P`. -/
def Adds (g : DirectedGraph) (P : GraphConnection → Prop)
    (step : DirectedGraph → Except GraphError DirectedGraph) : Prop :=
  Collects (Within g) (fun graph c => c ∈ graph.getConnections) step P

theorem adds_addConnection (hg : g.JoinsNodes) {c : GraphConnection} (hc : c ∈ g.getConnections) :
    Adds g (· = c) (fun graph => graph.addConnection c) := by
  intro graph hw
  have hnode : ∀ n, g.HasNode n → graph.HasNode n := fun n hn => by
    rwa [HasNode, hw.nodes]
  refine ⟨_, addConnection_eq_ok (hnode _ (hg c hc).1) (hnode _ (hg c hc).2),
    ⟨hw.nodes, fun d hd => ?_⟩, fun d => ?_⟩
  · rcases mem_getConnections_setConnection.mp hd with rfl | ⟨-, hd⟩
    · exact hc
    · exact hw.connections d hd
  · refine mem_getConnections_setConnection.trans ?_
    by_cases hdc : d = c
    · simp [hdc]
    · -- both are connections of `g`, where the key determines the connection
      have hk : d ∈ graph.getConnections → makeKey d ≠ makeKey c := fun hd hk =>
        hdc (eq_of_makeKey (hw.connections d hd) hc hk)
      simp only [hdc, false_or, or_false]
      exact ⟨And.right, fun hd => ⟨hk hd, hd⟩⟩

/-- `c` is the connection of `g` this place of the workflow format describes. -/
def Describes (g : DirectedGraph) (name : String) (type : NodeConnectionType) (i : ℕ)
    (conn : IConnection) (c : GraphConnection) : Prop :=
  c ∈ g.getConnections ∧ c.from.name = name ∧ c.type = type ∧ c.outputIndex = i ∧
    toIConnection c = conn

theorem eq_of_describes (hg : g.JoinsNodes) {name : String} {type : NodeConnectionType} {i : ℕ}
    {conn : IConnection} {c d : GraphConnection} (hc : Describes g name type i conn c)
    (hd : Describes g name type i conn d) : c = d := by
  obtain ⟨hc, hcf, hct, hco, hcc⟩ := hc
  obtain ⟨hd, hdf, hdt, hdo, hdc⟩ := hd
  rw [← hdc] at hcc
  injection hcc with hto _ hinput
  have hfrom := (hg c hc).1.eq_of_name (hg d hd).1 (hcf.trans hdf.symm)
  have hto := (hg c hc).2.eq_of_name (hg d hd).2 hto
  cases c
  cases d
  simp_all

section Import

variable {name : String} {«from» : INode} {type : NodeConnectionType}

theorem adds_importOutput (hg : g.JoinsNodes) (hfrom : g.nodes.get? name = some «from»)
    {output : Option (List IConnection) × ℕ}
    (h : ∀ conn ∈ output.1.getD [], ∃ d, Describes g name type output.2 conn d) :
    Adds g (fun c => ∃ conn ∈ output.1.getD [], Describes g name type output.2 conn c)
      (fun graph => importOutput g.nodes «from» type graph output) := by
  refine collects_foldlM fun conn hconn => ?_
  obtain ⟨d, hd⟩ := h conn hconn
  have hstep : ∀ graph : DirectedGraph, (do
      let «to» ← assertOk (g.nodes.get? conn.node)
      graph.addConnection
        { «from», «to», type, outputIndex := output.2, inputIndex := conn.index }) =
      graph.addConnection d := by
    intro graph
    obtain ⟨hd, hname, rfl, ho, rfl⟩ := hd
    have hto : g.nodes.get? (toIConnection d).node = some d.to := (hg d hd).2
    have hdf : g.nodes.get? d.from.name = some d.from := (hg d hd).1
    rw [hname, hfrom, Option.some.injEq] at hdf
    rw [hto, hdf, ← ho]
    rfl
  simp only [hstep]
  refine (adds_addConnection hg hd.1).congr fun c => ⟨?_, fun hc => eq_of_describes hg hc hd⟩
  rintro rfl
  exact hd

theorem getD_of_mem_zipIdx {outputs : NodeInputConnections} {output : Option (List IConnection) × ℕ}
    (h : output ∈ outputs.zipIdx) : outputs.getD output.2 none = output.1 := by
  rw [List.getD_eq_getElem?_getD, List.mk_mem_zipIdx_iff_getElem?.mp h]
  rfl

/-- The connections that are listed, with the indexes of their outputs. -/
theorem exists_mem_zipIdx_iff {outputs : NodeInputConnections} {P : ℕ → IConnection → Prop} :
    (∃ output ∈ outputs.zipIdx, ∃ conn ∈ output.1.getD [], P output.2 conn) ↔
      ∃ i, ∃ conn ∈ (outputs.getD i none).getD [], P i conn := by
  constructor
  · rintro ⟨output, hout, conn, hconn, hP⟩
    exact ⟨output.2, conn, by rwa [getD_of_mem_zipIdx hout], hP⟩
  · rintro ⟨i, conn, hconn, hP⟩
    cases ho : outputs[i]? with
    | none => simp [List.getD_eq_getElem?_getD, ho] at hconn
    | some output =>
      have hout := List.mk_mem_zipIdx_iff_getElem?.mpr ho
      exact ⟨(output, i), hout, conn, by rwa [getD_of_mem_zipIdx hout] at hconn, hP⟩

theorem adds_importType (hg : g.JoinsNodes) (hfrom : g.nodes.get? name = some «from»)
    {outputs : NodeInputConnections}
    (h : ∀ i, ∀ conn ∈ (outputs.getD i none).getD [], ∃ d, Describes g name type i conn d) :
    Adds g (fun c => ∃ i, ∃ conn ∈ (outputs.getD i none).getD [], Describes g name type i conn c)
      (fun graph => importType g.nodes «from» graph (type, outputs)) := by
  refine (collects_foldlM fun output hout => adds_importOutput hg hfrom fun conn hconn => ?_).congr
    fun c => exists_mem_zipIdx_iff (P := fun i conn => Describes g name type i conn c)
  rw [← getD_of_mem_zipIdx hout] at hconn
  exact h output.2 conn hconn

end Import

/-- Importing what exporting `g` gave adds the connections of `g`. -/
theorem adds_importNodes (hg : g.JoinsNodes) {ic : IConnections}
    (he : Exported g.getConnections ic) :
    Adds g (· ∈ g.getConnections)
      (fun graph => (objectEntries ic).foldlM (importNode g.nodes) graph) := by
  have hdesc : ∀ name m type outputs i conn, ic.get? name = some m → m.get? type = some outputs →
      conn ∈ (outputs.getD i none).getD [] → ∃ d, Describes g name type i conn d := by
    intro name m type outputs i conn hm hout hconn
    obtain ⟨conns, hconns, hconn⟩ : ∃ conns, outputs.getD i none = some conns ∧ conn ∈ conns := by
      cases ho : outputs.getD i none with
      | none =>
        rw [ho] at hconn
        simp at hconn
      | some conns =>
        rw [ho] at hconn
        exact ⟨conns, rfl, hconn⟩
    obtain ⟨d, hd, hrest⟩ := (he.lists name type i conn).mp ⟨m, outputs, conns, hm, hout, hconns, hconn⟩
    exact ⟨d, hd, hrest⟩
  have hnode : ∀ entry ∈ objectEntries ic,
      Adds g (fun c => ∃ type outputs, (type, outputs) ∈ entry.2.entries ∧
          ∃ i, ∃ conn ∈ (outputs.getD i none).getD [], Describes g entry.1 type i conn c)
        (fun graph => importNode g.nodes graph entry) := by
    rintro ⟨name, m⟩ hentry
    have hm := mem_objectEntries.mp hentry
    obtain ⟨-, d, hd, rfl⟩ := he.own name m hm
    have hfrom : g.nodes.get? d.from.name = some d.from := (hg d hd).1
    have hstep : ∀ graph : DirectedGraph, importNode g.nodes graph (d.from.name, m) =
        m.entries.foldlM (importType g.nodes d.from) graph := by
      intro graph
      simp only [importNode, hfrom]
      rfl
    simp only [hstep]
    refine (collects_foldlM fun entry hentry => adds_importType hg hfrom fun i conn hconn =>
      hdesc _ m _ entry.2 i conn hm (OrderedMap.mem_entries_iff.mp hentry) hconn).congr fun c => ?_
    simp only [Prod.exists]
  refine (collects_foldlM hnode).congr fun c => ⟨?_, fun hc => ?_⟩
  · rintro ⟨_, _, _, _, _, _, _, _, hc⟩
    exact hc.1
  · obtain ⟨m, outputs, conns, hm, hout, hconns, hconn⟩ :=
      (he.lists c.from.name c.type c.outputIndex (toIConnection c)).mpr ⟨c, hc, rfl, rfl, rfl, rfl⟩
    exact ⟨(_, m), mem_objectEntries.mpr hm, c.type, outputs, OrderedMap.mem_entries_iff.mpr hout,
      c.outputIndex, toIConnection c, by rwa [hconns], hc, rfl, rfl, rfl, rfl⟩

/-- Importing the export of a graph gives the graph back. -/
theorem fromNodesAndConnections_toIConnections (hg : g.JoinsNodes) {ic : IConnections}
    (h : g.toIConnections = .ok ic) :
    ∃ g', fromNodesAndConnections g.getNodes ic = .ok g' ∧ g'.nodes = g.nodes ∧
      ∀ c, c ∈ g'.getConnections ↔ c ∈ g.getConnections := by
  have hnodes : ((∅ : DirectedGraph).addNodes g.getNodes).nodes = g.nodes := by
    rw [nodes_addNodes]
    exact foldl_set_getNodes
  have hconns : ((∅ : DirectedGraph).addNodes g.getNodes).getConnections = [] := by
    rw [getConnections, connections_addNodes]
    rfl
  obtain ⟨g', hg', hw, hc⟩ := adds_importNodes hg (exported_toIConnections h)
    ((∅ : DirectedGraph).addNodes g.getNodes) ⟨hnodes, by simp [hconns]⟩
  refine ⟨g', ?_, hw.nodes, fun c => by simpa [hconns] using hc c⟩
  rw [fromNodesAndConnections]
  simp only [foldl_set_getNodes]
  exact hg'

/-- The export succeeds exactly when no node emits two types of connections and no
emitting node is named like an inherited member. -/
theorem exists_toIConnections_iff (hg : g.JoinsNodes) :
    (∃ ic, g.toIConnections = .ok ic) ↔ g.OneTypePerNode ∧ g.NoInheritedNames := by
  constructor
  · rintro ⟨ic, h⟩
    have he := exported_toIConnections h
    refine ⟨fun c hc d hd hfrom => ?_, fun c hc => ?_⟩
    · obtain ⟨m, hm, hk⟩ := he.record c hc
      obtain ⟨m', hm', hk'⟩ := he.record d hd
      rw [hfrom, hm', Option.some.injEq] at hm
      subst hm
      simpa [hk'] using hk.symm
    · obtain ⟨m, hm, -⟩ := he.record c hc
      exact (he.own _ _ hm).1
  · rintro ⟨ht, hp⟩
    refine exported_nil.exists_foldlM hp fun c hc d hd hname => ht c hc d hd ?_
    exact (hg c hc).1.eq_of_name (hg d hd).1 hname

/-- A trip through the workflow format gives `g` back. -/
def SurvivesRoundTrip (g : DirectedGraph) : Prop :=
  ∃ ic g', g.toIConnections = .ok ic ∧ fromNodesAndConnections g.getNodes ic = .ok g' ∧
    (∀ n, g'.HasNode n ↔ g.HasNode n) ∧ ∀ c, c ∈ g'.getConnections ↔ c ∈ g.getConnections

theorem survivesRoundTrip_iff (hg : g.JoinsNodes) :
    g.SurvivesRoundTrip ↔ g.OneTypePerNode ∧ g.NoInheritedNames := by
  rw [← exists_toIConnections_iff hg]
  constructor
  · rintro ⟨ic, -, h, -⟩
    exact ⟨ic, h⟩
  · rintro ⟨ic, h⟩
    obtain ⟨g', hg', hnodes, hc⟩ := fromNodesAndConnections_toIConnections hg h
    exact ⟨ic, g', h, hg', fun n => by simp only [HasNode, hnodes], hc⟩

/-- A trigger with two outputs into one node. -/
def twoOutputs : DirectedGraph :=
  ofLists [.named "Trigger", .named "Node"]
    [{ «from» := .named "Trigger", «to» := .named "Node" },
      { «from» := .named "Trigger", «to» := .named "Node", outputIndex := 2, inputIndex := 1 }]

theorem survivesRoundTrip_iff_twoOutputs :
    twoOutputs.SurvivesRoundTrip ↔ twoOutputs.OneTypePerNode ∧ twoOutputs.NoInheritedNames :=
  survivesRoundTrip_iff (by decide)

/-- A node that is a tool of an agent and also has a regular output. -/
def toolWithMain : DirectedGraph :=
  ofLists [.named "Tool", .named "Agent", .named "Node"]
    [{ «from» := .named "Tool", «to» := .named "Node" },
      { «from» := .named "Tool", «to» := .named "Agent", type := .aiTool }]

theorem not_survivesRoundTrip_toolWithMain :
    toolWithMain.JoinsNodes ∧ ¬toolWithMain.SurvivesRoundTrip := by
  refine ⟨by decide, ?_⟩
  rintro ⟨ic, -, h, -⟩
  have herr : toolWithMain.toIConnections = .error .typeError := rfl
  rw [herr] at h
  cases h

end DirectedGraph

end N8n
