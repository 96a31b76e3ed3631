import N8n.PartialExecution.DirectedGraph

/-!
# Cleaning run data

`cleanRunData` drops the run data of the nodes to clean, of everything downstream of
them, of the sub-nodes of all of these and of nodes outside the graph. Sub-nodes are
connected to their root node by other types than Main, and a sub-node may have sub-nodes
of its own.

The sub-nodes are looked up with `getParentConnections`, which follows every type of
connection. What is deleted is therefore the source of every non-Main connection
anywhere upstream (`get?_cleanRunData`), not only of those that lead to the node without
a Main connection in between.
-/

open Lib

namespace N8n

variable {J : Type}

/-- The run data of the sub-nodes; Main connections are skipped. -/
def deleteSubNodes (newRunData : IRunData J) (subNodeConnections : List GraphConnection) :
    IRunData J :=
  subNodeConnections.foldl
    (fun d c => if c.type = .main then d else d.delete c.from.name) newRunData

def cleanNode (g : DirectedGraph) (newRunData : IRunData J) (nodeToClean : INode) :
    Except GraphError (IRunData J) := do
  let newRunData := newRunData.delete nodeToClean.name
  let children ← g.getChildren nodeToClean
  (nodeToClean :: children).foldlM (fun d node => do
    let d := d.delete node.name
    return deleteSubNodes d (← g.getParentConnections node)) newRunData

def cleanRunData (runData : IRunData J) (g : DirectedGraph) (nodesToClean : List INode) :
    Except GraphError (IRunData J) := do
  let newRunData ← nodesToClean.foldlM (cleanNode g) runData
  -- remove run data of nodes that are not part of the graph
  return (objectKeys newRunData).foldl
    (fun d nodeName => if g.hasNode nodeName then d else d.delete nodeName) newRunData

/-! ## What should go -/

/-- The node is to be cleaned or downstream of one that is. -/
def Downstream (g : DirectedGraph) (nodesToClean : List INode) (n : INode) : Prop :=
  ∃ m ∈ nodesToClean, g.Reachable m n

/-- The node is connected to the other through non-Main connections only. -/
def SubNodeOf (g : DirectedGraph) (n m : INode) : Prop :=
  Relation.TransGen (JoinedBy GraphConnection.from GraphConnection.to
    fun c => c ∈ g.getConnections ∧ c.type ≠ .main) n m

/-- The run data of the node is stale once `nodesToClean` run again. -/
def Stale (g : DirectedGraph) (nodesToClean : List INode) (n : INode) : Prop :=
  Downstream g nodesToClean n ∨ ∃ m, Downstream g nodesToClean m ∧ SubNodeOf g n m

/-- `r` keeps the run data of exactly the nodes of the graph that are not stale. -/
def KeepsFresh (g : DirectedGraph) (nodesToClean : List INode) (runData r : IRunData J) : Prop :=
  ∀ name runs, r.get? name = some runs ↔
    runData.get? name = some runs ∧ ∃ n, g.HasNode n ∧ n.name = name ∧ ¬Stale g nodesToClean n

/-- The node feeds, through a non-Main connection, a node upstream of a dirty one. -/
def FeedsUpstream (g : DirectedGraph) (nodesToClean : List INode) (n : INode) : Prop :=
  ∃ c ∈ g.getConnections, c.type ≠ .main ∧ c.from = n ∧
    ∃ m, Downstream g nodesToClean m ∧ g.Reachable c.to m

variable {g : DirectedGraph} {nodesToClean : List INode} {runData : IRunData J} {n m : INode}

theorem SubNodeOf.feeds (h : SubNodeOf g n m) (hm : Downstream g nodesToClean m) :
    FeedsUpstream g nodesToClean n := by
  obtain ⟨k, ⟨c, ⟨hc, htype⟩, rfl, rfl⟩, hkm⟩ := Relation.TransGen.head'_iff.mp h
  refine ⟨c, hc, htype, rfl, m, hm, Reaches.mono (fun e he => he.1) hkm⟩

theorem hasNode_of_reachable (hg : g.JoinsNodes) (h : g.HasNode n) (hr : g.Reachable n m) :
    g.HasNode m := by
  induction hr with
  | refl => exact h
  | tail _ hstep _ =>
    obtain ⟨c, hc, -, rfl⟩ := hstep
    exact (hg c hc).2

/-! ## What goes -/

theorem deleteSubNodes_eq (d : IRunData J) (cs : List GraphConnection) :
    deleteSubNodes d cs =
      d.deleteAll ((cs.filter (·.type ≠ .main)).map fun c => c.from.name) := by
  induction cs generalizing d with
  | nil => rfl
  | cons c cs ih =>
    rw [deleteSubNodes, List.foldl_cons, ← deleteSubNodes, ih]
    by_cases hc : c.type = .main
    · rw [if_pos hc, List.filter_cons_of_neg (by simpa using hc)]
    · rw [if_neg hc, List.filter_cons_of_pos (by simpa using hc)]
      rfl

/-- Cleaning one node deletes the names of the nodes downstream of it and of the sources
of non-Main connections upstream of these. -/
theorem cleanNode_deletes (hg : g.JoinsNodes) (h : g.HasNode n) :
    ∃ ks, (∀ d : IRunData J, cleanNode g d n = .ok (d.deleteAll ks)) ∧
      ∀ k, k ∈ ks ↔ ∃ m, g.Reachable n m ∧ (m.name = k ∨
        ∃ c ∈ g.getConnections, c.type ≠ .main ∧ c.from.name = k ∧ g.Reachable c.to m) := by
  obtain ⟨children, hch, -, hmem⟩ := DirectedGraph.getChildren_spec hg h
  have hreach : ∀ m, m ∈ n :: children ↔ g.Reachable n m := by
    intro m
    rw [List.mem_cons, hmem, DirectedGraph.Reachable, Reaches, Relation.ReflTransGen.cases_head_iff]
    exact or_congr eq_comm Iff.rfl
  have hstep : ∀ m ∈ n :: children, ∃ ks, (∀ d : IRunData J,
      (do
        let d := d.delete m.name
        return deleteSubNodes d (← g.getParentConnections m) : Except GraphError (IRunData J)) =
          .ok (d.deleteAll ks)) ∧
      ∀ k, k ∈ ks ↔ (m.name = k ∨
        ∃ c ∈ g.getConnections, c.type ≠ .main ∧ c.from.name = k ∧ g.Reachable c.to m) := by
    intro m hm
    obtain ⟨cs, hcs, -, hmem⟩ :=
      DirectedGraph.getParentConnections_spec hg (hasNode_of_reachable hg h ((hreach m).mp hm))
    refine ⟨m.name :: (cs.filter (·.type ≠ .main)).map fun c => c.from.name, fun d => ?_,
      fun k => ?_⟩
    · simp only [hcs, bind, Except.bind, deleteSubNodes_eq]
      rfl
    · simp only [List.mem_cons, List.mem_map, List.mem_filter, hmem, decide_eq_true_eq]
      refine or_congr eq_comm (exists_congr fun c => ?_)
      tauto
  obtain ⟨ks, hks, hP⟩ := OrderedMap.foldlM_deleteAll _ hstep
  refine ⟨n.name :: ks, fun d => ?_, fun k => ?_⟩
  · simp only [cleanNode, hch, bind, Except.bind]
    exact hks (d.delete n.name)
  · simp only [List.mem_cons, hP, hreach]
    constructor
    · rintro (rfl | ⟨m, hm, h⟩)
      · exact ⟨n, .refl, Or.inl rfl⟩
      · exact ⟨m, hm, h⟩
    · rintro ⟨m, hm, h⟩
      exact Or.inr ⟨m, hm, h⟩

/-- The names outside the graph go, the others stay. -/
theorem get?_foldl_hasNode (g : DirectedGraph) (d : IRunData J) (names : List String)
    (k : String) :
    (names.foldl (fun d k => if g.hasNode k then d else d.delete k) d).get? k =
      if k ∈ names ∧ g.hasNode k = false then none else d.get? k := by
  induction names generalizing d with
  | nil => simp
  | cons j names ih =>
    rw [List.foldl_cons, ih]
    by_cases hj : g.hasNode j
    · rw [if_pos hj]
      by_cases hk : k = j
      · subst hk
        simp [hj]
      · simp [hk]
    · rw [if_neg hj, OrderedMap.get?_delete]
      by_cases hk : j = k
      · subst hk
        simp [hj]
      · simp [hk, show k ≠ j from fun he => hk he.symm]

variable (runData) in
/-- `cleanRunData` keeps the entries of the nodes of the graph that are neither
downstream of a node to clean nor feed a node upstream of such a node through a non-Main
connection, with their runs. -/
theorem get?_cleanRunData (hg : g.JoinsNodes) (hclean : ∀ n ∈ nodesToClean, g.HasNode n) :
    ∃ r, cleanRunData runData g nodesToClean = .ok r ∧ ∀ name runs, r.get? name = some runs ↔
      runData.get? name = some runs ∧ ∃ n, g.HasNode n ∧ n.name = name ∧
        ¬Downstream g nodesToClean n ∧ ¬FeedsUpstream g nodesToClean n := by
  obtain ⟨ks, hks, hP⟩ := OrderedMap.foldlM_deleteAll nodesToClean
    fun n hn => cleanNode_deletes (J := J) hg (hclean n hn)
  refine ⟨_, by simp only [cleanRunData, hks, bind, Except.bind]; rfl, fun name runs => ?_⟩
  rw [get?_foldl_hasNode]
  have hget := OrderedMap.get?_deleteAll runData ks name
  -- a node is deleted by name exactly when it is downstream or feeds a node upstream
  have hdel : ∀ n, g.HasNode n → (n.name ∈ ks ↔
      Downstream g nodesToClean n ∨ FeedsUpstream g nodesToClean n) := by
    intro n hn
    rw [hP]
    constructor
    · rintro ⟨a, ha, m, ham, hname | ⟨c, hc, ht, hname, hcm⟩⟩
      · have hm := hasNode_of_reachable hg (hclean a ha) ham
        exact Or.inl ⟨a, ha, hm.eq_of_name hn hname ▸ ham⟩
      · exact Or.inr ⟨c, hc, ht, (hg c hc).1.eq_of_name hn hname, m, ⟨a, ha, ham⟩, hcm⟩
    · rintro (⟨a, ha, han⟩ | ⟨c, hc, ht, rfl, m, ⟨a, ha, ham⟩, hcm⟩)
      · exact ⟨a, ha, n, han, Or.inl rfl⟩
      · exact ⟨a, ha, m, ham, Or.inr ⟨c, hc, ht, rfl, hcm⟩⟩
  by_cases hnode : g.hasNode name
  · obtain ⟨n, hn, rfl⟩ := DirectedGraph.hasNode_iff.mp hnode
    rw [if_neg (by simp [hnode]), hget]
    have hsame : ∀ n', g.HasNode n' → n'.name = n.name → n' = n := fun n' hn' => hn'.eq_of_name hn
    constructor
    · intro h
      split_ifs at h with hk
      rw [hdel n hn, not_or] at hk
      exact ⟨h, n, hn, rfl, hk⟩
    · rintro ⟨h, n', hn', hname, hnot⟩
      obtain rfl := hsame n' hn' hname
      rw [if_neg (by rw [hdel n' hn, not_or]; exact hnot), h]
  · have hno : ∀ n, g.HasNode n → n.name ≠ name := fun n hn hname =>
      hnode (DirectedGraph.hasNode_iff.mpr ⟨n, hn, hname⟩)
    constructor
    · intro h
      split_ifs at h with hk
      have hkey := mem_objectKeys.mpr (OrderedMap.mem_keys_iff.mpr ⟨runs, h⟩)
      exact absurd ⟨hkey, by simpa using hnode⟩ hk
    · rintro ⟨-, n, hn, hname, -⟩
      exact absurd hname (hno n hn)

/-- The cleaned run data is exactly the fresh part if and only if no node with run data
is deleted for feeding a node upstream without being stale. -/
theorem cleanRunData_keepsFresh_iff (hg : g.JoinsNodes)
    (hclean : ∀ n ∈ nodesToClean, g.HasNode n) :
    ∃ r, cleanRunData runData g nodesToClean = .ok r ∧
      (KeepsFresh g nodesToClean runData r ↔ ∀ n, g.HasNode n → runData.has n.name = true →
        FeedsUpstream g nodesToClean n → Stale g nodesToClean n) := by
  obtain ⟨r, hr, hget⟩ := get?_cleanRunData runData hg hclean
  refine ⟨r, hr, fun h n hn hrun hfeeds => ?_, fun h name runs => ?_⟩
  · obtain ⟨runs, hruns⟩ := Option.isSome_iff_exists.mp hrun
    by_contra hfresh
    obtain ⟨-, n', hn', hname, -, hnot⟩ :=
      (hget n.name runs).mp ((h n.name runs).mpr ⟨hruns, n, hn, rfl, hfresh⟩)
    exact hnot (hn'.eq_of_name hn hname ▸ hfeeds)
  · rw [hget]
    refine and_congr_right fun hruns => exists_congr fun n => and_congr_right fun hn =>
      and_congr_right fun hname => ?_
    subst hname
    have hrun : runData.has n.name = true := by rw [OrderedMap.has, hruns]; rfl
    constructor
    · rintro ⟨hd, hf⟩ (hd' | ⟨m, hm, hsub⟩)
      · exact hd hd'
      · exact hf (hsub.feeds hm)
    · intro hfresh
      exact ⟨fun hd => hfresh (Or.inl hd), fun hf => hfresh (h n hn hrun hf)⟩

theorem downstream_append {nodes : List INode} :
    Downstream g (nodesToClean ++ nodes) n ↔ Downstream g nodesToClean n ∨ Downstream g nodes n := by
  simp only [Downstream, List.mem_append, or_and_right, exists_or]

theorem feedsUpstream_append {nodes : List INode} : FeedsUpstream g (nodesToClean ++ nodes) n ↔
    FeedsUpstream g nodesToClean n ∨ FeedsUpstream g nodes n := by
  simp only [FeedsUpstream, downstream_append, or_and_right, exists_or, and_or_left]

/-- Cleaning some nodes and then others leaves what cleaning all of them at once leaves. -/
theorem cleanRunData_append (hg : g.JoinsNodes) {nodes : List INode}
    (hclean : ∀ n ∈ nodesToClean ++ nodes, g.HasNode n) (runData : IRunData J) :
    ∃ r r', cleanRunData runData g nodesToClean = .ok r ∧ cleanRunData r g nodes = .ok r' ∧
      ∃ all, cleanRunData runData g (nodesToClean ++ nodes) = .ok all ∧
        ∀ name, r'.get? name = all.get? name := by
  obtain ⟨hfirst, hthen⟩ := List.forall_mem_append.mp hclean
  obtain ⟨r, hr, hget⟩ := get?_cleanRunData runData hg hfirst
  obtain ⟨r', hr', hget'⟩ := get?_cleanRunData r hg hthen
  obtain ⟨all, hall, hgetAll⟩ := get?_cleanRunData runData hg hclean
  refine ⟨r, r', hr, hr', all, hall, fun name => Option.ext fun runs => ?_⟩
  rw [hget', hget, hgetAll]
  simp only [downstream_append, feedsUpstream_append, not_or]
  constructor
  · rintro ⟨⟨hruns, n, hn, rfl, hd, hf⟩, n', hn', hname, hd', hf'⟩
    obtain rfl := hn'.eq_of_name hn hname
    exact ⟨hruns, n', hn', rfl, ⟨hd, hd'⟩, hf, hf'⟩
  · rintro ⟨hruns, n, hn, hname, ⟨hd, hd'⟩, hf, hf'⟩
    exact ⟨⟨hruns, n, hn, hname, hd, hf⟩, n, hn, hname, hd', hf'⟩

/-! ## An agent upstream of the node to clean -/

/-- `Model` is the language model of `Agent`, and `Agent` leads to `Node`. -/
def agentGraph : DirectedGraph :=
  .ofLists [.named "Agent", .named "Model", .named "Node"]
    [{ «from» := .named "Agent", «to» := .named "Node" },
      { «from» := .named "Model", «to» := .named "Agent", type := .aiLanguageModel }]

/-- Every node of `agentGraph` ran once. -/
def agentRunData : IRunData ℕ :=
  ((∅ : IRunData ℕ).set "Agent" [{}]).set "Model" [{}] |>.set "Node" [{}]

/-- Cleaning `Node` deletes the run data of `Model`, which is no sub-node of `Node`. -/
theorem cleanRunData_not_keepsFresh :
    agentGraph.JoinsNodes ∧ (∀ n ∈ [INode.named "Node"], agentGraph.HasNode n) ∧
      ∃ r, cleanRunData agentRunData agentGraph [.named "Node"] = .ok r ∧
        r.get? "Model" = none ∧ ¬KeepsFresh agentGraph [.named "Node"] agentRunData r := by
  refine ⟨by decide, by decide, _, rfl, rfl, fun h => ?_⟩
  have hdown : ∀ m, Downstream agentGraph [.named "Node"] m → m = .named "Node" := by
    rintro m ⟨n, hn, hr⟩
    obtain rfl := List.mem_singleton.mp hn
    rcases Relation.ReflTransGen.cases_head_iff.mp hr with he | ⟨k, ⟨c, hc, hfrom, -⟩, -⟩
    · exact he.symm
    · exact absurd hfrom (by revert c; decide)
  have hsub : ∀ m, SubNodeOf agentGraph (.named "Model") m → m = .named "Agent" := by
    intro m hm
    have hjoin : ∀ c ∈ agentGraph.getConnections, c.type ≠ .main →
        c.from = .named "Model" ∧ c.to = .named "Agent" := by decide
    induction hm with
    | single hstep =>
      obtain ⟨c, ⟨hc, ht⟩, -, rfl⟩ := hstep
      exact (hjoin c hc ht).2
    | tail _ hstep ih =>
      obtain ⟨c, ⟨hc, ht⟩, -, rfl⟩ := hstep
      exact (hjoin c hc ht).2
  have hfresh : ¬Stale agentGraph [.named "Node"] (.named "Model") := by
    rintro (hd | ⟨m, hm, hs⟩)
    · exact absurd (hdown _ hd) (by decide)
    · exact absurd ((hsub m hs).symm.trans (hdown m hm)) (by decide)
  have hkept := (h "Model" [{}]).mpr ⟨rfl, .named "Model", rfl, rfl, hfresh⟩
  exact absurd hkept nofun

/-- Without run data on `Model` the same call is exact. -/
theorem cleanRunData_keepsFresh_iff_agent :
    ∃ r, cleanRunData (agentRunData.delete "Model") agentGraph [.named "Node"] = .ok r ∧
      (KeepsFresh agentGraph [.named "Node"] (agentRunData.delete "Model") r ↔
        ∀ n, agentGraph.HasNode n → (agentRunData.delete "Model").has n.name = true →
          FeedsUpstream agentGraph [.named "Node"] n → Stale agentGraph [.named "Node"] n) :=
  cleanRunData_keepsFresh_iff (by decide) (by decide)

/-- The dirty node first, then the start node. -/
theorem cleanRunData_append_agent :
    ∃ r r', cleanRunData agentRunData agentGraph [.named "Agent"] = .ok r ∧
      cleanRunData r agentGraph [.named "Node"] = .ok r' ∧
      ∃ all, cleanRunData agentRunData agentGraph ([.named "Agent"] ++ [.named "Node"]) = .ok all ∧
        ∀ name, r'.get? name = all.get? name :=
  cleanRunData_append (by decide) (by decide) agentRunData

end N8n
