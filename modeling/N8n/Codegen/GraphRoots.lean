import N8n.Codegen.SemanticGraph
import N8n.Lib.StackMarking

/-!
# The roots of the semantic graph

From the roots every node is reached that is no subnode. No subnode is a root and no root is
listed twice. A root that was added and has an incoming connection from another disconnected
node stands after all entries of the disconnected part that have none, and none of these reaches
it there (`rootsCover_buildSemanticGraph`).
-/

open Lib Relation

namespace N8n.Codegen

variable {graph : SemanticGraph}

/-- `name` is reached from `root` along outputs. -/
def SemanticGraph.Reaches (graph : SemanticGraph) : String → String → Prop :=
  ReflTransGen fun source target => target ∈ graph.targets source

/-- A node that is no subnode, and that neither a trigger nor a node without incoming connections
reaches. -/
def SemanticGraph.Disconnected (graph : SemanticGraph) (name : String) : Prop :=
  name ∈ graph.nodes.keys ∧ name ∉ graph.subnodeNames ∧
    ∀ root ∈ identifyRoots graph, ¬graph.Reaches root name

/-- Another disconnected node has a connection to `name`. -/
def SemanticGraph.Fed (graph : SemanticGraph) (name : String) : Prop :=
  ∃ other, graph.Disconnected other ∧ other ≠ name ∧ name ∈ graph.targets other

/-- `name` is reached from `entry` through disconnected nodes. -/
def SemanticGraph.ReachesDisconnected (graph : SemanticGraph) : String → String → Prop :=
  ReflTransGen fun source target => target ∈ graph.targets source ∧ graph.Disconnected target

structure RootsCover (graph : SemanticGraph) : Prop where
  reached : ∀ name ∈ graph.nodes.keys, name ∉ graph.subnodeNames →
    ∃ root ∈ graph.roots, graph.Reaches root name
  not_subnode : ∀ root ∈ graph.roots, root ∈ graph.nodes.keys ∧ root ∉ graph.subnodeNames
  nodup : graph.roots.Nodup
  exhausted : ∀ before root after, graph.roots = before ++ root :: after →
    graph.Disconnected root → graph.Fed root → ∀ entry, graph.Disconnected entry →
      ¬graph.Fed entry → entry ∈ before ∧ ¬graph.ReachesDisconnected entry root

/-! ## Enough rounds -/

theorem mem_keys_of_targets_ne_nil {name : String} (h : graph.targets name ≠ []) :
    name ∈ graph.nodes.keys := by
  by_contra hkey
  rw [SemanticGraph.targets, OrderedMap.get?_eq_none_iff.mpr hkey] at h
  exact h rfl

theorem markReachable_eq (scope : String → Bool) (fuel : ℕ) (stack processed : List String) :
    markReachable graph scope fuel stack processed =
      markFrom graph.targets scope fuel stack processed := by
  induction fuel generalizing stack processed with
  | zero => rfl
  | succ fuel ih =>
    cases stack with
    | nil => rfl
    | cons current stack =>
      rw [markReachable, markFrom, ih, ih]

/-- The connections of all nodes. -/
theorem sum_length_targets (graph : SemanticGraph) :
    (graph.nodes.keys.map fun name => (graph.targets name).length).sum =
      (graph.nodes.keys.flatMap graph.targets).length := by
  rw [List.length_flatMap]

/-! ## The first roots -/

theorem identifyRoots_sublist (graph : SemanticGraph) :
    (identifyRoots graph).Sublist graph.nodes.keys :=
  List.filter_sublist.map Prod.fst

theorem not_subnode_of_mem_identifyRoots {root : String} (h : root ∈ identifyRoots graph) :
    root ∉ graph.subnodeNames := by
  obtain ⟨entry, hentry, rfl⟩ := List.mem_map.mp h
  exact (of_decide_eq_true (List.mem_filter.mp hentry).2).1

/-! ## The roots of the disconnected part -/

/-- What `findDisconnectedRoots` finds to be disconnected. -/
def disconnectedNames (graph : SemanticGraph) : List String :=
  graph.nodes.keys.filter fun name =>
    name ∉ markReachable graph (fun _ => true) (graph.roots.length + markFuel graph)
      graph.roots.reverse [] ∧ name ∉ graph.subnodeNames

/-- The disconnected nodes without connections from others. -/
def unfedNames (graph : SemanticGraph) : List String :=
  (disconnectedNames graph).filter fun name =>
    ¬(disconnectedNames graph).any fun other => other ≠ name ∧ name ∈ graph.targets other

/-- Enters at each of the names : the entries and what is marked. -/
def enterAll (graph : SemanticGraph) (names : List String) (state : List String × List String) :
    List String × List String :=
  names.foldl (enter graph.targets (· ∈ disconnectedNames graph) (markFuel graph)) state

theorem findDisconnectedRoots_eq (graph : SemanticGraph) :
    findDisconnectedRoots graph =
      (enterAll graph (disconnectedNames graph) (enterAll graph (unfedNames graph) ([], []))).1 := by
  have henter : enter graph.targets (· ∈ disconnectedNames graph) (markFuel graph) =
      fun (state : List String × List String) name =>
        if name ∈ state.2 then state
        else (state.1 ++ [name], markReachable graph (· ∈ disconnectedNames graph)
          (markFuel graph) [name] state.2) := by
    funext state name
    rw [enter, markReachable_eq]
  rw [enterAll, enterAll, henter]
  rfl

theorem mem_disconnectedNames (hroots : graph.roots = identifyRoots graph) {name : String} :
    name ∈ disconnectedNames graph ↔ graph.Disconnected name := by
  have hwork : workLeft graph.targets graph.nodes.keys graph.roots.reverse [] <
      graph.roots.length + markFuel graph := by
    have hsum := sum_length_targets graph
    simp only [workLeft, List.length_reverse, List.not_mem_nil, not_false_eq_true, decide_true,
      List.filter_true, markFuel]
    omega
  have hmarks : Marks graph.targets (fun _ => true) graph.roots.reverse [] _ :=
    marks_markFrom graph.nodes.nodup_keys' (fun _ => mem_keys_of_targets_ne_nil) hwork
  have hreaches : ReflTransGen (StepsWithin graph.targets fun _ => true) = graph.Reaches := by
    congr 1
    funext source target
    exact propext (and_iff_left rfl)
  rw [disconnectedNames, List.mem_filter, decide_eq_true_iff, markReachable_eq, hmarks.mem_iff,
    hreaches, SemanticGraph.Disconnected, ← hroots]
  simp only [List.mem_reverse, not_exists, not_and]
  exact and_congr_right fun _ => and_comm

theorem stepsWithin_iff (hroots : graph.roots = identifyRoots graph) {source target : String} :
    StepsWithin graph.targets (· ∈ disconnectedNames graph) source target ↔
      target ∈ graph.targets source ∧ graph.Disconnected target := by
  rw [StepsWithin, decide_eq_true_iff, mem_disconnectedNames hroots]

theorem reachesDisconnected_eq (hroots : graph.roots = identifyRoots graph) :
    ReflTransGen (StepsWithin graph.targets (· ∈ disconnectedNames graph)) =
      graph.ReachesDisconnected := by
  rw [SemanticGraph.ReachesDisconnected]
  congr 1
  funext source target
  exact propext (stepsWithin_iff hroots)

theorem SemanticGraph.ReachesDisconnected.reaches {entry name : String}
    (h : graph.ReachesDisconnected entry name) : graph.Reaches entry name := by
  have hsteps : (fun source target => target ∈ graph.targets source ∧ graph.Disconnected target) ≤
      fun source target => target ∈ graph.targets source := fun _ _ hstep => hstep.1
  exact ReflTransGen.mono hsteps entry name h

theorem mem_unfedNames (hroots : graph.roots = identifyRoots graph) {name : String} :
    name ∈ unfedNames graph ↔ graph.Disconnected name ∧ ¬graph.Fed name := by
  simp only [unfedNames, List.mem_filter, mem_disconnectedNames hroots, decide_eq_true_iff,
    List.any_eq_true, SemanticGraph.Fed]

theorem entryFree_of_not_fed (hroots : graph.roots = identifyRoots graph) {name : String}
    (h : ¬graph.Fed name) :
    EntryFree graph.targets (· ∈ disconnectedNames graph) name := by
  intro other hother htarget
  by_contra hne
  exact h ⟨other, (mem_disconnectedNames hroots).mp (of_decide_eq_true hother), hne, htarget⟩

theorem entered_enterAll {names : List String} {state : List String × List String}
    (hnames : names ⊆ disconnectedNames graph)
    (h : Entered graph.targets (· ∈ disconnectedNames graph) state) :
    Entered graph.targets (· ∈ disconnectedNames graph) (enterAll graph names state) ∧
      Enters names state (enterAll graph names state) := by
  refine h.foldl_enter graph.nodes.nodup_keys' (fun _ => mem_keys_of_targets_ne_nil) names
    fun name hname => ?_
  have hpos : 0 < graph.nodes.size := by
    rw [← OrderedMap.length_keys]
    exact List.length_pos_of_mem (List.mem_filter.mp (hnames hname)).1
  rw [sum_length_targets, markFuel]
  omega

/-- The nodes that are entered first, and what is marked at the end. -/
structure EntersDisconnected (graph : SemanticGraph) (first marked : List String) : Prop where
  entered : Entered graph.targets (· ∈ disconnectedNames graph)
    (findDisconnectedRoots graph, marked)
  covers : disconnectedNames graph ⊆ marked
  isPrefix : first <+: findDisconnectedRoots graph
  source : ∀ root ∈ findDisconnectedRoots graph, root ∈ disconnectedNames graph
  mem_first : ∀ name, name ∈ first ↔ name ∈ unfedNames graph

theorem exists_entersDisconnected (hroots : graph.roots = identifyRoots graph) :
    ∃ first marked, EntersDisconnected graph first marked := by
  have hunfed : unfedNames graph ⊆ disconnectedNames graph := List.filter_sublist.subset
  obtain ⟨hfirst, hentersFirst⟩ := entered_enterAll hunfed Entered.nil
  obtain ⟨hlast, hentersLast⟩ := entered_enterAll (List.Subset.refl _) hfirst
  have hsource : ∀ name ∈ (enterAll graph (unfedNames graph) ([], [])).1,
      name ∈ unfedNames graph :=
    fun name hname => (hentersFirst.source name hname).resolve_left List.not_mem_nil
  refine ⟨(enterAll graph (unfedNames graph) ([], [])).1, _, ?_, hentersLast.covers, ?_, ?_,
    fun name => ⟨hsource name, fun hname => ?_⟩⟩
  · rw [findDisconnectedRoots_eq]
    exact hlast
  · rw [findDisconnectedRoots_eq]
    exact hentersLast.entries
  · intro root hroot
    rw [findDisconnectedRoots_eq] at hroot
    rcases hentersLast.source root hroot with h | h
    · exact hunfed (hsource root h)
    · exact h
  · -- nothing else reaches a node that no other feeds
    obtain ⟨entry, hentry, hreach⟩ := hfirst.sound name (hentersFirst.covers hname)
    have hfree := entryFree_of_not_fed hroots ((mem_unfedNames hroots).mp hname).2
    have hscope := decide_eq_true (hunfed (hsource entry hentry))
    rw [← hfree.eq_of_reaches hscope hreach]
    exact hentry

/-! ## All roots -/

theorem rootsCover_of_roots (hroots : graph.roots = identifyRoots graph) :
    RootsCover { graph with roots := graph.roots ++ findDisconnectedRoots graph } := by
  obtain ⟨first, marked, h⟩ := exists_entersDisconnected hroots
  have hdisconnected : ∀ root ∈ findDisconnectedRoots graph, graph.Disconnected root :=
    fun root hroot => (mem_disconnectedNames hroots).mp (h.source root hroot)
  refine ⟨fun name hkey hsubnode => ?_, fun root hroot => ?_, ?_, ?_⟩
  · by_cases hname : graph.Disconnected name
    · obtain ⟨entry, hentry, hreach⟩ :=
        h.entered.sound name (h.covers ((mem_disconnectedNames hroots).mpr hname))
      rw [reachesDisconnected_eq hroots] at hreach
      exact ⟨entry, List.mem_append_right _ hentry, hreach.reaches⟩
    · have hreached : ∃ root ∈ identifyRoots graph, graph.Reaches root name := by
        by_contra hnone
        push Not at hnone
        exact hname ⟨hkey, hsubnode, hnone⟩
      obtain ⟨root, hroot, hreach⟩ := hreached
      exact ⟨root, List.mem_append_left _ (hroots ▸ hroot), hreach⟩
  · rcases List.mem_append.mp hroot with hroot | hroot
    · rw [hroots] at hroot
      exact ⟨(identifyRoots_sublist graph).subset hroot, not_subnode_of_mem_identifyRoots hroot⟩
    · exact ⟨(hdisconnected root hroot).1, (hdisconnected root hroot).2.1⟩
  · refine List.nodup_append.mpr ⟨?_, h.entered.nodup, ?_⟩
    · exact hroots ▸ (identifyRoots_sublist graph).nodup graph.nodes.nodup_keys'
    · rintro root hroot entry hentry rfl
      exact (hdisconnected root hentry).2.2 root (hroots ▸ hroot) .refl
  · intro before root after heq hroot hfed entry hentry hunfed
    have hfirst : root ∉ graph.roots := fun hmem => hroot.2.2 root (hroots ▸ hmem) .refl
    obtain ⟨before', rfl, hsplit⟩ := split_after_pushed heq hfirst
    obtain ⟨rest, hrest⟩ := h.isPrefix
    have hroot' : root ∉ first := fun hmem =>
      ((mem_unfedNames hroots).mp ((h.mem_first root).mp hmem)).2 hfed
    obtain ⟨between, rfl, -⟩ := split_after_pushed (hrest.trans hsplit) hroot'
    have hmem : entry ∈ first :=
      (h.mem_first entry).mpr ((mem_unfedNames hroots).mpr ⟨hentry, hunfed⟩)
    have hapart := h.entered.apart
    rw [reachesDisconnected_eq hroots, hsplit, List.pairwise_append] at hapart
    exact ⟨List.mem_append_right _ (List.mem_append_left _ hmem),
      hapart.2.2 entry (List.mem_append_left _ hmem) root List.mem_cons_self⟩

/-- The roots of the semantic graph of a workflow. -/
theorem rootsCover_buildSemanticGraph (json : WorkflowJSON) : RootsCover (buildSemanticGraph json) :=
  rootsCover_of_roots rfl

end N8n.Codegen
