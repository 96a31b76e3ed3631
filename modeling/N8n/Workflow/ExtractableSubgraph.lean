import N8n.Interfaces
import N8n.Lib.OrderedSet
import N8n.Lib.StackSearch
import N8n.Lib.Walk

/-!
# Extractable selections

`parseExtractableSubgraphSelection` accepts a selection of nodes with at most one node that
Main connections enter from outside, `start`, and at most one they leave from, `end`; if
there are both, `start` must have a path to `end`.

`hasPath` looks for the path in the whole workflow (`hasPath_iff`). The path it finds is in
the selection all the same, because the only way out is by `end`. But a name counts as
missing if it is empty, so no path is looked for from or to a node with the empty name
(`parseExtractableSubgraphSelection_singleEntrySingleExit_iff`).
-/

open Lib

namespace N8n

/-- The connections of each node; a set of connection objects may hold equal ones. -/
abbrev IConnectionAdjacencyList := OrderedMap String (List IConnection)

inductive ExtractableErrorResult where
  | multipleInputNodes (nodes : OrderedSet String)
  | multipleOutputNodes (nodes : OrderedSet String)
  | inputEdgeToNonRootNode (node : String)
  | outputEdgeFromNonLeafNode (node : String)
  | noContinuousPathFromRootToLeaf (start «end» : String)

def ExtractableErrorResult.errorCode : ExtractableErrorResult → String
  | multipleInputNodes _ => "Multiple Input Nodes"
  | multipleOutputNodes _ => "Multiple Output Nodes"
  | inputEdgeToNonRootNode _ => "Input Edge To Non-Root Node"
  | outputEdgeFromNonLeafNode _ => "Output Edge From Non-Leaf Node"
  | noContinuousPathFromRootToLeaf _ _ => "No Continuous Path From Root To Leaf In Selection"

structure ExtractableSubgraphData where
  start : Option String
  «end» : Option String
  deriving DecidableEq, Repr

/-! ## Edges, roots and leaves -/

/-- The edges that lead into the selection. -/
def getInputEdges (graphIds : OrderedSet String) (adjacencyList : IConnectionAdjacencyList) :
    List (String × IConnection) :=
  adjacencyList.entries.flatMap fun («from», tos) =>
    if «from» ∈ graphIds then []
    else (tos.filter fun «to» => «to».node ∈ graphIds).map fun «to» => («from», «to»)

/-- The edges that lead out of the selection. -/
def getOutputEdges (graphIds : OrderedSet String) (adjacencyList : IConnectionAdjacencyList) :
    List (String × IConnection) :=
  adjacencyList.entries.flatMap fun («from», tos) =>
    if «from» ∈ graphIds then
      (tos.filter fun «to» => «to».node ∉ graphIds).map fun «to» => («from», «to»)
    else []

def intersection (a b : OrderedSet String) : OrderedSet String :=
  .ofList (a.elems.filter (· ∈ b))

def union (a b : OrderedSet String) : OrderedSet String := .ofList (a.elems ++ b.elems)

def difference (minuend subtrahend : OrderedSet String) : OrderedSet String :=
  subtrahend.elems.foldl .delete minuend

/-- The nodes without a Main connection from another node of the selection. -/
def getRootNodes (graphIds : OrderedSet String) (adjacencyList : IConnectionAdjacencyList) :
    OrderedSet String :=
  let innerNodes := graphIds.elems.foldl (fun innerNodes nodeId =>
    union innerNodes (.ofList ((((adjacencyList.get? nodeId).getD []).filter
      fun x => x.type = .main ∧ x.node ≠ nodeId).map (·.node)))) ∅
  difference graphIds innerNodes

/-- The nodes without a Main connection to another node of the selection. -/
def getLeafNodes (graphIds : OrderedSet String) (adjacencyList : IConnectionAdjacencyList) :
    OrderedSet String :=
  .ofList (graphIds.elems.filter fun nodeId =>
    (intersection (.ofList ((((adjacencyList.get? nodeId).getD []).filter
      fun x => x.type = .main ∧ x.node ≠ nodeId).map (·.node))) graphIds).size = 0)

/-! ## Paths -/

/-- The nodes the Main connections of a node lead to. -/
def mainTargets (adjacencyList : IConnectionAdjacencyList) (node : String) : OrderedSet String :=
  .ofList ((((adjacencyList.get? node).getD []).filter (·.type = .main)).map (·.node))

/-- The loop of `hasPath`; `paths` is listed last first. -/
def hasPathLoop («end» : String) (adjacencyList : IConnectionAdjacencyList) :
    ℕ → List String → OrderedSet String → Bool
  | 0, _, _ => false
  | _ + 1, [], _ => false
  | fuel + 1, next :: paths, seen =>
    if next = «end» then true
    else
      let seen := seen.add next
      hasPathLoop «end» adjacencyList fuel
        ((difference (mainTargets adjacencyList next) seen).elems.reverse ++ paths) seen

/-- Every connection is put on the stack at most once. -/
def hasPath (start «end» : String) (adjacencyList : IConnectionAdjacencyList) : Bool :=
  hasPathLoop «end» adjacencyList ((adjacencyList.entries.map (·.2.length)).sum + 2) [start] ∅

/-! ## The selection -/

/-- The nodes Main connections enter the selection at. -/
def selectionInputNodes (graphIds : OrderedSet String) (adjacencyList : IConnectionAdjacencyList) :
    OrderedSet String :=
  .ofList (((getInputEdges graphIds adjacencyList).filter (·.2.type = .main)).map (·.2.node))

/-- The nodes Main connections leave the selection from. -/
def selectionOutputNodes (graphIds : OrderedSet String) (adjacencyList : IConnectionAdjacencyList) :
    OrderedSet String :=
  .ofList (((getOutputEdges graphIds adjacencyList).filter (·.2.type = .main)).map (·.1))

/-- Without roots or leaves, a single input or output node is tolerated. -/
def tolerate (allowedNodes boundaryNodes : OrderedSet String) : OrderedSet String :=
  if allowedNodes.size = 0 ∧ boundaryNodes.size = 1 then boundaryNodes else allowedNodes

/-- The last check; the empty name is falsy. -/
def pathErrors (start «end» : Option String) (adjacencyList : IConnectionAdjacencyList) :
    List ExtractableErrorResult :=
  match start, «end» with
  | some s, some e =>
    if s ≠ "" ∧ e ≠ "" ∧ hasPath s e adjacencyList = false then
      [.noContinuousPathFromRootToLeaf s e]
    else []
  | _, _ => []

def parseExtractableSubgraphSelection (graphIds : OrderedSet String)
    (adjacencyList : IConnectionAdjacencyList) :
    Except (List ExtractableErrorResult) ExtractableSubgraphData :=
  let errors : List ExtractableErrorResult := []
  let inputNodes := selectionInputNodes graphIds adjacencyList
  let rootNodes := tolerate (getRootNodes graphIds adjacencyList) inputNodes
  let errors := errors ++ (difference inputNodes rootNodes).elems.map .inputEdgeToNonRootNode
  let rootInputNodes := intersection rootNodes inputNodes
  let errors := errors ++
    if rootInputNodes.size > 1 then [.multipleInputNodes rootInputNodes] else []
  let outputNodes := selectionOutputNodes graphIds adjacencyList
  let leafNodes := tolerate (getLeafNodes graphIds adjacencyList) outputNodes
  let errors := errors ++ (difference outputNodes leafNodes).elems.map .outputEdgeFromNonLeafNode
  let leafOutputNodes := intersection leafNodes outputNodes
  let errors := errors ++
    if leafOutputNodes.size > 1 then [.multipleOutputNodes leafOutputNodes] else []
  let start := rootInputNodes.first
  let «end» := leafOutputNodes.first
  let errors := errors ++ pathErrors start «end» adjacencyList
  if errors.length > 0 then .error errors else .ok { start, «end» }

/-! ## Edges of the selection -/

/-- A Main connection leads from one node to the other. -/
def ConnectedByMain (adjacencyList : IConnectionAdjacencyList) (a b : String) : Prop :=
  ∃ tos, adjacencyList.get? a = some tos ∧ ∃ c ∈ tos, c.type = .main ∧ c.node = b

variable {graphIds : OrderedSet String} {adjacencyList : IConnectionAdjacencyList} {a b : String}

@[simp] theorem mem_intersection {s t : OrderedSet String} :
    a ∈ intersection s t ↔ a ∈ s ∧ a ∈ t := by
  rw [intersection, OrderedSet.mem_ofList, List.mem_filter, decide_eq_true_iff]
  rfl

@[simp] theorem mem_difference {s t : OrderedSet String} : a ∈ difference s t ↔ a ∈ s ∧ a ∉ t :=
  OrderedSet.mem_foldl_delete

theorem mem_mainTargets : b ∈ mainTargets adjacencyList a ↔ ConnectedByMain adjacencyList a b := by
  unfold mainTargets ConnectedByMain
  cases adjacencyList.get? a with
  | none => simp
  | some tos => simp [and_assoc]

theorem mem_selectionInputNodes : b ∈ selectionInputNodes graphIds adjacencyList ↔
    b ∈ graphIds ∧ ∃ a, a ∉ graphIds ∧ ConnectedByMain adjacencyList a b := by
  unfold selectionInputNodes getInputEdges ConnectedByMain
  simp only [OrderedSet.mem_ofList, List.mem_map, List.mem_filter, List.mem_flatMap, Prod.exists,
    decide_eq_true_eq]
  constructor
  · rintro ⟨x, c, ⟨⟨y, tos, hentry, hc⟩, htype⟩, rfl⟩
    split_ifs at hc with hy
    · cases hc
    · simp only [List.mem_map, List.mem_filter, decide_eq_true_eq, Prod.mk.injEq] at hc
      obtain ⟨c, ⟨hmem, hnode⟩, rfl, rfl⟩ := hc
      exact ⟨hnode, y, hy, tos, OrderedMap.mem_entries_iff.mp hentry, c, hmem, htype, rfl⟩
  · rintro ⟨hb, x, hx, tos, hget, c, hmem, htype, rfl⟩
    refine ⟨x, c, ⟨⟨x, tos, OrderedMap.mem_entries_iff.mpr hget, ?_⟩, htype⟩, rfl⟩
    rw [if_neg hx]
    exact List.mem_map_of_mem (List.mem_filter.mpr ⟨hmem, by simpa using hb⟩)

theorem mem_selectionOutputNodes : a ∈ selectionOutputNodes graphIds adjacencyList ↔
    a ∈ graphIds ∧ ∃ b, b ∉ graphIds ∧ ConnectedByMain adjacencyList a b := by
  unfold selectionOutputNodes getOutputEdges ConnectedByMain
  simp only [OrderedSet.mem_ofList, List.mem_map, List.mem_filter, List.mem_flatMap, Prod.exists,
    decide_eq_true_eq]
  constructor
  · rintro ⟨x, c, ⟨⟨y, tos, hentry, hc⟩, htype⟩, rfl⟩
    split_ifs at hc with hy
    · simp only [List.mem_map, List.mem_filter, decide_eq_true_eq, Prod.mk.injEq] at hc
      obtain ⟨c, ⟨hmem, hnode⟩, rfl, rfl⟩ := hc
      exact ⟨hy, _, hnode, tos, OrderedMap.mem_entries_iff.mp hentry, c, hmem, htype, rfl⟩
    · cases hc
  · rintro ⟨ha, b, hb, tos, hget, c, hmem, htype, rfl⟩
    refine ⟨a, c, ⟨⟨a, tos, OrderedMap.mem_entries_iff.mpr hget, ?_⟩, htype⟩, rfl⟩
    rw [if_pos ha]
    exact List.mem_map_of_mem (List.mem_filter.mpr ⟨hmem, by simpa using hb⟩)

/-! ## Paths are found -/

theorem hasPathLoop_eq {«end» : String} {fuel : ℕ} {paths seen' : List String}
    {seen : OrderedSet String} (hseen : ∀ a, a ∈ seen ↔ a ∈ seen') :
    hasPathLoop «end» adjacencyList fuel paths seen =
      stackSearch (fun a => (mainTargets adjacencyList a).elems) «end» fuel paths seen' := by
  induction fuel generalizing paths seen seen' with
  | zero => rfl
  | succ fuel ih =>
    cases paths with
    | nil => rfl
    | cons next paths =>
      have hseen' : ∀ a, a ∈ seen.add next ↔ a ∈ next :: seen' := fun a => by
        rw [OrderedSet.mem_add, List.mem_cons, hseen, or_comm]
      have hpushed : (difference (mainTargets adjacencyList next) (seen.add next)).elems =
          (mainTargets adjacencyList next).elems.filter (· ∉ next :: seen') := by
        rw [difference, OrderedSet.elems_foldl_delete]
        exact List.filter_congr fun a _ => by rw [decide_eq_decide, ← OrderedSet.mem_def, hseen']
      rw [hasPathLoop, stackSearch]
      dsimp only
      rw [hpushed, ih hseen']

theorem length_mainTargets_le {tos : List IConnection} (h : (a, tos) ∈ adjacencyList.entries) :
    (mainTargets adjacencyList a).elems.length ≤ tos.length := by
  refine (OrderedSet.size_ofList_le _).trans ?_
  rw [OrderedMap.mem_entries_iff.mp h, List.length_map]
  exact List.length_filter_le _ _

/-- A path is found exactly when there is one, in the whole workflow. -/
theorem hasPath_iff {start «end» : String} : hasPath start «end» adjacencyList = true ↔
    Relation.ReflTransGen (ConnectedByMain adjacencyList) start «end» := by
  have hdom : ∀ a, (mainTargets adjacencyList a).elems ≠ [] → a ∈ adjacencyList.keys := by
    intro a ha
    obtain ⟨b, hb⟩ := List.exists_mem_of_ne_nil _ ha
    obtain ⟨tos, hget, -⟩ := mem_mainTargets.mp hb
    exact OrderedMap.mem_keys_iff.mpr ⟨tos, hget⟩
  have hsum : (adjacencyList.keys.map fun a => (mainTargets adjacencyList a).elems.length).sum ≤
      (adjacencyList.entries.map (·.2.length)).sum := by
    rw [OrderedMap.keys, List.map_map]
    exact List.sum_le_sum fun x hx => length_mainTargets_le hx
  have hsearch : stackSearch (fun a => (mainTargets adjacencyList a).elems) «end»
      ((adjacencyList.entries.map (·.2.length)).sum + 2) [start] [] = true ↔
        Relation.ReflTransGen (fun a b => b ∈ (mainTargets adjacencyList a).elems) start «end» :=
    stackSearch_iff_reaches adjacencyList.nodup_keys' hdom (by omega)
  rw [hasPath, hasPathLoop_eq fun a => iff_of_false (OrderedSet.not_mem_empty a) List.not_mem_nil,
    hsearch]
  refine iff_of_eq (congrArg (Relation.ReflTransGen · start «end») ?_)
  funext a b
  exact propext mem_mainTargets

/-! ## Accepted selections -/

/-- The two checks of a side of the selection : the boundary nodes are allowed, and at most
one. -/
theorem boundary_accepted_iff {allowed boundary : OrderedSet String} :
    ((difference boundary (tolerate allowed boundary)).elems = [] ∧
      ¬(intersection (tolerate allowed boundary) boundary).size > 1) ↔
      (∀ a ∈ boundary, ∀ b ∈ boundary, a = b) ∧ ∀ a ∈ boundary, a ∈ allowed ∨ allowed.size = 0 := by
  rw [not_lt, OrderedSet.size_le_one_iff, List.eq_nil_iff_forall_not_mem]
  have hdiff : ∀ a, a ∉ (difference boundary (tolerate allowed boundary)).elems ↔
      (a ∈ boundary → a ∈ tolerate allowed boundary) := fun a => by
    rw [← OrderedSet.mem_def, mem_difference, not_and_not_right]
  simp only [hdiff, mem_intersection]
  constructor
  · rintro ⟨hsub, hone⟩
    refine ⟨fun a ha b hb => hone a ⟨hsub a ha, ha⟩ b ⟨hsub b hb, hb⟩, fun a ha => ?_⟩
    have hallowed := hsub a ha
    unfold tolerate at hallowed
    split at hallowed
    · rename_i h
      exact Or.inr h.1
    · exact Or.inl hallowed
  · rintro ⟨hone, hallowed⟩
    refine ⟨fun a ha => ?_, fun a ha b hb => hone a ha.2 b hb.2⟩
    unfold tolerate
    split
    · exact ha
    · rename_i h
      refine (hallowed a ha).resolve_right fun hsize => h ⟨hsize, ?_⟩
      exact OrderedSet.size_eq_one_iff.mpr
        ⟨a, fun b => ⟨fun hb => hone b hb a ha, fun hb => hb ▸ ha⟩⟩

/-- The node that is returned for a side. -/
theorem first_boundary_iff {allowed boundary : OrderedSet String}
    (h : (difference boundary (tolerate allowed boundary)).elems = [] ∧
      ¬(intersection (tolerate allowed boundary) boundary).size > 1) :
    (intersection (tolerate allowed boundary) boundary).first = some a ↔ a ∈ boundary := by
  rw [OrderedSet.first_eq_some_iff (not_lt.mp h.2), mem_intersection, and_iff_right_iff_imp]
  intro ha
  by_contra hnot
  have hmem : a ∈ difference boundary (tolerate allowed boundary) := mem_difference.mpr ⟨ha, hnot⟩
  rw [OrderedSet.mem_def, h.1] at hmem
  cases hmem

/-- Main connections enter the selection at most at one node, which has no Main connection
from another selected node unless all have. -/
def EntersAtRoot (graphIds : OrderedSet String) (adjacencyList : IConnectionAdjacencyList) : Prop :=
  (∀ a ∈ selectionInputNodes graphIds adjacencyList,
      ∀ b ∈ selectionInputNodes graphIds adjacencyList, a = b) ∧
    ∀ a ∈ selectionInputNodes graphIds adjacencyList,
      a ∈ getRootNodes graphIds adjacencyList ∨ (getRootNodes graphIds adjacencyList).size = 0

/-- Main connections leave the selection at most from one node, which has no Main connection
to another selected node unless all have. -/
def LeavesFromLeaf (graphIds : OrderedSet String) (adjacencyList : IConnectionAdjacencyList) :
    Prop :=
  (∀ a ∈ selectionOutputNodes graphIds adjacencyList,
      ∀ b ∈ selectionOutputNodes graphIds adjacencyList, a = b) ∧
    ∀ a ∈ selectionOutputNodes graphIds adjacencyList,
      a ∈ getLeafNodes graphIds adjacencyList ∨ (getLeafNodes graphIds adjacencyList).size = 0

theorem pathErrors_eq_nil_iff {start «end» : Option String} :
    pathErrors start «end» adjacencyList = [] ↔
      ∀ s e, start = some s → «end» = some e → s ≠ "" → e ≠ "" →
        Relation.ReflTransGen (ConnectedByMain adjacencyList) s e := by
  unfold pathErrors
  split
  · rename_i s e
    rw [ite_eq_right_iff]
    constructor
    · rintro h s' e' hs he hs' he'
      obtain rfl := Option.some.inj hs
      obtain rfl := Option.some.inj he
      by_contra hpath
      cases h ⟨hs', he', Bool.eq_false_iff.mpr fun h => hpath (hasPath_iff.mp h)⟩
    · rintro h ⟨hs, he, hpath⟩
      rw [hasPath_iff.mpr (h s e rfl rfl hs he)] at hpath
      cases hpath
  · rename_i hnone
    exact iff_of_true rfl fun s e hs he => (hnone s e hs he).elim

theorem no_errors_iff {ε δ : Type} {errors : List ε} {result data : δ} :
    (if errors.length > 0 then Except.error errors else .ok result) = .ok data ↔
      errors = [] ∧ result = data := by
  cases errors <;> simp

/-- What is accepted, and with which result. -/
theorem parseExtractableSubgraphSelection_eq_ok {data : ExtractableSubgraphData} :
    parseExtractableSubgraphSelection graphIds adjacencyList = .ok data ↔
      EntersAtRoot graphIds adjacencyList ∧ LeavesFromLeaf graphIds adjacencyList ∧
      (∀ a, data.start = some a ↔ a ∈ selectionInputNodes graphIds adjacencyList) ∧
      (∀ a, data.end = some a ↔ a ∈ selectionOutputNodes graphIds adjacencyList) ∧
      ∀ s e, data.start = some s → data.end = some e → s ≠ "" → e ≠ "" →
        Relation.ReflTransGen (ConnectedByMain adjacencyList) s e := by
  rw [EntersAtRoot, LeavesFromLeaf, ← boundary_accepted_iff, ← boundary_accepted_iff]
  unfold parseExtractableSubgraphSelection
  refine no_errors_iff.trans ?_
  simp only [List.nil_append, List.append_eq_nil_iff, List.map_eq_nil_iff, ite_eq_right_iff,
    List.cons_ne_nil, imp_false, pathErrors_eq_nil_iff]
  constructor
  · rintro ⟨⟨⟨⟨hin, hout⟩, hout'⟩, hpath⟩, rfl⟩
    exact ⟨hin, ⟨hout, hout'⟩, fun a => first_boundary_iff hin,
      fun a => first_boundary_iff ⟨hout, hout'⟩, hpath⟩
  · rintro ⟨hin, hout, hstart, hend, hpath⟩
    obtain ⟨start, «end»⟩ := data
    have hstart' : (intersection (tolerate (getRootNodes graphIds adjacencyList)
        (selectionInputNodes graphIds adjacencyList))
        (selectionInputNodes graphIds adjacencyList)).first = start :=
      Option.ext fun a => (first_boundary_iff hin).trans (hstart a).symm
    have hend' : (intersection (tolerate (getLeafNodes graphIds adjacencyList)
        (selectionOutputNodes graphIds adjacencyList))
        (selectionOutputNodes graphIds adjacencyList)).first = «end» :=
      Option.ext fun a => (first_boundary_iff hout).trans (hend a).symm
    rw [hstart', hend']
    exact ⟨⟨⟨⟨hin, hout.1⟩, hout.2⟩, hpath⟩, rfl⟩

/-- The selection is entered at `start` only and left from `end` only, and if there are both,
`start` has a path to `end` in it. -/
structure SingleEntrySingleExit (graphIds : OrderedSet String)
    (adjacencyList : IConnectionAdjacencyList) (data : ExtractableSubgraphData) : Prop where
  entry : ∀ a b, ConnectedByMain adjacencyList a b → a ∉ graphIds → b ∈ graphIds →
    data.start = some b
  exit : ∀ a b, ConnectedByMain adjacencyList a b → a ∈ graphIds → b ∉ graphIds →
    data.end = some a
  path : ∀ s e, data.start = some s → data.end = some e → s ∈ graphIds ∧
    Relation.ReflTransGen
      (fun a b => ConnectedByMain adjacencyList a b ∧ a ∈ graphIds ∧ b ∈ graphIds) s e

/-- The only node Main connections enter the selection at, and the only one they leave it
from, where one of the two has the empty name. -/
structure EmptyNameAtBoundary (graphIds : OrderedSet String)
    (adjacencyList : IConnectionAdjacencyList) (s e : String) : Prop where
  entersAtRoot : EntersAtRoot graphIds adjacencyList
  leavesFromLeaf : LeavesFromLeaf graphIds adjacencyList
  mem_selectionInputNodes : s ∈ selectionInputNodes graphIds adjacencyList
  mem_selectionOutputNodes : e ∈ selectionOutputNodes graphIds adjacencyList
  empty : s = "" ∨ e = ""

/-- What is accepted is entered at one node and left from one node the first has a path to,
unless one of the two has the empty name and there is no path. -/
theorem parseExtractableSubgraphSelection_singleEntrySingleExit_iff (graphIds : OrderedSet String)
    (adjacencyList : IConnectionAdjacencyList) :
    (∀ data, parseExtractableSubgraphSelection graphIds adjacencyList = .ok data →
      SingleEntrySingleExit graphIds adjacencyList data) ↔
      ∀ s e, EmptyNameAtBoundary graphIds adjacencyList s e →
        Relation.ReflTransGen (ConnectedByMain adjacencyList) s e := by
  constructor
  · intro h s e hempty
    obtain ⟨hstart, hend⟩ := And.intro hempty.entersAtRoot.1 hempty.leavesFromLeaf.1
    have haccepted : parseExtractableSubgraphSelection graphIds adjacencyList =
        .ok { start := some s, «end» := some e } := by
      refine parseExtractableSubgraphSelection_eq_ok.mpr
        ⟨hempty.entersAtRoot, hempty.leavesFromLeaf, fun a => ?_, fun a => ?_, ?_⟩
      · exact ⟨fun ha => Option.some.inj ha ▸ hempty.mem_selectionInputNodes,
          fun ha => congrArg some (hstart s hempty.mem_selectionInputNodes a ha)⟩
      · exact ⟨fun ha => Option.some.inj ha ▸ hempty.mem_selectionOutputNodes,
          fun ha => congrArg some (hend e hempty.mem_selectionOutputNodes a ha)⟩
      · intro s' e' hs he hs' he'
        obtain rfl := Option.some.inj hs
        obtain rfl := Option.some.inj he
        exact (hempty.empty.elim hs' he').elim
    exact Relation.ReflTransGen.mono (fun _ _ hab => hab.1) _ _ ((h _ haccepted).path s e rfl rfl).2
  · intro hempty data haccepted
    obtain ⟨hin, hout, hstart, hend, hpath⟩ :=
      parseExtractableSubgraphSelection_eq_ok.mp haccepted
    have hexit : ∀ a b, ConnectedByMain adjacencyList a b → a ∈ graphIds → b ∉ graphIds →
        data.end = some a :=
      fun a b hab ha hb => (hend a).mpr (mem_selectionOutputNodes.mpr ⟨ha, b, hb, hab⟩)
    refine ⟨fun a b hab ha hb =>
      (hstart b).mpr (mem_selectionInputNodes.mpr ⟨hb, a, ha, hab⟩), hexit, ?_⟩
    intro s e hs he
    have hsel : s ∈ graphIds := (mem_selectionInputNodes.mp ((hstart s).mp hs)).1
    have hreach : Relation.ReflTransGen (ConnectedByMain adjacencyList) s e := by
      by_cases hname : s = "" ∨ e = ""
      · exact hempty s e ⟨hin, hout, (hstart s).mp hs, (hend e).mp he, hname⟩
      · exact hpath s e hs he (fun h => hname (Or.inl h)) (fun h => hname (Or.inr h))
    refine ⟨hsel, reflTransGen_inside (S := (· ∈ graphIds)) (fun a b hab ha hb => ?_) hsel hreach⟩
    exact Option.some.inj ((hexit a b hab ha hb).symm.trans he)

/-- A node with the empty name is entered from outside, `Set` is left to the outside; they are
not connected. -/
def emptyNameConnections : IConnectionAdjacencyList :=
  ((∅ : IConnectionAdjacencyList).set "Trigger" [⟨"", .main, 0⟩]).set "Set" [⟨"Merge", .main, 0⟩]

theorem parseExtractableSubgraphSelection_not_singleEntrySingleExit :
    ¬∀ graphIds adjacencyList data,
      parseExtractableSubgraphSelection graphIds adjacencyList = .ok data →
        SingleEntrySingleExit graphIds adjacencyList data := by
  intro h
  have haccepted : parseExtractableSubgraphSelection (.ofList ["", "Set"]) emptyNameConnections =
      .ok { start := some "", «end» := some "Set" } := by
    rfl
  obtain ⟨-, hpath⟩ := (h _ _ _ haccepted).path "" "Set" rfl rfl
  obtain heq | ⟨b, ⟨⟨tos, hget, -⟩, -⟩, -⟩ := hpath.cases_head
  · exact absurd heq (by decide)
  · cases hget

end N8n
