import Mathlib.Data.List.TakeWhile
import N8n.Lib.LowLink
import N8n.PartialExecution.DirectedGraph

/-!
# `getStronglyConnectedComponents`

The planner finds cycles with a variant of Tarjan's algorithm : back from a child on the
stack, a node takes over the low link value of the child, not its id, and a component is
popped as long as the low link value on top of the stack is the id of its first node.

`Exact` says what the returned sets should be, and `ReturnsInOrder` when they are : every
node reaches the node of its component that is entered first along connections that the
depth-first traversal completes in reverse order. The traversal, `traversal`, is that of
the graph alone.

The three things `followNode` does at a node are described relative to the traversal :
`Tracks` says what they keep, `Minned` and `Closed` what the last two change.
-/

open Lib

namespace N8n

structure SccState where
  id : ℕ := 0
  visited : List INode := []
  ids : OrderedMap INode ℕ := ∅
  lowLinkValues : OrderedMap INode ℕ := ∅
  /-- The top first. -/
  stack : List INode := []
  stronglyConnectedComponents : List (List INode) := []

namespace SccState

variable (s : SccState)

/-- What `followNode` does with a node it has not visited. -/
def visit (node : INode) : SccState :=
  { s with
    visited := s.visited ++ [node]
    lowLinkValues := s.lowLinkValues.set node s.id
    ids := s.ids.set node s.id
    id := s.id + 1
    stack := node :: s.stack }

/-- if node is on stack min the low id -/
def minLowLink (node child : INode) : Except GraphError SccState :=
  if child ∈ s.stack then
    match s.lowLinkValues.get? child, s.lowLinkValues.get? node with
    | some childLowLinkValue, some ownLowLinkValue =>
      .ok { s with
        lowLinkValues := s.lowLinkValues.set node (min childLowLinkValue ownLowLinkValue) }
    | _, _ => .error (.assertion "The expression evaluated to a falsy value")
  else .ok s

/-- pop from the stack until the stack is empty or we find a node that has a different low
id -/
def popScc (lowLinkValues : OrderedMap INode ℕ) (ownId : ℕ) :
    List INode → List INode → List INode × List INode
  | scc, [] => (scc, [])
  | scc, next :: stack =>
    if lowLinkValues.get? next = some ownId then
      popScc lowLinkValues ownId (if next ∈ scc then scc else scc ++ [next]) stack
    else (scc, next :: stack)

/-- after we visited all children, check if the low id is the same as the nodes id -/
def closeScc (node : INode) : Except GraphError SccState :=
  match s.ids.get? node, s.lowLinkValues.get? node with
  | some ownId, some ownLowLinkValue =>
    if ownId = ownLowLinkValue then
      let (scc, stack) := popScc s.lowLinkValues ownId [] s.stack
      .ok { s with
        stack
        stronglyConnectedComponents :=
          if scc.length > 0 then s.stronglyConnectedComponents ++ [scc]
          else s.stronglyConnectedComponents }
    else .ok s
  | _, _ => .error (.assertion "The expression evaluated to a falsy value")

end SccState

namespace DirectedGraph

variable (g : DirectedGraph)

/-- The closure of `getStronglyConnectedComponents`, with what it captures. -/
def followNode : ℕ → SccState → INode → Except GraphError SccState
  | 0, _, _ => .error .outOfFuel
  | fuel + 1, s, node =>
    if node ∈ s.visited then .ok s
    else do
      let directChildren := (← g.getDirectChildConnections node).map (·.to)
      let s ← directChildren.foldlM (fun s child => do
        (← followNode fuel s child).minLowLink node child) (s.visit node)
      s.closeScc node

def getStronglyConnectedComponents : Except GraphError (List (List INode)) := do
  let s ← g.getNodes.foldlM (g.followNode g.fuel) {}
  return s.stronglyConnectedComponents

/-! ## What it should return -/

/-- Each of the two nodes is reachable from the other. -/
def Cyclic (n m : INode) : Prop := g.Reachable n m ∧ g.Reachable m n

/-- The sets are pairwise disjoint, hold all nodes, and are the strongly connected
components. -/
structure Exact (sccs : List (List INode)) : Prop where
  disjoint : sccs.Pairwise List.Disjoint
  union : ∀ n, (∃ scc ∈ sccs, n ∈ scc) ↔ g.HasNode n
  component : ∀ n m, g.HasNode n → g.HasNode m →
    ((∃ scc ∈ sccs, n ∈ scc ∧ m ∈ scc) ↔ g.Cyclic n m)

/-- The targets of the connections out of the node. -/
def directChildren (node : INode) : List INode :=
  (g.getConnections.filter (·.from = node)).map (·.to)

/-- The depth-first traversal of the graph. -/
def traversal : Trace INode :=
  g.getNodes.foldl (fun t n => explore g.directChildren g.fuel n t) {}

/-- Of the nodes on cycles with `n`, the traversal enters `first` first. -/
structure EntersFirst (n first : INode) : Prop where
  hasNode : g.HasNode first
  cyclic : g.Cyclic n first
  le : ∀ m, g.HasNode m → g.Cyclic n m → g.traversal.rank first ≤ g.traversal.rank m

/-- Every node reaches the first node of its component along connections that the traversal
completes in reverse order. -/
def ReturnsInOrder : Prop :=
  ∀ n first, g.HasNode n → g.EntersFirst n first → LinkedBack g.traversal.edges n first

end DirectedGraph

/-! ## The steps -/

namespace SccState

/-- The low id of the node is the id. -/
abbrev HasLow (lowLinkValues : OrderedMap INode ℕ) (ownId : ℕ) (n : INode) : Bool :=
  lowLinkValues.get? n = some ownId

theorem popScc_eq {lowLinkValues : OrderedMap INode ℕ} {ownId : ℕ} {scc stack : List INode}
    (h : (scc ++ stack).Nodup) :
    popScc lowLinkValues ownId scc stack =
      (scc ++ stack.takeWhile (HasLow lowLinkValues ownId),
        stack.dropWhile (HasLow lowLinkValues ownId)) := by
  induction stack generalizing scc with
  | nil => simp [popScc]
  | cons next stack ih =>
    by_cases hlow : lowLinkValues.get? next = some ownId
    · have hnext : next ∉ scc := fun hmem => List.disjoint_of_nodup_append h hmem (by simp)
      rw [popScc, if_pos hlow, if_neg hnext, ih (by simpa using h)]
      simp [hlow]
    · simp [popScc, hlow]

/-- The state keeps up with the traversal : nodes get their rank as id, and are on the stack
or in one component. -/
structure Tracks (t : Trace INode) (s : SccState) : Prop where
  visited : s.visited = t.entered
  id : s.id = t.entered.length
  ids : ∀ n ∈ t.entered, s.ids.get? n = some (t.rank n)
  lowLinkValues : ∀ n ∈ t.entered, ∃ k, s.lowLinkValues.get? n = some k
  perm : (s.stack ++ s.stronglyConnectedComponents.flatten).Perm t.entered

variable {t : Trace INode} {s s' : SccState} {n m u v c : INode}

theorem Tracks.nil : Tracks {} {} := by
  constructor <;> simp

theorem Tracks.mem_entered_iff (h : Tracks t s) :
    n ∈ t.entered ↔ n ∈ s.stack ∨ n ∈ s.stronglyConnectedComponents.flatten := by
  rw [← h.perm.mem_iff, List.mem_append]

theorem Tracks.entered_of_mem_stack (h : Tracks t s) (hn : n ∈ s.stack) : n ∈ t.entered :=
  h.mem_entered_iff.mpr (Or.inl hn)

theorem Tracks.notMem_flatten (h : Tracks t s) (ht : t.entered.Nodup) (hn : n ∈ s.stack) :
    n ∉ s.stronglyConnectedComponents.flatten :=
  fun hn' => List.disjoint_of_nodup_append (h.perm.nodup_iff.mpr ht) hn hn'

theorem Tracks.visit (h : Tracks t s) (hn : n ∉ t.entered) : Tracks (t.enter n) (s.visit n) where
  visited := by simp [SccState.visit, Trace.enter, h.visited]
  id := by simp [SccState.visit, Trace.enter, h.id]
  ids m hm := by
    simp only [SccState.visit, OrderedMap.get?_set]
    rcases Trace.mem_entered_enter.mp hm with hm | rfl
    · rw [if_neg (ne_of_mem_of_not_mem hm hn).symm, h.ids m hm, Trace.rank_enter hm]
    · rw [if_pos rfl, h.id, Trace.rank_enter_self hn]
  lowLinkValues m hm := by
    simp only [SccState.visit, OrderedMap.get?_set]
    rcases Trace.mem_entered_enter.mp hm with hm | rfl
    · rw [if_neg (ne_of_mem_of_not_mem hm hn).symm]
      exact h.lowLinkValues m hm
    · exact ⟨s.id, if_pos rfl⟩
  perm := by
    simp only [SccState.visit, Trace.enter, List.cons_append]
    exact (h.perm.cons n).trans (List.perm_append_singleton n _).symm

/-- What going back from a child does. -/
structure Minned (s s' : SccState) (v c : INode) : Prop where
  stack : s'.stack = s.stack
  components : s'.stronglyConnectedComponents = s.stronglyConnectedComponents
  low_of_ne : ∀ u, u ≠ v → s'.lowLinkValues.get? u = s.lowLinkValues.get? u
  low_of_mem : c ∈ s.stack → ∀ j k, s.lowLinkValues.get? c = some j →
    s.lowLinkValues.get? v = some k → s'.lowLinkValues.get? v = some (min j k)
  low_of_notMem : c ∉ s.stack → s'.lowLinkValues.get? v = s.lowLinkValues.get? v

theorem minLowLink_spec (h : Tracks t s) (hv : v ∈ t.entered) (hc : c ∈ t.entered) :
    ∃ s', s.minLowLink v c = .ok s' ∧ Tracks (t.traverse v c) s' ∧ Minned s s' v c := by
  by_cases hmem : c ∈ s.stack
  · obtain ⟨j, hj⟩ := h.lowLinkValues c hc
    obtain ⟨k, hk⟩ := h.lowLinkValues v hv
    refine ⟨{ s with lowLinkValues := s.lowLinkValues.set v (min j k) },
      by simp only [minLowLink, if_pos hmem, hj, hk], ?_, rfl, rfl, ?_, ?_, ?_⟩
    · refine ⟨h.visited, h.id, h.ids, fun n hn => ?_, h.perm⟩
      simp only [OrderedMap.get?_set]
      split_ifs
      · exact ⟨_, rfl⟩
      · exact h.lowLinkValues n hn
    · intro u hu
      simp only [OrderedMap.get?_set, if_neg (Ne.symm hu)]
    · intro _ j' k' hj' hk'
      rw [hj] at hj'
      rw [hk] at hk'
      cases hj'
      cases hk'
      simp only [OrderedMap.get?_set, if_true]
    · exact fun hnot => absurd hmem hnot
  · refine ⟨s, by simp only [minLowLink, if_neg hmem], ⟨h.visited, h.id, h.ids, h.lowLinkValues,
      h.perm⟩, rfl, rfl, fun _ _ => rfl, fun hc' => absurd hc' hmem, fun _ => rfl⟩

/-- What leaving a node does, with the nodes it pops. -/
structure Closed (s s' : SccState) (popped : List INode) : Prop where
  lowLinkValues : s'.lowLinkValues = s.lowLinkValues
  stack : s.stack = popped ++ s'.stack
  components : s'.stronglyConnectedComponents =
    if popped = [] then s.stronglyConnectedComponents
    else s.stronglyConnectedComponents ++ [popped]

theorem Closed.flatten {popped : List INode} (h : Closed s s' popped) :
    s'.stronglyConnectedComponents.flatten =
      s.stronglyConnectedComponents.flatten ++ popped := by
  rw [h.components]
  split_ifs with hp
  · simp [hp]
  · simp

theorem Closed.tracks {popped : List INode} (h : Closed s s' popped) (ht : Tracks t s)
    (hvisited : s'.visited = s.visited) (hid : s'.id = s.id) (hids : s'.ids = s.ids) :
    Tracks t s' where
  visited := hvisited.trans ht.visited
  id := hid.trans ht.id
  ids := by
    rw [hids]
    exact ht.ids
  lowLinkValues := by
    rw [h.lowLinkValues]
    exact ht.lowLinkValues
  perm := by
    have hperm := ht.perm
    rw [h.stack] at hperm
    rw [h.flatten, ← List.append_assoc]
    exact (List.perm_append_comm.trans (by rw [List.append_assoc])).trans hperm

/-- The nodes that are popped : those on top with the low id of the node, if that is its id. -/
def popped (t : Trace INode) (s : SccState) (v : INode) : List INode :=
  if s.lowLinkValues.get? v = some (t.rank v) then
    s.stack.takeWhile (HasLow s.lowLinkValues (t.rank v))
  else []

theorem closeScc_spec (h : Tracks t s) (ht : t.entered.Nodup) (hv : v ∈ t.entered) :
    ∃ s', s.closeScc v = .ok s' ∧ Tracks t s' ∧ Closed s s' (popped t s v) := by
  obtain ⟨k, hk⟩ := h.lowLinkValues v hv
  have hid := h.ids v hv
  have hnodup : ([] ++ s.stack).Nodup := (List.nodup_append.mp (h.perm.nodup_iff.mpr ht)).1
  by_cases hlow : t.rank v = k
  · have hpopped : popped t s v = s.stack.takeWhile (HasLow s.lowLinkValues (t.rank v)) := by
      rw [popped, if_pos (by rw [hk, hlow])]
    have hclosed : Closed s
        { s with
          stack := s.stack.dropWhile (HasLow s.lowLinkValues (t.rank v))
          stronglyConnectedComponents :=
            if (s.stack.takeWhile (HasLow s.lowLinkValues (t.rank v))).length > 0 then
              s.stronglyConnectedComponents ++
                [s.stack.takeWhile (HasLow s.lowLinkValues (t.rank v))]
            else s.stronglyConnectedComponents } (popped t s v) := by
      rw [hpopped]
      refine ⟨rfl, List.takeWhile_append_dropWhile.symm, ?_⟩
      simp only [gt_iff_lt, List.length_pos_iff, ne_eq, ite_not]
    refine ⟨_, ?_, hclosed.tracks h rfl rfl rfl, hclosed⟩
    simp only [closeScc, hid, hk, if_pos hlow, popScc_eq hnodup, List.nil_append]
  · have hclosed : Closed s s (popped t s v) := by
      rw [popped, if_neg (by rw [hk, Option.some.injEq]; exact fun he => hlow he.symm)]
      exact ⟨rfl, rfl, rfl⟩
    exact ⟨s, by simp only [closeScc, hid, hk, if_neg hlow], h, hclosed⟩

theorem low_of_mem_popped (hn : n ∈ popped t s v) : s.lowLinkValues.get? n = some (t.rank v) := by
  unfold popped at hn
  split_ifs at hn with h
  · simpa using List.mem_takeWhile_imp hn
  · cases hn

end SccState

end N8n
