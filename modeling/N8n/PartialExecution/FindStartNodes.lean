import N8n.PartialExecution.IncomingData

/-!
# Start nodes of a partial execution

`findStartNodes` follows the connections that carry data from the trigger and stops at
dirty nodes, at the destination and at loop nodes whose last run did not finish. Every
branch marks its own nodes; only the set of start nodes is shared.

The result is the frontier of dirtiness (`findStartNodes_spec`) : the stop nodes that are
reachable from the trigger along connections with run or pinned data, through nodes at
which the search does not stop.
-/

open Lib

namespace N8n

variable {J : Type}

def isDirty (node : INode) (runData : IRunData J) (pinData : IPinData J) : Bool :=
  let hasAnError := match runData.get? node.name with
    | some runs => runs.any fun taskData => taskData.error.isSome
    | none => false
  if hasAnError then true
  else if pinData.has node.name then false
  else if runData.has node.name then false
  else true

def isALoop (g : DirectedGraph) (node : INode) : Except GraphError Bool := do
  return (← g.getChildren node).contains node

/-- Whether the `done` output of a loop node had no data on the last run. -/
def hasOpenLoop (g : DirectedGraph) (current : INode) (runData : IRunData J) :
    Except GraphError Bool := do
  if current.type = "n8n-nodes-base.splitInBatches" then
    let nodeRunData ← getIncomingData runData current.name (-1) .main
      (if ← isALoop g current then 0 else 1)
    return nodeRunData.all fun items => items.length == 0
  else return false

/-- Whether the search does not follow the connection. -/
def carriesNoData (runData : IRunData J) (pinData : IPinData J) (c : GraphConnection) :
    Except GraphError Bool := do
  let nodeRunData ← getIncomingDataFromAnyRun runData c.from.name c.type c.outputIndex
  let hasNoRunData := nodeRunData.all fun r => r.1.length == 0
  let hasNoPinnedData := !pinData.has c.from.name
  return hasNoRunData && hasNoPinnedData

def findStartNodesRecursive (g : DirectedGraph) (destination : INode) (runData : IRunData J)
    (pinData : IPinData J) : ℕ → INode → List INode → List INode → Except GraphError (List INode)
  | 0, _, _, _ => .error .outOfFuel
  | fuel + 1, current, seen, startNodes => do
    if isDirty current runData pinData then return addTo current startNodes
    if current = destination then return addTo current startNodes
    if ← hasOpenLoop g current runData then return addTo current startNodes
    if current ∈ seen then return startNodes
    let outGoingConnections ← g.getDirectChildConnections current
    outGoingConnections.foldlM (fun startNodes c => do
      if ← carriesNoData runData pinData c then return startNodes
      findStartNodesRecursive g destination runData pinData fuel c.to (seen ++ [current])
        startNodes) startNodes

def findStartNodes (g : DirectedGraph) (trigger destination : INode) (pinData : IPinData J)
    (runData : IRunData J) : Except GraphError (List INode) :=
  findStartNodesRecursive g destination runData pinData g.fuel trigger [] []

/-! ## Where the search stops -/

/-- The output of a loop node the search looks at : `done` if there is a loop. -/
def DoneOutput (g : DirectedGraph) (n : INode) (outputIndex : ℕ) : Prop :=
  (outputIndex = 0 ∧ ∃ m, g.Connected n m ∧ g.Reachable m n) ∨
    (outputIndex = 1 ∧ ¬∃ m, g.Connected n m ∧ g.Reachable m n)

/-- The relevant output of the loop node has no data in its last run. -/
def OpenLoop (g : DirectedGraph) (runData : IRunData J) (n : INode) : Prop :=
  n.type = "n8n-nodes-base.splitInBatches" ∧ ∀ outputIndex, DoneOutput g n outputIndex →
    ∀ runs taskData items, runData.get? n.name = some runs → runs.getLast? = some taskData →
      HasOutput taskData .main outputIndex items → items = []

/-- The node is dirty, the destination, or an open loop. -/
def StopNode (g : DirectedGraph) (destination : INode) (runData : IRunData J)
    (pinData : IPinData J) (n : INode) : Prop :=
  isDirty n runData pinData = true ∨ n = destination ∨ OpenLoop g runData n

/-- The connection carries run data, of any run, or pinned data. -/
def CarriesData (runData : IRunData J) (pinData : IPinData J) (c : GraphConnection) : Prop :=
  HasIncomingData runData c.from.name c.type c.outputIndex ∨ pinData.has c.from.name = true

/-- Every run with data has data for the connection types the search looks up. -/
structure HasUsedTypes (g : DirectedGraph) (runData : IRunData J) : Prop where
  connection : ∀ c ∈ g.getConnections, ∀ taskData ∈ (runData.get? c.from.name).getD [],
    HasType taskData c.type
  loop : ∀ n ∈ g.getNodes, n.type = "n8n-nodes-base.splitInBatches" →
    ∀ taskData ∈ (runData.get? n.name).getD [], HasType taskData .main

instance (g : DirectedGraph) (runData : IRunData J) : Decidable (HasUsedTypes g runData) :=
  decidable_of_iff (_ ∧ _) ⟨fun h => ⟨h.1, h.2⟩, fun h => ⟨h.connection, h.loop⟩⟩

variable {g : DirectedGraph} {runData : IRunData J} {pinData : IPinData J}
  {trigger destination n : INode}

theorem hasOpenLoop_spec (hg : g.JoinsNodes) (h : g.HasNode n) (hrun : HasUsedTypes g runData) :
    ∃ b, hasOpenLoop g n runData = .ok b ∧ (b = true ↔ OpenLoop g runData n) := by
  unfold hasOpenLoop OpenLoop
  by_cases ht : n.type = "n8n-nodes-base.splitInBatches"
  · obtain ⟨children, hch, -, hmem⟩ := DirectedGraph.getChildren_spec hg h
    have hloop : isALoop g n = .ok (children.contains n) := by
      simp only [isALoop, hch]
      rfl
    have hdone : ∀ i, DoneOutput g n i ↔ i = if children.contains n then 0 else 1 := by
      intro i
      unfold DoneOutput
      rw [← hmem]
      by_cases hc : n ∈ children <;> simp [hc]
    obtain ⟨r, hr, hout⟩ := getIncomingData_last_spec
      (if children.contains n then 0 else 1) (hrun.loop n (DirectedGraph.mem_getNodes_iff.mpr h) ht)
    refine ⟨r.all fun items => items.length == 0, ?_, ?_⟩
    · simp only [if_pos ht, hloop, bind, Except.bind, hr]
      rfl
    · simp only [ht, true_and, hdone, forall_eq]
      constructor
      · intro hall runs taskData items hruns hlast ho
        obtain rfl := (hout items).mpr ⟨runs, taskData, hruns, hlast, ho⟩
        simpa using hall
      · intro hempty
        cases r with
        | none => rfl
        | some items =>
          obtain ⟨runs, taskData, hruns, hlast, ho⟩ := (hout items).mp rfl
          simp [hempty runs taskData items hruns hlast ho]
  · exact ⟨false, by simp only [if_neg ht]; rfl, by simp [ht]⟩

variable (pinData) in
theorem carriesNoData_spec (hrun : HasUsedTypes g runData) {c : GraphConnection}
    (hc : c ∈ g.getConnections) :
    ∃ b, carriesNoData runData pinData c = .ok b ∧ (b = true ↔ ¬CarriesData runData pinData c) := by
  obtain ⟨r, hr⟩ := exists_getIncomingDataFromAnyRun c.outputIndex (hrun.connection c hc)
  obtain ⟨hne, hiff⟩ := getIncomingDataFromAnyRun_eq_ok hr
  refine ⟨_, by simp only [carriesNoData, hr, bind, Except.bind]; rfl, ?_⟩
  rw [CarriesData, ← hiff]
  cases r with
  | none => simp
  | some r => simp [(hne r.1 r.2 rfl).1]

/-- One branch of the search adds the frontier its seen set leaves. -/
theorem findStartNodesRecursive_collects (hg : g.JoinsNodes) (hrun : HasUsedTypes g runData)
    (fuel : ℕ) (current : INode) (seen : List INode) (h : g.HasNode current)
    (hfuel : (g.getNodes.toFinset \ seen.toFinset).card < fuel) :
    Collects List.Nodup (fun found n => n ∈ found)
      (findStartNodesRecursive g destination runData pinData fuel current seen)
      (Frontier GraphConnection.from GraphConnection.to
        (fun c => c ∈ g.getConnections ∧ CarriesData runData pinData c)
        (StopNode g destination runData pinData) seen current) := by
  induction fuel generalizing current seen with
  | zero => exact absurd hfuel (Nat.not_lt_zero _)
  | succ fuel ih =>
    obtain ⟨b, hb, hloop⟩ := hasOpenLoop_spec hg h hrun
    have hstop : (isDirty current runData pinData = true ∨ current = destination ∨ b = true) ↔
        StopNode g destination runData pinData current := by
      rw [StopNode, hloop]
    have hunfold : ∀ startNodes, findStartNodesRecursive g destination runData pinData (fuel + 1)
        current seen startNodes =
      if isDirty current runData pinData = true ∨ current = destination ∨ b = true then
        .ok (addTo current startNodes)
      else if current ∈ seen then .ok startNodes
      else (g.getConnections.filter (·.from = current)).foldlM (fun startNodes c => do
        if ← carriesNoData runData pinData c then return startNodes
        findStartNodesRecursive g destination runData pinData fuel c.to (seen ++ [current])
          startNodes) startNodes := by
      intro startNodes
      rw [findStartNodesRecursive, hb, DirectedGraph.getDirectChildConnections_eq h]
      by_cases hd : isDirty current runData pinData = true
      · simp [hd, pure, Except.pure]
      · by_cases he : current = destination
        · simp [he, pure, Except.pure]
        · cases b <;> by_cases hs : current ∈ seen <;>
            simp [hd, he, hs, pure, Except.pure, bind, Except.bind]
    by_cases hs : StopNode g destination runData pinData current
    · intro startNodes hn
      rw [hunfold, if_pos (hstop.mpr hs)]
      exact (collects_addTo current).congr (fun x => (frontier_of_stop hs).symm) startNodes hn
    by_cases hseen : current ∈ seen
    · intro startNodes hn
      rw [hunfold, if_neg (hstop.not.mpr hs), if_pos hseen]
      exact collects_ok (fun x => not_frontier_of_mem hs hseen) startNodes hn
    intro startNodes hn
    rw [hunfold, if_neg (hstop.not.mpr hs), if_neg hseen]
    have hcard := card_sdiff_concat_lt
      (List.mem_toFinset.mpr (DirectedGraph.mem_getNodes_iff.mpr h)) hseen
    refine (collects_foldlM (P := fun c x => CarriesData runData pinData c ∧
      Frontier GraphConnection.from GraphConnection.to
        (fun c => c ∈ g.getConnections ∧ CarriesData runData pinData c)
        (StopNode g destination runData pinData) (seen ++ [current]) c.to x)
      fun c hc => ?_).congr (fun x => ?_) startNodes hn
    · have hc' := List.mem_of_mem_filter hc
      obtain ⟨b, hb, hcarries⟩ := carriesNoData_spec pinData hrun hc'
      cases b with
      | true =>
        simp only [hb]
        exact collects_ok fun x hx => hcarries.mp rfl hx.1
      | false =>
        have hdata : CarriesData runData pinData c := by simpa using hcarries.not.mp Bool.false_ne_true
        simp only [hb]
        exact (ih c.to (seen ++ [current]) (hg c hc').2 (by omega)).congr fun x =>
          (and_iff_right hdata).symm
    · rw [frontier_of_not_stop hs hseen]
      simp only [List.mem_filter, decide_eq_true_eq]
      constructor
      · rintro ⟨c, ⟨hc, hfrom⟩, hdata, hx⟩
        exact ⟨c, ⟨hc, hdata⟩, hfrom, hx⟩
      · rintro ⟨c, ⟨hc, hdata⟩, hfrom, hx⟩
        exact ⟨c, ⟨hc, hfrom⟩, hdata, hx⟩

/-- A loop over `Body`, which did not finish. -/
def loopGraph : DirectedGraph :=
  let loop : INode := { name := "Loop", type := "n8n-nodes-base.splitInBatches" }
  .ofLists [.named "Trigger", loop, .named "Body", .named "After"]
    [{ «from» := .named "Trigger", «to» := loop },
      { «from» := loop, «to» := .named "After", outputIndex := 0 },
      { «from» := loop, «to» := .named "Body", outputIndex := 1 },
      { «from» := .named "Body", «to» := loop }]

/-- One item on the regular output of each node that ran, on the second one of the loop. -/
def loopRunData : IRunData ℕ :=
  let items : Slot (Items ℕ) := .val [{ json := 0 }]
  (((∅ : IRunData ℕ).set "Trigger" [{ data := some (mainConnections [items]) }]).set "Loop"
    [{ data := some (mainConnections [.val [], items]) }]).set "Body"
    [{ data := some (mainConnections [items]) }]

example : findStartNodes loopGraph (.named "Trigger") (.named "After") ∅ loopRunData =
    .ok [{ name := "Loop", type := "n8n-nodes-base.splitInBatches" }] := by decide

end N8n
