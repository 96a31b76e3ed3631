import N8n.PartialExecution.IncomingData
import Mathlib.Data.List.Chain

/-!
# Source data groups

`getSourceDataGroups` splits the connections into a node into groups with at most one
connection for each input, so that each group with data everywhere gives one execution of
the node. A group starts at the smallest input that is left and goes on as long as the
next input has a connection left, preferring those with data.

The loop ends, the groups together are the connections with data or of type Main, and the
inputs of one group are consecutive (`getSourceDataGroups_spec`).
-/

open Lib

namespace N8n

variable {J : Type}

structure SourceConnectionGroup where
  /-- All connections have data. -/
  complete : Bool := true
  connections : List GraphConnection := []
  deriving DecidableEq

/-- The order of two connections; `localeCompare` is that of strings. -/
def sortByInputIndexThenByName (localeCompare : String → String → ℤ)
    (connection1 connection2 : GraphConnection) : ℤ :=
  if connection1.inputIndex = connection2.inputIndex then
    localeCompare connection1.from.name connection2.from.name
  else connection1.inputIndex - connection2.inputIndex

/-- `connections.sort(sortByInputIndexThenByName)` -/
def sortConnections (localeCompare : String → String → ℤ) (connections : List GraphConnection) :
    List GraphConnection :=
  connections.insertionSort fun a b => sortByInputIndexThenByName localeCompare a b ≤ 0

theorem perm_sortConnections (localeCompare : String → String → ℤ)
    (connections : List GraphConnection) :
    (sortConnections localeCompare connections).Perm connections :=
  List.perm_insertionSort _ _

/-- One less than the smallest input index; of no use once no connection is left. -/
def restartIndex (connections : List GraphConnection) : ℤ :=
  ((connections.map (·.inputIndex)).min?).getD 0 - 1

/-- The loop that takes a connection with data for the next input, else one without data,
else closes the group and starts over. -/
def groupLoop : ℕ → ℤ → List GraphConnection → List GraphConnection → SourceConnectionGroup →
    Except GraphError (List SourceConnectionGroup)
  | 0, _, _, _, _ => .error .outOfFuel
  | fuel + 1, currentInputIndex, withData, withoutData, currentGroup =>
    if withData = [] ∧ withoutData = [] then .ok [currentGroup]
    else
      let currentInputIndex := currentInputIndex + 1
      match withData.find? (·.inputIndex = currentInputIndex) with
      | some connection =>
        groupLoop fuel currentInputIndex (withData.eraseP (·.inputIndex = currentInputIndex))
          withoutData { currentGroup with connections := currentGroup.connections ++ [connection] }
      | none =>
        match withoutData.find? (·.inputIndex = currentInputIndex) with
        | some connection =>
          groupLoop fuel currentInputIndex withData
            (withoutData.eraseP (·.inputIndex = currentInputIndex))
            { complete := false, connections := currentGroup.connections ++ [connection] }
        | none => do
          let groups ← groupLoop fuel (restartIndex (withData ++ withoutData)) withData
            withoutData {}
          return currentGroup :: groups

/-- The source of the connection has run data or pinned data. -/
def hasSourceData (runData : IRunData J) (pinData : IPinData J) (c : GraphConnection) : Bool :=
  runData.has c.from.name || pinData.has c.from.name

def getSourceDataGroups (localeCompare : String → String → ℤ) (g : DirectedGraph) (node : INode)
    (runData : IRunData J) (pinData : IPinData J) :
    Except GraphError (List SourceConnectionGroup) :=
  let connections := g.getConnectionsTo node
  let withData := connections.filter (hasSourceData runData pinData)
  let withoutData := connections.filter fun c =>
    !hasSourceData runData pinData c && c.type = .main
  if withData = [] ∧ withoutData = [] then .ok []
  else
    let withData := sortConnections localeCompare withData
    let withoutData := sortConnections localeCompare withoutData
    groupLoop (2 * (withData ++ withoutData).length + 1) (restartIndex (withData ++ withoutData))
      withData withoutData {}

/-! ## What the groups are -/

/-- A group of connections to consecutive inputs, complete if all of them have data. -/
structure SourceConnectionGroup.IsValid (hasData : GraphConnection → Bool)
    (group : SourceConnectionGroup) : Prop where
  ne_nil : group.connections ≠ []
  consecutive : group.connections.IsChain fun a b => b.inputIndex = a.inputIndex + 1
  complete_iff : group.complete = true ↔ ∀ c ∈ group.connections, hasData c

/-- The groups of `groups` are valid and contain the connections of `cs`, each once. -/
structure Partitions (hasData : GraphConnection → Bool) (cs : List GraphConnection)
    (groups : List SourceConnectionGroup) : Prop where
  isValid : ∀ group ∈ groups, group.IsValid hasData
  perm : (groups.flatMap (·.connections)).Perm cs

/-- The `k`th connection of a group is to the `k`th input from where the group starts. -/
theorem SourceConnectionGroup.IsValid.inputIndex_eq {hasData : GraphConnection → Bool}
    {group : SourceConnectionGroup}
    (h : group.IsValid hasData) : ∃ start : ℤ,
      (∀ c ∈ group.connections.head?, c.inputIndex = start) ∧
      ∀ (k : ℕ) c, group.connections[k]? = some c → c.inputIndex = start + k := by
  have hchain := h.consecutive
  cases hcs : group.connections with
  | nil => exact ⟨0, by simp, by simp⟩
  | cons c₀ cs =>
    refine ⟨c₀.inputIndex, by simp, fun k c hk => ?_⟩
    rw [hcs] at hchain
    clear hcs
    induction k generalizing c₀ cs with
    | zero =>
      cases hk
      simp
    | succ k ih =>
      cases cs with
      | nil => simp at hk
      | cons c₁ cs =>
        obtain ⟨h₁, hchain⟩ := List.isChain_cons_cons.mp hchain
        have := ih c₁ cs hchain (by simpa using hk)
        omega

/-- No two connections of a group are to one input. -/
theorem SourceConnectionGroup.IsValid.nodup_inputIndex {hasData : GraphConnection → Bool}
    {group : SourceConnectionGroup} (h : group.IsValid hasData) :
    (group.connections.map (·.inputIndex)).Nodup := by
  obtain ⟨start, -, hindex⟩ := h.inputIndex_eq
  refine List.nodup_iff_injective_getElem.mpr fun a b hab => Fin.ext ?_
  have ha := hindex a.1 group.connections[a.1] (List.getElem?_eq_getElem (by simpa using a.2))
  have hb := hindex b.1 group.connections[b.1] (List.getElem?_eq_getElem (by simpa using b.2))
  simp only [List.getElem_map] at hab
  omega

theorem perm_eraseP_of_find? {α : Type*} {p : α → Bool} {l : List α} {x : α}
    (h : l.find? p = some x) : l.Perm (x :: l.eraseP p) := by
  induction l with
  | nil => simp at h
  | cons y l ih =>
    by_cases hy : p y
    · rw [List.find?_cons_of_pos hy] at h
      cases h
      rw [List.eraseP_cons_of_pos hy]
    · rw [List.find?_cons_of_neg hy] at h
      rw [List.eraseP_cons_of_neg hy]
      exact ((ih h).cons y).trans (.swap x y _)

/-- Some connection has the input that follows the restart index. -/
theorem exists_restartIndex (cs : List GraphConnection) (h : cs ≠ []) :
    ∃ c ∈ cs, c.inputIndex = restartIndex cs + 1 := by
  obtain ⟨i, hi⟩ := Option.isSome_iff_exists.mp
    (List.isSome_min?_of_ne_nil (l := cs.map (·.inputIndex)) (by simpa using h))
  obtain ⟨c, hc, hci⟩ := List.mem_map.mp (List.min?_mem hi)
  exact ⟨c, hc, by simp only [restartIndex, hi, Option.getD_some]; omega⟩

section Loop

variable {hasData : GraphConnection → Bool}

/-- The group the loop is filling : its last connection is to the current input. -/
structure SourceConnectionGroup.IsOpen (hasData : GraphConnection → Bool) (index : ℤ)
    (group : SourceConnectionGroup) : Prop where
  consecutive : group.connections.IsChain fun a b => b.inputIndex = a.inputIndex + 1
  complete_iff : group.complete = true ↔ ∀ c ∈ group.connections, hasData c
  last : ∀ c ∈ group.connections.getLast?, c.inputIndex = index

theorem SourceConnectionGroup.IsOpen.new (index : ℤ) : IsOpen hasData index {} :=
  ⟨.nil, by simp, by simp⟩

/-- The loop takes a connection to the next input. -/
theorem SourceConnectionGroup.IsOpen.concat {index : ℤ} {group : SourceConnectionGroup}
    (h : group.IsOpen hasData index) {c : GraphConnection} (hc : c.inputIndex = index + 1)
    (complete : Bool) (hcomplete : complete = (group.complete && hasData c)) :
    IsOpen hasData (index + 1) { complete, connections := group.connections ++ [c] } where
  consecutive := by
    refine List.isChain_append.mpr ⟨h.consecutive, .singleton c, fun a ha b hb => ?_⟩
    obtain rfl : c = b := by simpa using hb
    rw [h.last a ha, hc]
  complete_iff := by
    simp only [hcomplete, Bool.and_eq_true, h.complete_iff, List.forall_mem_append,
      List.forall_mem_singleton]
  last := by simp [hc]

theorem SourceConnectionGroup.IsOpen.isValid {index : ℤ} {group : SourceConnectionGroup}
    (h : group.IsOpen hasData index) (hne : group.connections ≠ []) : group.IsValid hasData :=
  ⟨hne, h.consecutive, h.complete_iff⟩

/-- The loop partitions the connections of the open group and those that are left. It
closes a group only if no connection to the next input is left, so that the next
iteration takes one : two iterations for each connection are enough. -/
theorem groupLoop_spec {fuel : ℕ} {index : ℤ} {withData withoutData : List GraphConnection}
    {group : SourceConnectionGroup} (hopen : group.IsOpen hasData index)
    (hwith : ∀ c ∈ withData, hasData c) (hwithout : ∀ c ∈ withoutData, ¬hasData c)
    (hne : group.connections ≠ [] ∨ ∃ c ∈ withData ++ withoutData, c.inputIndex = index + 1)
    (hfuel : 2 * (withData ++ withoutData).length + 1 ≤ fuel ∨
      (∃ c ∈ withData ++ withoutData, c.inputIndex = index + 1) ∧
        2 * (withData ++ withoutData).length ≤ fuel) :
    ∃ groups, groupLoop fuel index withData withoutData group = .ok groups ∧
      Partitions hasData (group.connections ++ (withData ++ withoutData)) groups := by
  induction fuel generalizing index withData withoutData group with
  | zero =>
    rcases hfuel with h | ⟨⟨c, hc, -⟩, h⟩
    · omega
    · have := List.length_pos_of_mem hc
      omega
  | succ fuel ih =>
    rw [groupLoop]
    by_cases hnil : withData = [] ∧ withoutData = []
    · obtain ⟨rfl, rfl⟩ := hnil
      refine ⟨[group], if_pos ⟨rfl, rfl⟩, ?_, by simp⟩
      rw [List.forall_mem_singleton]
      exact hopen.isValid (by simpa using hne)
    rw [if_neg hnil]
    cases hf : withData.find? (·.inputIndex = index + 1) with
    | some c =>
      have hc : c.inputIndex = index + 1 := by simpa using List.find?_some hf
      have hperm := perm_eraseP_of_find? hf
      have hlen : 2 * (withData.eraseP (·.inputIndex = index + 1) ++ withoutData).length + 1 ≤
          fuel := by
        have := hperm.length_eq
        simp only [List.length_cons, List.length_append] at this hfuel ⊢
        omega
      obtain ⟨groups, heq, hvalid, hgroups⟩ := ih
        (hopen.concat hc group.complete (by
          rw [hwith c (List.mem_of_find?_eq_some hf), Bool.and_true]))
        (fun d hd => hwith d (List.mem_of_mem_eraseP hd)) hwithout (Or.inl (by simp))
        (Or.inl hlen)
      refine ⟨groups, by simp only [hf]; exact heq, hvalid, hgroups.trans ?_⟩
      rw [List.append_assoc]
      exact ((hperm.append_right _).append_left _).symm
    | none =>
      cases hf' : withoutData.find? (·.inputIndex = index + 1) with
      | some c =>
        have hc : c.inputIndex = index + 1 := by simpa using List.find?_some hf'
        have hperm := perm_eraseP_of_find? hf'
        have hlen : 2 * (withData ++ withoutData.eraseP (·.inputIndex = index + 1)).length + 1 ≤
            fuel := by
          have := hperm.length_eq
          simp only [List.length_cons, List.length_append] at this hfuel ⊢
          omega
        obtain ⟨groups, heq, hvalid, hgroups⟩ := ih
          (hopen.concat hc false (by
            simp [hwithout c (List.mem_of_find?_eq_some hf')]))
          hwith (fun d hd => hwithout d (List.mem_of_mem_eraseP hd)) (Or.inl (by simp))
          (Or.inl hlen)
        refine ⟨groups, by simp only [hf, hf']; exact heq, hvalid, hgroups.trans ?_⟩
        rw [List.append_assoc]
        exact (((hperm.append_left withData).trans List.perm_middle).append_left _).symm
      | none =>
        have hmiss : ¬∃ c ∈ withData ++ withoutData, c.inputIndex = index + 1 := by
          rintro ⟨c, hc, hci⟩
          rcases List.mem_append.mp hc with hc | hc
          · simpa [hci] using List.find?_eq_none.mp hf c hc
          · simpa [hci] using List.find?_eq_none.mp hf' c hc
        have hrestart := exists_restartIndex (withData ++ withoutData) (by simpa using hnil)
        obtain ⟨groups, heq, hvalid, hgroups⟩ := ih (.new _) hwith hwithout
          (Or.inr hrestart) (Or.inr ⟨hrestart, by have := hfuel.resolve_right (hmiss ·.1); omega⟩)
        refine ⟨group :: groups, by simp only [hf, hf', heq]; rfl, ?_, hgroups.append_left _⟩
        exact List.forall_mem_cons.mpr ⟨hopen.isValid (hne.resolve_right hmiss), hvalid⟩

end Loop

/-- The groups are valid and together the connections into the node that have data or are
of type Main. -/
theorem getSourceDataGroups_spec (localeCompare : String → String → ℤ) (g : DirectedGraph)
    (node : INode) (runData : IRunData J) (pinData : IPinData J) :
    ∃ groups, getSourceDataGroups localeCompare g node runData pinData = .ok groups ∧
      Partitions (hasSourceData runData pinData)
        ((g.getConnectionsTo node).filter fun c =>
          hasSourceData runData pinData c || c.type = .main) groups := by
  have hsplit : ∀ cs : List GraphConnection,
      (cs.filter (hasSourceData runData pinData) ++ cs.filter fun c =>
        !hasSourceData runData pinData c && c.type = .main).Perm
        (cs.filter fun c => hasSourceData runData pinData c || c.type = .main) := by
    intro cs
    induction cs with
    | nil => rfl
    | cons c cs ih =>
      by_cases hd : hasSourceData runData pinData c <;> by_cases hm : c.type = .main <;>
        simp [hd, hm, ih, List.perm_middle.trans (ih.cons c)]
  unfold getSourceDataGroups
  dsimp only
  split_ifs with hnil
  · refine ⟨[], rfl, by simp, ?_⟩
    have := hsplit (g.getConnectionsTo node)
    rw [hnil.1, hnil.2] at this
    exact this
  · set withData := (g.getConnectionsTo node).filter (hasSourceData runData pinData)
    set withoutData := (g.getConnectionsTo node).filter fun c =>
      !hasSourceData runData pinData c && c.type = .main
    have hwith := perm_sortConnections localeCompare withData
    have hwithout := perm_sortConnections localeCompare withoutData
    have hperm := hwith.append hwithout
    have hdata : ∀ c ∈ sortConnections localeCompare withData,
        hasSourceData runData pinData c :=
      fun c hc => (List.mem_filter.mp (hwith.mem_iff.mp hc)).2
    have hnodata : ∀ c ∈ sortConnections localeCompare withoutData,
        ¬hasSourceData runData pinData c := by
      intro c hc
      have := (List.mem_filter.mp (hwithout.mem_iff.mp hc)).2
      simp_all
    obtain ⟨groups, heq, hvalid, hgroups⟩ := groupLoop_spec (.new _) hdata hnodata
      (Or.inr (exists_restartIndex (sortConnections localeCompare withData ++
        sortConnections localeCompare withoutData) fun he => hnil
          (by simpa [he] using hperm.length_eq.symm))) (Or.inl le_rfl)
    exact ⟨groups, heq, hvalid, hgroups.trans (hperm.trans (hsplit _))⟩

section Groups

variable (localeCompare : String → String → ℤ) (g : DirectedGraph) (runData : IRunData J)
  (pinData : IPinData J)

/-- The groups of a start node. -/
def sourceDataGroups (startNode : INode) : List SourceConnectionGroup :=
  ((getSourceDataGroups localeCompare g startNode runData pinData).toOption).getD []

theorem getSourceDataGroups_eq (startNode : INode) :
    getSourceDataGroups localeCompare g startNode runData pinData =
      .ok (sourceDataGroups localeCompare g runData pinData startNode) := by
  obtain ⟨groups, heq, -⟩ := getSourceDataGroups_spec localeCompare g startNode runData pinData
  rw [sourceDataGroups, heq]
  rfl

theorem partitions_sourceDataGroups (startNode : INode) :
    Partitions (hasSourceData runData pinData)
      ((g.getConnectionsTo startNode).filter fun c =>
        hasSourceData runData pinData c || c.type = .main)
      (sourceDataGroups localeCompare g runData pinData startNode) := by
  obtain ⟨groups, heq, h⟩ := getSourceDataGroups_spec localeCompare g startNode runData pinData
  rw [getSourceDataGroups_eq] at heq
  cases heq
  exact h

end Groups

end N8n
