import N8n.PartialExecution.RecreatedWaiting

/-!
# Where recreated data came from

Every source that `recreateNodeExecutionStack` writes names a node, an output and a run,
and comes with items. The run should be the one the items were read from, 0 for pinned
data, and the items of a pinned node should be the pinned ones.

The sources of a complete group name the run found, but a connection without items has a
source and no items, which shifts the items after it. The sources of an incomplete group
name the index of the waiting entry instead of the run, and its items never are the
pinned ones. `Records` follows what the groups write into the waiting state;
`recreateNodeExecutionStack_provenance_iff` says when all sources are right.
-/

open Lib

namespace N8n

variable {J : Type}

/-! ## The first run with items -/

/-- The items are on the output of this run, and no earlier run has items there. -/
def FirstOutput (runData : IRunData J) (nodeName : String) (type : NodeConnectionType)
    (outputIndex run : ℕ) (items : Items J) : Prop :=
  ∃ runs taskData, runData.get? nodeName = some runs ∧ runs[run]? = some taskData ∧
    HasOutput taskData type outputIndex items ∧ items ≠ [] ∧
    ∀ i < run, ∀ earlier, runs[i]? = some earlier → ¬HasItems earlier type outputIndex

section FirstOutput

variable {runData : IRunData J} {nodeName : String} {type : NodeConnectionType} {outputIndex : ℕ}

theorem HasOutput.unique {taskData : ITaskData J} {items items' : Items J}
    (h : HasOutput taskData type outputIndex items)
    (h' : HasOutput taskData type outputIndex items') : items = items' := by
  obtain ⟨data, outputs, hdata, houtputs, hitems⟩ := h
  obtain ⟨data', outputs', hdata', houtputs', hitems'⟩ := h'
  obtain rfl := Option.some.inj (hdata.symm.trans hdata')
  obtain rfl := Option.some.inj (houtputs.symm.trans houtputs')
  exact Slot.val.inj (Option.some.inj (hitems.symm.trans hitems'))

theorem FirstOutput.unique {run run' : ℕ} {items items' : Items J}
    (h : FirstOutput runData nodeName type outputIndex run items)
    (h' : FirstOutput runData nodeName type outputIndex run' items') :
    run = run' ∧ items = items' := by
  obtain ⟨runs, taskData, hruns, htask, hout, hne, hfirst⟩ := h
  obtain ⟨runs', taskData', hruns', htask', hout', hne', hfirst'⟩ := h'
  obtain rfl := Option.some.inj (hruns.symm.trans hruns')
  obtain hlt | rfl | hlt := lt_trichotomy run run'
  · exact absurd ⟨items, hout, hne⟩ (hfirst' run hlt taskData htask)
  · obtain rfl := Option.some.inj (htask.symm.trans htask')
    exact ⟨rfl, hout.unique hout'⟩
  · exact absurd ⟨items', hout', hne'⟩ (hfirst run' hlt taskData' htask')

/-- The runs before the one found have no items. -/
theorem firstIncomingData_first {runs : List (ITaskData J)}
    (hruns : runData.get? nodeName = some runs) {is : List ℕ} {items : Items J} {run : ℕ}
    (h : firstIncomingData runData nodeName type outputIndex is = .ok (some (items, run))) :
    ∃ before after, is = before ++ run :: after ∧ ∀ i ∈ before, ∀ earlier,
      runs[i]? = some earlier → ¬HasItems earlier type outputIndex := by
  induction is with
  | nil => cases h
  | cons i is ih =>
    obtain ⟨data, hdata, h⟩ := bind_eq_ok.mp h
    by_cases hpos : ∃ items, data = some items ∧ 0 < items.length
    · obtain ⟨items', rfl, hpos⟩ := hpos
      simp only [if_pos hpos] at h
      cases h
      exact ⟨[], is, rfl, by simp⟩
    · have hrest : firstIncomingData runData nodeName type outputIndex is =
          .ok (some (items, run)) := by
        cases data with
        | none => exact h
        | some items =>
          simp only [if_neg fun hp => hpos ⟨items, rfl, hp⟩] at h
          exact h
      obtain ⟨before, after, rfl, hbefore⟩ := ih hrest
      refine ⟨i :: before, after, rfl, fun j hj earlier hearlier => ?_⟩
      rcases List.mem_cons.mp hj with rfl | hj
      · rintro ⟨items', hout, hne⟩
        simp only [getIncomingData, hruns, arrayAt_natCast, hearlier] at hdata
        exact hpos ⟨items', (outputData_eq_ok hdata items').mpr hout,
          List.length_pos_iff.mpr hne⟩
      · exact hbefore j hj earlier hearlier

/-- `getIncomingDataFromAnyRun` returns the items of the first run that has some. -/
theorem getIncomingDataFromAnyRun_first {r : Option (Items J × ℕ)}
    (h : getIncomingDataFromAnyRun runData nodeName type outputIndex = .ok r) (run : ℕ)
    (items : Items J) :
    r = some (items, run) ↔ FirstOutput runData nodeName type outputIndex run items := by
  obtain ⟨hsome, hiff⟩ := getIncomingDataFromAnyRun_eq_ok h
  have hfound : ∀ items run, r = some (items, run) →
      FirstOutput runData nodeName type outputIndex run items := by
    rintro items run rfl
    obtain ⟨hne, runs, taskData, hruns, htask, hout⟩ := hsome items run rfl
    obtain ⟨before, after, hrange, hbefore⟩ := firstIncomingData_first hruns h
    refine ⟨runs, taskData, hruns, htask, hout, hne, fun i hi => hbefore i ?_⟩
    -- `before` are the indexes below `run`
    have hlen : run = before.length := by
      have hget := congrArg (·[before.length]?) hrange
      have hlt : before.length < getRunIndexLength runData nodeName := by
        have := congrArg List.length hrange
        simp only [List.length_range, List.length_append, List.length_cons] at this
        omega
      simpa [hlt] using hget.symm
    have hget := congrArg (·[i]?) hrange
    have hi' : i < before.length := by omega
    have hlt : i < getRunIndexLength runData nodeName := by
      have := congrArg List.length hrange
      simp only [List.length_range, List.length_append, List.length_cons] at this
      omega
    simp only [List.getElem?_range hlt, List.getElem?_append_left hi'] at hget
    exact List.mem_of_getElem? hget.symm
  refine ⟨hfound items run, fun hfirst => ?_⟩
  have hne : r ≠ none := by
    obtain ⟨runs, taskData, hruns, htask, hout, hitems, -⟩ := hfirst
    exact hiff.mpr ⟨runs, hruns, taskData, List.mem_of_getElem? htask, items, hout, hitems⟩
  obtain ⟨⟨items', run'⟩, rfl⟩ := Option.ne_none_iff_exists'.mp hne
  obtain ⟨rfl, rfl⟩ := (hfound _ _ rfl).unique hfirst
  rfl

end FirstOutput

/-! ## Right sources -/

/-- The items are the pinned ones and the run is 0, or, if the node is not pinned, the run
is the first with items on the output, and they are its items. -/
def SuppliedBy (runData : IRunData J) (pinData : IPinData J) (type : NodeConnectionType)
    (source : ISourceData) (items : Items J) : Prop :=
  match pinData.get? source.previousNode with
  | some pinned => items = pinned ∧ source.previousNodeRun = some 0
  | none => ∃ outputIndex run, source.previousNodeOutput = some outputIndex ∧
    source.previousNodeRun = some run ∧
    FirstOutput runData source.previousNode type outputIndex run items

/-- The source names the node and the output the connection comes from. -/
def ISourceData.Names (source : ISourceData) (c : GraphConnection) : Prop :=
  source.previousNode = c.from.name ∧ source.previousNodeOutput = some c.outputIndex

/-- The entry has a source for each connection of the group, and next to it the items that
the source says. -/
def SourcesSupply (runData : IRunData J) (pinData : IPinData J) (group : SourceConnectionGroup)
    (executeData : IExecuteData J) : Prop :=
  ∃ main sources, executeData.data.get? .main = some main ∧
    executeData.source.bind (·.get? .main) = some sources ∧
    sources.length = group.connections.length ∧
    ∀ (k : ℕ) c, group.connections[k]? = some c → ∃ source items,
      sources[k]? = some (.val source) ∧ main[k]? = some (.val items) ∧ source.Names c ∧
        SuppliedBy runData pinData c.type source items

/-- `waiting[nodeName][runIndex][inputType][i]` -/
def waitingSlot {β : Type} (waiting : OrderedMap String (WaitingEntries
    (OrderedMap NodeConnectionType (List (Slot β))))) (nodeName : String) (runIndex : ℕ)
    (inputType : NodeConnectionType) (i : ℕ) : Slot β :=
  ((((((waiting.get? nodeName).getD ∅).get? runIndex).getD ∅).get? inputType).getD []).getD i .hole

theorem waitingSlot_addWaiting {β : Type} (waiting : OrderedMap String (WaitingEntries
    (OrderedMap NodeConnectionType (List (Slot β))))) (nodeName name : String) (runIndex r : ℕ)
    (inputType type : NodeConnectionType) (inputIndex : ℤ) (i : ℕ) (slot : Slot β) :
    waitingSlot (addWaiting waiting nodeName runIndex inputType inputIndex slot) name r type i =
      if nodeName = name ∧ runIndex = r ∧ inputType = type ∧ inputIndex = i then slot
      else waitingSlot waiting name r type i := by
  unfold waitingSlot addWaiting
  by_cases hname : nodeName = name
  · subst hname
    by_cases hrun : runIndex = r
    · subst hrun
      by_cases htype : inputType = type
      · subst htype
        simp only [OrderedMap.get?_set_self, Option.getD_some, getD_writeAt, true_and]
      · simp [OrderedMap.get?_set, htype]
    · simp [OrderedMap.get?_set, hrun]
  · simp [OrderedMap.get?_set, hname]

/-! ## What the groups write -/

/-- The source written for a connection of an incomplete group. -/
def GraphConnection.waitingSource (c : GraphConnection) (runIndex : ℕ) : ISourceData where
  previousNode := c.from.name
  previousNodeRun := some runIndex
  previousNodeOutput := some c.outputIndex

/-- The items a connection of an incomplete group is written with. -/
def GraphConnection.Finds (runData : IRunData J) (c : GraphConnection) (run : ℕ)
    (items : Items J) : Prop :=
  FirstOutput runData c.from.name c.type c.outputIndex run items

def GraphConnection.finds (runData : IRunData J) (c : GraphConnection) : Bool :=
  match getIncomingDataFromAnyRun runData c.from.name c.type c.outputIndex with
  | .ok (some _) => true
  | _ => false

/-- The waiting state has what is written for the connections of `W`, each at the index
of a waiting entry of a node, and nothing else. -/
structure Records (runData : IRunData J) (W : String → ℕ → GraphConnection → Prop)
    (recreated : RecreatedExecution J) : Prop where
  written : ∀ nodeName runIndex type i source,
    waitingSlot recreated.waitingExecutionSource nodeName runIndex type i = .val source →
    ∃ c, W nodeName runIndex c ∧ c.type = type ∧ c.inputIndex = i
  present : ∀ nodeName runIndex c, W nodeName runIndex c → ∃ run items,
    c.Finds runData run items ∧ ∀ i : ℕ, c.inputIndex = i →
      waitingSlot recreated.waitingExecutionSource nodeName runIndex c.type i =
        .val (c.waitingSource runIndex) ∧
      waitingSlot recreated.waitingExecution nodeName runIndex c.type i = .val items
  lt : ∀ nodeName runIndex c, W nodeName runIndex c → runIndex < recreated.nextRunIndex nodeName
  keys : ∀ nodeName k, ((recreated.entries nodeName).get? k).isSome = true ↔
    k < recreated.nextRunIndex nodeName

section Records

variable {runData : IRunData J} {pinData : IPinData J} {W : String → ℕ → GraphConnection → Prop}
  {nodeName : String} {index : ℕ} {c : GraphConnection}
  {recreated recreated' : RecreatedExecution J}

theorem Records.congr (h : Records runData W recreated)
    {W' : String → ℕ → GraphConnection → Prop}
    (hiff : ∀ nodeName runIndex c, W' nodeName runIndex c ↔ W nodeName runIndex c) :
    Records runData W' recreated := by
  obtain rfl : W' = W := by
    funext nodeName runIndex c
    exact propext (hiff nodeName runIndex c)
  exact h

/-- A connection that finds no items changes nothing; one that does is written. -/
theorem addWaitingConnection_cases
    (h : addWaitingConnection nodeName runData index recreated c = .ok recreated') :
    (c.finds runData = false ∧ (∀ run items, ¬c.Finds runData run items) ∧
      recreated' = recreated) ∨
    c.finds runData = true ∧ ∃ run items, c.Finds runData run items ∧
      recreated'.waitingExecution = addWaitingExecution recreated.waitingExecution nodeName index
        c.type c.inputIndex (.val items) ∧
      recreated'.waitingExecutionSource = addWaitingExecutionSource
        recreated.waitingExecutionSource nodeName index c.type c.inputIndex
        (.val (c.waitingSource index)) := by
  obtain ⟨found, hfound, h⟩ := bind_eq_ok.mp h
  have hfirst := getIncomingDataFromAnyRun_first hfound
  cases found with
  | none =>
    cases h
    refine .inl ⟨by simp [GraphConnection.finds, hfound], fun run items hfinds => ?_, rfl⟩
    cases (hfirst run items).mpr hfinds
  | some found =>
    cases h
    exact .inr ⟨by simp [GraphConnection.finds, hfound], found.2, found.1,
      (hfirst found.2 found.1).mp rfl, rfl, rfl⟩

/-- A connection to another input than what is there at the index is recorded. -/
theorem Records.addWaitingConnection (h : Records runData W recreated)
    (hle : index ≤ recreated.nextRunIndex nodeName)
    (hfresh : ∀ c', W nodeName index c' → c'.inputIndex ≠ c.inputIndex)
    (hstep : N8n.addWaitingConnection nodeName runData index recreated c = .ok recreated') :
    Records runData (fun name r c' => W name r c' ∨ name = nodeName ∧ r = index ∧ c' = c ∧
        c.finds runData = true) recreated' ∧
      recreated'.nextRunIndex nodeName =
        (if c.finds runData then max (recreated.nextRunIndex nodeName) (index + 1)
          else recreated.nextRunIndex nodeName) ∧
      ∀ name, name ≠ nodeName → recreated'.nextRunIndex name = recreated.nextRunIndex name := by
  obtain ⟨hno, -, rfl⟩ | ⟨hyes, run, items, hfinds, hexecution, hsource⟩ :=
    addWaitingConnection_cases hstep
  · simp [hno, h]
  have hslotSource : ∀ name r type (i : ℕ),
      waitingSlot recreated'.waitingExecutionSource name r type i =
        if nodeName = name ∧ index = r ∧ c.type = type ∧ c.inputIndex = i then
          .val (c.waitingSource index)
        else waitingSlot recreated.waitingExecutionSource name r type i := by
    intro name r type i
    rw [hsource, addWaitingExecutionSource, waitingSlot_addWaiting]
  have hslot : ∀ name r type (i : ℕ), waitingSlot recreated'.waitingExecution name r type i =
      if nodeName = name ∧ index = r ∧ c.type = type ∧ c.inputIndex = i then .val items
      else waitingSlot recreated.waitingExecution name r type i := by
    intro name r type i
    rw [hexecution, addWaitingExecution, waitingSlot_addWaiting]
  have hentries := entries_addWaitingExecution hexecution
  -- the entry is new exactly if the index was the next one
  have hsize : recreated'.nextRunIndex nodeName =
      max (recreated.nextRunIndex nodeName) (index + 1) := by
    have hkey := h.keys nodeName index
    change (recreated'.entries nodeName).size = max (recreated.entries nodeName).size (index + 1)
    change _ ↔ index < (recreated.entries nodeName).size at hkey
    change index ≤ (recreated.entries nodeName).size at hle
    rw [hentries, if_pos rfl, OrderedMap.size_set]
    split_ifs with hsome
    · have := hkey.mp hsome
      omega
    · have := mt hkey.mpr hsome
      omega
  have hother : ∀ name, name ≠ nodeName →
      recreated'.nextRunIndex name = recreated.nextRunIndex name := by
    intro name hname
    change (recreated'.entries name).size = (recreated.entries name).size
    rw [hentries, if_neg (Ne.symm hname)]
  refine ⟨⟨?written, ?present, ?lt, ?keys⟩, by rw [if_pos hyes, hsize], hother⟩
  case written =>
    intro name r type i source hval
    rw [hslotSource] at hval
    split_ifs at hval with hplace
    · obtain ⟨rfl, rfl, rfl, hi⟩ := hplace
      exact ⟨c, .inr ⟨rfl, rfl, rfl, hyes⟩, rfl, hi⟩
    · obtain ⟨c', hc', htype, hi⟩ := h.written name r type i source hval
      exact ⟨c', .inl hc', htype, hi⟩
  case present =>
    rintro name r c' (hc' | ⟨rfl, rfl, rfl, -⟩)
    · obtain ⟨run', items', hfinds', hslots⟩ := h.present name r c' hc'
      refine ⟨run', items', hfinds', fun i hi => ?_⟩
      have hplace : ¬(nodeName = name ∧ index = r ∧ c.type = c'.type ∧ c.inputIndex = i) := by
        rintro ⟨rfl, rfl, -, hci⟩
        exact hfresh c' hc' (hi.trans hci.symm)
      rw [hslotSource, hslot, if_neg hplace, if_neg hplace]
      exact hslots i hi
    · refine ⟨run, items, hfinds, fun i hi => ?_⟩
      rw [hslotSource, hslot, if_pos ⟨rfl, rfl, rfl, hi⟩, if_pos ⟨rfl, rfl, rfl, hi⟩]
      exact ⟨rfl, rfl⟩
  case lt =>
    rintro name r c' (hc' | ⟨rfl, rfl, rfl, -⟩)
    · have := h.lt name r c' hc'
      by_cases hname : name = nodeName
      · subst hname
        omega
      · rwa [hother name hname]
    · omega
  case keys =>
    intro name k
    by_cases hname : name = nodeName
    · subst hname
      rw [hsize, hentries, if_pos rfl, OrderedMap.get?_set]
      split_ifs with hk
      · simp only [Option.isSome_some, true_iff]
        omega
      · rw [h.keys]
        omega
    · rw [hother name hname, hentries, if_neg (Ne.symm hname)]
      exact h.keys name k

/-- The connections of a group are written at one index. -/
theorem Records.foldlM_addWaitingConnection {cs : List GraphConnection}
    (h : Records runData W recreated) (hle : index ≤ recreated.nextRunIndex nodeName)
    (hfresh : ∀ c ∈ cs, ∀ c', W nodeName index c' → c'.inputIndex ≠ c.inputIndex)
    (hnodup : (cs.map (·.inputIndex)).Nodup)
    (hstep : cs.foldlM (N8n.addWaitingConnection nodeName runData index) recreated =
      .ok recreated') :
    Records runData (fun name r c => W name r c ∨ name = nodeName ∧ r = index ∧ c ∈ cs ∧
        c.finds runData = true) recreated' ∧
      recreated'.nextRunIndex nodeName =
        (if cs.any (·.finds runData) then max (recreated.nextRunIndex nodeName) (index + 1)
          else recreated.nextRunIndex nodeName) ∧
      ∀ name, name ≠ nodeName → recreated'.nextRunIndex name = recreated.nextRunIndex name := by
  induction cs generalizing W recreated with
  | nil =>
    cases hstep
    simpa using h
  | cons c cs ih =>
    rw [List.foldlM_cons] at hstep
    obtain ⟨next, hnext, hrest⟩ := bind_eq_ok.mp hstep
    obtain ⟨hnotMem, hnodup⟩ := List.nodup_cons.mp hnodup
    obtain ⟨h₁, hsize₁, hother₁⟩ := h.addWaitingConnection hle (hfresh c (by simp)) hnext
    obtain ⟨h₂, hsize₂, hother₂⟩ := ih h₁
      (by rw [hsize₁]; split_ifs <;> omega) (by
        rintro d hd c' (hc' | ⟨-, -, rfl, -⟩)
        · exact hfresh d (by simp [hd]) c' hc'
        · exact fun heq => hnotMem (List.mem_map.mpr ⟨d, hd, heq.symm⟩)) hnodup hrest
    refine ⟨?_, ?_, fun name hname => (hother₂ name hname).trans (hother₁ name hname)⟩
    · refine h₂.congr fun name r c' => ?_
      simp only [List.mem_cons]
      constructor
      · rintro (hc' | ⟨rfl, rfl, rfl | hc', hfinds⟩)
        · exact .inl (.inl hc')
        · exact .inl (.inr ⟨rfl, rfl, rfl, hfinds⟩)
        · exact .inr ⟨rfl, rfl, hc', hfinds⟩
      · rintro ((hc' | ⟨rfl, rfl, rfl, hfinds⟩) | ⟨rfl, rfl, hc', hfinds⟩)
        · exact .inl hc'
        · exact .inr ⟨rfl, rfl, .inl rfl, hfinds⟩
        · exact .inr ⟨rfl, rfl, .inr hc', hfinds⟩
    · rw [hsize₂, hsize₁, List.any_cons]
      by_cases hc : c.finds runData = true
      · simp [hc]
      · simp [hc]

/-- An incomplete group with a connection that finds items gets an entry of its own. -/
def SourceConnectionGroup.isRebuilt (runData : IRunData J) (group : SourceConnectionGroup) : Bool :=
  !group.complete && group.connections.any (·.finds runData)

/-- The groups of a node, each with the index its entry has or would have. -/
def withRunIndex (runData : IRunData J) :
    ℕ → List SourceConnectionGroup → List (ℕ × SourceConnectionGroup)
  | _, [] => []
  | nextRunIndex, group :: groups =>
    (nextRunIndex, group) ::
      withRunIndex runData (if group.isRebuilt runData then nextRunIndex + 1 else nextRunIndex)
        groups

theorem Records.addGroup {startNode : INode} {group : SourceConnectionGroup}
    (h : Records runData W recreated)
    (hvalid : group.IsValid (hasSourceData runData pinData))
    (hstep : N8n.addGroup startNode runData pinData recreated group = .ok recreated') :
    Records runData (fun name r c => W name r c ∨ name = startNode.name ∧
        r = recreated.nextRunIndex startNode.name ∧ group.complete = false ∧
        c ∈ group.connections ∧ c.finds runData = true) recreated' ∧
      recreated'.nextRunIndex startNode.name =
        (if group.isRebuilt runData then recreated.nextRunIndex startNode.name + 1
          else recreated.nextRunIndex startNode.name) ∧
      ∀ name, name ≠ startNode.name →
        recreated'.nextRunIndex name = recreated.nextRunIndex name := by
  unfold N8n.addGroup at hstep
  split_ifs at hstep with hcomplete
  · obtain ⟨executeData, -, hstep⟩ := bind_eq_ok.mp hstep
    cases hstep
    simp only [SourceConnectionGroup.isRebuilt, hcomplete, Bool.true_eq_false, false_and,
      and_false, or_false, Bool.not_true, Bool.false_and, Bool.false_eq_true, if_false]
    exact ⟨⟨h.written, h.present, h.lt, h.keys⟩, rfl, fun _ _ => rfl⟩
  · have hcomplete : group.complete = false := by simpa using hcomplete
    obtain ⟨hrecords, hsize, hother⟩ := h.foldlM_addWaitingConnection le_rfl
      (fun c _ c' hc' => absurd (h.lt _ _ _ hc') (lt_irrefl _)) hvalid.nodup_inputIndex hstep
    refine ⟨hrecords.congr (by simp [hcomplete]), ?_, hother⟩
    rw [hsize, SourceConnectionGroup.isRebuilt, hcomplete]
    simp

theorem Records.foldlM_addGroup {startNode : INode} {groups : List SourceConnectionGroup}
    (h : Records runData W recreated)
    (hvalid : ∀ group ∈ groups, group.IsValid (hasSourceData runData pinData))
    (hstep : groups.foldlM (N8n.addGroup startNode runData pinData) recreated = .ok recreated') :
    Records runData (fun name r c => W name r c ∨ name = startNode.name ∧ ∃ group,
        (r, group) ∈ withRunIndex runData (recreated.nextRunIndex startNode.name) groups ∧
        group.complete = false ∧ c ∈ group.connections ∧ c.finds runData = true) recreated' ∧
      ∀ name, name ≠ startNode.name →
        recreated'.nextRunIndex name = recreated.nextRunIndex name := by
  induction groups generalizing W recreated with
  | nil =>
    cases hstep
    simpa [withRunIndex] using h
  | cons group groups ih =>
    rw [List.foldlM_cons] at hstep
    obtain ⟨next, hnext, hrest⟩ := bind_eq_ok.mp hstep
    obtain ⟨h₁, hsize₁, hother₁⟩ := h.addGroup (hvalid group (by simp)) hnext
    obtain ⟨h₂, hother₂⟩ := ih h₁ (fun g hg => hvalid g (by simp [hg])) hrest
    refine ⟨h₂.congr fun name r c => ?_,
      fun name hname => (hother₂ name hname).trans (hother₁ name hname)⟩
    rw [withRunIndex, ← hsize₁]
    simp only [List.mem_cons, Prod.mk.injEq]
    constructor
    · rintro (hc | ⟨rfl, g, ⟨rfl, rfl⟩ | hg, hc⟩)
      · exact .inl (.inl hc)
      · exact .inl (.inr ⟨rfl, rfl, hc⟩)
      · exact .inr ⟨rfl, g, hg, hc⟩
    · rintro ((hc | ⟨rfl, rfl, hc⟩) | ⟨rfl, g, hg, hc⟩)
      · exact .inl hc
      · exact .inr ⟨rfl, group, .inl ⟨rfl, rfl⟩, hc⟩
      · exact .inr ⟨rfl, g, .inr hg, hc⟩

end Records

section Recreate

variable [DataObject J] {localeCompare : String → String → ℤ} {g : DirectedGraph}
  {runData : IRunData J} {pinData : IPinData J} {startNode : INode} {startNodes : List INode}
  {W : String → ℕ → GraphConnection → Prop} {recreated recreated' : RecreatedExecution J}

/-- The connection belongs to the incomplete group of the node whose waiting entry has this
index, and finds items. -/
def IsWritten (localeCompare : String → String → ℤ) (g : DirectedGraph) (runData : IRunData J)
    (pinData : IPinData J) (startNodes : List INode) (nodeName : String) (runIndex : ℕ)
    (c : GraphConnection) : Prop :=
  ∃ startNode ∈ startNodes, startNode.name = nodeName ∧
    (∃ c ∈ g.getConnectionsTo startNode, c.type = .main) ∧
    ∃ group, (runIndex, group) ∈
        withRunIndex runData 0 (sourceDataGroups localeCompare g runData pinData startNode) ∧
      group.complete = false ∧ c ∈ group.connections ∧ c.finds runData = true

theorem Records.addStartNode (h : Records runData W recreated)
    (hzero : recreated.nextRunIndex startNode.name = 0)
    (hstep : N8n.addStartNode localeCompare g runData pinData recreated startNode =
      .ok recreated') :
    Records runData (fun name r c => W name r c ∨
        IsWritten localeCompare g runData pinData [startNode] name r c) recreated' ∧
      ∀ name, name ≠ startNode.name →
        recreated'.nextRunIndex name = recreated.nextRunIndex name := by
  obtain ⟨-, ⟨hparents, rfl⟩ | ⟨hparents, hstep⟩⟩ := addStartNode_cases hstep
  · refine ⟨?_, fun _ _ => rfl⟩
    have hrecords : Records runData W { recreated with
        nodeExecutionStack := recreated.nodeExecutionStack ++ [emptyExecuteData startNode] } :=
      ⟨h.written, h.present, h.lt, h.keys⟩
    refine hrecords.congr fun name r c => or_iff_left ?_
    rintro ⟨n, hn, -, hn', -⟩
    exact hparents (List.mem_singleton.mp hn ▸ hn')
  · have hpartition := partitions_sourceDataGroups localeCompare g runData pinData startNode
    obtain ⟨hrecords, hother⟩ := h.foldlM_addGroup hpartition.isValid hstep
    refine ⟨hrecords.congr fun name r c => ?_, hother⟩
    rw [hzero, IsWritten]
    simp only [List.mem_singleton, exists_eq_left, eq_comm (a := startNode.name), hparents,
      true_and]

theorem Records.foldlM_addStartNode (h : Records runData W recreated)
    (hzero : ∀ startNode ∈ startNodes, recreated.nextRunIndex startNode.name = 0)
    (hnodup : (startNodes.map (·.name)).Nodup)
    (hstep : startNodes.foldlM (N8n.addStartNode localeCompare g runData pinData) recreated =
      .ok recreated') :
    Records runData (fun name r c => W name r c ∨
      IsWritten localeCompare g runData pinData startNodes name r c) recreated' := by
  induction startNodes generalizing W recreated with
  | nil =>
    cases hstep
    exact h.congr fun name r c => or_iff_left (by simp [IsWritten])
  | cons startNode startNodes ih =>
    rw [List.foldlM_cons] at hstep
    obtain ⟨next, hnext, hrest⟩ := bind_eq_ok.mp hstep
    obtain ⟨hnotMem, hnodup⟩ := List.nodup_cons.mp hnodup
    obtain ⟨h₁, hother⟩ := h.addStartNode (hzero startNode (by simp)) hnext
    refine (ih h₁ (fun n hn => ?_) hnodup hrest).congr fun name r c => ?_
    · rw [hother n.name fun heq => hnotMem (List.mem_map.mpr ⟨n, hn, heq⟩)]
      exact hzero n (by simp [hn])
    · simp only [IsWritten, List.mem_cons, or_and_right, exists_or, exists_eq_left,
        List.mem_nil_iff, or_false, or_assoc]

/-- The waiting state has what the incomplete groups of the start nodes write. -/
theorem recreateNodeExecutionStack_records (hnodup : startNodes.Nodup)
    (h : recreateNodeExecutionStack localeCompare g runData pinData startNodes = .ok recreated) :
    Records runData (IsWritten localeCompare g runData pinData startNodes) recreated := by
  obtain ⟨-, -, h⟩ := bind_eq_ok.mp h
  -- the start nodes are nodes of the graph, so their names are different
  have hnode : ∀ n ∈ startNodes, g.HasNode n := fun n hn =>
    foldlM_establishes (P := fun _ => g.HasNode n) hn (fun _ _ hs => (addStartNode_cases hs).1)
      (fun _ _ _ _ hs _ => hs) h
  have hnames : (startNodes.map (·.name)).Nodup := by
    refine hnodup.map_on fun a ha b hb hname => ?_
    have hb := hnode b hb
    rw [DirectedGraph.HasNode, ← hname, hnode a ha] at hb
    exact Option.some.inj hb
  have hinit : Records runData (fun _ _ _ => False) ({} : RecreatedExecution J) :=
    ⟨fun _ _ _ _ _ hval => (by cases hval), fun _ _ _ => False.elim, fun _ _ _ => False.elim,
      fun _ _ => (by simp [RecreatedExecution.entries, RecreatedExecution.nextRunIndex])⟩
  exact (hinit.foldlM_addStartNode (fun _ _ => rfl) hnames h).congr fun name r c => by simp

/-- The lookup for a connection of an incomplete group does not fail. -/
theorem exists_lookup (hstart : startNode ∈ startNodes)
    (hparents : ∃ c ∈ g.getConnectionsTo startNode, c.type = .main)
    {group : SourceConnectionGroup}
    (hgroup : group ∈ sourceDataGroups localeCompare g runData pinData startNode)
    (hcomplete : group.complete = false) {c : GraphConnection} (hc : c ∈ group.connections)
    (h : recreateNodeExecutionStack localeCompare g runData pinData startNodes = .ok recreated) :
    ∃ found, getIncomingDataFromAnyRun runData c.from.name c.type c.outputIndex = .ok found := by
  obtain ⟨-, -, h⟩ := bind_eq_ok.mp h
  refine foldlM_establishes (P := fun _ => _) hstart (fun _ _ hs => ?_) (fun _ _ _ _ hs _ => hs) h
  obtain ⟨-, ⟨hno, -⟩ | ⟨-, hs⟩⟩ := addStartNode_cases hs
  · exact absurd hparents hno
  refine foldlM_establishes (P := fun _ => _) hgroup (fun _ _ hs' => ?_) (fun _ _ _ _ hs _ => hs) hs
  rw [addGroup, if_neg (by simp [hcomplete])] at hs'
  refine foldlM_establishes (P := fun _ => _) hc (fun _ _ hs'' => ?_) (fun _ _ _ _ hs _ => hs) hs'
  obtain ⟨found, hfound, -⟩ := bind_eq_ok.mp hs''
  exact ⟨found, hfound⟩

/-! ## Complete groups -/

omit [DataObject J] in
theorem incomingFor_suppliedBy {c : GraphConnection} {incoming : Option (Items J) × ISourceData}
    (h : incomingFor startNode runData pinData c = .ok incoming) {items : Items J}
    (hitems : incoming.1 = some items) :
    incoming.2.Names c ∧ SuppliedBy runData pinData c.type incoming.2 items := by
  obtain ⟨⟨found, runIndex⟩, hfound, h⟩ := bind_eq_ok.mp h
  cases h
  obtain rfl : found = some items := hitems
  refine ⟨⟨rfl, rfl⟩, ?_⟩
  unfold incomingItems at hfound
  unfold SuppliedBy
  cases hpin : pinData.get? c.from.name with
  | some pinned =>
    rw [hpin] at hfound
    cases hfound
    exact ⟨rfl, rfl⟩
  | none =>
    simp only [hpin] at hfound
    split_ifs at hfound
    obtain ⟨found, hlookup, hfound⟩ := bind_eq_ok.mp hfound
    cases found with
    | none => cases hfound
    | some found =>
      cases hfound
      exact ⟨_, _, rfl, rfl, (getIncomingDataFromAnyRun_first hlookup _ _).mp rfl⟩

omit [DataObject J] in
/-- The sources of a complete group are right exactly when each connection produces items. -/
theorem executeDataFor_sourcesSupply_iff {group : SourceConnectionGroup}
    {executeData : IExecuteData J}
    (h : executeDataFor startNode runData pinData group = .ok executeData) :
    SourcesSupply runData pinData group executeData ↔
      ∀ c ∈ group.connections, Produces runData pinData c := by
  obtain ⟨incoming, hincoming, h⟩ := bind_eq_ok.mp h
  rw [mapM_eq_ok] at hincoming
  cases h
  have hlen := hincoming.length_eq
  have hget : ∀ (k : ℕ) c, group.connections[k]? = some c →
      ∃ i, incoming[k]? = some i ∧ incomingFor startNode runData pinData c = .ok i := by
    intro k c hk
    obtain ⟨hlt, rfl⟩ := List.getElem?_eq_some_iff.mp hk
    have hlt' := hlen ▸ hlt
    exact ⟨incoming[k], List.getElem?_eq_getElem hlt', hincoming.get hlt hlt'⟩
  constructor
  · rintro ⟨main, sources, hmain, -, -, hsupply⟩ c hc
    rw [get?_mainConnections, Option.some.injEq] at hmain
    subst hmain
    -- the last source has items, so no connection is without
    have hall : ∀ i ∈ incoming, (i.1.map Slot.val).isSome = true := by
      rw [← List.filterMap_length_eq_length]
      refine le_antisymm (List.length_filterMap_le _ _) ?_
      by_contra hshort
      have hpos : incoming.length - 1 < group.connections.length := by omega
      obtain ⟨source, items, -, hitems, -⟩ :=
        hsupply _ _ (List.getElem?_eq_getElem hpos)
      obtain ⟨hlt, -⟩ := List.getElem?_eq_some_iff.mp hitems
      omega
    obtain ⟨k, hk⟩ := List.getElem?_of_mem hc
    obtain ⟨i, hi, hincomingFor⟩ := hget k c hk
    refine (incomingFor_eq_ok hincomingFor).2.2.mp ?_
    simpa using hall i (List.mem_of_getElem? hi)
  · intro hproduces
    obtain ⟨hall, hmain⟩ := items_eq_map_of_produces hincoming hproduces
    refine ⟨_, _, get?_mainConnections _, by rw [Option.bind_some, get?_mainConnections],
      by simp [hlen], fun k c hk => ?_⟩
    obtain ⟨i, hi, hincomingFor⟩ := hget k c hk
    exact ⟨i.2, i.1.getD [], by simp [hi], by simp [hmain, hi],
      incomingFor_suppliedBy hincomingFor (hall i (List.mem_of_getElem? hi))⟩

/-! ## All sources -/

/-- The sources of the stack and of the waiting state name the runs their items are from,
and every pinned node of an incomplete group has a source. -/
structure HasProvenance (localeCompare : String → String → ℤ) (g : DirectedGraph)
    (runData : IRunData J) (pinData : IPinData J) (startNodes : List INode)
    (recreated : RecreatedExecution J) : Prop where
  stack : ∀ startNode group executeData, ((startNode, some group), executeData) ∈
      (stackPlan localeCompare g runData pinData startNodes).zip recreated.nodeExecutionStack →
    SourcesSupply runData pinData group executeData
  waiting : ∀ nodeName runIndex type i source,
    waitingSlot recreated.waitingExecutionSource nodeName runIndex type i = .val source →
    ∃ items, waitingSlot recreated.waitingExecution nodeName runIndex type i = .val items ∧
      SuppliedBy runData pinData type source items
  pinned : ∀ startNode ∈ startNodes, (∃ c ∈ g.getConnectionsTo startNode, c.type = .main) →
    ∀ group ∈ sourceDataGroups localeCompare g runData pinData startNode,
      group.complete = false → ∀ c ∈ group.connections, pinData.has c.from.name = true →
      ∃ runIndex i source, c.inputIndex = (i : ℕ) ∧
        waitingSlot recreated.waitingExecutionSource startNode.name runIndex c.type i =
          .val source ∧ source.Names c

/-- In a complete group every connection produces items. In an incomplete one the first run
with items has the index of the waiting entry; if the node is pinned the index is 0 and the
items are the pinned ones. -/
def SourceConnectionGroup.PointsAtRuns (runData : IRunData J) (pinData : IPinData J)
    (runIndex : ℕ) (group : SourceConnectionGroup) : Prop :=
  if group.complete then ∀ c ∈ group.connections, Produces runData pinData c
  else ∀ c ∈ group.connections,
    match pinData.get? c.from.name with
    | some pinned => 0 ≤ c.inputIndex ∧ runIndex = 0 ∧ ∃ run, c.Finds runData run pinned
    | none => 0 ≤ c.inputIndex → ∀ run items, c.Finds runData run items → run = runIndex

omit [DataObject J] in
theorem mem_of_mem_withRunIndex {group : SourceConnectionGroup} {runIndex nextRunIndex : ℕ}
    {groups : List SourceConnectionGroup}
    (h : (runIndex, group) ∈ withRunIndex runData nextRunIndex groups) : group ∈ groups := by
  induction groups generalizing nextRunIndex with
  | nil => cases h
  | cons _ groups ih =>
    rcases List.mem_cons.mp h with heq | h
    · cases heq
      exact List.mem_cons_self
    · exact List.mem_cons_of_mem _ (ih h)

omit [DataObject J] in
theorem exists_mem_withRunIndex {group : SourceConnectionGroup} (nextRunIndex : ℕ)
    {groups : List SourceConnectionGroup} (h : group ∈ groups) :
    ∃ runIndex, (runIndex, group) ∈ withRunIndex runData nextRunIndex groups := by
  induction groups generalizing nextRunIndex with
  | nil => cases h
  | cons _ groups ih =>
    rcases List.mem_cons.mp h with rfl | h
    · exact ⟨nextRunIndex, List.mem_cons_self⟩
    · obtain ⟨runIndex, hmem⟩ := ih _ h
      exact ⟨runIndex, List.mem_cons_of_mem _ hmem⟩

/-- A connection of an incomplete group that finds items is written with them. -/
theorem exists_slots (hnodup : startNodes.Nodup)
    (h : recreateNodeExecutionStack localeCompare g runData pinData startNodes = .ok recreated)
    (hstart : startNode ∈ startNodes)
    (hparents : ∃ c ∈ g.getConnectionsTo startNode, c.type = .main) {runIndex : ℕ}
    {group : SourceConnectionGroup}
    (hgroup : (runIndex, group) ∈
      withRunIndex runData 0 (sourceDataGroups localeCompare g runData pinData startNode))
    (hcomplete : group.complete = false) {c : GraphConnection} (hc : c ∈ group.connections)
    {run : ℕ} {items : Items J} (hfinds : c.Finds runData run items) {i : ℕ}
    (hi : c.inputIndex = i) :
    waitingSlot recreated.waitingExecutionSource startNode.name runIndex c.type i =
        .val (c.waitingSource runIndex) ∧
      waitingSlot recreated.waitingExecution startNode.name runIndex c.type i = .val items := by
  obtain ⟨found, hlookup⟩ :=
    exists_lookup hstart hparents (mem_of_mem_withRunIndex hgroup) hcomplete hc h
  have hfound := (getIncomingDataFromAnyRun_first hlookup run items).mpr hfinds
  obtain ⟨run', items', hfinds', hslots⟩ :=
    (recreateNodeExecutionStack_records hnodup h).present startNode.name runIndex c
      ⟨startNode, hstart, rfl, hparents, group, hgroup, hcomplete, hc,
        by simp [GraphConnection.finds, hlookup, hfound]⟩
  obtain ⟨-, rfl⟩ := hfinds'.unique hfinds
  exact hslots i hi

/-- The sources of a complete group in the stack are right only if each connection produces
items. -/
theorem HasProvenance.produces
    (hprovenance : HasProvenance localeCompare g runData pinData startNodes recreated)
    (h : recreateNodeExecutionStack localeCompare g runData pinData startNodes = .ok recreated)
    (hstart : startNode ∈ startNodes)
    (hparents : ∃ c ∈ g.getConnectionsTo startNode, c.type = .main) {group : SourceConnectionGroup}
    (hgroup : group ∈ sourceDataGroups localeCompare g runData pinData startNode)
    (hcomplete : group.complete = true) : ∀ c ∈ group.connections, Produces runData pinData c := by
  have hstack := nodeExecutionStack_forall₂ h
  -- the entry of the group in the stack
  have hplan := mem_stackPlan.mpr ⟨hstart, hparents, hgroup, hcomplete⟩
  obtain ⟨k, hk, hgetk⟩ := List.mem_iff_getElem.mp hplan
  have hk' := hstack.length_eq ▸ hk
  have hentry := hstack.get hk hk'
  simp only [List.get_eq_getElem, hgetk] at hentry
  refine (executeDataFor_sourcesSupply_iff hentry).mp (hprovenance.stack startNode group _ ?_)
  rw [← hgetk, ← List.getElem_zip (h := by simpa using ⟨hk, hk'⟩)]
  exact List.getElem_mem _

section Incomplete

variable (hnodup : startNodes.Nodup)
  (h : recreateNodeExecutionStack localeCompare g runData pinData startNodes = .ok recreated)
  (hstart : startNode ∈ startNodes)
  (hparents : ∃ c ∈ g.getConnectionsTo startNode, c.type = .main) {runIndex : ℕ}
  {group : SourceConnectionGroup}
  (hgroup : (runIndex, group) ∈
    withRunIndex runData 0 (sourceDataGroups localeCompare g runData pinData startNode))
  (hcomplete : group.complete = false) {c : GraphConnection} (hc : c ∈ group.connections)

include hnodup h hstart hparents hgroup hcomplete hc

/-- What is written for a pinned node are the pinned items, as run 0. -/
theorem HasProvenance.pointsAtRuns_pinned
    (hprovenance : HasProvenance localeCompare g runData pinData startNodes recreated)
    {pinned : Items J} (hpin : pinData.get? c.from.name = some pinned) :
    0 ≤ c.inputIndex ∧ runIndex = 0 ∧ ∃ run, c.Finds runData run pinned := by
  have hrecords := recreateNodeExecutionStack_records hnodup h
  obtain ⟨r, i, source, hi, hslot, hnode, houtput⟩ := hprovenance.pinned startNode hstart
    hparents group (mem_of_mem_withRunIndex hgroup) hcomplete c hc (by simp [OrderedMap.has, hpin])
  obtain ⟨c', hwritten, htype, hi'⟩ := hrecords.written _ _ _ _ _ hslot
  obtain ⟨run, items, hfinds, hslots⟩ := hrecords.present _ _ c' hwritten
  obtain ⟨hsource, hitems⟩ := htype ▸ hslots i hi'
  obtain rfl := Slot.val.inj (hsource.symm.trans hslot)
  have hfinds : c.Finds runData run items := by
    unfold GraphConnection.Finds at hfinds ⊢
    rwa [← hnode, ← Option.some.inj houtput, ← htype]
  have hright : ∀ (r : ℕ) source, source.previousNode = c.from.name →
      source.previousNodeRun = some r →
      waitingSlot recreated.waitingExecutionSource startNode.name r c.type i =
        .val source →
      waitingSlot recreated.waitingExecution startNode.name r c.type i = .val items →
      items = pinned ∧ r = 0 := by
    intro r source hnode hrun hsource hitems
    obtain ⟨items', hitems', hsupplied⟩ := hprovenance.waiting _ _ _ _ _ hsource
    obtain rfl := Slot.val.inj (hitems.symm.trans hitems')
    simp only [SuppliedBy, hnode, hpin, hrun, Option.some.injEq] at hsupplied
    exact hsupplied
  obtain ⟨rfl, -⟩ := hright r _ hnode rfl hslot hitems
  obtain ⟨hsource, hitems⟩ := exists_slots hnodup h hstart hparents hgroup hcomplete hc hfinds hi
  obtain ⟨-, rfl⟩ := hright runIndex _ rfl rfl hsource hitems
  exact ⟨by omega, rfl, run, hfinds⟩

/-- What is written for a node that is not pinned is the run of the entry. -/
theorem HasProvenance.pointsAtRuns_run
    (hprovenance : HasProvenance localeCompare g runData pinData startNodes recreated)
    (hpin : pinData.get? c.from.name = none) (hnonneg : 0 ≤ c.inputIndex) {run : ℕ}
    {items : Items J} (hfinds : c.Finds runData run items) : run = runIndex := by
  obtain ⟨i, hi⟩ := Int.eq_ofNat_of_zero_le hnonneg
  obtain ⟨hsource, -⟩ := exists_slots hnodup h hstart hparents hgroup hcomplete hc hfinds hi
  obtain ⟨items', -, hsupplied⟩ := hprovenance.waiting _ _ _ _ _ hsource
  simp only [SuppliedBy, GraphConnection.waitingSource, hpin] at hsupplied
  obtain ⟨outputIndex, run', houtput, hrun, hfirst⟩ := hsupplied
  obtain rfl := Option.some.inj houtput
  exact (hfinds.unique hfirst).1.trans (Option.some.inj hrun).symm

end Incomplete

omit [DataObject J] in
/-- The items that are written for a connection are those its source names. -/
theorem SourceConnectionGroup.PointsAtRuns.suppliedBy {group : SourceConnectionGroup}
    {runIndex : ℕ} (hpoints : group.PointsAtRuns runData pinData runIndex)
    (hcomplete : group.complete = false) {c : GraphConnection} (hc : c ∈ group.connections)
    (hnonneg : 0 ≤ c.inputIndex) {run : ℕ} {items : Items J} (hfinds : c.Finds runData run items) :
    SuppliedBy runData pinData c.type (c.waitingSource runIndex) items := by
  rw [SourceConnectionGroup.PointsAtRuns, if_neg (by simp [hcomplete])] at hpoints
  have hpoints := hpoints c hc
  simp only [SuppliedBy, GraphConnection.waitingSource]
  cases hpin : pinData.get? c.from.name with
  | some pinned =>
    simp only [hpin] at hpoints
    obtain ⟨-, rfl, run', hfinds'⟩ := hpoints
    exact ⟨(hfinds.unique hfinds').2, rfl⟩
  | none =>
    simp only [hpin] at hpoints
    obtain rfl := hpoints hnonneg run items hfinds
    exact ⟨_, _, rfl, rfl, hfinds⟩

end Recreate

/-! ## A source with two runs -/

/-- The first run of `A` has no items, the second has one. -/
def secondRunData : IRunData ℕ :=
  (∅ : IRunData ℕ).set "A" [{ data := some (mainConnections [.val []]) },
    { data := some (mainConnections [.val [emptyItem]]) }]

end N8n
