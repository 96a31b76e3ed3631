import N8n.PartialExecution.DirectedGraph
import N8n.Lib.Run

/-!
# Data of earlier runs

`getIncomingData` reads the items one run of a node put on one output. A run that failed
has no data at all and counts as an empty output; a run with data for other connection
types only makes the lookup fail. `getIncomingDataFromAnyRun` returns the first nonempty
items of any run.
-/

open Lib

namespace N8n

variable {J : Type}

/-- The items of an output of one run, `none` for `null`. -/
def outputData (taskData : ITaskData J) (connectionType : NodeConnectionType) (outputIndex : ℕ) :
    Except GraphError (Option (Items J)) :=
  match taskData.data with
  | none => .ok none
  | some data =>
    match data.get? connectionType with
    | none => .error .typeError
    | some outputs => .ok ((outputs[outputIndex]?).bind Slot.toOption)

def getIncomingData (runData : IRunData J) (nodeName : String) (runIndex : ℤ)
    (connectionType : NodeConnectionType) (outputIndex : ℕ) :
    Except GraphError (Option (Items J)) :=
  match runData.get? nodeName with
  | none => .ok none
  | some runs =>
    match arrayAt runs runIndex with
    | none => .ok none
    | some taskData => outputData taskData connectionType outputIndex

def getRunIndexLength (runData : IRunData J) (nodeName : String) : ℕ :=
  ((runData.get? nodeName).getD []).length

/-- The loop of `getIncomingDataFromAnyRun` over the run indexes. -/
def firstIncomingData (runData : IRunData J) (nodeName : String)
    (connectionType : NodeConnectionType) (outputIndex : ℕ) :
    List ℕ → Except GraphError (Option (Items J × ℕ))
  | [] => .ok none
  | runIndex :: rest => do
    match ← getIncomingData runData nodeName runIndex connectionType outputIndex with
    | some data =>
      if 0 < data.length then return some (data, runIndex)
      else firstIncomingData runData nodeName connectionType outputIndex rest
    | none => firstIncomingData runData nodeName connectionType outputIndex rest

def getIncomingDataFromAnyRun (runData : IRunData J) (nodeName : String)
    (connectionType : NodeConnectionType) (outputIndex : ℕ) :
    Except GraphError (Option (Items J × ℕ)) :=
  firstIncomingData runData nodeName connectionType outputIndex
    (List.range (getRunIndexLength runData nodeName))

/-! ## What the lookups find -/

/-- The run has these items on this output. -/
def HasOutput (taskData : ITaskData J) (type : NodeConnectionType) (outputIndex : ℕ)
    (items : Items J) : Prop :=
  ∃ data outputs, taskData.data = some data ∧ data.get? type = some outputs ∧
    outputs[outputIndex]? = some (.val items)

/-- A run with data has data for the connection type. -/
def HasType (taskData : ITaskData J) (type : NodeConnectionType) : Prop :=
  ∀ data, taskData.data = some data → ∃ outputs, data.get? type = some outputs

instance (taskData : ITaskData J) (type : NodeConnectionType) : Decidable (HasType taskData type) :=
  decidable_of_iff (taskData.data.all fun data => (data.get? type).isSome) (by
    simp [HasType, Option.all_eq_true, Option.isSome_iff_exists])

/-- Some run of the node has a nonempty output there. -/
def HasIncomingData (runData : IRunData J) (nodeName : String) (type : NodeConnectionType)
    (outputIndex : ℕ) : Prop :=
  ∃ runs, runData.get? nodeName = some runs ∧ ∃ taskData ∈ runs, ∃ items,
    HasOutput taskData type outputIndex items ∧ items ≠ []

variable {runData : IRunData J} {nodeName : String} {type : NodeConnectionType} {outputIndex : ℕ}

theorem outputData_eq_ok {taskData : ITaskData J} {r : Option (Items J)}
    (h : outputData taskData type outputIndex = .ok r) (items : Items J) :
    r = some items ↔ HasOutput taskData type outputIndex items := by
  unfold outputData at h
  unfold HasOutput
  cases hd : taskData.data with
  | none =>
    rw [hd] at h
    cases h
    simp
  | some data =>
    simp only [hd] at h
    cases ho : data.get? type with
    | none => simp [ho] at h
    | some outputs =>
      rw [ho] at h
      cases h
      simp [ho, Option.bind_eq_some_iff]

variable (outputIndex) in
theorem exists_outputData {taskData : ITaskData J} (h : HasType taskData type) :
    ∃ r, outputData taskData type outputIndex = .ok r := by
  unfold outputData
  cases hd : taskData.data with
  | none => exact ⟨none, rfl⟩
  | some data =>
    obtain ⟨outputs, ho⟩ := h data hd
    exact ⟨_, by simp only [ho]; rfl⟩

/-- The run has items on the output. -/
def HasItems (taskData : ITaskData J) (type : NodeConnectionType) (outputIndex : ℕ) : Prop :=
  ∃ items, HasOutput taskData type outputIndex items ∧ items ≠ []

/-- The loop returns the first run index with a nonempty output, if there is one. -/
theorem firstIncomingData_eq_ok {runs : List (ITaskData J)}
    (hruns : runData.get? nodeName = some runs) {is : List ℕ} {r : Option (Items J × ℕ)}
    (h : firstIncomingData runData nodeName type outputIndex is = .ok r) :
    (∀ items i, r = some (items, i) → items ≠ [] ∧
      ∃ taskData, runs[i]? = some taskData ∧ HasOutput taskData type outputIndex items) ∧
    (r = none → ∀ i ∈ is, ∀ taskData, runs[i]? = some taskData →
      ¬HasItems taskData type outputIndex) := by
  induction is with
  | nil =>
    cases h
    simp
  | cons i is ih =>
    obtain ⟨data, hdata, h⟩ := bind_eq_ok.mp h
    -- what the run with index `i` has on the output
    have hout : ∀ items, data = some items ↔
        ∃ taskData, runs[i]? = some taskData ∧ HasOutput taskData type outputIndex items := by
      intro items
      simp only [getIncomingData, hruns, arrayAt_natCast] at hdata
      cases htask : runs[i]? with
      | none =>
        rw [htask] at hdata
        cases hdata
        simp
      | some taskData =>
        rw [htask] at hdata
        simp [outputData_eq_ok hdata]
    by_cases hpos : ∃ items, data = some items ∧ 0 < items.length
    · obtain ⟨items, rfl, hpos⟩ := hpos
      simp only [if_pos hpos] at h
      cases h
      refine ⟨fun items' i' he => ?_, nofun⟩
      obtain ⟨rfl, rfl⟩ := Prod.mk.inj (Option.some.inj he)
      exact ⟨List.length_pos_iff.mp hpos, (hout items).mp rfl⟩
    · have hrest : firstIncomingData runData nodeName type outputIndex is = .ok r := by
        cases data with
        | none => exact h
        | some items =>
          simp only [if_neg fun hp => hpos ⟨items, rfl, hp⟩] at h
          exact h
      obtain ⟨hsome, hnone⟩ := ih hrest
      refine ⟨hsome, fun hr j hj taskData htask => ?_⟩
      rcases List.mem_cons.mp hj with rfl | hj
      · rintro ⟨items, ho, hne⟩
        exact hpos ⟨items, (hout items).mpr ⟨taskData, htask, ho⟩, List.length_pos_iff.mpr hne⟩
      · exact hnone hr j hj taskData htask

variable (outputIndex) in
theorem exists_firstIncomingData
    (h : ∀ taskData ∈ (runData.get? nodeName).getD [], HasType taskData type) (is : List ℕ) :
    ∃ r, firstIncomingData runData nodeName type outputIndex is = .ok r := by
  induction is with
  | nil => exact ⟨none, rfl⟩
  | cons i is ih =>
    obtain ⟨r, hr⟩ := ih
    have hdata : ∃ data, getIncomingData runData nodeName i type outputIndex = .ok data := by
      unfold getIncomingData
      cases hruns : runData.get? nodeName with
      | none => exact ⟨none, rfl⟩
      | some runs =>
        cases htask : arrayAt runs i with
        | none => exact ⟨none, by simp [htask]⟩
        | some taskData =>
          rw [arrayAt_natCast] at htask
          simpa [htask] using exists_outputData outputIndex
            (h taskData (by simpa [hruns] using List.mem_of_getElem? htask))
    obtain ⟨data, hdata⟩ := hdata
    rw [firstIncomingData, hdata]
    cases data with
    | none => exact ⟨r, hr⟩
    | some items =>
      by_cases hpos : 0 < items.length
      · exact ⟨some (items, i), by simp only [bind, Except.bind, if_pos hpos]; rfl⟩
      · exact ⟨r, by simp only [bind, Except.bind, if_neg hpos]; exact hr⟩

/-- `getIncomingDataFromAnyRun` returns data of a run, and finds it if some run has it. -/
theorem getIncomingDataFromAnyRun_eq_ok {r : Option (Items J × ℕ)}
    (h : getIncomingDataFromAnyRun runData nodeName type outputIndex = .ok r) :
    (∀ items i, r = some (items, i) → items ≠ [] ∧ ∃ runs taskData,
      runData.get? nodeName = some runs ∧ runs[i]? = some taskData ∧
        HasOutput taskData type outputIndex items) ∧
    (r ≠ none ↔ HasIncomingData runData nodeName type outputIndex) := by
  unfold getIncomingDataFromAnyRun getRunIndexLength at h
  unfold HasIncomingData
  cases hruns : runData.get? nodeName with
  | none =>
    rw [hruns] at h
    cases h
    simp
  | some runs =>
    rw [hruns] at h
    obtain ⟨hsome, hnone⟩ := firstIncomingData_eq_ok hruns h
    refine ⟨fun items i he => ⟨(hsome items i he).1, runs, ?_⟩, fun hne => ?_, ?_⟩
    · obtain ⟨-, taskData, htask, hout⟩ := hsome items i he
      exact ⟨taskData, rfl, htask, hout⟩
    · obtain ⟨⟨items, i⟩, rfl⟩ := Option.ne_none_iff_exists'.mp hne
      obtain ⟨hitems, taskData, htask, hout⟩ := hsome items i rfl
      exact ⟨runs, rfl, taskData, List.mem_of_getElem? htask, items, hout, hitems⟩
    · rintro ⟨runs', hr', taskData, htask, items, hout, hitems⟩ hn
      obtain rfl := Option.some.inj hr'
      obtain ⟨i, hi, hget⟩ := List.mem_iff_getElem.mp htask
      refine hnone hn i (by simpa using hi) taskData ?_ ⟨items, hout, hitems⟩
      rw [List.getElem?_eq_getElem hi, hget]

variable (outputIndex) in
theorem exists_getIncomingDataFromAnyRun
    (h : ∀ taskData ∈ (runData.get? nodeName).getD [], HasType taskData type) :
    ∃ r, getIncomingDataFromAnyRun runData nodeName type outputIndex = .ok r :=
  exists_firstIncomingData outputIndex h _

variable (outputIndex) in
/-- The data of the last run. -/
theorem getIncomingData_last_spec
    (h : ∀ taskData ∈ (runData.get? nodeName).getD [], HasType taskData type) :
    ∃ r, getIncomingData runData nodeName (-1) type outputIndex = .ok r ∧
      ∀ items, r = some items ↔ ∃ runs taskData, runData.get? nodeName = some runs ∧
        runs.getLast? = some taskData ∧ HasOutput taskData type outputIndex items := by
  unfold getIncomingData
  cases hruns : runData.get? nodeName with
  | none => exact ⟨none, rfl, by simp⟩
  | some runs =>
    cases hlast : runs.getLast? with
    | none => exact ⟨none, by simp [hlast], by simp [hlast]⟩
    | some taskData =>
      obtain ⟨r, hr⟩ := exists_outputData outputIndex
        (h taskData (by simpa [hruns] using List.mem_of_getLast? hlast))
      exact ⟨r, by simp [hlast, hr], fun items => by simp [outputData_eq_ok hr, hlast]⟩

end N8n
