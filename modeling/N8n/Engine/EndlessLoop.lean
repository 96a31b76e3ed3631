import N8n.Engine.ExecutionLoop
import N8n.Lib.GuardedRotation

/-!
# The endless-loop guard

An entry that lacks data goes to the end of the stack, and its try, the name of its node with the
index of the run, is remembered. The loop stops when the next entry has the try that is
remembered. So a stack of such entries is a rotation that remembers its last turn
(`executionLoop_endless_iff_rotateFor`), and the guard stops it if and only if two entries with
the same try follow each other (`executionLoop_endless_iff`).
-/

open Lib

namespace N8n

variable {J : Type}

/-! ## What pairing the items keeps -/

/-- Whether there is something in the slot, but not what. -/
def slotKind {β : Type} : Slot β → Slot Unit
  | .hole => .hole
  | .undefined => .undefined
  | .null => .null
  | .val _ => .val ()

theorem isNull_slotKind {β : Type} (slot : Slot β) : (slotKind slot).isNull = slot.isNull := by
  cases slot <;> rfl

/-- For which inputs there is data. -/
def inputKinds (data : ITaskDataConnections J) : List (NodeConnectionType × List (Slot Unit)) :=
  data.entries.map fun e => (e.1, e.2.map slotKind)

/-- No input is `undefined`, as the type of the data says. -/
def IsDefined (data : ITaskDataConnections J) : Prop :=
  ∀ e ∈ inputKinds data, Slot.undefined ∉ e.2

theorem get?_main_of_inputKinds {data data' : ITaskDataConnections J}
    (h : inputKinds data = inputKinds data') :
    (data.get? .main).map (List.map slotKind) = (data'.get? .main).map (List.map slotKind) := by
  have hfind : ∀ es : List (NodeConnectionType × List (Slot (Items J))),
      (OrderedMap.find .main es).map (List.map slotKind) =
        OrderedMap.find .main (es.map fun e => (e.1, e.2.map slotKind)) := by
    intro es
    induction es with
    | nil => rfl
    | cons e es ih =>
      rw [List.map_cons, OrderedMap.find, OrderedMap.find]
      split_ifs
      · rfl
      · exact ih
  rw [OrderedMap.get?, OrderedMap.get?, hfind, hfind]
  exact congrArg _ h

theorem isNull_getD_congr {slots slots' : List (Slot (Items J))}
    (h : slots.map slotKind = slots'.map slotKind) (index : ℕ) :
    (slots.getD index .hole).isNull = (slots'.getD index .hole).isNull := by
  have hget : (slots[index]?).map slotKind = (slots'[index]?).map slotKind := by
    rw [← List.getElem?_map, ← List.getElem?_map, h]
  have hread : ∀ slots : List (Slot (Items J)), slotKind (slots.getD index .hole) =
      ((slots[index]?).map slotKind).getD .hole := by
    intro slots
    rw [List.getD_eq_getElem?_getD]
    cases slots[index]? <;> rfl
  rw [← isNull_slotKind, hread, hget, ← hread, isNull_slotKind]

/-- Whether a node can be executed depends only on the inputs that have data. -/
theorem hasDataForInputs_congr (workflow : Workflow) (nodeName : String)
    {data data' : ITaskDataConnections J} (h : inputKinds data = inputKinds data')
    (inputs : List ℕ) :
    hasDataForInputs workflow nodeName data inputs =
      hasDataForInputs workflow nodeName data' inputs := by
  have hmain := get?_main_of_inputKinds h
  induction inputs with
  | nil => rfl
  | cons input inputs ih =>
    rw [hasDataForInputs, hasDataForInputs, ih]
    cases hdata : data.get? .main with
    | none =>
      have hdata' : data'.get? .main = none := by simpa [hdata] using hmain.symm
      rw [hdata']
    | some main =>
      obtain ⟨main', hdata', hkinds⟩ : ∃ main', data'.get? .main = some main' ∧
          main'.map slotKind = main.map slotKind := by
        simpa [hdata] using hmain.symm
      have hlength : main'.length = main.length := by simpa using congrArg List.length hkinds
      rw [hdata']
      dsimp only
      rw [hlength, isNull_getD_congr hkinds]

theorem exists_pairInputs (executionData : IExecuteData J) {inputs : List (Slot (Items J))}
    (hdefined : Slot.undefined ∉ inputs.map slotKind) (start : ℕ) :
    ∃ paired, (inputs.zipIdx start).mapM (fun (input, inputIndex) =>
        pairInput executionData inputIndex input) = .ok paired ∧
      paired.map slotKind = inputs.map slotKind := by
  induction inputs generalizing start with
  | nil => exact ⟨[], rfl, rfl⟩
  | cons input inputs ih =>
    rw [List.map_cons, List.mem_cons, not_or] at hdefined
    obtain ⟨paired, hpaired, hkinds⟩ := ih hdefined.2 (start + 1)
    obtain ⟨slot, hslot, hkind⟩ : ∃ slot, pairInput executionData start input = .ok slot ∧
        slotKind slot = slotKind input := by
      cases input with
      | undefined => exact absurd rfl hdefined.1
      | hole | null | val => exact ⟨_, rfl, rfl⟩
    refine ⟨slot :: paired, ?_, by rw [List.map_cons, List.map_cons, hkind, hkinds]⟩
    rw [List.zipIdx_cons, List.mapM_cons]
    exact bind_eq_ok.mpr ⟨slot, hslot, bind_eq_ok.mpr ⟨paired, hpaired, rfl⟩⟩

/-- The items are paired type by type, and added to those of the types before. -/
theorem exists_foldlM_pairInputs (executionData : IExecuteData J)
    {es : List (NodeConnectionType × List (Slot (Items J)))}
    (hdefined : ∀ e ∈ es, Slot.undefined ∉ e.2.map slotKind)
    (connections : ITaskDataConnections J) (hnodup : (connections.keys ++ es.map Prod.fst).Nodup) :
    ∃ data : ITaskDataConnections J,
      es.foldlM (fun (connections : ITaskDataConnections J) (connectionType, inputs) => do
        let inputs ← inputs.zipIdx.mapM fun (input, inputIndex) =>
          pairInput executionData inputIndex input
        return connections.set connectionType inputs) connections = .ok data ∧
      inputKinds data = inputKinds connections ++ es.map fun e => (e.1, e.2.map slotKind) := by
  induction es generalizing connections with
  | nil => exact ⟨connections, rfl, (List.append_nil _).symm⟩
  | cons e es ih =>
    obtain ⟨connectionType, inputs⟩ := e
    obtain ⟨paired, hpaired, hkinds⟩ :=
      exists_pairInputs executionData (hdefined _ List.mem_cons_self) 0
    have hfresh : connections.get? connectionType = none := by
      rw [OrderedMap.get?_eq_none_iff]
      intro hmem
      exact (List.nodup_append.mp hnodup).2.2 _ hmem _ (by simp) rfl
    have hentries := OrderedMap.entries_set_of_get?_eq_none (v := paired) hfresh
    obtain ⟨data, hdata, hdataKinds⟩ := ih (fun e he => hdefined e (List.mem_cons_of_mem _ he))
      (connections.set connectionType paired)
      (by rw [OrderedMap.keys, hentries]; simpa [OrderedMap.keys] using hnodup)
    refine ⟨data, ?_, ?_⟩
    · rw [List.foldlM_cons]
      exact bind_eq_ok.mpr ⟨_, bind_eq_ok.mpr ⟨paired, hpaired, rfl⟩, hdata⟩
    · rw [hdataKinds, inputKinds, hentries]
      simp [inputKinds, hkinds]

/-- The items are paired, and there is data for the same inputs as before. -/
theorem exists_newTaskDataConnections {executionData : IExecuteData J}
    (hdefined : IsDefined executionData.data) :
    ∃ data, newTaskDataConnections executionData = .ok data ∧
      inputKinds data = inputKinds executionData.data := by
  obtain ⟨data, hdata, hkinds⟩ := exists_foldlM_pairInputs executionData
    (fun e he => hdefined _ (List.mem_map_of_mem he)) ∅
    (by simpa using executionData.data.nodup_keys)
  exact ⟨data, hdata, by simpa [inputKinds] using hkinds⟩

/-! ## One iteration -/

/-- What is tried : the name of the node and the index of its run. -/
def currentExecutionTry (runData : IRunData J) (executionData : IExecuteData J)
    (executionNode : INode) : String :=
  executionNode.name ++ ":" ++
    toString (currentRunIndex executionData executionNode.name runData)

/-- What the entry tries, and whether its node is in the filter. -/
def turnOf (config : LoopConfig J) (runData : IRunData J) (executionData : IExecuteData J) :
    String × Bool :=
  match executionData.node with
  | none => ("", false)
  | some executionNode => (currentExecutionTry runData executionData executionNode,
      config.runNodeFilter.all (executionNode.name ∈ ·))

/-- The entry lacks data its node requires. -/
structure LacksRequiredData (workflow : Workflow) (executionData : IExecuteData J) : Prop where
  defined : IsDefined executionData.data
  lacks : ∃ executionNode, executionData.node = some executionNode ∧
    hasDataForInputs workflow executionNode.name executionData.data
      (List.range (workflow.numberOfInputs executionNode.name)) = false

/-- All entries of the stack lack data. -/
def AllLackData (workflow : Workflow) (st : LoopState J) : Prop :=
  ∀ executionData ∈ st.nodeExecutionStack, LacksRequiredData workflow executionData

/-- The stack as a rotation : what was tried last, and the turns of the entries. -/
def rotationOf (config : LoopConfig J) (st : LoopState J) : String × Turns String :=
  (st.lastExecutionTry, st.nodeExecutionStack.map (turnOf config st.runData))

def endlessLoop : EngineError :=
  .userError "Stopped execution because it seems to be in an endless loop"

section Loop

variable [DataObject J] {config : LoopConfig J} {st : LoopState J}

omit [DataObject J] in
/-- With paired items an entry lacks the same data and tries the same. -/
theorem LacksRequiredData.pair {workflow : Workflow} {executionData : IExecuteData J}
    (h : LacksRequiredData workflow executionData) :
    ∃ data, newTaskDataConnections executionData = .ok data ∧
      LacksRequiredData workflow { executionData with data } := by
  obtain ⟨data, hdata, hkinds⟩ := exists_newTaskDataConnections h.defined
  obtain ⟨executionNode, hnode, hlacks⟩ := h.lacks
  refine ⟨data, hdata, ?_, executionNode, hnode, ?_⟩
  · rw [IsDefined, hkinds]
    exact h.defined
  · rwa [hasDataForInputs_congr workflow executionNode.name hkinds]

omit [DataObject J] in
theorem turnOf_eq (config : LoopConfig J) (runData : IRunData J) {executionData : IExecuteData J}
    {executionNode : INode} (hnode : executionData.node = some executionNode) :
    turnOf config runData executionData =
      (currentExecutionTry runData executionData executionNode,
        config.runNodeFilter.all (executionNode.name ∈ ·)) := by
  simp only [turnOf, hnode]

omit [DataObject J] in
theorem LacksRequiredData.ensureInputData {workflow : Workflow} {executionData : IExecuteData J}
    {executionNode : INode} (h : LacksRequiredData workflow executionData)
    (hnode : executionData.node = some executionNode) (st : LoopState J) :
    ensureInputData workflow executionNode executionData st =
      ({ st with nodeExecutionStack := st.nodeExecutionStack ++ [executionData] }, false) := by
  obtain ⟨node, hnode', hlacks⟩ := h.lacks
  obtain rfl := Option.some.inj (hnode.symm.trans hnode')
  exact if_neg (by rw [hlacks]; exact Bool.false_ne_true)

theorem bind_eq_error {ε α β : Type} {x : Except ε α} {a : α} {f : α → Except ε β} {e : ε}
    (hx : x = .ok a) (hf : f a = .error e) : (x >>= f) = .error e := by
  rw [hx]
  exact hf

/-- What an iteration does with an entry that lacks data. -/
theorem iteration_of_lacksRequiredData {executionData : IExecuteData J} {rest : List (IExecuteData J)}
    (hstack : st.nodeExecutionStack = executionData :: rest)
    (h : LacksRequiredData config.workflow executionData) {input : IterationInput J}
    (hinput : input.canceled = false) :
    ∃ data, LacksRequiredData config.workflow { executionData with data } ∧
      iteration config input st =
        if (turnOf config st.runData executionData).1 = st.lastExecutionTry then
          .error endlessLoop
        else if (turnOf config st.runData executionData).2 then
          .ok ({ st with
            nodeExecutionStack := rest ++ [{ executionData with data }]
            executionError := none
            lastExecutionTry := (turnOf config st.runData executionData).1 }, .inputMissing)
        else .ok ({ st with nodeExecutionStack := rest, executionError := none }, .filtered) := by
  obtain ⟨data, hdata, hpaired⟩ := h.pair
  obtain ⟨executionNode, hnode, -⟩ := hpaired.lacks
  have hhead : orTypeError st.nodeExecutionStack.head? = .ok executionData := by
    rw [hstack]
    rfl
  have hnode' : orTypeError executionData.node = .ok executionNode := orTypeError_eq_ok.mpr hnode
  have hfilter : config.runNodeFilter.any (executionNode.name ∉ ·) = true ↔
      ¬config.runNodeFilter.all (executionNode.name ∈ ·) = true := by
    cases config.runNodeFilter <;> simp
  refine ⟨data, hpaired, ?_⟩
  have hturn : turnOf config st.runData executionData =
      (currentExecutionTry st.runData executionData executionNode,
        config.runNodeFilter.all (executionNode.name ∈ ·)) := turnOf_eq config st.runData hnode
  rw [hturn]
  unfold iteration
  rw [if_neg (by simp [hinput])]
  split_ifs with htry hkept
  · refine bind_eq_error hhead (bind_eq_error hdata (bind_eq_error hnode' ?_))
    exact if_pos htry
  · refine bind_eq_ok.mpr ⟨_, hhead, bind_eq_ok.mpr ⟨data, hdata,
      bind_eq_ok.mpr ⟨executionNode, hnode', ?_⟩⟩⟩
    refine (if_neg htry).trans ((if_neg (mt hfilter.mp (not_not.mpr hkept))).trans ?_)
    rw [hpaired.ensureInputData hnode, hstack]
    rfl
  · refine bind_eq_ok.mpr ⟨_, hhead, bind_eq_ok.mpr ⟨data, hdata,
      bind_eq_ok.mpr ⟨executionNode, hnode', ?_⟩⟩⟩
    refine (if_neg htry).trans ((if_pos (hfilter.mpr hkept)).trans ?_)
    rw [hstack]
    rfl

/-- One iteration takes one turn. -/
theorem iteration_rotates (h : AllLackData config.workflow st)
    (hne : st.nodeExecutionStack ≠ []) {input : IterationInput J} (hinput : input.canceled = false) :
    match rotate (rotationOf config st) with
    | none => iteration config input st = .error endlessLoop
    | some rotation => ∃ st' exit, iteration config input st = .ok (st', exit) ∧
        exit.breaks = false ∧ AllLackData config.workflow st' ∧ rotationOf config st' = rotation := by
  obtain ⟨executionData, rest, hstack⟩ := List.exists_cons_of_ne_nil hne
  have hrest : ∀ entry ∈ rest, LacksRequiredData config.workflow entry :=
    fun entry hmem => h entry (by simp [hstack, hmem])
  obtain ⟨data, hpaired, hiteration⟩ :=
    iteration_of_lacksRequiredData hstack (h executionData (by simp [hstack])) hinput
  rw [rotationOf, hstack, List.map_cons, rotate, hiteration]
  split_ifs with htry hkept
  · rfl
  · refine ⟨_, _, rfl, rfl, fun entry hmem => ?_, ?_⟩
    · rcases List.mem_append.mp hmem with hmem | hmem
      · exact hrest entry hmem
      · rwa [List.mem_singleton.mp hmem]
    · rw [rotationOf, List.map_append]
      rfl
  · exact ⟨_, _, rfl, rfl, hrest, rfl⟩

/-- The loop is a rotation that remembers its last turn. -/
theorem executionLoop_endless_iff_rotateFor {inputs : List (IterationInput J)}
    (hinputs : ∀ input ∈ inputs, input.canceled = false) (h : AllLackData config.workflow st)
    (exit : Option Exit) :
    executionLoop config inputs st exit = .error endlessLoop ↔
      rotateFor inputs.length (rotationOf config st) = none := by
  induction inputs generalizing st exit with
  | nil =>
    rw [executionLoop]
    split_ifs <;> simp [rotateFor]
  | cons input inputs ih =>
    rw [executionLoop, List.length_cons]
    by_cases hempty : st.nodeExecutionStack = []
    · rw [if_pos (by rw [hempty]; rfl)]
      have hrotation : rotationOf config st = (st.lastExecutionTry, []) := by
        rw [rotationOf, hempty, List.map_nil]
      exact iff_of_false (by simp) (hrotation ▸ rotateFor_nil_ne_none _ _)
    · rw [if_neg (by simpa using hempty), rotateFor]
      have hstep := iteration_rotates h hempty (hinputs input List.mem_cons_self)
      cases hrotate : rotate (rotationOf config st) with
      | none =>
        rw [hrotate] at hstep
        exact iff_of_true (by rw [hstep]; rfl) rfl
      | some rotation =>
        rw [hrotate] at hstep
        obtain ⟨st', exit', hiteration, hbreaks, hst', hrotation⟩ := hstep
        have hgoes : ¬exit'.breaks = true := by
          rw [hbreaks]
          exact Bool.false_ne_true
        rw [hiteration]
        change (if exit'.breaks then _ else executionLoop config inputs st' (some exit')) = _ ↔ _
        rw [if_neg hgoes, ih (fun input hmem => hinputs input (List.mem_cons_of_mem _ hmem)) hst',
          hrotation]
        rfl

/-- The guard stops a stack of entries that lack data, after finitely many iterations of a run that
is not canceled, if and only if an entry follows one with the same try : on the first way through
the stack or, without the entries that are not in the filter, on the second. -/
theorem executionLoop_endless_iff (h : AllLackData config.workflow st)
    {inputs : ℕ → IterationInput J} (hinputs : ∀ k, (inputs k).canceled = false) :
    (∃ n, executionLoop config ((List.range n).map inputs) st none = .error endlessLoop) ↔
      Repeats st.lastExecutionTry
        (st.nodeExecutionStack.map (turnOf config st.runData) ++
          (st.nodeExecutionStack.map (turnOf config st.runData)).filter (·.2)) := by
  rw [← exists_rotateFor_eq_none_iff]
  refine exists_congr fun n => ?_
  rw [executionLoop_endless_iff_rotateFor (by simp [hinputs]) h, List.length_map, List.length_range]
  rfl

end Loop

/-! ## One stuck node, and two -/

/-- `Trigger` leads to `A` and to `B`. -/
def twoBranches : Workflow where
  nodes := setNodes [.named "Trigger", .named "A", .named "B"]
  connectionsByDestinationNode :=
    ((∅ : IConnections).set "A" ((∅ : INodeConnections).set .main
      [some [⟨"Trigger", .main, 0⟩]])).set "B" ((∅ : INodeConnections).set .main
        [some [⟨"Trigger", .main, 0⟩]])
  name_of_get? := name_of_setNodes

/-- An item of the node without data for its input. -/
def stuckItem (nodeName : String) : IExecuteData ℕ :=
  { node := some (.named nodeName), data := mainConnections [.null] }

theorem lacksRequiredData_stuckItem {nodeName : String} (h : nodeName = "A" ∨ nodeName = "B") :
    LacksRequiredData twoBranches (stuckItem nodeName) where
  defined := by
    rw [IsDefined, show inputKinds (stuckItem nodeName).data = [(.main, [.null])] from rfl]
    decide
  lacks := by
    rcases h with rfl | rfl
    · exact ⟨.named "A", rfl, by decide⟩
    · exact ⟨.named "B", rfl, by decide⟩

def branchesConfig : LoopConfig ℕ := { workflow := twoBranches }

theorem allLackData_of_forall {names : List String} (h : ∀ name ∈ names, name = "A" ∨ name = "B") :
    AllLackData branchesConfig.workflow { nodeExecutionStack := names.map stuckItem } := by
  intro entry hmem
  obtain ⟨name, hname, rfl⟩ := List.mem_map.mp hmem
  exact lacksRequiredData_stuckItem (h name hname)

theorem executionLoop_endless_iff_single :
    ∃ n, executionLoop branchesConfig ((List.range n).map fun _ => oneItem)
      { nodeExecutionStack := ["A"].map stuckItem } none = .error endlessLoop :=
  (executionLoop_endless_iff (allLackData_of_forall (by decide)) fun _ => rfl).mpr
    (by decide)

/-- `A` and `B` take turns for ever. -/
theorem executionLoop_not_endless :
    AllLackData branchesConfig.workflow { nodeExecutionStack := ["A", "B"].map stuckItem } ∧
      ¬∃ n, executionLoop branchesConfig ((List.range n).map fun _ => oneItem)
        { nodeExecutionStack := ["A", "B"].map stuckItem } none = .error endlessLoop := by
  have hlacks : AllLackData branchesConfig.workflow
      { nodeExecutionStack := ["A", "B"].map stuckItem } := allLackData_of_forall (by decide)
  refine ⟨hlacks, fun ⟨n, hn⟩ => ?_⟩
  have hcaught := (executionLoop_endless_iff_rotateFor (by simp [oneItem]) hlacks none).mp hn
  exact absurd (exists_rotateFor_eq_none_iff.mp ⟨_, hcaught⟩) (by decide)

end N8n
