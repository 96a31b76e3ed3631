import N8n.Engine.ExecutionLoop

/-!
# The order of the stack

Whatever an iteration does, it puts new items in front of the items that are on the stack
or behind them, and only takes the first one away (`iteration_grows`). So the items on the
stack are executed in the order in which they lie there, in both execution orders
(`takenInOrder_of_isInfix`), none of them is lost (`executionLoop_takesInOrder`), and a run
that is stored stays.
-/

open Lib

namespace N8n

variable {J : Type}

/-! ## What is added -/

/-- How many runs of the node are stored. -/
def runCount (runData : IRunData J) (nodeName : String) : ℕ :=
  ((runData.get? nodeName).getD []).length

/-- Items are only added around those on the stack, and runs are only added. -/
structure ExecutionState.Grows (st st' : ExecutionState J) : Prop where
  stack : st.nodeExecutionStack <:+: st'.nodeExecutionStack
  runs : ∀ nodeName, runCount st.runData nodeName ≤ runCount st'.runData nodeName

namespace ExecutionState.Grows

variable {st st' st'' : ExecutionState J}

theorem refl (st : ExecutionState J) : st.Grows st :=
  ⟨List.infix_rfl, fun _ => le_rfl⟩

theorem trans (h : st.Grows st') (h' : st'.Grows st'') : st.Grows st'' :=
  ⟨h.stack.trans h'.stack, fun n => (h.runs n).trans (h'.runs n)⟩

/-- The waiting nodes do not matter. -/
theorem of_eq (hstack : st'.nodeExecutionStack = st.nodeExecutionStack)
    (hruns : st'.runData = st.runData) : st.Grows st' :=
  ⟨hstack ▸ List.infix_rfl, fun _ => hruns ▸ le_rfl⟩

theorem of_isInfix {stack : List (IExecuteData J)} (h : st.nodeExecutionStack <:+: stack) :
    st.Grows { st with nodeExecutionStack := stack } :=
  ⟨h, fun _ => le_rfl⟩

end ExecutionState.Grows

theorem infix_enqueue (workflow : Workflow) (stack : List (IExecuteData J)) (item : IExecuteData J) :
    stack <:+: enqueue workflow stack item := by
  unfold enqueue
  split_ifs
  · exact (List.suffix_cons item stack).isInfix
  · exact (List.prefix_append stack [item]).isInfix

theorem infix_foldl_enqueue (workflow : Workflow) (stack added : List (IExecuteData J)) :
    stack <:+: added.foldl (enqueue workflow) stack := by
  induction added generalizing stack with
  | nil => exact List.infix_rfl
  | cons item added ih => exact (infix_enqueue workflow stack item).trans (ih _)

section Delivery

variable {workflow : Workflow} {call : Delivery J} {st st' : ExecutionState J}

theorem createRecord_grows (nodeName : String) (st : ExecutionState J) :
    st.Grows (createRecord nodeName st) := by
  unfold createRecord
  split_ifs <;> exact .of_eq rfl rfl

theorem selectEntry_grows {index : ℕ} (h : selectEntry workflow call st = .ok (st', index)) :
    st.Grows st' := by
  obtain ⟨found, -, h⟩ := bind_eq_ok.mp h
  cases found <;> cases h <;> exact .of_eq rfl rfl

theorem storeDelivery_grows {index : ℕ} (h : storeDelivery workflow call st = .ok (st', index)) :
    st.Grows st' := by
  obtain ⟨⟨st₁, k⟩, hselect, h⟩ := bind_eq_ok.mp h
  obtain ⟨waiting, -, h⟩ := bind_eq_ok.mp h
  obtain ⟨sources, -, h⟩ := bind_eq_ok.mp h
  cases h
  exact ((createRecord_grows _ st).trans (selectEntry_grows hselect)).trans (.of_eq rfl rfl)

theorem keepWaiting_grows {index : ℕ} (h : keepWaiting workflow call index st = .ok st') :
    st.Grows st' := by
  obtain ⟨entries, -, h⟩ := bind_eq_ok.mp h
  obtain ⟨main, -, h⟩ := bind_eq_ok.mp h
  obtain ⟨sources, -, h⟩ := bind_eq_ok.mp h
  obtain ⟨source, -, h⟩ := bind_eq_ok.mp h
  cases h
  exact .of_eq rfl rfl

theorem deleteWaiting_grows (nodeName : String) (index : ℕ) (st : ExecutionState J) :
    st.Grows (deleteWaiting nodeName index st) := by
  unfold deleteWaiting
  dsimp only
  split_ifs <;> exact .of_eq rfl rfl

variable [DataObject J]

theorem addToWaiting_grows {added : List (IExecuteData J)}
    (h : addToWaiting workflow call st = .ok (st', added)) : st.Grows st' := by
  obtain ⟨⟨st₁, index⟩, hstore, h⟩ := bind_eq_ok.mp h
  obtain ⟨entries, -, h⟩ := bind_eq_ok.mp h
  obtain ⟨main, -, h⟩ := bind_eq_ok.mp h
  refine (storeDelivery_grows hstore).trans ?_
  by_cases hall : main.all (fun slot => !slot.isNull) = true
  · rw [if_pos hall] at h
    cases h
    exact (ExecutionState.Grows.of_isInfix (infix_enqueue _ _ _)).trans (deleteWaiting_grows _ _ _)
  · rw [if_neg hall] at h
    obtain ⟨added', -, h⟩ := bind_eq_ok.mp h
    obtain ⟨st₂, hkeep, h⟩ := bind_eq_ok.mp h
    cases h
    exact (ExecutionState.Grows.of_isInfix (infix_foldl_enqueue _ _ _)).trans (keepWaiting_grows hkeep)

omit [DataObject J] in
theorem addToStack_grows (workflow : Workflow) (call : Delivery J) (st : ExecutionState J) :
    st.Grows (addToStack workflow call st) := by
  unfold addToStack
  dsimp only
  split
  · exact .refl st
  · exact .of_isInfix (infix_enqueue _ _ _)

theorem addNodeToBeExecuted_grows (h : addNodeToBeExecuted workflow call st = .ok st') :
    st.Grows st' := by
  obtain ⟨⟨st₁, added⟩, hdeliver, h⟩ := bind_eq_ok.mp h
  cases h
  unfold deliver at hdeliver
  split_ifs at hdeliver
  · exact addToWaiting_grows hdeliver
  · cases hdeliver
    exact addToStack_grows workflow call st

theorem enqueueChildren_grows {nodeName : String} {nodeSuccessData : List (Slot (Items J))}
    {runIndex : ℕ}
    (h : enqueueChildren workflow nodeName nodeSuccessData runIndex st = .ok st') :
    st.Grows st' := by
  unfold enqueueChildren at h
  dsimp only at h
  split_ifs at h
  · obtain ⟨_, -, h⟩ := bind_eq_ok.mp h
    exact foldlM_invariant (I := st.Grows)
      (fun s c _ s' hs h => hs.trans (addNodeToBeExecuted_grows h)) (.refl st) h
  · refine foldlM_invariant (I := st.Grows) (fun s c _ s' hs h => ?_) (.refl st) h
    obtain ⟨_, -, h⟩ := bind_eq_ok.mp h
    split_ifs at h
    · exact hs.trans (addNodeToBeExecuted_grows h)
    · cases h
      exact hs

end Delivery

section Promotion

variable {workflow : Workflow} {nodeName : String} {st st' : ExecutionState J}

theorem promoteEntry_grows {inputs index : ℕ} {pushed : Bool}
    (h : promoteEntry workflow inputs nodeName index st = .ok (st', pushed)) : st.Grows st' := by
  obtain ⟨entries, -, h⟩ := bind_eq_ok.mp h
  obtain ⟨main, -, h⟩ := bind_eq_ok.mp h
  obtain ⟨hasData, -, h⟩ := bind_eq_ok.mp h
  obtain ⟨sources, -, h⟩ := bind_eq_ok.mp h
  cases h
  refine (ExecutionState.Grows.of_isInfix ?_).trans (deleteWaiting_grows _ _ _)
  split_ifs
  · exact (List.prefix_append _ _).isInfix
  · exact List.infix_rfl

theorem promoteFirst_grows {waitingNodes : List String} {pushed : Bool} {rest : List String}
    (h : promoteFirst workflow waitingNodes st rest = .ok (some (st', pushed))) :
    st.Grows st' := by
  obtain ⟨inputs, nodeName, index, hentry⟩ := promoteFirst_eq_some h
  exact promoteEntry_grows hentry

theorem promoteFuel_grows {fuel : ℕ} (h : promoteFuel workflow fuel st = .ok st') :
    st.Grows st' := by
  induction fuel generalizing st with
  | zero => cases h
  | succ fuel ih =>
    obtain ⟨promoted, hpromoted, hrest⟩ := bind_eq_ok.mp h
    match promoted, hrest with
    | none, hrest =>
      cases hrest
      exact .refl _
    | some (st₁, true), hrest =>
      cases hrest
      exact promoteFirst_grows hpromoted
    | some (st₁, false), hrest => exact (promoteFirst_grows hpromoted).trans (ih hrest)

theorem promoteIfIdle_grows (h : promoteIfIdle workflow st = .ok st') : st.Grows st' := by
  unfold promoteIfIdle at h
  split_ifs at h
  · exact promoteFuel_grows h
  · cases h
    exact .refl _

end Promotion

/-! ## Requests -/

theorem runCount_set (runData : IRunData J) (nodeName name : String) (runs : List (ITaskData J)) :
    runCount (runData.set nodeName runs) name =
      if nodeName = name then runs.length else runCount runData name := by
  unfold runCount
  rw [OrderedMap.get?_set]
  split_ifs <;> rfl

/-- Every step of a request adds a run, and those that are there stay. -/
theorem runCount_initializeNodeRunData (runData : IRunData J) (nodeName parentNode : String)
    (parentOutputIndex parentRunIndex : ℕ) (parentNodeName : Option String) (runIndex : ℕ)
    (displayOutputData : List (Slot (Items J))) (name : String) :
    runCount (initializeNodeRunData runData nodeName parentNode parentOutputIndex parentRunIndex
        parentNodeName runIndex displayOutputData).1 name =
      runCount runData name + if nodeName = name then 1 else 0 := by
  rw [initializeNodeRunData, runCount_set]
  by_cases h : nodeName = name
  · subst h
    rw [if_pos rfl, if_pos rfl, List.length_append]
    rfl
  · rw [if_neg h, if_neg h, Nat.add_zero]

section Request

variable [DataObject J] {workflow : Workflow} {currentNode : INode} {runIndex : ℕ}
  {executionData : IExecuteData J}

theorem prepareRequestedNodes_grows (workflow : Workflow) (currentNode : INode) (runIndex : ℕ)
    (executionData : IExecuteData J) (actions : List (EngineAction J)) (st : RequestState J)
    (name : String) :
    runCount st.runData name ≤ runCount (prepareRequestedNodesForExecution currentNode runIndex
      executionData workflow actions st).1.runData name := by
  induction actions generalizing st with
  | nil => exact le_rfl
  | cons action actions ih =>
    unfold prepareRequestedNodesForExecution
    split
    · exact le_rfl
    · refine le_trans ?_ (ih _)
      exact (runCount_initializeNodeRunData ..).symm ▸ Nat.le_add_right _ _

theorem addRequestedNodes_grows (nodes : List (NodeToBeExecuted J)) (st : LoopState J) :
    st.toExecutionState.Grows (addRequestedNodes workflow nodes st).1.toExecutionState := by
  induction nodes generalizing st with
  | nil => exact .refl _
  | cons nodeData nodes ih =>
    unfold addRequestedNodes
    split
    next st' hadd =>
      obtain ⟨call, -, hadd⟩ := bind_eq_ok.mp hadd
      exact (addNodeToBeExecuted_grows (LoopState.modify_eq_ok hadd)).trans (ih st')
    next => exact .refl _

theorem handleEngineRequest_grows (request : EngineRequest J) (st : LoopState J) :
    st.toExecutionState.Grows (handleEngineRequest workflow currentNode request runIndex
      executionData st).1.toExecutionState := by
  have hruns : ∀ name, runCount st.runData name ≤ runCount (handleRequest currentNode runIndex
      executionData workflow request
        { runData := st.runData, rewireOutputLogTo := st.rewireOutputLogTo }).1.runData name :=
    prepareRequestedNodes_grows workflow currentNode runIndex executionData request.actions
      { runData := st.runData, rewireOutputLogTo := st.rewireOutputLogTo }
  unfold handleEngineRequest
  rcases hhandle : handleRequest currentNode runIndex executionData workflow request
    { runData := st.runData, rewireOutputLogTo := st.rewireOutputLogTo } with ⟨changed, nodes⟩
  rw [hhandle] at hruns
  have hchanged : st.toExecutionState.Grows { st.toExecutionState with runData := changed.runData } :=
    ⟨List.infix_rfl, hruns⟩
  cases nodes with
  | ok nodes =>
    exact hchanged.trans (addRequestedNodes_grows nodes { st with
      runData := changed.runData
      rewireOutputLogTo := changed.rewireOutputLogTo })
  | error e => exact hchanged

/-! ## Tries -/

/-- A property that outlives a try : it does not depend on what a try notes in the state, and
holds after a request of the node. -/
structure KeptByTries (config : LoopConfig J) (executionNode : INode)
    (executionData : IExecuteData J) (runIndex : ℕ) (results : ℕ → RunResult J)
    (I : LoopState J → Prop) : Prop where
  notes : ∀ st waitTill lastNodeExecuted, I st → I { st with waitTill, lastNodeExecuted }
  request : ∀ st k request, I st → results k = .request request →
    I (handleEngineRequest config.workflow executionNode request runIndex executionData st).1

variable {config : LoopConfig J} {executionNode : INode} {results : ℕ → RunResult J}
  {I : LoopState J → Prop}

theorem KeptByTries.callRunNode (h : KeptByTries config executionNode executionData runIndex results I)
    {attempt : Attempt J} (hI : I attempt.st) : I (callRunNode results attempt).2.st :=
  h.notes _ _ _ hI

theorem KeptByTries.retryFailed (h : KeptByTries config executionNode executionData runIndex results I)
    (left : ℕ) {result : RunResult J} (hresult : ∃ k, results k = result) {attempt : Attempt J}
    (hI : I attempt.st) :
    (∃ k, results k = (retryFailed results left result attempt).2.1) ∧
      I (retryFailed results left result attempt).2.2.st := by
  induction left generalizing result attempt with
  | zero => exact ⟨hresult, hI⟩
  | succ left ih =>
    unfold N8n.retryFailed
    split_ifs with hfailed
    · exact ⟨hresult, hI⟩
    · have hcalled : ∃ k, results k = (N8n.callRunNode results attempt).1 := ⟨attempt.calls, rfl⟩
      have hI' := h.callRunNode hI
      rcases hcall : N8n.callRunNode results attempt with ⟨result', attempt'⟩
      rw [hcall] at hcalled hI'
      cases result' with
      | thrown message => exact ⟨hcalled, hI'⟩
      | request request => exact ih hcalled hI'
      | output data waitTill => exact ih hcalled hI'

theorem KeptByTries.settleOutput (h : KeptByTries config executionNode executionData runIndex results I)
    {attempt : Attempt J} (hI : I attempt.st) :
    I (settleOutput executionData executionNode attempt).1.st := by
  unfold N8n.settleOutput
  split
  · exact hI
  · dsimp only
    split <;> split_ifs <;> exact h.notes _ _ _ hI

theorem KeptByTries.tryNode (h : KeptByTries config executionNode executionData runIndex results I)
    (left : ℕ) (attempt : Attempt J) (hI : I attempt.st) :
    I (tryNode config executionNode executionData runIndex results left attempt).2.1.st := by
  cases hpin : config.nodePinData? executionNode with
  | some nodePinData =>
    simp only [N8n.tryNode, hpin]
    exact h.settleOutput hI
  | none =>
    have hcalled : ∃ k, results k = (N8n.callRunNode results attempt).1 := ⟨attempt.calls, rfl⟩
    have hI₁ := h.callRunNode hI
    rcases hcall : N8n.callRunNode results attempt with ⟨result, attempt₁⟩
    rw [hcall] at hcalled hI₁
    obtain ⟨hretried, hI₂⟩ := h.retryFailed left hcalled hI₁
    rcases hretry : N8n.retryFailed results left result attempt₁ with ⟨left', result', attempt₂⟩
    rw [hretry] at hretried hI₂
    simp only [N8n.tryNode, hpin, hcall, hretry]
    cases result' with
    | thrown message => exact hI₂
    | request request =>
      obtain ⟨k, hk⟩ := hretried
      exact h.request _ k request hI₂ hk
    | output data waitTill => exact h.settleOutput hI₂

theorem KeptByTries.runTries (h : KeptByTries config executionNode executionData runIndex results I)
    {rounds tries : ℕ} {attempt : Attempt J} (hI : I attempt.st) :
    I (runTries config executionNode executionData runIndex results rounds tries attempt).1.st := by
  induction rounds generalizing tries attempt with
  | zero => exact hI
  | succ rounds ih =>
    cases tries with
    | zero => exact hI
    | succ tries =>
      rw [N8n.runTries]
      have htry := h.tryNode tries { attempt with executionError := none } hI
      rcases hresult : N8n.tryNode config executionNode executionData runIndex results tries
        { attempt with executionError := none } with ⟨left, attempt', outcome⟩
      rw [hresult] at htry
      cases outcome with
      | leave exit => exact htry
      | done => exact htry
      | thrown message => exact ih (h.notes _ _ _ htry)

theorem KeptByTries.runNodeWithRetries
    (h : KeptByTries config executionNode executionData runIndex results I) {st : LoopState J}
    (hI : I st) :
    I (runNodeWithRetries config executionNode executionData runIndex results st).1.st :=
  h.runTries hI

end Request

/-! ## Iterations -/

section Iteration

variable [DataObject J] {config : LoopConfig J} {executionNode : INode}
  {executionData : IExecuteData J} {runIndex : ℕ}

omit [DataObject J] in
theorem runCount_storeTaskData (runData : IRunData J) (nodeName name : String) (runIndex : ℕ)
    (taskData : ITaskData J) :
    runCount runData name ≤ runCount (storeTaskData runData nodeName runIndex taskData) name := by
  rw [storeTaskData, runCount_set]
  by_cases hname : nodeName = name
  · subst hname
    rw [if_pos rfl]
    split
    · rw [List.length_set]
      exact le_rfl
    · rw [List.length_append]
      exact Nat.le_add_right _ _
  · rw [if_neg hname]

theorem passOn_grows {nodeSuccessData : List (Slot (Items J))} {st st' : LoopState J} {exit : Exit}
    (h : passOn config executionNode executionData runIndex nodeSuccessData st = .ok (st', exit)) :
    st.toExecutionState.Grows st'.toExecutionState := by
  obtain ⟨merged, -, h⟩ := bind_eq_ok.mp h
  dsimp only at h
  split_ifs at h
  · cases h
    exact ⟨(List.suffix_cons _ _).isInfix, fun _ => runCount_storeTaskData ..⟩
  · cases h
    exact ⟨List.infix_rfl, fun _ => runCount_storeTaskData ..⟩
  · obtain ⟨st₁, henqueue, h⟩ := bind_eq_ok.mp h
    obtain ⟨st₂, hpromote, h⟩ := bind_eq_ok.mp h
    cases h
    have hstored := (enqueueChildren_grows (LoopState.modify_eq_ok henqueue)).trans
      (promoteIfIdle_grows (LoopState.modify_eq_ok hpromote))
    exact ⟨hstored.stack, fun name => (runCount_storeTaskData ..).trans (hstored.runs name)⟩

theorem finishIteration_grows {attempt : Attempt J} {st' : LoopState J} {exit : Exit}
    (h : finishIteration config executionNode executionData runIndex attempt = .ok (st', exit)) :
    attempt.st.toExecutionState.Grows st'.toExecutionState := by
  unfold finishIteration at h
  cases herror : attempt.executionError with
  | none =>
    simp only [herror] at h
    obtain ⟨nodeSuccessData, -, h⟩ := bind_eq_ok.mp h
    have hgrows := passOn_grows h
    exact hgrows
  | some message =>
    simp only [herror] at h
    split_ifs at h
    · obtain ⟨nodeSuccessData, -, h⟩ := bind_eq_ok.mp h
      have hgrows := passOn_grows h
      exact hgrows
    · cases h
      exact ⟨(List.suffix_cons _ _).isInfix, fun _ => runCount_storeTaskData ..⟩

theorem keptByTries_grows (config : LoopConfig J) (executionNode : INode)
    (executionData : IExecuteData J) (runIndex : ℕ) (results : ℕ → RunResult J)
    (st : ExecutionState J) :
    KeptByTries config executionNode executionData runIndex results
      fun st' => st.Grows st'.toExecutionState where
  notes _ _ _ h := ⟨h.stack, h.runs⟩
  request st' _ request h _ := h.trans (handleEngineRequest_grows request st')

/-- An iteration takes the first item from the stack and leaves the others as they are. -/
theorem iteration_grows {input : IterationInput J} {st st' : LoopState J} {exit : Exit}
    (h : iteration config input st = .ok (st', exit)) :
    { st.toExecutionState with nodeExecutionStack := st.nodeExecutionStack.tail }.Grows
      st'.toExecutionState := by
  unfold iteration at h
  split_ifs at h with hcanceled
  · cases h
    exact ⟨(List.tail_suffix _).isInfix, fun _ => le_rfl⟩
  obtain ⟨executionData, -, h⟩ := bind_eq_ok.mp h
  obtain ⟨data, -, h⟩ := bind_eq_ok.mp h
  obtain ⟨executionNode, -, h⟩ := bind_eq_ok.mp h
  dsimp only at h
  split_ifs at h with hloop hfilter hdata
  · cases h
    exact .refl _
  · cases h
    unfold ensureInputData
    split_ifs
    · exact .refl _
    · exact ⟨(List.prefix_append _ _).isInfix, fun _ => le_rfl⟩
  · have hinputs : { st.toExecutionState with nodeExecutionStack := st.nodeExecutionStack.tail }.Grows
        (ensureInputData config.workflow executionNode { executionData with data } { st with
          nodeExecutionStack := st.nodeExecutionStack.tail
          executionError := none }).1.toExecutionState := by
      unfold ensureInputData at hdata ⊢
      split_ifs at hdata ⊢
      · exact .refl _
      · exact absurd rfl hdata
    have hrun := (keptByTries_grows config executionNode { executionData with data }
      (currentRunIndex { executionData with data } executionNode.name st.runData) input.results
      _).runNodeWithRetries hinputs
    split at h
    next exit' hexit =>
      cases h
      exact hrun
    next => exact hrun.trans (finishIteration_grows h)

/-! ## The items on the stack -/

variable (config)

/-- The iterations of the loop, each with the state it starts in. -/
def iterations : List (IterationInput J) → LoopState J → List (LoopState J × IterationInput J)
  | [], _ => []
  | input :: inputs, st =>
    if st.nodeExecutionStack.isEmpty then []
    else (st, input) :: match iteration config input st with
      | .ok (st, exit) => if exit.breaks then [] else iterations inputs st
      | .error _ => []

omit [DataObject J] in
/-- The items are taken from the stack one after another, possibly with others in between :
in each iteration the next of them is taken, or all of them stay on the stack. -/
def TakenInOrder : List (IExecuteData J) → List (LoopState J × IterationInput J) → Prop
  | [], _ => True
  | _ :: _, [] => True
  | item :: items, (st, _) :: rest =>
    (st.nodeExecutionStack.head? = some item ∧ TakenInOrder items rest) ∨
      ((item :: items) <:+: st.nodeExecutionStack.tail ∧ TakenInOrder (item :: items) rest)

variable {config}

omit [DataObject J] in
theorem takenInOrder_nil (trace : List (LoopState J × IterationInput J)) : TakenInOrder [] trace := by
  cases trace <;> trivial

variable {inputs : List (IterationInput J)}

theorem takenInOrder_of_isInfix {items : List (IExecuteData J)} {st : LoopState J}
    (h : items <:+: st.nodeExecutionStack) :
    TakenInOrder items (iterations config inputs st) := by
  induction inputs generalizing items st with
  | nil => cases items <;> trivial
  | cons input inputs ih =>
    have hrest : ∀ items, items <:+: st.nodeExecutionStack.tail → TakenInOrder items
        (match iteration config input st with
          | .ok (st, exit) => if exit.breaks then [] else iterations config inputs st
          | .error _ => []) := by
      intro items hitems
      split
      next st' exit hiteration =>
        split_ifs
        · cases items <;> trivial
        · exact ih (hitems.trans (iteration_grows hiteration).stack)
      next => cases items <;> trivial
    unfold iterations
    cases items with
    | nil => exact takenInOrder_nil _
    | cons item items =>
      split_ifs with hempty
      · trivial
      · cases hstack : st.nodeExecutionStack with
        | nil => simp [hstack] at hempty
        | cons top rest =>
          rw [hstack, List.infix_cons_iff, List.cons_prefix_cons] at h
          obtain ⟨rfl, hprefix⟩ | htail := h
          · refine Or.inl ⟨by rw [hstack]; rfl, hrest items ?_⟩
            rw [hstack]
            exact hprefix.isInfix
          · refine Or.inr ⟨by rw [hstack]; exact htail, hrest _ ?_⟩
            rw [hstack]
            exact htail

/-- The runs that are stored are there in every iteration. -/
theorem runCount_iterations {st : LoopState J} {x : LoopState J × IterationInput J}
    (h : x ∈ iterations config inputs st) (name : String) :
    runCount st.runData name ≤ runCount x.1.runData name := by
  induction inputs generalizing st with
  | nil => cases h
  | cons input inputs ih =>
    unfold iterations at h
    split_ifs at h
    · cases h
    · rcases List.mem_cons.mp h with rfl | h
      · exact le_rfl
      · split at h
        next st' exit hiteration =>
          split_ifs at h
          · cases h
          · exact ((iteration_grows hiteration).runs name).trans (ih h)
        next => cases h

end Iteration

end N8n
