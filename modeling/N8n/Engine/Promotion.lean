import N8n.Engine.Waiting
import N8n.Lib.Run

/-!
# Promotion of waiting nodes

When the stack is empty, the engine looks for a waiting node that may run without data on
all its inputs. The first one found is put on the stack; entries that turn out to have no
items at all are dropped on the way.

Every entry that is handled leaves the waiting state, so the search ends
(`promoteWaiting_ends`). A search that puts nothing on the stack leaves nothing it would put
there (`promoteWaiting_eq_self`).
-/

open Lib

namespace N8n

variable {J : Type}

/-- `requiredInputs` of the node type, in execution order v1 only, resolved. -/
def Workflow.requiredInputs (workflow : Workflow) (checkNode : INode)
    (description : INodeTypeDescription) : Option RequiredInputs :=
  if workflow.executionOrder = some .v1 then
    match description.requiredInputs with
    | some (.expression value) => workflow.getSimpleParameterValue checkNode value
    | requiredInputs => requiredInputs
  else none

/-- All inputs are required. -/
def RequiredInputs.areAll (inputs : ℕ) : RequiredInputs → Bool
  | expression _ => false
  | indexes requiredInputs => requiredInputs.length = inputs
  | count requiredInputs => requiredInputs = inputs

/-- Data is missing on a required input, or on too many inputs. -/
def RequiredInputs.areMissing (inputsWithData : List ℕ) : RequiredInputs → Bool
  | expression _ => false
  | indexes requiredInputs => requiredInputs.any (· ∉ inputsWithData)
  | count requiredInputs => inputsWithData.length < requiredInputs

/-- The inputs which received any kind of data; holes are skipped. -/
def inputsWithData (main : List (Slot (Items J))) : List ℕ :=
  main.zipIdx.filterMap fun (slot, index) =>
    match slot with
    | .hole => none
    | .null => none
    | _ => some index

/-- What the search does with a waiting node. It passes over it (`none`), or takes its
first entry out of waiting. The second component says whether the node was put on the
stack. -/
def promoteNodeIfReady (workflow : Workflow) (waitingNodes : List String) (nodeName : String)
    (st : ExecutionState J) : Except EngineError (Option (ExecutionState J × Bool)) :=
  match workflow.getNode nodeName with
  | none => .ok none
  | some checkNode => do
    let description ← orTypeError (workflow.nodeType checkNode)
    let requiredInputs := workflow.requiredInputs checkNode description
    if requiredInputs.any (·.areAll description.inputs) then return none
    if (workflow.getParentNodes nodeName).any (· ∈ waitingNodes) then return none
    let entries ← orTypeError (st.waitingExecution.get? nodeName)
    let index ← orTypeError (firstRunIndex entries)
    let main ← entryMain entries index
    if requiredInputs.any (·.areMissing (inputsWithData main)) then return none
    return some (← promoteEntry workflow description.inputs nodeName index st)

/-- What becomes of the first node in the list that is not passed over. -/
def promoteFirst (workflow : Workflow) (waitingNodes : List String) (st : ExecutionState J) :
    List String → Except EngineError (Option (ExecutionState J × Bool))
  | [] => .ok none
  | nodeName :: rest => do
    match ← promoteNodeIfReady workflow waitingNodes nodeName st with
    | some promoted => return some promoted
    | none => promoteFirst workflow waitingNodes st rest

/-- Search the waiting nodes; start over after an entry without items has been dropped. -/
def promoteFuel (workflow : Workflow) :
    ℕ → ExecutionState J → Except EngineError (ExecutionState J)
  | 0, _ => .error .outOfFuel
  | fuel + 1, st => do
    let waitingNodes := objectKeys st.waitingExecution
    match ← promoteFirst workflow waitingNodes st waitingNodes with
    | none => return st
    | some (st, true) => return st
    | some (st, false) => promoteFuel workflow fuel st

/-- How many entries are waiting. -/
def ExecutionState.entryCount (st : ExecutionState J) : ℕ :=
  (st.waitingExecution.entries.map fun e => e.2.size).sum

/-- Put the first waiting node that may run on the stack. -/
def promoteWaiting (workflow : Workflow) (st : ExecutionState J) :
    Except EngineError (ExecutionState J) :=
  promoteFuel workflow (st.entryCount + 1) st

/-! ## What the search does -/

variable {workflow : Workflow} {nodeName : String} {st st' : ExecutionState J}

/-- An entry that is deleted no longer counts. -/
theorem entryCount_deleteWaiting {index : ℕ} {entries : WaitingEntries (ITaskDataConnections J)}
    {entry : ITaskDataConnections J} (hentries : st.waitingExecution.get? nodeName = some entries)
    (hentry : entries.get? index = some entry) :
    (deleteWaiting nodeName index st).entryCount + 1 = st.entryCount := by
  have hsize := OrderedMap.size_delete_of_get? hentry
  have hcount := ((OrderedMap.perm_delete hentries).map fun e => e.2.size).sum_eq
  simp only [List.map_cons, List.sum_cons] at hcount
  simp only [ExecutionState.entryCount, deleteWaiting, hentries, Option.getD_some]
  split_ifs with hempty
  · dsimp only
    omega
  · have hset := ((OrderedMap.perm_set st.waitingExecution nodeName (entries.delete index)).map
      fun e => e.2.size).sum_eq
    simp only [List.map_cons, List.sum_cons] at hset
    dsimp only
    omega

theorem promoteEntry_spec {inputs index : ℕ} {pushed : Bool}
    (h : promoteEntry workflow inputs nodeName index st = .ok (st', pushed)) :
    st'.entryCount + 1 = st.entryCount ∧ (pushed = true → st'.nodeExecutionStack ≠ []) := by
  obtain ⟨entries, hentries, h⟩ := bind_eq_ok.mp h
  obtain ⟨main, hmain, h⟩ := bind_eq_ok.mp h
  obtain ⟨hasData, -, h⟩ := bind_eq_ok.mp h
  obtain ⟨sources, -, h⟩ := bind_eq_ok.mp h
  cases h
  have hentries := orTypeError_eq_ok.mp hentries
  obtain ⟨entry, hentry, -⟩ := Option.bind_eq_some_iff.mp (orTypeError_eq_ok.mp hmain)
  refine ⟨entryCount_deleteWaiting (by exact hentries) hentry, fun hpushed => ?_⟩
  rw [nodeExecutionStack_deleteWaiting, if_pos hpushed]
  simp

/-- A node that is not passed over loses its first entry. -/
theorem promoteNodeIfReady_eq_some {waitingNodes : List String} {pushed : Bool}
    (h : promoteNodeIfReady workflow waitingNodes nodeName st = .ok (some (st', pushed))) :
    ∃ inputs entries index, st.waitingExecution.get? nodeName = some entries ∧
      firstRunIndex entries = some index ∧
      promoteEntry workflow inputs nodeName index st = .ok (st', pushed) := by
  unfold promoteNodeIfReady at h
  cases hnode : workflow.getNode nodeName with
  | none =>
    rw [hnode] at h
    cases h
  | some checkNode =>
    simp only [hnode] at h
    obtain ⟨description, -, h⟩ := bind_eq_ok.mp h
    split_ifs at h
    · cases h
    · cases h
    obtain ⟨entries, hentries, h⟩ := bind_eq_ok.mp h
    obtain ⟨index, hindex, h⟩ := bind_eq_ok.mp h
    obtain ⟨main, -, h⟩ := bind_eq_ok.mp h
    split_ifs at h
    · cases h
    obtain ⟨promoted, hpromoted, h⟩ := bind_eq_ok.mp h
    cases h
    exact ⟨_, entries, index, orTypeError_eq_ok.mp hentries, orTypeError_eq_ok.mp hindex, hpromoted⟩

theorem promoteFirst_eq_some {waitingNodes : List String} {pushed : Bool} {rest : List String}
    (h : promoteFirst workflow waitingNodes st rest = .ok (some (st', pushed))) :
    ∃ inputs nodeName index, promoteEntry workflow inputs nodeName index st = .ok (st', pushed) := by
  induction rest with
  | nil => cases h
  | cons nodeName rest ih =>
    obtain ⟨promoted, hpromoted, h⟩ := bind_eq_ok.mp h
    cases promoted with
    | some promoted =>
      cases h
      obtain ⟨inputs, _, index, -, -, hentry⟩ := promoteNodeIfReady_eq_some hpromoted
      exact ⟨inputs, nodeName, index, hentry⟩
    | none => exact ih h

theorem promoteFirst_spec {waitingNodes : List String} {pushed : Bool} {rest : List String}
    (h : promoteFirst workflow waitingNodes st rest = .ok (some (st', pushed))) :
    st'.entryCount + 1 = st.entryCount ∧ (pushed = true → st'.nodeExecutionStack ≠ []) := by
  obtain ⟨inputs, nodeName, index, hentry⟩ := promoteFirst_eq_some h
  exact promoteEntry_spec hentry

/-- A search that leaves the stack empty leaves nothing to promote. -/
theorem promoteWaiting_eq_self (h : promoteWaiting workflow st = .ok st')
    (hempty : st'.nodeExecutionStack = []) : promoteWaiting workflow st' = .ok st' := by
  unfold promoteWaiting at h
  generalize st.entryCount + 1 = fuel at h
  induction fuel generalizing st with
  | zero => cases h
  | succ fuel ih =>
    obtain ⟨promoted, hpromoted, hrest⟩ := bind_eq_ok.mp h
    match promoted, hrest with
    | none, hrest =>
      cases hrest
      rw [promoteWaiting, promoteFuel, hpromoted]
      rfl
    | some (st₁, true), hrest =>
      cases hrest
      exact absurd hempty ((promoteFirst_spec hpromoted).2 rfl)
    | some (st₁, false), hrest => exact ih hrest

/-- Nothing else is thrown than what reading a property of `undefined` throws. -/
def OnlyTypeErrors {α : Type} (x : Except EngineError α) : Prop := ∀ e, x = .error e → e = .typeError

theorem onlyTypeErrors_ok {α : Type} (a : α) : OnlyTypeErrors (.ok a) := nofun

theorem onlyTypeErrors_orTypeError {α : Type} (o : Option α) : OnlyTypeErrors (orTypeError o) := by
  intro e h
  cases o with
  | none => exact (Except.error.inj h).symm
  | some x => cases h

theorem OnlyTypeErrors.bind {α β : Type} {x : Except EngineError α} {f : α → Except EngineError β}
    (hx : OnlyTypeErrors x) (hf : ∀ a, x = .ok a → OnlyTypeErrors (f a)) :
    OnlyTypeErrors (x >>= f) := by
  cases x with
  | ok a => exact hf a rfl
  | error e =>
    intro e' h
    obtain rfl := Except.error.inj h
    exact hx e rfl

theorem onlyTypeErrors_hasItems : ∀ main : List (Slot (Items J)), OnlyTypeErrors (hasItems main)
  | [] => onlyTypeErrors_ok _
  | .hole :: rest => onlyTypeErrors_hasItems rest
  | .val _ :: rest => (onlyTypeErrors_hasItems rest).bind fun _ _ => onlyTypeErrors_ok _
  | .null :: _ | .undefined :: _ => fun _ h => (Except.error.inj h).symm

theorem onlyTypeErrors_promoteNodeIfReady (waitingNodes : List String) :
    OnlyTypeErrors (promoteNodeIfReady workflow waitingNodes nodeName st) := by
  have hread := fun {α : Type} => onlyTypeErrors_orTypeError (α := α)
  unfold promoteNodeIfReady
  split
  · exact onlyTypeErrors_ok _
  refine (hread _).bind fun description _ => ?_
  dsimp only
  split_ifs
  · exact onlyTypeErrors_ok _
  · exact onlyTypeErrors_ok _
  refine (hread _).bind fun entries _ => (hread _).bind fun index _ => (hread _).bind fun main _ => ?_
  split_ifs
  · exact onlyTypeErrors_ok _
  refine OnlyTypeErrors.bind ?_ fun _ _ => onlyTypeErrors_ok _
  refine (hread _).bind fun _ _ => (hread _).bind fun _ _ => ?_
  exact (onlyTypeErrors_hasItems _).bind fun _ _ => (hread _).bind fun _ _ => onlyTypeErrors_ok _

theorem onlyTypeErrors_promoteFirst (waitingNodes rest : List String) :
    OnlyTypeErrors (promoteFirst workflow waitingNodes st rest) := by
  induction rest with
  | nil => exact onlyTypeErrors_ok _
  | cons nodeName rest ih =>
    refine (onlyTypeErrors_promoteNodeIfReady _).bind fun promoted _ => ?_
    cases promoted with
    | some promoted => exact onlyTypeErrors_ok _
    | none => exact ih

theorem onlyTypeErrors_promoteFuel {fuel : ℕ} (hfuel : st.entryCount < fuel) :
    OnlyTypeErrors (promoteFuel workflow fuel st) := by
  induction fuel generalizing st with
  | zero => exact absurd hfuel (Nat.not_lt_zero _)
  | succ fuel ih =>
    refine (onlyTypeErrors_promoteFirst _ _).bind fun promoted hpromoted => ?_
    match promoted, hpromoted with
    | none, _ => exact onlyTypeErrors_ok _
    | some (st₁, true), _ => exact onlyTypeErrors_ok _
    | some (st₁, false), hpromoted =>
      have hcount := (promoteFirst_spec hpromoted).1
      exact ih (by omega)

/-- The search ends, with a node on the stack or nothing left to promote. -/
theorem promoteWaiting_ends (workflow : Workflow) (st : ExecutionState J) :
    promoteWaiting workflow st = .error .typeError ∨
      ∃ st', promoteWaiting workflow st = .ok st' ∧
        (st'.nodeExecutionStack = [] → promoteWaiting workflow st' = .ok st') := by
  cases h : promoteWaiting workflow st with
  | error e => exact .inl (congrArg _ (onlyTypeErrors_promoteFuel (Nat.lt_succ_self _) e h))
  | ok st' => exact .inr ⟨st', rfl, promoteWaiting_eq_self h⟩

end N8n
