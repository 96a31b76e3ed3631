import N8n.Engine.WaitingLedger

/-!
# The shape of waiting entries

`prepareWaitingToExecution` creates an entry with one slot for each input of the node, all
of them `null`. Deliveries keep the shape (`addToWaiting_prepared`), so a node is put on the
stack only when each of its inputs has data, in every run of deliveries to it
(`Prepared.pushesOnlyComplete`). The test for completeness looks for `null` only : an
entry of another shape may be pushed too early.
-/

open Lib

namespace N8n

variable {J : Type}

/-- One slot for each of the `inputs` inputs, `null` where no data has arrived. -/
def HasShape (inputs : ℕ) (main : List (Slot (Items J))) : Prop :=
  main.length = inputs ∧ ∀ slot ∈ main, slot = .null ∨ ∃ items, slot = .val items

/-- Each of the `inputs` inputs has data. -/
def IsComplete (inputs : ℕ) (data : ITaskDataConnections J) : Prop :=
  ∃ main, data.get? .main = some main ∧ main.length = inputs ∧
    ∀ slot ∈ main, ∃ items, slot = .val items

/-- The Main data of every entry has the property. -/
def EntriesHave (P : List (Slot (Items J)) → Prop)
    (entries : WaitingEntries (ITaskDataConnections J)) : Prop :=
  ∀ index entry, entries.get? index = some entry → ∃ main, entry.get? .main = some main ∧ P main

/-- Every waiting entry of the node has the shape the engine gives it. -/
def Prepared (workflow : Workflow) (nodeName : String) (st : ExecutionState J) : Prop :=
  EntriesHave (HasShape (workflow.numberOfInputs nodeName))
    ((st.waitingExecution.get? nodeName).getD ∅)

/-- A delivery of data to one of the inputs of the node. -/
structure DeliversTo (workflow : Workflow) (nodeName : String) (call : Delivery J) : Prop where
  node : call.connectionData.node = nodeName
  nonneg : 0 ≤ call.connectionData.index
  lt : call.connectionData.index < workflow.numberOfInputs nodeName
  data : ∃ items, call.slot = .val items

/-- The delivery puts the item, made from a waiting entry, on the stack. -/
def Pushes [DataObject J] (workflow : Workflow) (call : Delivery J) (st : ExecutionState J)
    (item : IExecuteData J) : Prop :=
  ∃ st', addToWaiting workflow call st = .ok (st', []) ∧
    st'.nodeExecutionStack = enqueue workflow st.nodeExecutionStack item

/-- However deliveries to the node go on, it is pushed from a waiting entry only when each
of its inputs has data. -/
def PushesOnlyComplete [DataObject J] (workflow : Workflow) (nodeName : String)
    (st : ExecutionState J) : Prop :=
  ∀ steps s, Run (fun s call => addNodeToBeExecuted workflow call s) st steps s →
    (∀ step ∈ steps, DeliversTo workflow nodeName step.2) →
    ∀ call item, DeliversTo workflow nodeName call → Pushes workflow call s item →
      IsComplete (workflow.numberOfInputs nodeName) item.data

/-! ## Entries keep a property of their data -/

section EntriesHave

variable {P : List (Slot (Items J)) → Prop} {entries : WaitingEntries (ITaskDataConnections J)}

theorem EntriesHave.set (h : EntriesHave P entries) (index : ℕ) {entry : ITaskDataConnections J}
    {main : List (Slot (Items J))} (hmain : entry.get? .main = some main) (hP : P main) :
    EntriesHave P (entries.set index entry) := by
  intro k e hk
  rw [OrderedMap.get?_set] at hk
  split_ifs at hk
  · cases hk
    exact ⟨main, hmain, hP⟩
  · exact h k e hk

theorem EntriesHave.delete (h : EntriesHave P entries) (index : ℕ) :
    EntriesHave P (entries.delete index) := by
  intro k e hk
  rw [OrderedMap.get?_delete] at hk
  split_ifs at hk
  exact h k e hk

variable {workflow : Workflow} {call : Delivery J} {st st' : ExecutionState J}

theorem enqueue_inj {stack : List (IExecuteData J)} {item item' : IExecuteData J}
    (h : enqueue workflow stack item = enqueue workflow stack item') : item = item' := by
  unfold enqueue at h
  split_ifs at h
  · exact (List.cons.inj h).1
  · simpa using h

theorem length_enqueue (stack : List (IExecuteData J)) (item : IExecuteData J) :
    (enqueue workflow stack item).length = stack.length + 1 := by
  unfold enqueue
  split_ifs <;> simp

/-- Storing a delivery keeps a property that new entries have and writes keep. -/
theorem storeDelivery_entriesHave {index : ℕ}
    (hnew : P (List.replicate (workflow.numberOfInputs call.connectionData.node) .null))
    (hwrite : ∀ main, P main → P (writeAt main call.connectionData.index call.slot))
    (hst : EntriesHave P (call.entries st))
    (h : storeDelivery workflow call st = .ok (st', index)) :
    st'.nodeExecutionStack = st.nodeExecutionStack ∧ EntriesHave P (call.entries st') := by
  obtain ⟨⟨st₁, index⟩, hselect, h⟩ := bind_eq_ok.mp h
  obtain ⟨waiting, hwaiting, h⟩ := bind_eq_ok.mp h
  obtain ⟨sources, -, h⟩ := bind_eq_ok.mp h
  cases h
  obtain ⟨hstack, -, hrecord⟩ := createRecord_spec call.connectionData.node st
  have hst₀ : EntriesHave P (call.entries (createRecord call.connectionData.node st)) := by
    rw [Delivery.entries, hrecord]
    exact hst
  have hst₁ : st₁.nodeExecutionStack = st.nodeExecutionStack ∧ EntriesHave P (call.entries st₁) := by
    obtain ⟨found, -, hselect⟩ := bind_eq_ok.mp hselect
    cases found with
    | some k =>
      cases hselect
      exact ⟨hstack, hst₀⟩
    | none =>
      cases hselect
      refine ⟨hstack, ?_⟩
      simp only [Delivery.entries, prepareWaitingToExecution, OrderedMap.get?_set_self,
        Option.getD_some]
      exact hst₀.set _ (get?_mainConnections _) hnew
  obtain ⟨entries, entry, main, hget, hentry, hmain, rfl⟩ := writeEntry_eq_ok hwaiting
  have hentries : EntriesHave P entries := by simpa [Delivery.entries, hget] using hst₁.2
  obtain ⟨main', hmain', hP⟩ := hentries index entry hentry
  obtain rfl : main = main' := Option.some.inj (hmain.symm.trans hmain')
  refine ⟨hst₁.1, ?_⟩
  simp only [Delivery.entries, OrderedMap.get?_set_self, Option.getD_some]
  exact hentries.set index (OrderedMap.get?_set_self _ _ _) (hwrite main hP)

theorem deleteWaiting_entriesHave {nodeName : String}
    (h : EntriesHave P ((st.waitingExecution.get? nodeName).getD ∅)) (index : ℕ) :
    EntriesHave P (((deleteWaiting nodeName index st).waitingExecution.get? nodeName).getD ∅) := by
  unfold deleteWaiting
  dsimp only
  split_ifs
  · rw [OrderedMap.get?_delete_self, Option.getD_none]
    intro k e hk
    cases hk
  · rw [OrderedMap.get?_set_self, Option.getD_some]
    exact h.delete index

theorem keepWaiting_entriesHave {index : ℕ}
    (hwrite : ∀ main, P main → P (writeAt main call.connectionData.index call.slot))
    (hst : EntriesHave P (call.entries st)) (h : keepWaiting workflow call index st = .ok st') :
    st'.nodeExecutionStack = st.nodeExecutionStack ∧ EntriesHave P (call.entries st') := by
  obtain ⟨entries, hentries, h⟩ := bind_eq_ok.mp h
  obtain ⟨main, hmain, h⟩ := bind_eq_ok.mp h
  obtain ⟨sources, -, h⟩ := bind_eq_ok.mp h
  obtain ⟨source, -, h⟩ := bind_eq_ok.mp h
  cases h
  have hget := orTypeError_eq_ok.mp hentries
  obtain ⟨entry, hentry, hmain⟩ := Option.bind_eq_some_iff.mp (orTypeError_eq_ok.mp hmain)
  have hentries : EntriesHave P entries := by simpa [Delivery.entries, hget] using hst
  obtain ⟨main', hmain', hP⟩ := hentries index entry hentry
  obtain rfl : main = main' := Option.some.inj (hmain.symm.trans hmain')
  refine ⟨rfl, ?_⟩
  simp only [Delivery.entries, OrderedMap.get?_set_self, Option.getD_some]
  exact hentries.set index (get?_mainConnections _) (hwrite main hP)

/-- A delivery keeps the property, and what it pushes has the property and no `null`. -/
theorem addToWaiting_entriesHave [DataObject J] {added : List (IExecuteData J)}
    (hnew : P (List.replicate (workflow.numberOfInputs call.connectionData.node) .null))
    (hwrite : ∀ main, P main → P (writeAt main call.connectionData.index call.slot))
    (hst : EntriesHave P (call.entries st))
    (h : addToWaiting workflow call st = .ok (st', added)) :
    EntriesHave P (call.entries st') ∧
      ∀ item, added = [] → st'.nodeExecutionStack = enqueue workflow st.nodeExecutionStack item →
        ∃ main, item.data.get? .main = some main ∧ P main ∧ ∀ slot ∈ main, slot ≠ .null := by
  obtain ⟨⟨st₁, index⟩, hstore, h⟩ := bind_eq_ok.mp h
  obtain ⟨entries, hentries, h⟩ := bind_eq_ok.mp h
  obtain ⟨main, hmain, h⟩ := bind_eq_ok.mp h
  obtain ⟨hstack, hst₁⟩ := storeDelivery_entriesHave hnew hwrite hst hstore
  have hget := orTypeError_eq_ok.mp hentries
  obtain ⟨entry, hentry, hmain⟩ := Option.bind_eq_some_iff.mp (orTypeError_eq_ok.mp hmain)
  have hentries : EntriesHave P entries := by simpa [Delivery.entries, hget] using hst₁
  obtain ⟨main', hmain', hP⟩ := hentries index entry hentry
  obtain rfl : main = main' := Option.some.inj (hmain.symm.trans hmain')
  by_cases hall : main.all (fun slot => !slot.isNull) = true
  · -- all data is there
    rw [if_pos hall] at h
    cases h
    refine ⟨?_, fun item _ hitem => ?_⟩
    · exact deleteWaiting_entriesHave (P := P) (by exact hst₁) index
    rw [nodeExecutionStack_deleteWaiting] at hitem
    have hdata := congrArg IExecuteData.data (enqueue_inj (hstack ▸ hitem))
    refine ⟨main, ?_, hP, fun slot hslot hnull => ?_⟩
    · rw [← hdata, hentry]
      exact hmain
    · subst hnull
      simpa [Slot.isNull] using List.all_eq_true.mp hall _ hslot
  · rw [if_neg hall] at h
    obtain ⟨added', -, h⟩ := bind_eq_ok.mp h
    obtain ⟨st₂, hkeep, h⟩ := bind_eq_ok.mp h
    cases h
    have hkept := keepWaiting_entriesHave hwrite (by exact hst₁) hkeep
    refine ⟨hkept.2, fun item hnil hitem => ?_⟩
    -- nothing is pushed
    subst hnil
    have hlen := congrArg List.length (hkept.1.symm.trans hitem)
    rw [List.foldl_nil, hstack, length_enqueue] at hlen
    omega

end EntriesHave

/-! ## Runs of deliveries -/

section Prepared

variable {workflow : Workflow} {nodeName : String} {call : Delivery J} {st st' : ExecutionState J}

theorem hasShape_replicate_null (inputs : ℕ) :
    HasShape inputs (List.replicate inputs (.null : Slot (Items J))) :=
  ⟨List.length_replicate, fun _ hslot => Or.inl (List.eq_of_mem_replicate hslot)⟩

theorem HasShape.writeAt {inputs : ℕ} {main : List (Slot (Items J))} (h : HasShape inputs main)
    {i : ℤ} (hnonneg : 0 ≤ i) (hlt : i < inputs) (items : Items J) :
    HasShape inputs (writeAt main i (.val items)) := by
  have hwrite : Lib.writeAt main i (.val items) = main.set i.toNat (.val items) := by
    have hlen := h.1
    rw [Lib.writeAt, if_neg (by omega), growSet, if_pos (by omega)]
  rw [hwrite]
  refine ⟨by rw [List.length_set, h.1], fun slot hslot => ?_⟩
  rcases List.mem_or_eq_of_mem_set hslot with hslot | rfl
  · exact h.2 slot hslot
  · exact Or.inr ⟨items, rfl⟩

variable [DataObject J]

/-- A delivery of data keeps the entries prepared, and pushes only complete ones. -/
theorem addToWaiting_prepared {added : List (IExecuteData J)}
    (hcall : DeliversTo workflow nodeName call) (hst : Prepared workflow nodeName st)
    (h : addToWaiting workflow call st = .ok (st', added)) :
    Prepared workflow nodeName st' ∧
      ∀ item, added = [] → st'.nodeExecutionStack = enqueue workflow st.nodeExecutionStack item →
        IsComplete (workflow.numberOfInputs nodeName) item.data := by
  obtain ⟨rfl, hnonneg, hlt, items, hslot⟩ := hcall
  obtain ⟨hst', hpush⟩ := addToWaiting_entriesHave (hasShape_replicate_null _)
    (fun main hmain => hslot ▸ hmain.writeAt hnonneg hlt items) hst h
  refine ⟨hst', fun item hnil hitem => ?_⟩
  obtain ⟨main, hmain, hshape, hnull⟩ := hpush item hnil hitem
  exact ⟨main, hmain, hshape.1, fun slot hslot =>
    (hshape.2 slot hslot).resolve_left (hnull slot hslot)⟩

/-- From prepared entries a node with several inputs is pushed only when all have data. -/
theorem Prepared.pushesOnlyComplete (hmulti : 1 < workflow.numberOfInputs nodeName)
    (hst : Prepared workflow nodeName st) : PushesOnlyComplete workflow nodeName st := by
  intro steps s hrun hsteps call item hcall hpush
  have hs : Prepared workflow nodeName s := by
    refine hrun.invariant (C := fun _ call => DeliversTo workflow nodeName call) hst
      (fun s call s' hs hcall hstep => ?_) hsteps
    obtain ⟨⟨s₁, added⟩, hdeliver, hstep⟩ := bind_eq_ok.mp hstep
    cases hstep
    rw [deliver, if_pos (by rwa [hcall.node])] at hdeliver
    exact (addToWaiting_prepared hcall hs hdeliver).1
  obtain ⟨s', hdeliver, hitem⟩ := hpush
  exact (addToWaiting_prepared hcall hs hdeliver).2 item rfl hitem

end Prepared

end N8n
