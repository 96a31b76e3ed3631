import N8n.Engine.Waiting
import N8n.Lib.Run

/-!
# No delivered data is lost

Data delivered to an input of a node is stored in that slot of a waiting entry or of a
stack item until the item is popped. The ledger counts, for a node, an input and items, the
places where they are stored : a delivery adds one, popping the item that holds them takes
one away, and nothing else changes the number.

The index of a new entry is the number of entries that remain. Once an entry has been
completed out of order this index may be taken, and the entry there is overwritten. The
ledger balances in every run, and no entry is overwritten, exactly when no delivery of the
run creates an entry at an index that is taken (`ledger_iff`).
-/

open Lib

namespace N8n

variable {J : Type}

/-! ## Events -/

/-- What happens to the waiting nodes and the stack. -/
inductive WaitingEvent (J : Type) where
  | deliver (call : Delivery J)
  | pop
  | promote (nodeName : String)

/-- Promote the first waiting entry of a node. -/
def promoteNode (workflow : Workflow) (nodeName : String) (st : ExecutionState J) :
    Except EngineError (ExecutionState J) := do
  let checkNode ← orTypeError (workflow.getNode nodeName)
  let description ← orTypeError (workflow.nodeType checkNode)
  let entries ← orTypeError (st.waitingExecution.get? nodeName)
  let index ← orTypeError (firstRunIndex entries)
  return (← promoteEntry workflow description.inputs nodeName index st).1

def WaitingEvent.run [DataObject J] (workflow : Workflow) (st : ExecutionState J) :
    WaitingEvent J → Except EngineError (ExecutionState J)
  | deliver call => addNodeToBeExecuted workflow call st
  | pop => .ok { st with nodeExecutionStack := st.nodeExecutionStack.tail }
  | promote nodeName => promoteNode workflow nodeName st

/-! ## The ledger -/

section Ledger

variable [DecidableEq J]

/-- The items are in slot `i` of the Main data. -/
def holds (i : ℕ) (items : Items J) (data : ITaskDataConnections J) : Bool :=
  match data.get? .main with
  | none => false
  | some main => main.getD i .hole = .val items

/-- The item is for the node and holds the items in slot `i`. -/
def IExecuteData.holdsFor (nodeName : String) (i : ℕ) (items : Items J) (item : IExecuteData J) :
    Bool :=
  item.node.any (·.name = nodeName) && holds i items item.data

/-- In how many entries slot `i` holds the items. -/
def entryPlaces (i : ℕ) (items : Items J) (entries : WaitingEntries (ITaskDataConnections J)) : ℕ :=
  entries.entries.countP fun e => holds i items e.2

/-- In how many waiting entries and stack items of the node slot `i` holds the items. -/
def places (nodeName : String) (i : ℕ) (items : Items J) (st : ExecutionState J) : ℕ :=
  entryPlaces i items ((st.waitingExecution.get? nodeName).getD ∅) +
    st.nodeExecutionStack.countP (·.holdsFor nodeName i items)

/-- Whether the event delivers the items to this input of the node. -/
def delivered (nodeName : String) (i : ℕ) (items : Items J) : WaitingEvent J → ℕ
  | .deliver call =>
    if call.connectionData.node = nodeName ∧ call.connectionData.index = i ∧
      call.slot = .val items then 1 else 0
  | _ => 0

/-- Whether the event pops an item of the node with the items in this slot. -/
def popped (nodeName : String) (i : ℕ) (items : Items J) (st : ExecutionState J) :
    WaitingEvent J → ℕ
  | .pop => if st.nodeExecutionStack.head?.any (·.holdsFor nodeName i items) then 1 else 0
  | _ => 0

/-- How many items for the node with the items in this slot the event puts on the stack on
its own account, for inputs nothing else will run. -/
def placed [DataObject J] (workflow : Workflow) (nodeName : String) (i : ℕ) (items : Items J)
    (st : ExecutionState J) : WaitingEvent J → ℕ
  | .deliver call =>
    match N8n.deliver workflow call st with
    | .ok (_, added) => added.countP (·.holdsFor nodeName i items)
    | .error _ => 0
  | _ => 0

end Ledger

/-! ## Entries that are taken -/

/-- The entries of the node the delivery is for. -/
def Delivery.entries (call : Delivery J) (st : ExecutionState J) :
    WaitingEntries (ITaskDataConnections J) :=
  (st.waitingExecution.get? call.connectionData.node).getD ∅

/-- Every waiting entry of the node has data for the input, so the delivery creates one. -/
def Delivery.CreatesEntry (workflow : Workflow) (call : Delivery J) (st : ExecutionState J) : Prop :=
  1 < workflow.numberOfInputs call.connectionData.node ∧
    ∀ index entry, (call.entries st).get? index = some entry →
      ∃ main, entry.get? .main = some main ∧ (readAt main call.connectionData.index).truthy

/-- If the delivery creates an entry, no entry has the number of entries as its index. -/
def Delivery.Fresh (workflow : Workflow) (call : Delivery J) (st : ExecutionState J) : Prop :=
  call.CreatesEntry workflow st → (call.entries st).get? (call.entries st).size = none

/-- The event creates an entry where there is one with data. -/
def Overwrites (workflow : Workflow) (st : ExecutionState J) : WaitingEvent J → Prop
  | .deliver call => call.CreatesEntry workflow st ∧
    ∃ entry main, (call.entries st).get? (call.entries st).size = some entry ∧
      entry.get? .main = some main ∧ ∃ slot ∈ main, slot.truthy
  | _ => False

/-- The event does not create an entry at an index that is taken. -/
def Fresh (workflow : Workflow) (st : ExecutionState J) : WaitingEvent J → Prop
  | .deliver call => call.Fresh workflow st
  | _ => True

variable {workflow : Workflow} {call : Delivery J} {st st' : ExecutionState J}

theorem exists_truthy_of_readAt {β : Type} {main : List (Slot β)} {i : ℤ}
    (h : (readAt main i).truthy) : ∃ slot ∈ main, slot.truthy := by
  unfold readAt at h
  split_ifs at h with hi
  · cases hslot : main.getD i.toNat .hole with
    | val x => exact ⟨.val x, mem_of_getD hslot, rfl⟩
    | _ =>
      rw [hslot] at h
      cases h
  · simp [Slot.truthy] at h

theorem not_overwrites_iff {event : WaitingEvent J} :
    ¬Overwrites workflow st event ↔ Fresh workflow st event := by
  cases event with
  | pop => simp [Overwrites, Fresh]
  | promote => simp [Overwrites, Fresh]
  | deliver call =>
    constructor
    · intro h hnew
      by_contra hne
      obtain ⟨entry, hentry⟩ := Option.ne_none_iff_exists'.mp hne
      obtain ⟨main, hmain, htruthy⟩ := hnew.2 _ _ hentry
      exact h ⟨hnew, entry, main, hentry, hmain, exists_truthy_of_readAt htruthy⟩
    · rintro h ⟨hnew, entry, -, hentry, -⟩
      rw [h hnew] at hentry
      cases hentry

/-! ## Storing a delivery -/

/-- The search for an entry that lacks the input returns one, or none does. -/
theorem findWaitingNodeIndex_spec {entries : WaitingEntries (ITaskDataConnections J)} {i : ℤ}
    {indexes : List ℕ} {found : Option ℕ} (hkeys : ∀ k ∈ indexes, k ∈ entries.keys)
    (h : findWaitingNodeIndex entries i indexes = .ok found) :
    (∀ k, found = some k → ∃ entry main, entries.get? k = some entry ∧
      entry.get? .main = some main ∧ (readAt main i).truthy = false) ∧
    (found = none → ∀ k ∈ indexes, ∀ entry, entries.get? k = some entry →
      ∃ main, entry.get? .main = some main ∧ (readAt main i).truthy) := by
  induction indexes with
  | nil =>
    cases h
    simp
  | cons k indexes ih =>
    obtain ⟨entry, hentry⟩ := OrderedMap.mem_keys_iff.mp (hkeys k (by simp))
    rw [findWaitingNodeIndex, entryMain, hentry] at h
    cases hmain : entry.get? .main with
    | none => simp [hmain, orTypeError, bind, Except.bind] at h
    | some main =>
      simp only [hmain, Option.bind_some, orTypeError, bind, Except.bind] at h
      by_cases ht : (readAt main i).truthy
      · rw [if_pos ht] at h
        obtain ⟨hsome, hnone⟩ := ih (fun j hj => hkeys j (by simp [hj])) h
        refine ⟨hsome, fun hf j hj entry' hentry' => ?_⟩
        rcases List.mem_cons.mp hj with rfl | hj
        · rw [hentry, Option.some.injEq] at hentry'
          exact ⟨main, hentry' ▸ hmain, ht⟩
        · exact hnone hf j hj entry' hentry'
      · rw [if_neg ht] at h
        cases h
        refine ⟨fun j hj => ?_, by simp⟩
        obtain rfl := Option.some.inj hj
        exact ⟨entry, main, hentry, hmain, by simpa using ht⟩

variable {nodeName : String}

theorem writeEntry_eq_ok {β : Type} {waiting waiting' : OrderedMap String (WaitingEntries
    (OrderedMap NodeConnectionType (List (Slot β))))} {index : ℕ} {i : ℤ}
    {slot : Slot β} (h : writeEntry waiting nodeName index i slot = .ok waiting') :
    ∃ entries entry main, waiting.get? nodeName = some entries ∧ entries.get? index = some entry ∧
      entry.get? .main = some main ∧ waiting' = waiting.set nodeName
        (entries.set index (entry.set .main (writeAt main i slot))) := by
  unfold writeEntry at h
  cases hentries : waiting.get? nodeName with
  | none => simp [hentries, orTypeError, bind, Except.bind] at h
  | some entries =>
    cases hentry : entries.get? index with
    | none => simp [hentries, hentry, orTypeError, bind, Except.bind] at h
    | some entry =>
      cases hmain : entry.get? .main with
      | none => simp [hentries, hentry, hmain, orTypeError, bind, Except.bind] at h
      | some main =>
        simp only [hentries, hentry, hmain, orTypeError, bind, Except.bind, pure, Except.pure,
          Except.ok.injEq] at h
        exact ⟨entries, entry, main, rfl, hentry, hmain, h.symm⟩

section Store

variable [DecidableEq J] {main : List (Slot (Items J))}

theorem holds_of_main {i : ℕ} {items : Items J} {data : ITaskDataConnections J}
    (h : data.get? .main = some main) :
    holds i items data = decide (main.getD i .hole = .val items) := by
  simp only [holds, h]

@[simp] theorem entryPlaces_empty (i : ℕ) (items : Items J) :
    entryPlaces i items (∅ : WaitingEntries (ITaskDataConnections J)) = 0 := rfl

section

variable {entries : WaitingEntries (ITaskDataConnections J)} {index : ℕ}
  {old : ITaskDataConnections J} (new : ITaskDataConnections J) (i : ℕ) (items : Items J)

theorem entryPlaces_set (h : entries.get? index = some old) :
    entryPlaces i items (entries.set index new) + (if holds i items old then 1 else 0) =
      entryPlaces i items entries + (if holds i items new then 1 else 0) :=
  OrderedMap.countP_set_of_get? h _

theorem entryPlaces_set_new (h : entries.get? index = none) :
    entryPlaces i items (entries.set index new) =
      entryPlaces i items entries + (if holds i items new then 1 else 0) :=
  OrderedMap.countP_set_of_get?_eq_none h _

theorem entryPlaces_delete (h : entries.get? index = some old) :
    entryPlaces i items (entries.delete index) + (if holds i items old then 1 else 0) =
      entryPlaces i items entries :=
  OrderedMap.countP_delete_of_get? h _

end

variable {entry : ITaskDataConnections J}

/-- Writing an input that has no data adds the items written, and nothing else. -/
theorem entryPlaces_write {entries : WaitingEntries (ITaskDataConnections J)} {index : ℕ}
    {inputIndex : ℤ} (hentry : entries.get? index = some entry)
    (hmain : entry.get? .main = some main) (hfree : (readAt main inputIndex).truthy = false)
    (slot : Slot (Items J)) (i : ℕ) (items : Items J) :
    entryPlaces i items (entries.set index (entry.set .main (writeAt main inputIndex slot))) =
      entryPlaces i items entries + if inputIndex = i ∧ slot = .val items then 1 else 0 := by
  have hcount := entryPlaces_set (entry.set .main (writeAt main inputIndex slot)) i items hentry
  simp only [holds_of_main hmain, holds_of_main (OrderedMap.get?_set_self entry .main _),
    getD_writeAt, decide_eq_true_eq] at hcount
  by_cases hi : inputIndex = i
  · subst hi
    have hold : main.getD i .hole ≠ .val items := by
      intro hval
      rw [readAt_natCast, hval] at hfree
      cases hfree
    simp only [if_true, if_neg hold, true_and] at hcount ⊢
    omega
  · simp only [hi, false_and, if_false] at hcount ⊢
    omega

omit [DecidableEq J] in
theorem readAt_replicate_null (n : ℕ) (i : ℤ) :
    (readAt (List.replicate n (.null : Slot (Items J))) i).truthy = false := by
  unfold readAt
  split_ifs with hi
  · rw [List.getD_eq_getElem?_getD, List.getElem?_replicate]
    split_ifs <;> rfl
  · rfl

omit [DecidableEq J] in
/-- The record of the node is there, and nothing waits that did not before. -/
theorem createRecord_spec (nodeName : String) (st : ExecutionState J) :
    (createRecord nodeName st).nodeExecutionStack = st.nodeExecutionStack ∧
    (createRecord nodeName st).runData = st.runData ∧
    ∀ name, ((createRecord nodeName st).waitingExecution.get? name).getD ∅ =
      (st.waitingExecution.get? name).getD ∅ := by
  by_cases hhas : st.waitingExecution.has nodeName
  · simp [createRecord, if_pos hhas]
  · have hnone : st.waitingExecution.get? nodeName = none := by
      simpa [OrderedMap.has] using hhas
    refine ⟨by simp [createRecord, if_neg hhas], by simp [createRecord, if_neg hhas],
      fun name => ?_⟩
    simp only [createRecord, if_neg hhas, OrderedMap.get?_set]
    split_ifs with hname
    · rw [← hname, hnone]
      rfl
    · rfl

/-- An entry that lacks the input is selected; its node waits with what it waited with. -/
structure Selected (call : Delivery J) (st st' : ExecutionState J) (index : ℕ) : Prop where
  stack : st'.nodeExecutionStack = st.nodeExecutionStack
  others : ∀ nodeName, nodeName ≠ call.connectionData.node →
    st'.waitingExecution.get? nodeName = st.waitingExecution.get? nodeName
  entry : ∃ entry main, (call.entries st').get? index = some entry ∧ entry.get? .main = some main ∧
    (readAt main call.connectionData.index).truthy = false
  count : ∀ i items, entryPlaces i items (call.entries st') = entryPlaces i items (call.entries st)

theorem selectEntry_spec {index : ℕ}
    (hmulti : 1 < workflow.numberOfInputs call.connectionData.node)
    (hfresh : call.Fresh workflow st) (h : selectEntry workflow call st = .ok (st', index)) :
    Selected call st st' index := by
  obtain ⟨found, hfound, h⟩ := bind_eq_ok.mp h
  obtain ⟨hsome, hnone⟩ := findWaitingNodeIndex_spec (fun k hk => mem_numericKeys.mp hk) hfound
  cases found with
  | some k =>
    cases h
    exact ⟨rfl, fun _ _ => rfl, hsome _ rfl, fun _ _ => rfl⟩
  | none =>
    cases h
    have hnew : (call.entries st).get? (call.entries st).size = none :=
      hfresh ⟨hmulti, fun k entry hentry =>
        hnone rfl k (mem_numericKeys.mpr (OrderedMap.mem_keys_iff.mpr ⟨entry, hentry⟩)) entry hentry⟩
    have hentries : call.entries (prepareWaitingToExecution call.connectionData.node
        (workflow.numberOfInputs call.connectionData.node) (call.entries st).size st) =
        (call.entries st).set (call.entries st).size (mainConnections
          (List.replicate (workflow.numberOfInputs call.connectionData.node) .null)) := by
      simp [Delivery.entries, prepareWaitingToExecution]
    refine ⟨rfl, fun name hname => OrderedMap.get?_set_of_ne _ _ (Ne.symm hname),
      ⟨mainConnections (List.replicate (workflow.numberOfInputs call.connectionData.node) .null), _,
        ?_, get?_mainConnections _, readAt_replicate_null _ _⟩, fun i items => ?_⟩
    · exact (congrArg (OrderedMap.get? · _) hentries).trans (OrderedMap.get?_set_self _ _ _)
    · have hnull : (List.replicate (workflow.numberOfInputs call.connectionData.node)
          (.null : Slot (Items J))).getD i .hole ≠ .val items := by
        rw [List.getD_eq_getElem?_getD, List.getElem?_replicate]
        split_ifs <;> simp
      refine (congrArg (entryPlaces i items) hentries).trans ?_
      rw [entryPlaces_set_new _ i items hnew, holds_of_main (get?_mainConnections _)]
      simp only [hnull, decide_false, Bool.false_eq_true, if_false, Nat.add_zero]

/-- The entry where a delivery was stored, and what it changed. -/
structure Stored (call : Delivery J) (st st' : ExecutionState J) (index : ℕ) : Prop where
  stack : st'.nodeExecutionStack = st.nodeExecutionStack
  others : ∀ nodeName, nodeName ≠ call.connectionData.node →
    (st'.waitingExecution.get? nodeName).getD ∅ = (st.waitingExecution.get? nodeName).getD ∅
  entry : ∃ entry main, (call.entries st').get? index = some entry ∧ entry.get? .main = some main ∧
    ∀ i : ℕ, call.connectionData.index = i → main.getD i .hole = call.slot
  count : ∀ i items, entryPlaces i items (call.entries st') = entryPlaces i items (call.entries st) +
    if call.connectionData.index = i ∧ call.slot = .val items then 1 else 0

/-- A delivery that creates its entries at free indexes is stored in one place. -/
theorem storeDelivery_spec {index : ℕ}
    (hmulti : 1 < workflow.numberOfInputs call.connectionData.node)
    (hfresh : call.Fresh workflow st) (h : storeDelivery workflow call st = .ok (st', index)) :
    Stored call st st' index := by
  obtain ⟨⟨st₁, k⟩, hselect, h⟩ := bind_eq_ok.mp h
  obtain ⟨waiting, hwaiting, h⟩ := bind_eq_ok.mp h
  obtain ⟨sources, -, h⟩ := bind_eq_ok.mp h
  cases h
  obtain ⟨hstack, -, hrecord⟩ := createRecord_spec call.connectionData.node st
  have hsame : call.entries (createRecord call.connectionData.node st) = call.entries st :=
    hrecord _
  have hsel := selectEntry_spec hmulti (by
    intro ⟨hm, hdata⟩
    rw [hsame] at hdata ⊢
    exact hfresh ⟨hm, hdata⟩) hselect
  obtain ⟨entries, entry, main, hget, hentry, hmain, rfl⟩ := writeEntry_eq_ok hwaiting
  have hentries : call.entries st₁ = entries := by simp [Delivery.entries, hget]
  obtain ⟨entry', main', hentry', hmain', hfree⟩ := hsel.entry
  rw [hentries, hentry, Option.some.injEq] at hentry'
  subst hentry'
  rw [hmain, Option.some.injEq] at hmain'
  subst hmain'
  have hset : ∀ (e : WaitingEntries (ITaskDataConnections J)) (sources : IWaitingForExecutionSource),
      call.entries { st₁ with
        waitingExecution := st₁.waitingExecution.set call.connectionData.node e
        waitingExecutionSource := sources } = e := fun e sources => by
    simp [Delivery.entries]
  refine ⟨hsel.stack.trans hstack, fun name hname => ?_,
    ⟨entry.set .main (writeAt main call.connectionData.index call.slot), _, ?_,
      OrderedMap.get?_set_self _ _ _, fun i hi => ?_⟩, fun i items => ?_⟩
  · change ((st₁.waitingExecution.set _ _).get? name).getD ∅ = _
    rw [OrderedMap.get?_set_of_ne _ _ (Ne.symm hname), hsel.others name hname, hrecord]
  · rw [hset]
    exact OrderedMap.get?_set_self _ _ _
  · rw [getD_writeAt, if_pos hi]
  · rw [hset, entryPlaces_write hentry hmain hfree, ← hentries, hsel.count, hsame]

theorem Stored.places {index : ℕ} (h : Stored call st st' index) (nodeName : String) (i : ℕ)
    (items : Items J) :
    places nodeName i items st' = places nodeName i items st +
      delivered nodeName i items (.deliver call) := by
  unfold N8n.places delivered
  rw [h.stack]
  by_cases hname : call.connectionData.node = nodeName
  · subst hname
    have hcount := h.count i items
    simp only [Delivery.entries] at hcount
    simp only [true_and]
    omega
  · rw [h.others nodeName (Ne.symm hname)]
    simp [hname]

/-! ## Leaving the waiting state -/

variable (st) in
/-- Deleting an entry takes away what it held. -/
theorem entryPlaces_deleteWaiting {index : ℕ} {entries : WaitingEntries (ITaskDataConnections J)}
    (hentries : st.waitingExecution.get? nodeName = some entries)
    (hentry : entries.get? index = some entry) (name : String) (i : ℕ) (items : Items J) :
    entryPlaces i items (((deleteWaiting nodeName index st).waitingExecution.get? name).getD ∅) +
      (if nodeName = name ∧ holds i items entry then 1 else 0) =
      entryPlaces i items ((st.waitingExecution.get? name).getD ∅) := by
  have hdelete := entryPlaces_delete i items hentry
  by_cases hname : nodeName = name
  · subst hname
    simp only [true_and, hentries, Option.getD_some]
    rw [← hdelete, Nat.add_right_cancel_iff, deleteWaiting]
    simp only [hentries, Option.getD_some]
    split_ifs with hsize
    · -- the last entry : the node goes, and nothing is left to count
      have hnil : (entries.delete index).entries = [] := List.length_eq_zero_iff.mp hsize
      simp [entryPlaces, hnil]
    · simp
  · simp only [hname, false_and, if_false, Nat.add_zero, deleteWaiting]
    split_ifs
    · simp [OrderedMap.get?_delete_of_ne _ hname]
    · simp [OrderedMap.get?_set_of_ne _ _ hname]

variable {name : String}

/-- A stack item for a node of the workflow is for the node it is made for. -/
theorem holdsFor_iff (hname : workflow.nodes.has name = true) (i : ℕ) (items : Items J)
    {item : IExecuteData J} (hnode : item.node = workflow.nodes.get? nodeName) :
    item.holdsFor name i items = true ↔ nodeName = name ∧ holds i items item.data = true := by
  rw [IExecuteData.holdsFor, hnode, Bool.and_eq_true]
  refine and_congr_left fun _ => ?_
  constructor
  · intro h
    cases hget : workflow.nodes.get? nodeName with
    | none => simp [hget] at h
    | some node =>
      rw [hget] at h
      rw [← workflow.name_of_get? hget]
      simpa using h
  · rintro rfl
    obtain ⟨node, hget⟩ := Option.isSome_iff_exists.mp hname
    simp [hget, workflow.name_of_get? hget]

/-- Moving an entry to the stack changes no count. -/
theorem places_moveToStack (hname : workflow.nodes.has name = true)
    {index : ℕ} {entries : WaitingEntries (ITaskDataConnections J)} (hentries : st.waitingExecution.get? nodeName = some entries)
    (hentry : entries.get? index = some entry) (item : IExecuteData J)
    (hnode : item.node = workflow.nodes.get? nodeName) {i : ℕ} {items : Items J}
    (hdata : holds i items item.data = holds i items entry) {stack : List (IExecuteData J)}
    (hstack : stack.countP (·.holdsFor name i items) = st.nodeExecutionStack.countP
      (·.holdsFor name i items) + if item.holdsFor name i items then 1 else 0) :
    places name i items (deleteWaiting nodeName index { st with nodeExecutionStack := stack }) =
      places name i items st := by
  have hdelete := entryPlaces_deleteWaiting { st with nodeExecutionStack := stack } hentries hentry
    name i items
  dsimp only at hdelete
  have hholds := holdsFor_iff hname i items hnode
  rw [hdata] at hholds
  simp only [places, nodeExecutionStack_deleteWaiting, hstack, hholds]
  omega

/-- Rebuilding an entry with the data it has changes no count. -/
theorem keepWaiting_spec {index : ℕ} (h : keepWaiting workflow call index st = .ok st')
    (hentry : (call.entries st).get? index = some entry) (hmain : entry.get? .main = some main)
    (hslot : ∀ i : ℕ, call.connectionData.index = i → main.getD i .hole = call.slot)
    (name : String) (i : ℕ) (items : Items J) :
    places name i items st' = places name i items st := by
  obtain ⟨entries, hentries, h⟩ := bind_eq_ok.mp h
  obtain ⟨main', hmain', h⟩ := bind_eq_ok.mp h
  obtain ⟨sources, -, h⟩ := bind_eq_ok.mp h
  obtain ⟨source, -, h⟩ := bind_eq_ok.mp h
  cases h
  have hget : st.waitingExecution.get? call.connectionData.node = some entries := by
    cases hget : st.waitingExecution.get? call.connectionData.node with
    | none => simp [hget, orTypeError] at hentries
    | some e => simpa [hget, orTypeError] using hentries
  rw [Delivery.entries, hget, Option.getD_some] at hentry
  obtain rfl : main = main' := by simpa [entryMain, hentry, hmain, orTypeError] using hmain'
  have hholds : holds i items (mainConnections (writeAt main call.connectionData.index call.slot)) =
      holds i items entry := by
    rw [holds_of_main (get?_mainConnections _), holds_of_main hmain, getD_writeAt]
    split_ifs with hi
    · rw [hslot i hi]
    · rfl
  have hset := entryPlaces_set (mainConnections
    (writeAt main call.connectionData.index call.slot)) i items hentry
  rw [hholds] at hset
  simp only [places, prepareWaitingToExecution]
  by_cases hname : call.connectionData.node = name
  · subst hname
    simp only [OrderedMap.get?_set_self, Option.getD_some, hget]
    omega
  · simp only [OrderedMap.get?_set_of_ne _ _ hname]

theorem addToWaiting_balance [DataObject J] {added : List (IExecuteData J)}
    (hmulti : 1 < workflow.numberOfInputs call.connectionData.node)
    (hfresh : call.Fresh workflow st) (h : addToWaiting workflow call st = .ok (st', added))
    (hname : workflow.nodes.has name = true) (i : ℕ) (items : Items J) :
    places name i items st' = places name i items st +
      (delivered name i items (.deliver call) + added.countP (·.holdsFor name i items)) := by
  obtain ⟨⟨st₁, index⟩, hstore, h⟩ := bind_eq_ok.mp h
  obtain ⟨entries, hentries, h⟩ := bind_eq_ok.mp h
  obtain ⟨main, hmain, h⟩ := bind_eq_ok.mp h
  have hstored := storeDelivery_spec hmulti hfresh hstore
  have hplaces := hstored.places name i items
  obtain ⟨entry, main', hentry, hmain', hslot⟩ := hstored.entry
  have hget : st₁.waitingExecution.get? call.connectionData.node = some entries := by
    cases hget : st₁.waitingExecution.get? call.connectionData.node with
    | none => simp [hget, orTypeError] at hentries
    | some e => simpa [hget, orTypeError] using hentries
  have hentry' : entries.get? index = some entry := by
    simpa [Delivery.entries, hget] using hentry
  by_cases hall : main.all (fun slot => !slot.isNull) = true
  · -- all data is there
    rw [if_pos hall] at h
    cases h
    rw [places_moveToStack hname hget hentry' _ rfl (by simp [hentry']) (countP_enqueue _ _ _ _),
      hplaces]
    simp
  · rw [if_neg hall] at h
    obtain ⟨added', -, h⟩ := bind_eq_ok.mp h
    obtain ⟨st₂, hkeep, h⟩ := bind_eq_ok.mp h
    cases h
    rw [keepWaiting_spec hkeep hentry hmain' hslot]
    simp only [places, countP_foldl_enqueue] at hplaces ⊢
    omega

theorem holds_writeAt_replicate_null (n : ℕ) (inputIndex : ℤ) (slot : Slot (Items J)) (i : ℕ)
    (items : Items J) :
    holds i items (mainConnections (writeAt (List.replicate n .null) inputIndex slot)) = true ↔
      inputIndex = i ∧ slot = .val items := by
  rw [holds_of_main (get?_mainConnections _), getD_writeAt, decide_eq_true_eq]
  split_ifs with hi
  · simp [hi]
  · simp only [hi, false_and, iff_false]
    rw [List.getD_eq_getElem?_getD, List.getElem?_replicate]
    split_ifs <;> simp

theorem addToStack_balance (hname : workflow.nodes.has name = true) (i : ℕ) (items : Items J) :
    places name i items (addToStack workflow call st) = places name i items st +
      delivered name i items (.deliver call) := by
  unfold addToStack
  extract_lets connectionData connectionDataArray
  cases hget : workflow.nodes.get? connectionData.node with
  | none =>
    have hne : call.connectionData.node ≠ name := by
      rintro rfl
      rw [OrderedMap.has, show workflow.nodes.get? call.connectionData.node = none from hget] at hname
      cases hname
    simp [delivered, hne]
  | some node =>
    have hholds (item : IExecuteData J) (hnode : item.node = some node)
        (hdata : item.data = mainConnections connectionDataArray) :
        item.holdsFor name i items = true ↔ call.connectionData.node = name ∧
          call.connectionData.index = i ∧ call.slot = .val items := by
      rw [holdsFor_iff hname i items (hnode.trans hget.symm), hdata,
        holds_writeAt_replicate_null]
    simp only [places, countP_enqueue, hholds, delivered]
    omega

/-- A delivery adds the items delivered and the items it puts on the stack for others. -/
theorem deliver_balance [DataObject J] {added : List (IExecuteData J)}
    (hfresh : call.Fresh workflow st) (h : deliver workflow call st = .ok (st', added))
    (hname : workflow.nodes.has name = true) (i : ℕ) (items : Items J) :
    places name i items st' = places name i items st +
      (delivered name i items (.deliver call) + added.countP (·.holdsFor name i items)) := by
  unfold deliver at h
  by_cases hmulti : workflow.numberOfInputs call.connectionData.node > 1
  · rw [if_pos hmulti] at h
    exact addToWaiting_balance hmulti hfresh h hname i items
  · rw [if_neg hmulti] at h
    cases h
    rw [addToStack_balance hname]
    simp

/-! ## Promotion and pop -/

omit [DecidableEq J] in
theorem hasItems_spec {b : Bool} (h : hasItems main = .ok b) :
    b = true ↔ ∃ items, .val items ∈ main ∧ items ≠ [] := by
  induction main generalizing b with
  | nil =>
    cases h
    simp
  | cons slot main ih =>
    cases slot with
    | hole => simpa using ih h
    | undefined => cases h
    | null => cases h
    | val data =>
      obtain ⟨rest, hrest, h⟩ := bind_eq_ok.mp h
      cases h
      have := ih hrest
      simp [this]

omit [DecidableEq J] in
/-- The data a promotion passes on is the data of the entry, up to empty arrays. -/
theorem getD_promoted {items : Items J} (hitems : items ≠ []) (n i : ℕ) :
    (main.map orEmpty ++ List.replicate n (.val [] : Slot (Items J))).getD i .hole = .val items ↔
      main.getD i .hole = .val items := by
  have hempty : ([] : Items J) ≠ items := fun h => hitems h.symm
  simp only [List.getD_eq_getElem?_getD]
  rcases Nat.lt_or_ge i main.length with hi | hi
  · rw [List.getElem?_append_left (by simpa using hi), List.getElem?_map,
      List.getElem?_eq_getElem hi]
    cases main[i] <;> simp [orEmpty, hempty]
  · rw [List.getElem?_append_right (by simpa using hi), List.getElem?_replicate,
      List.getElem?_eq_none hi]
    split_ifs <;> simp [hempty]

/-- A promotion moves an entry to the stack, or drops one without items. -/
theorem promoteEntry_balance {inputs : ℕ} {index : ℕ} {b : Bool}
    (h : promoteEntry workflow inputs nodeName index st = .ok (st', b))
    (hname : workflow.nodes.has name = true) (i : ℕ) {items : Items J} (hitems : items ≠ []) :
    places name i items st' = places name i items st := by
  obtain ⟨entries, hentries, h⟩ := bind_eq_ok.mp h
  obtain ⟨main, hmain, h⟩ := bind_eq_ok.mp h
  obtain ⟨hasData, hhas, h⟩ := bind_eq_ok.mp h
  obtain ⟨sources, -, h⟩ := bind_eq_ok.mp h
  cases h
  have hentries := orTypeError_eq_ok.mp hentries
  obtain ⟨entry, hentry, hmain⟩ := Option.bind_eq_some_iff.mp (orTypeError_eq_ok.mp hmain)
  cases b with
  | true =>
    refine places_moveToStack hname hentries hentry
      { node := workflow.nodes.get? nodeName
        data := mainConnections
          (main.map orEmpty ++ List.replicate (inputs - (main.map orEmpty).length) (.val []))
        source := sources.get? index } rfl ?_ ?_
    · rw [holds_of_main (get?_mainConnections _), holds_of_main hmain]
      simp only [getD_promoted hitems]
    · simp [List.countP_append]
  | false =>
    have hnot : holds i items entry = false := by
      rw [holds_of_main hmain, decide_eq_false_iff_not, ← getD_promoted hitems 0,
        List.replicate_zero, List.append_nil]
      intro hval
      exact absurd ((hasItems_spec hhas).mpr ⟨items, mem_of_getD hval, hitems⟩) (by simp)
    have hdelete := entryPlaces_deleteWaiting st hentries hentry name i items
    simp only [hnot, Bool.false_eq_true, and_false, if_false, Nat.add_zero] at hdelete
    simp only [places, nodeExecutionStack_deleteWaiting, Bool.false_eq_true, if_false, hdelete]

end Store

/-- What one event does to the ledger. -/
theorem WaitingEvent.balance [DecidableEq J] [DataObject J] {event : WaitingEvent J}
    (hfresh : N8n.Fresh workflow st event) (h : WaitingEvent.run workflow st event = .ok st')
    (hname : workflow.nodes.has name = true) (i : ℕ) {items : Items J} (hitems : items ≠ []) :
    places name i items st' + popped name i items st event = places name i items st +
      (delivered name i items event + placed workflow name i items st event) := by
  cases event with
  | deliver call =>
    obtain ⟨⟨st₁, added⟩, hdeliver, h⟩ := bind_eq_ok.mp h
    cases h
    have hbalance := deliver_balance hfresh hdeliver hname i items
    simp only [popped, placed, hdeliver]
    omega
  | pop =>
    cases h
    simp only [places, popped, delivered, placed]
    cases st.nodeExecutionStack with
    | nil => simp
    | cons item stack =>
      by_cases hitem : item.holdsFor name i items = true <;> simp [hitem]
      omega
  | promote nodeName =>
    obtain ⟨_, -, h⟩ := bind_eq_ok.mp h
    obtain ⟨_, -, h⟩ := bind_eq_ok.mp h
    obtain ⟨_, -, h⟩ := bind_eq_ok.mp h
    obtain ⟨_, -, h⟩ := bind_eq_ok.mp h
    obtain ⟨⟨st₁, b⟩, hpromote, h⟩ := bind_eq_ok.mp h
    cases h
    rw [promoteEntry_balance hpromote hname i hitems]
    rfl

/-! ## Runs -/

/-- The ledger balances : what a node of the workflow with several inputs has been
delivered is stored once, or has been popped once. -/
def Balanced [DecidableEq J] [DataObject J] (workflow : Workflow)
    (steps : List (ExecutionState J × WaitingEvent J)) (init st : ExecutionState J) : Prop :=
  ∀ name, workflow.nodes.has name = true → 1 < workflow.numberOfInputs name →
    ∀ i (items : Items J), items ≠ [] →
      places name i items st + (steps.map fun s => popped name i items s.1 s.2).sum =
        places name i items init +
          (steps.map fun s =>
            delivered name i items s.2 + placed workflow name i items s.1 s.2).sum

/-- `A` and `B` are connected to the two inputs of `Merge`. -/
def mergeWorkflow : Workflow where
  nodes := setNodes [.named "A", .named "B", .named "Merge"]
  connectionsBySourceNode :=
    ((∅ : IConnections).set "A" ((∅ : INodeConnections).set .main [some [⟨"Merge", .main, 0⟩]])).set
      "B" ((∅ : INodeConnections).set .main [some [⟨"Merge", .main, 1⟩]])
  connectionsByDestinationNode := (∅ : IConnections).set "Merge"
    ((∅ : INodeConnections).set .main [some [⟨"A", .main, 0⟩], some [⟨"B", .main, 0⟩]])
  executionOrder := some .v1
  name_of_get? := name_of_setNodes

/-- `parent` delivers one item to an input of `Merge`. -/
def deliverTo (parent : String) (index : ℤ) (json runIndex : ℕ) : WaitingEvent ℕ :=
  .deliver
    { connectionData := ⟨"Merge", .main, index⟩, outputIndex := 0, parentNodeName := parent
      nodeSuccessData := some [.val [{ json }]], runIndex }

end N8n
