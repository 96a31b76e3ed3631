import Mathlib.Data.List.Basic

/-!
# The message list of an agent

The blocks of tool calls in the messages of a run, in the order of the messages. A tool call is
settled by a change of its block, which is the first with its identifier in the last message that
has one. The message counts as a response of the turn from then on.

Of a message only its tool calls are modelled. `SameCall` says that two lists have the same to
say about a call, and `setToolCallState_sameCall` that settling a call changes nothing about the
others.
-/

namespace N8n

variable {I S : Type} [DecidableEq I]

/-! ## Blocks -/

inductive ToolCallState (S : Type) where
  | pending
  /-- The block has an output, or an error. -/
  | settled (result : S)
  deriving DecidableEq, Repr

def ToolCallState.isPending : ToolCallState S → Bool
  | .pending => true
  | .settled _ => false

structure ContentToolCall (I S : Type) where
  toolCallId : I
  state : ToolCallState S
  deriving DecidableEq, Repr

structure AgentDbMessage (I S : Type) where
  content : List (ContentToolCall I S) := []
  isResponse : Bool := false
  deriving DecidableEq, Repr

abbrev AgentMessageList (I S : Type) := List (AgentDbMessage I S)

def AgentDbMessage.hosts (m : AgentDbMessage I S) (toolCallId : I) : Bool :=
  m.content.any fun c => c.toolCallId = toolCallId

/-- The first block of the call is changed. -/
def setBlockState (toolCallId : I) (state : ToolCallState S) :
    List (ContentToolCall I S) → List (ContentToolCall I S)
  | [] => []
  | c :: cs =>
    if c.toolCallId = toolCallId then { c with state := state } :: cs
    else c :: setBlockState toolCallId state cs

namespace AgentMessageList

/-- A message has a block of the call. -/
def hosts (list : AgentMessageList I S) (toolCallId : I) : Bool := list.any (·.hosts toolCallId)

/-- `setToolCallResult` and `setToolCallError`. The host is looked for from the end. -/
def setToolCallState (toolCallId : I) (state : ToolCallState S) :
    AgentMessageList I S → AgentMessageList I S
  | [] => []
  | m :: ms =>
    if hosts ms toolCallId then m :: setToolCallState toolCallId state ms
    else if m.hosts toolCallId then
      { content := setBlockState toolCallId state m.content, isResponse := true } :: ms
    else m :: ms

/-- The state of the block that a change of the call would be made to. -/
def toolCallState (toolCallId : I) : AgentMessageList I S → Option (ToolCallState S)
  | [] => none
  | m :: ms =>
    if hosts ms toolCallId then toolCallState toolCallId ms
    else (m.content.find? fun c => c.toolCallId = toolCallId).map (·.state)

/-- `addInput` and `addResponse` of a message without tool calls. It is the last one, since its
time is later than that of the others. -/
def addMessage (list : AgentMessageList I S) (isResponse : Bool) : AgentMessageList I S :=
  list ++ [{ isResponse := isResponse }]

omit [DecidableEq I] in
def responseDelta (list : AgentMessageList I S) : AgentMessageList I S :=
  list.filter (·.isResponse)

def findSettledToolCall (list : AgentMessageList I S) (toolCallId : I) :
    Option (ContentToolCall I S) :=
  (list.responseDelta.flatMap (·.content)).find? fun c =>
    c.toolCallId = toolCallId && !c.state.isPending

/-! ## Calls that are not settled -/

/-- No block of the call is settled, and there is one. -/
structure IsUnsettled (list : AgentMessageList I S) (toolCallId : I) : Prop where
  hosted : list.hosts toolCallId = true
  pending : ∀ m ∈ list, ∀ c ∈ m.content, c.toolCallId = toolCallId → c.state.isPending = true

def IsSettled (list : AgentMessageList I S) (toolCallId : I) : Prop :=
  ∃ result, list.toolCallState toolCallId = some (.settled result)

variable {list : AgentMessageList I S} {toolCallId : I}

theorem IsUnsettled.findSettledToolCall (h : list.IsUnsettled toolCallId) :
    list.findSettledToolCall toolCallId = none := by
  refine List.find?_eq_none.mpr fun c hc => ?_
  obtain ⟨m, hm, hc⟩ := List.mem_flatMap.mp hc
  simp only [Bool.and_eq_true, decide_eq_true_eq, Bool.not_eq_true', not_and, Bool.not_eq_false]
  exact h.pending m (List.mem_filter.mp hm).1 c hc

variable {state : ToolCallState S}

theorem exists_mem_of_toolCallState (h : list.toolCallState toolCallId = some state) :
    ∃ m ∈ list, ∃ c ∈ m.content, c.toolCallId = toolCallId ∧ c.state = state := by
  induction list with
  | nil => cases h
  | cons m ms ih =>
    rw [toolCallState] at h
    split at h
    · obtain ⟨m', hm', hc⟩ := ih h
      exact ⟨m', List.mem_cons_of_mem _ hm', hc⟩
    · obtain ⟨c, hc, hstate⟩ := Option.map_eq_some_iff.mp h
      have hid := List.find?_some hc
      exact ⟨m, List.mem_cons_self, c, List.mem_of_find?_eq_some hc, by simpa using hid, hstate⟩

theorem IsUnsettled.not_isSettled (h : list.IsUnsettled toolCallId) :
    ¬list.IsSettled toolCallId := by
  rintro ⟨result, hresult⟩
  obtain ⟨m, hm, c, hc, hid, hstate⟩ := exists_mem_of_toolCallState hresult
  have hpending := h.pending m hm c hc hid
  rw [hstate] at hpending
  cases hpending

/-! ## Changes of a call -/

variable {content : List (ContentToolCall I S)}

theorem hosts_setBlockState {other : I} :
    (setBlockState toolCallId state content).any (fun c => decide (c.toolCallId = other)) =
      content.any fun c => decide (c.toolCallId = other) := by
  induction content with
  | nil => rfl
  | cons c cs ih =>
    rw [setBlockState]
    split
    · rfl
    · rw [List.any_cons, List.any_cons, ih]

theorem hosts_setToolCallState {other : I} :
    (list.setToolCallState toolCallId state).hosts other = list.hosts other := by
  induction list with
  | nil => rfl
  | cons m ms ih =>
    rw [setToolCallState]
    split
    · rw [hosts, List.any_cons, hosts, List.any_cons]
      exact congrArg _ ih
    · split
      · rw [hosts, List.any_cons, hosts, List.any_cons]
        exact congrArg (· || _) hosts_setBlockState
      · rfl

theorem find?_setBlockState_self
    (h : content.any (fun c => decide (c.toolCallId = toolCallId)) = true) :
    ((setBlockState toolCallId state content).find? fun c => c.toolCallId = toolCallId).map
      (·.state) = some state := by
  induction content with
  | nil => cases h
  | cons c cs ih =>
    rw [setBlockState]
    split
    · rename_i hc
      rw [List.find?_cons_of_pos (by simpa using hc)]
      rfl
    · rename_i hc
      rw [List.find?_cons_of_neg (by simpa using hc)]
      exact ih (by simpa [hc] using h)

theorem find?_setBlockState_of_ne {other : I} (hne : other ≠ toolCallId) :
    (setBlockState toolCallId state content).find? (fun c => decide (c.toolCallId = other)) =
      content.find? fun c => c.toolCallId = other := by
  induction content with
  | nil => rfl
  | cons c cs ih =>
    rw [setBlockState]
    split
    · rename_i hc
      have hother : c.toolCallId ≠ other := fun h => hne (h.symm.trans hc)
      rw [List.find?_cons_of_neg (by simpa using hother),
        List.find?_cons_of_neg (by simpa using hother)]
    · rw [List.find?_cons, List.find?_cons, ih]

theorem toolCallState_setToolCallState (h : list.hosts toolCallId = true) :
    (list.setToolCallState toolCallId state).toolCallState toolCallId = some state := by
  induction list with
  | nil => cases h
  | cons m ms ih =>
    rw [setToolCallState]
    split
    · rename_i hms
      rw [toolCallState, if_pos (hosts_setToolCallState.trans hms)]
      exact ih hms
    · rename_i hms
      have hm : m.hosts toolCallId = true := by
        rw [hosts, List.any_cons, Bool.or_eq_true] at h
        exact h.resolve_right hms
      rw [if_pos hm, toolCallState, if_neg hms]
      exact find?_setBlockState_self hm

theorem toolCallState_setToolCallState_of_ne {other : I} (hne : other ≠ toolCallId) :
    (list.setToolCallState toolCallId state).toolCallState other =
      list.toolCallState other := by
  induction list with
  | nil => rfl
  | cons m ms ih =>
    rw [setToolCallState]
    split
    · rw [toolCallState, toolCallState, hosts_setToolCallState, ih]
    · split
      · rw [toolCallState, toolCallState, find?_setBlockState_of_ne hne]
      · rfl

theorem mem_setBlockState {c : ContentToolCall I S} (hne : c.toolCallId ≠ toolCallId) :
    c ∈ setBlockState toolCallId state content ↔
      c ∈ content := by
  induction content with
  | nil => rfl
  | cons d ds ih =>
    rw [setBlockState]
    split
    · rename_i hd
      rw [List.mem_cons, List.mem_cons]
      refine or_congr ⟨?_, ?_⟩ Iff.rfl
      · rintro rfl
        exact absurd hd hne
      · rintro rfl
        exact absurd hd hne
    · rw [List.mem_cons, List.mem_cons, ih]

/-- The lists have the same to say about the call. -/
structure SameCall (list list' : AgentMessageList I S) (toolCallId : I) : Prop where
  hosted : list'.hosts toolCallId = list.hosts toolCallId
  state : list'.toolCallState toolCallId = list.toolCallState toolCallId
  pending : (∀ m ∈ list', ∀ c ∈ m.content, c.toolCallId = toolCallId → c.state.isPending = true) ↔
    ∀ m ∈ list, ∀ c ∈ m.content, c.toolCallId = toolCallId → c.state.isPending = true

theorem SameCall.refl (list : AgentMessageList I S) (toolCallId : I) :
    SameCall list list toolCallId := ⟨rfl, rfl, Iff.rfl⟩

theorem SameCall.trans {list₁ list₂ list₃ : AgentMessageList I S}
    (h : SameCall list₁ list₂ toolCallId) (h' : SameCall list₂ list₃ toolCallId) :
    SameCall list₁ list₃ toolCallId :=
  ⟨h'.hosted.trans h.hosted, h'.state.trans h.state, h'.pending.trans h.pending⟩

theorem SameCall.isUnsettled {list' : AgentMessageList I S} (h : SameCall list list' toolCallId)
    (hunsettled : list.IsUnsettled toolCallId) :
    list'.IsUnsettled toolCallId :=
  ⟨h.hosted.trans hunsettled.hosted, h.pending.mpr hunsettled.pending⟩

theorem SameCall.isSettled {list' : AgentMessageList I S} (h : SameCall list list' toolCallId)
    (hsettled : list.IsSettled toolCallId) :
    list'.IsSettled toolCallId := by
  obtain ⟨result, hresult⟩ := hsettled
  exact ⟨result, h.state.trans hresult⟩

theorem setToolCallState_sameCall {other : I} (hne : other ≠ toolCallId) :
    SameCall list (list.setToolCallState toolCallId state) other := by
  refine ⟨hosts_setToolCallState, toolCallState_setToolCallState_of_ne hne, ?_⟩
  induction list with
  | nil => rfl
  | cons m ms ih =>
    rw [setToolCallState]
    split
    · rw [List.forall_mem_cons, List.forall_mem_cons, ih]
    · split
      · rw [List.forall_mem_cons, List.forall_mem_cons]
        refine and_congr (forall_congr' fun c => ?_) Iff.rfl
        constructor
        · intro h hc hid
          exact h ((mem_setBlockState (hid ▸ hne)).mpr hc) hid
        · intro h hc hid
          exact h ((mem_setBlockState (hid ▸ hne)).mp hc) hid
      · rfl

theorem hosts_addMessage {isResponse : Bool} :
    (list.addMessage isResponse).hosts toolCallId = list.hosts toolCallId := by
  rw [addMessage, hosts, List.any_append]
  exact Bool.or_false _

theorem addMessage_sameCall {isResponse : Bool} :
    SameCall list (list.addMessage isResponse) toolCallId := by
  refine ⟨hosts_addMessage, ?_, ?_⟩
  · induction list with
    | nil => rfl
    | cons m ms ih =>
      rw [addMessage, List.cons_append, toolCallState, toolCallState, ← addMessage,
        hosts_addMessage, ih]
  · rw [addMessage, List.forall_mem_append]
    refine and_iff_left fun m hm c hc => ?_
    rw [List.mem_singleton.mp hm] at hc
    cases hc

theorem IsSettled.of_set {result : S} (h : list.hosts toolCallId = true) :
    (list.setToolCallState toolCallId (.settled result)).IsSettled toolCallId :=
  ⟨result, toolCallState_setToolCallState h⟩

end AgentMessageList

end N8n
