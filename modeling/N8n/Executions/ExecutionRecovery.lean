import Mathlib.Data.List.Dedup
import Mathlib.Data.List.Induction
import N8n.Interfaces

/-!
# Recovering an execution from its log

`amend` completes a truncated execution with what its log messages tell : each node of the workflow
that was started and has no run data gets some, and the execution is said to have stopped with the
last of these nodes. The nodes are taken in the order of the workflow, while the messages are in
the order of time.

So the execution stops at its latest message exactly if the node that is last in the workflow is
also last in time (`amendsToLatest_iff`). A name that every object inherits makes `amend` throw.
-/

open Lib

namespace N8n

/-! ## Messages and executions -/

/-- A message of the log. `nodeName` is that of the payload, and `ts` is in milliseconds. -/
structure EventMessage where
  eventName : String
  nodeName : String := ""
  ts : ℤ
  deriving DecidableEq, Repr

def isNodeEventMessage (message : EventMessage) : Bool :=
  "n8n.node.".toList.isPrefixOf message.eventName.toList

def isStartedMessage (message : EventMessage) : Bool := message.eventName = "n8n.node.started"

def isFinishedMessage (message : EventMessage) : Bool := message.eventName = "n8n.node.finished"

inductive RecoveryError (E : Type) where
  | nodeCrashed (node : INode)
  | workflowCrashed
  | other (error : E)

/-- One run of a node, with data of `D` and errors of `E`. -/
structure RecoveryTaskData (D E : Type) where
  startTime : ℤ
  executionIndex : ℕ
  executionTime : ℤ
  executionStatus : Option ExecutionStatus := none
  source : List (Option ISourceData)
  data : Option D := none
  error : Option (RecoveryError E) := none

/-- `resultData`, of which `runData` may be missing. -/
structure RecoveryResultData (D E : Type) where
  runData : Option (OrderedMap String (List (RecoveryTaskData D E))) := none
  lastNodeExecuted : Option String := none
  error : Option (RecoveryError E) := none

structure IExecutionResponse (D E : Type) where
  status : ExecutionStatus
  stoppedAt : Option ℤ := none
  nodes : List INode
  data : Option (RecoveryResultData D E) := none

variable {D E : Type}

/-- `runData` of the execution, if there is any. -/
def IExecutionResponse.runData (execution : IExecutionResponse D E) :
    OrderedMap String (List (RecoveryTaskData D E)) :=
  (execution.data.bind (·.runData)).getD ∅

/-! ## Amending -/

structure RelevantMessages where
  nodeMessagesByName : OrderedMap String (List EventMessage) := ∅
  workflowMessages : List EventMessage := []

/-- A name that is inherited has no list of messages, but is not undefined either, and pushing to
what it has throws. -/
def RelevantMessages.add (acc : RelevantMessages) (cur : EventMessage) :
    Except Unit RelevantMessages :=
  if isNodeEventMessage cur then
    if cur.nodeName ∈ objectPrototypeKeys then .error ()
    else
      .ok { acc with
        nodeMessagesByName := acc.nodeMessagesByName.set cur.nodeName
          ((acc.nodeMessagesByName.get? cur.nodeName).getD [] ++ [cur]) }
  else if "n8n.workflow.".toList.isPrefixOf cur.eventName.toList then
    .ok { acc with workflowMessages := acc.workflowMessages ++ [cur] }
  else .ok acc

def toRelevantMessages (messages : List EventMessage) : Except Unit RelevantMessages :=
  messages.foldlM RelevantMessages.add {}

def WORKFLOW_END_EVENTS : List String :=
  ["n8n.workflow.success", "n8n.workflow.crashed", "n8n.workflow.failed"]

def toStoppedAt (timestamp : Option ℤ) (messages : List EventMessage) : Option ℤ :=
  timestamp.or
    (((messages.find? (·.eventName ∈ WORKFLOW_END_EVENTS)).or
      (messages.find? (·.eventName = "n8n.workflow.started"))).map EventMessage.ts)

/-- What the loop over the nodes changes. -/
structure Recovery (D E : Type) where
  resultData : RecoveryResultData D E
  runData : OrderedMap String (List (RecoveryTaskData D E))
  lastNodeRunTimestamp : Option ℤ := none

section Amending

-- the output of a node of which only the end is known
variable (ARTIFICIAL_TASK_DATA : D)

/-- The run data of a node, and the time of the message it ends with. -/
def recoveredTask (node : INode) (started : EventMessage) (finished : Option EventMessage) :
    RecoveryTaskData D E × ℤ :=
  let taskData : RecoveryTaskData D E :=
    { startTime := started.ts / 1000, executionIndex := 0, executionTime := -1, source := [none] }
  match finished with
  | some finished =>
    ({ taskData with
        executionStatus := some .success
        data := some ARTIFICIAL_TASK_DATA
        executionTime := finished.ts - started.ts }, finished.ts)
  | none =>
    ({ taskData with
        executionStatus := some .crashed
        error := some (.nodeCrashed node)
        executionTime := 0 }, started.ts)

/-- The loop body. Searching the messages of an inherited name throws. -/
def recoverNode (nodeMessagesByName : OrderedMap String (List EventMessage))
    (state : Recovery D E) (node : INode) : Except Unit (Recovery D E) :=
  if node.name ∈ objectPrototypeKeys then .error ()
  else
    let nodeMessages := (nodeMessagesByName.get? node.name).getD []
    match nodeMessages.find? (fun m => m.nodeName = node.name ∧ isStartedMessage m) with
    | none => .ok state
    | some started =>
      if state.runData.has node.name then .ok state
      else
        let finished := nodeMessages.find? fun m => m.nodeName = node.name ∧ isFinishedMessage m
        let (taskData, timestamp) := recoveredTask ARTIFICIAL_TASK_DATA node started finished
        .ok
          { resultData :=
              { state.resultData with
                lastNodeExecuted := some node.name
                error := if finished.isSome then state.resultData.error else some .workflowCrashed }
            runData := state.runData.set node.name [taskData]
            lastNodeRunTimestamp := some timestamp }

/-- Marks an execution that is under way as crashed. -/
def amendWithoutLogs (now : ℤ) (execution : IExecutionResponse D E) : IExecutionResponse D E :=
  if execution.status ∈ [.new, .running, .unknown] then
    { execution with status := .crashed, stoppedAt := some now }
  else execution

/-- `amend` of an execution that is there, or `none` if there is nothing to amend. -/
def amend (now : ℤ) (execution : IExecutionResponse D E) (messages : List EventMessage) :
    Except Unit (Option (IExecutionResponse D E)) :=
  if messages = [] then .ok (some (amendWithoutLogs now execution))
  else
    (toRelevantMessages messages).bind fun relevant =>
      if relevant.nodeMessagesByName.keys = [] then .ok none
      else if execution.status ∈ [.success, .error, .canceled] ∧ execution.data.isSome then .ok none
      else
        let state : Recovery D E :=
          { resultData := execution.data.getD {}, runData := execution.runData }
        (execution.nodes.foldlM (recoverNode ARTIFICIAL_TASK_DATA relevant.nodeMessagesByName)
            state).map fun state =>
          some { execution with
            status := if execution.status = .error then .error else .crashed
            stoppedAt := toStoppedAt state.lastNodeRunTimestamp relevant.workflowMessages
            data := some { state.resultData with runData := some state.runData } }

end Amending

/-! ## What is recovered -/

def startedMessage (messages : List EventMessage) (name : String) : Option EventMessage :=
  messages.find? fun m => m.nodeName = name ∧ isStartedMessage m

def finishedMessage (messages : List EventMessage) (name : String) : Option EventMessage :=
  messages.find? fun m => m.nodeName = name ∧ isFinishedMessage m

/-- The message a recovered node ends with. -/
def endMessage (messages : List EventMessage) (name : String) : Option EventMessage :=
  (finishedMessage messages name).or (startedMessage messages name)

/-- The messages about the node. -/
def nodeMessages (messages : List EventMessage) (name : String) : List EventMessage :=
  messages.filter fun m => isNodeEventMessage m ∧ m.nodeName = name

/-- A node with the name was started and has no run data. -/
def isRecovered (execution : IExecutionResponse D E) (messages : List EventMessage)
    (name : String) : Bool :=
  (startedMessage messages name).isSome ∧ (execution.runData.get? name).isNone

/-- The recovered nodes, the last of the workflow first. -/
def recoveredNames (execution : IExecutionResponse D E) (messages : List EventMessage)
    (names : List String) : List String :=
  (names.filter (isRecovered execution messages)).reverse.dedup

variable {execution amended : IExecutionResponse D E} {messages : List EventMessage}
  {name : String} {names : List String}

theorem recoveredNames_append_singleton_of_new (h : isRecovered execution messages name = true)
    (hnew : name ∉ names) : recoveredNames execution messages (names ++ [name]) =
      name :: recoveredNames execution messages names := by
  have hmem : name ∉ (names.filter (isRecovered execution messages)).reverse := fun hmem =>
    hnew (List.mem_of_mem_filter (List.mem_reverse.mp hmem))
  rw [recoveredNames, List.filter_append, List.filter_cons_of_pos h, List.filter_nil,
    List.reverse_append, List.reverse_singleton, List.singleton_append,
    List.dedup_cons_of_notMem hmem, recoveredNames]

theorem recoveredNames_append_singleton_of_old
    (h : isRecovered execution messages name = true → name ∈ names) :
    recoveredNames execution messages (names ++ [name]) = recoveredNames execution messages names := by
  by_cases hrecovered : isRecovered execution messages name = true
  · have hmem : name ∈ (names.filter (isRecovered execution messages)).reverse :=
      List.mem_reverse.mpr (List.mem_filter.mpr ⟨h hrecovered, hrecovered⟩)
    rw [recoveredNames, List.filter_append, List.filter_cons_of_pos hrecovered, List.filter_nil,
      List.reverse_append, List.reverse_singleton, List.singleton_append,
      List.dedup_cons_of_mem hmem, recoveredNames]
  · rw [recoveredNames, List.filter_append, List.filter_cons_of_neg hrecovered, List.filter_nil,
      List.append_nil, recoveredNames]

theorem mem_recoveredNames : name ∈ recoveredNames execution messages names ↔
    name ∈ names ∧ isRecovered execution messages name = true := by
  rw [recoveredNames, List.mem_dedup, List.mem_reverse, List.mem_filter]

/-! ## Messages by name -/

variable {m : EventMessage}

theorem isNodeEventMessage_of_started (h : isStartedMessage m = true) :
    isNodeEventMessage m = true := by
  rw [isNodeEventMessage, of_decide_eq_true h]
  decide

theorem isNodeEventMessage_of_finished (h : isFinishedMessage m = true) :
    isNodeEventMessage m = true := by
  rw [isNodeEventMessage, of_decide_eq_true h]
  decide

theorem find?_nodeMessages {p : EventMessage → Bool}
    (h : ∀ m, p m = true → isNodeEventMessage m = true) :
    ((nodeMessages messages name).find? fun m => m.nodeName = name ∧ p m) =
      messages.find? fun m => m.nodeName = name ∧ p m := by
  rw [nodeMessages, List.find?_filter]
  congr 1
  funext m
  by_cases hp : p m = true
  · simp [hp, h m hp]
  · simp [hp]

theorem finishedMessage_spec (h : finishedMessage messages name = some m) :
    m ∈ messages ∧ m.nodeName = name ∧ isFinishedMessage m = true := by
  rw [finishedMessage] at h
  exact ⟨List.mem_of_find?_eq_some h, by simpa using List.find?_some h⟩

theorem startedMessage_spec (h : startedMessage messages name = some m) :
    m ∈ messages ∧ m.nodeName = name ∧ isStartedMessage m = true := by
  rw [startedMessage] at h
  exact ⟨List.mem_of_find?_eq_some h, by simpa using List.find?_some h⟩

theorem mem_nodeMessages : m ∈ nodeMessages messages name ↔
    m ∈ messages ∧ isNodeEventMessage m = true ∧ m.nodeName = name := by
  rw [nodeMessages, List.mem_filter, decide_eq_true_iff]

theorem endMessage_mem (h : endMessage messages name = some m) :
    m ∈ nodeMessages messages name := by
  rcases Option.or_eq_some_iff.mp h with h | ⟨-, h⟩
  · obtain ⟨hmem, hname, hfinished⟩ := finishedMessage_spec h
    exact mem_nodeMessages.mpr ⟨hmem, isNodeEventMessage_of_finished hfinished, hname⟩
  · obtain ⟨hmem, hname, hstarted⟩ := startedMessage_spec h
    exact mem_nodeMessages.mpr ⟨hmem, isNodeEventMessage_of_started hstarted, hname⟩

/-- The messages are listed by name. -/
structure RelevantMessages.Lists (messages : List EventMessage) (relevant : RelevantMessages) :
    Prop where
  names : ∀ m ∈ messages, isNodeEventMessage m = true → m.nodeName ∉ objectPrototypeKeys
  get? : ∀ name, (relevant.nodeMessagesByName.get? name).getD [] = nodeMessages messages name
  keys : relevant.nodeMessagesByName.keys = [] ↔ ∀ m ∈ messages, isNodeEventMessage m = false

theorem nodeMessages_append (messages : List EventMessage) (cur : EventMessage) (name : String) :
    nodeMessages (messages ++ [cur]) name = nodeMessages messages name ++
      if isNodeEventMessage cur = true ∧ cur.nodeName = name then [cur] else [] := by
  rw [nodeMessages, List.filter_append, nodeMessages, List.filter_cons]
  simp only [decide_eq_true_iff, List.filter_nil]

theorem RelevantMessages.Lists.add {relevant : RelevantMessages} (h : relevant.Lists messages)
    (cur : EventMessage) :
    (∃ next, relevant.add cur = .ok next ∧ next.Lists (messages ++ [cur])) ∨
      relevant.add cur = .error () ∧ isNodeEventMessage cur = true ∧
        cur.nodeName ∈ objectPrototypeKeys := by
  rw [RelevantMessages.add]
  by_cases hnode : isNodeEventMessage cur = true
  · rw [if_pos hnode]
    by_cases hinherited : cur.nodeName ∈ objectPrototypeKeys
    · exact .inr ⟨if_pos hinherited, hnode, hinherited⟩
    · refine .inl ⟨_, if_neg hinherited, ?_, ?_, ?_⟩
      · intro m hm hevent
        rcases List.mem_append.mp hm with hm | hm
        · exact h.names m hm hevent
        · rwa [List.mem_singleton.mp hm]
      · intro name
        rw [nodeMessages_append, OrderedMap.get?_set]
        by_cases hname : cur.nodeName = name
        · subst hname
          rw [if_pos rfl, if_pos ⟨hnode, rfl⟩, Option.getD_some, h.get?]
        · rw [if_neg hname, if_neg fun hand => hname hand.2, List.append_nil, h.get?]
      · refine iff_of_false (fun hempty => ?_) fun hall => ?_
        · dsimp only at hempty
          exact List.not_mem_nil (hempty ▸ OrderedMap.mem_keys_set.mpr (.inl rfl))
        · rw [hall cur (by simp)] at hnode
          cases hnode
  · rw [if_neg hnode]
    have hlists : ∀ workflowMessages, RelevantMessages.Lists (messages ++ [cur])
        { relevant with workflowMessages } := by
      refine fun workflowMessages => ⟨?_, ?_, ?_⟩
      · intro m hm hevent
        rcases List.mem_append.mp hm with hm | hm
        · exact h.names m hm hevent
        · rw [List.mem_singleton.mp hm] at hevent
          exact absurd hevent hnode
      · intro name
        rw [nodeMessages_append, if_neg fun hand => hnode hand.1, List.append_nil]
        exact h.get? name
      · rw [h.keys, List.forall_mem_append, List.forall_mem_singleton,
          and_iff_left (Bool.not_eq_true _ ▸ hnode)]
    refine .inl ?_
    split
    · exact ⟨_, rfl, hlists _⟩
    · exact ⟨_, rfl, hlists _⟩

theorem toRelevantMessages_spec (messages : List EventMessage) :
    (∃ relevant, toRelevantMessages messages = .ok relevant ∧ relevant.Lists messages) ∨
      toRelevantMessages messages = .error () ∧
        ∃ m ∈ messages, isNodeEventMessage m = true ∧ m.nodeName ∈ objectPrototypeKeys := by
  induction messages using List.reverseRecOn with
  | nil => exact .inl ⟨{}, rfl, nofun, fun _ => rfl, iff_of_true rfl nofun⟩
  | append_singleton messages cur ih =>
    rw [toRelevantMessages, List.foldlM_append, ← toRelevantMessages]
    rcases ih with ⟨relevant, hrelevant, hlists⟩ | ⟨herror, m, hm, hevent, hinherited⟩
    · rw [hrelevant]
      have hsingle : ((Except.ok relevant : Except Unit RelevantMessages) >>= fun init =>
          [cur].foldlM RelevantMessages.add init) = relevant.add cur :=
        bind_pure (relevant.add cur)
      rw [hsingle]
      rcases hlists.add cur with hnext | ⟨herror, hevent, hinherited⟩
      · exact .inl hnext
      · exact .inr ⟨herror, cur, by simp, hevent, hinherited⟩
    · rw [herror]
      exact .inr ⟨rfl, m, List.mem_append_left _ hm, hevent, hinherited⟩

/-! ## The loop over the nodes -/

/-- How far the loop has come after the nodes with these names. -/
structure Recovery.Progress (execution : IExecutionResponse D E) (messages : List EventMessage)
    (seen : List String) (state : Recovery D E) : Prop where
  saved : ∀ name runs, execution.runData.get? name = some runs → state.runData.get? name = some runs
  added : ∀ name, execution.runData.get? name = none →
    (name ∈ state.runData.keys ↔ name ∈ recoveredNames execution messages seen)
  status : ∀ name ∈ recoveredNames execution messages seen, ∃ taskData,
    state.runData.get? name = some [taskData] ∧
      (taskData.executionStatus = some .crashed ↔ finishedMessage messages name = none)
  last : ∀ name, (recoveredNames execution messages seen).head? = some name →
    state.resultData.lastNodeExecuted = some name ∧
      state.lastNodeRunTimestamp = (endMessage messages name).map EventMessage.ts

variable {ARTIFICIAL_TASK_DATA : D} {state : Recovery D E} {seen : List String}
  {nodeMessagesByName : OrderedMap String (List EventMessage)}

theorem Recovery.Progress.recoverNode (ARTIFICIAL_TASK_DATA : D)
    (h : state.Progress execution messages seen)
    (hlists : ∀ name, (nodeMessagesByName.get? name).getD [] = nodeMessages messages name)
    {node : INode} (hname : node.name ∉ objectPrototypeKeys) :
    ∃ next, recoverNode ARTIFICIAL_TASK_DATA nodeMessagesByName state node = .ok next ∧
      next.Progress execution messages (seen ++ [node.name]) := by
  have hstarted : ((nodeMessages messages node.name).find? fun m =>
      m.nodeName = node.name ∧ isStartedMessage m) = startedMessage messages node.name :=
    find?_nodeMessages fun _ => isNodeEventMessage_of_started
  have hfinished : ((nodeMessages messages node.name).find? fun m =>
      m.nodeName = node.name ∧ isFinishedMessage m) = finishedMessage messages node.name :=
    find?_nodeMessages fun _ => isNodeEventMessage_of_finished
  rw [N8n.recoverNode, if_neg hname]
  simp only [hlists, hstarted, hfinished]
  have hold : ∀ next : Recovery D E, next = state →
      (isRecovered execution messages node.name = true → node.name ∈ seen) →
      next.Progress execution messages (seen ++ [node.name]) := by
    rintro next rfl hmem
    have hnames := recoveredNames_append_singleton_of_old hmem
    exact ⟨h.saved, by rw [hnames]; exact h.added, by rw [hnames]; exact h.status,
      by rw [hnames]; exact h.last⟩
  cases hmessage : startedMessage messages node.name with
  | none =>
    refine ⟨state, rfl, hold state rfl fun hrecovered => ?_⟩
    rw [isRecovered, hmessage] at hrecovered
    simp at hrecovered
  | some started =>
    dsimp only
    by_cases hhas : state.runData.has node.name = true
    · rw [if_pos hhas]
      refine ⟨state, rfl, hold state rfl fun hrecovered => ?_⟩
      have hfresh : execution.runData.get? node.name = none :=
        Option.isNone_iff_eq_none.mp (of_decide_eq_true hrecovered).2
      exact (mem_recoveredNames.mp ((h.added _ hfresh).mp (OrderedMap.has_iff.mp hhas))).1
    · rw [if_neg hhas]
      have hnotMem : node.name ∉ state.runData.keys := fun hmem => hhas (OrderedMap.has_iff.mpr hmem)
      have hfresh : execution.runData.get? node.name = none := by
        cases hruns : execution.runData.get? node.name with
        | none => rfl
        | some runs =>
          exact absurd (OrderedMap.mem_keys_iff.mpr ⟨runs, h.saved _ runs hruns⟩) hnotMem
      have hrecovered : isRecovered execution messages node.name = true := by
        simp [isRecovered, hmessage, hfresh]
      have hnew : node.name ∉ seen := fun hmem =>
        hnotMem ((h.added _ hfresh).mpr (mem_recoveredNames.mpr ⟨hmem, hrecovered⟩))
      have hnames := recoveredNames_append_singleton_of_new hrecovered hnew
      refine ⟨_, rfl, ?_, ?_, ?_, ?_⟩
      · intro name runs hruns
        have hne : node.name ≠ name := by
          rintro rfl
          rw [hfresh] at hruns
          cases hruns
        rw [OrderedMap.get?_set_of_ne _ _ hne]
        exact h.saved name runs hruns
      · intro name hnone
        rw [OrderedMap.mem_keys_set, hnames, List.mem_cons, h.added name hnone, eq_comm]
      · rw [hnames]
        intro name hmem
        by_cases hsame : node.name = name
        · subst hsame
          refine ⟨_, OrderedMap.get?_set_self _ _ _, ?_⟩
          cases finishedMessage messages node.name with
          | none => exact iff_of_true rfl rfl
          | some finished => exact iff_of_false (by simp [recoveredTask]) (by simp)
        · rw [OrderedMap.get?_set_of_ne _ _ hsame]
          exact h.status name ((List.mem_cons.mp hmem).resolve_left fun heq => hsame heq.symm)
      · rw [hnames]
        intro name hhead
        obtain rfl := Option.some.inj hhead
        refine ⟨rfl, ?_⟩
        rw [endMessage, hmessage]
        cases finishedMessage messages node.name with
        | none => rfl
        | some finished => rfl

theorem foldlM_recoverNode (nodes : List INode)
    (hlists : ∀ name, (nodeMessagesByName.get? name).getD [] = nodeMessages messages name)
    (hstate : state.Progress execution messages []) :
    (∃ next, nodes.foldlM (recoverNode ARTIFICIAL_TASK_DATA nodeMessagesByName) state = .ok next ∧
        (∀ node ∈ nodes, node.name ∉ objectPrototypeKeys) ∧
          next.Progress execution messages (nodes.map (·.name))) ∨
      nodes.foldlM (recoverNode ARTIFICIAL_TASK_DATA nodeMessagesByName) state = .error () ∧
        ∃ node ∈ nodes, node.name ∈ objectPrototypeKeys := by
  induction nodes using List.reverseRecOn with
  | nil => exact .inl ⟨state, rfl, fun _ h => absurd h List.not_mem_nil, hstate⟩
  | append_singleton nodes node ih =>
    rw [List.foldlM_append, List.map_append, List.map_singleton]
    rcases ih with ⟨next, hnext, hnames, hprogress⟩ | ⟨herror, node', hmem, hinherited⟩
    · have hsingle : ((Except.ok next : Except Unit (Recovery D E)) >>= fun init =>
          [node].foldlM (recoverNode ARTIFICIAL_TASK_DATA nodeMessagesByName) init) =
            recoverNode ARTIFICIAL_TASK_DATA nodeMessagesByName next node :=
        bind_pure (recoverNode ARTIFICIAL_TASK_DATA nodeMessagesByName next node)
      rw [hnext, hsingle]
      by_cases hinherited : node.name ∈ objectPrototypeKeys
      · exact .inr ⟨if_pos hinherited, node, by simp, hinherited⟩
      · obtain ⟨last, hlast, hprogress'⟩ :=
          hprogress.recoverNode ARTIFICIAL_TASK_DATA hlists hinherited
        refine .inl ⟨last, hlast, ?_, hprogress'⟩
        rw [List.forall_mem_append, List.forall_mem_singleton]
        exact ⟨hnames, hinherited⟩
    · rw [herror]
      exact .inr ⟨rfl, node', List.mem_append_left _ hmem, hinherited⟩

/-! ## The end of the execution -/

/-- A node of the workflow that is recovered. -/
def RecoversName (execution : IExecutionResponse D E) (messages : List EventMessage)
    (name : String) : Prop :=
  name ∈ recoveredNames execution messages (execution.nodes.map (·.name))

/-- What was saved is kept, exactly the recovered nodes have new run data, and if there are any, the
execution has stopped with the message of one of them that no message of another is later than. -/
structure StopsAtLatest (execution : IExecutionResponse D E) (messages : List EventMessage)
    (amended : IExecutionResponse D E) : Prop where
  saved : ∀ name runs, execution.runData.get? name = some runs →
    amended.runData.get? name = some runs
  added : ∀ name, execution.runData.get? name = none →
    (name ∈ amended.runData.keys ↔ RecoversName execution messages name)
  status : ∀ name, RecoversName execution messages name → ∃ taskData,
    amended.runData.get? name = some [taskData] ∧
      (taskData.executionStatus = some .crashed ↔ finishedMessage messages name = none)
  latest : (∃ name, RecoversName execution messages name) →
    ∃ name last, RecoversName execution messages name ∧ last ∈ nodeMessages messages name ∧
      amended.data.bind (·.lastNodeExecuted) = some name ∧ amended.stoppedAt = some last.ts ∧
        ∀ other, RecoversName execution messages other →
          ∀ m ∈ nodeMessages messages other, m.ts ≤ last.ts

/-- `amend` returns, and what it returns has the properties. -/
def AmendsToLatest (ARTIFICIAL_TASK_DATA : D) (now : ℤ) (execution : IExecutionResponse D E)
    (messages : List EventMessage) : Prop :=
  ∃ result, amend ARTIFICIAL_TASK_DATA now execution messages = .ok result ∧
    ∀ amended ∈ result, StopsAtLatest execution messages amended

/-- No node that is looked up has a name that every object inherits. -/
structure OwnNames (execution : IExecutionResponse D E) (messages : List EventMessage) : Prop where
  ofMessages : ∀ m ∈ messages, isNodeEventMessage m = true → m.nodeName ∉ objectPrototypeKeys
  ofNodes : (∃ m ∈ messages, isNodeEventMessage m = true) →
    ∀ node ∈ execution.nodes, node.name ∉ objectPrototypeKeys

/-- No message of a recovered node is later than the message the last of them in the workflow ends
with. -/
def LastIsLatest (execution : IExecutionResponse D E) (messages : List EventMessage) : Prop :=
  ∀ name, (recoveredNames execution messages (execution.nodes.map (·.name))).head? = some name →
    ∀ last, endMessage messages name = some last →
      ∀ other, RecoversName execution messages other →
        ∀ m ∈ nodeMessages messages other, m.ts ≤ last.ts

theorem endMessage_isSome (h : RecoversName execution messages name) :
    ∃ last, endMessage messages name = some last := by
  have hrecovered := (mem_recoveredNames.mp h).2
  obtain ⟨started, hstarted⟩ := Option.isSome_iff_exists.mp (of_decide_eq_true hrecovered).1
  rw [endMessage, hstarted]
  cases finishedMessage messages name with
  | none => exact ⟨started, rfl⟩
  | some finished => exact ⟨finished, rfl⟩

theorem not_recoversName (h : ∀ m ∈ messages, isNodeEventMessage m = false) :
    ¬RecoversName execution messages name := by
  intro hname
  obtain ⟨last, hlast⟩ := endMessage_isSome hname
  obtain ⟨hmem, hevent, -⟩ := mem_nodeMessages.mp (endMessage_mem hlast)
  rw [h last hmem] at hevent
  cases hevent

theorem lastIsLatest_of_not_recoversName (h : ∀ name, ¬RecoversName execution messages name) :
    LastIsLatest execution messages :=
  fun name hname => absurd (List.mem_of_head? hname) (h name)

/-- What the loop leaves stops at the latest message exactly if the last node has it. -/
theorem Recovery.Progress.stopsAtLatest_iff
    (h : state.Progress execution messages (execution.nodes.map (·.name)))
    (workflowMessages : List EventMessage) (status : ExecutionStatus) :
    StopsAtLatest execution messages
        { execution with
          status
          stoppedAt := toStoppedAt state.lastNodeRunTimestamp workflowMessages
          data := some { state.resultData with runData := some state.runData } } ↔
      LastIsLatest execution messages := by
  constructor
  · intro hstops name hhead last hlast
    obtain ⟨name', last', -, -, hname, hstopped, hlatest⟩ :=
      hstops.latest ⟨name, List.mem_of_head? hhead⟩
    obtain ⟨-, htimestamp⟩ := h.last name hhead
    rw [hlast] at htimestamp
    dsimp only at hstopped
    rw [htimestamp] at hstopped
    rw [show last.ts = last'.ts from Option.some.inj hstopped]
    exact hlatest
  · intro hlast
    refine ⟨h.saved, h.added, h.status, ?_⟩
    rintro ⟨name, hname⟩
    obtain ⟨first, rest, hcons⟩ := List.exists_cons_of_ne_nil (List.ne_nil_of_mem hname)
    have hhead : (recoveredNames execution messages (execution.nodes.map (·.name))).head? =
        some first := by rw [hcons, List.head?_cons]
    have hfirst : RecoversName execution messages first := List.mem_of_head? hhead
    obtain ⟨last, hend⟩ := endMessage_isSome hfirst
    obtain ⟨hexecuted, htimestamp⟩ := h.last first hhead
    refine ⟨first, last, hfirst, endMessage_mem hend, hexecuted, ?_, hlast first hhead last hend⟩
    rw [hend] at htimestamp
    dsimp only
    rw [htimestamp]
    rfl

theorem amend_of_relevant {now : ℤ} {relevant : RelevantMessages} (hempty : messages ≠ [])
    (hrelevant : toRelevantMessages messages = .ok relevant)
    (htruncated : ¬(execution.status ∈ [.success, .error, .canceled] ∧ execution.data.isSome)) :
    amend ARTIFICIAL_TASK_DATA now execution messages =
      if relevant.nodeMessagesByName.keys = [] then .ok none
      else
        (execution.nodes.foldlM (recoverNode ARTIFICIAL_TASK_DATA relevant.nodeMessagesByName)
            { resultData := execution.data.getD {}, runData := execution.runData }).map fun state =>
          some { execution with
            status := if execution.status = .error then .error else .crashed
            stoppedAt := toStoppedAt state.lastNodeRunTimestamp relevant.workflowMessages
            data := some { state.resultData with runData := some state.runData } } := by
  rw [amend, if_neg hempty, hrelevant, Except.bind]
  dsimp only
  rw [if_neg htruncated]

/-- The amended execution stops at its latest message exactly if `amend` finds all names, and the
last recovered node of the workflow is last in time. -/
theorem amendsToLatest_iff (ARTIFICIAL_TASK_DATA : D) (now : ℤ) (execution : IExecutionResponse D E)
    (messages : List EventMessage)
    (htruncated : ¬(execution.status ∈ [.success, .error, .canceled] ∧ execution.data.isSome)) :
    AmendsToLatest ARTIFICIAL_TASK_DATA now execution messages ↔
      OwnNames execution messages ∧ LastIsLatest execution messages := by
  have hquiet : (∀ m ∈ messages, isNodeEventMessage m = false) →
      OwnNames execution messages ∧ LastIsLatest execution messages := by
    intro hall
    have hnone : ¬∃ m ∈ messages, isNodeEventMessage m = true := by
      rintro ⟨m, hm, hevent⟩
      rw [hall m hm] at hevent
      cases hevent
    exact ⟨⟨fun m hm hevent => absurd ⟨m, hm, hevent⟩ hnone, fun hsome => absurd hsome hnone⟩,
      lastIsLatest_of_not_recoversName fun _ => not_recoversName hall⟩
  by_cases hempty : messages = []
  · subst hempty
    refine iff_of_true ⟨_, if_pos rfl, ?_⟩ (hquiet nofun)
    intro amended hamended
    obtain rfl := Option.some.inj hamended
    have hruns : (amendWithoutLogs now execution).runData = execution.runData := by
      rw [amendWithoutLogs]
      split <;> rfl
    have hnone : ∀ name, ¬RecoversName execution [] name := fun name => not_recoversName nofun
    refine ⟨fun name runs h => hruns ▸ h, fun name h => ?_, fun name h => absurd h (hnone name),
      fun ⟨name, h⟩ => absurd h (hnone name)⟩
    exact iff_of_false (hruns ▸ OrderedMap.get?_eq_none_iff.mp h) (hnone name)
  · rw [AmendsToLatest]
    rcases toRelevantMessages_spec messages with ⟨relevant, hrelevant, hlists⟩ |
      ⟨herror, m, hm, hevent, hinherited⟩
    · rw [amend_of_relevant hempty hrelevant htruncated]
      by_cases hkeys : relevant.nodeMessagesByName.keys = []
      · rw [if_pos hkeys]
        have hnone : ∀ amended ∈ (none : Option (IExecutionResponse D E)),
            StopsAtLatest execution messages amended := fun amended h =>
          absurd h (Option.not_mem_none amended)
        exact iff_of_true ⟨none, rfl, hnone⟩ (hquiet (hlists.keys.mp hkeys))
      · rw [if_neg hkeys]
        have hsome : ∃ m ∈ messages, isNodeEventMessage m = true := by
          by_contra hnone
          exact hkeys (hlists.keys.mpr fun m hm =>
            Bool.eq_false_iff.mpr fun hevent => hnone ⟨m, hm, hevent⟩)
        have hstart : Recovery.Progress execution messages []
            { resultData := execution.data.getD {}, runData := execution.runData } :=
          ⟨fun _ _ h => h, fun name h => iff_of_false (OrderedMap.get?_eq_none_iff.mp h) nofun, nofun,
            nofun⟩
        rcases foldlM_recoverNode execution.nodes hlists.get? hstart with
          ⟨next, hnext, hnames, hprogress⟩ | ⟨herror, node, hnode, hinherited⟩
        · rw [hnext, Except.map]
          have hstops := hprogress.stopsAtLatest_iff relevant.workflowMessages
            (if execution.status = .error then .error else .crashed)
          rw [and_iff_right ⟨hlists.names, fun _ => hnames⟩, ← hstops]
          constructor
          · rintro ⟨result, hresult, hall⟩
            obtain rfl := Except.ok.inj hresult
            exact hall _ rfl
          · intro h
            refine ⟨_, rfl, fun amended hamended => ?_⟩
            obtain rfl := Option.some.inj hamended
            exact h
        · rw [herror]
          refine iff_of_false ?_ fun hand => hand.1.ofNodes hsome node hnode hinherited
          rintro ⟨result, hresult, -⟩
          cases hresult
    · rw [amend, if_neg hempty, herror]
      refine iff_of_false ?_ fun hand => hand.1.ofMessages m hm hevent hinherited
      rintro ⟨result, hresult, -⟩
      cases hresult

/-- The node that was started last stands first in the workflow. -/
def crashedExecution : IExecutionResponse Unit Unit where
  status := .running
  nodes := [INode.named "Second", INode.named "First"]

def crashedMessages : List EventMessage :=
  [{ eventName := "n8n.node.started", nodeName := "First", ts := 1000 },
    { eventName := "n8n.node.finished", nodeName := "First", ts := 2000 },
    { eventName := "n8n.node.started", nodeName := "Second", ts := 3000 }]

theorem amendsToLatest_iff_crashed :
    ¬(crashedExecution.status ∈ [.success, .error, .canceled] ∧ crashedExecution.data.isSome) ∧
      (AmendsToLatest () 0 crashedExecution crashedMessages ↔
        OwnNames crashedExecution crashedMessages ∧
          LastIsLatest crashedExecution crashedMessages) :=
  ⟨by decide, amendsToLatest_iff () 0 crashedExecution crashedMessages (by decide)⟩

theorem not_amendsToLatest_crashed : ¬AmendsToLatest () 0 crashedExecution crashedMessages := by
  rintro ⟨result, hresult, hall⟩
  have hamend : (amend () 0 crashedExecution crashedMessages).toOption.bind
      (fun result => result.bind fun amended => amended.stoppedAt) = some 2000 := by
    decide
  rw [hresult] at hamend
  have hstopped : result.bind (fun amended => amended.stoppedAt) = some 2000 := hamend
  obtain ⟨amended, hamended, hstopped⟩ := Option.bind_eq_some_iff.mp hstopped
  have hrecovers : RecoversName crashedExecution crashedMessages "Second" := by
    rw [RecoversName]
    decide
  obtain ⟨name, last, -, -, -, hlast, hlatest⟩ := (hall amended hamended).latest ⟨_, hrecovers⟩
  rw [hstopped] at hlast
  have hle := hlatest "Second" hrecovers
    { eventName := "n8n.node.started", nodeName := "Second", ts := 3000 } (by decide)
  rw [← Option.some.inj hlast] at hle
  exact absurd hle (by decide)

end N8n
