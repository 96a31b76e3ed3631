import N8n.Triggers.TriggerCover

/-!
# Runs with pollers

A poller is current only as long as no other is made for its node (`PollersSound`).

`pollers_run` : if every step of a run supersedes what it replaces, scheduled polls emit only
for the latest activation of their node, and when no call is in progress all crons are of
registered nodes.
-/

open Lib

namespace N8n

/-! ## Pollers -/

open ActiveWorkflowTriggers

namespace PollingTriggers

variable {W N : Type} [DecidableEq W] [DecidableEq N] {s : PollingTriggers W N}
  {active' : ActiveWorkflowTriggers W N} {poller : Poller W N} {call : Option ℕ}

theorem unless_and_iff {a b : Prop} [Decidable a] [Decidable b] {c : Bool} :
    (!(decide a && decide b) || c) = true ↔ (a → b → c = true) := by
  by_cases ha : a <;> by_cases hb : b <;> simp [ha, hb]

theorem isLatest_iff : s.isLatest poller = true ↔ ∀ p ∈ s.pollers,
    p.workflowId = poller.workflowId → p.nodeId = poller.nodeId →
      p.activation ≤ poller.activation := by
  simp only [isLatest, List.all_eq_true, unless_and_iff, decide_eq_true_iff]

theorem noneCurrent_iff {workflowId : W} {nodeId : N} : s.noneCurrent workflowId nodeId = true ↔
    ∀ p ∈ s.pollers, p.workflowId = workflowId → p.nodeId = nodeId →
      s.active.isCurrent p = false := by
  simp only [noneCurrent, List.all_eq_true, unless_and_iff, Bool.not_eq_true']

/-- The call waits for the first poll of the node. -/
def PollsNode (active : ActiveWorkflowTriggers W N) (i : ℕ) (c : TriggerCall W N) (node : N) :
    Prop :=
  active.calls[i]? = some c ∧
    ∃ pollNodes attempted registered, c.progress = .polls node pollNodes attempted registered

structure PollersSound (s : PollingTriggers W N) : Prop where
  owned : s.active.Owned
  issued : ∀ p ∈ s.pollers, s.active.Issued p
  activation : ∀ p ∈ s.pollers, p.activation < s.pollers.length
  latest : ∀ p ∈ s.pollers, s.active.isCurrent p = true → s.isLatest p = true
  waits : ∀ i c node, PollsNode s.active i c node →
    ∃ p, s.pollerOf i = some p ∧ p.workflowId = c.workflowId ∧ p.nodeId = node
  crons : ∀ cron ∈ s.pollCrons, cron.poller ∈ s.pollers
  polls : ∀ p, some p ∈ s.polls → p ∈ s.pollers
  emits : s.EmitsLatest

theorem pollersSound_initial : PollersSound ({} : PollingTriggers W N) := by
  refine ⟨Owned.initial, ?_, ?_, ?_, ?_, ?_, ?_, ?_⟩
  · exact fun p hp => by cases hp
  · exact fun p hp => by cases hp
  · exact fun p hp => by cases hp
  · exact fun i c node h => by cases h.1
  · exact fun p hp => by cases hp
  · exact fun p hp => by cases hp
  · exact fun p hp => by cases hp

variable {i : ℕ}

omit [DecidableEq W] [DecidableEq N] in
theorem pollerOf_mem (h : s.pollerOf i = some poller) : poller ∈ s.pollers :=
  List.mem_of_mem_filter (List.mem_of_getLast? h)

omit [DecidableEq W] [DecidableEq N] in
theorem pollerOf_snoc {s' : PollingTriggers W N} (h : s'.pollers = s.pollers ++ [poller]) (i : ℕ) :
    s'.pollerOf i = if poller.call = i then some poller else s.pollerOf i := by
  rw [pollerOf, h, List.filter_append]
  split
  · rename_i hi
    simp [hi]
  · rename_i hi
    simp [hi, pollerOf]

/-- A poller is made exactly for a call that waits for a first poll now. -/
theorem follow_cases (s : PollingTriggers W N) (active' : ActiveWorkflowTriggers W N)
    (call : Option ℕ) :
    ((∀ i c node, call = some i → ¬PollsNode active' i c node) ∧
      s.follow active' call = { s with
        active := active'
        pollCrons := s.pollCrons.filter fun cron =>
          active'.hasTarget cron.poller.workflowId cron.poller.nodeId }) ∨
    ∃ i c node, call = some i ∧ PollsNode active' i c node ∧ s.follow active' call = { s with
        active := active'
        pollCrons := s.pollCrons.filter fun cron =>
          active'.hasTarget cron.poller.workflowId cron.poller.nodeId
        pollers := s.pollers ++ [{
          activation := s.pollers.length
          workflowId := c.workflowId
          nodeId := node
          triggers := c.triggers
          token := ((active'.stateAt c.triggers).registrationsByNodeId.get? node).elim 0 (·.token)
          call := i }] } := by
  cases call with
  | none => exact .inl ⟨fun i c node h => (by cases h), rfl⟩
  | some i =>
    cases hcall : active'.calls[i]? with
    | none =>
      refine .inl ⟨fun j c node h hpolls => ?_, by simp only [follow, Option.bind_some, hcall]⟩
      cases h
      exact absurd (hcall.symm.trans hpolls.1) (by simp)
    | some c =>
      obtain ⟨w, t, progress⟩ := c
      by_cases hactivates : ∃ node rest attempted registered,
          progress = .polls node rest attempted registered
      · obtain ⟨node, rest, attempted, registered, rfl⟩ := hactivates
        exact .inr ⟨i, _, node, rfl, ⟨hcall, rest, attempted, registered, rfl⟩,
          by simp only [follow, Option.bind_some, hcall]⟩
      · refine .inl ⟨fun j c node h hpolls => ?_, ?_⟩
        · cases h
          obtain ⟨hj, rest, attempted, registered, hprogress⟩ := hpolls
          cases hcall.symm.trans hj
          exact hactivates ⟨node, rest, attempted, registered, hprogress⟩
        · simp only [follow, Option.bind_some, hcall]
          cases progress with
          | polls node rest attempted registered => exact absurd ⟨_, _, _, _, rfl⟩ hactivates
          | _ => rfl

/-- What a step does to the calls the pollers follow, if it makes none for a node that has a
current one. -/
theorem PollersSound.follow (h : PollersSound s) (howned : active'.Owned)
    (hages : Ages s.active active')
    (hold : ∀ i c node, PollsNode active' i c node → call = some i ∨ PollsNode s.active i c node)
    (hnew : ∀ i c node, call = some i → PollsNode active' i c node →
      s.noneCurrent c.workflowId node = true ∧
        ∃ registration, (active'.stateAt c.triggers).registrationsByNodeId.get? node =
          some registration) : PollersSound (s.follow active' call) := by
  have hcrons : ∀ cron ∈ s.pollCrons.filter (fun cron =>
      active'.hasTarget cron.poller.workflowId cron.poller.nodeId), cron.poller ∈ s.pollers :=
    fun cron hcron => h.crons cron (List.mem_of_mem_filter hcron)
  have hcurrent : ∀ p ∈ s.pollers, active'.isCurrent p = true → s.active.isCurrent p = true :=
    fun p hp => (hages p (h.issued p hp)).2
  rcases follow_cases s active' call with ⟨hnone, heq⟩ | ⟨i, c, node, rfl, hpolls, heq⟩
  · rw [heq]
    refine ⟨howned, fun p hp => (hages p (h.issued p hp)).1, h.activation,
      fun p hp hp' => h.latest p hp (hcurrent p hp hp'), fun i c node hpolls => ?_, hcrons, h.polls,
      h.emits⟩
    exact h.waits i c node ((hold i c node hpolls).resolve_left fun hi => hnone i c node hi hpolls)
  · rw [heq]
    obtain ⟨hothers, registration, hregistration⟩ := hnew i c node rfl hpolls
    rw [hregistration, Option.elim_some]
    refine ⟨howned, ?_, ?_, ?_, ?_, fun cron hcron => List.mem_append_left _ (hcrons cron hcron),
      fun p hp => List.mem_append_left _ (h.polls p hp), h.emits⟩
    · refine List.forall_mem_append.mpr ⟨fun p hp => (hages p (h.issued p hp)).1,
        List.forall_mem_singleton.mpr ⟨?_, ?_⟩⟩
      · exact (howned.calls c (List.mem_of_getElem? hpolls.1)).1
      · exact howned.tokens _ _ _ hregistration
    · refine List.forall_mem_append.mpr ⟨fun p hp => ?_, List.forall_mem_singleton.mpr ?_⟩
      · simpa using (h.activation p hp).trans (Nat.lt_succ_self _)
      · simp
    · refine List.forall_mem_append.mpr ⟨fun p hp hp' => ?_,
        List.forall_mem_singleton.mpr fun _ => ?_⟩
      · -- a current poller is of another node than the new one
        have hbefore := hcurrent p hp hp'
        refine isLatest_iff.mpr (List.forall_mem_append.mpr
          ⟨isLatest_iff.mp (h.latest p hp hbefore), List.forall_mem_singleton.mpr ?_⟩)
        intro hw hn
        have hnot := noneCurrent_iff.mp hothers p hp hw.symm hn.symm
        rw [hnot] at hbefore
        cases hbefore
      · refine isLatest_iff.mpr (List.forall_mem_append.mpr
          ⟨fun p hp _ _ => (h.activation p hp).le, List.forall_mem_singleton.mpr fun _ _ => le_rfl⟩)
    · intro j c' node' hpolls'
      by_cases hij : i = j
      · subst hij
        obtain ⟨hcall, rest, attempted, registered, hprogress⟩ := hpolls
        obtain ⟨hcall', rest', attempted', registered', hprogress'⟩ := hpolls'
        cases hcall.symm.trans hcall'
        cases hprogress.symm.trans hprogress'
        exact ⟨_, (pollerOf_snoc rfl i).trans (if_pos rfl), rfl, rfl⟩
      · obtain ⟨p, hp, hnode⟩ := h.waits j c' node'
          ((hold j c' node' hpolls').resolve_left fun heq => hij (Option.some.inj heq))
        exact ⟨p, ((pollerOf_snoc rfl j).trans (if_neg hij)).trans hp, hnode⟩

/-- No call has got to a first poll. -/
theorem PollersSound.quiet (h : PollersSound s) {S : W → N → Prop} (hmoves : Moves S s.active active')
    (hcall : ∀ i, call = some i → s.active.calls.length ≤ i) :
    PollersSound (s.follow active' call) := by
  refine h.follow (h.owned.moves hmoves) (.moves hmoves) (fun i c node hpolls => .inr ?_)
    fun i c node hi hpolls => ?_
  · exact ⟨hmoves.calls ▸ hpolls.1, hpolls.2⟩
  · have hnone := List.getElem?_eq_none (hcall i hi)
    rw [← hmoves.calls, hpolls.1] at hnone
    cases hnone

/-- A call has gone on to where it waits next. -/
theorem PollersSound.continueCall (h : PollersSound s) {S : W → N → Prop}
    {c : TriggerCall W N} {result : ActiveWorkflowTriggers W N × TriggerCallProgress N}
    (hc : s.active.calls[i]? = some c) (hmoves : Moves S s.active result.1)
    (hattempts : result.2.Attempts) (hcall : ∀ j, call = some j → j = i)
    (hnew : ∀ node rest attempted registered, result.2 = .polls node rest attempted registered →
      call = some i ∧ s.noneCurrent c.workflowId node = true ∧
        ∃ registration, (result.1.stateAt c.triggers).registrationsByNodeId.get? node =
          some registration) :
    PollersSound (s.follow (ActiveWorkflowTriggers.continueCall i result) call) := by
  have hcalls : ∀ j, (ActiveWorkflowTriggers.continueCall i result).calls[j]? =
      if i = j then some { c with progress := result.2 } else s.active.calls[j]? := by
    intro j
    rw [getElem?_continueCall hmoves.calls]
    split
    · rename_i hij
      rw [← hij, hc, Option.map_some]
    · rfl
  have hages : Ages s.active result.1 := .moves hmoves
  refine h.follow ((h.owned.moves hmoves).continueCall hattempts) hages ?_ ?_
  · rintro j c' node ⟨hj, rest, attempted, registered, hprogress⟩
    rw [hcalls] at hj
    split at hj
    · rename_i hij
      cases hj
      exact .inl (hij ▸ (hnew node rest attempted registered hprogress).1)
    · exact .inr ⟨hj, rest, attempted, registered, hprogress⟩
  · rintro j c' node hj ⟨hcall', rest, attempted, registered, hprogress⟩
    rw [hcalls, if_pos (hcall j hj).symm] at hcall'
    cases hcall'
    exact (hnew node rest attempted registered hprogress).2

/-- A new call has got to where it waits. -/
theorem PollersSound.pushCall (h : PollersSound s) {workflowId : W} {triggers : ℕ}
    {result : ActiveWorkflowTriggers W N × TriggerCallProgress N}
    (howned : result.1.Owned) (hages : Ages s.active result.1)
    (hcalls : result.1.calls = s.active.calls) (howns : result.1.Owns workflowId triggers)
    (hattempts : result.2.Attempts) (hcall : ∀ i, call = some i → i = s.active.calls.length)
    (hnew : ∀ node rest attempted registered, result.2 = .polls node rest attempted registered →
      call = some s.active.calls.length ∧ s.noneCurrent workflowId node = true ∧
        ∃ registration, (result.1.stateAt triggers).registrationsByNodeId.get? node =
          some registration) :
    PollersSound (s.follow (ActiveWorkflowTriggers.pushCall workflowId triggers result) call) := by
  refine h.follow (howned.pushCall howns hattempts) hages ?_ ?_
  · rintro j c' node ⟨hj, rest, attempted, registered, hprogress⟩
    rw [ActiveWorkflowTriggers.pushCall, hcalls] at hj
    by_cases hlt : j < s.active.calls.length
    · rw [List.getElem?_append_left hlt] at hj
      exact .inr ⟨hj, rest, attempted, registered, hprogress⟩
    · rw [List.getElem?_append_right (not_lt.mp hlt), List.getElem?_singleton] at hj
      split at hj
      · cases hj
        rw [(hnew node rest attempted registered hprogress).1]
        exact .inl (congrArg some (by omega))
      · cases hj
  · rintro j c' node hj ⟨hcall', rest, attempted, registered, hprogress⟩
    rw [ActiveWorkflowTriggers.pushCall, hcalls, hcall j hj, List.getElem?_concat_length] at hcall'
    cases hcall'
    exact (hnew node rest attempted registered hprogress).2

/-! ## Steps -/

/-- A trigger that has not failed goes on to a new poll node, and nothing speaks against its
crons afterwards. -/
theorem supersedes_triggerSettled {c : TriggerCall W N} {node : N}
    {triggerNodes pollNodes : List N} {attempted registered : OrderedSet N}
    {outcome : TriggerOutcome} (hc : s.active.calls[i]? = some c)
    (hprogress : c.progress = .starts node triggerNodes pollNodes attempted registered)
    (hevent : s.supersedes (.triggers (.triggerSettled i outcome)) = true)
    (houtcome : outcome ≠ .throws) : s.nextIsNew c.workflowId triggerNodes pollNodes = true ∧
      ((c.workflowId, node) ∉ s.active.crons ∨
        s.active.activeTriggersByWorkflowId.get? c.workflowId = some c.triggers ∨
        s.active.registers c.workflowId node = true ∨
        s.active.starts c.workflowId node (some i) = true) := by
  obtain ⟨w, t, progress⟩ := c
  subst hprogress
  cases outcome with
  | throws => exact absurd rfl houtcome
  | _ => simpa [supersedes, hc, hasTarget, or_assoc] using hevent

theorem PollersSound.triggerSettled (h : PollersSound s) (hcovered : s.active.Covered)
    {outcome : TriggerOutcome} (hstep : s.active.step (.triggerSettled i outcome) = .ok active')
    (hevent : s.supersedes (.triggers (.triggerSettled i outcome)) = true) :
    PollersSound (s.follow active' (some i)) ∧ active'.Covered := by
  simp only [ActiveWorkflowTriggers.step] at hstep
  split at hstep
  · rename_i c hc
    split at hstep
    · rename_i node triggerNodes pollNodes attempted registered hprogress
      cases hstep
      have hmem := List.mem_of_getElem? hc
      have howns := h.owned.calls c hmem
      have hattempts := h.owned.attempts c hmem
      rw [hprogress] at hattempts
      have hmoves : Moves (fun _ _ => False) s.active (s.active.triggerSettled c node triggerNodes
        pollNodes attempted registered outcome).1 := .triggerSettled howns.2 hattempts.2
      have hcond := supersedes_triggerSettled hc hprogress hevent
      refine ⟨h.continueCall hc hmoves (triggerSettled_attempts hattempts.1 hattempts.2)
        (fun j hj => (Option.some.inj hj).symm) fun node' rest attempted' registered' hpolls =>
          ⟨rfl, triggerSettled_polls hpolls (fun hne => (hcond hne).1) howns.1⟩,
        .continueCall hmoves.calls fun w n hcron => ?_⟩
      rcases (hcovered.moves hmoves hcron).resolve_right id with hregisters | hstarts
      · exact .inl hregisters
      · rcases starts_cases hc hstarts with hstarts | ⟨rfl, hn⟩
        · exact .inr hstarts
        · -- the node that the call itself has started
          rw [hprogress] at hn
          obtain rfl : node = n := of_decide_eq_true hn
          by_cases houtcome : outcome = .throws
          · subst houtcome
            exact absurd hattempts.1 (not_attempted_of_rollback hcron).1
          · rcases (hcond houtcome).2 with hnot | hmap | hregisters | hstarts
            · exact absurd (hmoves.crons _ hcron) hnot
            · exact .inl (registers_triggerSettled hattempts.1 hmap howns.1 hcron)
            · exact .inl ((hmoves.registers _ _ hcron hregisters).resolve_right id)
            · exact .inr hstarts
    · cases hstep
  · cases hstep

theorem PollersSound.closeSettled (h : PollersSound s) (hcovered : s.active.Covered)
    {failure : Option CloseFailure}
    (hstep : s.active.step (.closeSettled i failure) = .ok active')
    (hevent : s.supersedes (.triggers (.closeSettled i failure)) = true) :
    PollersSound (s.follow active' none) ∧ active'.Covered := by
  simp only [ActiveWorkflowTriggers.step] at hstep
  split at hstep
  · rename_i c hc
    obtain ⟨result, hresult, heq⟩ := bind_eq_ok.mp hstep
    cases heq
    simp only [supersedes, hc] at hevent
    have howns := h.owned.calls c (List.mem_of_getElem? hc)
    have hmoves := Moves.closeSettled howns.2 hresult hevent
    have hactivates := closeSettled_activates hresult
    refine ⟨h.continueCall hc hmoves (TriggerCallProgress.attempts_of_activates hactivates)
      (fun j hj => by cases hj) fun node rest attempted registered hpolls => ?_,
      .continueCall hmoves.calls fun w n hcron => ?_⟩
    · rw [hpolls] at hactivates
      cases hactivates
    · rcases (hcovered.moves hmoves hcron).elim id .inr with hregisters | hstarts
      · exact .inl hregisters
      · refine .inr ((starts_cases hc hstarts).resolve_right fun hself => ?_)
        -- a call that closes starts no node
        have hself := hself.2
        unfold ActiveWorkflowTriggers.closeSettled at hresult
        cases hprogress : c.progress with
        | starts => simp [hprogress] at hresult
        | _ => simp [hprogress, TriggerCallProgress.startsNode] at hself
  · cases hstep

theorem PollersSound.addTriggers (h : PollersSound s) (hcovered : s.active.Covered) {workflowId : W}
    {triggerNodes pollNodes nodeIds : List N}
    (hstep : s.active.step (.addTriggers workflowId triggerNodes pollNodes nodeIds) = .ok active')
    (hevent : s.supersedes (.triggers (.addTriggers workflowId triggerNodes pollNodes nodeIds)) =
      true) : PollersSound (s.follow active' (some s.active.calls.length)) ∧ active'.Covered := by
  simp only [ActiveWorkflowTriggers.step] at hstep
  split at hstep
  · cases hstep
    exact ⟨h.quiet (S := fun _ _ => False) (.refl _) fun i hi => (Option.some.inj hi).le, hcovered⟩
  · cases hstep
    obtain ⟨hbase, howns⟩ := h.owned.getOrCreateWorkflowTriggersState workflowId
    have hages : Ages s.active (s.active.getOrCreateWorkflowTriggersState workflowId).1 :=
      .getOrCreateWorkflowTriggersState
    have hcalls := calls_getOrCreateWorkflowTriggersState s.active workflowId
    have hcovered' := hcovered.getOrCreateWorkflowTriggersState workflowId
    generalize s.active.getOrCreateWorkflowTriggersState workflowId = base at *
    have hmoves : Moves (fun _ _ => False) base.1 ((base.1.updateState base.2
        (·.beginRegistration)).startTriggers base.2 (triggerNodes.filter (· ∈ nodeIds))
          (pollNodes.filter (· ∈ nodeIds)) ∅ ∅).1 := Moves.beginRegistration.trans .startTriggers
    have hlength : base.2 < (base.1.updateState base.2 (·.beginRegistration)).states.length := by
      rw [updateState, List.length_modify]
      exact howns.1
    refine ⟨h.pushCall (hbase.moves hmoves) (hages.trans (.moves hmoves))
      (hmoves.calls.trans hcalls) (howns.moves hmoves) (startTriggers_attempts fun n hn => hn)
      (fun i hi => (Option.some.inj hi).symm) fun node rest attempted registered hpolls =>
        ⟨rfl, startTriggers_polls hpolls hevent hlength⟩, ?_⟩
    refine .pushCall hmoves.calls fun w n hcron => ?_
    exact (hcovered'.moves hmoves hcron).resolve_right id

theorem PollersSound.removeTriggers (h : PollersSound s) (hcovered : s.active.Covered)
    {workflowId : W} {nodeIds : OrderedSet N}
    (hstep : s.active.step (.removeTriggers workflowId nodeIds) = .ok active') :
    PollersSound (s.follow active' none) ∧ active'.Covered := by
  simp only [ActiveWorkflowTriggers.step] at hstep
  split at hstep
  · cases hstep
    exact ⟨h.quiet (S := fun _ _ => False) .foldl_deregisterTarget fun i hi => (by cases hi),
      hcovered.quiet .foldl_deregisterTarget⟩
  · rename_i triggers hmap
    cases hstep
    have howns := h.owned.map _ _ hmap
    have hmoves : Moves (fun _ _ => False) s.active (removeTriggersLoop workflowId triggers
      nodeIds.elems s.active).1 := .removeTriggersLoop howns.2
    refine ⟨h.pushCall (h.owned.moves hmoves) (.moves hmoves) hmoves.calls (howns.moves hmoves)
      (TriggerCallProgress.attempts_of_activates removeTriggersLoop_activates)
      (fun i hi => by cases hi) fun node rest attempted registered hpolls => ?_,
      .pushCall hmoves.calls fun w n hcron => (hcovered.moves hmoves hcron).resolve_right id⟩
    have hactivates : (removeTriggersLoop workflowId triggers nodeIds.elems
      s.active).2.activates = false := removeTriggersLoop_activates
    rw [hpolls] at hactivates
    cases hactivates

theorem PollersSound.remove (h : PollersSound s) (hcovered : s.active.Covered) {workflowId : W}
    (hstep : s.active.step (.remove workflowId) = .ok active') :
    PollersSound (s.follow active' none) ∧ active'.Covered := by
  have hmoves : Moves (fun _ _ => False) s.active (s.active.deregisterGroup workflowId) :=
    .deregisterGroup
  simp only [ActiveWorkflowTriggers.step] at hstep
  split at hstep
  · cases hstep
    exact ⟨h.quiet hmoves fun i hi => (by cases hi), hcovered.quiet hmoves⟩
  · rename_i triggers hmap
    cases hstep
    have hmoves : Moves (fun _ _ => False) s.active
        ((s.active.deregisterGroup workflowId).removeLoop workflowId triggers 0).1 :=
      hmoves.trans (.removeLoop fun _ n hcron _ => by simpa using List.of_mem_filter hcron)
    refine ⟨h.pushCall (h.owned.moves hmoves) (.moves hmoves) hmoves.calls
      ((h.owned.map _ _ hmap).moves hmoves)
      (TriggerCallProgress.attempts_of_activates removeLoop_activates)
      (fun i hi => by cases hi) fun node rest attempted registered hpolls => ?_,
      .pushCall hmoves.calls fun w n hcron => (hcovered.moves hmoves hcron).resolve_right id⟩
    have hactivates : ((s.active.deregisterGroup workflowId).removeLoop workflowId triggers
      0).2.activates = false := removeLoop_activates
    rw [hpolls] at hactivates
    cases hactivates

theorem PollersSound.finish (h : PollersSound s) (hcovered : s.active.Covered)
    (hstep : s.active.step (.finish i) = .ok active') :
    PollersSound (s.follow active' none) ∧ active'.Covered := by
  simp only [ActiveWorkflowTriggers.step] at hstep
  split at hstep
  · rename_i c hc
    split at hstep
    · rename_i hprogress
      cases hstep
      have hmoves : Moves (fun _ _ => False) s.active ((s.active.updateState c.triggers
        (·.finishRegistration)).deleteWorkflowIfEmpty c.workflowId c.triggers) :=
          Moves.finishRegistration.trans .deleteWorkflowIfEmpty
      refine ⟨h.continueCall hc hmoves trivial (fun j hj => by cases hj)
        fun node rest attempted registered hpolls => (by cases hpolls),
        .continueCall hmoves.calls fun w n hcron => ?_⟩
      rcases (hcovered.moves hmoves hcron).resolve_right id with hregisters | hstarts
      · exact .inl hregisters
      · refine .inr ((starts_cases hc hstarts).resolve_right fun hself => ?_)
        have hself := hself.2
        rw [hprogress] at hself
        cases hself
    · cases hstep
  · cases hstep

/-- Crons of the poller were registered. -/
structure RegisteredBy (poller : Poller W N) (s s' : PollingTriggers W N) : Prop where
  active : ∃ crons, s'.active = { s.active with crons }
  isLeader : s'.isLeader = s.isLeader
  pollers : s'.pollers = s.pollers
  polls : s'.polls = s.polls
  emissions : s'.emissions = s.emissions
  crons : ∀ target ∈ s'.active.crons,
    target ∈ s.active.crons ∨ s.isLeader = true ∧ target = (poller.workflowId, poller.nodeId)
  pollCrons : ∀ cron ∈ s'.pollCrons, cron ∈ s.pollCrons ∨ cron.poller = poller

namespace RegisteredBy

variable {s' s'' : PollingTriggers W N} {timezone expression : String}

omit [DecidableEq W] [DecidableEq N] in
theorem refl (poller : Poller W N) (s : PollingTriggers W N) : RegisteredBy poller s s :=
  ⟨⟨s.active.crons, rfl⟩, rfl, rfl, rfl, rfl, fun _ h => .inl h, fun _ h => .inl h⟩

omit [DecidableEq W] [DecidableEq N] in
theorem trans (h : RegisteredBy poller s s') (h' : RegisteredBy poller s' s'') :
    RegisteredBy poller s s'' := by
  obtain ⟨crons, hactive⟩ := h.active
  obtain ⟨crons', hactive'⟩ := h'.active
  refine ⟨⟨crons', by rw [hactive', hactive]⟩, h'.isLeader.trans h.isLeader,
    h'.pollers.trans h.pollers, h'.polls.trans h.polls, h'.emissions.trans h.emissions,
    fun target htarget => ?_, fun cron hcron => ?_⟩
  · rcases h'.crons target htarget with htarget | htarget
    · exact h.crons target htarget
    · exact .inr (h.isLeader ▸ htarget)
  · exact (h'.pollCrons cron hcron).elim (h.pollCrons cron) .inr

theorem register : RegisteredBy poller s (s.register poller timezone expression) := by
  unfold PollingTriggers.register
  split
  · exact refl poller s
  · rename_i hleader
    split
    · exact refl poller s
    · refine ⟨⟨_, rfl⟩, rfl, rfl, rfl, rfl, fun target htarget => ?_, fun cron hcron => ?_⟩
      · exact (List.mem_append.mp htarget).imp_right fun h =>
          ⟨by simpa using hleader, List.mem_singleton.mp h⟩
      · exact (List.mem_append.mp hcron).imp_right fun h => by rw [List.mem_singleton.mp h]

theorem registerCrons {expressions : List String} :
    RegisteredBy poller s (registerCrons poller timezone expressions s).1 := by
  induction expressions generalizing s with
  | nil => exact refl poller s
  | cons expression expressions ih =>
    unfold PollingTriggers.registerCrons
    split
    · exact refl poller s
    · exact register.trans ih

end RegisteredBy

theorem registerCrons_throws {timezone : String} {expressions : List String} :
    (registerCrons poller timezone expressions s).2 = expressions.any isTooFrequent := by
  induction expressions generalizing s with
  | nil => rfl
  | cons expression expressions ih =>
    unfold registerCrons
    split
    · rename_i h
      rw [List.any_cons, h, Bool.true_or]
    · rename_i h
      rw [ih, List.any_cons, Bool.eq_false_iff.mpr h, Bool.false_or]

theorem PollersSound.registered {s' : PollingTriggers W N} (h : PollersSound s)
    (hregistered : RegisteredBy poller s s') (hpoller : poller ∈ s.pollers) : PollersSound s' := by
  obtain ⟨crons, hactive⟩ := hregistered.active
  obtain ⟨active, isLeader, pollers, pollCrons, polls, emissions⟩ := s'
  obtain rfl : active = _ := hactive
  obtain rfl : pollers = _ := hregistered.pollers
  obtain rfl : polls = _ := hregistered.polls
  obtain rfl : emissions = _ := hregistered.emissions
  refine ⟨⟨h.owned.map, h.owned.calls, h.owned.attempts, h.owned.tokens⟩, h.issued, h.activation,
    h.latest, h.waits, fun cron hcron => ?_, h.polls, h.emits⟩
  exact (hregistered.pollCrons cron hcron).elim (h.crons cron) fun heq => heq ▸ hpoller

theorem pollsNode_of_step {active : ActiveWorkflowTriggers W N} {throws : Bool}
    (h : active.step (.pollSettled i throws) = .ok active') :
    ∃ c node, PollsNode active i c node := by
  simp only [ActiveWorkflowTriggers.step] at h
  split at h
  · rename_i c hc
    split at h
    · rename_i node pollNodes attempted registered hprogress
      exact ⟨c, node, hc, pollNodes, attempted, registered, hprogress⟩
    · cases h
  · cases h

/-- A first poll has settled. Crons of its node may have been registered before a failure. -/
theorem PollersSound.pollSettled (h : PollersSound s) {throws : Bool}
    (hstep : s.active.step (.pollSettled i throws) = .ok active')
    (hnew : throws = false → ∀ c node pollNodes attempted registered,
      s.active.calls[i]? = some c → c.progress = .polls node pollNodes attempted registered →
        s.nextIsNew c.workflowId [] pollNodes = true)
    (hcovered : ∀ w n, (w, n) ∈ s.active.crons → s.active.covers w n = true ∨
      throws = true ∧ ∃ c, PollsNode s.active i c n ∧ c.workflowId = w) :
    PollersSound (s.follow active' (some i)) ∧ active'.Covered := by
  simp only [ActiveWorkflowTriggers.step] at hstep
  split at hstep
  · rename_i c hc
    split at hstep
    · rename_i node pollNodes attempted registered hprogress
      have hmem := List.mem_of_getElem? hc
      have howns := h.owned.calls c hmem
      have hattempts := h.owned.attempts c hmem
      rw [hprogress] at hattempts
      have hkept : ∀ {active₁} (hmoves : Moves (fun _ _ => False) s.active active₁) {w n},
          (w, n) ∈ active₁.crons → s.active.covers w n = true →
          active₁.registers w n = true ∨ s.active.starts w n (some i) = true := by
        intro active₁ hmoves w n hcron hcovers
        refine ((hmoves.covers hcovers hcron).resolve_right id).imp_right fun hstarts =>
          (starts_cases hc hstarts).resolve_right fun hself => ?_
        have hself := hself.2
        rw [hprogress] at hself
        cases hself
      split at hstep
      · cases hstep
        have hmoves : Moves (fun _ _ => False) s.active (s.active.rollbackPartialActivation
          c.workflowId c.triggers attempted registered).1 :=
            .rollbackPartialActivation howns.2 hattempts.2
        have hactivates : (s.active.rollbackPartialActivation c.workflowId c.triggers attempted
          registered).2.activates = false := rollbackLoop_activates
        refine ⟨h.continueCall hc hmoves (TriggerCallProgress.attempts_of_activates hactivates)
          (fun j hj => (Option.some.inj hj).symm) fun node' rest attempted' registered' hpolls => ?_,
          .continueCall hmoves.calls fun w n hcron => ?_⟩
        · rw [hpolls] at hactivates
          cases hactivates
        · rcases hcovered w n (hmoves.crons _ hcron) with hcovers |
              ⟨-, c', ⟨hc', rest, attempted', registered', hprogress'⟩, rfl⟩
          · exact hkept hmoves hcron hcovers
          · cases hc.symm.trans hc'
            cases hprogress.symm.trans hprogress'
            exact absurd hattempts.1 (not_attempted_of_rollback hcron).1
      · rename_i hthrows
        cases hstep
        have hmoves : Moves (fun _ _ => False) s.active (s.active.startTriggers c.triggers []
          pollNodes attempted registered).1 := .startTriggers
        refine ⟨h.continueCall hc hmoves (startTriggers_attempts hattempts.2)
          (fun j hj => (Option.some.inj hj).symm) fun node' rest attempted' registered' hpolls =>
            ⟨rfl, startTriggers_polls hpolls (hnew (Bool.eq_false_iff.mpr hthrows) c node pollNodes
              attempted registered hc hprogress) howns.1⟩,
          .continueCall hmoves.calls fun w n hcron => ?_⟩
        exact hkept hmoves hcron ((hcovered w n (hmoves.crons _ hcron)).resolve_right fun hfalse =>
          hthrows hfalse.1)
    · cases hstep
  · cases hstep

theorem PollersSound.firstPollSettled (h : PollersSound s) (hcovered : s.active.Covered)
    {timezone : String} {expressions : List String} (hpoller : s.pollerOf i = some poller)
    (hstep : (registerCrons poller timezone expressions s).1.active.step
      (.pollSettled i (registerCrons poller timezone expressions s).2) = .ok active')
    (hevent : s.supersedes (.firstPollSettled i (some (timezone, expressions))) = true) :
    PollersSound ((registerCrons poller timezone expressions s).1.follow active' (some i)) ∧
      active'.Covered := by
  have hregistered : RegisteredBy poller s (registerCrons poller timezone expressions s).1 :=
    .registerCrons
  have hnone : expressions = [] →
      (registerCrons poller timezone expressions s).1.active.crons = s.active.crons := by
    rintro rfl
    rfl
  have hthrows : (registerCrons poller timezone expressions s).2 = expressions.any isTooFrequent :=
    registerCrons_throws
  generalize registerCrons poller timezone expressions s = result at *
  obtain ⟨s', throws⟩ := result
  dsimp only at *
  obtain ⟨crons, hactive⟩ := hregistered.active
  have hcalls : s'.active.calls = s.active.calls := by rw [hactive]
  have hcovers : ∀ w n, s'.active.covers w n = s.active.covers w n := by
    rw [hactive]
    exact fun _ _ => rfl
  have hcurrent : ∀ w n, s'.noneCurrent w n = s.noneCurrent w n := by
    intro w n
    rw [noneCurrent, noneCurrent, hregistered.pollers, hactive]
    rfl
  refine (h.registered hregistered (pollerOf_mem hpoller)).pollSettled hstep
    (fun hfalse c node pollNodes attempted registered hc hprogress => ?_) fun w n hcron => ?_
  · obtain ⟨w, t, progress⟩ := c
    subst hprogress
    rw [hcalls] at hc
    simp only [supersedes, hc, ← hthrows, hfalse, Bool.false_or, Bool.and_eq_true] at hevent
    unfold nextIsNew at hevent ⊢
    cases pollNodes with
    | nil => rfl
    | cons => exact (hcurrent _ _).trans hevent.1
  · rw [hcovers]
    rcases hregistered.crons _ hcron with hcron' | ⟨hleader, heq⟩
    · exact .inl (hcovered w n hcron')
    · obtain ⟨c, node, hpolls⟩ := pollsNode_of_step hstep
      have hwaits : PollsNode s.active i c node := ⟨hcalls ▸ hpolls.1, hpolls.2⟩
      obtain ⟨p, hp, hw, hn⟩ := h.waits i c node hwaits
      cases hpoller.symm.trans hp
      cases heq
      rw [hw, hn] at hcron ⊢
      cases hfalse : throws with
      | true => exact .inr ⟨rfl, c, hpolls, rfl⟩
      | false =>
        obtain ⟨hc, pollNodes, attempted, registered, hprogress⟩ := hwaits
        obtain ⟨w, t, progress⟩ := c
        subst hprogress
        simp only [supersedes, hc, ← hthrows, hfalse, Bool.false_or, hleader, Bool.not_true,
          Bool.and_eq_true, Bool.or_eq_true, List.isEmpty_iff] at hevent
        rcases hevent.2 with hempty | hcovers'
        · exact .inl (hcovered _ _ (hnone hempty ▸ hcron))
        · exact .inl hcovers'

/-- What every step that supersedes what it replaces keeps. -/
def Sound (s : PollingTriggers W N) : Prop := PollersSound s ∧ s.active.Covered

theorem Sound.follow (h : PollersSound (s.follow active' call) ∧ active'.Covered) :
    Sound (s.follow active' call) := by
  refine ⟨h.1, ?_⟩
  rcases follow_cases s active' call with ⟨-, heq⟩ | ⟨_, _, _, -, -, heq⟩
  · rw [heq]
    exact h.2
  · rw [heq]
    exact h.2

theorem Sound.step {s' : PollingTriggers W N} {event : PollingEvent W N} (h : Sound s)
    (hevent : s.supersedes event = true) (hstep : s.step event = .ok s') : Sound s' := by
  obtain ⟨h, hcovered⟩ := h
  cases event with
  | triggers event =>
    cases event with
    | pollSettled => cases hstep
    | registerCron workflowId nodeId =>
      cases hstep
      refine .follow ⟨h.follow ⟨h.owned.map, h.owned.calls, h.owned.attempts, h.owned.tokens⟩
        (.refl s.active) (fun i c node hpolls => .inr hpolls) fun i c node hi => (by cases hi),
        fun w n hcron => ?_⟩
      rcases List.mem_append.mp hcron with hcron | hcron
      · exact hcovered w n hcron
      · cases List.mem_singleton.mp hcron
        exact hevent
    | addTriggers workflowId triggerNodes pollNodes nodeIds =>
      obtain ⟨active', hactive, heq⟩ := bind_eq_ok.mp hstep
      cases heq
      exact .follow (h.addTriggers hcovered hactive hevent)
    | removeTriggers workflowId nodeIds =>
      obtain ⟨active', hactive, heq⟩ := bind_eq_ok.mp hstep
      cases heq
      exact .follow (h.removeTriggers hcovered hactive)
    | remove workflowId =>
      obtain ⟨active', hactive, heq⟩ := bind_eq_ok.mp hstep
      cases heq
      exact .follow (h.remove hcovered hactive)
    | triggerSettled call outcome =>
      obtain ⟨active', hactive, heq⟩ := bind_eq_ok.mp hstep
      cases heq
      exact .follow (h.triggerSettled hcovered hactive hevent)
    | closeSettled call failure =>
      obtain ⟨active', hactive, heq⟩ := bind_eq_ok.mp hstep
      cases heq
      exact .follow (h.closeSettled hcovered hactive hevent)
    | finish call =>
      obtain ⟨active', hactive, heq⟩ := bind_eq_ok.mp hstep
      cases heq
      exact .follow (h.finish hcovered hactive)
  | firstPollSettled call crons =>
    cases crons with
    | none =>
      obtain ⟨active', hactive, heq⟩ := bind_eq_ok.mp hstep
      cases heq
      exact .follow (h.pollSettled hactive (fun hfalse => by cases hfalse)
        fun w n hcron => .inl (hcovered w n hcron))
    | some crons =>
      simp only [PollingTriggers.step] at hstep
      split at hstep
      · cases hstep
      · rename_i poller hpoller
        obtain ⟨active', hactive, heq⟩ := bind_eq_ok.mp hstep
        cases heq
        exact .follow (h.firstPollSettled hcovered hpoller hactive hevent)
  | leadership isLeader =>
    cases hstep
    exact ⟨⟨h.owned, h.issued, h.activation, h.latest, h.waits, h.crons, h.polls, h.emits⟩, hcovered⟩
  | tick cron =>
    simp only [PollingTriggers.step] at hstep
    split at hstep
    · cases hstep
    · rename_i cron hcron
      split at hstep
      · cases hstep
        exact ⟨h, hcovered⟩
      · cases hstep
        refine ⟨⟨h.owned, h.issued, h.activation, h.latest, h.waits, h.crons, fun p hp => ?_, h.emits⟩,
          hcovered⟩
        rcases List.mem_append.mp hp with hp | hp
        · exact h.polls p hp
        · cases List.mem_singleton.mp hp
          exact h.crons cron (List.mem_of_getElem? hcron)
  | pollSettled poll outcome =>
    simp only [PollingTriggers.step] at hstep
    split at hstep
    · rename_i poller hpoller
      have hmem := h.polls poller (List.mem_of_getElem? hpoller)
      have hpolls : ∀ p, some p ∈ s.polls.set poll none → p ∈ s.pollers := fun p hp =>
        (List.mem_or_eq_of_mem_set hp).elim (h.polls p) fun heq => by cases heq
      split at hstep
      · cases hstep
        exact ⟨⟨h.owned, h.issued, h.activation, h.latest, h.waits, h.crons, hpolls, h.emits⟩,
          hcovered⟩
      · rename_i hcurrent
        cases hstep
        refine ⟨⟨h.owned, h.issued, h.activation, h.latest, h.waits, h.crons, hpolls, ?_⟩, hcovered⟩
        refine List.forall_mem_append.mpr ⟨h.emits, List.forall_mem_singleton.mpr ?_⟩
        refine h.latest poller hmem ?_
        simp only [Bool.or_eq_true, not_or, Bool.not_eq_true', Bool.not_eq_false] at hcurrent
        exact hcurrent.1
    · cases hstep

theorem pollers_run {steps : List (PollingTriggers W N × PollingEvent W N)}
    (h : Run step {} steps s) (hsteps : ∀ x ∈ steps, x.1.supersedes x.2 = true) :
    ∀ state ∈ steps.map Prod.fst ++ [s], state.CronsRegistered ∧ state.EmitsLatest := by
  intro state hstate
  have hsound : Sound state := h.forall_states_of
    ⟨pollersSound_initial, fun w n hcron => (by cases hcron)⟩
    (fun s e s' hs hC hstep => hs.step hC hstep) hsteps state hstate
  refine ⟨fun hreturned target htarget => ?_, hsound.1.emits⟩
  refine (covers_iff.mp (hsound.2 target.1 target.2 htarget)).resolve_right fun hstarts => ?_
  obtain ⟨i, c, hc, -, -, hnode⟩ := starts_iff.mp hstarts
  have hdone := hreturned c (List.mem_of_getElem? hc)
  cases hprogress : c.progress with
  | returned => simp [hprogress, TriggerCallProgress.startsNode] at hnode
  | _ => simp [hprogress, TriggerCallProgress.isReturned] at hdone

/-- A workflow is removed and activated again while it is polled. -/
theorem pollers_run_reactivated : ∃ steps, ∃ s : PollingTriggers ℕ ℕ, Run step {} steps s ∧
    s.emissions.map (·.poller.activation) = [1] ∧
    ∀ state ∈ steps.map Prod.fst ++ [s], state.CronsRegistered ∧ state.EmitsLatest := by
  have hevents : (runSteps step ({} : PollingTriggers ℕ ℕ)
      [.triggers (.addTriggers 1 [] [10] [10]), .firstPollSettled 0 (some ("UTC", ["0 * * * *"])),
        .triggers (.finish 0), .tick 0, .triggers (.remove 1),
        .triggers (.addTriggers 1 [] [10] [10]), .firstPollSettled 2 (some ("UTC", ["0 * * * *"])),
        .triggers (.finish 2), .pollSettled 0 .response, .tick 0, .pollSettled 1 .response]).map
      (fun r => (r.2.emissions.map (·.poller.activation), r.1.all fun x => x.1.supersedes x.2)) =
        .ok ([1], true) := by
    decide
  obtain ⟨steps, s, hrun, -, hresult⟩ := exists_run hevents
  obtain ⟨hemissions, hsteps⟩ := Prod.mk.inj hresult
  exact ⟨steps, s, hrun, hemissions, pollers_run hrun (List.all_eq_true.mp hsteps)⟩

/-- A node is activated again and the poller of its first activation emits; a node is removed
during its first poll and its cron stays. -/
theorem pollers_run_superseded : (¬∀ steps, ∀ s : PollingTriggers ℕ ℕ, Run step {} steps s →
      s.EmitsLatest) ∧
    ¬∀ steps, ∀ s : PollingTriggers ℕ ℕ, Run step {} steps s → s.CronsRegistered := by
  constructor
  · intro h
    have hevents : (runSteps step ({} : PollingTriggers ℕ ℕ)
        [.triggers (.addTriggers 1 [] [10] [10]), .firstPollSettled 0 (some ("UTC", ["0 * * * *"])),
          .triggers (.finish 0), .triggers (.addTriggers 1 [] [10] [10]),
          .firstPollSettled 1 (some ("UTC", ["0 * * * *"])), .triggers (.finish 1), .tick 0,
          .pollSettled 0 .response]).map (fun r => r.2.emissions.all (·.isLatest)) =
            .ok false := by
      decide
    obtain ⟨steps, s, hrun, -, hresult⟩ := exists_run hevents
    have hlatest : s.emissions.all (·.isLatest) = true := List.all_eq_true.mpr (h steps s hrun)
    rw [hresult] at hlatest
    cases hlatest
  · intro h
    have hevents : (runSteps step ({} : PollingTriggers ℕ ℕ)
        [.triggers (.addTriggers 1 [] [10] [10]),
          .triggers (.removeTriggers 1 ⟨[10], List.nodup_singleton _⟩),
          .firstPollSettled 0 (some ("UTC", ["0 * * * *"])), .triggers (.finish 0)]).map
        (fun r => (r.2.active.calls.all (·.progress.isReturned),
          r.2.active.crons.all fun target => r.2.active.registers target.1 target.2)) =
            .ok (true, false) := by
      decide
    obtain ⟨steps, s, hrun, -, hresult⟩ := exists_run hevents
    obtain ⟨hreturned, hnot⟩ := Prod.mk.inj hresult
    have hregistered : (s.active.crons.all fun target =>
        s.active.registers target.1 target.2) = true :=
      List.all_eq_true.mpr (h steps s hrun (List.all_eq_true.mp hreturned))
    rw [hnot] at hregistered
    cases hregistered

end PollingTriggers

end N8n
