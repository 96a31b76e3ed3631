import N8n.Triggers.TriggerMoves

/-!
# Ownership, tokens and cover

Each state object belongs to one workflow, whatever the calls do (`Owned`). A poller that is not
current does not become current (`Ages`). A cron is covered when its node is registered or being
started (`Covered`).
-/

open Lib

namespace N8n

/-! ## Ownership -/

/-- The node the call is at and the nodes it has registered are ones it attempted. -/
def TriggerCallProgress.Attempts {N : Type} : TriggerCallProgress N → Prop
  | .starts node _ _ attempted registered | .polls node _ attempted registered =>
    node ∈ attempted.elems ∧ ∀ n ∈ registered.elems, n ∈ attempted.elems
  | _ => True

/-- The call has nodes to go through that it activates. -/
def TriggerCallProgress.activates {N : Type} : TriggerCallProgress N → Bool
  | .starts .. | .polls .. => true
  | _ => false

theorem TriggerCallProgress.attempts_of_activates {N : Type} {progress : TriggerCallProgress N}
    (h : progress.activates = false) : progress.Attempts := by
  cases progress with
  | starts => cases h
  | polls => cases h
  | _ => trivial

namespace ActiveWorkflowTriggers

open WorkflowActiveTriggersState

variable {W N : Type} [DecidableEq W] [DecidableEq N] {active active' : ActiveWorkflowTriggers W N}
  {S : W → N → Prop} {triggers call : ℕ} {node : N} {workflowId : W} {c : TriggerCall W N}
  {result : ActiveWorkflowTriggers W N × TriggerCallProgress N}

/-- The object was created, and belongs to no other workflow. -/
def Owns (active : ActiveWorkflowTriggers W N) (workflowId : W) (triggers : ℕ) : Prop :=
  triggers < active.states.length ∧
    ∀ w, active.activeTriggersByWorkflowId.get? w = some triggers → w = workflowId

/-- Each object belongs to one workflow, and its tokens have been given out. -/
structure Owned (active : ActiveWorkflowTriggers W N) : Prop where
  map : ∀ w t, active.activeTriggersByWorkflowId.get? w = some t → active.Owns w t
  calls : ∀ c ∈ active.calls, active.Owns c.workflowId c.triggers
  attempts : ∀ c ∈ active.calls, c.progress.Attempts
  tokens : ∀ t n registration, (active.stateAt t).registrationsByNodeId.get? n = some registration →
    registration.token < (active.stateAt t).nextToken

theorem Owns.moves (h : active.Owns workflowId triggers) (hmoves : Moves S active active') :
    active'.Owns workflowId triggers :=
  ⟨hmoves.length ▸ h.1, fun w hw => h.2 w (hmoves.map w triggers hw)⟩

namespace Owned

theorem initial : Owned ({} : ActiveWorkflowTriggers W N) := by
  refine ⟨fun w t ht => ?_, fun c hc => ?_, fun c hc => ?_, fun t n registration h => ?_⟩
  · cases ht
  · cases hc
  · cases hc
  · cases h

theorem moves (h : active.Owned) (hmoves : Moves S active active') : active'.Owned := by
  refine ⟨fun w t ht => (h.map w t (hmoves.map w t ht)).moves hmoves, fun c hc => ?_, fun c hc => ?_,
    fun t n registration hn => ?_⟩
  · exact (h.calls c (hmoves.calls ▸ hc)).moves hmoves
  · exact h.attempts c (hmoves.calls ▸ hc)
  · rcases (hmoves.tokens t).token n registration hn with ⟨before, hbefore, htoken⟩ | hnew
    · rw [← htoken]
      exact (h.tokens t n before hbefore).trans_le (hmoves.tokens t).nextToken
    · exact hnew.2

theorem getOrCreateWorkflowTriggersState (h : active.Owned) (workflowId : W) :
    (active.getOrCreateWorkflowTriggersState workflowId).1.Owned ∧
      (active.getOrCreateWorkflowTriggersState workflowId).1.Owns workflowId
        (active.getOrCreateWorkflowTriggersState workflowId).2 := by
  unfold ActiveWorkflowTriggers.getOrCreateWorkflowTriggersState
  split
  · rename_i existing hexisting
    exact ⟨h, h.map _ _ hexisting⟩
  · rename_i hnone
    have hold : ∀ w t, active.Owns w t → Owns { active with
        states := active.states ++ [{}]
        activeTriggersByWorkflowId :=
          active.activeTriggersByWorkflowId.set workflowId active.states.length } w t := by
      refine fun w t ht => ⟨by simpa using ht.1.trans (Nat.lt_succ_self _), fun w' hw' => ?_⟩
      rw [OrderedMap.get?_set] at hw'
      split at hw'
      · cases hw'
        exact absurd ht.1 (lt_irrefl _)
      · exact ht.2 w' hw'
    have hnew : Owns { active with
        states := active.states ++ [{}]
        activeTriggersByWorkflowId :=
          active.activeTriggersByWorkflowId.set workflowId active.states.length }
        workflowId active.states.length := by
      refine ⟨by simp, fun w' hw' => ?_⟩
      rw [OrderedMap.get?_set] at hw'
      split at hw'
      · rename_i heq
        exact heq.symm
      · exact absurd (h.map w' _ hw').1 (lt_irrefl _)
    refine ⟨⟨fun w t ht => ?_, fun c hc => hold _ _ (h.calls c hc), h.attempts,
      fun t n registration hn => ?_⟩, hnew⟩
    · rw [OrderedMap.get?_set] at ht
      split at ht
      · rename_i heq
        cases ht
        exact heq ▸ hnew
      · exact hold w t (h.map w t ht)
    · simp only [stateAt, getD_append_default] at hn ⊢
      exact h.tokens t n registration hn

/-- A new call has got where it waits. -/
theorem pushCall (h : result.1.Owned) (howns : result.1.Owns workflowId triggers)
    (hattempts : result.2.Attempts) : (pushCall workflowId triggers result).Owned := by
  refine ⟨h.map, fun c hc => ?_, fun c hc => ?_, h.tokens⟩
  · rcases List.mem_append.mp hc with hc | hc
    · exact h.calls c hc
    · rw [List.mem_singleton.mp hc]
      exact howns
  · rcases List.mem_append.mp hc with hc | hc
    · exact h.attempts c hc
    · rw [List.mem_singleton.mp hc]
      exact hattempts

theorem continueCall (h : result.1.Owned) (hattempts : result.2.Attempts) :
    (continueCall call result).Owned := by
  have hcalls : ∀ c ∈ result.1.calls.modify call (fun c => { c with progress := result.2 }),
      result.1.Owns c.workflowId c.triggers ∧ c.progress.Attempts := by
    intro c hc
    obtain ⟨i, hi⟩ := List.mem_iff_getElem?.mp hc
    rw [List.getElem?_modify] at hi
    obtain ⟨c', hc', heq⟩ := Option.map_eq_some_iff.mp hi
    have hmem := List.mem_of_getElem? hc'
    split at heq
    · rw [← heq]
      exact ⟨h.calls c' hmem, hattempts⟩
    · rw [← heq]
      exact ⟨h.calls c' hmem, h.attempts c' hmem⟩
  exact ⟨h.map, fun c hc => (hcalls c hc).1, fun c hc => (hcalls c hc).2, h.tokens⟩

end Owned

/-! ## Where the calls get -/

omit [DecidableEq W] in
theorem rollbackLoop_activates {nodes : List N} :
    (rollbackLoop triggers nodes active).2.activates = false := by
  induction nodes generalizing active with
  | nil => rfl
  | cons node nodes ih =>
    unfold rollbackLoop
    split
    · exact ih
    · rfl

theorem removeTriggersLoop_activates {nodes : List N} :
    (removeTriggersLoop workflowId triggers nodes active).2.activates = false := by
  induction nodes generalizing active with
  | nil => rfl
  | cons node nodes ih =>
    unfold removeTriggersLoop
    dsimp only
    split
    · exact ih
    · rfl

omit [DecidableEq N] in
theorem removeLoop_activates {cursor : ℕ} :
    (active.removeLoop workflowId triggers cursor).2.activates = false := by
  unfold removeLoop
  split <;> rfl

theorem closeSettled_activates {failure : Option CloseFailure}
    (h : active.closeSettled c failure = .ok result) : result.2.activates = false := by
  unfold closeSettled at h
  split at h
  · cases h
    exact rollbackLoop_activates
  · split at h
    · cases h
      rfl
    · cases h
      exact removeTriggersLoop_activates
  · split at h
    · cases h
      rfl
    · cases h
      exact removeLoop_activates
  · cases h

variable {triggerNodes pollNodes : List N} {registered attempted : OrderedSet N}

omit [DecidableEq W] in
theorem startTriggers_attempts (h : ∀ n ∈ registered.elems, n ∈ attempted.elems) :
    (active.startTriggers triggers triggerNodes pollNodes attempted registered).2.Attempts := by
  unfold startTriggers
  split
  · rename_i node rest _
    exact ⟨OrderedSet.mem_add.mpr (.inr rfl),
      fun n hn => OrderedSet.mem_add.mpr (.inl (h n hn))⟩
  · rename_i node rest
    refine ⟨OrderedSet.mem_add.mpr (.inr rfl), fun n hn => OrderedSet.mem_add.mpr ?_⟩
    exact (OrderedSet.mem_add.mp hn).imp_left (h n)
  · trivial

theorem triggerSettled_attempts {outcome : TriggerOutcome} (hnode : node ∈ attempted.elems)
    (h : ∀ n ∈ registered.elems, n ∈ attempted.elems) :
    (active.triggerSettled c node triggerNodes pollNodes attempted registered
      outcome).2.Attempts := by
  have hadd : ∀ n ∈ (registered.add node).elems, n ∈ attempted.elems := fun n hn =>
    (OrderedSet.mem_add.mp hn).elim (h n) fun heq => heq ▸ hnode
  cases outcome with
  | response closeFunction => exact startTriggers_attempts hadd
  | undefined =>
    unfold triggerSettled
    dsimp only
    split
    · exact startTriggers_attempts hadd
    · exact startTriggers_attempts h
  | throws => exact TriggerCallProgress.attempts_of_activates rollbackLoop_activates

/-- The next poll node has been registered, and it is new. -/
theorem startTriggers_polls {s : PollingTriggers W N} {rest : List N}
    {attempted' registered' : OrderedSet N}
    (h : (active.startTriggers triggers triggerNodes pollNodes attempted registered).2 =
      .polls node rest attempted' registered')
    (hnew : s.nextIsNew workflowId triggerNodes pollNodes = true)
    (hlength : triggers < active.states.length) : s.noneCurrent workflowId node = true ∧
      ∃ registration, ((active.startTriggers triggers triggerNodes pollNodes attempted
        registered).1.stateAt triggers).registrationsByNodeId.get? node = some registration := by
  unfold startTriggers at h ⊢
  split at h
  · cases h
  · cases h
    refine ⟨hnew, ((active.stateAt triggers).getOrCreateRegistration node).2, ?_⟩
    rw [stateAt_updateState, if_pos ⟨rfl, hlength⟩]
    exact get?_getOrCreateRegistration_self _ _
  · cases h

theorem triggerSettled_polls {s : PollingTriggers W N} {node' : N}
    {rest : List N} {attempted' registered' : OrderedSet N}
    {outcome : TriggerOutcome}
    (h : (active.triggerSettled c node triggerNodes pollNodes attempted registered outcome).2 =
      .polls node' rest attempted' registered')
    (hnew : outcome ≠ .throws → s.nextIsNew c.workflowId triggerNodes pollNodes = true)
    (hlength : c.triggers < active.states.length) : s.noneCurrent c.workflowId node' = true ∧
      ∃ registration, ((active.triggerSettled c node triggerNodes pollNodes attempted registered
        outcome).1.stateAt c.triggers).registrationsByNodeId.get? node' = some registration := by
  have hlength' : ∀ f, c.triggers < (active.updateState c.triggers f).states.length := fun f => by
    rw [updateState, List.length_modify]
    exact hlength
  cases outcome with
  | response closeFunction => exact startTriggers_polls h (hnew (by simp)) (hlength' _)
  | undefined =>
    unfold triggerSettled at h ⊢
    dsimp only at h ⊢
    split
    · rename_i htarget
      rw [if_pos htarget] at h
      exact startTriggers_polls h (hnew (by simp)) (hlength' _)
    · rename_i htarget
      rw [if_neg htarget] at h
      exact startTriggers_polls h (hnew (by simp)) hlength
  | throws =>
    have hactivates : (active.triggerSettled c node triggerNodes pollNodes attempted registered
      .throws).2.activates = false := rollbackLoop_activates
    rw [h] at hactivates
    cases hactivates

/-! ## Tokens -/

/-- The poller's token was given out by its object. -/
def Issued (active : ActiveWorkflowTriggers W N) (poller : Poller W N) : Prop :=
  poller.triggers < active.states.length ∧
    poller.token < (active.stateAt poller.triggers).nextToken

/-- A poller that is not current does not become current. -/
def Ages (active active' : ActiveWorkflowTriggers W N) : Prop :=
  ∀ poller, active.Issued poller → active'.Issued poller ∧
    (active'.isCurrent poller = true → active.isCurrent poller = true)

theorem isCurrent_iff {poller : Poller W N} : active.isCurrent poller = true ↔
    active.activeTriggersByWorkflowId.get? poller.workflowId = some poller.triggers ∧
      ∃ registration, (active.stateAt poller.triggers).registrationsByNodeId.get? poller.nodeId =
        some registration ∧ registration.token = poller.token := by
  unfold isCurrent
  cases active.activeTriggersByWorkflowId.get? poller.workflowId with
  | none => simp
  | some t =>
    dsimp only
    rw [Option.some_inj, Bool.and_eq_true, decide_eq_true_iff]
    refine and_congr_right fun heq => ?_
    rw [heq, Option.any_eq_true]
    simp only [decide_eq_true_eq]

namespace Ages

theorem refl (active : ActiveWorkflowTriggers W N) : Ages active active := fun _ h => ⟨h, id⟩

theorem trans {active'' : ActiveWorkflowTriggers W N} (h : Ages active active')
    (h' : Ages active' active'') : Ages active active'' := fun poller hissued =>
  have hissued' := (h poller hissued).1
  ⟨(h' poller hissued').1, fun hcurrent => (h poller hissued).2 ((h' poller hissued').2 hcurrent)⟩

theorem moves (h : Moves S active active') : Ages active active' := by
  intro poller hissued
  have hkept := h.tokens poller.triggers
  refine ⟨⟨h.length ▸ hissued.1, hissued.2.trans_le hkept.nextToken⟩, fun hcurrent => ?_⟩
  obtain ⟨hmap, registration, hget, htoken⟩ := isCurrent_iff.mp hcurrent
  refine isCurrent_iff.mpr ⟨h.map _ _ hmap, ?_⟩
  rcases hkept.token _ _ hget with ⟨before, hbefore, heq⟩ | ⟨hnew, -⟩
  · exact ⟨before, hbefore, heq.trans htoken⟩
  · exact absurd hissued.2 (not_lt.mpr (htoken ▸ hnew))

theorem getOrCreateWorkflowTriggersState :
    Ages active (active.getOrCreateWorkflowTriggersState workflowId).1 := by
  unfold ActiveWorkflowTriggers.getOrCreateWorkflowTriggersState
  split
  · exact refl active
  · intro poller hissued
    have hstate : ∀ map, stateAt { active with
        states := active.states ++ [{}], activeTriggersByWorkflowId := map } poller.triggers =
          active.stateAt poller.triggers := fun _ => getD_append_default _
    refine ⟨⟨by simpa using hissued.1.trans (Nat.lt_succ_self _), by
      rw [hstate]; exact hissued.2⟩, fun hcurrent => ?_⟩
    obtain ⟨hmap, hregistered⟩ := isCurrent_iff.mp hcurrent
    rw [hstate] at hregistered
    refine isCurrent_iff.mpr ⟨?_, hregistered⟩
    rw [OrderedMap.get?_set] at hmap
    split at hmap
    · exact absurd hissued.1 (by rw [← Option.some.inj hmap]; exact lt_irrefl _)
    · exact hmap

end Ages

/-! ## Cover -/

/-- Every cron is of a node that is registered or being started. -/
def Covered (active : ActiveWorkflowTriggers W N) : Prop :=
  ∀ w n, (w, n) ∈ active.crons → active.covers w n = true

theorem starts_iff {n : N} {k : Option ℕ} : active.starts workflowId n k = true ↔
    ∃ i c, active.calls[i]? = some c ∧ some i ≠ k ∧ c.workflowId = workflowId ∧
      c.progress.startsNode n = true := by
  simp only [starts, List.any_eq_true, Prod.exists, List.mem_zipIdx_iff_getElem?, Bool.and_eq_true,
    decide_eq_true_iff, and_assoc]
  exact exists_comm

theorem covers_iff {n : N} : active.covers workflowId n = true ↔
    active.registers workflowId n = true ∨ active.starts workflowId n none = true := by
  rw [covers, Bool.or_eq_true]

/-- The call is the one that starts the node, or another is. -/
theorem starts_cases {n : N} (hc : active.calls[call]? = some c)
    (h : active.starts workflowId n none = true) :
    active.starts workflowId n (some call) = true ∨
      c.workflowId = workflowId ∧ c.progress.startsNode n = true := by
  obtain ⟨i, c', hc', -, hstarts⟩ := starts_iff.mp h
  by_cases hi : i = call
  · subst hi
    cases hc.symm.trans hc'
    exact .inr hstarts
  · exact .inl (starts_iff.mpr ⟨i, c', hc', fun heq => hi (Option.some.inj heq), hstarts⟩)

omit [DecidableEq W] [DecidableEq N] in
theorem getElem?_continueCall (hcalls : result.1.calls = active.calls) (i : ℕ) :
    (ActiveWorkflowTriggers.continueCall call result).calls[i]? =
      if call = i then active.calls[i]?.map fun c => { c with progress := result.2 }
      else active.calls[i]? := by
  rw [ActiveWorkflowTriggers.continueCall, setProgress, hcalls, List.getElem?_modify]
  split
  · rfl
  · simp

theorem Covered.continueCall (hcalls : result.1.calls = active.calls)
    (h : ∀ w n, (w, n) ∈ result.1.crons →
      result.1.registers w n = true ∨ active.starts w n (some call) = true) :
    Covered (continueCall call result) := by
  intro w n hcron
  refine covers_iff.mpr ((h w n hcron).imp id fun hstarts => ?_)
  obtain ⟨i, c, hc, hi, hstarts⟩ := starts_iff.mp hstarts
  refine starts_iff.mpr ⟨i, c, ?_, by simp, hstarts⟩
  rw [getElem?_continueCall hcalls, if_neg fun heq => hi (congrArg some heq.symm), hc]

theorem Covered.pushCall (hcalls : result.1.calls = active.calls)
    (h : ∀ w n, (w, n) ∈ result.1.crons →
      result.1.registers w n = true ∨ active.starts w n none = true) :
    Covered (pushCall workflowId triggers result) := by
  intro w n hcron
  refine covers_iff.mpr ((h w n hcron).imp id fun hstarts => ?_)
  obtain ⟨i, c, hc, hi, hstarts⟩ := starts_iff.mp hstarts
  refine starts_iff.mpr ⟨i, c, ?_, hi, hstarts⟩
  rw [ActiveWorkflowTriggers.pushCall, hcalls,
    List.getElem?_append_left (List.getElem?_eq_some_iff.mp hc).1, hc]

/-- What speaks for a cron that is left is as before, or it has `S`. -/
theorem Moves.covers (hmoves : Moves S active active') {w : W} {n : N}
    (h : active.covers w n = true) (hcron : (w, n) ∈ active'.crons) :
    (active'.registers w n = true ∨ active.starts w n none = true) ∨ S w n :=
  (covers_iff.mp h).elim (fun hregisters => (hmoves.registers w n hcron hregisters).imp_left .inl)
    fun hstarts => .inl (.inr hstarts)

theorem Covered.moves (h : active.Covered) (hmoves : Moves S active active') {w : W} {n : N}
    (hcron : (w, n) ∈ active'.crons) :
    (active'.registers w n = true ∨ active.starts w n none = true) ∨ S w n :=
  hmoves.covers (h w n (hmoves.crons _ hcron)) hcron

theorem Covered.quiet (h : active.Covered) (hmoves : Moves (fun _ _ => False) active active') :
    active'.Covered := by
  intro w n hcron
  refine covers_iff.mpr (((h.moves hmoves hcron).resolve_right id).imp_right fun hstarts => ?_)
  obtain ⟨i, c, hc, hi⟩ := starts_iff.mp hstarts
  exact starts_iff.mpr ⟨i, c, hmoves.calls ▸ hc, hi⟩

theorem Covered.getOrCreateWorkflowTriggersState (h : active.Covered) (workflowId : W) :
    (active.getOrCreateWorkflowTriggersState workflowId).1.Covered := by
  unfold ActiveWorkflowTriggers.getOrCreateWorkflowTriggersState
  split
  · exact h
  · rename_i hnone
    intro w n hcron
    refine covers_iff.mpr ((covers_iff.mp (h w n hcron)).imp_left fun hregisters => ?_)
    obtain ⟨t, ht, hn⟩ := registers_iff.mp hregisters
    have hne : workflowId ≠ w := by
      rintro rfl
      rw [hnone] at ht
      cases ht
    refine registers_iff.mpr ⟨t, (OrderedMap.get?_set_of_ne _ _ hne).trans ht, ?_⟩
    rwa [stateAt, getD_append_default]

omit [DecidableEq N] in
theorem calls_getOrCreateWorkflowTriggersState (active : ActiveWorkflowTriggers W N)
    (workflowId : W) : (active.getOrCreateWorkflowTriggersState workflowId).1.calls = active.calls := by
  unfold getOrCreateWorkflowTriggersState
  split <;> rfl

/-- A rollback leaves no cron of a node that was attempted. -/
theorem not_attempted_of_rollback {n : N}
    (h : (workflowId, n) ∈
      (active.rollbackPartialActivation workflowId triggers attempted registered).1.crons) :
    n ∉ attempted.elems ∧ (workflowId, n) ∈ active.crons :=
  Moves.not_mem_foldl_deregisterTarget
    ((Moves.rollbackLoop (S := fun _ _ => True) fun _ _ _ _ _ => trivial).crons _ h)

/-- A trigger that has settled with a cron is registered where the workflow's state is. -/
theorem registers_triggerSettled {outcome : TriggerOutcome} (hnode : node ∈ attempted.elems)
    (hmap : active.activeTriggersByWorkflowId.get? c.workflowId = some c.triggers)
    (hlength : c.triggers < active.states.length)
    (hcron : (c.workflowId, node) ∈ (active.triggerSettled c node triggerNodes pollNodes attempted
      registered outcome).1.crons) : (active.triggerSettled c node triggerNodes pollNodes attempted
        registered outcome).1.registers c.workflowId node = true := by
  have hstart : ∀ {active : ActiveWorkflowTriggers W N} {registered : OrderedSet N},
      (c.workflowId, node) ∈ (active.startTriggers c.triggers triggerNodes pollNodes attempted
        registered).1.crons → active.registers c.workflowId node = true →
      (active.startTriggers c.triggers triggerNodes pollNodes attempted registered).1.registers
        c.workflowId node = true := fun hcron h =>
    ((Moves.startTriggers (S := fun _ _ => False)).registers _ _ hcron h).resolve_right id
  cases outcome with
  | response closeFunction =>
    refine hstart hcron (registers_iff.mpr ⟨c.triggers, hmap, ?_⟩)
    rw [stateAt_updateState, if_pos ⟨rfl, hlength⟩]
    exact has_addTriggerResponse _ _ _ (.inr rfl)
  | undefined =>
    unfold triggerSettled at hcron ⊢
    dsimp only at hcron ⊢
    split
    · rename_i htarget
      rw [if_pos htarget] at hcron
      refine hstart hcron (registers_iff.mpr ⟨c.triggers, hmap, ?_⟩)
      rw [stateAt_updateState, if_pos ⟨rfl, hlength⟩]
      exact has_getOrCreateRegistration _ _ (.inr rfl)
    · rename_i htarget
      rw [if_neg htarget] at hcron
      have hmem := (Moves.startTriggers (S := fun _ _ => False)).crons _ hcron
      exact absurd (decide_eq_true hmem) htarget
  | throws => exact absurd hnode (not_attempted_of_rollback hcron).1

end ActiveWorkflowTriggers

end N8n
