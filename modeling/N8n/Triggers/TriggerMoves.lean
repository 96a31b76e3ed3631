import N8n.Triggers.ActiveWorkflowTriggersRuns
import N8n.Triggers.Pollers

/-!
# Moves of the active workflow triggers

`Moves` is what a call does to the triggers between two of its waits : state objects and tokens
are kept or new, crons only go, and a registration with a cron stays, or a given condition takes
its place. So a token that is not current does not become current again.
-/

open Lib

namespace N8n

/-! ## State objects -/

namespace WorkflowActiveTriggersState

variable {N : Type} [DecidableEq N] {triggers triggers' : WorkflowActiveTriggersState N} {node : N}

/-- A registration of the second has the token it has in the first, or a new one. -/
structure TokensKept (triggers triggers' : WorkflowActiveTriggersState N) : Prop where
  nextToken : triggers.nextToken ≤ triggers'.nextToken
  token : ∀ n registration', triggers'.registrationsByNodeId.get? n = some registration' →
    (∃ registration, triggers.registrationsByNodeId.get? n = some registration ∧
      registration.token = registration'.token) ∨
    triggers.nextToken ≤ registration'.token ∧ registration'.token < triggers'.nextToken

namespace TokensKept

theorem refl (triggers : WorkflowActiveTriggersState N) : TokensKept triggers triggers :=
  ⟨le_rfl, fun _ registration h => .inl ⟨registration, h, rfl⟩⟩

theorem trans {triggers'' : WorkflowActiveTriggersState N} (h : TokensKept triggers triggers')
    (h' : TokensKept triggers' triggers'') : TokensKept triggers triggers'' := by
  refine ⟨h.nextToken.trans h'.nextToken, fun n registration hn => ?_⟩
  rcases h'.token n registration hn with ⟨registration', hn', htoken'⟩ | ⟨hnew, hlt⟩
  · rcases h.token n registration' hn' with ⟨registration'', hn'', htoken''⟩ | ⟨hnew, hlt⟩
    · exact .inl ⟨registration'', hn'', htoken''.trans htoken'⟩
    · rw [htoken'] at hnew hlt
      exact .inr ⟨hnew, hlt.trans_le h'.nextToken⟩
  · exact .inr ⟨h.nextToken.trans hnew, hlt⟩

theorem of_eq (hmap : triggers'.registrationsByNodeId = triggers.registrationsByNodeId)
    (hnext : triggers'.nextToken = triggers.nextToken) : TokensKept triggers triggers' :=
  ⟨hnext.ge, fun _ registration h => .inl ⟨registration, hmap ▸ h, rfl⟩⟩

theorem getOrCreateRegistration (triggers : WorkflowActiveTriggersState N) (node : N) :
    TokensKept triggers (triggers.getOrCreateRegistration node).1 := by
  unfold WorkflowActiveTriggersState.getOrCreateRegistration
  split
  · exact refl triggers
  · refine ⟨Nat.le_succ _, fun n registration h => ?_⟩
    dsimp only at h
    rw [OrderedMap.get?_set] at h
    split at h
    · cases h
      exact .inr ⟨le_rfl, Nat.lt_succ_self _⟩
    · exact .inl ⟨registration, h, rfl⟩

theorem delete (triggers : WorkflowActiveTriggersState N) (node : N) :
    TokensKept triggers (triggers.delete node) := by
  refine ⟨le_rfl, fun n registration h => ?_⟩
  simp only [WorkflowActiveTriggersState.delete, OrderedMap.get?_delete] at h
  split at h
  · cases h
  · exact .inl ⟨registration, h, rfl⟩

end TokensKept

theorem get?_getOrCreateRegistration_self (triggers : WorkflowActiveTriggersState N) (node : N) :
    (triggers.getOrCreateRegistration node).1.registrationsByNodeId.get? node =
      some (triggers.getOrCreateRegistration node).2 := by
  unfold getOrCreateRegistration
  split
  · assumption
  · exact OrderedMap.get?_set_self _ _ _

theorem TokensKept.addTriggerResponse (triggers : WorkflowActiveTriggersState N) (node : N)
    (response : ℕ) : TokensKept triggers (triggers.addTriggerResponse node response) := by
  refine (TokensKept.getOrCreateRegistration triggers node).trans
    ⟨le_rfl, fun n registration h => ?_⟩
  simp only [WorkflowActiveTriggersState.addTriggerResponse, OrderedMap.get?_set] at h
  split at h
  · rename_i hn
    subst hn
    cases h
    exact .inl ⟨_, get?_getOrCreateRegistration_self triggers node, rfl⟩
  · exact .inl ⟨registration, h, rfl⟩

theorem has_getOrCreateRegistration (triggers : WorkflowActiveTriggersState N) (node : N) {n : N}
    (h : triggers.registrationsByNodeId.has n = true ∨ node = n) :
    (triggers.getOrCreateRegistration node).1.registrationsByNodeId.has n = true := by
  by_cases hn : node = n
  · subst hn
    rw [OrderedMap.has, get?_getOrCreateRegistration_self]
    rfl
  · have h := h.resolve_right hn
    unfold getOrCreateRegistration
    split
    · exact h
    · dsimp only
      rwa [OrderedMap.has, OrderedMap.get?_set_of_ne _ _ hn]

theorem has_addTriggerResponse (triggers : WorkflowActiveTriggersState N) (node : N)
    (response : ℕ) {n : N} (h : triggers.registrationsByNodeId.has n = true ∨ node = n) :
    (triggers.addTriggerResponse node response).registrationsByNodeId.has n = true := by
  have h := has_getOrCreateRegistration triggers node h
  simp only [addTriggerResponse, OrderedMap.has, OrderedMap.get?_set]
  split
  · rfl
  · exact h

end WorkflowActiveTriggersState

open WorkflowActiveTriggersState

namespace ActiveWorkflowTriggers

variable {W N : Type} [DecidableEq W] [DecidableEq N] {active active' : ActiveWorkflowTriggers W N}
  {S : W → N → Prop} {triggers response : ℕ} {node : N} {workflowId : W}

theorem registers_iff {n : N} : active.registers workflowId n = true ↔
    ∃ t, active.activeTriggersByWorkflowId.get? workflowId = some t ∧
      (active.stateAt t).registrationsByNodeId.has n = true := by
  unfold registers
  cases active.activeTriggersByWorkflowId.get? workflowId <;> simp

/-! ## Between two waits -/

/-- Objects and tokens are kept, crons only go, and a node with a cron stays registered or has
`S`. -/
structure Moves (S : W → N → Prop) (active active' : ActiveWorkflowTriggers W N) : Prop where
  length : active'.states.length = active.states.length
  map : ∀ w t, active'.activeTriggersByWorkflowId.get? w = some t →
    active.activeTriggersByWorkflowId.get? w = some t
  tokens : ∀ t, TokensKept (active.stateAt t) (active'.stateAt t)
  crons : ∀ target ∈ active'.crons, target ∈ active.crons
  calls : active'.calls = active.calls
  registers : ∀ w n, (w, n) ∈ active'.crons → active.registers w n = true →
    active'.registers w n = true ∨ S w n

namespace Moves

theorem refl (active : ActiveWorkflowTriggers W N) : Moves S active active :=
  ⟨rfl, fun _ _ h => h, fun _ => .refl _, fun _ h => h, rfl, fun _ _ _ h => .inl h⟩

theorem trans {active'' : ActiveWorkflowTriggers W N} (h : Moves S active active')
    (h' : Moves S active' active'') : Moves S active active'' :=
  ⟨h'.length.trans h.length, fun w t ht => h.map w t (h'.map w t ht),
    fun t => (h.tokens t).trans (h'.tokens t), fun x hx => h.crons x (h'.crons x hx),
    h'.calls.trans h.calls, fun w n hcron hregistered =>
      (h.registers w n (h'.crons _ hcron) hregistered).elim (h'.registers w n hcron) .inr⟩

/-- Neither the objects nor the crons have a part in it. -/
theorem of_eq (hmap : active'.activeTriggersByWorkflowId = active.activeTriggersByWorkflowId)
    (hstates : active'.states = active.states) (hcrons : ∀ x ∈ active'.crons, x ∈ active.crons)
    (hcalls : active'.calls = active.calls) : Moves S active active' := by
  refine ⟨by rw [hstates], fun w t ht => hmap ▸ ht, fun t => ?_, hcrons, hcalls,
    fun w n _ h => .inl ?_⟩
  · simp only [stateAt, hstates]
    exact .refl _
  · simpa only [ActiveWorkflowTriggers.registers, stateAt, hmap, hstates] using h

/-- A state object changes; a node with a cron keeps its registration or has `S`. -/
theorem updateState {f : WorkflowActiveTriggersState N → WorkflowActiveTriggersState N}
    (htokens : TokensKept (active.stateAt triggers) (f (active.stateAt triggers)))
    (hhas : ∀ n, (active.stateAt triggers).registrationsByNodeId.has n = true →
      (f (active.stateAt triggers)).registrationsByNodeId.has n = true ∨
        ∀ w, active.activeTriggersByWorkflowId.get? w = some triggers → (w, n) ∈ active.crons →
          S w n) : Moves S active (active.updateState triggers f) := by
  refine ⟨List.length_modify .., fun w t ht => ht, fun t => ?_, fun x hx => hx, rfl,
    fun w n hcron h => ?_⟩
  · rw [stateAt_updateState]
    split
    · rename_i heq
      obtain ⟨rfl, -⟩ := heq
      exact htokens
    · exact .refl _
  · obtain ⟨t, ht, hn⟩ := registers_iff.mp h
    by_cases hobject : triggers = t ∧ t < active.states.length
    · obtain ⟨rfl, hlt⟩ := hobject
      rcases hhas n hn with hn | hS
      · exact .inl (registers_iff.mpr ⟨triggers, ht, by
          rwa [stateAt_updateState, if_pos ⟨rfl, hlt⟩]⟩)
      · exact .inr (hS w ht hcron)
    · exact .inl (registers_iff.mpr ⟨t, ht, by rwa [stateAt_updateState, if_neg hobject]⟩)

theorem addPoller : Moves S active (active.updateState triggers (·.addPoller node)) :=
  updateState (.getOrCreateRegistration _ _) fun _ hn => .inl (has_getOrCreateRegistration _ _ (.inl hn))

theorem addScheduledTrigger :
    Moves S active (active.updateState triggers (·.addScheduledTrigger node)) :=
  updateState (.getOrCreateRegistration _ _) fun _ hn => .inl (has_getOrCreateRegistration _ _ (.inl hn))

theorem addTriggerResponse :
    Moves S active (active.updateState triggers (·.addTriggerResponse node response)) :=
  updateState (.addTriggerResponse _ _ _) fun _ hn => .inl (has_addTriggerResponse _ _ _ (.inl hn))

theorem beginRegistration : Moves S active (active.updateState triggers (·.beginRegistration)) :=
  updateState (.of_eq rfl rfl) fun _ hn => .inl hn

theorem finishRegistration : Moves S active (active.updateState triggers (·.finishRegistration)) :=
  updateState (.of_eq rfl rfl) fun _ hn => .inl hn

theorem delete (h : ∀ w, active.activeTriggersByWorkflowId.get? w = some triggers →
    (w, node) ∈ active.crons → S w node) :
    Moves S active (active.updateState triggers (·.delete node)) := by
  refine updateState (.delete _ _) fun n hn => ?_
  by_cases heq : node = n
  · exact .inr (heq ▸ h)
  · refine .inl ?_
    simpa only [WorkflowActiveTriggersState.delete, OrderedMap.has, OrderedMap.get?_delete,
      if_neg heq] using hn

theorem closeTrigger : Moves S active (active.closeTrigger response) :=
  of_eq rfl rfl (fun _ h => h) rfl

theorem deregisterTarget : Moves S active (active.deregisterTarget workflowId node) :=
  of_eq rfl rfl (fun _ h => List.mem_of_mem_filter h) rfl

theorem deregisterGroup : Moves S active (active.deregisterGroup workflowId) :=
  of_eq rfl rfl (fun _ h => List.mem_of_mem_filter h) rfl

theorem deleteWorkflow (h : ∀ n, (workflowId, n) ∈ active.crons →
    active.activeTriggersByWorkflowId.get? workflowId ≠ none → S workflowId n) :
    Moves S active (active.deleteWorkflow workflowId) := by
  refine ⟨rfl, fun w t ht => ?_, fun t => .refl _, fun x hx => hx, rfl, fun w n hcron hreg => ?_⟩
  · rw [ActiveWorkflowTriggers.deleteWorkflow, OrderedMap.get?_delete] at ht
    split at ht
    · cases ht
    · exact ht
  · obtain ⟨t, ht, hn⟩ := registers_iff.mp hreg
    by_cases hw : workflowId = w
    · subst hw
      exact .inr (h n hcron (by simp [ht]))
    · refine .inl (registers_iff.mpr ⟨t, ?_, hn⟩)
      rwa [ActiveWorkflowTriggers.deleteWorkflow, OrderedMap.get?_delete, if_neg hw]

theorem deleteWorkflowIfEmpty :
    Moves S active (active.deleteWorkflowIfEmpty workflowId triggers) := by
  unfold ActiveWorkflowTriggers.deleteWorkflowIfEmpty
  split
  · exact refl active
  · split
    · exact refl active
    · split
      · exact refl active
      · rename_i hgroup
        refine deleteWorkflow fun n hcron _ => absurd ?_ hgroup
        exact List.any_eq_true.mpr ⟨_, hcron, by simp⟩

/-- The crons of the nodes are gone. -/
theorem not_mem_foldl_deregisterTarget {nodes : List N} {n : N}
    (h : (workflowId, n) ∈ (nodes.foldl
      (fun active node => active.deregisterTarget workflowId node) active).crons) :
    n ∉ nodes ∧ (workflowId, n) ∈ active.crons := by
  induction nodes generalizing active with
  | nil => exact ⟨List.not_mem_nil, h⟩
  | cons node nodes ih =>
    obtain ⟨hnot, hmem⟩ := ih h
    obtain ⟨hmem, hne⟩ := List.mem_filter.mp hmem
    have hne : n ≠ node := by
      rintro rfl
      simp at hne
    exact ⟨List.not_mem_cons_of_ne_of_not_mem hne hnot, hmem⟩

theorem foldl_deregisterTarget {nodes : List N} : Moves S active
    (nodes.foldl (fun active node => active.deregisterTarget workflowId node) active) := by
  induction nodes generalizing active with
  | nil => exact refl active
  | cons node nodes ih => exact deregisterTarget.trans ih

/-! ## Calls -/

theorem startTriggers {triggerNodes pollNodes : List N} {attempted registered : OrderedSet N} :
    Moves S active
      (active.startTriggers triggers triggerNodes pollNodes attempted registered).1 := by
  unfold ActiveWorkflowTriggers.startTriggers
  split
  · exact refl active
  · exact addPoller
  · exact refl active

omit [DecidableEq W] in
theorem isNone_get_delete :
    (fun m => (((active.updateState triggers (·.delete node)).stateAt triggers).get m).isNone) =
      fun m => m = node || ((active.stateAt triggers).get m).isNone := by
  funext m
  rw [stateAt_updateState]
  split
  · rw [get_delete]
    by_cases hm : m = node
    · simp [hm]
    · simp [hm, Ne.symm hm]
  · rename_i hlength
    have hdefault : active.stateAt triggers = {} := by
      rw [stateAt, List.getD_eq_getElem?_getD,
        List.getElem?_eq_none (not_lt.mp fun hlt => hlength ⟨rfl, hlt⟩)]
      rfl
    rw [hdefault]
    simp [WorkflowActiveTriggersState.get, OrderedMap.get?, OrderedMap.empty, OrderedMap.find]

/-- The loop deletes the nodes without a response up to the first with one. -/
theorem rollbackLoop {nodes : List N}
    (h : ∀ n ∈ nodes.takeWhile (fun m => ((active.stateAt triggers).get m).isNone), ∀ w,
      active.activeTriggersByWorkflowId.get? w = some triggers → (w, n) ∈ active.crons → S w n) :
    Moves S active (ActiveWorkflowTriggers.rollbackLoop triggers nodes active).1 := by
  induction nodes generalizing active with
  | nil => exact refl active
  | cons node nodes ih =>
    unfold ActiveWorkflowTriggers.rollbackLoop
    split
    · rename_i hnone
      rw [List.takeWhile_cons_of_pos (by rw [hnone]; rfl)] at h
      refine Moves.trans (delete (h node List.mem_cons_self)) (ih fun n hn w hw hcron => ?_)
      -- the responses of the other nodes are as before
      have hget : (fun m => (m = node : Bool) || ((active.stateAt triggers).get m).isNone) =
          fun m => ((active.stateAt triggers).get m).isNone := by
        funext m
        by_cases hm : m = node
        · simp [hm, hnone]
        · simp [hm]
      rw [isNone_get_delete, hget] at hn
      exact h n (List.mem_cons_of_mem _ hn) w hw hcron
    · exact closeTrigger

theorem rollbackPartialActivation {attempted registered : OrderedSet N}
    (hown : ∀ w, active.activeTriggersByWorkflowId.get? w = some triggers → w = workflowId)
    (hsubset : ∀ n ∈ registered.elems, n ∈ attempted.elems) : Moves S active
      (active.rollbackPartialActivation workflowId triggers attempted registered).1 := by
  refine Moves.trans foldl_deregisterTarget (rollbackLoop fun n hn w hw hcron => ?_)
  obtain rfl := hown w (foldl_deregisterTarget.map (S := S) w triggers hw)
  exact absurd (hsubset n (List.takeWhile_subset _ hn)) (not_mem_foldl_deregisterTarget hcron).1

theorem removeTriggersLoop {nodes : List N}
    (hown : ∀ w, active.activeTriggersByWorkflowId.get? w = some triggers → w = workflowId) :
    Moves S active (ActiveWorkflowTriggers.removeTriggersLoop workflowId triggers nodes active).1 := by
  induction nodes generalizing active with
  | nil => exact deleteWorkflowIfEmpty
  | cons node nodes ih =>
    unfold ActiveWorkflowTriggers.removeTriggersLoop
    have hmoves : Moves S active (active.deregisterTarget workflowId node) := deregisterTarget
    refine hmoves.trans ?_
    dsimp only
    split
    · refine Moves.trans (delete fun w hw hcron => ?_) (ih hown)
      obtain rfl := hown w hw
      exact absurd hcron (by simp [ActiveWorkflowTriggers.deregisterTarget])
    · exact closeTrigger

theorem removeLoop {cursor : ℕ}
    (h : (active.stateAt triggers).nextResponse cursor = none → ∀ n,
      (workflowId, n) ∈ active.crons →
      active.activeTriggersByWorkflowId.get? workflowId ≠ none → S workflowId n) :
    Moves S active (active.removeLoop workflowId triggers cursor).1 := by
  unfold ActiveWorkflowTriggers.removeLoop
  split
  · exact closeTrigger
  · rename_i hnone
    exact deleteWorkflow (h hnone)

theorem triggerSettled {c : TriggerCall W N} {triggerNodes pollNodes : List N}
    {attempted registered : OrderedSet N} {outcome : TriggerOutcome}
    (hown : ∀ w, active.activeTriggersByWorkflowId.get? w = some c.triggers → w = c.workflowId)
    (hsubset : ∀ n ∈ registered.elems, n ∈ attempted.elems) :
    Moves S active (active.triggerSettled c node triggerNodes pollNodes attempted registered
      outcome).1 := by
  cases outcome with
  | response closeFunction =>
    have hmoves : Moves S active { active with responses := active.responses ++
      [{ workflowId := c.workflowId, closeFunction }] } := of_eq rfl rfl (fun _ h => h) rfl
    exact hmoves.trans (addTriggerResponse.trans startTriggers)
  | undefined =>
    unfold ActiveWorkflowTriggers.triggerSettled
    dsimp only
    split
    · exact addScheduledTrigger.trans startTriggers
    · exact startTriggers
  | throws => exact rollbackPartialActivation hown hsubset

theorem closeSettled {c : TriggerCall W N} {failure : Option CloseFailure}
    {result : ActiveWorkflowTriggers W N × TriggerCallProgress N}
    (hown : ∀ w, active.activeTriggersByWorkflowId.get? w = some c.triggers → w = c.workflowId)
    (hresult : active.closeSettled c failure = .ok result)
    (hevent : active.leavesNoCron c failure = true) :
    Moves (fun w n => active.starts w n none = true) active result.1 := by
  have hdelete : ∀ {n}, active.canDelete c.workflowId c.triggers n = true → ∀ w,
      active.activeTriggersByWorkflowId.get? w = some c.triggers → (w, n) ∈ active.crons →
      active.starts w n none = true := by
    intro n hn w hw hcron
    obtain rfl := hown w hw
    simpa [canDelete, hw, hasTarget, hcron] using hn
  unfold ActiveWorkflowTriggers.closeSettled at hresult
  unfold leavesNoCron at hevent
  split at hresult
  · rename_i node nodes hprogress
    cases hresult
    simp only [hprogress, List.all_cons, Bool.and_eq_true, List.all_eq_true] at hevent
    refine Moves.trans (delete (hdelete hevent.1)) (rollbackLoop fun n hn w hw hcron => ?_)
    refine hdelete (hevent.2 n ?_) w hw hcron
    rwa [isNone_get_delete] at hn
  · rename_i node nodes hprogress
    simp only [hprogress] at hevent
    split at hresult
    · cases hresult
      exact refl active
    · rename_i hfailure
      cases hresult
      simp only [hfailure, decide_false, Bool.false_or] at hevent
      exact Moves.trans (delete (hdelete hevent)) (removeTriggersLoop hown)
  · rename_i cursor hprogress
    simp only [hprogress] at hevent
    split at hresult
    · cases hresult
      exact refl active
    · rename_i hfailure
      cases hresult
      refine removeLoop fun hnone n hcron hsome => ?_
      simp only [hfailure, decide_false, Bool.false_or, hnone, Option.isSome_none,
        Bool.or_eq_true, List.all_eq_true] at hevent
      rcases hevent with hnone | hall
      · exact absurd (Option.isNone_iff_eq_none.mp hnone) hsome
      · simpa using hall _ hcron
  · cases hresult

end Moves

end ActiveWorkflowTriggers

end N8n
