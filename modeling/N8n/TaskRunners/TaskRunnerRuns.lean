import N8n.TaskRunners.TaskRunner

/-!
# Runs of the task runner

Offers are made for free slots only, and an offer that is accepted makes room for its task. Each
task goes through its phases in one direction : it runs while it waits or executes, and its
terminal message is sent when it ends (`TaskRunner.Sound`, `Sound.moves`). `taskRunner_run` has
what follows for every sequence of events.
-/

open Lib

namespace N8n

namespace Runner

variable {T D E : Type} [DecidableEq T] {config : RunnerConfig T D E}
  {runner runner' : TaskRunner T D E}

/-- The task waits for its settings or is executed. -/
def TaskPhase.isLive {E : Type} : TaskPhase E → Bool
  | .waits | .executes => true
  | .fails _ | .ended => false

/-- Only a task that has no settings waits for them. -/
structure TaskState.Sound (t : TaskState T E) : Prop where
  waits : t.phase = .waits → t.status = .waitingForSettings
  executes : t.phase = .executes → t.status ≠ .waitingForSettings
  fails : ∀ error, t.phase = .fails error → t.status = .running ∨ t.status = .abortingTimeout
  timer : t.timeoutTimer = true → t.phase.isLive = true

namespace TaskRunner

/-! ## Offers -/

omit [DecidableEq T] in
/-- What the offers leave as it is. -/
structure SameTasks (runner runner' : TaskRunner T D E) : Prop where
  taskStates : runner'.taskStates = runner.taskStates
  runningTasks : runner'.runningTasks = runner.runningTasks
  accepts : runner'.accepts = runner.accepts
  executions : runner'.executions = runner.executions
  reported : runner'.reported = runner.reported
  rejected : runner'.rejected = runner.rejected

omit [DecidableEq T] in
theorem sameTasks_sendOffersLoop (config : RunnerConfig T D E) (n : ℕ) (runner : TaskRunner T D E) :
    SameTasks runner (sendOffersLoop config n runner) := by
  induction n generalizing runner with
  | zero => exact ⟨rfl, rfl, rfl, rfl, rfl, rfl⟩
  | succ n ih =>
    obtain ⟨h₁, h₂, h₃, h₄, h₅, h₆⟩ := ih (runner.sendOffer config)
    refine ⟨h₁, h₂, h₃, h₄, h₅.trans ?_, h₆.trans ?_⟩
    · simp [reported, sendOffer, RunnerMessage.reportedTask]
    · simp [rejected, sendOffer, RunnerMessage.rejectedTask]

omit [DecidableEq T] in
theorem sameTasks_sendOffers : SameTasks runner (runner.sendOffers config) := by
  unfold sendOffers
  dsimp only
  split
  · exact ⟨rfl, rfl, rfl, rfl, rfl, rfl⟩
  · obtain ⟨h₁, h₂, h₃, h₄, h₅, h₆⟩ := sameTasks_sendOffersLoop config
      (config.maxConcurrency -
        (runner.deleteStaleOffers.openOffers.size + runner.deleteStaleOffers.runningTasks.size))
      runner.deleteStaleOffers
    exact ⟨h₁, h₂, h₃, h₄, h₅, h₆⟩

omit [DecidableEq T] in
theorem capacity_sendOffersLoop (config : RunnerConfig T D E) (n : ℕ) (runner : TaskRunner T D E) :
    (sendOffersLoop config n runner).openOffers.size ≤ runner.openOffers.size + n := by
  induction n generalizing runner with
  | zero => exact Nat.le_refl _
  | succ n ih =>
    have hset : (runner.sendOffer config).openOffers.size ≤ runner.openOffers.size + 1 := by
      simp only [sendOffer, OrderedMap.size_set]
      split <;> omega
    have hrest := ih (runner.sendOffer config)
    rw [sendOffersLoop]
    omega

omit [DecidableEq T] in
/-- Offers fill the free slots. -/
theorem capacity_sendOffers
    (h : runner.openOffers.size + runner.runningTasks.size ≤ config.maxConcurrency) :
    (runner.sendOffers config).openOffers.size + (runner.sendOffers config).runningTasks.size ≤
      config.maxConcurrency := by
  have hstale : runner.deleteStaleOffers.openOffers.size ≤ runner.openOffers.size :=
    OrderedMap.size_deleteAll_le ..
  have hloop := capacity_sendOffersLoop config (config.maxConcurrency -
    (runner.deleteStaleOffers.openOffers.size + runner.deleteStaleOffers.runningTasks.size))
    runner.deleteStaleOffers
  have hrunning : runner.deleteStaleOffers.runningTasks = runner.runningTasks := rfl
  rw [sameTasks_sendOffers.runningTasks]
  unfold sendOffers
  dsimp only
  split
  · omega
  · rw [hrunning] at hloop ⊢
    omega

/-! ## Tasks -/

/-- What holds of the tasks in every state. -/
structure Sound (config : RunnerConfig T D E) (runner : TaskRunner T D E) : Prop where
  capacity : runner.openOffers.size + runner.runningTasks.size ≤ config.maxConcurrency
  tasks : ∀ t ∈ runner.taskStates, t.Sound
  distinct : (runner.taskStates.map TaskState.taskId).Nodup
  accepted : ∀ t ∈ runner.taskStates, t.taskId ∈ runner.accepts
  rejected : ∀ taskId ∈ runner.rejected, taskId ∈ runner.accepts ∧
    ∀ t ∈ runner.taskStates, t.taskId ≠ taskId
  running : ∀ taskId index, runner.runningTasks.get? taskId = some index ↔
    ∃ t, runner.taskStates[index]? = some t ∧ t.taskId = taskId ∧ t.phase.isLive = true
  executed : ∀ taskId ∈ runner.executions,
    ∃ t ∈ runner.taskStates, t.taskId = taskId ∧ t.phase ≠ .waits
  executedOnce : runner.executions.Nodup
  reported : ∀ taskId ∈ runner.reported,
    ∃ t ∈ runner.taskStates, t.taskId = taskId ∧ t.phase = .ended
  reportedOnce : runner.reported.Nodup

theorem Sound.congr (h : Sound config runner) (hsame : SameTasks runner runner')
    (hcapacity : runner'.openOffers.size + runner'.runningTasks.size ≤ config.maxConcurrency) :
    Sound config runner' := by
  obtain ⟨h₁, h₂, h₃, h₄, h₅, h₆⟩ := hsame
  exact ⟨hcapacity, by rw [h₁]; exact h.tasks, by rw [h₁]; exact h.distinct,
    by rw [h₁, h₃]; exact h.accepted, by rw [h₁, h₃, h₆]; exact h.rejected,
    by rw [h₁, h₂]; exact h.running, by rw [h₁, h₄]; exact h.executed,
    by rw [h₄]; exact h.executedOnce, by rw [h₁, h₅]; exact h.reported,
    by rw [h₅]; exact h.reportedOnce⟩

variable {index : ℕ} {t t' : TaskState T E}

omit [DecidableEq T] in
theorem index_of_taskId (hdistinct : (runner.taskStates.map TaskState.taskId).Nodup) {k : ℕ}
    (ht : runner.taskStates[index]? = some t) (ht' : runner.taskStates[k]? = some t')
    (hid : t.taskId = t'.taskId) : index = k := by
  have hlt : index < (runner.taskStates.map TaskState.taskId).length := by
    rw [List.length_map]
    exact (List.getElem?_eq_some_iff.mp ht).1
  refine (List.getElem?_inj hlt hdistinct).mp ?_
  rw [List.getElem?_map, List.getElem?_map, ht, ht', Option.map_some, Option.map_some, hid]

theorem Sound.eq_of_taskId (h : Sound config runner) (ht : t ∈ runner.taskStates)
    (ht' : t' ∈ runner.taskStates) (hid : t.taskId = t'.taskId) : t = t' :=
  List.inj_on_of_nodup_map h.distinct ht ht' hid

/-- A task goes on. It leaves the running tasks when it neither waits nor executes any more, it
is executed first when it had waited, and it is reported when it ends. -/
structure Moves (config : RunnerConfig T D E) (runner runner' : TaskRunner T D E) (index : ℕ)
    (t t' : TaskState T E) : Prop where
  mem : runner.taskStates[index]? = some t
  taskId : t'.taskId = t.taskId
  sound : t'.Sound
  taskStates : runner'.taskStates = runner.taskStates.set index t'
  live : t'.phase.isLive = true → t.phase.isLive = true
  runningTasks : runner'.runningTasks =
    if t'.phase.isLive then runner.runningTasks else runner.runningTasks.delete t.taskId
  accepts : runner'.accepts = runner.accepts
  rejected : runner'.rejected = runner.rejected
  executions : runner'.executions = runner.executions ∧ (t.phase ≠ .waits → t'.phase ≠ .waits) ∨
    runner'.executions = runner.executions ++ [t.taskId] ∧ t.phase = .waits ∧ t'.phase ≠ .waits
  notEnded : t.phase ≠ .ended
  reported : runner'.reported = runner.reported ∨
    runner'.reported = runner.reported ++ [t.taskId] ∧ t'.phase = .ended
  capacity : runner'.openOffers.size + runner'.runningTasks.size ≤ config.maxConcurrency

namespace Moves

variable (hm : Moves config runner runner' index t t')
include hm

theorem getElem? (k : ℕ) :
    runner'.taskStates[k]? = if index = k then some t' else runner.taskStates[k]? := by
  rw [hm.taskStates, List.getElem?_set]
  have hlt := (List.getElem?_eq_some_iff.mp hm.mem).1
  split
  · rename_i heq
    subst heq
    rfl
  · rfl

/-- The task that has gone on, or another one. -/
theorem mem_iff (hdistinct : (runner.taskStates.map TaskState.taskId).Nodup) (x : TaskState T E) :
    x ∈ runner'.taskStates ↔ x = t' ∨ x ∈ runner.taskStates ∧ x.taskId ≠ t.taskId := by
  simp only [List.mem_iff_getElem?, hm.getElem?]
  constructor
  · rintro ⟨k, hk⟩
    split at hk
    · exact .inl (Option.some.inj hk).symm
    · rename_i hne
      refine .inr ⟨⟨k, hk⟩, fun hid => hne ?_⟩
      exact index_of_taskId hdistinct hm.mem hk hid.symm
  · rintro (rfl | ⟨⟨k, hk⟩, hid⟩)
    · exact ⟨index, if_pos rfl⟩
    · refine ⟨k, ?_⟩
      rw [if_neg]
      · exact hk
      · rintro rfl
        rw [hm.mem] at hk
        exact hid (by rw [Option.some.inj hk])

theorem get?_runningTasks (taskId : T) (k : ℕ) :
    runner'.runningTasks.get? taskId = some k ↔
      runner.runningTasks.get? taskId = some k ∧
        (t.taskId = taskId → t'.phase.isLive = true) := by
  rw [hm.runningTasks]
  cases hlive : t'.phase.isLive with
  | true => simp
  | false =>
    rw [if_neg Bool.false_ne_true, OrderedMap.get?_delete]
    by_cases hid : t.taskId = taskId <;> simp [hid]

theorem map_taskId : runner'.taskStates.map TaskState.taskId =
    runner.taskStates.map TaskState.taskId := by
  refine List.ext_getElem? fun k => ?_
  rw [List.getElem?_map, List.getElem?_map, hm.getElem?]
  split
  · rename_i heq
    subst heq
    rw [hm.mem, Option.map_some, Option.map_some, hm.taskId]
  · rfl

end Moves

/-- What a task's going on keeps. -/
theorem Sound.moves (h : Sound config runner) (hm : Moves config runner runner' index t t') :
    Sound config runner' := by
  have hmem := hm.mem_iff h.distinct
  have ht := List.mem_of_getElem? hm.mem
  refine ⟨hm.capacity, fun x hx => ?_, hm.map_taskId ▸ h.distinct, fun x hx => ?_,
    fun taskId hid => ?_, fun taskId k => ?_, fun taskId hid => ?_, ?_, fun taskId hid => ?_, ?_⟩
  · rcases (hmem x).mp hx with rfl | ⟨hx, -⟩
    · exact hm.sound
    · exact h.tasks x hx
  · rw [hm.accepts]
    rcases (hmem x).mp hx with rfl | ⟨hx, -⟩
    · exact hm.taskId ▸ h.accepted t ht
    · exact h.accepted x hx
  · rw [hm.rejected] at hid
    rw [hm.accepts]
    obtain ⟨haccept, hnone⟩ := h.rejected taskId hid
    refine ⟨haccept, fun x hx => ?_⟩
    rcases (hmem x).mp hx with rfl | ⟨hx, -⟩
    · exact hm.taskId ▸ hnone t ht
    · exact hnone x hx
  · rw [hm.get?_runningTasks]
    have hrunning := h.running taskId k
    by_cases hk : index = k
    · subst hk
      simp only [hm.getElem?, if_true, Option.some.injEq, exists_eq_left', hm.taskId]
      simp only [hm.mem, Option.some.injEq, exists_eq_left'] at hrunning
      rw [hrunning]
      exact ⟨fun hlive => ⟨hlive.1.1, hlive.2 hlive.1.1⟩,
        fun hlive => ⟨⟨hlive.1, hm.live hlive.2⟩, fun _ => hlive.2⟩⟩
    · simp only [hm.getElem?, if_neg hk]
      rw [hrunning]
      refine ⟨And.left, fun hx => ⟨hx, fun hid => ?_⟩⟩
      obtain ⟨x, hx, hxid, -⟩ := hx
      exact absurd (index_of_taskId h.distinct hm.mem hx (hid.trans hxid.symm)) hk
  · -- It was executed before, or waited for its settings until now.
    rcases hm.executions with ⟨hexecutions, hphase⟩ | ⟨hexecutions, -, hphase⟩
    · rw [hexecutions] at hid
      obtain ⟨x, hx, rfl, hxphase⟩ := h.executed taskId hid
      by_cases hxid : x.taskId = t.taskId
      · obtain rfl := h.eq_of_taskId hx ht hxid
        exact ⟨t', (hmem t').mpr (.inl rfl), hm.taskId, hphase hxphase⟩
      · exact ⟨x, (hmem x).mpr (.inr ⟨hx, hxid⟩), rfl, hxphase⟩
    · rw [hexecutions, List.mem_append, List.mem_singleton] at hid
      rcases hid with hid | rfl
      · obtain ⟨x, hx, rfl, hxphase⟩ := h.executed taskId hid
        by_cases hxid : x.taskId = t.taskId
        · exact ⟨t', (hmem t').mpr (.inl rfl), hm.taskId.trans hxid.symm, hphase⟩
        · exact ⟨x, (hmem x).mpr (.inr ⟨hx, hxid⟩), rfl, hxphase⟩
      · exact ⟨t', (hmem t').mpr (.inl rfl), hm.taskId, hphase⟩
  · rcases hm.executions with ⟨hexecutions, -⟩ | ⟨hexecutions, hphase, -⟩
    · rw [hexecutions]
      exact h.executedOnce
    · rw [hexecutions]
      refine List.nodup_append.mpr ⟨h.executedOnce, List.nodup_singleton _, ?_⟩
      rintro a ha b hb rfl
      obtain ⟨x, hx, hxid, hxphase⟩ := h.executed a ha
      rw [List.mem_singleton.mp hb] at hxid
      exact hxphase (h.eq_of_taskId hx ht hxid ▸ hphase)
  · have hold : taskId ∈ runner.reported → ∃ x ∈ runner'.taskStates,
        x.taskId = taskId ∧ x.phase = .ended := by
      intro hid
      obtain ⟨x, hx, rfl, hxphase⟩ := h.reported taskId hid
      refine ⟨x, (hmem x).mpr (.inr ⟨hx, fun hxid => ?_⟩), rfl, hxphase⟩
      obtain rfl := h.eq_of_taskId hx ht hxid
      exact hm.notEnded hxphase
    rcases hm.reported with hreported | ⟨hreported, hphase⟩
    · rw [hreported] at hid
      exact hold hid
    · rw [hreported, List.mem_append, List.mem_singleton] at hid
      rcases hid with hid | rfl
      · exact hold hid
      · exact ⟨t', (hmem t').mpr (.inl rfl), hm.taskId, hphase⟩
  · rcases hm.reported with hreported | ⟨hreported, -⟩
    · rw [hreported]
      exact h.reportedOnce
    · rw [hreported]
      refine List.nodup_append.mpr ⟨h.reportedOnce, List.nodup_singleton _, ?_⟩
      rintro a ha b hb rfl
      obtain ⟨x, hx, hxid, hxphase⟩ := h.reported a ha
      rw [List.mem_singleton.mp hb] at hxid
      exact hm.notEnded (h.eq_of_taskId hx ht hxid ▸ hxphase)

/-! ## Messages about a task -/

theorem runningTask_eq_some (h : Sound config runner) {taskId : T}
    (hrunning : runner.runningTask taskId = some (index, t)) :
    runner.taskStates[index]? = some t ∧ t.taskId = taskId ∧ t.phase.isLive = true := by
  obtain ⟨k, hk, hmap⟩ := Option.bind_eq_some_iff.mp hrunning
  obtain ⟨x, hx, hpair⟩ := Option.map_eq_some_iff.mp hmap
  obtain ⟨rfl, rfl⟩ := Prod.mk.inj hpair
  obtain ⟨y, hy, hid, hlive⟩ := (h.running taskId k).mp hk
  obtain rfl := Option.some.inj (hx.symm.trans hy)
  exact ⟨hx, hid, hlive⟩

/-- A live task waits for its settings as its status says. -/
theorem Sound.waits_iff (h : Sound config runner) (ht : t ∈ runner.taskStates)
    (hlive : t.phase.isLive = true) : t.phase = .waits ↔ t.status = .waitingForSettings := by
  refine ⟨(h.tasks t ht).waits, fun hstatus => ?_⟩
  cases hphase : t.phase with
  | waits => rfl
  | executes => exact absurd hstatus ((h.tasks t ht).executes hphase)
  | fails error =>
    rw [hphase] at hlive
    cases hlive
  | ended =>
    rw [hphase] at hlive
    cases hlive

/-- What is sent before a task leaves the running ones : nothing, or its terminal message. -/
inductive Tells (runner : TaskRunner T D E) (taskId : T) (phase : TaskPhase E) :
    TaskRunner T D E → Prop
  | nothing : Tells runner taskId phase runner
  | terminal (message : RunnerMessage T D E) (hreports : message.reportedTask = some taskId)
    (hrejects : message.rejectedTask = none) (hphase : phase = .ended) :
    Tells runner taskId phase (runner.send message)

omit [DecidableEq T] in
theorem tells_sendTerminal {taskId : T} {message : RunnerMessage T D E}
    (hreports : message.reportedTask = some taskId) (hrejects : message.rejectedTask = none) :
    Tells runner taskId .ended (runner.sendTerminal config message) := by
  unfold sendTerminal
  split
  · exact .terminal message hreports hrejects rfl
  · exact .nothing

/-- A task leaves the running ones. -/
theorem Sound.finishTask (h : Sound config runner) {phase : TaskPhase E}
    (ht : runner.taskStates[index]? = some t) (hended : t.phase ≠ .ended)
    (hphase : phase = .ended ∨ ∃ error, phase = .fails error ∧
      (t.status = .running ∨ t.status = .abortingTimeout))
    (htells : Tells runner t.taskId phase runner') :
    Sound config (runner'.finishTask config index t phase) := by
  have hdead : phase.isLive = false := by
    rcases hphase with rfl | ⟨error, rfl, -⟩ <;> rfl
  have hwaits : phase ≠ .waits := by
    rintro rfl
    cases hdead
  have hsound : ({ t with timeoutTimer := false, phase := phase } : TaskState T E).Sound := by
    refine ⟨fun hw => absurd hw hwaits, fun he => ?_, fun error he => ?_, ?_⟩
    · dsimp only at he
      rw [he] at hdead
      cases hdead
    · rcases hphase with rfl | ⟨error, rfl, hstatus⟩
      · cases he
      · exact hstatus
    · exact fun htimer => by cases htimer
  have hcapacity : runner.openOffers.size + (runner.runningTasks.delete t.taskId).size ≤
      config.maxConcurrency :=
    (Nat.add_le_add_left (OrderedMap.size_delete_le ..) _).trans h.capacity
  have hmoves : Moves config runner { runner'.setTask index
      { t with timeoutTimer := false, phase := phase } with
      runningTasks := runner'.runningTasks.delete t.taskId } index t
      { t with timeoutTimer := false, phase := phase } := by
    cases htells with
    | nothing =>
      refine ⟨ht, rfl, hsound, rfl, fun hl => ?_, ?_, rfl, rfl, .inl ⟨rfl, fun _ => hwaits⟩, hended,
        .inl rfl, hcapacity⟩
      · exact absurd hl (by rw [hdead]; simp)
      · rw [hdead]
        rfl
    | terminal message hreports hrejects hphase =>
      refine ⟨ht, rfl, hsound, rfl, fun hl => ?_, ?_, rfl, ?_, .inl ⟨rfl, fun _ => hwaits⟩, hended,
        .inr ⟨?_, hphase⟩, hcapacity⟩
      · exact absurd hl (by rw [hdead]; simp)
      · rw [hdead]
        rfl
      · simp [TaskRunner.rejected, send, setTask, hrejects]
      · simp [TaskRunner.reported, send, setTask, hreports]
  have hended := h.moves hmoves
  exact hended.congr sameTasks_sendOffers (capacity_sendOffers hended.capacity)

/-- A live task changes its status or loses its timer. -/
theorem Sound.setTask (h : Sound config runner) (ht : runner.taskStates[index]? = some t)
    (hid : t'.taskId = t.taskId) (hphase : t'.phase = t.phase) (hsound : t'.Sound)
    (hended : t.phase ≠ .ended) (hlive : t.phase.isLive = true) :
    Sound config (runner.setTask index t') := by
  refine h.moves (t := t) ⟨ht, hid, hsound, rfl, fun _ => hlive, ?_, rfl, rfl,
    .inl ⟨rfl, fun hwaits => hphase ▸ hwaits⟩, hended, .inl rfl, h.capacity⟩
  rw [hphase, hlive]
  rfl

omit [DecidableEq T] in
theorem ne_ended_of_isLive {phase : TaskPhase E} (h : phase.isLive = true) : phase ≠ .ended := by
  rintro rfl
  cases h

theorem Sound.taskCancelled (h : Sound config runner) (taskId : T) :
    Sound config (runner.taskCancelled config taskId) := by
  unfold TaskRunner.taskCancelled
  split
  · exact h
  · rename_i index t hrunning
    obtain ⟨ht, -, hlive⟩ := runningTask_eq_some h hrunning
    have hended := ne_ended_of_isLive hlive
    split
    · exact h.finishTask ht hended (.inl rfl) .nothing
    · exact h
    · exact h
    · rename_i hstatus
      have hsound := h.tasks t (List.mem_of_getElem? ht)
      refine h.setTask ht rfl rfl ⟨fun hw => ?_, fun _ => by simp, fun error he => ?_,
        fun _ => hlive⟩ hended hlive
      · rw [hsound.waits hw] at hstatus
        cases hstatus
      · dsimp only at he
        rw [he] at hlive
        cases hlive

theorem Sound.taskTimedOut (h : Sound config runner) (taskId : T) :
    Sound config (runner.taskTimedOut config taskId) := by
  unfold TaskRunner.taskTimedOut
  split
  · exact h
  · rename_i index t hrunning
    obtain ⟨ht, hid, hlive⟩ := runningTask_eq_some h hrunning
    have hended := ne_ended_of_isLive hlive
    split
    · exact h.finishTask ht hended (.inl rfl) (tells_sendTerminal (by rw [hid]; rfl) rfl)
    · exact h
    · rename_i hstatus
      have hsound := h.tasks t (List.mem_of_getElem? ht)
      refine h.setTask ht rfl rfl ⟨fun hw => ?_, fun _ => by simp, fun error he => .inr rfl,
        fun _ => hlive⟩ hended hlive
      rw [hsound.waits hw] at hstatus
      cases hstatus
    · exact h

theorem Sound.receivedSettings (h : Sound config runner) (taskId : T) :
    Sound config (runner.receivedSettings taskId) := by
  unfold TaskRunner.receivedSettings
  split
  · exact h
  · rename_i index t hrunning
    obtain ⟨ht, hid, hlive⟩ := runningTask_eq_some h hrunning
    split
    · rename_i hstatus
      have hwaits := (h.waits_iff (List.mem_of_getElem? ht) hlive).mpr hstatus
      have hmoves : Moves config runner
          { runner.setTask index { t with status := .running, phase := .executes } with
            executions := runner.executions ++ [taskId] }
          index t { t with status := .running, phase := .executes } := by
        refine ⟨ht, rfl, ⟨fun hw => (by cases hw), fun _ => (by simp), fun error he => (by cases he),
          fun _ => rfl⟩, rfl, fun _ => hlive, rfl, rfl, rfl, .inr ⟨?_, hwaits, by simp⟩, ne_ended_of_isLive hlive,
          .inl rfl, h.capacity⟩
        rw [hid]
      exact h.moves hmoves
    · exact h

theorem Sound.taskExecutionFailed (h : Sound config runner)
    (ht : runner.taskStates[index]? = some t) (hended : t.phase ≠ .ended) (error : TaskFailure E) :
    Sound config (runner.taskExecutionFailed config index t error) := by
  unfold TaskRunner.taskExecutionFailed
  split
  · exact h.finishTask ht hended (.inl rfl) .nothing
  · exact h.finishTask ht hended (.inl rfl) .nothing
  · exact h.finishTask ht hended (.inl rfl) (tells_sendTerminal rfl rfl)
  · exact h.finishTask ht hended (.inl rfl) (tells_sendTerminal rfl rfl)

theorem Sound.taskExecutionSucceeded (h : Sound config runner)
    (ht : runner.taskStates[index]? = some t) (hended : t.phase ≠ .ended) (data : D) :
    Sound config (runner.taskExecutionSucceeded config index t data) := by
  have hsends (hstatus : t.status = .running ∨ t.status = .abortingTimeout) : Sound config
      (if config.canSend (.taskDone t.taskId data) then
        (runner.send (.taskDone t.taskId data)).finishTask config index t .ended
      else runner.finishTask config index t (.fails .notSerializable)) := by
    split
    · exact h.finishTask ht hended (.inl rfl) (.terminal _ rfl rfl rfl)
    · exact h.finishTask ht hended (.inr ⟨_, rfl, hstatus⟩) .nothing
  unfold TaskRunner.taskExecutionSucceeded
  split
  · exact h.finishTask ht hended (.inl rfl) .nothing
  · exact h.finishTask ht hended (.inl rfl) .nothing
  · rename_i hstatus
    exact hsends (.inr hstatus)
  · rename_i hstatus
    exact hsends (.inl hstatus)

/-! ## Offers that are accepted -/

/-- A task that was never accepted is rejected. -/
theorem Sound.reject (h : Sound config runner) {taskId : T} {reason : String}
    (hnew : taskId ∉ runner.accepts) {openOffers : OrderedMap ℕ ℕ}
    (hsize : openOffers.size ≤ runner.openOffers.size) :
    Sound config ({ runner with accepts := runner.accepts ++ [taskId], openOffers := openOffers }.send
      (.taskRejected taskId reason)) := by
  have hreported : ({ runner with accepts := runner.accepts ++ [taskId], openOffers := openOffers }.send
      (.taskRejected taskId reason)).reported = runner.reported := by
    simp [TaskRunner.reported, send, RunnerMessage.reportedTask]
  have hrejected : ({ runner with accepts := runner.accepts ++ [taskId], openOffers := openOffers }.send
      (.taskRejected taskId reason)).rejected = runner.rejected ++ [taskId] := by
    simp [TaskRunner.rejected, send, RunnerMessage.rejectedTask]
  refine ⟨(Nat.add_le_add_right hsize _).trans h.capacity, h.tasks, h.distinct,
    fun t ht => List.mem_append_left _ (h.accepted t ht), fun id hid => ?_, h.running, h.executed,
    h.executedOnce, hreported ▸ h.reported, hreported ▸ h.reportedOnce⟩
  rw [hrejected, List.mem_append, List.mem_singleton] at hid
  rcases hid with hid | rfl
  · obtain ⟨haccept, hnone⟩ := h.rejected id hid
    exact ⟨List.mem_append_left _ haccept, hnone⟩
  · refine ⟨List.mem_append_right _ (List.mem_singleton.mpr rfl), fun t ht hid => hnew ?_⟩
    exact hid ▸ h.accepted t ht

/-- The offer makes room for the task. -/
theorem Sound.accept (h : Sound config runner) {taskId : T} (hnew : taskId ∉ runner.accepts)
    {openOffers : OrderedMap ℕ ℕ} (hcapacity : openOffers.size +
      (runner.runningTasks.set taskId runner.taskStates.length).size ≤ config.maxConcurrency) :
    Sound config ({ runner with
      accepts := runner.accepts ++ [taskId]
      openOffers := openOffers
      taskStates := runner.taskStates ++ [({ taskId := taskId } : TaskState T E)]
      runningTasks := runner.runningTasks.set taskId runner.taskStates.length }.send
        (.taskAccepted taskId)) := by
  have hmem : ∀ t, t ∈ runner.taskStates ++ [({ taskId := taskId } : TaskState T E)] ↔
      t ∈ runner.taskStates ∨ t = { taskId := taskId } := by
    simp
  have hreported : (runner.sent ++ [RunnerMessage.taskAccepted taskId]).filterMap
      RunnerMessage.reportedTask = runner.reported := by
    simp [TaskRunner.reported, RunnerMessage.reportedTask]
  have hrejected : (runner.sent ++ [RunnerMessage.taskAccepted taskId]).filterMap
      RunnerMessage.rejectedTask = runner.rejected := by
    simp [TaskRunner.rejected, RunnerMessage.rejectedTask]
  refine ⟨hcapacity, fun t ht => ?_, ?_, fun t ht => ?_, fun id hid => ?_, fun id k => ?_,
    fun id hid => ?_, h.executedOnce, fun id hid => ?_, ?_⟩
  · rcases (hmem t).mp ht with ht | rfl
    · exact h.tasks t ht
    · exact ⟨fun _ => rfl, fun he => (by cases he), fun _ he => (by cases he), fun _ => rfl⟩
  · dsimp only [send]
    rw [List.map_append, List.map_singleton]
    refine List.nodup_append.mpr ⟨h.distinct, List.nodup_singleton _, ?_⟩
    rintro a ha b hb rfl
    obtain ⟨t, ht, rfl⟩ := List.mem_map.mp ha
    have hid : t.taskId = taskId := List.mem_singleton.mp hb
    exact hnew (hid ▸ h.accepted t ht)
  · rcases (hmem t).mp ht with ht | rfl
    · exact List.mem_append_left _ (h.accepted t ht)
    · exact List.mem_append_right _ (List.mem_singleton.mpr rfl)
  · obtain ⟨haccept, hnone⟩ := h.rejected id (hrejected ▸ hid)
    refine ⟨List.mem_append_left _ haccept, fun t ht => ?_⟩
    rcases (hmem t).mp ht with ht | rfl
    · exact hnone t ht
    · rintro rfl
      exact hnew haccept
  · have hrunning := h.running id k
    change (runner.runningTasks.set taskId runner.taskStates.length).get? id = some k ↔
      ∃ t, (runner.taskStates ++ [({ taskId := taskId } : TaskState T E)])[k]? = some t ∧ _
    rw [OrderedMap.get?_set]
    rcases Nat.lt_trichotomy k runner.taskStates.length with hlt | rfl | hgt
    · rw [List.getElem?_append_left hlt, ← hrunning]
      split
      · rename_i hid
        subst hid
        refine ⟨fun hk => ?_, fun hk => ?_⟩
        · rw [← Option.some.inj hk] at hlt
          omega
        · obtain ⟨t, ht, rfl, -⟩ := hrunning.mp hk
          exact absurd (h.accepted t (List.mem_of_getElem? ht)) hnew
      · rfl
    · rw [List.getElem?_concat_length]
      have hnone : runner.runningTasks.get? id ≠ some runner.taskStates.length := by
        intro hk
        obtain ⟨t, ht, -⟩ := hrunning.mp hk
        rw [List.getElem?_eq_none (Nat.le_refl _)] at ht
        cases ht
      split
      · rename_i hid
        exact ⟨fun _ => ⟨_, rfl, hid, rfl⟩, fun _ => rfl⟩
      · rename_i hid
        refine ⟨fun hk => absurd hk hnone, ?_⟩
        rintro ⟨t, ht, htid, -⟩
        exact absurd ((congrArg TaskState.taskId (Option.some.inj ht)).trans htid) hid
    · rw [List.getElem?_eq_none (by rw [List.length_append, List.length_singleton]; omega)]
      split
      · exact ⟨fun hk => absurd (Option.some.inj hk) (by omega), fun ⟨t, ht, _⟩ => by cases ht⟩
      · rw [hrunning, List.getElem?_eq_none (by omega)]
  · obtain ⟨t, ht, hphase⟩ := h.executed id hid
    exact ⟨t, (hmem t).mpr (.inl ht), hphase⟩
  · obtain ⟨t, ht, hphase⟩ := h.reported id (hreported ▸ hid)
    exact ⟨t, (hmem t).mpr (.inl ht), hphase⟩
  · rw [TaskRunner.reported, send, hreported]
    exact h.reportedOnce

theorem Sound.offerAccepted (h : Sound config runner) {taskId : T} (offerId : ℕ)
    (hnew : taskId ∉ runner.accepts) :
    Sound config ({ runner with accepts := runner.accepts ++ [taskId] }.offerAccepted config offerId
      taskId) := by
  unfold TaskRunner.offerAccepted
  split
  · exact h.reject hnew (Nat.le_refl _)
  split
  · exact h.reject hnew (OrderedMap.size_delete_le ..)
  split
  · exact h.reject hnew (Nat.le_refl _)
  · rename_i validUntil hoffer
    have hnone : runner.runningTasks.get? taskId = none := by
      rw [Option.eq_none_iff_forall_ne_some]
      intro k hk
      obtain ⟨t, ht, rfl, -⟩ := (h.running taskId k).mp hk
      exact hnew (h.accepted t (List.mem_of_getElem? ht))
    have hoffers := OrderedMap.size_delete_of_get? hoffer
    have htasks := OrderedMap.size_set runner.runningTasks taskId runner.taskStates.length
    rw [hnone, Option.isSome_none, if_neg Bool.false_ne_true] at htasks
    have hcapacity := h.capacity
    refine h.accept hnew ?_
    dsimp only at hoffers ⊢
    omega

/-! ## Runs -/

theorem sound_initial : Sound config ({} : TaskRunner T D E) := by
  refine ⟨Nat.zero_le _, ?_, List.nodup_nil, ?_, ?_, fun id k => ⟨fun hk => (by cases hk), ?_⟩, ?_,
    List.nodup_nil, ?_, List.nodup_nil⟩
  · rintro t ⟨⟩
  · rintro t ⟨⟩
  · rintro id ⟨⟩
  · rintro ⟨t, ht, -⟩
    cases ht
  · rintro id ⟨⟩
  · rintro id ⟨⟩

theorem Sound.step (h : Sound config runner) {event : RunnerEvent T D E}
    (hs : runner.step config event = .ok runner') : Sound config runner' := by
  cases event with
  | runnerRegistered | brokerDrain | elapse time =>
    cases hs
    exact h.congr ⟨rfl, rfl, rfl, rfl, rfl, rfl⟩ h.capacity
  | sendOffers =>
    cases hs
    exact h.congr sameTasks_sendOffers (capacity_sendOffers h.capacity)
  | offerAccepted offerId taskId =>
    simp only [TaskRunner.step] at hs
    split at hs
    · cases hs
    · rename_i hnew
      cases hs
      exact h.offerAccepted offerId hnew
  | taskCancelled taskId =>
    cases hs
    exact h.taskCancelled taskId
  | receivedSettings taskId =>
    cases hs
    exact h.receivedSettings taskId
  | timeout index =>
    simp only [TaskRunner.step] at hs
    split at hs
    · cases hs
    · rename_i t ht
      split at hs
      · rename_i htimer
        cases hs
        have hsound := h.tasks t (List.mem_of_getElem? ht)
        have hlive := hsound.timer htimer
        -- the timer has fired, and nothing else of the task changes before it is timed out
        have hset : Sound config (runner.setTask index { t with timeoutTimer := false }) :=
          h.setTask ht rfl rfl
            ⟨hsound.waits, hsound.executes, hsound.fails, fun htimer => by cases htimer⟩
            (ne_ended_of_isLive hlive) hlive
        exact hset.taskTimedOut t.taskId
      · cases hs
  | settle index result =>
    simp only [TaskRunner.step] at hs
    split at hs
    · cases hs
    · rename_i t ht
      split at hs
      · rename_i data hphase
        cases hs
        exact h.taskExecutionSucceeded ht (by rw [hphase]; simp) data
      · rename_i error hphase
        cases hs
        exact h.taskExecutionFailed ht (by rw [hphase]; simp) (.thrown error)
      · cases hs
  | caught index =>
    simp only [TaskRunner.step] at hs
    split at hs
    · cases hs
    · rename_i t ht
      split at hs
      · rename_i error hphase
        cases hs
        exact h.taskExecutionFailed ht (by rw [hphase]; simp) error
      · cases hs

theorem Sound.keepsPromises (h : Sound config runner) : runner.KeepsPromises config := by
  have hkeys : ∀ t ∈ runner.taskStates,
      t.taskId ∈ runner.runningTasks.keys ↔ t.phase.isLive = true := by
    intro t ht
    rw [OrderedMap.mem_keys_iff]
    constructor
    · rintro ⟨k, hk⟩
      obtain ⟨x, hx, hid, hlive⟩ := (h.running t.taskId k).mp hk
      rwa [h.eq_of_taskId ht (List.mem_of_getElem? hx) hid.symm]
    · intro hlive
      obtain ⟨k, hk⟩ := List.mem_iff_getElem?.mp ht
      exact ⟨k, (h.running t.taskId k).mpr ⟨t, hk, rfl, hlive⟩⟩
  refine ⟨h.capacity, h.executedOnce, h.reportedOnce, fun id hid hreported => ?_, fun id hid => ?_,
    fun t ht hstatus => ?_, fun t ht hphase => ?_⟩
  · obtain ⟨t, ht, htid, -⟩ := h.reported id hreported
    exact (h.rejected id hid).2 t ht htid
  · obtain ⟨t, ht, rfl, hphase⟩ := h.reported id hid
    rw [hkeys t ht, hphase]
    exact Bool.false_ne_true
  · rw [hkeys t ht]
    have hsound := h.tasks t ht
    cases hphase : t.phase with
    | waits =>
      rw [hsound.waits hphase] at hstatus
      cases hstatus
    | executes => exact ⟨fun _ => rfl, fun _ => rfl⟩
    | fails error =>
      rcases hsound.fails error hphase with hrunning | htimeout
      · rw [hrunning] at hstatus
        cases hstatus
      · rw [htimeout] at hstatus
        cases hstatus
    | ended => exact ⟨fun hlive => (by cases hlive), fun hphase => (by cases hphase)⟩
  · rw [hkeys t ht]
    rcases hphase with hphase | hphase <;> rw [hphase] <;> rfl

variable {steps : List (TaskRunner T D E × RunnerEvent T D E)}

/-- In every sequence of events the runner keeps within its slots, executes each accepted task at
most once and reports it at most once, and a task that is reported, or cancelled and has ended,
is not running. -/
theorem taskRunner_run (h : Run (step config) {} steps runner) :
    ∀ state ∈ steps.map Prod.fst ++ [runner], state.KeepsPromises config := fun state hstate =>
  (h.forall_states sound_initial (fun _ _ _ hs hstep => hs.step hstep) state hstate).keepsPromises

/-- Of two tasks in two slots, one completes with a result that cannot be serialized, the other
times out and completes late, and a third finds no offer. -/
theorem taskRunner_run_late : ∃ steps, ∃ runner : TaskRunner ℕ ℕ ℕ,
    Run (step { maxConcurrency := 2, randomInt := fun _ => 0
                canSend := (· != .taskDone 1 0) }) {} steps runner ∧
    runner.reported = [2, 1] ∧ runner.rejected = [3] ∧
    ∀ state ∈ steps.map Prod.fst ++ [runner], state.KeepsPromises
      { maxConcurrency := 2, randomInt := fun _ => 0, canSend := (· != .taskDone 1 0) } := by
  have hevents : (runSteps (step { maxConcurrency := 2, randomInt := fun _ => 0
                                   canSend := (· != .taskDone 1 0) })
      ({} : TaskRunner ℕ ℕ ℕ)
      [.runnerRegistered, .sendOffers, .offerAccepted 0 1, .offerAccepted 1 2, .receivedSettings 1,
        .receivedSettings 2, .timeout 1, .settle 0 (.ok 0), .settle 1 (.ok 5),
        .offerAccepted 1 3, .caught 0]).map (fun r => (r.2.reported, r.2.rejected)) =
      .ok ([2, 1], [3]) := by
    decide
  obtain ⟨steps, runner, hrun, -, hresult⟩ := exists_run hevents
  obtain ⟨hreported, hrejected⟩ := Prod.mk.inj hresult
  exact ⟨steps, runner, hrun, hreported, hrejected, taskRunner_run hrun⟩

end TaskRunner

end Runner

end N8n
