import N8n.Scaling.MultiMainSetup

/-!
# Runs of leader election

An instance whose last claim is younger than the time to live holds the key, unless it has deleted
it itself (`LeaderElection.Sound`) : the key is set only when it is absent or expired, and renewed
only by its holder. Whatever an instance believes of itself, this leaves one holder. It takes that
no instance deletes the key of another, which the shutdown does not look after (`multiMain_run`).
-/

open Lib

namespace N8n

variable {I : Type} [DecidableEq I] {ttl : ℕ}

/-! ## The leader key -/

namespace LeaderElection

variable {election : LeaderElection I} {hostId i j : I}

/-- A fresh claim is in the key, and the key has the last claim of its holder. -/
structure Sound (ttl : ℕ) (election : LeaderElection I) : Prop where
  held : ∀ i t, election.lastClaim i = some t → election.now < t + ttl →
    election.cleared i = false → election.leaderKey = some (i, t + ttl)
  claimed : ∀ i expiresAt, election.leaderKey = some (i, expiresAt) →
    ∃ t, election.lastClaim i = some t ∧ expiresAt = t + ttl

/-- Nobody else has a fresh claim. -/
def Late (ttl : ℕ) (election : LeaderElection I) : Prop :=
  ∀ i j, election.Fresh ttl i → election.Fresh ttl j → i = j

omit [DecidableEq I] in
theorem Sound.get_of_held (h : Sound ttl election) (hi : election.Fresh ttl i)
    (hcleared : election.cleared i = false) : election.get = some i := by
  obtain ⟨t, ht, hlt⟩ := hi
  rw [get, h.held i t ht hlt hcleared]
  exact if_pos hlt

omit [DecidableEq I] in
/-- Nobody holds the key but the one it is read from. -/
theorem Sound.eq_of_held (h : Sound ttl election)
    (hget : election.get = none ∨ election.get = some hostId) (hi : election.Fresh ttl i)
    (hcleared : election.cleared i = false) : i = hostId := by
  have hheld := h.get_of_held hi hcleared
  rcases hget with hget | hget
  · rw [hget] at hheld
    cases hheld
  · rw [hget] at hheld
    exact (Option.some.inj hheld).symm

omit [DecidableEq I] in
theorem Sound.fresh_of_get (h : Sound ttl election) (hget : election.get = some i) :
    election.Fresh ttl i := by
  unfold get at hget
  split at hget
  · rename_i leaderId expiresAt hkey
    split at hget
    · rename_i hlt
      obtain rfl := Option.some.inj hget
      obtain ⟨t, ht, rfl⟩ := h.claimed leaderId expiresAt hkey
      exact ⟨t, ht, hlt⟩
    · cases hget
  · cases hget

/-- What a command does to the key. -/
inductive Executes (ttl : ℕ) (election : LeaderElection I) (hostId : I) (command : LeaderCommand) :
    LeaderElection I → Prop
  | same : Executes ttl election hostId command election
  | sets (hcommand : command = .setLeaderIfNotExists) (hget : election.get = none) :
    Executes ttl election hostId command (election.claim ttl hostId)
  | renews (hget : election.get = some hostId) :
    Executes ttl election hostId command (election.claim ttl hostId)
  | clears (hcommand : command = .clearLeader) :
    Executes ttl election hostId command (election.clear hostId)

theorem execute_executes (command : LeaderCommand) :
    Executes ttl election hostId command (election.execute ttl hostId command).1 := by
  cases command with
  | getLeader => exact .same
  | setLeaderIfNotExists =>
    simp only [execute]
    split
    · exact .same
    · rename_i hnone
      exact .sets rfl hnone
  | tryRenewLeaderTtl =>
    simp only [execute]
    split
    · exact .same
    · rename_i currentValue hget
      split
      · exact .same
      · rename_i hsame
        exact .renews (not_not.mp hsame ▸ hget)
  | clearLeader => exact .clears rfl

theorem fresh_claim (hne : j ≠ hostId) :
    (election.claim ttl hostId).Fresh ttl j ↔ election.Fresh ttl j := by
  simp only [Fresh, claim, Function.update_of_ne hne]

/-- The key is set when nobody else holds it. -/
theorem Sound.claim (h : Sound ttl election)
    (hget : election.get = none ∨ election.get = some hostId) :
    Sound ttl (election.claim ttl hostId) := by
  refine ⟨fun i t ht hlt hcleared => ?_, fun i expiresAt hkey => ?_⟩
  · by_cases hi : i = hostId
    · subst hi
      simp only [LeaderElection.claim, Function.update_self] at ht
      rw [LeaderElection.claim, Option.some.inj ht]
    · simp only [LeaderElection.claim, Function.update_of_ne hi] at ht hlt hcleared
      exact absurd (h.eq_of_held hget ⟨t, ht, hlt⟩ hcleared) hi
  · obtain ⟨rfl, rfl⟩ := Prod.mk.inj (Option.some.inj hkey)
    exact ⟨election.now, Function.update_self .., rfl⟩

theorem Sound.clear (h : Sound ttl election)
    (hget : election.get = none ∨ election.get = some hostId) :
    Sound ttl (election.clear hostId) := by
  refine ⟨fun i t ht hlt hcleared => ?_, fun i expiresAt hkey => by cases hkey⟩
  by_cases hi : i = hostId
  · subst hi
    simp only [LeaderElection.clear, Function.update_self] at hcleared
    cases hcleared
  · simp only [LeaderElection.clear, Function.update_of_ne hi] at ht hlt hcleared
    exact absurd (h.eq_of_held hget ⟨t, ht, hlt⟩ hcleared) hi

/-- A command keeps it, if it does not delete the key of another instance. -/
theorem Sound.execute {election' : LeaderElection I} {command : LeaderCommand}
    (h : Sound ttl election) (hexecutes : Executes ttl election hostId command election')
    (hclear : command = .clearLeader → election.get = none ∨ election.get = some hostId) :
    Sound ttl election' := by
  cases hexecutes with
  | same => exact h
  | sets _ hget => exact h.claim (.inl hget)
  | renews hget => exact h.claim (.inr hget)
  | clears hcommand => exact h.clear (hclear hcommand)

theorem Late.claim (hothers : ∀ i, i ≠ hostId → ¬election.Fresh ttl i) :
    Late ttl (election.claim ttl hostId) := by
  intro i j hi hj
  have heq : ∀ i, (election.claim ttl hostId).Fresh ttl i → i = hostId := by
    intro i hi
    by_contra hne
    exact hothers i hne ((fresh_claim hne).mp hi)
  rw [heq i hi, heq j hj]

/-- The key is set once the claims of the others have run out. -/
theorem Late.execute {election' : LeaderElection I} {command : LeaderCommand}
    (h : Late ttl election) (hsound : Sound ttl election)
    (hexecutes : Executes ttl election hostId command election')
    (hset : command = .setLeaderIfNotExists → election.get = none →
      ∀ i, i ≠ hostId → election.cleared i = true → ¬election.Fresh ttl i) :
    Late ttl election' := by
  cases hexecutes with
  | same => exact h
  | sets hcommand hget =>
    refine Late.claim fun i hne hfresh => ?_
    cases hcleared : election.cleared i with
    | true => exact hset hcommand hget i hne hcleared hfresh
    | false =>
      rw [hsound.get_of_held hfresh hcleared] at hget
      cases hget
  | renews hget =>
    exact Late.claim fun i hne hfresh => hne (h i hostId hfresh (hsound.fresh_of_get hget))
  | clears _ => exact h

/-- Commands of other instances do not touch a key that has not expired. -/
theorem leaderKey_execute {election' : LeaderElection I} {command : LeaderCommand}
    (hexecutes : Executes ttl election hostId command election') (hget : election.get = some i)
    (hne : hostId ≠ i)
    (hclear : command = .clearLeader → election.get = none ∨ election.get = some hostId) :
    election'.leaderKey = election.leaderKey := by
  cases hexecutes with
  | same => rfl
  | sets _ hnone =>
    rw [hget] at hnone
    cases hnone
  | renews hown =>
    rw [hget] at hown
    exact absurd (Option.some.inj hown).symm hne
  | clears hcommand =>
    rw [hget] at hclear
    rcases hclear hcommand with hnone | hown
    · cases hnone
    · exact absurd (Option.some.inj hown).symm hne

end LeaderElection

open LeaderElection

/-! ## Steps -/

namespace MultiMainSetup

variable {s next : MultiMainSetup I} {event : MultiMainEvent I}

/-- What an instance does with a reply is its own affair. -/
theorem election_continueTask {index : ℕ} {t : WaitingTask I} {reply : Option (LeaderReply I)} :
    (s.continueTask index t reply).election = s.election := by
  unfold continueTask
  split <;> try rfl
  · unfold continueInit
    split
    · split <;> rfl
    · rfl
  · split <;> rfl

/-- What a step does to the key. -/
inductive ElectionStep (ttl : ℕ) (s : MultiMainSetup I) (event : MultiMainEvent I)
    (election : LeaderElection I) : Prop
  | same (h : election = s.election)
  | elapse (time : ℕ) (h : election = { s.election with now := s.election.now + time })
  | execute (index : ℕ) (c : SentCommand I) (hevent : event = .execute index)
    (hc : s.commands[index]? = some c)
    (h : election = (s.election.execute ttl c.hostId c.command).1)

theorem electionStep (hs : step ttl s event = .ok next) :
    ElectionStep ttl s event next.election := by
  cases event with
  | init hostId =>
    simp only [step] at hs
    split at hs
    · cases hs
    · cases hs
      exact .same rfl
  | checkLeader hostId =>
    simp only [step] at hs
    split at hs
    · cases hs
    · split at hs
      · cases hs
        exact .same rfl
      · have hs' := Except.ok.inj hs
        subst hs'
        exact .same (by split <;> rfl)
  | shutdown hostId =>
    have hs' := Except.ok.inj hs
    subst hs'
    exact .same (by split <;> rfl)
  | elapse time =>
    cases hs
    exact .elapse time rfl
  | execute index =>
    simp only [step] at hs
    split at hs
    · cases hs
    · rename_i c hc
      cases hs
      exact .execute index c rfl hc rfl
  | settle index fails =>
    simp only [step] at hs
    split at hs
    · cases hs
    · split at hs
      · cases hs
      · split at hs
        · cases hs
          exact .same election_continueTask
        · split at hs
          · cases hs
          · cases hs
            exact .same election_continueTask

theorem get_of_clearsOwn {index : ℕ} {c : SentCommand I} (hc : s.commands[index]? = some c)
    (h : s.clearsOwn (.execute index) = true) (hclear : c.command = .clearLeader) :
    s.election.get = none ∨ s.election.get = some c.hostId := by
  simpa [clearsOwn, hc, hclear] using h

theorem sound_step (h : Sound ttl s.election) (hclears : s.clearsOwn event = true)
    (hs : step ttl s event = .ok next) : Sound ttl next.election := by
  rcases electionStep hs with hsame | ⟨time, helapse⟩ | ⟨index, c, rfl, hc, hexecute⟩
  · rwa [hsame]
  · rw [helapse]
    refine ⟨fun i t ht hlt hcleared => h.held i t ht ?_ hcleared, h.claimed⟩
    dsimp only at hlt
    omega
  · rw [hexecute]
    exact h.execute (execute_executes c.command) (get_of_clearsOwn hc hclears)

theorem late_step (h : Late ttl s.election) (hsound : Sound ttl s.election)
    (hlate : s.SetsLate ttl event) (hs : step ttl s event = .ok next) :
    Late ttl next.election := by
  rcases electionStep hs with hsame | ⟨time, helapse⟩ | ⟨index, c, rfl, hc, hexecute⟩
  · rwa [hsame]
  · rw [helapse]
    rintro i j ⟨t, ht, hlt⟩ ⟨t', ht', hlt'⟩
    dsimp only at hlt hlt'
    exact h i j ⟨t, ht, by omega⟩ ⟨t', ht', by omega⟩
  · rw [hexecute]
    exact h.execute hsound (execute_executes c.command) (hlate index c rfl hc)

theorem keepsLeaderKey_step (hclears : s.clearsOwn event = true)
    (hs : step ttl s event = .ok next) : s.KeepsLeaderKey event next := by
  intro leaderId hget hother
  rcases electionStep hs with hsame | ⟨time, helapse⟩ | ⟨index, c, rfl, hc, hexecute⟩
  · rw [hsame]
  · rw [helapse]
  · rw [hexecute]
    exact leaderKey_execute (execute_executes c.command) hget (fun hhost => hother ⟨index, c, rfl, hc, hhost⟩)
      (get_of_clearsOwn hc hclears)

/-! ## Runs -/

omit [DecidableEq I] in
theorem sound_initial : Sound ttl ({} : LeaderElection I) :=
  ⟨fun _ _ ht => (by cases ht), fun _ _ hkey => (by cases hkey)⟩

omit [DecidableEq I] in
theorem late_initial : Late ttl ({} : LeaderElection I) := by
  rintro i j ⟨t, ht, -⟩
  cases ht

variable {steps : List (MultiMainSetup I × MultiMainEvent I)}

/-- In a run in which no instance deletes a key that holds the id of another, no key that has not
expired is deleted or overwritten by another instance, and of the instances with a fresh claim
that they have not deleted themselves at most one considers itself leader. When the key is
not set anew before those claims have run out either, it is at most one of all with a fresh
claim. -/
theorem multiMain_run (h : Run (step ttl) {} steps s)
    (hclears : ∀ x ∈ steps, x.1.clearsOwn x.2 = true) :
    (∀ x ∈ steps, ∀ next, step ttl x.1 x.2 = .ok next → x.1.KeepsLeaderKey x.2 next) ∧
      (∀ state ∈ steps.map Prod.fst ++ [s], state.ExclusiveHolder ttl) ∧
      ((∀ x ∈ steps, x.1.SetsLate ttl x.2) →
        ∀ state ∈ steps.map Prod.fst ++ [s], state.ExclusiveLeader ttl) := by
  refine ⟨fun x hx next hs => keepsLeaderKey_step (hclears x hx) hs, fun state hstate => ?_,
    fun hlate state hstate => ?_⟩
  · have hsound := h.forall_states_of (I := fun s => Sound ttl s.election) sound_initial
      (fun _ _ _ hs hC hstep => sound_step hs hC hstep) hclears state hstate
    intro i j _ _ hi hj hci hcj
    exact Option.some.inj ((hsound.get_of_held hi hci).symm.trans (hsound.get_of_held hj hcj))
  · have hboth := h.forall_states_of (I := fun s => Sound ttl s.election ∧ Late ttl s.election)
      (C := fun s e => s.clearsOwn e = true ∧ s.SetsLate ttl e) ⟨sound_initial, late_initial⟩
      (fun _ _ _ hs hC hstep => ⟨sound_step hs.1 hC.1 hstep, late_step hs.2 hs.1 hC.2 hstep⟩)
      (fun x hx => ⟨hclears x hx, hlate x hx⟩) state hstate
    exact fun i j _ _ hi hj => hboth.2 i j hi hj

/-- A leader renews its claim and shuts down, and a follower takes over. -/
theorem multiMain_run_handover : ∃ steps, ∃ s : MultiMainSetup ℕ, Run (step 10) {} steps s ∧
    (s.instances 1).isLeader = true ∧
    (∀ x ∈ steps, ∀ next, step 10 x.1 x.2 = .ok next → x.1.KeepsLeaderKey x.2 next) ∧
      (∀ state ∈ steps.map Prod.fst ++ [s], state.ExclusiveHolder 10) ∧
      ((∀ x ∈ steps, x.1.SetsLate 10 x.2) →
        ∀ state ∈ steps.map Prod.fst ++ [s], state.ExclusiveLeader 10) := by
  have hevents : (runSteps (step 10) ({} : MultiMainSetup ℕ)
      [.init 0, .execute 0, .settle 0 false, .init 1, .execute 1, .settle 1 false, .elapse 5,
        .checkLeader 0, .execute 2, .settle 2 false, .shutdown 0, .checkLeader 1, .execute 3,
        .execute 4, .settle 3 true, .settle 4 false, .execute 5, .settle 4 false]).map
        (fun r => ((r.2.instances 1).isLeader, r.1.all fun x => x.1.clearsOwn x.2)) =
      .ok (true, true) := by
    decide
  obtain ⟨steps, s, hrun, -, hresult⟩ := exists_run hevents
  obtain ⟨hleader, hclears⟩ := Prod.mk.inj hresult
  exact ⟨steps, s, hrun, hleader, multiMain_run hrun (List.all_eq_true.mp hclears)⟩

/-- A leader whose key has expired shuts down and deletes the key of the next one, so that a third
instance takes over as well. -/
theorem multiMain_run_foreignKey : ∃ steps, ∃ s : MultiMainSetup ℕ, Run (step 10) {} steps s ∧
    ¬(∀ x ∈ steps, ∀ next, step 10 x.1 x.2 = .ok next → x.1.KeepsLeaderKey x.2 next) ∧
      ¬s.ExclusiveLeader 10 := by
  have hevents : (runSteps (step 10) ({} : MultiMainSetup ℕ)
      [.init 0, .execute 0, .settle 0 false, .elapse 10, .init 1, .execute 1, .settle 1 false,
        .shutdown 0, .execute 2, .init 2, .execute 3, .settle 3 false]).map
        (fun r => (((r.2.instances 1).isLeader, (r.2.instances 2).isLeader, r.2.election.now,
          r.2.election.lastClaim 1, r.2.election.lastClaim 2),
          (r.1[8]?).map fun x => (x.2, x.1.election.get, x.1.commands[2]?))) =
      .ok ((true, true, 10, some 10, some 10),
        some (.execute 2, some 1, some { hostId := 0, command := .clearLeader })) := by
    rfl
  obtain ⟨steps, s, hrun, -, hresult⟩ := exists_run hevents
  obtain ⟨hlast, hdelete⟩ := Prod.mk.inj hresult
  simp only [Prod.mk.injEq] at hlast
  obtain ⟨h1, h2, hnow, hclaim1, hclaim2⟩ := hlast
  obtain ⟨⟨before, event⟩, hx, hbefore⟩ := Option.map_eq_some_iff.mp hdelete
  simp only [Prod.mk.injEq] at hbefore
  obtain ⟨rfl, hget, hc⟩ := hbefore
  refine ⟨steps, s, hrun, fun h => ?_, fun h => ?_⟩
  · have hstep : step 10 before (.execute 2) = .ok { before with
        election := before.election.clear 0
        commands := before.commands.set 2
          { hostId := 0, command := .clearLeader, reply := some .cleared } } := by
      simp only [step, hc, LeaderElection.execute]
    have hkey : none = before.election.leaderKey := h _ (List.mem_of_getElem? hx) _ hstep 1 hget <| by
      rintro ⟨index, c, hindex, hc', hhost⟩
      cases hindex
      rw [hc] at hc'
      cases hc'
      cases hhost
    rw [LeaderElection.get, ← hkey] at hget
    cases hget
  · have hfresh : ∀ i, s.election.lastClaim i = some 10 → s.election.Fresh 10 i := fun i hi =>
      ⟨10, hi, by rw [hnow]; decide⟩
    exact absurd (h 1 2 h1 h2 (hfresh 1 hclaim1) (hfresh 2 hclaim2)) (by decide)

end MultiMainSetup

end N8n
