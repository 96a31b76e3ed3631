import N8n.Engine.NodeRun

/-!
# How often a node is tried

A node with `retryOnFail` is run again when `runNode` throws, and when its first output
item reports an error. The loop that retries the second kind of failure runs inside the
loop that retries the first, and both count with one variable. It moves on only after the
inner call has returned : an error thrown by that call is not counted, and the node gets
one call more.

`TriesEnd` is the two loops as one count over the outcomes of the calls, and
`runTries_triesEnd` shows that the tries of a node follow it.
`runNodeWithRetries_bounded_iff` says for which outcomes the tries stay within their
number, end with the first success, and report a failure only after the last of them.
-/

open Lib

namespace N8n

variable {J : Type} [DataObject J]

/-! ## Outcomes -/

/-- The call failed : it threw, or its first item reports an error. -/
def RunResult.isFailure : RunResult J → Bool
  | thrown _ => true
  | result => result.failed

def RunResult.isThrown : RunResult J → Bool
  | thrown _ => true
  | _ => false

/-- The outputs can be paired with the input and, if that is asked for, filled. -/
def settles (executionData : IExecuteData J) (node : INode)
    (data : Option (List (Slot (Items J)))) : Bool :=
  match data.mapM (assignPairedItems · executionData) with
  | .error _ => false
  | .ok nodeSuccessData =>
    match ensureOutput executionData node nodeSuccessData with
    | .error _ => false
    | .ok _ => true

inductive CallOutcome where
  | success
  /-- The first item reports an error. -/
  | softFailure
  | thrown
  /-- The outputs cannot be paired or filled, which throws after the call. -/
  | unsettled
  deriving DecidableEq, Repr

/-- What becomes of a call that is not a request. -/
def RunResult.outcome (executionData : IExecuteData J) (node : INode) :
    RunResult J → CallOutcome
  | .output data waitTill =>
    if (RunResult.output data waitTill).failed then .softFailure
    else if settles executionData node data then .success
    else .unsettled
  | .thrown _ => .thrown
  | .request _ => .unsettled

@[simp]
theorem RunResult.outcome_thrown_iff (executionData : IExecuteData J) (node : INode)
    (result : RunResult J) :
    result.outcome executionData node = .thrown ↔ result.isThrown = true := by
  cases result with
  | output data waitTill =>
    simp only [outcome, isThrown]
    split <;> [skip; split] <;> simp
  | request request => simp [outcome, isThrown]
  | thrown message => simp [outcome, isThrown]

@[simp]
theorem RunResult.outcome_softFailure_iff (executionData : IExecuteData J) (node : INode)
    (result : RunResult J) :
    result.outcome executionData node = .softFailure ↔ result.failed = true := by
  cases result with
  | output data waitTill =>
    simp only [outcome]
    split
    · simpa
    · split <;> simp_all
  | request request => simp [outcome, failed]
  | thrown message => simp [outcome, failed]

theorem RunResult.isFailure_iff (executionData : IExecuteData J) (node : INode)
    (result : RunResult J) :
    result.isFailure = true ↔ result.outcome executionData node = .softFailure ∨
      result.outcome executionData node = .thrown := by
  rw [outcome_softFailure_iff, outcome_thrown_iff]
  cases result <;> simp [isFailure, isThrown, failed]

/-! ## The two loops as one count -/

/-- With `tries` tries left and `c` calls made the node ends up with `n` calls, the last of
them a success or not. The flag says that the next call is made by the inner loop, after a
soft failure. -/
inductive TriesEnd (outcome : ℕ → CallOutcome) : ℕ → ℕ → Bool → ℕ → Bool → Prop
  | exhausted (c : ℕ) (afterSoft : Bool) : TriesEnd outcome 0 c afterSoft c false
  | success {tries c : ℕ} {afterSoft : Bool} : outcome c = .success →
      TriesEnd outcome (tries + 1) c afterSoft (c + 1) true
  | softFailure {tries c n : ℕ} {afterSoft ok : Bool} : outcome c = .softFailure →
      TriesEnd outcome tries (c + 1) true n ok → TriesEnd outcome (tries + 1) c afterSoft n ok
  | thrown {tries c n : ℕ} {ok : Bool} : outcome c = .thrown →
      TriesEnd outcome tries (c + 1) false n ok → TriesEnd outcome (tries + 1) c false n ok
  /-- The exception leaves the inner loop before it has counted the call. -/
  | thrownAfterSoft {tries c n : ℕ} {ok : Bool} : outcome c = .thrown →
      TriesEnd outcome (tries + 1) (c + 1) false n ok →
      TriesEnd outcome (tries + 1) c true n ok
  | unsettled {tries c n : ℕ} {afterSoft ok : Bool} : outcome c = .unsettled →
      TriesEnd outcome tries (c + 1) false n ok → TriesEnd outcome (tries + 1) c afterSoft n ok

namespace TriesEnd

variable {outcome : ℕ → CallOutcome} {tries c n : ℕ} {afterSoft ok : Bool}

theorem le (h : TriesEnd outcome tries c afterSoft n ok) : c ≤ n := by
  induction h <;> omega

theorem lt_of_ok (h : TriesEnd outcome tries c afterSoft n true) : c < n := by
  generalize hok : true = ok at h
  induction h with
  | exhausted => cases hok
  | success => omega
  | softFailure _ _ ih | thrown _ _ ih | thrownAfterSoft _ _ ih | unsettled _ _ ih =>
    have := ih hok
    omega

/-- The only success is the last call. -/
theorem success_iff (h : TriesEnd outcome tries c afterSoft n ok) {k : ℕ} (hc : c ≤ k)
    (hn : k < n) : outcome k = .success ↔ ok = true ∧ k + 1 = n := by
  induction h with
  | exhausted c => omega
  | @success tries c _ hsuccess =>
    obtain rfl : k = c := by omega
    simp [hsuccess]
  | @softFailure _ c _ _ _ houtcome hrest ih | @thrown _ c _ _ houtcome hrest ih
  | @thrownAfterSoft _ c _ _ houtcome hrest ih | @unsettled _ c _ _ _ houtcome hrest ih =>
    by_cases hk : k = c
    · subst hk
      rw [houtcome]
      simp only [reduceCtorEq, false_iff, not_and]
      rintro rfl rfl
      -- the tries that follow would have ended with a success before their first call
      exact absurd hrest.lt_of_ok (by omega)
    · exact ih (by omega) hn

/-- Without a success every try is used. -/
theorem all_used (h : TriesEnd outcome tries c afterSoft n false) : c + tries ≤ n := by
  generalize hok : false = ok at h
  induction h with
  | exhausted => omega
  | success => cases hok
  | softFailure _ _ ih | thrown _ _ ih | thrownAfterSoft _ _ ih | unsettled _ _ ih =>
    have := ih hok
    omega

/-- A call that is not counted is an exception after a soft failure. -/
theorem uncounted_of_lt (h : TriesEnd outcome tries c afterSoft n ok) (hlt : c + tries < n) :
    (afterSoft = true ∧ outcome c = .thrown) ∨
      ∃ k, c ≤ k ∧ k + 1 < c + tries ∧ outcome k = .softFailure ∧ outcome (k + 1) = .thrown := by
  induction h with
  | exhausted c => omega
  | success => omega
  | @softFailure tries c _ _ _ hsoft hrest ih =>
    rcases ih (by omega) with ⟨-, hthrown⟩ | ⟨k, hk, hbound, hpair⟩
    · -- at least one try is left, else the tries would have ended here
      cases tries with
      | zero => cases hrest; omega
      | succ tries => exact .inr ⟨c, le_rfl, by omega, hsoft, hthrown⟩
    · exact .inr ⟨k, by omega, by omega, hpair⟩
  | thrown _ _ ih | unsettled _ _ ih =>
    rcases ih (by omega) with ⟨hflag, -⟩ | ⟨k, hk, hbound, hpair⟩
    · cases hflag
    · exact .inr ⟨k, by omega, by omega, hpair⟩
  | thrownAfterSoft hthrown => exact .inl ⟨rfl, hthrown⟩

/-- Without a success, an exception after a soft failure is a call more. -/
theorem lt_of_uncounted (h : TriesEnd outcome tries c afterSoft n false)
    (huncounted : (afterSoft = true ∧ outcome c = .thrown ∧ 0 < tries) ∨
      ∃ k, c ≤ k ∧ k + 1 < c + tries ∧ outcome k = .softFailure ∧ outcome (k + 1) = .thrown) :
    c + tries < n := by
  generalize hok : false = ok at h
  induction h with
  | exhausted c =>
    rcases huncounted with ⟨-, -, hpos⟩ | ⟨k, hk, hbound, -⟩ <;> omega
  | success => cases hok
  | @softFailure tries c n _ _ hsoft _ ih =>
    rcases huncounted with ⟨-, hthrown, -⟩ | ⟨k, hk, hbound, hpair⟩
    · cases hsoft.symm.trans hthrown
    · have hlater : c + 1 + tries < n := by
        by_cases hfirst : k = c
        · subst hfirst
          exact ih (.inl ⟨rfl, hpair.2, by omega⟩) hok
        · exact ih (.inr ⟨k, by omega, by omega, hpair⟩) hok
      omega
  | @thrown tries c _ _ houtcome _ ih | @unsettled tries c _ _ _ houtcome _ ih =>
    rcases huncounted with h | ⟨k, hk, hbound, hsoft, hthrown⟩
    · simp_all
    · have hne : k ≠ c := by
        rintro rfl
        cases hsoft.symm.trans houtcome
      have := ih (.inr ⟨k, by omega, by omega, hsoft, hthrown⟩) hok
      omega
  | thrownAfterSoft _ hrest =>
    subst hok
    have := hrest.all_used
    omega

end TriesEnd

/-! ## The loops follow the count -/

/-- The node has failed as far as what follows can tell. -/
def Attempt.Reported (results : ℕ → RunResult J) (attempt : Attempt J) : Prop :=
  attempt.executionError.isSome = true ∨
    0 < attempt.calls ∧ (results (attempt.calls - 1)).failed = true

section Tries

variable {config : LoopConfig J} (executionNode : INode) (executionData : IExecuteData J)
  (runIndex : ℕ) (results : ℕ → RunResult J)

/-- What becomes of each call. -/
def outcomes (executionData : IExecuteData J) (executionNode : INode)
    (results : ℕ → RunResult J) (k : ℕ) : CallOutcome :=
  (results k).outcome executionData executionNode

/-- The inner loop, from a call that has been made to the last call it makes. -/
theorem retryFailed_triesEnd (left : ℕ) {c : ℕ} {attempt : Attempt J} {afterSoft : Bool}
    (hcalls : attempt.calls = c + 1)
    (hthrown : afterSoft = true → (results c).isThrown = false) :
    ∃ left' c' attempt', retryFailed results left (results c) attempt =
        (left', results c', attempt') ∧
      attempt'.calls = c' + 1 ∧ attempt'.executionError = attempt.executionError ∧
      left' ≤ left ∧ ((results c').failed = true → left' = 0) ∧
      ∀ n ok,
        (if (results c').isThrown then
          TriesEnd (outcomes executionData executionNode results) left' (c' + 1) false n ok
        else ∀ flag,
          TriesEnd (outcomes executionData executionNode results) (left' + 1) c' flag n ok) →
        TriesEnd (outcomes executionData executionNode results) (left + 1) c afterSoft n ok := by
  -- the loop ends with this call
  have hlast : ∀ n ok,
      (if (results c).isThrown then
        TriesEnd (outcomes executionData executionNode results) left (c + 1) false n ok
      else ∀ flag,
        TriesEnd (outcomes executionData executionNode results) (left + 1) c flag n ok) →
      TriesEnd (outcomes executionData executionNode results) (left + 1) c afterSoft n ok := by
    intro n ok hend
    split at hend
    case isTrue hc =>
      obtain rfl : afterSoft = false := by
        cases afterSoft with
        | false => rfl
        | true => simp [hthrown rfl] at hc
      exact .thrown (by simpa [outcomes] using hc) hend
    case isFalse => exact hend afterSoft
  induction left generalizing c attempt afterSoft with
  | zero =>
    exact ⟨0, c, attempt, by rw [retryFailed], hcalls, rfl, le_rfl, fun _ => rfl, hlast⟩
  | succ left ih =>
    by_cases hfailed : (results c).failed = true
    · have hsoft : outcomes executionData executionNode results c = .softFailure := by
        simpa [outcomes] using hfailed
      rcases hcall : callRunNode results attempt with ⟨result, attempt₁⟩
      obtain ⟨rfl, hcalls₁, herror₁⟩ : result = results (c + 1) ∧ attempt₁.calls = c + 1 + 1 ∧
          attempt₁.executionError = attempt.executionError := by
        simp only [callRunNode, hcalls, Prod.mk.injEq] at hcall
        obtain ⟨rfl, rfl⟩ := hcall
        exact ⟨rfl, rfl, rfl⟩
      by_cases hinner : (results (c + 1)).isThrown = true
      · -- the exception leaves both loops
        obtain ⟨message, hmessage⟩ : ∃ message, results (c + 1) = .thrown message := by
          revert hinner
          cases results (c + 1) <;> simp [RunResult.isThrown]
        refine ⟨left + 1, c + 1, attempt₁, ?_, hcalls₁, herror₁, le_rfl, ?_, ?_⟩
        · simp [retryFailed, hfailed, hcall, hmessage]
        · simp [hmessage, RunResult.failed]
        · intro n ok hend
          rw [if_pos hinner] at hend
          exact .softFailure hsoft (.thrownAfterSoft (by simpa [outcomes] using hinner) hend)
      · have hnot : ∀ message, results (c + 1) ≠ .thrown message := by
          intro message hmessage
          simp [hmessage, RunResult.isThrown] at hinner
        obtain ⟨left', c', attempt', hretry, hcalls', herror', hle, hused, hend⟩ :=
          ih hcalls₁ (fun _ : true = true => by simpa using hinner) (by
              intro n ok hend
              rw [if_neg hinner] at hend
              exact hend true)
        refine ⟨left', c', attempt', ?_, hcalls', herror'.trans herror₁, by omega, hused, ?_⟩
        · rw [retryFailed, ← hretry]
          simp only [hfailed, hcall, Bool.not_true, Bool.false_eq_true, if_false]
        · exact fun n ok h => .softFailure hsoft (hend n ok h)
    · refine ⟨left + 1, c, attempt, ?_, hcalls, rfl, le_rfl, fun h => absurd h hfailed, hlast⟩
      rw [retryFailed]
      simp [hfailed]

/-- Settling keeps the calls and the error; it throws unless the outputs settle. -/
theorem settleOutput_spec (attempt : Attempt J) :
    let settled := settleOutput executionData executionNode attempt
    settled.1.calls = attempt.calls ∧ settled.1.executionError = attempt.executionError ∧
      ((∃ message, settled.2 = .thrown message) ↔
        settles executionData executionNode attempt.nodeSuccessData = false) := by
  unfold settleOutput settles
  dsimp only
  cases hdata : attempt.nodeSuccessData.mapM (assignPairedItems · executionData) with
  | error e => simp
  | ok data =>
    cases hsettled : ensureOutput executionData executionNode data with
    | error e => simp [hsettled]
    | ok settled =>
      simp only [hsettled, true_and, Bool.true_eq_false, iff_false, not_exists]
      intro message
      split <;> [split; split] <;> simp

/-- One try : an exception leaves it with the tries that follow, anything else ends the
node with the last call it made. -/
theorem tryNode_triesEnd (hpin : config.nodePinData? executionNode = none)
    (hrequest : ∀ k request, results k ≠ .request request) (left : ℕ) (attempt : Attempt J) :
    ∃ left' attempt' outcome,
      tryNode config executionNode executionData runIndex results left attempt =
        (left', attempt', outcome) ∧
      left' ≤ left ∧ 0 < attempt'.calls ∧ attempt'.executionError = attempt.executionError ∧
      ((∃ message, outcome = .thrown message ∧ ∀ n ok,
          TriesEnd (outcomes executionData executionNode results) left' attempt'.calls false n ok →
          TriesEnd (outcomes executionData executionNode results) (left + 1) attempt.calls false
            n ok) ∨
        (∀ message, outcome ≠ .thrown message) ∧
          TriesEnd (outcomes executionData executionNode results) (left + 1) attempt.calls false
            attempt'.calls !(results (attempt'.calls - 1)).failed) := by
  rcases hcall : callRunNode results attempt with ⟨result, attempt₁⟩
  obtain ⟨rfl, hcalls₁, herror₁⟩ : result = results attempt.calls ∧
      attempt₁.calls = attempt.calls + 1 ∧
      attempt₁.executionError = attempt.executionError := by
    simp only [callRunNode, Prod.mk.injEq] at hcall
    obtain ⟨rfl, rfl⟩ := hcall
    exact ⟨rfl, rfl, rfl⟩
  obtain ⟨left', c, attempt₂, hretry, hcalls₂, herror₂, hle, hused, hend⟩ :=
    retryFailed_triesEnd executionNode executionData results left hcalls₁
      (fun h : false = true => nomatch h)
  cases hresult : results c with
  | request request => exact absurd hresult (hrequest c request)
  | thrown message =>
    refine ⟨left', attempt₂, .thrown message, by simp only [tryNode, hpin, hcall, hretry, hresult],
      hle, by omega, herror₂.trans herror₁, .inl ⟨message, rfl, ?_⟩⟩
    intro n ok h
    refine hend n ok ?_
    rw [if_pos (by simp [hresult, RunResult.isThrown]), ← hcalls₂]
    exact h
  | output data waitTill =>
    have hend : ∀ n ok, (∀ flag, TriesEnd (outcomes executionData executionNode results)
        (left' + 1) c flag n ok) → TriesEnd (outcomes executionData executionNode results)
          (left + 1) attempt.calls false n ok := by
      simpa [hresult, RunResult.isThrown] using hend
    obtain ⟨hcalls, herror, hthrown⟩ := settleOutput_spec executionNode executionData
      { attempt₂ with nodeSuccessData := data }
    rcases hsettled : settleOutput executionData executionNode
      { attempt₂ with nodeSuccessData := data } with ⟨attempt₃, outcome⟩
    simp only [hsettled] at hcalls herror hthrown
    refine ⟨left', attempt₃, outcome, by simp only [tryNode, hpin, hcall, hretry, hresult, hsettled],
      hle, by omega, herror.trans (herror₂.trans herror₁), ?_⟩
    have hc : attempt₃.calls - 1 = c := by omega
    rw [hc, hresult]
    have hread : outcomes executionData executionNode results c =
        (RunResult.output data waitTill).outcome executionData executionNode := by
      rw [outcomes, hresult]
    by_cases hfailed : (RunResult.output data waitTill).failed = true
    · -- a soft failure that is not retried : it was the last try
      obtain rfl : left' = 0 := hused (by rw [hresult]; exact hfailed)
      have hsoft : outcomes executionData executionNode results c = .softFailure := by
        rw [hread, RunResult.outcome_softFailure_iff]
        exact hfailed
      have hlast : TriesEnd (outcomes executionData executionNode results) (left + 1)
          attempt.calls false attempt₃.calls false := by
        refine hend _ _ fun flag => .softFailure hsoft ?_
        rw [hcalls, hcalls₂]
        exact .exhausted _ _
      rw [hfailed]
      by_cases houtcome : ∃ message, outcome = .thrown message
      · obtain ⟨message, rfl⟩ := houtcome
        refine .inl ⟨message, rfl, fun n ok h => ?_⟩
        cases h
        exact hlast
      · exact .inr ⟨by simpa using houtcome, hlast⟩
    · by_cases hsettles : settles executionData executionNode data = true
      · have hsuccess : outcomes executionData executionNode results c = .success := by
          rw [hread, RunResult.outcome, if_neg hfailed, if_pos hsettles]
        refine .inr ⟨?_, ?_⟩
        · intro message hmessage
          simp [hthrown.mp ⟨message, hmessage⟩] at hsettles
        · refine hend _ _ fun flag => ?_
          rw [hcalls, hcalls₂, Bool.eq_false_iff.mpr hfailed]
          exact .success hsuccess
      · have hunsettled : outcomes executionData executionNode results c = .unsettled := by
          rw [hread, RunResult.outcome, if_neg hfailed, if_neg hsettles]
        obtain ⟨message, rfl⟩ := hthrown.mpr (Bool.eq_false_iff.mpr hsettles)
        refine .inl ⟨message, rfl, fun n ok h => hend n ok fun flag => ?_⟩
        rw [hcalls, hcalls₂] at h
        exact .unsettled hunsettled h

/-- Without pinned data and requests, the tries of a node follow the count. -/
theorem runTries_triesEnd (hpin : config.nodePinData? executionNode = none)
    (hrequest : ∀ k request, results k ≠ .request request) {rounds tries : ℕ}
    (hrounds : tries ≤ rounds) {attempt : Attempt J}
    (hreported : tries = 0 → attempt.Reported results) :
    ∃ ok, TriesEnd (outcomes executionData executionNode results) tries attempt.calls false
        (runTries config executionNode executionData runIndex results rounds tries attempt).1.calls
        ok ∧
      ((runTries config executionNode executionData runIndex results rounds tries
          attempt).1.Reported results ↔ ok = false) := by
  -- no try is left
  have hnone : tries = 0 → runTries config executionNode executionData runIndex results rounds
      tries attempt = (attempt, none) := by
    rintro rfl
    cases rounds <;> simp [runTries]
  induction rounds generalizing tries attempt with
  | zero =>
    obtain rfl : tries = 0 := by omega
    rw [hnone rfl]
    exact ⟨false, .exhausted _ _, by simpa using hreported rfl⟩
  | succ rounds ih =>
    cases tries with
    | zero =>
      rw [hnone rfl]
      exact ⟨false, .exhausted _ _, by simpa using hreported rfl⟩
    | succ tries =>
      obtain ⟨left, attempt', outcome, htry, hle, hpos, herror, hcases⟩ :=
        tryNode_triesEnd executionNode executionData runIndex results hpin hrequest tries
           { attempt with executionError := none }
      simp only [runTries, htry]
      rcases hcases with ⟨message, rfl, hend⟩ | ⟨hnot, hend⟩
      · let next : Attempt J := { attempt' with
          executionError := some message
          st := { attempt'.st with lastNodeExecuted := some executionNode.name } }
        obtain ⟨ok, hrest, hok⟩ := ih (show left ≤ rounds by omega)
          (fun _ => .inl rfl : left = 0 → next.Reported results)
          (by rintro rfl; cases rounds <;> simp [runTries])
        exact ⟨ok, hend _ _ hrest, hok⟩
      · have hreport : attempt'.Reported results ↔
            (!(results (attempt'.calls - 1)).failed) = false := by
          simp [Attempt.Reported, herror, hpos]
        cases outcome with
        | leave exit => exact ⟨_, hend, hreport⟩
        | done => exact ⟨_, hend, hreport⟩
        | thrown message => exact absurd rfl (hnot message)

/-! ## Bounded retries -/

/-- A run of the node makes at most `tries` calls, none after one that did not fail, and
reports a failure only when as many calls as there are tries have failed. -/
structure RetriesBounded (tries : ℕ) (attempt : Attempt J) : Prop where
  bounded : attempt.calls ≤ tries
  stops : ∀ k, k + 1 < attempt.calls → (results k).isFailure = true
  reports : attempt.Reported results →
    attempt.calls = tries ∧ ∀ k < tries, (results k).isFailure = true

/-- The outputs settle; if the node is not pinned, either one of the first `tries` calls is
the first not to fail and its outputs settle, or all of them fail and no soft failure is
directly followed by an exception. -/
def RetriesCounted (config : LoopConfig J) (tries : ℕ) : Prop :=
  match config.nodePinData? executionNode with
  | some nodePinData => settles executionData executionNode (some [.val nodePinData]) = true
  | none =>
    (∃ n < tries, (results n).outcome executionData executionNode = .success ∧
      ∀ k < n, (results k).isFailure = true) ∨
    (∀ k < tries, (results k).isFailure = true) ∧
      ∀ k, k + 1 < tries → (results k).failed = true → (results (k + 1)).isThrown = false

/-- A pinned node is not called; it fails unless its pinned data settles. -/
theorem runTries_pinned {nodePinData : Items J}
    (hpin : config.nodePinData? executionNode = some nodePinData) {rounds tries : ℕ}
    (hrounds : tries ≤ rounds) {attempt : Attempt J}
    (herror : tries = 0 → (attempt.executionError.isSome = true ↔
      settles executionData executionNode (some [.val nodePinData]) = false)) :
    let final := (runTries config executionNode executionData runIndex results rounds tries
      attempt).1
    final.calls = attempt.calls ∧ (final.executionError.isSome = true ↔
      settles executionData executionNode (some [.val nodePinData]) = false) := by
  have hnone : tries = 0 → runTries config executionNode executionData runIndex results rounds
      tries attempt = (attempt, none) := by
    rintro rfl
    cases rounds <;> simp [runTries]
  induction rounds generalizing tries attempt with
  | zero =>
    obtain rfl : tries = 0 := by omega
    rw [hnone rfl]
    exact ⟨rfl, herror rfl⟩
  | succ rounds ih =>
    cases tries with
    | zero =>
      rw [hnone rfl]
      exact ⟨rfl, herror rfl⟩
    | succ tries =>
      obtain ⟨hcalls, herror', hthrown⟩ := settleOutput_spec executionNode executionData
        { attempt with executionError := none, nodeSuccessData := some [.val nodePinData] }
      rcases hsettled : settleOutput executionData executionNode
        { attempt with executionError := none, nodeSuccessData := some [.val nodePinData] } with
        ⟨attempt', outcome⟩
      simp only [hsettled] at hcalls herror' hthrown
      simp only [runTries, tryNode, hpin, hsettled]
      cases outcome with
      | leave exit => simp_all
      | done => simp_all
      | thrown message =>
        have hfails := hthrown.mp ⟨message, rfl⟩
        let next : Attempt J := { attempt' with
          executionError := some message
          st := { attempt'.st with lastNodeExecuted := some executionNode.name } }
        obtain ⟨hrest, hfinal⟩ := ih (show tries ≤ rounds by omega)
          (fun _ => by simp [next, hfails] : tries = 0 → (next.executionError.isSome = true ↔
            settles executionData executionNode (some [.val nodePinData]) = false))
          (by rintro rfl; cases rounds <;> simp [runTries])
        exact ⟨hrest.trans hcalls, hfinal⟩

omit [DataObject J] in
theorem maxTries_pos : 0 < maxTries executionNode executionData := by
  simp only [maxTries]
  split
  case isTrue => exact lt_min (by omega) (lt_max_of_lt_left (by omega))
  case isFalse => exact Nat.one_pos

variable {executionNode executionData results} in
/-- For a node that is not pinned, what the count ends with is bounded if and only if the
outcomes are counted. -/
theorem TriesEnd.bounded_iff {tries : ℕ} {attempt : Attempt J} {ok : Bool}
    (hend : TriesEnd (outcomes executionData executionNode results) tries 0 false attempt.calls ok)
    (hreported : attempt.Reported results ↔ ok = false) :
    RetriesBounded results tries attempt ↔
      (∃ n < tries, (results n).outcome executionData executionNode = .success ∧
        ∀ k < n, (results k).isFailure = true) ∨
      (∀ k < tries, (results k).isFailure = true) ∧
        ∀ k, k + 1 < tries → (results k).failed = true →
          (results (k + 1)).isThrown = false := by
  have hfailure : ∀ {k}, (results k).isFailure = true →
      outcomes executionData executionNode results k ≠ .success := by
    intro k hk hsuccess
    rcases (RunResult.isFailure_iff executionData executionNode _).mp hk with h | h
    · cases hsuccess.symm.trans h
    · cases hsuccess.symm.trans h
  have hlast : ∀ {k}, k < attempt.calls →
      (outcomes executionData executionNode results k = .success ↔
        ok = true ∧ k + 1 = attempt.calls) := fun hk => hend.success_iff (Nat.zero_le _) hk
  constructor
  · rintro ⟨hbounded, hstops, hreports⟩
    cases hok : ok with
    | true =>
      subst hok
      have hpos := hend.lt_of_ok
      refine .inl ⟨attempt.calls - 1, by omega, (hlast (by omega)).mpr ⟨rfl, by omega⟩, ?_⟩
      exact fun k hk => hstops k (by omega)
    | false =>
      obtain ⟨hcalls, hall⟩ := hreports (hreported.mpr hok)
      refine .inr ⟨hall, fun k hk hsoft => ?_⟩
      by_contra hthrown
      subst hok
      have := hend.lt_of_uncounted (.inr ⟨k, by omega, by omega, by simpa [outcomes] using hsoft,
        by simpa [outcomes] using hthrown⟩)
      omega
  · rintro (⟨n, hn, hsuccess, hbefore⟩ | ⟨hall, hpairs⟩)
    · -- the calls go on to the success and not further
      have hcalls : attempt.calls ≤ n + 1 := by
        by_contra hmore
        have := ((hlast (by omega)).mp hsuccess).2
        omega
      have hok : ok = true := by
        by_contra hno
        have hno := Bool.eq_false_iff.mpr hno
        subst hno
        have hused := hend.all_used
        cases ((hlast (by omega)).mp hsuccess).1
      subst hok
      have hpos := hend.lt_of_ok
      have hcalls' : attempt.calls = n + 1 := by
        by_contra hless
        exact hfailure (hbefore (attempt.calls - 1) (by omega))
          ((hlast (by omega)).mpr ⟨rfl, by omega⟩)
      refine ⟨by omega, fun k hk => hbefore k (by omega), fun h => ?_⟩
      cases hreported.mp h
    · have hcalls : attempt.calls ≤ tries := by
        by_contra hmore
        rcases hend.uncounted_of_lt (by omega) with ⟨h, -⟩ | ⟨k, -, hk, hsoft, hthrown⟩
        · cases h
        · have := hpairs k (by omega) (by simpa [outcomes] using hsoft)
          simp [outcomes, this] at hthrown
      have hok : ok = false := by
        by_contra hyes
        have hyes := Bool.eq_true_of_not_eq_false hyes
        subst hyes
        have hpos := hend.lt_of_ok
        exact hfailure (hall (attempt.calls - 1) (by omega))
          ((hlast (by omega)).mpr ⟨rfl, by omega⟩)
      subst hok
      have hused := hend.all_used
      exact ⟨hcalls, fun k hk => hall k (by omega), fun _ => ⟨by omega, hall⟩⟩

/-- The node keeps to its tries if and only if its outcomes are counted. -/
theorem runNodeWithRetries_bounded_iff (config : LoopConfig J) (st : LoopState J)
    (hrequest : ∀ k request, results k ≠ .request request) :
    RetriesBounded results (maxTries executionNode executionData)
        (runNodeWithRetries config executionNode executionData runIndex results st).1 ↔
      RetriesCounted executionNode executionData results config
        (maxTries executionNode executionData) := by
  have hpos := maxTries_pos executionNode executionData
  let start : Attempt J := { st }
  simp only [RetriesCounted, runNodeWithRetries]
  cases hpin : config.nodePinData? executionNode with
  | some nodePinData =>
    obtain ⟨hcalls, herror⟩ := runTries_pinned executionNode executionData runIndex results hpin
      le_rfl (fun h => absurd h hpos.ne' : maxTries executionNode executionData = 0 →
        (start.executionError.isSome = true ↔
          settles executionData executionNode (some [.val nodePinData]) = false))
    -- nothing more is needed of the attempt the tries end with
    generalize (runTries config executionNode executionData runIndex results
      (maxTries executionNode executionData) (maxTries executionNode executionData)
      start).1 = final at hcalls herror ⊢
    have hcalls : final.calls = 0 := hcalls
    have hreported : final.Reported results ↔
        settles executionData executionNode (some [.val nodePinData]) = false := by
      simp [Attempt.Reported, hcalls, herror]
    constructor
    · intro hbounded
      by_contra hfails
      obtain ⟨hused, -⟩ := hbounded.reports (hreported.mpr (Bool.eq_false_iff.mpr hfails))
      omega
    · intro hsettles
      refine ⟨by omega, fun k hk => absurd hk (by omega), fun h => ?_⟩
      simp [hreported.mp h] at hsettles
  | none =>
    obtain ⟨ok, hend, hreported⟩ := runTries_triesEnd executionNode executionData runIndex results
      hpin hrequest le_rfl (fun h => absurd h hpos.ne' :
        maxTries executionNode executionData = 0 → start.Reported results)
    exact hend.bounded_iff hreported

end Tries

/-! ## Two nodes with two tries -/

/-- Payloads of which only the presence of `error` is kept. -/
instance : DataObject Bool where
  empty := false
  ofError _ := true
  assign a b := a || b
  ofToolCallId _ := false
  errorMessage _ := none
  hasError := id

/-- A node that is tried twice. -/
def retriedNode : INode := { name := "HTTP", retryOnFail := some true, maxTries := some 2 }

def retriedNodeData : IExecuteData Bool where
  node := retriedNode
  data := (∅ : ITaskDataConnections Bool).set .main [.val [{ json := false }]]
  source := none

def retriedConfig : LoopConfig Bool where
  workflow := { nodes := setNodes [retriedNode], name_of_get? := name_of_setNodes }

/-- An item that reports an error, then an item that does not. -/
def failsOnce : ℕ → RunResult Bool
  | 0 => .output (some [.val [{ json := true }]])
  | _ => .output (some [.val [{ json := false }]])

/-- The second try of the node succeeds. -/
theorem failsOnce_bounded :
    RetriesBounded failsOnce 2 (runNodeWithRetries retriedConfig retriedNode retriedNodeData
      0 failsOnce {}).1 := by
  have hrequest : ∀ k request, failsOnce k ≠ .request request := by
    intro k request
    cases k <;> simp [failsOnce]
  refine (runNodeWithRetries_bounded_iff retriedNode retriedNodeData 0 failsOnce
    retriedConfig {} hrequest).mpr (.inl ⟨1, ?_⟩)
  decide

/-- An item that reports an error, then exceptions. -/
def failsThenThrows : ℕ → RunResult Bool
  | 0 => .output (some [.val [{ json := true }]])
  | _ => .thrown "timeout"

/-- The exception of the second call is not counted. -/
theorem failsThenThrows_unbounded :
    maxTries retriedNode retriedNodeData = 2 ∧
      (runNodeWithRetries retriedConfig retriedNode retriedNodeData 0 failsThenThrows
        {}).1.calls = 3 ∧
      ¬ RetriesBounded failsThenThrows 2 (runNodeWithRetries retriedConfig retriedNode
        retriedNodeData 0 failsThenThrows {}).1 := by
  have hcalls : (runNodeWithRetries retriedConfig retriedNode retriedNodeData 0
      failsThenThrows {}).1.calls = 3 := by decide
  refine ⟨by decide, hcalls, fun h => ?_⟩
  have := h.bounded
  omega

end N8n
