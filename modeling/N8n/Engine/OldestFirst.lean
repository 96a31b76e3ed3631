import Mathlib.Data.String.Basic
import N8n.Engine.WaitingLedger
import N8n.Engine.Promotion
import N8n.Lib.NumberedNames

/-!
# Which waiting entry is promoted

The scan for a waiting node that may run takes the first of its outstanding run indexes, in the
order of their spellings : `Object.keys(..).sort()` compares strings, so that `10` comes before
`2`. The entry that is taken is the oldest one exactly when the spelling of the smallest index is
not after another's (`promotion_run`).
-/

open Lib

namespace N8n

variable {J : Type} {workflow : Workflow} {nodeName : String} {st st' : ExecutionState J}

/-! ## Outstanding run indexes -/

/-- The run indexes of the entries of a waiting node. -/
def ExecutionState.outstanding (st : ExecutionState J) (nodeName : String) : List ℕ :=
  ((st.waitingExecution.get? nodeName).getD ∅).keys

/-- The spelling of the smallest outstanding run index is not after another's. -/
def ExecutionState.SpelledFirst (st : ExecutionState J) (nodeName : String) : Prop :=
  ∀ m ∈ st.outstanding nodeName, (∀ k ∈ st.outstanding nodeName, m ≤ k) →
    ∀ k ∈ st.outstanding nodeName, toString m ≤ toString k

theorem firstRunIndex_spec {β : Type} {entries : WaitingEntries β} {index : ℕ}
    (h : firstRunIndex entries = some index) :
    index ∈ entries.keys ∧ ∀ k ∈ entries.keys, toString index ≤ toString k := by
  let before (a b : ℕ) : Prop := toString a ≤ toString b
  have htotal : Std.Total before := ⟨fun a b => le_total (toString a) (toString b)⟩
  have htrans : IsTrans ℕ before := ⟨fun a b c => le_trans⟩
  rw [firstRunIndex] at h
  obtain ⟨rest, hsorted⟩ := List.head?_eq_some_iff.mp h
  have hmem : ∀ k, k ∈ index :: rest ↔ k ∈ entries.keys := fun k => by
    rw [← hsorted, (List.perm_insertionSort _ _).mem_iff, mem_numericKeys]
  have hpairwise := List.pairwise_insertionSort before (numericKeys entries)
  rw [hsorted, List.pairwise_cons] at hpairwise
  refine ⟨(hmem index).mp List.mem_cons_self, fun k hk => ?_⟩
  rcases List.mem_cons.mp ((hmem k).mpr hk) with rfl | hk
  · exact le_refl _
  · exact hpairwise.1 k hk

theorem mem_outstanding_deleteWaiting {index k : ℕ} :
    k ∈ (deleteWaiting nodeName index st).outstanding nodeName ↔
      k ≠ index ∧ k ∈ st.outstanding nodeName := by
  rw [ExecutionState.outstanding, ExecutionState.outstanding, ← OrderedMap.mem_keys_delete,
    deleteWaiting]
  split_ifs with hempty
  · dsimp only
    rw [OrderedMap.get?_delete_self, Option.getD_none]
    rw [← OrderedMap.length_keys, List.length_eq_zero_iff] at hempty
    rw [hempty]
    rfl
  · dsimp only
    rw [OrderedMap.get?_set_self, Option.getD_some]

/-! ## The scan -/

/-- The run indexes outstanding when the scan took an entry of the node, and those of them that
were not afterwards. -/
structure PromotedEntry where
  nodeName : String
  outstanding : List ℕ
  taken : List ℕ
  deriving DecidableEq, Repr

/-- One entry was taken, and no run index that was outstanding is smaller. -/
def PromotedEntry.IsOldest (entry : PromotedEntry) : Prop :=
  ∃ index, entry.taken = [index] ∧ ∀ k ∈ entry.outstanding, index ≤ k

structure ScanState (J : Type) where
  execution : ExecutionState J := {}
  promoted : List PromotedEntry := []

/-- A scan visits waiting nodes one after another. -/
inductive ScanEvent (J : Type) where
  | deliver (call : Delivery J)
  | pop
  | visit (waitingNodes : List String) (nodeName : String)

namespace ScanState

/-- What a visit of the scan does, and the record of the entry it takes. -/
def visit (workflow : Workflow) (waitingNodes : List String) (nodeName : String)
    (s : ScanState J) : Except EngineError (ScanState J) :=
  match promoteNodeIfReady workflow waitingNodes nodeName s.execution with
  | .error e => .error e
  | .ok none => .ok s
  | .ok (some (execution, _)) =>
    let outstanding := s.execution.outstanding nodeName
    .ok {
      execution := execution
      promoted := s.promoted ++ [{
        nodeName := nodeName
        outstanding := outstanding
        taken := outstanding.filter (· ∉ execution.outstanding nodeName) }] }

def run [DataObject J] (workflow : Workflow) (s : ScanState J) :
    ScanEvent J → Except EngineError (ScanState J)
  | .deliver call => do
    return { s with execution := ← addNodeToBeExecuted workflow call s.execution }
  | .pop =>
    .ok { s with execution := { s.execution with
      nodeExecutionStack := s.execution.nodeExecutionStack.tail } }
  | .visit waitingNodes nodeName => s.visit workflow waitingNodes nodeName

/-- Whatever node is visited is passed over, or spelled with the smallest index first. -/
def SpellsOldestFirst (workflow : Workflow) (s : ScanState J) : ScanEvent J → Prop
  | .visit waitingNodes nodeName =>
    promoteNodeIfReady workflow waitingNodes nodeName s.execution = .ok none ∨
      s.execution.SpelledFirst nodeName
  | _ => True

end ScanState

/-! ## Which entry is taken -/

theorem outstanding_promoteNodeIfReady {waitingNodes : List String} {pushed : Bool}
    (h : promoteNodeIfReady workflow waitingNodes nodeName st = .ok (some (st', pushed))) :
    ∃ index, index ∈ st.outstanding nodeName ∧
      (∀ k ∈ st.outstanding nodeName, toString index ≤ toString k) ∧
      ∀ k, k ∈ st'.outstanding nodeName ↔ k ≠ index ∧ k ∈ st.outstanding nodeName := by
  obtain ⟨inputs, entries, index, hentries, hindex, h⟩ := promoteNodeIfReady_eq_some h
  have houtstanding : st.outstanding nodeName = entries.keys := by
    rw [ExecutionState.outstanding, hentries, Option.getD_some]
  obtain ⟨hmem, hfirst⟩ := firstRunIndex_spec hindex
  rw [houtstanding]
  refine ⟨index, hmem, hfirst, fun k => ?_⟩
  rw [← houtstanding]
  obtain ⟨_, -, h⟩ := bind_eq_ok.mp h
  obtain ⟨_, -, h⟩ := bind_eq_ok.mp h
  obtain ⟨_, -, h⟩ := bind_eq_ok.mp h
  obtain ⟨_, -, h⟩ := bind_eq_ok.mp h
  cases h
  exact mem_outstanding_deleteWaiting

theorem nodup_outstanding : (st.outstanding nodeName).Nodup := OrderedMap.nodup_keys' _

/-- The entry that is taken is the oldest exactly when that is spelled first. -/
theorem isOldest_iff {index : ℕ} (hmem : index ∈ st.outstanding nodeName)
    (hfirst : ∀ k ∈ st.outstanding nodeName, toString index ≤ toString k)
    (htaken : ∀ k, k ∈ st'.outstanding nodeName ↔ k ≠ index ∧ k ∈ st.outstanding nodeName) :
    PromotedEntry.IsOldest
        { nodeName := nodeName
          outstanding := st.outstanding nodeName
          taken := (st.outstanding nodeName).filter (· ∉ st'.outstanding nodeName) } ↔
      st.SpelledFirst nodeName := by
  have heq : (st.outstanding nodeName).filter (· ∉ st'.outstanding nodeName) = [index] := by
    have hcongr : ∀ k ∈ st.outstanding nodeName,
        decide (k ∉ st'.outstanding nodeName) = decide (k = index) := by
      intro k hk
      refine decide_eq_decide.mpr ?_
      rw [htaken]
      simp [hk]
    rw [List.filter_congr hcongr, List.filter_eq, List.count_eq_one_of_mem nodup_outstanding hmem]
    rfl
  constructor
  · rintro ⟨index', hindex', hleast⟩ m hm hsmallest k hk
    rw [heq] at hindex'
    obtain rfl := List.singleton_inj.mp hindex'
    rw [le_antisymm (hsmallest index hmem) (hleast m hm)]
    exact hfirst k hk
  · intro hspelled
    obtain ⟨m, hm, hsmallest⟩ : ∃ m ∈ st.outstanding nodeName,
        ∀ k ∈ st.outstanding nodeName, m ≤ k := by
      obtain ⟨m, hmin⟩ := Option.isSome_iff_exists.mp
        (List.isSome_min?_of_ne_nil (List.ne_nil_of_mem hmem))
      exact ⟨m, List.min?_mem hmin, fun k hk => (List.min?_eq_some_iff.mp hmin).2 k hk⟩
    have hm' : m = index :=
      toString_nat_injective (le_antisymm (hspelled m hm hsmallest index hmem) (hfirst m hm))
    exact ⟨index, heq, hm' ▸ hsmallest⟩

/-! ## Runs -/

namespace ScanState

variable [DataObject J] {s s' : ScanState J}

theorem isOldest_step_iff {e : ScanEvent J} (hstep : s.run workflow e = .ok s') :
    (∀ entry ∈ s'.promoted, entry.IsOldest) ↔
      (∀ entry ∈ s.promoted, entry.IsOldest) ∧ s.SpellsOldestFirst workflow e := by
  cases e with
  | deliver call =>
    obtain ⟨st, -, hstep⟩ := bind_eq_ok.mp hstep
    cases hstep
    exact (and_iff_left trivial).symm
  | pop =>
    cases hstep
    exact (and_iff_left trivial).symm
  | visit waitingNodes nodeName =>
    rw [run, visit] at hstep
    rw [SpellsOldestFirst]
    split at hstep
    · cases hstep
    · rename_i hnone
      cases hstep
      exact (and_iff_left (Or.inl hnone)).symm
    · rename_i st pushed hsome
      cases hstep
      obtain ⟨index, hmem, hfirst, htaken⟩ := outstanding_promoteNodeIfReady hsome
      rw [List.forall_mem_append, List.forall_mem_singleton, isOldest_iff hmem hfirst htaken,
        hsome]
      simp

/-- In a run all entries that were taken were the oldest ones of their nodes exactly when, at every
visit that did not pass over the node, the spelling of the smallest outstanding index was not after
another's. -/
theorem promotion_run {st : ExecutionState J} {steps : List (ScanState J × ScanEvent J)}
    (hrun : Run (run workflow) { execution := st } steps s) :
    (∀ entry ∈ s.promoted, entry.IsOldest) ↔
      ∀ x ∈ steps, x.1.SpellsOldestFirst workflow x.2 :=
  hrun.holds_iff (fun entry hentry => (by cases hentry)) fun _ _ _ hstep => isOldest_step_iff hstep

/-- `parent` delivers one item to an input of `Merge`. -/
def deliverItem (parent : String) (index : ℤ) (json : ℕ) : ScanEvent ℕ :=
  .deliver
    { connectionData := ⟨"Merge", .main, index⟩, outputIndex := 0, parentNodeName := parent
      nodeSuccessData := some [.val [{ json }]], runIndex := json }

/-- Deliveries to the two inputs of `Merge`, as many as given. -/
def deliveries (first second : ℕ) : List (ScanEvent ℕ) :=
  (List.range first).map (deliverItem "A" 0) ++ (List.range second).map (deliverItem "B" 1)

/-- Two of three entries are left, and the first of them is taken. -/
theorem promotion_run_three : ∃ steps s,
    Run (run mergeWorkflow) ({} : ScanState ℕ) steps s ∧
      s.promoted = [{ nodeName := "Merge", outstanding := [1, 2], taken := [1] }] ∧
      ((∀ entry ∈ s.promoted, entry.IsOldest) ↔
        ∀ x ∈ steps, x.1.SpellsOldestFirst mergeWorkflow x.2) := by
  have hevents : (runSteps (run mergeWorkflow) ({} : ScanState ℕ)
      (deliveries 3 1 ++ [.visit ["Merge"] "Merge"])).map (fun r => r.2.promoted) =
      .ok [{ nodeName := "Merge", outstanding := [1, 2], taken := [1] }] := by
    decide
  obtain ⟨steps, s, hrun, -, hpromoted⟩ := exists_run hevents
  exact ⟨steps, s, hrun, hpromoted, promotion_run hrun⟩

/-- Nine of eleven entries are left. The spelling `10` comes first. -/
theorem promotion_run_eleven : ¬∀ steps, ∀ s : ScanState ℕ,
    Run (run mergeWorkflow) {} steps s → ∀ entry ∈ s.promoted, entry.IsOldest := by
  intro h
  have hevents : (runSteps (run mergeWorkflow) ({} : ScanState ℕ)
      (deliveries 11 2 ++ [.visit ["Merge"] "Merge"])).map (fun r => r.2.promoted) =
      .ok [{ nodeName := "Merge", outstanding := [2, 3, 4, 5, 6, 7, 8, 9, 10], taken := [10] }] := by
    decide
  obtain ⟨steps, s, hrun, -, hpromoted⟩ := exists_run hevents
  obtain ⟨index, htaken, hleast⟩ := h steps s hrun _ (by rw [hpromoted]; exact List.mem_cons_self)
  obtain rfl := List.singleton_inj.mp htaken
  exact absurd (hleast 2 (by decide)) (by decide)

end ScanState

end N8n
