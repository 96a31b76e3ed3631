import N8n.Workflow.ParameterOrder
import Mathlib.Data.List.Dedup

/-!
# When parameters are resolved in order

The first pass takes all indexes in their order, whatever they depend on, and puts those with
missing dependencies into the queue again. So a list without cycles is ordered exactly when each
property comes after those it depends on already, and a list with a cycle is refused only for
another reason : a dependency that is not listed, an inherited name, or a first pass without any
progress (`resolvesDependencies_iff`).
-/

open Lib

namespace N8n

variable (nodePropertiesArray : List INodeProperties)

/-! ## Conditions on the properties -/

/-- A property has an inherited name that the code cannot take for a list of dependencies. -/
def ReadsInherited : Prop :=
  ∃ property ∈ nodePropertiesArray, property.name ∈ objectPrototypeKeys ∧
    (property.name ∉ inheritedWithoutParameters ∨ property.ruleKeys ≠ [])

/-- Each property comes after one of each name it depends on. -/
def InOrder : Prop :=
  ∀ index : Fin nodePropertiesArray.length, ∀ dependency,
    DependsOn nodePropertiesArray (nodePropertiesArray.get index).name dependency →
      ∃ earlier < index, (nodePropertiesArray.get earlier).name = dependency

/-- How many properties without dependencies stand directly before the position. -/
def freeBefore (position : ℕ) : ℕ :=
  ((nodePropertiesArray.take position).reverse.takeWhile fun property =>
    dependencyNames nodePropertiesArray property.name = []).length

/-- On how many names the property depends that no earlier property has. -/
def missesBefore (index : Fin nodePropertiesArray.length) : ℕ :=
  ((dependencyNames nodePropertiesArray (nodePropertiesArray.get index).name).dedup.filter
    fun dependency => dependency ∉ (nodePropertiesArray.take index).map INodeProperties.name ∧
      ¬isRootParameter dependency).length

/-- The property has no dependencies, or misses more of them than there are properties without
dependencies directly before it. -/
def StallsAt (index : Fin nodePropertiesArray.length) : Prop :=
  dependencyNames nodePropertiesArray (nodePropertiesArray.get index).name ≠ [] →
    freeBefore nodePropertiesArray index < missesBefore nodePropertiesArray index

/-- The first pass makes no progress, and the last property has dependencies. -/
structure Stalls : Prop where
  last : ∃ index : Fin nodePropertiesArray.length, index.val + 1 = nodePropertiesArray.length ∧
    dependencyNames nodePropertiesArray (nodePropertiesArray.get index).name ≠ []
  each : ∀ index, StallsAt nodePropertiesArray index

variable {nodePropertiesArray} {dependencies : IParameterDependencies}
  {state state' : ResolveState nodePropertiesArray.length}
  {index : Fin nodePropertiesArray.length} {rest : List (Fin nodePropertiesArray.length)}

/-! ## One round -/

/-- The dependencies that are put into the queue for. -/
def missing (resolvedParameters known : List String) : List String :=
  known.filter fun dependency => dependency ∉ resolvedParameters ∧ ¬isRootParameter dependency

theorem foldl_requeueMissing {n : ℕ} (resolvedParameters : List String) (index : Fin n)
    (known : List String) (rest : List (Fin n)) :
    known.foldl (requeueMissing resolvedParameters index) rest =
      rest ++ List.replicate (missing resolvedParameters known).length index := by
  induction known generalizing rest with
  | nil => simp [missing]
  | cons dependency known ih =>
    rw [List.foldl_cons, ih, requeueMissing, missing, missing, List.filter_cons]
    by_cases hresolved : dependency ∈ resolvedParameters
    · simp [hresolved]
    · by_cases hroot : isRootParameter dependency = true
      · simp [hroot]
      · simp [hresolved, hroot, List.replicate_succ]

theorem resolveIndex_error {e : ResolveError}
    (h : dependenciesOf dependencies (nodePropertiesArray.get index).name = .error e) :
    resolveIndex nodePropertiesArray dependencies state index rest = .error e := by
  simp only [resolveIndex, h]

theorem resolveIndex_free
    (h : dependenciesOf dependencies (nodePropertiesArray.get index).name = .ok []) :
    resolveIndex nodePropertiesArray dependencies state index rest =
      .ok { state with
            executionOrder := state.executionOrder ++ [index]
            resolvedParameters :=
              state.resolvedParameters ++ [(nodePropertiesArray.get index).name]
            iterations := state.iterations + 1
            indexToResolve := rest } := by
  simp only [resolveIndex, h, if_true]

/-- The state after a round with a parameter that has dependencies, `count` of them missing. -/
def requeuedState (state : ResolveState nodePropertiesArray.length)
    (index : Fin nodePropertiesArray.length) (rest : List (Fin nodePropertiesArray.length))
    (count : ℕ) : ResolveState nodePropertiesArray.length where
  executionOrder := state.executionOrder ++ [index]
  resolvedParameters := state.resolvedParameters ++ [(nodePropertiesArray.get index).name]
  iterations := state.iterations + 1
  indexToResolve := rest ++ List.replicate count index
  lastIndexReduction :=
    if rest.length + count < state.lastIndexLength then (state.iterations + 1 : ℕ)
    else state.lastIndexReduction
  lastIndexLength := rest.length + count

variable {known : List String}

theorem resolveIndex_requeue
    (h : dependenciesOf dependencies (nodePropertiesArray.get index).name = .ok known)
    (hne : known ≠ []) :
    resolveIndex nodePropertiesArray dependencies state index rest =
      let next := requeuedState state index rest (missing state.resolvedParameters known).length
      if next.iterations > next.lastIndexReduction + nodePropertiesArray.length then
        .error .maxIterationsReached
      else .ok next := by
  simp only [resolveIndex, h, if_neg hne, foldl_requeueMissing, List.length_append,
    List.length_replicate, requeuedState]
  rfl

/-- What every round does : the index at the front goes into the order, and perhaps to the end of
the queue. -/
theorem executionOrder_of_resolveIndex
    (h : resolveIndex nodePropertiesArray dependencies state index rest = .ok state') :
    state'.executionOrder = state.executionOrder ++ [index] ∧
      ∃ count, state'.indexToResolve = rest ++ List.replicate count index := by
  cases hknown : dependenciesOf dependencies (nodePropertiesArray.get index).name with
  | error e =>
    rw [resolveIndex_error hknown] at h
    cases h
  | ok known =>
    by_cases hne : known = []
    · subst hne
      rw [resolveIndex_free hknown] at h
      obtain rfl := Except.ok.inj h
      exact ⟨rfl, 0, (List.append_nil rest).symm⟩
    · rw [resolveIndex_requeue hknown hne] at h
      dsimp only at h
      split at h
      · cases h
      · obtain rfl := Except.ok.inj h
        exact ⟨rfl, _, rfl⟩

/-! ## Runs -/

/-- The loop goes from one state to the other. -/
def RunsTo (dependencies : IParameterDependencies) (rounds : ℕ)
    (state state' : ResolveState nodePropertiesArray.length) : Prop :=
  ∀ fuel, resolveLoop nodePropertiesArray dependencies (rounds + fuel) state =
    resolveLoop nodePropertiesArray dependencies fuel state'

theorem resolveLoop_nil {fuel : ℕ} (h : state.indexToResolve = []) :
    resolveLoop nodePropertiesArray dependencies (fuel + 1) state = some (.ok state.executionOrder) := by
  simp only [resolveLoop, h]

theorem resolveLoop_error {fuel : ℕ} {e : ResolveError} (h : state.indexToResolve = index :: rest)
    (hround : resolveIndex nodePropertiesArray dependencies state index rest = .error e) :
    resolveLoop nodePropertiesArray dependencies (fuel + 1) state = some (.error e) := by
  simp only [resolveLoop, h, hround]

theorem resolveLoop_ok {fuel : ℕ} (h : state.indexToResolve = index :: rest)
    (hround : resolveIndex nodePropertiesArray dependencies state index rest = .ok state') :
    resolveLoop nodePropertiesArray dependencies (fuel + 1) state =
      resolveLoop nodePropertiesArray dependencies fuel state' := by
  simp only [resolveLoop, h, hround]

theorem RunsTo.concat {rounds : ℕ} {start : ResolveState nodePropertiesArray.length}
    (hrun : RunsTo dependencies rounds start state) (h : state.indexToResolve = index :: rest)
    (hround : resolveIndex nodePropertiesArray dependencies state index rest = .ok state') :
    RunsTo dependencies (rounds + 1) start state' := by
  intro fuel
  rw [Nat.add_assoc, Nat.add_comm 1, hrun, resolveLoop_ok h hround]

/-- More rounds change nothing. -/
theorem resolveLoop_mono {fuel : ℕ} {result : Except ResolveError (List (Fin nodePropertiesArray.length))}
    (h : resolveLoop nodePropertiesArray dependencies fuel state = some result) (more : ℕ) :
    resolveLoop nodePropertiesArray dependencies (fuel + more) state = some result := by
  induction fuel generalizing state with
  | zero => cases h
  | succ fuel ih =>
    rw [Nat.add_right_comm]
    rw [resolveLoop] at h ⊢
    split at h
    · exact h
    · split at h
      · exact h
      · exact ih h

theorem resolveLoop_unique {fuel fuel' : ℕ}
    {result result' : Except ResolveError (List (Fin nodePropertiesArray.length))}
    (h : resolveLoop nodePropertiesArray dependencies fuel state = some result)
    (h' : resolveLoop nodePropertiesArray dependencies fuel' state = some result') :
    result = result' := by
  have hmore := resolveLoop_mono h fuel'
  rw [Nat.add_comm, resolveLoop_mono h' fuel] at hmore
  exact (Option.some.inj hmore).symm

/-- What was and is to be taken is in the order at the end. -/
theorem length_le_of_resolveLoop {fuel : ℕ} {order : List (Fin nodePropertiesArray.length)}
    (h : resolveLoop nodePropertiesArray dependencies fuel state = some (.ok order)) :
    state.executionOrder.length + state.indexToResolve.length ≤ order.length := by
  induction fuel generalizing state with
  | zero => cases h
  | succ fuel ih =>
    rw [resolveLoop] at h
    split at h
    · rename_i hqueue
      obtain rfl := Except.ok.inj (Option.some.inj h)
      simp [hqueue]
    · rename_i index rest hqueue
      split at h
      · cases h
      · rename_i next hround
        obtain ⟨horder, count, hnext⟩ := executionOrder_of_resolveIndex hround
        have hle := ih h
        rw [horder, hnext] at hle
        simp only [List.length_append, List.length_singleton, List.length_replicate] at hle
        rw [hqueue, List.length_cons]
        omega

/-- An index the code throws on makes the loop throw, at the latest when it is taken. -/
theorem throws_of_error {e : ResolveError} {before after : List (Fin nodePropertiesArray.length)}
    (hqueue : state.indexToResolve = before ++ index :: after)
    (herror : dependenciesOf dependencies (nodePropertiesArray.get index).name = .error e) :
    ∃ fuel e, resolveLoop nodePropertiesArray dependencies fuel state = some (.error e) := by
  induction before generalizing state after with
  | nil => exact ⟨1, e, resolveLoop_error hqueue (resolveIndex_error herror)⟩
  | cons first before ih =>
    cases hround : resolveIndex nodePropertiesArray dependencies state first
        (before ++ index :: after) with
    | error e' => exact ⟨1, e', resolveLoop_error hqueue hround⟩
    | ok next =>
      obtain ⟨-, count, hnext⟩ := executionOrder_of_resolveIndex hround
      rw [List.append_assoc, List.cons_append] at hnext
      obtain ⟨fuel, e', hthrows⟩ := ih hnext
      exact ⟨fuel + 1, e', (resolveLoop_ok hqueue hround).trans hthrows⟩

/-! ## The first pass -/

/-- The code reads these lists of dependencies. -/
def Reads (nodePropertiesArray : List INodeProperties) (dependencies : IParameterDependencies) : Prop :=
  ∀ index : Fin nodePropertiesArray.length, ∃ known,
    dependenciesOf dependencies (nodePropertiesArray.get index).name = .ok known ∧ known.Nodup ∧
      ∀ dependency, dependency ∈ known ↔
        dependency ∈ dependencyNames nodePropertiesArray (nodePropertiesArray.get index).name

/-- What is in the queue again after the first indexes. -/
def requeued (nodePropertiesArray : List INodeProperties) (position : ℕ) :
    List (Fin nodePropertiesArray.length) :=
  ((List.finRange nodePropertiesArray.length).take position).flatMap fun index =>
    List.replicate (missesBefore nodePropertiesArray index) index

/-- The state after the first indexes. -/
structure FirstPass (position : ℕ) (state : ResolveState nodePropertiesArray.length) : Prop where
  executionOrder : state.executionOrder = (List.finRange nodePropertiesArray.length).take position
  indexToResolve : state.indexToResolve =
    (List.finRange nodePropertiesArray.length).drop position ++ requeued nodePropertiesArray position
  resolvedParameters : state.resolvedParameters =
    (nodePropertiesArray.take position).map INodeProperties.name
  iterations : state.iterations = position
  lastIndexLength : state.lastIndexLength =
    state.indexToResolve.length + freeBefore nodePropertiesArray position
  lastIndexReduction :
    state.lastIndexReduction = -1 ∧
        (∀ index : Fin nodePropertiesArray.length, index.val < position →
          StallsAt nodePropertiesArray index) ∨
      1 ≤ state.lastIndexReduction ∧ state.lastIndexReduction ≤ position ∧
        ∃ index : Fin nodePropertiesArray.length, ¬StallsAt nodePropertiesArray index

theorem firstPass_zero : FirstPass 0 ({} : ResolveState nodePropertiesArray.length) where
  executionOrder := rfl
  indexToResolve := by simp [requeued]
  resolvedParameters := rfl
  iterations := rfl
  lastIndexLength := by simp [freeBefore]
  lastIndexReduction := .inl ⟨rfl, fun _ h => absurd h (Nat.not_lt_zero _)⟩

theorem take_concat_get (index : Fin nodePropertiesArray.length) :
    nodePropertiesArray.take (index + 1) =
      nodePropertiesArray.take index ++ [nodePropertiesArray.get index] :=
  List.take_succ_eq_append_getElem index.isLt

theorem finRange_take_concat {n : ℕ} (index : Fin n) :
    (List.finRange n).take (index + 1) = (List.finRange n).take index ++ [index] := by
  have hlt : index.val < (List.finRange n).length := by simp
  rw [List.take_succ_eq_append_getElem hlt]
  simp

theorem finRange_drop {n : ℕ} (index : Fin n) :
    (List.finRange n).drop index = index :: (List.finRange n).drop (index + 1) := by
  have hlt : index.val < (List.finRange n).length := by simp
  rw [List.drop_eq_getElem_cons hlt]
  simp

theorem freeBefore_succ_of_free
    (h : dependencyNames nodePropertiesArray (nodePropertiesArray.get index).name = []) :
    freeBefore nodePropertiesArray (index + 1) = freeBefore nodePropertiesArray index + 1 := by
  rw [freeBefore, take_concat_get, List.reverse_append, List.reverse_singleton,
    List.singleton_append, List.takeWhile_cons_of_pos (by simpa using h), List.length_cons, freeBefore]

theorem freeBefore_succ_of_not_free
    (h : dependencyNames nodePropertiesArray (nodePropertiesArray.get index).name ≠ []) :
    freeBefore nodePropertiesArray (index + 1) = 0 := by
  rw [freeBefore, take_concat_get, List.reverse_append, List.reverse_singleton,
    List.singleton_append, List.takeWhile_cons_of_neg (by simpa using h), List.length_nil]

theorem requeued_succ (index : Fin nodePropertiesArray.length) :
    requeued nodePropertiesArray (index + 1) = requeued nodePropertiesArray index ++
      List.replicate (missesBefore nodePropertiesArray index) index := by
  rw [requeued, finRange_take_concat, List.flatMap_append, List.flatMap_singleton, requeued]

theorem missesBefore_of_free
    (h : dependencyNames nodePropertiesArray (nodePropertiesArray.get index).name = []) :
    missesBefore nodePropertiesArray index = 0 := by
  rw [missesBefore, h]
  rfl

/-- The code counts the missing dependencies as `missesBefore` does. -/
theorem length_missing (hnodup : known.Nodup)
    (hmem : ∀ dependency, dependency ∈ known ↔
      dependency ∈ dependencyNames nodePropertiesArray (nodePropertiesArray.get index).name) :
    (missing ((nodePropertiesArray.take index).map INodeProperties.name) known).length =
      missesBefore nodePropertiesArray index := by
  have hperm : known.Perm
      (dependencyNames nodePropertiesArray (nodePropertiesArray.get index).name).dedup :=
    (List.perm_ext_iff_of_nodup hnodup (List.nodup_dedup _)).mpr fun dependency => by
      rw [hmem, List.mem_dedup]
  exact (hperm.filter _).length_eq

theorem StallsAt.of_le {i : Fin nodePropertiesArray.length}
    (h : ∀ i : Fin nodePropertiesArray.length, i.val < index → StallsAt nodePropertiesArray i)
    (hindex : StallsAt nodePropertiesArray index) (hi : i.val < index.val + 1) :
    StallsAt nodePropertiesArray i := by
  rcases Nat.lt_succ_iff_lt_or_eq.mp hi with hlt | heq
  · exact h i hlt
  · rwa [Fin.ext heq]

/-- A round of the first pass with a property without dependencies. -/
theorem FirstPass.free (h : FirstPass index.val state)
    (hqueue : state.indexToResolve = index :: rest)
    (hfree : dependencyNames nodePropertiesArray (nodePropertiesArray.get index).name = []) :
    FirstPass (index + 1)
      { state with
        executionOrder := state.executionOrder ++ [index]
        resolvedParameters := state.resolvedParameters ++ [(nodePropertiesArray.get index).name]
        iterations := state.iterations + 1
        indexToResolve := rest } where
  executionOrder := by rw [h.executionOrder, finRange_take_concat]
  indexToResolve := by
    have hrest := hqueue.symm.trans h.indexToResolve
    rw [finRange_drop, List.cons_append] at hrest
    rw [requeued_succ, missesBefore_of_free hfree, List.replicate_zero, List.append_nil]
    exact (List.cons.inj hrest).2
  resolvedParameters := by
    rw [h.resolvedParameters, take_concat_get, List.map_append, List.map_singleton]
  iterations := by rw [h.iterations]
  lastIndexLength := by
    rw [h.lastIndexLength, hqueue, freeBefore_succ_of_free hfree, List.length_cons]
    exact Nat.add_right_comm _ _ _
  lastIndexReduction := by
    refine h.lastIndexReduction.imp (fun hall => ⟨hall.1, fun i hi => ?_⟩)
      fun hsome => ⟨hsome.1, hsome.2.1.trans (by simp), hsome.2.2⟩
    exact .of_le hall.2 (fun hne => absurd hfree hne) hi

/-- A round of the first pass with a property that has dependencies, if it does not throw. -/
theorem FirstPass.requeue (h : FirstPass index.val state)
    (hqueue : state.indexToResolve = index :: rest)
    (hne : dependencyNames nodePropertiesArray (nodePropertiesArray.get index).name ≠ []) :
    FirstPass (index + 1)
      (requeuedState state index rest (missesBefore nodePropertiesArray index)) where
  executionOrder := (congrArg (· ++ [index]) h.executionOrder).trans (finRange_take_concat index).symm
  indexToResolve := by
    have hrest := hqueue.symm.trans h.indexToResolve
    rw [finRange_drop, List.cons_append] at hrest
    rw [requeued_succ, ← List.append_assoc, ← (List.cons.inj hrest).2]
    rfl
  resolvedParameters := by
    rw [take_concat_get, List.map_append, List.map_singleton, ← h.resolvedParameters]
    rfl
  iterations := congrArg (· + 1) h.iterations
  lastIndexLength := by
    rw [freeBefore_succ_of_not_free hne, requeuedState, List.length_append, List.length_replicate]
    rfl
  lastIndexReduction := by
    have hlength := h.lastIndexLength
    rw [hqueue, List.length_cons] at hlength
    rw [requeuedState]
    dsimp only
    split
    · rename_i hless
      refine .inr ⟨by simp, by rw [h.iterations], index, fun hstalls => ?_⟩
      have := hstalls hne
      omega
    · rename_i hnot
      refine h.lastIndexReduction.imp (fun hall => ⟨hall.1, fun i hi => ?_⟩)
        fun hsome => ⟨hsome.1, hsome.2.1.trans (by simp), hsome.2.2⟩
      exact .of_le hall.2 (fun _ => by omega) hi

/-- A round of the first pass. The last one throws if there was no progress in any. -/
theorem FirstPass.round (hreads : Reads nodePropertiesArray dependencies)
    (h : FirstPass index.val state) (hqueue : state.indexToResolve = index :: rest) :
    (∃ next, resolveIndex nodePropertiesArray dependencies state index rest = .ok next ∧
        FirstPass (index + 1) next ∧
        (index.val + 1 = nodePropertiesArray.length → ¬Stalls nodePropertiesArray)) ∨
      resolveIndex nodePropertiesArray dependencies state index rest =
          .error .maxIterationsReached ∧
        index.val + 1 = nodePropertiesArray.length ∧ Stalls nodePropertiesArray := by
  obtain ⟨known, hknown, hnodup, hmem⟩ := hreads index
  by_cases hfree : dependencyNames nodePropertiesArray (nodePropertiesArray.get index).name = []
  · have hnil : known = [] := List.eq_nil_iff_forall_not_mem.mpr fun dependency hdependency => by
      rw [hmem, hfree] at hdependency
      exact List.not_mem_nil hdependency
    subst hnil
    refine .inl ⟨_, resolveIndex_free hknown, h.free hqueue hfree, fun hlast hstalls => ?_⟩
    obtain ⟨last, hindex, hne⟩ := hstalls.last
    obtain rfl : index = last := Fin.ext (by omega)
    exact hne hfree
  · have hne : known ≠ [] := by
      rintro rfl
      refine hfree (List.eq_nil_iff_forall_not_mem.mpr fun dependency hdependency => ?_)
      exact List.not_mem_nil ((hmem dependency).mpr hdependency)
    have hnext := h.requeue hqueue hfree
    have hlast := hnext.lastIndexReduction
    rw [resolveIndex_requeue hknown hne, h.resolvedParameters, length_missing hnodup hmem]
    dsimp only
    have hlt := index.isLt
    have hiterations := hnext.iterations
    rcases hlast with ⟨hreduction, hall⟩ | ⟨hpos, hle, i, hi⟩
    · by_cases hend : index.val + 1 = nodePropertiesArray.length
      · refine .inr ⟨if_pos (by omega), hend, ⟨index, hend, hfree⟩, fun i => hall i ?_⟩
        have := i.isLt
        omega
      · exact .inl ⟨_, if_neg (by omega), hnext, fun heq => absurd heq hend⟩
    · exact .inl ⟨_, if_neg (by omega), hnext, fun _ hstalls => hi (hstalls.each i)⟩

theorem FirstPass.exists_queue (h : FirstPass index.val state) :
    ∃ rest, state.indexToResolve = index :: rest := by
  rw [h.indexToResolve, finRange_drop, List.cons_append]
  exact ⟨_, rfl⟩

theorem firstPass_run (hreads : Reads nodePropertiesArray dependencies) (position : ℕ)
    (hle : position ≤ nodePropertiesArray.length)
    (hstalls : position = nodePropertiesArray.length → ¬Stalls nodePropertiesArray) :
    ∃ state, FirstPass position state ∧
      RunsTo dependencies position ({} : ResolveState nodePropertiesArray.length) state := by
  induction position with
  | zero => exact ⟨{}, firstPass_zero, fun fuel => by rw [Nat.zero_add]⟩
  | succ position ih =>
    obtain ⟨state, hpass, hrun⟩ := ih (by omega) fun heq => by omega
    have hpass' : FirstPass (Fin.val ⟨position, hle⟩) state := hpass
    obtain ⟨rest, hqueue⟩ := hpass'.exists_queue
    rcases hpass'.round hreads hqueue with ⟨next, hround, hnext, -⟩ | ⟨-, hend, hstalls'⟩
    · exact ⟨next, hnext, hrun.concat hqueue hround⟩
    · exact absurd hstalls' (hstalls hend)

theorem throws_of_stalls (hreads : Reads nodePropertiesArray dependencies)
    (h : Stalls nodePropertiesArray) :
    ∃ fuel, getParameterResolveOrder nodePropertiesArray dependencies fuel =
      some (.error .maxIterationsReached) := by
  obtain ⟨index, hend, -⟩ := h.last
  obtain ⟨state, hpass, hrun⟩ := firstPass_run hreads index (by omega) fun heq => by omega
  obtain ⟨rest, hqueue⟩ := hpass.exists_queue
  rcases hpass.round hreads hqueue with ⟨-, -, -, hnot⟩ | ⟨hround, -, -⟩
  · exact absurd h (hnot hend)
  · exact ⟨index + 1, (hrun 1).trans (resolveLoop_error hqueue hround)⟩

/-! ## After the first pass -/

/-- The dependencies that no property has the name of. -/
def unlisted (nodePropertiesArray : List INodeProperties) (known : List String) : List String :=
  missing (nodePropertiesArray.map INodeProperties.name) known

/-- All names are resolved, and what is in the queue has dependencies. -/
structure AfterFirstPass (dependencies : IParameterDependencies)
    (state : ResolveState nodePropertiesArray.length) : Prop where
  resolved : ∀ name, name ∈ state.resolvedParameters ↔
    name ∈ nodePropertiesArray.map INodeProperties.name
  queue : ∀ index ∈ state.indexToResolve, ∀ known,
    dependenciesOf dependencies (nodePropertiesArray.get index).name = .ok known → known ≠ []
  lastIndexReduction : state.lastIndexReduction ≤ state.iterations

theorem AfterFirstPass.missing_eq (h : AfterFirstPass dependencies state) (known : List String) :
    missing state.resolvedParameters known = unlisted nodePropertiesArray known := by
  simp only [missing, unlisted, h.resolved]

/-- A round after the first pass. -/
theorem AfterFirstPass.round (hreads : Reads nodePropertiesArray dependencies)
    (h : AfterFirstPass dependencies state) (hqueue : state.indexToResolve = index :: rest) :
    ∃ known, dependenciesOf dependencies (nodePropertiesArray.get index).name = .ok known ∧
      (resolveIndex nodePropertiesArray dependencies state index rest =
        let next := requeuedState state index rest (unlisted nodePropertiesArray known).length
        if next.iterations > next.lastIndexReduction + nodePropertiesArray.length then
          .error .maxIterationsReached
        else .ok next) ∧
      AfterFirstPass dependencies
        (requeuedState state index rest (unlisted nodePropertiesArray known).length) := by
  obtain ⟨known, hknown, -, -⟩ := hreads index
  have hne := h.queue index (hqueue ▸ List.mem_cons_self) known hknown
  refine ⟨known, hknown, ?_, ?_, ?_, ?_⟩
  · rw [resolveIndex_requeue hknown hne, h.missing_eq]
  · intro name
    rw [requeuedState, List.mem_append, List.mem_singleton, h.resolved]
    refine ⟨fun hname => hname.elim id ?_, .inl⟩
    rintro rfl
    exact List.mem_map_of_mem (List.get_mem _ _)
  · intro i hi
    refine h.queue i ?_
    rw [hqueue]
    rcases List.mem_append.mp hi with hi | hi
    · exact List.mem_cons_of_mem _ hi
    · exact List.eq_of_mem_replicate hi ▸ List.mem_cons_self
  · have hle := h.lastIndexReduction
    rw [requeuedState]
    dsimp only
    split <;> omega

theorem Reads.of_ok (hreads : Reads nodePropertiesArray dependencies)
    (h : dependenciesOf dependencies (nodePropertiesArray.get index).name = .ok known)
    (dependency : String) : dependency ∈ known ↔
      dependency ∈ dependencyNames nodePropertiesArray (nodePropertiesArray.get index).name := by
  obtain ⟨known', hknown', -, hmem⟩ := hreads index
  obtain rfl := Except.ok.inj (hknown'.symm.trans h)
  exact hmem dependency

theorem mem_requeued_length :
    index ∈ requeued nodePropertiesArray nodePropertiesArray.length ↔
      missesBefore nodePropertiesArray index ≠ 0 := by
  rw [requeued, List.take_of_length_le (by simp), List.mem_flatMap]
  constructor
  · rintro ⟨i, -, hi⟩
    obtain rfl := List.eq_of_mem_replicate hi
    exact (List.mem_replicate.mp hi).1
  · exact fun hne => ⟨index, List.mem_finRange index, List.mem_replicate.mpr ⟨hne, rfl⟩⟩

theorem FirstPass.indexToResolve_eq (h : FirstPass nodePropertiesArray.length state) :
    state.indexToResolve = requeued nodePropertiesArray nodePropertiesArray.length := by
  rw [h.indexToResolve, List.drop_of_length_le (by simp), List.nil_append]

theorem FirstPass.afterFirstPass (hreads : Reads nodePropertiesArray dependencies)
    (h : FirstPass nodePropertiesArray.length state) : AfterFirstPass dependencies state where
  resolved name := by rw [h.resolvedParameters, List.take_length]
  queue index hindex known hknown := by
    rintro rfl
    rw [h.indexToResolve_eq, mem_requeued_length] at hindex
    refine hindex (missesBefore_of_free (List.eq_nil_iff_forall_not_mem.mpr fun dependency hmem => ?_))
    exact List.not_mem_nil ((hreads.of_ok hknown dependency).mpr hmem)
  lastIndexReduction := by
    rw [h.iterations]
    rcases h.lastIndexReduction with ⟨hreduction, -⟩ | ⟨-, hle, -⟩
    · omega
    · exact hle

theorem unlisted_eq_nil_of_listed (hreads : Reads nodePropertiesArray dependencies)
    (hlisted : DependenciesListed nodePropertiesArray)
    (h : dependenciesOf dependencies (nodePropertiesArray.get index).name = .ok known) :
    unlisted nodePropertiesArray known = [] := by
  refine List.filter_eq_nil_iff.mpr fun dependency hmem hmissing => ?_
  obtain ⟨hnot, hroot⟩ := of_decide_eq_true hmissing
  obtain ⟨property, hproperty, rfl⟩ :=
    hlisted _ dependency ⟨(hreads.of_ok h dependency).mp hmem, hroot⟩
  exact hnot (List.mem_map_of_mem hproperty)

/-- With all dependencies listed, the queue is emptied. -/
theorem AfterFirstPass.drains (hreads : Reads nodePropertiesArray dependencies)
    (hlisted : DependenciesListed nodePropertiesArray) (h : AfterFirstPass dependencies state)
    (hlength : state.indexToResolve.length ≤ state.lastIndexLength) :
    ∃ fuel, resolveLoop nodePropertiesArray dependencies fuel state =
      some (.ok (state.executionOrder ++ state.indexToResolve)) := by
  induction hqueue : state.indexToResolve generalizing state with
  | nil => exact ⟨1, by rw [resolveLoop_nil hqueue, List.append_nil]⟩
  | cons index rest ih =>
    obtain ⟨known, hknown, hround, hnext⟩ := h.round hreads hqueue
    rw [unlisted_eq_nil_of_listed hreads hlisted hknown, List.length_nil] at hround hnext
    rw [hqueue, List.length_cons] at hlength
    have hless : rest.length + 0 < state.lastIndexLength := by omega
    dsimp only at hround
    rw [if_neg (by simp only [requeuedState, if_pos hless]; omega)] at hround
    have hrest : (requeuedState state index rest 0).indexToResolve = rest := List.append_nil rest
    obtain ⟨fuel, hdrains⟩ := ih hnext (by rw [hrest]; exact le_refl _) hrest
    refine ⟨fuel + 1, (resolveLoop_ok hqueue hround).trans (hdrains.trans ?_)⟩
    simp [requeuedState]

/-- All dependencies of the property are listed. -/
def isSettled (dependencies : IParameterDependencies) (index : Fin nodePropertiesArray.length) : Bool :=
  match dependenciesOf dependencies (nodePropertiesArray.get index).name with
  | .ok known => unlisted nodePropertiesArray known = []
  | .error _ => false

theorem isSettled_iff
    (h : dependenciesOf dependencies (nodePropertiesArray.get index).name = .ok known) :
    isSettled dependencies index = true ↔ unlisted nodePropertiesArray known = [] := by
  rw [isSettled, h]
  exact decide_eq_true_iff

/-- What is left at most : the settled ones in the queue, each with the rounds after it, and the
rounds until the loop gives up. -/
def roundsLeft (dependencies : IParameterDependencies)
    (state : ResolveState nodePropertiesArray.length) : ℕ :=
  state.indexToResolve.countP (isSettled dependencies) * (nodePropertiesArray.length + 2) +
    (state.lastIndexReduction + nodePropertiesArray.length + 1 - state.iterations).toNat

/-- A property that is not settled stays in the queue. -/
theorem exists_not_settled_requeued
    (hknown : dependenciesOf dependencies (nodePropertiesArray.get index).name = .ok known)
    (h : ∃ i ∈ index :: rest, isSettled dependencies i = false) :
    ∃ i ∈ (requeuedState state index rest
        (unlisted nodePropertiesArray known).length).indexToResolve,
      isSettled dependencies i = false := by
  obtain ⟨i, hi, hnot⟩ := h
  rcases List.mem_cons.mp hi with rfl | hi
  · refine ⟨i, List.mem_append_right _ (List.mem_replicate.mpr ⟨fun hzero => ?_, rfl⟩), hnot⟩
    rw [(isSettled_iff hknown).mpr (List.length_eq_zero_iff.mp hzero)] at hnot
    cases hnot
  · exact ⟨i, List.mem_append_left _ hi, hnot⟩

theorem roundsLeft_lt
    (hknown : dependenciesOf dependencies (nodePropertiesArray.get index).name = .ok known)
    (hqueue : state.indexToResolve = index :: rest)
    (hsteady : state.lastIndexLength ≤ state.indexToResolve.length)
    (hnext : AfterFirstPass dependencies
      (requeuedState state index rest (unlisted nodePropertiesArray known).length))
    (hgoes : ¬((requeuedState state index rest
        (unlisted nodePropertiesArray known).length).iterations : ℤ) >
      (requeuedState state index rest
        (unlisted nodePropertiesArray known).length).lastIndexReduction +
          nodePropertiesArray.length) :
    roundsLeft dependencies
        (requeuedState state index rest (unlisted nodePropertiesArray known).length) <
      roundsLeft dependencies state := by
  have hreduction := hnext.lastIndexReduction
  rw [hqueue, List.length_cons] at hsteady
  by_cases hsettled : isSettled dependencies index = true
  · -- one settled index less
    have hzero : (unlisted nodePropertiesArray known).length = 0 :=
      List.length_eq_zero_iff.mpr ((isSettled_iff hknown).mp hsettled)
    have hcount : (requeuedState state index rest 0).indexToResolve = rest := List.append_nil rest
    rw [hzero] at hreduction ⊢
    rw [roundsLeft, roundsLeft, hcount, hqueue, List.countP_cons_of_pos hsettled, Nat.succ_mul]
    omega
  · -- the same settled ones, and one round less
    have hpos : (unlisted nodePropertiesArray known).length ≠ 0 := fun hzero =>
      hsettled ((isSettled_iff hknown).mpr (List.length_eq_zero_iff.mp hzero))
    have hcount : (requeuedState state index rest
        (unlisted nodePropertiesArray known).length).indexToResolve.countP (isSettled dependencies) =
          state.indexToResolve.countP (isSettled dependencies) := by
      rw [requeuedState, List.countP_append, List.countP_replicate, if_neg hsettled, hqueue,
        List.countP_cons_of_neg hsettled, Nat.add_zero]
    rw [roundsLeft, roundsLeft, hcount]
    simp only [requeuedState] at hgoes ⊢
    rw [if_neg (by omega)] at hgoes ⊢
    omega

/-- With a dependency that is not listed, the loop gives up in the end. -/
theorem AfterFirstPass.throws_of_steady (hreads : Reads nodePropertiesArray dependencies)
    (h : AfterFirstPass dependencies state)
    (hsteady : state.lastIndexLength ≤ state.indexToResolve.length)
    (hbad : ∃ i ∈ state.indexToResolve, isSettled dependencies i = false) :
    ∃ fuel, resolveLoop nodePropertiesArray dependencies fuel state =
      some (.error .maxIterationsReached) := by
  induction hleft : roundsLeft dependencies state using Nat.strong_induction_on generalizing state with
  | _ left ih =>
    obtain ⟨index, rest, hqueue⟩ : ∃ index rest, state.indexToResolve = index :: rest := by
      obtain ⟨i, hi, -⟩ := hbad
      exact List.exists_cons_of_ne_nil (List.ne_nil_of_mem hi)
    obtain ⟨known, hknown, hround, hnext⟩ := h.round hreads hqueue
    dsimp only at hround
    split at hround
    · exact ⟨1, resolveLoop_error hqueue hround⟩
    · rename_i hgoes
      have hless := roundsLeft_lt hknown hqueue hsteady hnext hgoes
      have hlength : (requeuedState state index rest
          (unlisted nodePropertiesArray known).length).lastIndexLength ≤
            (requeuedState state index rest
              (unlisted nodePropertiesArray known).length).indexToResolve.length := by
        simp [requeuedState]
      rw [hqueue] at hbad
      obtain ⟨fuel, hthrows⟩ := ih _ (hleft ▸ hless) hnext hlength
        (exists_not_settled_requeued hknown hbad) rfl
      exact ⟨fuel + 1, (resolveLoop_ok hqueue hround).trans hthrows⟩

theorem AfterFirstPass.throws (hreads : Reads nodePropertiesArray dependencies)
    (h : AfterFirstPass dependencies state)
    (hbad : ∃ i ∈ state.indexToResolve, isSettled dependencies i = false) :
    ∃ fuel, resolveLoop nodePropertiesArray dependencies fuel state =
      some (.error .maxIterationsReached) := by
  obtain ⟨index, rest, hqueue⟩ : ∃ index rest, state.indexToResolve = index :: rest := by
    obtain ⟨i, hi, -⟩ := hbad
    exact List.exists_cons_of_ne_nil (List.ne_nil_of_mem hi)
  obtain ⟨known, hknown, hround, hnext⟩ := h.round hreads hqueue
  dsimp only at hround
  split at hround
  · exact ⟨1, resolveLoop_error hqueue hround⟩
  · rw [hqueue] at hbad
    obtain ⟨fuel, hthrows⟩ := hnext.throws_of_steady hreads (by simp [requeuedState])
      (exists_not_settled_requeued hknown hbad)
    exact ⟨fuel + 1, (resolveLoop_ok hqueue hround).trans hthrows⟩

end N8n
