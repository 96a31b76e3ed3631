import Mathlib.Data.List.Nodup
import N8n.Lib.StackSearch

/-!
# Marking with a stack

`markFrom` marks what can be reached in a scope from the vertices of a stack, and leaves out what
was marked before. Entering at one vertex after the other, each time one is found that is not
marked, gives a list of entries that reach all of them, none of which reaches a later one
(`Entered.foldl_enter`).
-/

namespace Lib

open Relation

variable {V : Type*} [DecidableEq V]

/-- Takes vertices from the stack, marks each that is new and puts those of its successors on the
stack that are in the scope and not marked. -/
def markFrom (succ : V → List V) (scope : V → Bool) : ℕ → List V → List V → List V
  | 0, _, marked => marked
  | _ + 1, [], marked => marked
  | fuel + 1, v :: stack, marked =>
    if v ∈ marked then markFrom succ scope fuel stack marked
    else
      let pushed := (succ v).filter fun w => scope w ∧ w ∉ marked ++ [v]
      markFrom succ scope fuel (pushed.reverse ++ stack) (marked ++ [v])

/-- A step to a successor in the scope. -/
def StepsWithin (succ : V → List V) (scope : V → Bool) (v w : V) : Prop := w ∈ succ v ∧ scope w = true

variable {succ : V → List V} {scope : V → Bool} {v : V} {stack marked marked' dom : List V}

/-- What marking from the stack makes of the marked vertices. -/
structure Marks (succ : V → List V) (scope : V → Bool) (stack marked marked' : List V) : Prop where
  subset : marked ⊆ marked'
  covers : stack ⊆ marked'
  sound : ∀ v ∈ marked', v ∈ marked ∨ ∃ u ∈ stack, ReflTransGen (StepsWithin succ scope) u v
  closed : ∀ v ∈ marked', v ∉ marked → ∀ w, StepsWithin succ scope v w → w ∈ marked'

omit [DecidableEq V] in
theorem Marks.nil (marked : List V) : Marks succ scope [] marked marked :=
  ⟨List.Subset.refl _, List.nil_subset _, fun _ hv => .inl hv, fun _ hv h => absurd hv h⟩

omit [DecidableEq V] in
/-- The top of the stack is marked. -/
theorem Marks.cons_marked (hv : v ∈ marked) (h : Marks succ scope stack marked marked') :
    Marks succ scope (v :: stack) marked marked' where
  subset := h.subset
  covers := List.cons_subset.mpr ⟨h.subset hv, h.covers⟩
  sound w hw := (h.sound w hw).imp_right fun ⟨u, hu, hreach⟩ => ⟨u, List.mem_cons_of_mem v hu, hreach⟩
  closed := h.closed

/-- The top of the stack is new. -/
theorem Marks.cons_new (h : Marks succ scope
      (((succ v).filter fun w => scope w ∧ w ∉ marked ++ [v]).reverse ++ stack) (marked ++ [v])
      marked') : Marks succ scope (v :: stack) marked marked' where
  subset w hw := h.subset (List.mem_append_left _ hw)
  covers := by
    refine List.cons_subset.mpr ⟨h.subset (by simp), fun w hw => ?_⟩
    exact h.covers (List.mem_append_right _ hw)
  sound w hw := by
    rcases h.sound w hw with hw | ⟨u, hu, hreach⟩
    · rcases List.mem_append.mp hw with hw | hw
      · exact .inl hw
      · exact .inr ⟨v, by simp, List.mem_singleton.mp hw ▸ .refl⟩
    · rcases List.mem_append.mp hu with hu | hu
      · rw [List.mem_reverse, List.mem_filter, decide_eq_true_iff] at hu
        exact .inr ⟨v, by simp, .head ⟨hu.1, hu.2.1⟩ hreach⟩
      · exact .inr ⟨u, List.mem_cons_of_mem v hu, hreach⟩
  closed x hx hold w hstep := by
    by_cases hxv : x = v
    · subst hxv
      by_cases hw : w ∈ marked ++ [x]
      · exact h.subset hw
      · refine h.covers (List.mem_append_left _ ?_)
        rw [List.mem_reverse, List.mem_filter, decide_eq_true_iff]
        exact ⟨hstep.1, hstep.2, hw⟩
    · exact h.closed x hx (by simp [hold, hxv]) w hstep

theorem workLeft_append_singleton (succ : V → List V) (dom stack seen : List V) (v : V) :
    workLeft succ dom stack (seen ++ [v]) = workLeft succ dom stack (v :: seen) := by
  have hmem : ∀ w, (w ∈ seen ++ [v]) = (w ∈ v :: seen) := fun w =>
    propext (List.perm_append_singleton v seen).mem_iff
  simp only [workLeft, hmem]

theorem marks_markFrom (hnodup : dom.Nodup) (hdom : ∀ u, succ u ≠ [] → u ∈ dom) {fuel : ℕ}
    (hfuel : workLeft succ dom stack marked < fuel) :
    Marks succ scope stack marked (markFrom succ scope fuel stack marked) := by
  induction fuel generalizing stack marked with
  | zero => cases hfuel
  | succ fuel ih =>
    cases stack with
    | nil => exact .nil marked
    | cons v stack =>
      rw [markFrom]
      by_cases hv : v ∈ marked
      · rw [if_pos hv]
        refine (ih ?_).cons_marked hv
        simp only [workLeft, List.length_cons] at hfuel ⊢
        omega
      · rw [if_neg hv]
        refine (ih ?_).cons_new
        have hpushed : ((succ v).filter fun w => scope w ∧ w ∉ marked ++ [v]).reverse.length ≤
            (succ v).length := by
          rw [List.length_reverse]
          exact List.length_filter_le _ _
        have hless : _ < workLeft succ dom (v :: stack) marked :=
          workLeft_take hnodup hdom hv hpushed
        rw [workLeft_append_singleton]
        omega

omit [DecidableEq V] in
/-- From nothing, exactly what the stack reaches is marked. -/
theorem Marks.mem_iff (h : Marks succ scope stack [] marked') :
    v ∈ marked' ↔ ∃ u ∈ stack, ReflTransGen (StepsWithin succ scope) u v := by
  constructor
  · exact fun hv => (h.sound v hv).resolve_left List.not_mem_nil
  · rintro ⟨u, hu, hreach⟩
    induction hreach with
    | refl => exact h.covers hu
    | tail _ hstep ih => exact h.closed _ ih List.not_mem_nil _ hstep

/-! ## Entries -/

/-- Enters at `v` if it is not marked : the entries and the marked vertices. -/
def enter (succ : V → List V) (scope : V → Bool) (fuel : ℕ) (state : List V × List V) (v : V) :
    List V × List V :=
  if v ∈ state.2 then state else (state.1 ++ [v], markFrom succ scope fuel [v] state.2)

/-- The entries reach what is marked and nothing else, and none of them a later one. -/
structure Entered (succ : V → List V) (scope : V → Bool) (state : List V × List V) : Prop where
  nodup : state.1.Nodup
  subset : state.1 ⊆ state.2
  sound : ∀ v ∈ state.2, ∃ e ∈ state.1, ReflTransGen (StepsWithin succ scope) e v
  closed : ∀ v ∈ state.2, ∀ w, StepsWithin succ scope v w → w ∈ state.2
  apart : state.1.Pairwise fun e e' => ¬ReflTransGen (StepsWithin succ scope) e e'

/-- What entering at all of `vs` makes of a state. -/
structure Enters (vs : List V) (state state' : List V × List V) : Prop where
  entries : state.1 <+: state'.1
  marked : state.2 ⊆ state'.2
  covers : vs ⊆ state'.2
  source : ∀ e ∈ state'.1, e ∈ state.1 ∨ e ∈ vs

variable {state state' : List V × List V}

omit [DecidableEq V] in
theorem Entered.nil : Entered succ scope ([], []) :=
  ⟨List.nodup_nil, List.Subset.refl _, fun _ h => absurd h List.not_mem_nil,
    fun _ h => absurd h List.not_mem_nil, List.Pairwise.nil⟩

omit [DecidableEq V] in
theorem Entered.mem_of_reaches (h : Entered succ scope state) {e : V} (he : e ∈ state.2)
    (hreach : ReflTransGen (StepsWithin succ scope) e v) : v ∈ state.2 := by
  induction hreach with
  | refl => exact he
  | tail _ hstep ih => exact h.closed _ ih _ hstep

omit [DecidableEq V] in
theorem Entered.concat (h : Entered succ scope state) (hv : v ∉ state.2)
    (hmarks : Marks succ scope [v] state.2 marked') :
    Entered succ scope (state.1 ++ [v], marked') where
  nodup := List.Nodup.append h.nodup (List.nodup_singleton v)
    (by simpa using fun hmem => hv (h.subset hmem))
  subset := List.append_subset.mpr ⟨List.Subset.trans h.subset hmarks.subset, hmarks.covers⟩
  sound w hw := by
    rcases hmarks.sound w hw with hw | ⟨u, hu, hreach⟩
    · obtain ⟨e, he, hreach⟩ := h.sound w hw
      exact ⟨e, List.mem_append_left _ he, hreach⟩
    · exact ⟨u, List.mem_append_right _ hu, hreach⟩
  closed w hw x hstep := by
    by_cases hold : w ∈ state.2
    · exact hmarks.subset (h.closed w hold x hstep)
    · exact hmarks.closed w hw hold x hstep
  apart := by
    refine List.pairwise_append.mpr ⟨h.apart, List.pairwise_singleton _ _, fun e he w hw => ?_⟩
    rw [List.mem_singleton.mp hw]
    exact fun hreach => hv (h.mem_of_reaches (h.subset he) hreach)

theorem workLeft_singleton_le (succ : V → List V) (dom seen : List V) (v : V) :
    workLeft succ dom [v] seen ≤ 1 + (dom.map fun u => (succ u).length).sum := by
  refine Nat.add_le_add_left ?_ 1
  exact (List.filter_sublist.map _).sum_le_sum fun _ _ => Nat.zero_le _

theorem Entered.enter (hnodup : dom.Nodup) (hdom : ∀ u, succ u ≠ [] → u ∈ dom) {fuel : ℕ}
    (hfuel : 1 + (dom.map fun u => (succ u).length).sum < fuel) (h : Entered succ scope state)
    (v : V) : Entered succ scope (enter succ scope fuel state v) ∧
      Enters [v] state (Lib.enter succ scope fuel state v) := by
  unfold Lib.enter
  by_cases hv : v ∈ state.2
  · rw [if_pos hv]
    exact ⟨h, List.prefix_rfl, List.Subset.refl _, by simpa using hv, fun _ he => .inl he⟩
  · rw [if_neg hv]
    have hmarks : Marks succ scope [v] state.2 (markFrom succ scope fuel [v] state.2) :=
      marks_markFrom hnodup hdom ((workLeft_singleton_le succ dom state.2 v).trans_lt hfuel)
    exact ⟨h.concat hv hmarks, List.prefix_append _ _, hmarks.subset, hmarks.covers,
      fun _ he => List.mem_append.mp he⟩

theorem Entered.foldl_enter (hnodup : dom.Nodup) (hdom : ∀ u, succ u ≠ [] → u ∈ dom) {fuel : ℕ}
    (h : Entered succ scope state) (vs : List V)
    (hfuel : ∀ v ∈ vs, 1 + (dom.map fun u => (succ u).length).sum < fuel) :
    Entered succ scope (vs.foldl (Lib.enter succ scope fuel) state) ∧
      Enters vs state (vs.foldl (Lib.enter succ scope fuel) state) := by
  induction vs generalizing state with
  | nil => exact ⟨h, List.prefix_rfl, List.Subset.refl _, List.nil_subset _, fun _ he => .inl he⟩
  | cons v vs ih =>
    obtain ⟨hentered, hone⟩ := h.enter hnodup hdom (hfuel v List.mem_cons_self) v
    obtain ⟨hlast, hrest⟩ := ih hentered fun u hu => hfuel u (List.mem_cons_of_mem v hu)
    refine ⟨hlast, hone.entries.trans hrest.entries, List.Subset.trans hone.marked hrest.marked,
      List.cons_subset.mpr ⟨hrest.marked (hone.covers List.mem_cons_self), hrest.covers⟩,
      fun e he => ?_⟩
    rcases hrest.source e he with he | he
    · exact (hone.source e he).imp_right fun he => by simp [List.mem_singleton.mp he]
    · exact .inr (List.mem_cons_of_mem v he)

/-- No other vertex of the scope goes to `v`. -/
def EntryFree (succ : V → List V) (scope : V → Bool) (v : V) : Prop :=
  ∀ u, scope u = true → v ∈ succ u → u = v

omit [DecidableEq V] in
/-- Only the vertex itself reaches it. -/
theorem EntryFree.eq_of_reaches {e : V} (hv : EntryFree succ scope v) (he : scope e = true)
    (hreach : ReflTransGen (StepsWithin succ scope) e v) : e = v := by
  induction hreach with
  | refl => rfl
  | @tail u w hreach hstep ih =>
    have hu : scope u = true := by
      rcases hreach.cases_tail with rfl | ⟨_, _, hlast⟩
      · exact he
      · exact hlast.2
    obtain rfl := hv u hu hstep.1
    exact ih hv

end Lib
