import Mathlib.Data.List.Basic

/-!
# A rotation that remembers its last turn

The elements of a queue have their turns one after the other. An element that is dropped leaves
the queue; the others go to its end, and the key of the last one that did is remembered. The
rotation is caught if an element has a turn whose key is the one that is remembered.

`exists_rotateFor_eq_none_iff` : it is caught if and only if, going once through the queue and once
through what is left of it, an element follows one with its own key. Otherwise it goes on for
ever, or until the queue is empty.
-/

namespace Lib

variable {K : Type*} [DecidableEq K]

/-- Keys, each with whether the element goes to the end of the queue after its turn. -/
abbrev Turns (K : Type*) := List (K × Bool)

/-- The key that is remembered after these turns. -/
def lastKept (last : K) (turns : Turns K) : K :=
  turns.foldl (fun last turn => if turn.2 then turn.1 else last) last

/-- The key of some turn is the one that is remembered then. -/
def Repeats : K → Turns K → Prop
  | _, [] => False
  | last, turn :: turns => turn.1 = last ∨ Repeats (if turn.2 then turn.1 else last) turns

instance : ∀ (last : K) (turns : Turns K), Decidable (Repeats last turns)
  | _, [] => inferInstanceAs (Decidable False)
  | last, turn :: turns =>
    have := instDecidableRepeats (if turn.2 then turn.1 else last) turns
    inferInstanceAs (Decidable (_ ∨ _))

/-- One turn : what is remembered and the queue after it; `none` if it is caught. -/
def rotate : K × Turns K → Option (K × Turns K)
  | (last, []) => some (last, [])
  | (last, turn :: turns) =>
    if turn.1 = last then none
    else if turn.2 then some (turn.1, turns ++ [turn])
    else some (last, turns)

def rotateFor : ℕ → K × Turns K → Option (K × Turns K)
  | 0, s => some s
  | n + 1, s => (rotate s).bind (rotateFor n)

variable {last : K} {turn : K × Bool} {turns : Turns K}

omit [DecidableEq K] in
theorem lastKept_concat (hturn : turn.2 = true) : lastKept last (turns ++ [turn]) = turn.1 := by
  rw [lastKept, List.foldl_append, List.foldl_cons, List.foldl_nil, if_pos hturn]

omit [DecidableEq K] in
theorem repeats_append {turns' : Turns K} :
    Repeats last (turns ++ turns') ↔ Repeats last turns ∨ Repeats (lastKept last turns) turns' := by
  induction turns generalizing last with
  | nil => simp [Repeats, lastKept]
  | cons turn turns ih => rw [List.cons_append, Repeats, Repeats, ih, or_assoc, lastKept, lastKept,
      List.foldl_cons]

theorem rotate_cons (turns : Turns K) (h : ¬turn.1 = last) :
    rotate (last, turn :: turns) =
      some (if turn.2 then (turn.1, turns ++ [turn]) else (last, turns)) := by
  rw [rotate, if_neg h]
  split_ifs <;> rfl

/-- The first turn does not matter if it is not caught. -/
theorem exists_rotateFor_iff_of_rotate {s s' : K × Turns K} (h : rotate s = some s') :
    (∃ n, rotateFor n s = none) ↔ ∃ n, rotateFor n s' = none := by
  constructor
  · rintro ⟨n, hn⟩
    cases n with
    | zero => cases hn
    | succ n => exact ⟨n, by rwa [rotateFor, h] at hn⟩
  · rintro ⟨n, hn⟩
    exact ⟨n + 1, by rwa [rotateFor, h]⟩

theorem rotateFor_one_of_eq (h : turn.1 = last) :
    rotateFor 1 (last, turn :: turns) = none := by
  rw [rotateFor, rotate, if_pos h]
  rfl

theorem rotateFor_nil_ne_none (last : K) (n : ℕ) : rotateFor n (last, []) ≠ none := by
  induction n with
  | zero => exact Option.some_ne_none _
  | succ n ih => exact ih

/-- Once nothing is dropped any more, and no key is met twice in a row : this stays so. -/
structure Settled (last : K) (turns : Turns K) : Prop where
  kept : ∀ turn ∈ turns, turn.2 = true
  remembers : lastKept last turns = last
  fresh : ¬Repeats last turns

omit [DecidableEq K] in
theorem Settled.rotate (h : Settled last (turn :: turns)) : Settled turn.1 (turns ++ [turn]) := by
  have hturn := h.kept turn List.mem_cons_self
  have hlast : lastKept turn.1 turns = last := by simpa [lastKept, hturn] using h.remembers
  obtain ⟨hne, hfresh⟩ : ¬turn.1 = last ∧ ¬Repeats turn.1 turns := by
    simpa [Repeats, hturn] using h.fresh
  refine ⟨fun other hother => ?_, lastKept_concat hturn, ?_⟩
  · exact h.kept other (by simpa [or_comm] using hother)
  · rw [repeats_append, hlast]
    simpa [Repeats] using And.intro hfresh hne

theorem Settled.rotateFor_ne_none (h : Settled last turns) (n : ℕ) :
    rotateFor n (last, turns) ≠ none := by
  induction n generalizing last turns with
  | zero => exact Option.some_ne_none _
  | succ n ih =>
    cases turns with
    | nil => exact rotateFor_nil_ne_none last (n + 1)
    | cons turn turns =>
      have hturn := h.kept turn List.mem_cons_self
      have hne : ¬turn.1 = last := fun heq => h.fresh (Or.inl heq)
      rw [rotateFor, rotate_cons turns hne, if_pos hturn]
      exact ih h.rotate

/-- A queue all of which is kept is caught in the next round if a key is repeated in it. -/
theorem exists_rotateFor_eq_none_of_repeats (turns' : Turns K) (h : Repeats last turns) :
    ∃ n, rotateFor n (last, turns ++ turns') = none := by
  induction turns generalizing last turns' with
  | nil => exact h.elim
  | cons turn turns ih =>
    rw [List.cons_append]
    by_cases heq : turn.1 = last
    · exact ⟨1, rotateFor_one_of_eq heq⟩
    · have hrest := h.resolve_left heq
      rw [exists_rotateFor_iff_of_rotate (rotate_cons _ heq)]
      split_ifs with hturn
      · rw [if_pos hturn] at hrest
        rw [List.append_assoc]
        exact ih _ hrest
      · rw [if_neg hturn] at hrest
        exact ih _ hrest

/-- The elements that have not had a turn yet are followed by those that were kept. -/
theorem exists_rotateFor_append_iff (turns : Turns K) {kept : Turns K} (hkept : ∀ turn ∈ kept, turn.2 = true)
    (hlast : ∀ last', kept ≠ [] → lastKept last' kept = last) :
    (∃ n, rotateFor n (last, turns ++ kept) = none) ↔
      Repeats last (turns ++ kept ++ turns.filter (·.2)) := by
  induction turns generalizing last kept with
  | nil =>
    rw [List.nil_append, List.filter_nil, List.append_nil]
    constructor
    · rintro ⟨n, hn⟩
      by_contra hfresh
      have hself : lastKept last kept = last := by
        by_cases hnil : kept = []
        · rw [hnil, lastKept, List.foldl_nil]
        · exact hlast last hnil
      exact Settled.rotateFor_ne_none ⟨hkept, hself, hfresh⟩ n hn
    · intro h
      simpa using exists_rotateFor_eq_none_of_repeats [] h
  | cons turn turns ih =>
    by_cases heq : turn.1 = last
    · exact iff_of_true ⟨1, rotateFor_one_of_eq heq⟩ (Or.inl heq)
    · have hstep := exists_rotateFor_iff_of_rotate (rotate_cons (turns ++ kept) heq)
      rw [List.cons_append, hstep, List.cons_append, Repeats, or_iff_right heq]
      by_cases hturn : turn.2 = true
      · have hkept' : ∀ other ∈ kept ++ [turn], other.2 = true :=
          List.forall_mem_append.mpr ⟨hkept, List.forall_mem_singleton.mpr hturn⟩
        rw [if_pos hturn, if_pos hturn, List.append_assoc,
          ih hkept' fun last' _ => lastKept_concat hturn, List.filter_cons_of_pos hturn,
          List.append_assoc, List.append_assoc, List.append_assoc, List.singleton_append]
      · rw [if_neg hturn, if_neg hturn, ih hkept hlast, List.filter_cons_of_neg hturn]

/-- The rotation is caught if and only if a key is repeated in the queue followed by what is kept
of it. -/
theorem exists_rotateFor_eq_none_iff :
    (∃ n, rotateFor n (last, turns) = none) ↔ Repeats last (turns ++ turns.filter (·.2)) := by
  have hkept : ∀ turn ∈ ([] : Turns K), turn.2 = true := by simp
  have hlast : ∀ last', ([] : Turns K) ≠ [] → lastKept last' [] = last :=
    fun _ hne => absurd rfl hne
  have hrotation := exists_rotateFor_append_iff turns hkept hlast
  rwa [List.append_nil] at hrotation

end Lib
