import N8n.Lib.Separator
import Mathlib.Data.List.Flatten
import Mathlib.Data.List.NodupEquivFin
import Mathlib.Data.List.Perm.Subperm

/-!
# Names that are free

`firstFree` tries one candidate after the other until one is not used. Of as many candidates as
there are used names, and one more, one is free, if no candidate comes twice
(`firstFree_not_mem`).

A loop that appends the same suffix while the name is taken goes through `base ++ repeated suffix k`.
If the suffix begins with a mark and has no other, the name tells it (`eq_of_append_repeated`).
-/

namespace Lib

section

variable {N : Type*} [DecidableEq N] {candidate : ℕ → N} {used : List N}

/-- The first candidate from `i` on that is not used. -/
def firstFree (candidate : ℕ → N) (used : List N) : ℕ → ℕ → N
  | 0, i => candidate i
  | fuel + 1, i =>
    if candidate i ∈ used then firstFree candidate used fuel (i + 1) else candidate i

theorem exists_firstFree_eq (candidate : ℕ → N) (used : List N) (fuel i : ℕ) :
    ∃ j, firstFree candidate used fuel i = candidate j := by
  induction fuel generalizing i with
  | zero => exact ⟨i, rfl⟩
  | succ fuel ih =>
    rw [firstFree]
    split
    · exact ih (i + 1)
    · exact ⟨i, rfl⟩

theorem firstFree_of_not_mem {i : ℕ} (h : candidate i ∉ used) (fuel : ℕ) :
    firstFree candidate used fuel i = candidate i := by
  cases fuel with
  | zero => rfl
  | succ fuel => rw [firstFree, if_neg h]

/-- Where none is found, all candidates are used. -/
theorem mem_of_firstFree_mem {fuel i : ℕ} (h : firstFree candidate used fuel i ∈ used) {k : ℕ}
    (hk : k ≤ fuel) : candidate (i + k) ∈ used := by
  have hi : candidate i ∈ used := by
    by_contra hfree
    exact hfree (firstFree_of_not_mem hfree fuel ▸ h)
  induction fuel generalizing i k with
  | zero =>
    obtain rfl := Nat.le_zero.mp hk
    exact hi
  | succ fuel ih =>
    cases k with
    | zero => exact hi
    | succ k =>
      rw [firstFree, if_pos hi] at h
      have hnext : candidate (i + 1) ∈ used := by
        by_contra hfree
        exact hfree (firstFree_of_not_mem hfree fuel ▸ h)
      have hmem := ih h (Nat.le_of_succ_le_succ hk) hnext
      rwa [Nat.add_right_comm] at hmem

/-- Of as many candidates as there are used names, and one more, one is free. -/
theorem exists_free (hinj : Function.Injective candidate) (used : List N) (i : ℕ) :
    ∃ k ≤ used.length, candidate (i + k) ∉ used := by
  by_contra hnone
  push Not at hnone
  have hnodup : ((List.range (used.length + 1)).map fun k => candidate (i + k)).Nodup :=
    List.nodup_range.map fun _ _ heq => Nat.add_left_cancel (hinj heq)
  have hsubset : ((List.range (used.length + 1)).map fun k => candidate (i + k)) ⊆ used := by
    intro name hname
    obtain ⟨k, hk, rfl⟩ := List.mem_map.mp hname
    exact hnone k (Nat.lt_succ_iff.mp (List.mem_range.mp hk))
  have hlength := (hnodup.subperm hsubset).length_le
  rw [List.length_map, List.length_range] at hlength
  omega

theorem firstFree_not_mem (hinj : Function.Injective candidate) (used : List N) (i : ℕ) :
    firstFree candidate used used.length i ∉ used := by
  obtain ⟨k, hk, hfree⟩ := exists_free hinj used i
  exact fun h => hfree (mem_of_firstFree_mem h hk)

end

/-! ## Repeated suffixes -/

variable {α : Type*} {a : α} {x y base base' suffix : List α} {j k : ℕ}

def repeated (suffix : List α) (k : ℕ) : List α := (List.replicate k suffix).flatten

@[simp] theorem repeated_zero (suffix : List α) : repeated suffix 0 = [] := rfl

theorem repeated_succ (suffix : List α) (k : ℕ) :
    repeated suffix (k + 1) = suffix ++ repeated suffix k := by
  rw [repeated, List.replicate_succ, List.flatten_cons, repeated]

theorem repeated_succ' (suffix : List α) (k : ℕ) :
    repeated suffix (k + 1) = repeated suffix k ++ suffix := by
  rw [repeated, List.replicate_succ', List.flatten_append, List.flatten_singleton, repeated]

theorem length_repeated (suffix : List α) (k : ℕ) :
    (repeated suffix k).length = k * suffix.length := by
  rw [repeated, List.length_flatten, List.map_replicate, List.sum_replicate_nat]

theorem append_repeated_injective (base : List α) (h : suffix ≠ []) :
    Function.Injective fun k => base ++ repeated suffix k := by
  intro j k heq
  have hlength := congrArg List.length (List.append_cancel_left heq)
  rw [length_repeated, length_repeated] at hlength
  exact Nat.eq_of_mul_eq_mul_right (List.length_pos_iff.mpr h) hlength

/-- What is behind the last mark is the same. -/
theorem eq_of_append_repeated (hx : a ∉ x) (hy : a ∉ y)
    (h : base ++ repeated (a :: x) (j + 1) = base' ++ repeated (a :: y) (k + 1)) : x = y := by
  rw [repeated_succ', repeated_succ', ← List.append_assoc, ← List.append_assoc] at h
  have hreverse := congrArg List.reverse h
  simp only [List.reverse_append, List.reverse_cons, List.append_assoc, List.singleton_append]
    at hreverse
  obtain ⟨heq, -⟩ := append_cons_inj hreverse (by rwa [List.mem_reverse])
    (by rwa [List.mem_reverse])
  exact List.reverse_injective heq

end Lib
