import Mathlib.Algebra.Order.BigOperators.Group.List
import Mathlib.Algebra.Order.Ring.Nat
import Mathlib.Data.List.Basic
import Mathlib.Logic.Relation

/-!
# Search with a stack

`stackSearch` takes vertices from a stack until it takes the target, and puts the
successors of each that were not taken before on the stack. A vertex may be on the stack
several times.

It finds the target exactly when a vertex of the stack reaches it
(`stackSearch_iff_reaches`). That it ends rests on the order of the stack : the successors
of a vertex are above the copies of the vertex that are left (`SuccessorsFirst`), so when a
copy is taken there is nothing left to put on the stack.
-/

namespace Lib

open Relation

variable {V : Type*} [DecidableEq V]

def stackSearch (succ : V → List V) (target : V) : ℕ → List V → List V → Bool
  | 0, _, _ => false
  | _ + 1, [], _ => false
  | fuel + 1, v :: stack, seen =>
    if v = target then true
    else stackSearch succ target fuel (((succ v).filter (· ∉ v :: seen)).reverse ++ stack) (v :: seen)

variable {succ : V → List V} {target v : V} {stack seen : List V}

/-- What is pushed when `v` is taken. -/
theorem mem_pushed {w : V} :
    w ∈ ((succ v).filter (· ∉ v :: seen)).reverse ↔ w ∈ succ v ∧ w ∉ v :: seen := by
  rw [List.mem_reverse, List.mem_filter, decide_eq_true_iff]

theorem reaches_of_stackSearch {fuel : ℕ} (h : stackSearch succ target fuel stack seen = true) :
    ∃ v ∈ stack, ReflTransGen (fun a b => b ∈ succ a) v target := by
  induction fuel generalizing stack seen with
  | zero => simp [stackSearch] at h
  | succ fuel ih =>
    cases stack with
    | nil => simp [stackSearch] at h
    | cons v stack =>
      rw [stackSearch] at h
      split at h
      · rename_i hv
        exact ⟨v, by simp, hv ▸ .refl⟩
      · obtain ⟨w, hw, hreach⟩ := ih h
        rcases List.mem_append.mp hw with hw | hw
        · exact ⟨v, by simp, .head (mem_pushed.mp hw).1 hreach⟩
        · exact ⟨w, List.mem_cons_of_mem _ hw, hreach⟩

/-- The successors of a vertex that was taken were taken, or are above each copy of it. -/
def SuccessorsFirst (succ : V → List V) (seen stack : List V) : Prop :=
  ∀ top u rest, stack = top ++ u :: rest → u ∈ seen → ∀ w ∈ succ u, w ∈ seen ∨ w ∈ top

/-- The successors of a vertex that was taken were taken, or are on the stack. -/
def SuccessorsListed (succ : V → List V) (seen stack : List V) : Prop :=
  ∀ u ∈ seen, ∀ w ∈ succ u, w ∈ seen ∨ w ∈ stack

omit [DecidableEq V] in
theorem split_after_pushed {pushed top rest : List V} (h : pushed ++ stack = top ++ v :: rest)
    (hv : v ∉ pushed) : ∃ top', top = pushed ++ top' ∧ stack = top' ++ v :: rest := by
  obtain ⟨top', htop, hstack⟩ | ⟨pushed', hpushed, hrest⟩ := List.append_eq_append_iff.mp h
  · exact ⟨top', htop, hstack⟩
  · cases pushed' with
    | nil => exact ⟨[], by simpa using hpushed.symm, by simpa using hrest.symm⟩
    | cons x pushed' =>
      obtain ⟨rfl, -⟩ := List.cons.inj hrest
      exact absurd (by simp [hpushed]) hv

theorem SuccessorsFirst.push (h : SuccessorsFirst succ seen (v :: stack)) :
    SuccessorsFirst succ (v :: seen) (((succ v).filter (· ∉ v :: seen)).reverse ++ stack) := by
  intro top u rest hstack hu w hw
  obtain ⟨top', rfl, hrest⟩ := split_after_pushed hstack fun hpushed => (mem_pushed.mp hpushed).2 hu
  by_cases hseen : w ∈ v :: seen
  · exact Or.inl hseen
  obtain ⟨hwv, hwseen⟩ := not_or.mp (List.mem_cons.not.mp hseen)
  rcases List.mem_cons.mp hu with rfl | huseen
  · exact Or.inr (List.mem_append_left _ (mem_pushed.mpr ⟨hw, hseen⟩))
  · have hold := h (v :: top') u rest (by rw [hrest, List.cons_append]) huseen w hw
    have htop := (List.mem_cons.mp (hold.resolve_left hwseen)).resolve_left hwv
    exact Or.inr (List.mem_append_right _ htop)

/-- A copy of a vertex that was taken pushes nothing. -/
theorem SuccessorsFirst.filter_eq_nil (h : SuccessorsFirst succ seen (v :: stack)) (hv : v ∈ seen) :
    (succ v).filter (· ∉ v :: seen) = [] := by
  refine List.filter_eq_nil_iff.mpr fun w hw => ?_
  have hseen := (h [] v stack rfl hv w hw).resolve_right List.not_mem_nil
  simp [hseen]

theorem SuccessorsListed.push (h : SuccessorsListed succ seen (v :: stack)) :
    SuccessorsListed succ (v :: seen) (((succ v).filter (· ∉ v :: seen)).reverse ++ stack) := by
  intro u hu w hw
  by_cases hseen : w ∈ v :: seen
  · exact Or.inl hseen
  obtain ⟨hwv, hwseen⟩ := not_or.mp (List.mem_cons.not.mp hseen)
  rcases List.mem_cons.mp hu with rfl | huseen
  · exact Or.inr (List.mem_append_left _ (mem_pushed.mpr ⟨hw, hseen⟩))
  · have hstack := (List.mem_cons.mp ((h u huseen w hw).resolve_left hwseen)).resolve_left hwv
    exact Or.inr (List.mem_append_right _ hstack)

omit [DecidableEq V] in
/-- A vertex that was taken reaches the target, if at all, through the stack. -/
theorem SuccessorsListed.exists_reaches (h : SuccessorsListed succ seen stack)
    (htarget : target ∉ seen) (hv : v ∈ seen ∨ v ∈ stack)
    (hreach : ReflTransGen (fun a b => b ∈ succ a) v target) :
    ∃ u ∈ stack, ReflTransGen (fun a b => b ∈ succ a) u target := by
  induction hreach using ReflTransGen.head_induction_on with
  | refl => exact ⟨target, hv.resolve_left htarget, .refl⟩
  | @head a c hac hct ih =>
    rcases hv with hseen | hstack
    · exact ih (h a hseen c hac)
    · exact ⟨a, hstack, .head hac hct⟩

/-- What is left to do at most : the stack, and what the vertices that were not taken may
push. -/
def workLeft (succ : V → List V) (dom stack seen : List V) : ℕ :=
  stack.length + ((dom.filter (· ∉ seen)).map fun v => (succ v).length).sum

theorem sum_filter_cons_of_mem {dom : List V} (hdom : dom.Nodup) (hv : v ∈ dom) (hseen : v ∉ seen)
    (f : V → ℕ) :
    ((dom.filter (· ∉ v :: seen)).map f).sum + f v = ((dom.filter (· ∉ seen)).map f).sum := by
  induction dom with
  | nil => cases hv
  | cons d dom ih =>
    obtain ⟨hd, hdom⟩ := List.nodup_cons.mp hdom
    rcases List.mem_cons.mp hv with rfl | hv
    · have heq : dom.filter (· ∉ v :: seen) = dom.filter (· ∉ seen) := by
        refine List.filter_congr fun w hw => ?_
        have hne : w ≠ v := fun h => hd (h ▸ hw)
        simp [hne]
      rw [List.filter_cons_of_neg (by simp), heq, List.filter_cons_of_pos (by simpa using hseen),
        List.map_cons, List.sum_cons, Nat.add_comm]
    · have hne : d ≠ v := fun h => hd (h ▸ hv)
      have hrest := ih hdom hv
      by_cases hds : d ∈ seen
      · simpa [hds] using hrest
      · simp only [List.filter_cons, List.mem_cons, hne, hds, or_self, not_false_eq_true, decide_true,
          if_true, List.map_cons, List.sum_cons]
        simp only [List.mem_cons] at hrest
        omega

/-- A vertex that was not taken puts no more than its successors on the stack. -/
theorem workLeft_take {dom pushed : List V} (hnodup : dom.Nodup) (hdom : ∀ u, succ u ≠ [] → u ∈ dom)
    (hseen : v ∉ seen) (hpushed : pushed.length ≤ (succ v).length) :
    workLeft succ dom (pushed ++ stack) (v :: seen) < workLeft succ dom (v :: stack) seen := by
  unfold workLeft
  rw [List.length_append, List.length_cons]
  by_cases hleaf : succ v = []
  · have hle : ((dom.filter (· ∉ v :: seen)).map fun u => (succ u).length).sum ≤
        ((dom.filter (· ∉ seen)).map fun u => (succ u).length).sum := by
      refine (List.Sublist.map _ ?_).sum_le_sum fun _ _ => Nat.zero_le _
      refine List.monotone_filter_right dom fun w hw => ?_
      simp only [List.mem_cons, not_or, decide_eq_true_eq] at hw ⊢
      exact hw.2
    rw [hleaf, List.length_nil] at hpushed
    omega
  · have hsum := sum_filter_cons_of_mem hnodup (hdom v hleaf) hseen fun u => (succ u).length
    omega

theorem workLeft_push {dom : List V} (hnodup : dom.Nodup) (hdom : ∀ u, succ u ≠ [] → u ∈ dom)
    (h : SuccessorsFirst succ seen (v :: stack)) :
    workLeft succ dom (((succ v).filter (· ∉ v :: seen)).reverse ++ stack) (v :: seen) <
      workLeft succ dom (v :: stack) seen := by
  by_cases hseen : v ∈ seen
  · have hsame : dom.filter (· ∉ v :: seen) = dom.filter (· ∉ seen) := by
      refine List.filter_congr fun w _ => ?_
      by_cases hw : w = v <;> simp [hw, hseen]
    rw [h.filter_eq_nil hseen]
    simp only [workLeft, hsame, List.reverse_nil, List.nil_append, List.length_cons]
    omega
  · refine workLeft_take hnodup hdom hseen ?_
    rw [List.length_reverse]
    exact List.length_filter_le _ _

theorem stackSearch_of_reaches {dom : List V} (hnodup : dom.Nodup)
    (hdom : ∀ u, succ u ≠ [] → u ∈ dom) {fuel : ℕ} (hfuel : workLeft succ dom stack seen < fuel)
    (hfirst : SuccessorsFirst succ seen stack) (hlisted : SuccessorsListed succ seen stack)
    (htarget : target ∉ seen) (hv : v ∈ stack)
    (hreach : ReflTransGen (fun a b => b ∈ succ a) v target) :
    stackSearch succ target fuel stack seen = true := by
  induction fuel generalizing stack seen v with
  | zero => cases hfuel
  | succ fuel ih =>
    cases stack with
    | nil => cases hv
    | cons u stack =>
      rw [stackSearch]
      by_cases hu : u = target
      · rw [if_pos hu]
      · rw [if_neg hu]
        have htarget' : target ∉ u :: seen := by
          rw [List.mem_cons, not_or]
          exact ⟨fun h => hu h.symm, htarget⟩
        have hv' : v ∈ u :: seen ∨
            v ∈ ((succ u).filter (· ∉ u :: seen)).reverse ++ stack := by
          rcases List.mem_cons.mp hv with rfl | hv
          · exact Or.inl List.mem_cons_self
          · exact Or.inr (List.mem_append_right _ hv)
        obtain ⟨w, hw, hwreach⟩ := hlisted.push.exists_reaches htarget' hv' hreach
        have hless := workLeft_push hnodup hdom hfirst
        exact ih (by omega) hfirst.push hlisted.push htarget' hw hwreach

theorem stackSearch_iff_reaches {dom : List V} (hnodup : dom.Nodup)
    (hdom : ∀ u, succ u ≠ [] → u ∈ dom) {fuel : ℕ} {start : V}
    (hfuel : 1 + (dom.map fun u => (succ u).length).sum < fuel) :
    stackSearch succ target fuel [start] [] = true ↔
      ReflTransGen (fun a b => b ∈ succ a) start target := by
  constructor
  · intro h
    obtain ⟨v, hv, hreach⟩ := reaches_of_stackSearch h
    rwa [List.mem_singleton.mp hv] at hreach
  · intro hreach
    refine stackSearch_of_reaches hnodup hdom (by simpa [workLeft] using hfuel) ?_ ?_
      List.not_mem_nil List.mem_cons_self hreach
    · exact fun _ _ _ _ h => absurd h List.not_mem_nil
    · exact fun _ h => absurd h List.not_mem_nil

end Lib
