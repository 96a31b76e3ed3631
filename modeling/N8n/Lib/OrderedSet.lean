import Mathlib.Data.List.Basic
import Mathlib.Data.List.Nodup

/-!
# Insertion-ordered sets

A JavaScript `Set` enumerates its elements in the order they were added; adding an element
that is there changes nothing. `OrderedSet` carries the distinctness of its elements, so
that its size says how many there are : a set of size at most one has a first element
exactly when it is not empty, and no other (`first_eq_some_iff`).
-/

namespace Lib

variable {α : Type*}

/-- A finite set with its elements in insertion order. -/
structure OrderedSet (α : Type*) where
  elems : List α
  nodup : elems.Nodup

namespace OrderedSet

/-- The set with no element. -/
def empty : OrderedSet α := ⟨[], List.nodup_nil⟩

instance : EmptyCollection (OrderedSet α) := ⟨empty⟩

instance : Membership α (OrderedSet α) := ⟨fun s a => a ∈ s.elems⟩

def size (s : OrderedSet α) : ℕ := s.elems.length

/-- `values().next().value` -/
def first (s : OrderedSet α) : Option α := s.elems.head?

variable {s : OrderedSet α}

theorem mem_def {a : α} : a ∈ s ↔ a ∈ s.elems := Iff.rfl

@[simp] theorem not_mem_empty (a : α) : a ∉ (∅ : OrderedSet α) := List.not_mem_nil

theorem size_eq_zero_iff : s.size = 0 ↔ ∀ a, a ∉ s := by
  rw [size, List.length_eq_zero_iff, List.eq_nil_iff_forall_not_mem]
  rfl

theorem size_le_one_iff : s.size ≤ 1 ↔ ∀ a ∈ s, ∀ b ∈ s, a = b := by
  obtain ⟨elems, hnodup⟩ := s
  simp only [size, mem_def]
  match elems, hnodup with
  | [], _ => simp
  | [a], _ => simp
  | a :: b :: rest, hnodup =>
    refine ⟨fun h => absurd h (by simp), fun h => ?_⟩
    have hab : a = b := h a (by simp) b (by simp)
    simp [hab] at hnodup

theorem mem_of_first {a : α} (h : s.first = some a) : a ∈ s :=
  List.mem_of_mem_head? h

theorem first_eq_some_iff (hsize : s.size ≤ 1) {a : α} :
    s.first = some a ↔ a ∈ s := by
  refine ⟨mem_of_first, fun ha => ?_⟩
  obtain ⟨b, hb⟩ : ∃ b, s.first = some b :=
    Option.isSome_iff_exists.mp (List.isSome_head?.mpr (List.ne_nil_of_mem ha))
  rw [hb, size_le_one_iff.mp hsize b (mem_of_first hb) a ha]

theorem size_eq_one_iff : s.size = 1 ↔ ∃ a, ∀ b, b ∈ s ↔ b = a := by
  constructor
  · intro h
    obtain ⟨a, ha⟩ : ∃ a, s.elems = [a] := List.length_eq_one_iff.mp h
    exact ⟨a, fun b => by rw [mem_def, ha, List.mem_singleton]⟩
  · rintro ⟨a, ha⟩
    have hle : s.size ≤ 1 := size_le_one_iff.mpr fun b hb c hc => by
      rw [(ha b).mp hb, (ha c).mp hc]
    have hne : s.size ≠ 0 := fun h => size_eq_zero_iff.mp h a ((ha a).mpr rfl)
    omega

section

variable [DecidableEq α]

instance (s : OrderedSet α) (a : α) : Decidable (a ∈ s) :=
  inferInstanceAs (Decidable (a ∈ s.elems))

def add (s : OrderedSet α) (a : α) : OrderedSet α :=
  if h : a ∈ s.elems then s
  else ⟨s.elems ++ [a], s.nodup.append (List.nodup_singleton a) (by simpa using h)⟩

def delete (s : OrderedSet α) (a : α) : OrderedSet α := ⟨s.elems.erase a, s.nodup.erase a⟩

/-- `new Set(l)` -/
def ofList (l : List α) : OrderedSet α := l.foldl add ∅

@[simp] theorem mem_add {a b : α} : b ∈ s.add a ↔ b ∈ s ∨ b = a := by
  unfold add
  split
  · rename_i h
    exact ⟨Or.inl, fun hb => hb.elim id fun hba => hba ▸ h⟩
  · simp [mem_def]

theorem elems_add_of_not_mem {a : α} (h : a ∉ s) :
    (s.add a).elems = s.elems ++ [a] := by
  unfold add
  exact congrArg elems (dif_neg h)

/-- Adding new elements one after another appends them. -/
theorem elems_foldl_add {l : List α} (h : (s.elems ++ l).Nodup) :
    (l.foldl add s).elems = s.elems ++ l := by
  induction l generalizing s with
  | nil => simp
  | cons a l ih =>
    have hnew : a ∉ s := fun hmem => (List.nodup_append.mp h).2.2 a hmem a (by simp) rfl
    rw [List.foldl_cons, ih (by rw [elems_add_of_not_mem hnew]; simpa using h),
      elems_add_of_not_mem hnew, List.append_assoc]
    rfl

theorem mem_foldl_add {l : List α} {a : α} :
    a ∈ l.foldl add s ↔ a ∈ s ∨ a ∈ l := by
  induction l generalizing s with
  | nil => simp
  | cons b l ih => rw [List.foldl_cons, ih, mem_add, List.mem_cons, or_assoc]

@[simp] theorem mem_ofList {l : List α} {a : α} : a ∈ ofList l ↔ a ∈ l := by
  rw [ofList, mem_foldl_add]
  simp

theorem size_foldl_add_le (s : OrderedSet α) (l : List α) : (l.foldl add s).size ≤ s.size + l.length := by
  induction l generalizing s with
  | nil => exact Nat.le_refl _
  | cons a l ih =>
    have hadd : (s.add a).size ≤ s.size + 1 := by
      unfold add
      split <;> simp [size]
    have hrest := ih (s.add a)
    rw [List.foldl_cons, List.length_cons]
    omega

theorem size_ofList_le (l : List α) : (ofList l).size ≤ l.length := by
  simpa [ofList, size, EmptyCollection.emptyCollection, empty] using size_foldl_add_le ∅ l

theorem elems_foldl_delete (s : OrderedSet α) (l : List α) :
    (l.foldl delete s).elems = s.elems.filter (· ∉ l) := by
  induction l generalizing s with
  | nil => simp
  | cons a l ih =>
    have hdelete : (s.delete a).elems = s.elems.filter (· != a) := s.nodup.erase_eq_filter a
    rw [List.foldl_cons, ih, hdelete, List.filter_filter]
    refine List.filter_congr fun b _ => ?_
    by_cases hb : b = a <;> simp [hb]

theorem mem_foldl_delete {l : List α} {a : α} :
    a ∈ l.foldl delete s ↔ a ∈ s ∧ a ∉ l := by
  rw [mem_def, elems_foldl_delete, List.mem_filter, decide_eq_true_iff]
  rfl

end

end OrderedSet

end Lib
