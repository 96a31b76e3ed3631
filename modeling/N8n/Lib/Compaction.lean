import Mathlib.Data.List.Basic
import Mathlib.Data.List.Find
import Mathlib.Data.List.Nodup
import Mathlib.Data.List.Perm.Basic

/-!
# Compacting a list from its end

Going through a list from its end, an element is removed if it joins the element that was
kept last, and kept otherwise. `Compaction joins l removed kept` says what that leaves and
what it removes, in this order.

What is removed and kept is the whole list (`Compaction.perm`), what is kept is in order
and ends like the list, and an element that was removed joins the next one that is kept
(`Compaction.joins_next`).
-/

namespace Lib

variable {α : Type*} {joins : α → α → Prop} {l removed kept : List α} {a next : α}

inductive Compaction (joins : α → α → Prop) : List α → List α → List α → Prop
  | last (a : α) : Compaction joins [a] [] [a]
  | keep {a next : α} {l removed kept : List α}
      (h : Compaction joins l removed (next :: kept)) (hjoins : ¬joins a next) :
      Compaction joins (a :: l) removed (a :: next :: kept)
  | remove {a next : α} {l removed kept : List α}
      (h : Compaction joins l removed (next :: kept)) (hjoins : joins a next) :
      Compaction joins (a :: l) (removed ++ [a]) (next :: kept)

theorem Compaction.perm (h : Compaction joins l removed kept) : (removed ++ kept).Perm l := by
  induction h with
  | last a => exact .refl _
  | keep _ _ ih => exact List.perm_middle.trans (ih.cons _)
  | remove _ _ ih =>
    rw [List.append_assoc]
    exact List.perm_middle.trans (ih.cons _)

theorem Compaction.sublist (h : Compaction joins l removed kept) : kept.Sublist l := by
  induction h with
  | last a => exact .refl _
  | keep _ _ ih => exact ih.cons_cons _
  | remove _ _ ih => exact ih.cons _

/-- The last element is kept. -/
theorem Compaction.exists_getLast? (h : Compaction joins l removed kept) :
    ∃ a, l.getLast? = some a ∧ kept.getLast? = some a := by
  induction h with
  | last a => exact ⟨a, rfl, rfl⟩
  | keep _ _ ih =>
    obtain ⟨x, hl, hkept⟩ := ih
    exact ⟨x, by rw [List.getLast?_cons, hl]; rfl, by rw [List.getLast?_cons_cons, hkept]⟩
  | remove _ _ ih =>
    obtain ⟨x, hl, hkept⟩ := ih
    exact ⟨x, by rw [List.getLast?_cons, hl]; rfl, hkept⟩

theorem Compaction.mem_of_removed (h : Compaction joins l removed kept) (ha : a ∈ removed) :
    a ∈ l :=
  h.perm.subset (List.mem_append_left _ ha)

theorem Compaction.unique {removed' kept' : List α} (h : Compaction joins l removed kept)
    (h' : Compaction joins l removed' kept') : removed = removed' ∧ kept = kept' := by
  induction h generalizing removed' kept' with
  | last a =>
    cases h' with
    | last => exact ⟨rfl, rfl⟩
    | keep h | remove h => cases h
  | keep h hjoins ih =>
    cases h' with
    | last => cases h
    | keep h' hjoins' =>
      obtain ⟨rfl, hkept⟩ := ih h'
      exact ⟨rfl, by rw [hkept]⟩
    | remove h' hjoins' =>
      obtain ⟨rfl, -⟩ := List.cons.inj (ih h').2
      exact absurd hjoins' hjoins
  | remove h hjoins ih =>
    cases h' with
    | last => cases h
    | keep h' hjoins' =>
      obtain ⟨rfl, -⟩ := List.cons.inj (ih h').2
      exact absurd hjoins hjoins'
    | remove h' hjoins' =>
      obtain ⟨rfl, hkept⟩ := ih h'
      exact ⟨rfl, hkept⟩

/-- Compacting again removes nothing. -/
theorem Compaction.again (h : Compaction joins l removed kept) : Compaction joins kept [] kept := by
  induction h with
  | last a => exact .last a
  | keep _ hjoins ih => exact .keep ih hjoins
  | remove _ _ ih => exact ih

/-- What joins an element that joins nothing behind it is removed, and the element kept. -/
theorem Compaction.removed_of_joins {mid right : List α}
    (h : Compaction joins (mid ++ next :: right) removed kept) (hmid : ∀ a ∈ mid, joins a next)
    (hright : ∀ a ∈ right, ¬joins next a) : (∃ kept', kept = next :: kept') ∧ mid ⊆ removed := by
  induction mid generalizing removed kept with
  | nil =>
    refine ⟨?_, List.nil_subset _⟩
    rw [List.nil_append] at h
    cases h with
    | last => exact ⟨[], rfl⟩
    | keep h hjoins => exact ⟨_, rfl⟩
    | remove h hjoins => exact absurd hjoins (hright _ (h.sublist.subset List.mem_cons_self))
  | cons a mid ih =>
    have hmid' : ∀ b ∈ mid, joins b next := fun b hb => hmid b (List.mem_cons_of_mem _ hb)
    have hrest : mid ++ next :: right ≠ [] := by simp
    rw [List.cons_append] at h
    generalize hl : mid ++ next :: right = l at h hrest
    cases h with
    | last => exact absurd rfl hrest
    | keep h hjoins =>
      obtain ⟨⟨kept', hkept⟩, -⟩ := ih (hl ▸ h) hmid'
      obtain ⟨rfl, -⟩ := List.cons.inj hkept
      exact absurd (hmid a List.mem_cons_self) hjoins
    | remove h hjoins =>
      obtain ⟨hkept, hsub⟩ := ih (hl ▸ h) hmid'
      exact ⟨hkept, List.cons_subset.mpr ⟨by simp, fun b hb => List.mem_append_left _ (hsub hb)⟩⟩

/-- What is removed of the end of the list is removed. -/
theorem Compaction.exists_suffix {left : List α} (h : Compaction joins (left ++ l) removed kept)
    (hl : l ≠ []) : ∃ removed' kept', Compaction joins l removed' kept' ∧ removed' ⊆ removed := by
  induction left generalizing removed kept with
  | nil => exact ⟨removed, kept, h, List.Subset.refl _⟩
  | cons a left ih =>
    have hrest : left ++ l ≠ [] := by simp [hl]
    rw [List.cons_append] at h
    generalize hl' : left ++ l = l' at h hrest
    cases h with
    | last => exact absurd rfl hrest
    | keep h _ => exact ih (hl' ▸ h)
    | remove h _ =>
      obtain ⟨removed', kept', hsuffix, hsub⟩ := ih (hl' ▸ h)
      exact ⟨removed', kept', hsuffix, List.Subset.trans hsub (List.subset_append_left _ _)⟩

/-! ## The next element that is kept -/

variable [DecidableEq α]

theorem Compaction.find?_kept (h : Compaction joins l removed (next :: kept)) (hnodup : l.Nodup) :
    l.find? (· ∈ next :: kept) = some next := by
  generalize hk : next :: kept = kept' at h
  induction h generalizing next kept with
  | last a =>
    obtain ⟨rfl, -⟩ := List.cons.inj hk
    simp
  | keep _ _ _ =>
    obtain ⟨rfl, -⟩ := List.cons.inj hk
    simp
  | @remove a next' l _ kept'' h _ ih =>
    obtain ⟨ha, hnodup⟩ := List.nodup_cons.mp hnodup
    have hnot : a ∉ next' :: kept'' := fun hmem => ha (h.sublist.subset hmem)
    rw [List.find?_cons_of_neg (by simpa using hnot)]
    exact ih hnodup hk

/-- An element that was removed joins the next one behind it that is kept. -/
theorem Compaction.joins_next (h : Compaction joins l removed kept) (hnodup : l.Nodup)
    {left right : List α} (hl : l = left ++ a :: right) (ha : a ∈ removed) :
    ∃ next, right.find? (· ∈ kept) = some next ∧ joins a next := by
  induction h generalizing left with
  | last b => cases ha
  | @keep b next l removed kept h hjoins ih =>
    obtain ⟨hb, hnodup'⟩ := List.nodup_cons.mp hnodup
    cases left with
    | nil =>
      obtain ⟨rfl, rfl⟩ := List.cons.inj hl
      exact absurd (h.mem_of_removed ha) hb
    | cons c left =>
      obtain ⟨rfl, rfl⟩ := List.cons.inj hl
      obtain ⟨next', hfind, hjoins'⟩ := ih hnodup' rfl ha
      refine ⟨next', ?_, hjoins'⟩
      rw [← hfind]
      refine List.find?_congr fun x hx => ?_
      have hne : x ≠ b := fun hxb => hb (by simp [← hxb, hx])
      simp [hne]
  | @remove b next l removed kept h hjoins ih =>
    obtain ⟨hb, hnodup'⟩ := List.nodup_cons.mp hnodup
    cases left with
    | nil =>
      obtain ⟨rfl, rfl⟩ := List.cons.inj hl
      exact ⟨next, h.find?_kept hnodup', hjoins⟩
    | cons c left =>
      obtain ⟨rfl, rfl⟩ := List.cons.inj hl
      have hne : a ≠ b := fun hab => hb (by simp [hab])
      have ha' : a ∈ removed := by simpa [hne] using ha
      exact ih hnodup' rfl ha'

/-- All elements that were removed before one that is kept join it. -/
theorem Compaction.joins_of_not_kept (h : Compaction joins l removed kept) (hnodup : l.Nodup)
    {left mid right : List α} (hl : l = left ++ (mid ++ next :: right))
    (hmid : ∀ a ∈ mid, a ∉ kept) (hnext : next ∈ kept) (ha : a ∈ mid) : joins a next := by
  obtain ⟨mid₁, mid₂, rfl⟩ := List.append_of_mem ha
  have hl' : l = (left ++ mid₁) ++ a :: (mid₂ ++ next :: right) := by simp [hl]
  have hremoved : a ∈ removed := by
    have hmem : a ∈ removed ++ kept := h.perm.mem_iff.mpr (by simp [hl'])
    exact (List.mem_append.mp hmem).resolve_right (hmid a ha)
  obtain ⟨next', hfind, hjoins⟩ := h.joins_next hnodup hl' hremoved
  have hskip : mid₂.find? (· ∈ kept) = none := by
    refine List.find?_eq_none.mpr fun x hx => ?_
    simpa using hmid x (by simp [hx])
  rw [List.find?_append, hskip, Option.none_or, List.find?_cons_of_pos (by simpa using hnext)] at hfind
  obtain rfl := Option.some.inj hfind
  exact hjoins

end Lib
