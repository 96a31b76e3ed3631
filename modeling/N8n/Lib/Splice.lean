import Mathlib.Data.List.Nodup

/-!
# Finding and replacing elements of a list

`find?` with `eraseP` is `findIndex` with `splice` : the element found is taken out and the
others stay in order (`exists_split_of_find`). The other lemmas say what replacing or
removing one element does to the images of a list.
-/

namespace Lib

variable {α β : Type*} {l : List α}

/-- The first element with a property is taken out. -/
theorem exists_split_of_find {p : α → Bool} {a : α} (h : l.find? p = some a) :
    ∃ before after, l = before ++ a :: after ∧ l.eraseP p = before ++ after ∧
      (∀ b ∈ before, p b = false) ∧ p a = true := by
  obtain ⟨hp, before, after, rfl, hbefore⟩ := List.find?_eq_some_iff_append.mp h
  have hbefore' : ∀ b ∈ before, p b = false := fun b hb => by simpa using hbefore b hb
  refine ⟨before, after, rfl, ?_, hbefore', hp⟩
  rw [List.eraseP_append_right _ fun b hb => by simp [hbefore' b hb], List.eraseP_cons_of_pos hp]

theorem eraseP_eq_erase_of_find [DecidableEq α] {p : α → Bool} {a : α} (h : l.find? p = some a) :
    l.eraseP p = l.erase a := by
  obtain ⟨before, after, rfl, herase, hbefore, ha⟩ := exists_split_of_find h
  have hnot : a ∉ before := fun hmem => by
    have := hbefore a hmem
    rw [ha] at this
    cases this
  rw [herase, List.erase_append_right _ hnot, List.erase_cons_head]

/-- In a list in increasing order the first element with a property is the least. -/
theorem le_of_find {p : α → Bool} {a b : α} {f : α → ℕ} (hsorted : (l.map f).Pairwise (· < ·))
    (h : l.find? p = some a) (hb : b ∈ l) (hp : p b = true) : f a ≤ f b := by
  obtain ⟨before, after, rfl, -, hbefore, -⟩ := exists_split_of_find h
  rw [List.map_append, List.map_cons, List.pairwise_append, List.pairwise_cons] at hsorted
  rcases List.mem_append.mp hb with hb | hb
  · rw [hbefore b hb] at hp
    cases hp
  rcases List.mem_cons.mp hb with rfl | hb
  · exact Nat.le_refl _
  · exact Nat.le_of_lt (hsorted.2.1.1 _ (List.mem_map_of_mem hb))

/-- In a list without repetitions the element that is taken out is not left. -/
theorem not_mem_of_mem_eraseP {p : α → Bool} {a b : α} {f : α → β} (hnodup : (l.map f).Nodup)
    (h : l.find? p = some a) (hb : b ∈ l.eraseP p) : f b ≠ f a := by
  obtain ⟨before, after, rfl, herase, -, -⟩ := exists_split_of_find h
  rw [herase] at hb
  rw [List.map_append, List.map_cons, List.nodup_middle, List.nodup_cons, ← List.map_append] at hnodup
  intro heq
  exact hnodup.1 (heq ▸ List.mem_map_of_mem hb)

/-- Replacing an element by one with the same image. -/
theorem map_set_of_eq {f : α → β} {k : ℕ} {a a' : α} (hk : l[k]? = some a) (hf : f a' = f a) :
    (l.set k a').map f = l.map f := by
  obtain ⟨hlt, rfl⟩ := List.getElem?_eq_some_iff.mp hk
  have hlt' : k < (l.map f).length := by simpa using hlt
  have hself : (l.map f)[k] = f l[k] := List.getElem_map ..
  rw [List.map_set, hf, ← hself, List.set_getElem_self]

/-- Modifying an element sets its image. -/
theorem map_modify_eq_set {f : α → β} {g : α → α} {k : ℕ} {a : α} (hk : l[k]? = some a) :
    (l.modify k g).map f = (l.map f).set k (f (g a)) := by
  refine List.ext_getElem? fun j => ?_
  rw [List.getElem?_map, List.getElem?_modify, List.getElem?_set, List.getElem?_map]
  by_cases hj : k = j
  · subst hj
    obtain ⟨hlt, rfl⟩ := List.getElem?_eq_some_iff.mp hk
    simp [hlt]
  · simp [hj]

/-- Removing an element removes its image, if it has one. -/
theorem exists_split_of_eraseIdx {f : α → Option β} {i : ℕ} {a : α} (hi : l[i]? = some a) :
    ∃ before after, l.filterMap f = before ++ (f a).toList ++ after ∧
      (l.eraseIdx i).filterMap f = before ++ after := by
  obtain ⟨hlt, rfl⟩ := List.getElem?_eq_some_iff.mp hi
  refine ⟨(l.take i).filterMap f, (l.drop (i + 1)).filterMap f, ?_, ?_⟩
  · have hsplit : l = l.take i ++ l[i] :: l.drop (i + 1) := by
      rw [List.getElem_cons_drop, List.take_append_drop]
    have hentries := congrArg (List.filterMap f) hsplit
    rw [List.filterMap_append, List.filterMap_cons] at hentries
    cases hentry : f l[i] <;> simpa [hentry] using hentries
  · rw [List.eraseIdx_eq_take_drop_succ, List.filterMap_append]

/-- Pieces of the same lengths make up the same list exactly if they are the same. -/
theorem flatMap_append_inj_iff {f g : α → List β} (h : ∀ a ∈ l, (f a).length = (g a).length)
    {r r' : List β} :
    l.flatMap f ++ r = l.flatMap g ++ r' ↔ (∀ a ∈ l, f a = g a) ∧ r = r' := by
  induction l with
  | nil => simp
  | cons a l ih =>
    have hlength := h a List.mem_cons_self
    have hiff := ih fun b hb => h b (List.mem_cons_of_mem a hb)
    rw [List.flatMap_cons, List.flatMap_cons, List.append_assoc, List.append_assoc,
      List.forall_mem_cons, and_assoc, ← hiff]
    exact ⟨fun heq => List.append_inj heq hlength, fun heq => by rw [heq.1, heq.2]⟩

end Lib
