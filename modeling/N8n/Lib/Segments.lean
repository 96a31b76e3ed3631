import Mathlib.Data.List.DropRight

/-!
# Parts of a list between separators

`trimBy p` takes away what `p` holds of at both ends. What is left between two blank parts is
itself when it neither begins nor ends blank (`trimBy_append`). What holds of lists without
separators and is kept by a part before a separator holds of every list (`separated_induction`);
`List.splitOnP` gives the parts.
-/

namespace Lib

variable {α : Type*} {p : α → Bool}

/-- Without the elements of `p` at both ends. -/
def trimBy (p : α → Bool) (l : List α) : List α := (l.dropWhile p).rdropWhile p

theorem exists_append_trimBy (p : α → Bool) (l : List α) :
    ∃ before after, (∀ x ∈ before, p x = true) ∧ (∀ x ∈ after, p x = true) ∧
      l = before ++ (trimBy p l ++ after) := by
  refine ⟨l.takeWhile p, (l.dropWhile p).rtakeWhile p, fun x hx => List.mem_takeWhile_imp hx,
    fun x hx => List.mem_rtakeWhile_imp hx, ?_⟩
  rw [trimBy, List.rdropWhile_append_rtakeWhile, List.takeWhile_append_dropWhile]

theorem mem_of_mem_trimBy {l : List α} {x : α} (h : x ∈ trimBy p l) : x ∈ l :=
  (List.dropWhile_suffix p).subset ((List.rdropWhile_prefix p _).subset h)

theorem trimBy_eq_nil_iff {l : List α} : trimBy p l = [] ↔ ∀ x ∈ l, p x = true := by
  constructor
  · intro h
    obtain ⟨before, after, hbefore, hafter, heq⟩ := exists_append_trimBy p l
    rw [heq, h]
    exact List.forall_mem_append.mpr ⟨hbefore, hafter⟩
  · intro h
    rw [trimBy, List.dropWhile_eq_nil_iff.mpr h, List.rdropWhile_nil]

theorem rdropWhile_append_of_pos {after : List α} (hafter : ∀ x ∈ after, p x = true) (l : List α) :
    (l ++ after).rdropWhile p = l.rdropWhile p := by
  induction after using List.reverseRecOn with
  | nil => rw [List.append_nil]
  | append_singleton after y ih =>
    rw [← List.append_assoc, List.rdropWhile_concat_pos _ _ _ (hafter y (by simp))]
    exact ih fun x hx => hafter x (List.mem_append_left _ hx)

theorem trimBy_append {before l after : List α} (hbefore : ∀ x ∈ before, p x = true)
    (hafter : ∀ x ∈ after, p x = true) (hhead : ∀ x ∈ l.head?, p x = false)
    (hlast : ∀ x ∈ l.getLast?, p x = false) : trimBy p (before ++ (l ++ after)) = l := by
  cases l with
  | nil => exact trimBy_eq_nil_iff.mpr (List.forall_mem_append.mpr ⟨hbefore, hafter⟩)
  | cons x l =>
    have hx : ¬p x = true := by simp [hhead x rfl]
    rw [trimBy, List.dropWhile_append_of_pos hbefore, List.cons_append,
      List.dropWhile_cons_of_neg hx, ← List.cons_append, rdropWhile_append_of_pos hafter,
      List.rdropWhile_eq_self_iff]
    intro hne
    simp [hlast _ (List.getLast?_eq_some_getLast hne)]

/-- What is trimmed away at the front stands before the rest of the list trimmed at its end. -/
theorem trimBy_eq_iff {l part : List α} (hne : part ≠ []) (hhead : ∀ x ∈ part.head?, p x = false)
    (hlast : ∀ x ∈ part.getLast?, p x = false) :
    trimBy p l = part ↔ ∃ before, (∀ x ∈ before, p x = true) ∧ l.rdropWhile p = before ++ part := by
  constructor
  · rintro rfl
    obtain ⟨before, after, hbefore, hafter, heq⟩ := exists_append_trimBy p l
    refine ⟨before, hbefore, ?_⟩
    conv_lhs => rw [heq, ← List.append_assoc, rdropWhile_append_of_pos hafter]
    refine List.rdropWhile_eq_self_iff.mpr fun hl => ?_
    rw [List.getLast_append_of_ne_nil hl hne]
    simp [hlast _ (List.getLast?_eq_some_getLast hne)]
  · rintro ⟨before, hbefore, heq⟩
    have happend : l.rdropWhile p ++ l.rtakeWhile p = l := List.rdropWhile_append_rtakeWhile
    rw [← happend, heq, List.append_assoc]
    exact trimBy_append hbefore (fun x hx => List.mem_rtakeWhile_imp hx) hhead hlast

/-- A list without separators, or one part after another. -/
@[elab_as_elim]
theorem separated_induction (p : α → Bool) {motive : List α → Prop}
    (single : ∀ l, (∀ x ∈ l, p x = false) → motive l)
    (cons : ∀ pre sep post, (∀ x ∈ pre, p x = false) → p sep = true → motive post →
      motive (pre ++ sep :: post)) (l : List α) : motive l := by
  induction hn : l.length using Nat.strong_induction_on generalizing l with
  | _ n ih =>
    subst hn
    have hpre : ∀ x ∈ l.takeWhile (!p ·), p x = false := fun x hx => by
      simpa using List.mem_takeWhile_imp hx
    have happend : l.takeWhile (!p ·) ++ l.dropWhile (!p ·) = l := List.takeWhile_append_dropWhile
    cases hdrop : l.dropWhile (!p ·) with
    | nil =>
      rw [hdrop, List.append_nil] at happend
      exact single l (happend ▸ hpre)
    | cons sep post =>
      have hsep : p sep = true := by
        have hhead := List.head?_dropWhile_not (!p ·) l
        simpa [hdrop] using hhead
      rw [hdrop] at happend
      have hlength : post.length < l.length := by
        rw [← happend, List.length_append, List.length_cons]
        omega
      rw [← happend]
      exact cons _ sep post hpre hsep (ih post.length hlength post rfl)

/-- What is no separator can be dropped before the first part. -/
theorem tail_splitOnP_dropWhile {q : α → Bool} (h : ∀ x, q x = true → p x = false) (l : List α) :
    ((l.dropWhile q).splitOnP p).tail = (l.splitOnP p).tail := by
  induction l with
  | nil => rfl
  | cons x l ih =>
    by_cases hx : q x = true
    · have hp : ¬p x = true := by simp [h x hx]
      rw [List.dropWhile_cons_of_pos hx, ih, List.splitOnP_cons_eq_if_modifyHead, if_neg hp]
      cases l.splitOnP p <;> rfl
    · rw [List.dropWhile_cons_of_neg hx]

theorem mem_of_mem_splitOnP {l part : List α} (hpart : part ∈ l.splitOnP p) {x : α}
    (hx : x ∈ part) : x ∈ l := by
  induction l generalizing part with
  | nil =>
    rw [List.splitOnP_nil, List.mem_singleton] at hpart
    rwa [hpart] at hx
  | cons y l ih =>
    rw [List.splitOnP_cons_eq_if_modifyHead] at hpart
    split at hpart
    · rcases List.mem_cons.mp hpart with rfl | hpart
      · cases hx
      · exact .tail _ (ih hpart hx)
    · cases hparts : l.splitOnP p with
      | nil => exact absurd hparts (List.splitOnP_ne_nil p l)
      | cons first parts =>
        rw [hparts] at hpart ih
        rcases List.mem_cons.mp hpart with rfl | hpart
        · rcases List.mem_cons.mp hx with rfl | hx
          · exact List.mem_cons_self
          · exact .tail _ (ih List.mem_cons_self hx)
        · exact .tail _ (ih (.tail _ hpart) hx)

end Lib
