import Mathlib.Data.Int.Notation
import Mathlib.Data.List.Basic

/-!
# Texts joined by a separator

Where the part before the first separator does not contain it, a joined text can be split
again (`append_cons_inj`). The decimal numerals of natural numbers and of integers are such
parts, up to the sign (`append_cons_intToString_inj`).
-/

namespace Lib

variable {α : Type*} {a : α} {x y u v : List α}

/-- The parts before and after the first separator. -/
theorem append_cons_inj (h : x ++ a :: u = y ++ a :: v) (hx : a ∉ x) (hy : a ∉ y) :
    x = y ∧ u = v := by
  rcases List.append_eq_append_iff.mp h with ⟨as, rfl, hu⟩ | ⟨bs, rfl, hv⟩
  · cases as with
    | nil => simpa using hu
    | cons b as =>
      obtain rfl : a = b := (List.cons.inj hu).1
      exact absurd (by simp) hy
  · cases bs with
    | nil => simpa [eq_comm] using hv
    | cons b bs =>
      obtain rfl : a = b := (List.cons.inj hv).1
      exact absurd (by simp) hx

/-- What follows a separator in the second text, if the first part of the first text has
none. -/
theorem suffix_of_append_cons (h : x ++ a :: u = y ++ a :: v) (hx : a ∉ x) : v <:+ u := by
  rcases List.append_eq_append_iff.mp h with ⟨as, rfl, hu⟩ | ⟨bs, rfl, hv⟩
  · cases as with
    | nil =>
      obtain ⟨-, rfl⟩ := List.cons.inj hu
      exact List.suffix_refl u
    | cons b as =>
      obtain ⟨-, rfl⟩ := List.cons.inj hu
      exact ⟨as ++ [a], by simp⟩
  · cases bs with
    | nil =>
      obtain ⟨-, rfl⟩ := List.cons.inj hv
      exact List.suffix_refl _
    | cons b bs =>
      obtain rfl : a = b := (List.cons.inj hv).1
      exact absurd (by simp) hx

/-! ## Numerals -/

theorem isDigit_of_mem_natToString {n : ℕ} {c : Char} (h : c ∈ (toString n).toList) :
    c.isDigit = true := by
  rw [Nat.toString_eq_ofList_toDigits, String.toList_ofList] at h
  exact Nat.isDigit_of_mem_toDigits (by decide) (by decide) h

theorem natToString_inj {m n : ℕ} : (toString m).toList = (toString n).toList ↔ m = n := by
  constructor
  · intro h
    simp only [Nat.toString_eq_ofList_toDigits, String.toList_ofList] at h
    rw [← Nat.ofDigitChars_ten_toDigits (n := m), h, Nat.ofDigitChars_ten_toDigits]
  · rintro rfl
    rfl

theorem notMem_natToString (n : ℕ) : '-' ∉ (toString n).toList :=
  fun h => absurd (isDigit_of_mem_natToString h) (by decide)

theorem toList_intToString_negSucc (n : ℕ) :
    (toString (Int.negSucc n)).toList = '-' :: (toString (n + 1)).toList := by
  change (Int.repr (Int.negSucc n)).toList = _
  simp [Int.repr]

/-- A numeral has digits and at most a sign. -/
theorem isDigit_or_eq_of_mem_intToString {i : ℤ} {c : Char} (h : c ∈ (toString i).toList) :
    c.isDigit = true ∨ c = '-' := by
  cases i with
  | ofNat n => exact Or.inl (isDigit_of_mem_natToString h)
  | negSucc n =>
    rw [toList_intToString_negSucc, List.mem_cons] at h
    exact h.symm.imp_left isDigit_of_mem_natToString

theorem natToString_append_ne (n : ℕ) {u v : List Char} :
    (toString n).toList ++ u ≠ '-' :: v := by
  intro h
  cases hn : (toString n).toList with
  | nil =>
    rw [Nat.toString_eq_ofList_toDigits, String.toList_ofList] at hn
    exact Nat.toDigits_ne_nil hn
  | cons c cs =>
    rw [hn] at h
    have hc : c ∈ (toString n).toList := hn ▸ List.mem_cons_self
    rw [(List.cons.inj h).1] at hc
    exact notMem_natToString n hc

/-- An integer and what follows it can be told apart, in spite of the sign. -/
theorem append_cons_intToString_inj {i j : ℤ} {u v : List Char}
    (h : (toString i).toList ++ '-' :: u = (toString j).toList ++ '-' :: v) : i = j ∧ u = v := by
  cases i with
  | ofNat m =>
    cases j with
    | ofNat n =>
      obtain ⟨hnum, huv⟩ := append_cons_inj h (notMem_natToString m) (notMem_natToString n)
      exact ⟨by rw [natToString_inj.mp hnum], huv⟩
    | negSucc n =>
      rw [toList_intToString_negSucc] at h
      exact absurd h (natToString_append_ne m)
  | negSucc m =>
    cases j with
    | ofNat n =>
      rw [toList_intToString_negSucc] at h
      exact absurd h.symm (natToString_append_ne n)
    | negSucc n =>
      rw [toList_intToString_negSucc, toList_intToString_negSucc] at h
      obtain ⟨hnum, huv⟩ := append_cons_inj (List.cons.inj h).2 (notMem_natToString (m + 1))
        (notMem_natToString (n + 1))
      have hmn : m + 1 = n + 1 := natToString_inj.mp hnum
      exact ⟨by rw [Nat.succ.inj hmn], huv⟩

end Lib
