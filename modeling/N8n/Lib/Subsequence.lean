import Mathlib.Data.List.Basic
import Mathlib.Data.List.Nodup

/-!
# Subsequences and strings

A JavaScript string is a sequence of UTF-16 code units (`codeUnits`).

`containsParts` looks for a sequence in another one greedily, and gives up once too much of
the other has been passed over. It finds exactly the subsequences (`containsParts_iff`) :
taking the first occurrence of each element is never wrong, and by the time it gives up,
less is left to search than to find.
-/

namespace Lib

/-- The UTF-16 code units of a character. -/
def charCodeUnits (c : Char) : List UInt16 :=
  if c.toNat < 0x10000 then [c.toNat.toUInt16]
  else [(0xD800 + (c.toNat - 0x10000) / 0x400).toUInt16,
    (0xDC00 + (c.toNat - 0x10000) % 0x400).toUInt16]

/-- The UTF-16 code units of a string. -/
def codeUnits (s : String) : List UInt16 := s.toList.flatMap charCodeUnits

variable {α : Type*} [DecidableEq α]

/-- The rest of the sequence, the index of its first element and how much was found. -/
def containsPartsLoop (part : List α) (diffSize : ℕ) : List α → ℕ → ℕ → Bool
  | [], _, marker => decide (part.length ≤ marker)
  | a :: rest, i, marker =>
    let marker := if part[marker]? = some a then marker + 1 else marker
    if i > diffSize + marker then false else containsPartsLoop part diffSize rest (i + 1) marker

def containsParts (l part : List α) : Bool :=
  if part.length > l.length then false
  else containsPartsLoop part (l.length - part.length) l 0 0

omit [DecidableEq α] in
theorem sublist_cons_of_head_ne {part rest : List α} {a : α} (h : part.head? ≠ some a) :
    part.Sublist (a :: rest) ↔ part.Sublist rest := by
  cases part with
  | nil => simp
  | cons b part =>
    have hne : b ≠ a := by simpa using h
    refine ⟨fun hsub => ?_, fun hsub => hsub.cons a⟩
    rcases List.sublist_cons_iff.mp hsub with hsub | ⟨part', heq, -⟩
    · exact hsub
    · exact absurd (List.cons.inj heq).1 hne

theorem containsPartsLoop_iff {part rest : List α} {diffSize i marker : ℕ}
    (hsize : i + rest.length = diffSize + part.length) (hmarker : marker ≤ part.length) :
    containsPartsLoop part diffSize rest i marker = true ↔ (part.drop marker).Sublist rest := by
  induction rest generalizing i marker with
  | nil =>
    rw [containsPartsLoop, decide_eq_true_iff, List.sublist_nil, List.drop_eq_nil_iff]
  | cons a rest ih =>
    rw [List.length_cons] at hsize
    rw [containsPartsLoop]
    by_cases hfound : part[marker]? = some a
    · obtain ⟨hlt, hget⟩ := List.getElem?_eq_some_iff.mp hfound
      rw [if_pos hfound, List.drop_eq_getElem_cons hlt, hget, List.cons_sublist_cons]
      split
      · rename_i hgiveup
        refine iff_of_false Bool.false_ne_true fun hsub => ?_
        have hlen := hsub.length_le
        rw [List.length_drop] at hlen
        omega
      · exact ih (by omega) hlt
    · have hhead : (part.drop marker).head? ≠ some a := by rwa [List.head?_drop]
      rw [if_neg hfound, sublist_cons_of_head_ne hhead]
      split
      · rename_i hgiveup
        refine iff_of_false Bool.false_ne_true fun hsub => ?_
        have hlen := hsub.length_le
        rw [List.length_drop] at hlen
        omega
      · exact ih (by omega) hmarker

theorem containsParts_iff {l part : List α} : containsParts l part = true ↔ part.Sublist l := by
  unfold containsParts
  split
  · rename_i hlong
    exact iff_of_false Bool.false_ne_true fun hsub => absurd hsub.length_le (by omega)
  · exact containsPartsLoop_iff (by omega) (Nat.zero_le _)

end Lib
