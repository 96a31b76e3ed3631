import N8n.Lib.JsNumber
import Mathlib.Data.List.GetD
import Mathlib.Data.List.Nodup
import Mathlib.Data.List.TakeWhile

/-!
# Numbered names

A naming scheme gives the first positions names of their own and numbers the others :
`nameAt names stem i` is the `i`-th of `names`, or `stem` followed by `i`. Positions can be
told from their names when the names are different and none of them is a numbered one
(`nameAt_injective`). The part of a name before its first digit tells numbered names with
different stems apart, and the digits after the stem give the number (`numberAfter?_numbered`,
`trailingNumber?_numbered`). The code units of a numeral are digits, and determine the number
(`units_toString_injective`).
-/

namespace Lib

/-- `stem` followed by a number. -/
def numbered (stem : String) (n : ℕ) : String := stem ++ toString n

/-- What stands before the first digit. -/
def letters (s : String) : List Char := s.toList.takeWhile fun c => !c.isDigit

/-- Decimal notation determines the number. -/
theorem toString_nat_injective : Function.Injective (toString : ℕ → String) := by
  intro m n h
  have hdigits : Nat.toDigits 10 m = Nat.toDigits 10 n := by
    rw [← Nat.toList_repr, ← Nat.toList_repr]
    exact congrArg String.toList h
  rw [← Nat.ofDigitChars_ten_toDigits (n := m), hdigits, Nat.ofDigitChars_ten_toDigits]

theorem numbered_injective (stem : String) : Function.Injective (numbered stem) := by
  intro m n h
  have happend : stem.toList ++ (toString m).toList = stem.toList ++ (toString n).toList := by
    simpa [numbered] using congrArg String.toList h
  exact toString_nat_injective (String.toList_injective (List.append_cancel_left happend))

theorem isDigit_of_mem_toString {n : ℕ} {c : Char} (h : c ∈ (toString n).toList) :
    c.isDigit = true :=
  Nat.isDigit_of_mem_toDigits (b := 10) (by decide) (by decide) (by rwa [← Nat.toList_repr])

theorem toList_toString_ne_nil (n : ℕ) : (toString n).toList ≠ [] := fun h =>
  Nat.toDigits_ne_nil (n := n) (b := 10) (by rwa [← Nat.toList_repr])

theorem letters_numbered {stem : String} (h : letters stem = stem.toList) (n : ℕ) :
    letters (numbered stem n) = stem.toList := by
  have hstem : ∀ c ∈ stem.toList, (!c.isDigit) = true := List.takeWhile_eq_self_iff.mp h
  have hdigits : (toString n).toList.takeWhile (fun c => !c.isDigit) = [] := by
    refine List.takeWhile_eq_nil_iff.mpr fun hpos => ?_
    have hdigit : ((toString n).toList.get ⟨0, hpos⟩).isDigit = true :=
      isDigit_of_mem_toString (List.get_mem (toString n).toList ⟨0, hpos⟩)
    simpa using hdigit
  rw [letters, numbered, String.toList_append, List.takeWhile_append_of_pos hstem, hdigits,
    List.append_nil]

/-- Numbered names with different stems are different. -/
theorem numbered_ne_numbered {stem stem' : String} (h : letters stem = stem.toList)
    (h' : letters stem' = stem'.toList) (hne : stem ≠ stem') (m n : ℕ) :
    numbered stem m ≠ numbered stem' n := by
  intro heq
  have hletters := congrArg letters heq
  rw [letters_numbered h, letters_numbered h'] at hletters
  exact hne (String.toList_injective hletters)

theorem stem_ne_numbered (stem : String) (n : ℕ) : stem ≠ numbered stem n := by
  intro h
  exact toList_toString_ne_nil n (by simpa [numbered] using congrArg String.toList h)

theorem ne_numbered {name stem : String} (h : letters stem = stem.toList)
    (hne : name = stem ∨ letters name ≠ stem.toList) (n : ℕ) : name ≠ numbered stem n := by
  rcases hne with rfl | hne
  · exact stem_ne_numbered name n
  · rintro rfl
    exact hne (letters_numbered h n)

/-- The name of position `i`. -/
def nameAt (names : List String) (stem : String) (i : ℕ) : String :=
  names.getD i (numbered stem i)

theorem nameAt_mem_or (names : List String) (stem : String) (i : ℕ) :
    nameAt names stem i ∈ names ∨ nameAt names stem i = numbered stem i := by
  by_cases h : i < names.length
  · rw [nameAt, List.getD_eq_getElem _ _ h]
    exact Or.inl (List.getElem_mem h)
  · rw [nameAt, List.getD_eq_default _ _ (not_lt.mp h)]
    exact Or.inr rfl

theorem nameAt_injective {names : List String} {stem : String} (hn : names.Nodup)
    (h : ∀ x ∈ names, ∀ n, x ≠ numbered stem n) : Function.Injective (nameAt names stem) := by
  intro i j hij
  by_cases hi : i < names.length <;> by_cases hj : j < names.length
  · rw [nameAt, nameAt, List.getD_eq_getElem _ _ hi, List.getD_eq_getElem _ _ hj] at hij
    exact (hn.getElem_inj_iff).mp hij
  · rw [nameAt, nameAt, List.getD_eq_getElem _ _ hi, List.getD_eq_default _ _ (not_lt.mp hj)] at hij
    exact absurd hij (h _ (List.getElem_mem hi) j)
  · rw [nameAt, nameAt, List.getD_eq_default _ _ (not_lt.mp hi), List.getD_eq_getElem _ _ hj] at hij
    exact absurd hij.symm (h _ (List.getElem_mem hj) i)
  · rw [nameAt, nameAt, List.getD_eq_default _ _ (not_lt.mp hi),
      List.getD_eq_default _ _ (not_lt.mp hj)] at hij
    exact numbered_injective stem hij

theorem nodup_map_numbered (stem : String) (n : ℕ) : ((List.range n).map (numbered stem)).Nodup :=
  List.nodup_range.map (numbered_injective stem)

/-! ## The number of a name -/

/-- The number of decimal digits. -/
def readNumber? (digits : List Char) : Option ℕ :=
  if digits ≠ [] ∧ digits.all Char.isDigit then some (Nat.ofDigitChars 10 digits 0) else none

/-- The number of a name that is numbered from `stem`. -/
def numberAfter? (stem name : String) : Option ℕ :=
  if stem.toList <+: name.toList then readNumber? (name.toList.drop stem.toList.length) else none

/-- The number a name ends with. -/
def trailingNumber? (name : String) : Option ℕ :=
  readNumber? (name.toList.rtakeWhile Char.isDigit)

theorem readNumber?_toString (n : ℕ) : readNumber? (toString n).toList = some n := by
  have hdigits : ∀ c ∈ (toString n).toList, c.isDigit = true := fun _ => isDigit_of_mem_toString
  have hvalue : Nat.ofDigitChars 10 (toString n).toList 0 = n := by
    have hlist : (toString n).toList = Nat.toDigits 10 n := Nat.toList_repr
    rw [hlist, Nat.ofDigitChars_ten_toDigits]
  rw [readNumber?, if_pos ⟨toList_toString_ne_nil n, List.all_eq_true.mpr hdigits⟩, hvalue]

theorem numberAfter?_numbered (stem : String) (n : ℕ) :
    numberAfter? stem (numbered stem n) = some n := by
  rw [numberAfter?, numbered, String.toList_append, if_pos (List.prefix_append _ _),
    List.drop_left, readNumber?_toString]

theorem numberAfter?_eq_none {stem name : String} (h : ¬stem.toList <+: name.toList) :
    numberAfter? stem name = none := if_neg h

theorem trailingNumber?_numbered {stem : String}
    (h : stem.toList.rtakeWhile Char.isDigit = []) (n : ℕ) :
    trailingNumber? (numbered stem n) = some n := by
  have hdigits : ∀ c ∈ (toString n).toList.reverse, c.isDigit = true := fun c hc =>
    isDigit_of_mem_toString (List.mem_reverse.mp hc)
  have hstem : stem.toList.reverse.takeWhile Char.isDigit = [] := by
    rw [← List.reverse_eq_nil_iff]
    exact h
  have htake : (numbered stem n).toList.rtakeWhile Char.isDigit = (toString n).toList := by
    rw [List.rtakeWhile, numbered, String.toList_append, List.reverse_append,
      List.takeWhile_append_of_pos hdigits, hstem, List.append_nil, List.reverse_reverse]
  rw [trailingNumber?, htake, readNumber?_toString]

/-! ## Numerals as code units -/

theorem toNat_charUnit_of_isDigit {c : Char} (h : c.isDigit = true) :
    (charUnit c).toNat = c.toNat := by
  have hle := (Char.isDigit_iff_toNat.mp h).2
  have hnine : '9'.toNat = 57 := rfl
  exact Nat.mod_eq_of_lt (by omega)

theorem digitOf?_isSome_of_mem_units_toString {n : ℕ} :
    ∀ u ∈ units (toString n), (digitOf? u).isSome = true := by
  intro u hu
  obtain ⟨c, hc, rfl⟩ := List.mem_map.mp hu
  have hdigit := isDigit_of_mem_toString hc
  obtain ⟨hzero, hnine⟩ := Char.isDigit_iff_toNat.mp hdigit
  have hzero' : '0'.toNat = 48 := rfl
  have hnine' : '9'.toNat = 57 := rfl
  rw [digitOf?, toNat_charUnit_of_isDigit hdigit, if_pos (by omega)]
  rfl

theorem units_toString_injective : Function.Injective fun n : ℕ => units (toString n) := by
  have hinverse : ∀ n : ℕ, (units (toString n)).map (fun u => Char.ofNat u.toNat) =
      (toString n).toList := by
    intro n
    rw [units, List.map_map]
    refine (List.map_congr_left fun c hc => ?_).trans (List.map_id _)
    rw [Function.comp_apply, toNat_charUnit_of_isDigit (isDigit_of_mem_toString hc),
      Char.ofNat_toNat]
    rfl
  intro m n h
  refine toString_nat_injective (String.toList_injective ?_)
  rw [← hinverse m, ← hinverse n]
  exact congrArg _ h

theorem units_toString_ne_nil (n : ℕ) : units (toString n) ≠ [] := by
  rw [units, Ne, List.map_eq_nil_iff]
  exact toList_toString_ne_nil n

end Lib
