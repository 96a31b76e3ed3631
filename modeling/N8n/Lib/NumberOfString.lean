import N8n.Lib.JsLiteral

/-!
# Numbers of strings

`toNumber` is `Number(text)` for a string, `none` for `NaN` : spaces around it do not count, the
empty text is zero, and there are hexadecimal, octal and binary integers, `Infinity` and decimals.
A number that is printed is its own number (`toNumber_toUnits`).
-/

namespace Lib

/-- `text.trim()` -/
def trim (text : List UInt16) : List UInt16 := (text.dropWhile isSpace).rdropWhile isSpace

/-- A number, or one of the infinities. -/
inductive Numeric where
  | finite (x : JsNumber)
  | infinite (negative : Bool)

namespace Numeric

def neg : Numeric → Numeric
  | finite x => finite x.neg
  | infinite negative => infinite !negative

end Numeric

namespace JsNumber

def ofNat (n : ℕ) : JsNumber := ofDecimal false (decimalDigits n) (decimalDigits n).length

/-- Digits with a point somewhere, before an exponent. -/
def readLoose (text : List UInt16) : Option (JsNumber × List UInt16) :=
  let integer := readDigits text
  let fraction := readFraction integer.2
  if integer.1 ++ fraction.1 = [] then none
  else (readExponentPart fraction.2).map fun exponent =>
    (ofDecimal false (integer.1 ++ fraction.1) (integer.1.length + exponent.1), exponent.2)

end JsNumber

/-- The number of digits to a base. -/
def readBase (base : ℕ) (text : List UInt16) : Option ℕ :=
  if text = [] then none
  else text.foldlM (fun n u => (hexValue? u).bind fun d =>
    if d < base then some (n * base + d) else none) 0

/-- The base that a prefix such as `0x` tells, and the digits after it. -/
def basePrefix? : List UInt16 → Option (ℕ × List UInt16)
  | zero :: letter :: digits =>
    if zero ≠ charUnit '0' then none
    else if letter = charUnit 'x' ∨ letter = charUnit 'X' then some (16, digits)
    else if letter = charUnit 'o' ∨ letter = charUnit 'O' then some (8, digits)
    else if letter = charUnit 'b' ∨ letter = charUnit 'B' then some (2, digits)
    else none
  | _ => none

/-- A decimal or `Infinity`, without a sign. -/
def unsignedNumber (text : List UInt16) : Option Numeric :=
  if text = units "Infinity" then some (.infinite false)
  else
    match JsNumber.readLoose text with
    | some (x, []) => some (.finite x)
    | _ => none

/-- The number of a text without spaces around it. -/
def trimmedNumber (text : List UInt16) : Option Numeric :=
  match text with
  | [] => some (.finite .zero)
  | sign :: digits =>
    match basePrefix? text with
    | some (base, digits) => (readBase base digits).map fun n => .finite (.ofNat n)
    | none =>
      if sign = charUnit '-' then (unsignedNumber digits).map Numeric.neg
      else if sign = charUnit '+' then unsignedNumber digits
      else unsignedNumber text

/-- `Number(text)` -/
def toNumber (text : List UInt16) : Option Numeric := trimmedNumber (trim text)

/-! ## Printed numbers -/

namespace JsNumber

/-- What stands in a printed number. -/
def isNumberUnit (u : UInt16) : Bool := u ∈ units "0123456789+-.e"

theorem isNumberUnit_digits {digits : List (Fin 10)} :
    ∀ u ∈ digits.map digitUnit, isNumberUnit u = true := by
  have hdigit : ∀ d : Fin 10, isNumberUnit (digitUnit d) = true := by decide
  intro u hu
  obtain ⟨d, -, rfl⟩ := List.mem_map.mp hu
  exact hdigit d

theorem isNumberUnit_toUnits (x : JsNumber) : ∀ u ∈ x.toUnits, isNumberUnit u = true := by
  cases x with
  | zero => decide
  | decimal negative digits exponent h =>
    intro u hu
    simp only [toUnits, List.mem_append] at hu
    rcases hu with ((hu | hu) | hu) | hu
    · split at hu
      · revert u
        decide
      · cases hu
    · exact isNumberUnit_digits u hu
    · split at hu
      · cases hu
      · rcases List.mem_cons.mp hu with rfl | hu
        · decide
        · exact isNumberUnit_digits u hu
    · cases hexponent : (parts digits exponent).2.2 with
      | none =>
        rw [hexponent] at hu
        cases hu
      | some place =>
        rw [hexponent, Option.elim_some, exponentUnits, List.mem_cons, List.mem_cons] at hu
        rcases hu with rfl | rfl | hu
        · decide
        · split <;> decide
        · exact isNumberUnit_digits u hu

theorem toUnits_ne_nil (x : JsNumber) : x.toUnits ≠ [] := by
  cases x with
  | zero => decide
  | decimal negative digits exponent h =>
    cases negative with
    | false =>
      obtain ⟨d, text, hcons⟩ := head_toUnits h exponent
      simp [hcons]
    | true => exact List.cons_ne_nil _ _

theorem trim_of_not_space {text : List UInt16} (h : ∀ u ∈ text, isSpace u = false) :
    trim text = text := by
  have hdrop : text.dropWhile isSpace = text := by
    cases text with
    | nil => rfl
    | cons u text => exact List.dropWhile_cons_of_neg (by simp [h u List.mem_cons_self])
  rw [trim, hdrop, List.rdropWhile_eq_self_iff]
  intro hne
  simp [h _ (List.getLast_mem hne)]

theorem not_isSpace_of_isNumberUnit {u : UInt16} (h : isNumberUnit u = true) : isSpace u = false := by
  have hunits : ∀ u ∈ units "0123456789+-.e", isSpace u = false := by decide
  exact hunits u (of_decide_eq_true h)

theorem trim_toUnits (x : JsNumber) : trim x.toUnits = x.toUnits :=
  trim_of_not_space fun u hu => not_isSpace_of_isNumberUnit (isNumberUnit_toUnits x u hu)

theorem basePrefix?_toUnits (x : JsNumber) : basePrefix? x.toUnits = none := by
  have hletters : ∀ u ∈ units "0123456789+-.e", ¬(u = charUnit 'x' ∨ u = charUnit 'X') ∧
      ¬(u = charUnit 'o' ∨ u = charUnit 'O') ∧ ¬(u = charUnit 'b' ∨ u = charUnit 'B') := by
    decide
  have hunits := isNumberUnit_toUnits x
  unfold basePrefix?
  split
  · rename_i zero letter digits htext
    obtain ⟨hx, ho, hb⟩ := hletters letter (of_decide_eq_true (hunits letter (by simp [htext])))
    rw [if_neg hx, if_neg ho, if_neg hb, ite_self]
  · rfl

theorem readLoose_of_readNumber {text rest : List UInt16} {x : JsNumber}
    (h : readNumber text = some (x, rest)) : readLoose text = some (x, rest) := by
  simp only [readNumber] at h
  split at h
  · cases h
  · rename_i hdigits
    have hinteger : (readDigits text).1 ≠ [] := fun hnil => hdigits (.inl hnil)
    simp only [readLoose, List.append_eq_nil_iff, hinteger, false_and, if_false]
    exact h

theorem unsignedNumber_toUnits {digits : List (Fin 10)} (h : Canonical digits) (exponent : ℤ) :
    unsignedNumber (decimal false digits exponent h).toUnits =
      some (.finite (.decimal false digits exponent h)) := by
  obtain ⟨d, text, hcons⟩ := head_toUnits h exponent
  have hinfinity : (decimal false digits exponent h).toUnits ≠ units "Infinity" := by
    have hdigit : ∀ d : Fin 10, digitUnit d ≠ charUnit 'I' := by decide
    rw [hcons]
    exact fun heq => hdigit d (List.cons.inj heq).1
  have hnil : NumberEnds [] := by
    intro u hu
    cases hu
  have hread := readNumber_toUnits h exponent hnil.endsNumber
  rw [List.append_nil] at hread
  rw [unsignedNumber, if_neg hinfinity, readLoose_of_readNumber hread]

end JsNumber

/-- `Number(String(x))` is `x`. -/
theorem toNumber_toUnits (x : JsNumber) : toNumber x.toUnits = some (.finite x) := by
  have hprefix := JsNumber.basePrefix?_toUnits x
  rw [toNumber, JsNumber.trim_toUnits]
  cases x with
  | zero => rfl
  | decimal negative digits exponent h =>
    have hread := JsNumber.unsignedNumber_toUnits h exponent
    cases negative with
    | false =>
      obtain ⟨d, text, hcons⟩ := JsNumber.head_toUnits h exponent
      have hplus : ∀ d : Fin 10, digitUnit d ≠ charUnit '+' := by decide
      rw [hcons] at hprefix hread ⊢
      simp only [trimmedNumber, hprefix, if_neg (JsNumber.digitUnit_ne_minus d), if_neg (hplus d), hread]
    | true =>
      have hsign : (JsNumber.decimal true digits exponent h).toUnits =
          charUnit '-' :: (JsNumber.decimal false digits exponent h).toUnits := rfl
      rw [hsign] at hprefix ⊢
      simp only [trimmedNumber, hprefix, if_true, hread]
      rfl

end Lib
