import Mathlib.Data.List.DropRight
import Mathlib.Data.Nat.Digits.Defs
import Mathlib.Tactic.Ring

/-!
# Numbers as JavaScript prints and reads them

A finite number is told by its digits and the place of its decimal point : `decimal negative
digits exponent` is `± 0.d₁d₂… · 10 ^ exponent`, where neither the first nor the last digit is
zero. Each double is printed as the shortest decimal that is read as that double, so that the
doubles are among these numbers.

`readNumber_toUnits` : a number that is printed is read back.
-/

namespace Lib

/-- A character of the basic multilingual plane, as a code unit. -/
def charUnit (c : Char) : UInt16 := c.toNat.toUInt16

/-- A text of such characters. -/
def units (s : String) : List UInt16 := s.toList.map charUnit

/-- Texts are compared unit by unit. -/
instance lawfulBEqUnits : LawfulBEq (List UInt16) := inferInstance

/-- The small letter of a capital of the alphabet. -/
def lowerUnit (u : UInt16) : UInt16 := if 65 ≤ u.toNat ∧ u.toNat ≤ 90 then u + 32 else u

/-- What all units of a text have in common is decided by going through the text. -/
instance (priority := high) decidableForallUnits (text : List UInt16) (P : UInt16 → Prop)
    [DecidablePred P] : Decidable (∀ u ∈ text, P u) := List.decidableBAll P text

instance (priority := high) decidableForallUnit (unit : Option UInt16) (P : UInt16 → Prop)
    [DecidablePred P] : Decidable (∀ u ∈ unit, P u) :=
  Option.decidableForallMem unit

/-! ## Digits -/

def digitUnit (d : Fin 10) : UInt16 := UInt16.ofNat (48 + d)

def digitOf? (u : UInt16) : Option (Fin 10) :=
  if 48 ≤ u.toNat ∧ u.toNat < 58 then some (Fin.ofNat 10 (u.toNat - 48)) else none

@[simp] theorem digitOf?_digitUnit (d : Fin 10) : digitOf? (digitUnit d) = some d := by
  revert d
  decide

/-- The digits a text begins with, and what is left. -/
def readDigits : List UInt16 → List (Fin 10) × List UInt16
  | [] => ([], [])
  | u :: text =>
    match digitOf? u with
    | some d => (d :: (readDigits text).1, (readDigits text).2)
    | none => ([], u :: text)

variable {rest : List UInt16}

theorem readDigits_of_not_digit (h : rest.head?.bind digitOf? = none) :
    readDigits rest = ([], rest) := by
  cases rest with
  | nil => rfl
  | cons u rest =>
    have hu : digitOf? u = none := h
    simp only [readDigits, hu]

theorem readDigits_append (digits : List (Fin 10)) (h : rest.head?.bind digitOf? = none) :
    readDigits (digits.map digitUnit ++ rest) = (digits, rest) := by
  induction digits with
  | nil => exact readDigits_of_not_digit h
  | cons d digits ih =>
    rw [List.map_cons, List.cons_append, readDigits, digitOf?_digitUnit, ih]

/-- The decimal notation of a natural number. -/
def decimalDigits (n : ℕ) : List (Fin 10) := (Nat.digits 10 n).reverse.map (Fin.ofNat 10)

def digitsValue (digits : List (Fin 10)) : ℕ := digits.foldl (fun n (d : Fin 10) => 10 * n + d.val) 0

theorem digitsValue_decimalDigits (n : ℕ) : digitsValue (decimalDigits n) = n := by
  have hfold : ∀ l : List ℕ, (∀ d ∈ l, d < 10) →
      (l.map (Fin.ofNat 10)).foldr (fun d n => 10 * n + d.val) 0 = Nat.ofDigits 10 l := by
    intro l hl
    induction l with
    | nil => rfl
    | cons d l ih =>
      rw [List.map_cons, List.foldr_cons, ih fun d hd => hl d (List.mem_cons_of_mem _ hd),
        Nat.ofDigits_cons, Fin.val_ofNat, Nat.mod_eq_of_lt (hl d List.mem_cons_self)]
      ring
  rw [digitsValue, decimalDigits, List.map_reverse, List.foldl_reverse,
    hfold _ fun d hd => Nat.digits_lt_base (by decide) hd, Nat.ofDigits_digits]

theorem decimalDigits_ne_nil {n : ℕ} (h : n ≠ 0) : decimalDigits n ≠ [] := by
  simpa [decimalDigits] using Nat.digits_ne_nil_iff_ne_zero.mpr h

/-! ## Numbers -/

/-- Digits of which neither the first nor the last is zero. -/
structure Canonical (digits : List (Fin 10)) : Prop where
  ne_nil : digits ≠ []
  head : digits.head? ≠ some 0
  last : digits.getLast? ≠ some 0

inductive JsNumber where
  | zero
  | decimal (negative : Bool) (digits : List (Fin 10)) (exponent : ℤ) (canonical : Canonical digits)
  deriving DecidableEq

namespace JsNumber

/-- Without the zeros at both ends. -/
def strip (digits : List (Fin 10)) : List (Fin 10) := (digits.dropWhile (· = 0)).rdropWhile (· = 0)

variable {digits : List (Fin 10)}

theorem canonical_strip (h : strip digits ≠ []) :
    Canonical (strip digits) := by
  have hdrop : digits.dropWhile (· = 0) ≠ [] := by
    intro hnil
    exact h (by rw [strip, hnil, List.rdropWhile_nil])
  refine ⟨h, ?_, ?_⟩
  · have hprefix : strip digits <+: digits.dropWhile (· = 0) := List.rdropWhile_prefix _ _
    obtain ⟨t, ht⟩ := hprefix
    have hhead : (strip digits).head? = (digits.dropWhile (· = 0)).head? := by
      rw [← ht, List.head?_append_of_ne_nil _ h]
    have hne := List.head_dropWhile_not (fun d : Fin 10 => decide (d = 0)) hdrop
    rw [hhead, List.head?_eq_some_head hdrop]
    simpa using hne
  · have hne := List.rdropWhile_last_not (fun d : Fin 10 => decide (d = 0)) _ h
    rw [List.getLast?_eq_some_getLast h]
    exact fun hlast => hne (decide_eq_true (Option.some.inj hlast))

theorem dropWhile_padded (h : Canonical digits) (a b : ℕ) :
    (List.replicate a 0 ++ digits ++ List.replicate b 0).dropWhile (· = 0) =
      digits ++ List.replicate b 0 := by
  obtain ⟨d, digits, rfl⟩ := List.exists_cons_of_ne_nil h.ne_nil
  have hd : d ≠ 0 := fun hd => h.head (by rw [hd]; rfl)
  induction a with
  | zero => simp [hd]
  | succ a ih => simpa [List.replicate_succ] using ih

theorem strip_padded (h : Canonical digits) (a b : ℕ) :
    strip (List.replicate a 0 ++ digits ++ List.replicate b 0) = digits := by
  rw [strip, dropWhile_padded h]
  induction b with
  | zero =>
    rw [List.replicate_zero, List.append_nil, List.rdropWhile_eq_self_iff]
    intro hnil hlast
    exact h.last (by rw [List.getLast?_eq_some_getLast hnil, of_decide_eq_true hlast])
  | succ b ih =>
    rw [List.replicate_succ', ← List.append_assoc, List.rdropWhile_concat_pos _ _ _ (by simp), ih]

/-- The number `± 0.digits · 10 ^ exponent`. -/
def ofDecimal (negative : Bool) (digits : List (Fin 10)) (exponent : ℤ) : JsNumber :=
  if h : strip digits ≠ [] then
    .decimal negative (strip digits)
      (exponent - (digits.length - (digits.dropWhile (· = 0)).length)) (canonical_strip h)
  else .zero

theorem ofDecimal_padded {padded : List (Fin 10)} (h : Canonical digits) (negative : Bool)
    {a b : ℕ} {exponent place : ℤ}
    (hpadded : padded = List.replicate a 0 ++ digits ++ List.replicate b 0)
    (hplace : place = a + exponent) :
    ofDecimal negative padded place = .decimal negative digits exponent h := by
  subst hpadded hplace
  have hne : strip (List.replicate a 0 ++ digits ++ List.replicate b 0) ≠ [] := by
    rw [strip_padded h]
    exact h.ne_nil
  rw [ofDecimal, dif_pos hne]
  congr 1
  · exact strip_padded h a b
  · rw [dropWhile_padded h]
    simp only [List.length_append, List.length_replicate]
    omega

def neg : JsNumber → JsNumber
  | zero => zero
  | decimal negative digits exponent canonical => decimal (!negative) digits exponent canonical

/-! ## Printing -/

/-- The digits before and after the decimal point, and the exponent if one is printed. -/
def parts (digits : List (Fin 10)) (exponent : ℤ) :
    List (Fin 10) × List (Fin 10) × Option ℤ :=
  if digits.length ≤ exponent ∧ exponent ≤ 21 then
    (digits ++ List.replicate (exponent - digits.length).toNat 0, [], none)
  else if 0 < exponent ∧ exponent ≤ 21 then
    (digits.take exponent.toNat, digits.drop exponent.toNat, none)
  else if -6 < exponent ∧ exponent ≤ 0 then
    ([0], List.replicate (-exponent).toNat 0 ++ digits, none)
  else (digits.take 1, digits.drop 1, some (exponent - 1))

def exponentUnits (exponent : ℤ) : List UInt16 :=
  charUnit 'e' :: charUnit (if exponent < 0 then '-' else '+') ::
    (decimalDigits exponent.natAbs).map digitUnit

/-- `String(x)` -/
def toUnits : JsNumber → List UInt16
  | zero => units "0"
  | decimal negative digits exponent _ =>
    let (integer, fraction, exponent?) := parts digits exponent
    (if negative then units "-" else []) ++ integer.map digitUnit ++
      (if fraction = [] then [] else charUnit '.' :: fraction.map digitUnit) ++
      exponent?.elim [] exponentUnits

/-! ## Reading -/

/-- The exponent after `e`. -/
def readExponent (text : List UInt16) : Option (ℤ × List UInt16) :=
  let (negative, digits) :=
    match text with
    | u :: rest =>
      if u = charUnit '-' then (true, readDigits rest)
      else if u = charUnit '+' then (false, readDigits rest)
      else (false, readDigits text)
    | [] => (false, [], [])
  if digits.1 = [] then none
  else some (if negative then -(digitsValue digits.1 : ℤ) else digitsValue digits.1, digits.2)

/-- The digits after a decimal point, if there is one. -/
def readFraction : List UInt16 → List (Fin 10) × List UInt16
  | [] => ([], [])
  | u :: rest => if u = charUnit '.' then readDigits rest else ([], u :: rest)

/-- The exponent, if there is one. -/
def readExponentPart : List UInt16 → Option (ℤ × List UInt16)
  | [] => some (0, [])
  | u :: rest =>
    if u = charUnit 'e' ∨ u = charUnit 'E' then readExponent rest else some (0, u :: rest)

/-- A decimal literal, and what is left of the text. -/
def readNumber (text : List UInt16) : Option (JsNumber × List UInt16) :=
  let integer := readDigits text
  if integer.1 = [] ∨ integer.1.head? = some 0 ∧ integer.1 ≠ [0] then none
  else
    let fraction := readFraction integer.2
    (readExponentPart fraction.2).map fun exponent =>
      (ofDecimal false (integer.1 ++ fraction.1) (integer.1.length + exponent.1), exponent.2)

/-- A decimal literal after a sign. -/
def readSigned : List UInt16 → Option (JsNumber × List UInt16)
  | [] => none
  | u :: text =>
    if u = charUnit '-' then (readNumber text).map fun read => (read.1.neg, read.2)
    else readNumber (u :: text)

theorem readDigits_suffix (text : List UInt16) : (readDigits text).2 <:+ text := by
  induction text with
  | nil => exact List.suffix_refl _
  | cons u text ih =>
    rw [readDigits]
    split
    · exact ih.trans (List.suffix_cons u text)
    · exact List.suffix_refl _

theorem readFraction_suffix (text : List UInt16) : (readFraction text).2 <:+ text := by
  cases text with
  | nil => exact List.suffix_refl _
  | cons u text =>
    rw [readFraction]
    split
    · exact (readDigits_suffix text).trans (List.suffix_cons u text)
    · exact List.suffix_refl _

/-- What is left after the digits of an exponent. -/
theorem rest_of_exponent {digits : List (Fin 10) × List UInt16} {negative : Bool} {exponent : ℤ}
    (h : (if digits.1 = [] then none
      else some (if negative then -(digitsValue digits.1 : ℤ) else digitsValue digits.1, digits.2)) =
      some (exponent, rest)) : digits.2 = rest := by
  split at h
  · cases h
  · exact (Prod.mk.inj (Option.some.inj h)).2

variable {text : List UInt16}

theorem readExponent_suffix {exponent : ℤ} (h : readExponent text = some (exponent, rest)) :
    rest <:+ text := by
  cases text with
  | nil => cases h
  | cons u text =>
    have hsuffix := (readDigits_suffix text).trans (List.suffix_cons u text)
    simp only [readExponent] at h
    split at h
    · exact rest_of_exponent h ▸ hsuffix
    · split at h
      · exact rest_of_exponent h ▸ hsuffix
      · exact rest_of_exponent h ▸ readDigits_suffix (u :: text)

theorem readExponentPart_suffix {exponent : ℤ} (h : readExponentPart text = some (exponent, rest)) :
    rest <:+ text := by
  cases text with
  | nil =>
    obtain ⟨-, rfl⟩ := Prod.mk.inj (Option.some.inj h)
    exact List.suffix_refl _
  | cons u text =>
    rw [readExponentPart] at h
    split at h
    · exact (readExponent_suffix h).trans (List.suffix_cons u text)
    · obtain ⟨-, rfl⟩ := Prod.mk.inj (Option.some.inj h)
      exact List.suffix_refl _

theorem readNumber_suffix {x : JsNumber} (h : readNumber text = some (x, rest)) :
    rest <:+ text := by
  simp only [readNumber] at h
  split at h
  · cases h
  · obtain ⟨⟨exponent, left⟩, hread, heq⟩ := Option.map_eq_some_iff.mp h
    obtain ⟨-, rfl⟩ := Prod.mk.inj heq
    exact (readExponentPart_suffix hread).trans
      ((readFraction_suffix _).trans (readDigits_suffix text))

theorem readSigned_suffix {x : JsNumber} (h : readSigned text = some (x, rest)) :
    rest <:+ text := by
  cases text with
  | nil => cases h
  | cons u text =>
    rw [readSigned] at h
    split at h
    · obtain ⟨⟨y, left⟩, hread, heq⟩ := Option.map_eq_some_iff.mp h
      obtain ⟨-, rfl⟩ := Prod.mk.inj heq
      exact (readNumber_suffix hread).trans (List.suffix_cons u text)
    · exact readNumber_suffix h

/-- There is a decimal point without digits after it. -/
def barePoint (text : List UInt16) : Bool :=
  match (readDigits text).2 with
  | u :: rest => u = charUnit '.' && (readDigits rest).1 = []
  | [] => false

/-- The text after a minus sign. -/
def unsigned (text : List UInt16) : List UInt16 :=
  if text.head? = some (charUnit '-') then text.tail else text

/-- A decimal literal after a sign, in which digits follow a decimal point. -/
def readStrict (text : List UInt16) : Option (JsNumber × List UInt16) :=
  if barePoint (unsigned text) then none else readSigned text

theorem readStrict_suffix {x : JsNumber} (h : readStrict text = some (x, rest)) :
    rest <:+ text := by
  rw [readStrict] at h
  split at h
  · cases h
  · exact readSigned_suffix h

/-! ## Round trip -/

/-- The text goes on with something that is not part of a number. -/
def NumberEnds (text : List UInt16) : Prop :=
  ∀ u ∈ text.head?, digitOf? u = none ∧ u ≠ charUnit '.' ∧ u ≠ charUnit 'e' ∧ u ≠ charUnit 'E'

theorem head_digit_of_numberEnds (h : NumberEnds text) :
    text.head?.bind digitOf? = none := by
  cases hhead : text.head? with
  | none => rfl
  | some u => exact (h u hhead).1

/-- The text goes on with something that is not part of a number with such a fraction and such an
exponent. -/
structure EndsNumber (fraction : List (Fin 10)) (exponent? : Option ℤ) (text : List UInt16) :
    Prop where
  digit : text.head?.bind digitOf? = none
  letter : exponent? = none → ∀ u ∈ text.head?, u ≠ charUnit 'e' ∧ u ≠ charUnit 'E'
  point : fraction = [] → exponent? = none → ∀ u ∈ text.head?, u ≠ charUnit '.'

variable {exponent? : Option ℤ}

theorem NumberEnds.endsNumber (h : NumberEnds text) {fraction : List (Fin 10)} :
    EndsNumber fraction exponent? text where
  digit := head_digit_of_numberEnds h
  letter _ u hu := (h u hu).2.2
  point _ _ u hu := (h u hu).2.1

theorem parts_spec (h : Canonical digits) (negative : Bool) (exponent : ℤ) :
    (parts digits exponent).1 ≠ [] ∧
      ¬((parts digits exponent).1.head? = some 0 ∧ (parts digits exponent).1 ≠ [0]) ∧
      (parts digits exponent).2.2 ≠ some 0 ∧
      ofDecimal negative ((parts digits exponent).1 ++ (parts digits exponent).2.1)
        ((parts digits exponent).1.length + (parts digits exponent).2.2.getD 0) =
        .decimal negative digits exponent h := by
  have hpos : 0 < digits.length := List.length_pos_iff.mpr h.ne_nil
  unfold parts
  split
  · rename_i hlarge
    refine ⟨by simp [h.ne_nil], ?_, by simp, ofDecimal_padded h negative (a := 0)
      (b := (exponent - digits.length).toNat) (by simp) ?_⟩
    · rw [List.head?_append_of_ne_nil _ h.ne_nil]
      exact fun hzero => h.head hzero.1
    · simp only [List.length_append, List.length_replicate, Option.getD_none]
      omega
  · split
    · rename_i hlarge hmiddle
      have hplace : exponent.toNat ≠ 0 := by omega
      have hlength : (digits.take exponent.toNat).length = exponent.toNat := by
        rw [List.length_take]
        omega
      refine ⟨?_, ?_, by simp, ofDecimal_padded h negative (a := 0) (b := 0) (by simp) ?_⟩
      · exact fun hnil => (List.take_eq_nil_iff.mp hnil).elim hplace h.ne_nil
      · rw [List.head?_take, if_neg hplace]
        exact fun hzero => h.head hzero.1
      · simp only [hlength, Option.getD_none]
        omega
    · split
      · refine ⟨by simp, by simp, by simp, ofDecimal_padded h negative
          (a := (-exponent).toNat + 1) (b := 0) (by simp [List.replicate_succ]) ?_⟩
        simp only [List.length_singleton, Option.getD_none]
        omega
      · refine ⟨?_, ?_, ?_, ofDecimal_padded h negative (a := 0) (b := 0)
          (by rw [List.take_append_drop]; simp) ?_⟩
        · exact fun hnil => (List.take_eq_nil_iff.mp hnil).elim one_ne_zero h.ne_nil
        · rw [List.head?_take, if_neg one_ne_zero]
          exact fun hzero => h.head hzero.1
        · simp only [ne_eq, Option.some.injEq]
          omega
        · simp only [List.length_take, Option.getD_some]
          omega

theorem readExponent_exponentUnits {exponent : ℤ} (h : exponent ≠ 0)
    (hrest : rest.head?.bind digitOf? = none) :
    readExponent ((exponentUnits exponent).tail ++ rest) = some (exponent, rest) := by
  have hdigits : decimalDigits exponent.natAbs ≠ [] := decimalDigits_ne_nil (Int.natAbs_ne_zero.mpr h)
  have hread := readDigits_append (decimalDigits exponent.natAbs) hrest
  by_cases hneg : exponent < 0
  · simp only [exponentUnits, List.tail_cons, List.cons_append, if_pos hneg, readExponent, if_true,
      hread, if_neg hdigits, digitsValue_decimalDigits]
    rw [show -(exponent.natAbs : ℤ) = exponent by omega]
  · have hsign : charUnit '+' ≠ charUnit '-' := by decide
    simp only [exponentUnits, List.tail_cons, List.cons_append, if_neg hneg, readExponent, if_true,
      if_neg hsign, hread, if_neg hdigits, digitsValue_decimalDigits]
    rw [show (exponent.natAbs : ℤ) = exponent by omega]
    rfl

theorem readFraction_append (fraction : List (Fin 10)) (hdigit : rest.head?.bind digitOf? = none)
    (hpoint : fraction = [] → ∀ u ∈ rest.head?, u ≠ charUnit '.') :
    readFraction ((if fraction = [] then [] else charUnit '.' :: fraction.map digitUnit) ++ rest) =
      (fraction, rest) := by
  split
  · rename_i hnil
    subst hnil
    cases rest with
    | nil => rfl
    | cons u rest => rw [List.nil_append, readFraction, if_neg (hpoint rfl u rfl)]
  · rw [List.cons_append, readFraction, if_pos rfl, readDigits_append fraction hdigit]

theorem readExponentPart_append (h : exponent? ≠ some 0) {fraction : List (Fin 10)}
    (hrest : EndsNumber fraction exponent? rest) :
    readExponentPart (exponent?.elim [] exponentUnits ++ rest) = some (exponent?.getD 0, rest) := by
  cases exponent? with
  | none =>
    cases rest with
    | nil => rfl
    | cons u rest =>
      exact if_neg (not_or.mpr (hrest.letter rfl u rfl))
  | some exponent =>
    have hne : exponent ≠ 0 := fun hzero => h (congrArg some hzero)
    have hread := readExponent_exponentUnits hne hrest.digit
    rw [Option.elim_some, exponentUnits, List.cons_append, readExponentPart, if_pos (.inl rfl)]
    exact hread

theorem head_digit_of_exponent {fraction : List (Fin 10)}
    (hrest : EndsNumber fraction exponent? rest) :
    (exponent?.elim [] exponentUnits ++ rest).head?.bind digitOf? = none := by
  cases exponent? with
  | none => exact hrest.digit
  | some exponent => exact (by decide : digitOf? (charUnit 'e') = none)

theorem head_point_of_exponent (hrest : EndsNumber [] exponent? rest) :
    ∀ u ∈ (exponent?.elim [] exponentUnits ++ rest).head?, u ≠ charUnit '.' := by
  cases exponent? with
  | none => exact hrest.point rfl rfl
  | some exponent =>
    intro u hu
    obtain rfl := Option.some.inj hu
    decide

/-- The text of the parts of a number, read again. -/
theorem readNumber_parts {integer : List (Fin 10)} (fraction : List (Fin 10))
    (exponent? : Option ℤ) (hinteger : integer ≠ [])
    (hzero : ¬(integer.head? = some 0 ∧ integer ≠ [0])) (hexponent : exponent? ≠ some 0)
    (hrest : EndsNumber fraction exponent? rest) :
    readNumber (integer.map digitUnit ++
      ((if fraction = [] then [] else charUnit '.' :: fraction.map digitUnit) ++
        (exponent?.elim [] exponentUnits ++ rest))) =
      some (ofDecimal false (integer ++ fraction) (integer.length + exponent?.getD 0), rest) := by
  have hdigit := head_digit_of_exponent hrest
  have hpoint : fraction = [] →
      ∀ u ∈ (exponent?.elim [] exponentUnits ++ rest).head?, u ≠ charUnit '.' := by
    rintro rfl
    exact head_point_of_exponent hrest
  have hdigit' : ((if fraction = [] then [] else charUnit '.' :: fraction.map digitUnit) ++
      (exponent?.elim [] exponentUnits ++ rest)).head?.bind digitOf? = none := by
    split
    · exact hdigit
    · exact (by decide : digitOf? (charUnit '.') = none)
  simp only [readNumber, readDigits_append integer hdigit', readFraction_append fraction hdigit hpoint,
    readExponentPart_append hexponent hrest, if_neg (not_or.mpr ⟨hinteger, hzero⟩), Option.map_some]

/-- A number without a sign that is printed is read back. -/
theorem readNumber_toUnits (h : Canonical digits) (exponent : ℤ)
    (hrest : EndsNumber (parts digits exponent).2.1 (parts digits exponent).2.2 rest) :
    readNumber ((decimal false digits exponent h).toUnits ++ rest) =
      some (.decimal false digits exponent h, rest) := by
  obtain ⟨hinteger, hzero, hexponent, hvalue⟩ := parts_spec h false exponent
  have hread := readNumber_parts (parts digits exponent).2.1 _ hinteger hzero hexponent hrest
  rw [hvalue] at hread
  simpa [toUnits] using hread

theorem head_toUnits (h : Canonical digits) (exponent : ℤ) :
    ∃ d text, (decimal false digits exponent h).toUnits = digitUnit d :: text := by
  obtain ⟨hinteger, -, -, -⟩ := parts_spec h false exponent
  obtain ⟨d, integer, hcons⟩ := List.exists_cons_of_ne_nil hinteger
  simp only [toUnits, hcons]
  exact ⟨d, _, rfl⟩

/-- A number is printed with a digit first, or a minus. -/
theorem head_toUnits_of {p : UInt16 → Prop} (hdigit : ∀ d : Fin 10, p (digitUnit d))
    (hminus : p (charUnit '-')) (x : JsNumber) : ∃ u tail, x.toUnits = u :: tail ∧ p u := by
  cases x with
  | zero => exact ⟨digitUnit 0, [], rfl, hdigit 0⟩
  | decimal negative digits exponent h =>
    cases negative with
    | false =>
      obtain ⟨d, tail, hcons⟩ := head_toUnits h exponent
      exact ⟨digitUnit d, tail, hcons, hdigit d⟩
    | true => exact ⟨charUnit '-', _, rfl, hminus⟩

theorem digitUnit_ne_minus (d : Fin 10) : digitUnit d ≠ charUnit '-' := by
  revert d
  decide

/-- A number that is printed is read back. -/
theorem readSigned_toUnits (x : JsNumber) (hrest : NumberEnds rest) :
    readSigned (x.toUnits ++ rest) = some (x, rest) := by
  cases x with
  | zero =>
    have hread : readNumber (units "0" ++ rest) = some (ofDecimal false ([0] ++ []) (1 + 0), rest) :=
      readNumber_parts [] none (List.cons_ne_nil 0 []) (by simp) (by simp) hrest.endsNumber
    exact hread
  | decimal negative digits exponent h =>
    have hread := readNumber_toUnits h exponent hrest.endsNumber
    cases negative with
    | false =>
      obtain ⟨d, text, hcons⟩ := head_toUnits h exponent
      rw [hcons, List.cons_append, readSigned, if_neg (digitUnit_ne_minus d), ← List.cons_append, ← hcons]
      exact hread
    | true =>
      have hsign : (decimal true digits exponent h).toUnits =
          charUnit '-' :: (decimal false digits exponent h).toUnits := rfl
      rw [hsign, List.cons_append, readSigned, if_pos rfl, hread]
      rfl

theorem barePoint_parts (integer fraction : List (Fin 10)) (exponent? : Option ℤ)
    (hrest : NumberEnds rest) :
    barePoint (integer.map digitUnit ++
      ((if fraction = [] then [] else charUnit '.' :: fraction.map digitUnit) ++
        (exponent?.elim [] exponentUnits ++ rest))) = false := by
  have hdigit := head_digit_of_exponent (hrest.endsNumber : EndsNumber fraction exponent? rest)
  by_cases hfraction : fraction = []
  · rw [if_pos hfraction, List.nil_append, barePoint, readDigits_append integer hdigit]
    cases hhead : exponent?.elim [] exponentUnits ++ rest with
    | nil => rfl
    | cons u tail =>
      have hpoint : u ≠ charUnit '.' := head_point_of_exponent hrest.endsNumber u (by rw [hhead]; rfl)
      exact Bool.and_eq_false_iff.mpr (.inl (decide_eq_false hpoint))
  · have hpoint : (charUnit '.' :: (fraction.map digitUnit ++
        (exponent?.elim [] exponentUnits ++ rest))).head?.bind digitOf? = none :=
      (by decide : digitOf? (charUnit '.') = none)
    rw [if_neg hfraction, List.cons_append, barePoint, readDigits_append integer hpoint]
    refine Bool.and_eq_false_iff.mpr (.inr (decide_eq_false ?_))
    rwa [readDigits_append fraction hdigit]

theorem barePoint_toUnits (h : Canonical digits) (exponent : ℤ) (hrest : NumberEnds rest) :
    barePoint ((decimal false digits exponent h).toUnits ++ rest) = false := by
  have hparts := barePoint_parts (parts digits exponent).1 (parts digits exponent).2.1
    (parts digits exponent).2.2 hrest
  simpa [toUnits] using hparts

theorem readStrict_toUnits (x : JsNumber) (hrest : NumberEnds rest) :
    readStrict (x.toUnits ++ rest) = some (x, rest) := by
  have hpoint : barePoint (unsigned (x.toUnits ++ rest)) = false := by
    cases x with
    | zero =>
      exact barePoint_parts [0] [] none hrest
    | decimal negative digits exponent h =>
      cases negative with
      | false =>
        obtain ⟨d, text, hcons⟩ := head_toUnits h exponent
        have hbare := barePoint_toUnits h exponent hrest
        rw [hcons, List.cons_append] at hbare ⊢
        have hsign : ¬(digitUnit d :: (text ++ rest)).head? = some (charUnit '-') :=
          fun hsign => digitUnit_ne_minus d (Option.some.inj hsign)
        rw [unsigned, if_neg hsign]
        exact hbare
      | true => exact barePoint_toUnits h exponent hrest
  rw [readStrict, hpoint]
  exact readSigned_toUnits x hrest

end JsNumber
end Lib
