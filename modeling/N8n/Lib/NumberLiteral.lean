import N8n.Lib.NumberOfString

/-!
# Number literals

A number literal is a text with a number as its value that begins with a digit or a point.
`Infinity` is a name, and no digit follows a zero at the beginning. Only digits, letters, points
and signs stand in one (`isNumberLiteralUnit_of_isNumberLiteral`).
-/

namespace Lib

open JsNumber

/-- The text of a number, without a sign. -/
def isNumberLiteral (word : List UInt16) : Bool :=
  (trimmedNumber word).isSome &&
    match word with
    | [] => false
    | u :: word => (digitOf? u).isSome && (u ≠ charUnit '0' || (word.head?.bind digitOf?).isNone) ||
      u = charUnit '.'

/-- What stands in a number literal. -/
def isNumberLiteralUnit (u : UInt16) : Bool :=
  (digitOf? u).isSome || 97 ≤ u.toNat && u.toNat ≤ 122 || 65 ≤ u.toNat && u.toNat ≤ 90 ||
    u ∈ units ".+-"

theorem isNumberLiteralUnit_of_digit {u : UInt16} (h : (digitOf? u).isSome = true) :
    isNumberLiteralUnit u = true := by
  simp [isNumberLiteralUnit, h]

theorem isNumberLiteralUnit_of_hexValue? {u : UInt16} {n : ℕ} (h : hexValue? u = some n) :
    isNumberLiteralUnit u = true := by
  unfold hexValue? at h
  split at h
  · rename_i hdigit
    exact isNumberLiteralUnit_of_digit (by simp [digitOf?, hdigit])
  · simp only [isNumberLiteralUnit, Bool.or_eq_true, Bool.and_eq_true, decide_eq_true_eq]
    split at h
    · omega
    · split at h
      · omega
      · cases h

/-! ## What is read is made of these units -/

variable {text : List UInt16}

theorem mem_readDigits :
    ∀ u ∈ text, isNumberLiteralUnit u = true ∨ u ∈ (readDigits text).2 := by
  induction text with
  | nil => exact List.forall_mem_nil _
  | cons u text ih =>
    rw [readDigits]
    cases hdigit : digitOf? u with
    | none => exact fun v hv => .inr hv
    | some d => exact List.forall_mem_cons.mpr ⟨.inl (isNumberLiteralUnit_of_digit (by simp [hdigit])), ih⟩

theorem mem_readFraction :
    ∀ u ∈ text, isNumberLiteralUnit u = true ∨ u ∈ (readFraction text).2 := by
  cases text with
  | nil => exact List.forall_mem_nil _
  | cons u text =>
    rw [readFraction]
    split
    · rename_i hu
      subst hu
      exact List.forall_mem_cons.mpr ⟨.inl (by decide), mem_readDigits⟩
    · exact fun v hv => .inr hv

theorem mem_readExponent {rest : List UInt16} {exponent : ℤ}
    (h : readExponent text = some (exponent, rest)) :
    ∀ u ∈ text, isNumberLiteralUnit u = true ∨ u ∈ rest := by
  cases text with
  | nil => exact List.forall_mem_nil _
  | cons u text =>
    simp only [readExponent] at h
    split at h
    · rename_i hu
      subst hu
      exact rest_of_exponent h ▸ List.forall_mem_cons.mpr ⟨.inl (by decide), mem_readDigits⟩
    · split at h
      · rename_i hu
        subst hu
        exact rest_of_exponent h ▸ List.forall_mem_cons.mpr ⟨.inl (by decide), mem_readDigits⟩
      · exact rest_of_exponent h ▸ mem_readDigits

theorem mem_readExponentPart {rest : List UInt16} {exponent : ℤ}
    (h : readExponentPart text = some (exponent, rest)) :
    ∀ u ∈ text, isNumberLiteralUnit u = true ∨ u ∈ rest := by
  cases text with
  | nil => exact List.forall_mem_nil _
  | cons u text =>
    rw [readExponentPart] at h
    split at h
    · rename_i hu
      refine List.forall_mem_cons.mpr ⟨.inl ?_, mem_readExponent h⟩
      rcases hu with rfl | rfl <;> decide
    · obtain ⟨-, rfl⟩ := Prod.mk.inj (Option.some.inj h)
      exact fun v hv => .inr hv

theorem mem_readLoose {rest : List UInt16} {x : JsNumber} (h : readLoose text = some (x, rest)) :
    ∀ u ∈ text, isNumberLiteralUnit u = true ∨ u ∈ rest := by
  simp only [readLoose] at h
  split at h
  · cases h
  · obtain ⟨⟨exponent, left⟩, hread, heq⟩ := Option.map_eq_some_iff.mp h
    obtain ⟨-, rfl⟩ := Prod.mk.inj heq
    intro u hu
    rcases mem_readDigits u hu with hu | hu
    · exact .inl hu
    · rcases mem_readFraction u hu with hu | hu
      · exact .inl hu
      · exact mem_readExponentPart hread u hu

theorem mem_readBase {base n : ℕ} (h : readBase base text = some n) :
    ∀ u ∈ text, isNumberLiteralUnit u = true := by
  have hfold : ∀ (text : List UInt16) (start : ℕ),
      (text.foldlM (fun n u => (hexValue? u).bind fun d =>
        if d < base then some (n * base + d) else none) start) = some n →
      ∀ u ∈ text, isNumberLiteralUnit u = true := by
    intro text
    induction text with
    | nil => exact fun _ _ => List.forall_mem_nil _
    | cons u text ih =>
      intro start h
      rw [List.foldlM_cons] at h
      obtain ⟨next, hnext, hrest⟩ := Option.bind_eq_some_iff.mp h
      obtain ⟨d, hd, -⟩ := Option.bind_eq_some_iff.mp hnext
      exact List.forall_mem_cons.mpr ⟨isNumberLiteralUnit_of_hexValue? hd, ih next hrest⟩
  unfold readBase at h
  split at h
  · cases h
  · exact hfold text 0 h

theorem mem_basePrefix? {base : ℕ} {digits : List UInt16}
    (h : basePrefix? text = some (base, digits)) :
    ∀ u ∈ text, isNumberLiteralUnit u = true ∨ u ∈ digits := by
  have hunits : ∀ u ∈ units "0xXoObB", isNumberLiteralUnit u = true := by decide
  unfold basePrefix? at h
  split at h
  · rename_i zero letter rest
    have hmem : zero ∈ units "0xXoObB" ∧ letter ∈ units "0xXoObB" ∧ rest = digits := by
      have hrest : ∀ {n : ℕ}, some (n, rest) = some (base, digits) → rest = digits :=
        fun h => (Prod.mk.inj (Option.some.inj h)).2
      split_ifs at h with hzero hhex hoctal hbinary
      · exact ⟨not_not.mp hzero ▸ by decide, by rcases hhex with rfl | rfl <;> decide, hrest h⟩
      · exact ⟨not_not.mp hzero ▸ by decide, by rcases hoctal with rfl | rfl <;> decide, hrest h⟩
      · exact ⟨not_not.mp hzero ▸ by decide, by rcases hbinary with rfl | rfl <;> decide, hrest h⟩
    obtain ⟨hzero, hletter, rfl⟩ := hmem
    exact List.forall_mem_cons.mpr ⟨.inl (hunits zero hzero),
      List.forall_mem_cons.mpr ⟨.inl (hunits letter hletter), fun u hu => .inr hu⟩⟩
  · cases h

theorem isNumberLiteralUnit_of_isNumberLiteral {word : List UInt16}
    (h : isNumberLiteral word = true) : ∀ u ∈ word, isNumberLiteralUnit u = true := by
  have hnames : ∀ u ∈ units "-+I", digitOf? u = none ∧ u ≠ charUnit '.' := by decide
  obtain ⟨hvalue, hhead⟩ := Bool.and_eq_true_iff.mp h
  cases word with
  | nil => exact List.forall_mem_nil _
  | cons u word =>
    -- neither a sign nor `Infinity`
    have hu : u ∉ units "-+I" := fun hmem => by
      obtain ⟨hdigit, hpoint⟩ := hnames u hmem
      simp [hdigit, hpoint] at hhead
    have hminus : u ≠ charUnit '-' := fun heq => hu (heq ▸ by decide)
    have hplus : u ≠ charUnit '+' := fun heq => hu (heq ▸ by decide)
    have hinfinity : u :: word ≠ units "Infinity" := fun heq => hu ((List.cons.inj heq).1 ▸ by decide)
    rw [trimmedNumber, if_neg hminus, if_neg hplus, unsignedNumber, if_neg hinfinity] at hvalue
    split at hvalue
    · rename_i base digits hprefix
      rw [Option.isSome_map] at hvalue
      obtain ⟨n, hn⟩ := Option.isSome_iff_exists.mp hvalue
      exact fun v hv => (mem_basePrefix? hprefix v hv).elim id (mem_readBase hn v)
    · split at hvalue
      · rename_i hread
        exact fun v hv => (mem_readLoose hread v hv).resolve_right List.not_mem_nil
      · cases hvalue

end Lib
