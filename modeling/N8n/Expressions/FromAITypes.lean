import N8n.Expressions.FromAIScan
import N8n.Lib.NumberLiteral

/-!
# Types spelled in quotes

A type in quotes may be spelled with escapes (`Spells`). `splitArguments` drops the backslashes and
keeps what comes after them, so the type is read as it is spelled exactly when no escape is made
of more than one unit or of a line break (`isFromAIArgumentType_dropEscapes`).
-/

open Lib

namespace N8n

/-! ## Values of quoted texts -/

/-- Before these a backslash is more than the escape of one unit by another. -/
def isCodeEscape (u : UInt16) : Bool :=
  (digitOf? u).isSome || u ∈ units "xu\n\r" || u = 0x2028 || u = 0x2029

/-- The code point `n` in code units. -/
def codePointUnits (n : ℕ) : JsString :=
  if n < 0x10000 then [UInt16.ofNat n]
  else [UInt16.ofNat (0xd800 + (n - 0x10000) / 0x400), UInt16.ofNat (0xdc00 + (n - 0x10000) % 0x400)]

/-- After a backslash, the unit and the text stand for the value. -/
inductive CodeEscape : UInt16 → JsString → JsString → Prop
  | hex {a b : UInt16} {n : ℕ} : readBase 16 [a, b] = some n →
      CodeEscape (codeUnit 'x') [a, b] [UInt16.ofNat n]
  | unicode {a b c d u : UInt16} : hexUnit? a b c d = some u →
      CodeEscape (codeUnit 'u') [a, b, c, d] [u]
  | codePoint {digits : JsString} {n : ℕ} : readBase 16 digits = some n → n ≤ 0x10ffff →
      CodeEscape (codeUnit 'u') (codeUnit '\x7b' :: (digits ++ [codeUnit '\x7d'])) (codePointUnits n)
  | octal {u : UInt16} {digits : JsString} {n : ℕ} : readBase 8 (u :: digits) = some n →
      digits.length ≤ 2 → n < 256 → CodeEscape u digits [UInt16.ofNat n]
  | decimal {u : UInt16} : u ∈ units "89" → CodeEscape u [] [u]
  | lineBreak {u : UInt16} : u ∈ [codeUnit '\n', codeUnit '\r', 0x2028, 0x2029] →
      CodeEscape u [] []
  | lineBreaks : CodeEscape (codeUnit '\r') [codeUnit '\n'] []

/-- The text between quotes has this value. An escape is as long as it can be. -/
inductive Spells : JsString → JsString → Prop
  | nil : Spells [] []
  | plain {u : UInt16} {s value : JsString} : u ≠ codeUnit '\\' → Spells s value →
      Spells (u :: s) (u :: value)
  | single {u : UInt16} {s value : JsString} : isCodeEscape u = false → Spells s value →
      Spells (codeUnit '\\' :: u :: s) (singleEscape u :: value)
  | code {u : UInt16} {text s value value' : JsString} : CodeEscape u text value →
      (∀ text' value', CodeEscape u text' value' → text' <+: text ++ s →
        text'.length ≤ text.length) →
      Spells s value' → Spells (codeUnit '\\' :: u :: (text ++ s)) (value ++ value')

/-- One of the escapes is more than the escape of one unit by another. -/
def hasCodeEscape : JsString → Bool
  | u :: v :: s =>
    if u = codeUnit '\\' then isCodeEscape v || hasCodeEscape s else hasCodeEscape (v :: s)
  | _ => false

theorem hasCodeEscape_plain {u : UInt16} (h : u ≠ codeUnit '\\') (s : JsString) :
    hasCodeEscape (u :: s) = hasCodeEscape s := by
  cases s with
  | nil => rfl
  | cons v s => rw [hasCodeEscape, if_neg h]

theorem hasCodeEscape_escaped (u : UInt16) (s : JsString) :
    hasCodeEscape (codeUnit '\\' :: u :: s) = (isCodeEscape u || hasCodeEscape s) := by
  rw [hasCodeEscape, if_pos rfl]

theorem spells_of_not_mem {s : JsString} (h : codeUnit '\\' ∉ s) : Spells s s := by
  induction s with
  | nil => exact .nil
  | cons u s ih =>
    rw [List.mem_cons, not_or] at h
    exact .plain (Ne.symm h.1) (ih h.2)

/-! ## Types -/

/-- The letters of the types. -/
def typeUnits : JsString := (["string", "number", "boolean", "json"].map units).flatten

def isTypeUnit (u : UInt16) : Bool := lowerUnit u ∈ typeUnits

theorem isTypeUnit_of_type {w : JsString} (h : isFromAIArgumentType w = true) :
    ∀ u ∈ w, isTypeUnit u = true := by
  intro u hu
  have hw : toLowerCase w ∈ ["string", "number", "boolean", "json"].map units := of_decide_eq_true h
  exact decide_eq_true (List.mem_flatten_of_mem hw (List.mem_map_of_mem hu))

theorem isTypeUnit_bounds {u : UInt16} (h : isTypeUnit u = true) :
    65 ≤ u.toNat ∧ u.toNat ≤ 122 := by
  have hletters : ∀ v ∈ typeUnits, 97 ≤ v.toNat ∧ v.toNat ≤ 122 := by decide
  have hletter := hletters _ (of_decide_eq_true h)
  unfold lowerUnit at hletter
  split at hletter
  · rename_i hupper
    omega
  · omega

theorem not_isTypeUnit_of_digit {u : UInt16} (h : u.toNat < 58) : isTypeUnit u = false := by
  by_contra htype
  have := isTypeUnit_bounds (Bool.eq_true_of_not_eq_false htype)
  omega

/-! ## Escapes of types -/

theorem hexValue?_lt {u : UInt16} {n : ℕ} (h : hexValue? u = some n) : n < 16 := by
  unfold hexValue? at h
  split_ifs at h <;> simp only [Option.some.injEq] at h <;> omega

theorem hexValue?_eq_zero {u : UInt16} (h : hexValue? u = some 0) : u.toNat = 48 := by
  unfold hexValue? at h
  split_ifs at h <;> simp only [Option.some.injEq] at h <;> omega

theorem hexUnit?_eq_some {a b c d u : UInt16} (h : hexUnit? a b c d = some u) :
    ∃ a' b' c' d', hexValue? a = some a' ∧ hexValue? b = some b' ∧ hexValue? c = some c' ∧
      hexValue? d = some d' ∧ u = UInt16.ofNat (((a' * 16 + b') * 16 + c') * 16 + d') := by
  obtain ⟨a', ha, h⟩ := Option.bind_eq_some_iff.mp h
  obtain ⟨b', hb, h⟩ := Option.bind_eq_some_iff.mp h
  obtain ⟨c', hc, h⟩ := Option.bind_eq_some_iff.mp h
  obtain ⟨d', hd, h⟩ := Option.bind_eq_some_iff.mp h
  exact ⟨a', b', c', d', ha, hb, hc, hd, (Option.some.inj h).symm⟩

/-- The first of four hexadecimal digits of a letter is a zero. -/
theorem head_of_hexUnit? {a b c d u : UInt16} (h : hexUnit? a b c d = some u)
    (hu : isTypeUnit u = true) : a.toNat = 48 := by
  obtain ⟨a', b', c', d', ha, hb, hc, hd, rfl⟩ := hexUnit?_eq_some h
  have hbounds := (isTypeUnit_bounds hu).2
  have hlt := hexValue?_lt ha
  have := hexValue?_lt hb
  have := hexValue?_lt hc
  have := hexValue?_lt hd
  rw [UInt16.toNat_ofNat'] at hbounds
  obtain rfl : a' = 0 := by omega
  exact hexValue?_eq_zero ha

/-- An octal number begins with a decimal digit. -/
theorem digit_of_readBase {u : UInt16} {digits : JsString} {n : ℕ}
    (h : readBase 8 (u :: digits) = some n) : 48 ≤ u.toNat ∧ u.toNat < 58 := by
  rw [readBase, if_neg (List.cons_ne_nil u digits), List.foldlM_cons] at h
  obtain ⟨next, hnext, -⟩ := Option.bind_eq_some_iff.mp h
  obtain ⟨d, hd, hlt⟩ := Option.bind_eq_some_iff.mp hnext
  have hd8 : d < 8 := by
    by_contra hge
    rw [if_neg hge] at hlt
    cases hlt
  unfold hexValue? at hd
  split_ifs at hd <;> simp only [Option.some.injEq] at hd <;> omega

theorem backslash_not_mem {s : JsString} (h : ∀ u ∈ s, isNumberLiteralUnit u = true) :
    codeUnit '\\' ∉ s := by
  intro hmem
  exact absurd (h _ hmem) (by decide)

namespace CodeEscape

variable {u : UInt16} {text value : JsString}

theorem isCodeEscape (h : CodeEscape u text value) : N8n.isCodeEscape u = true := by
  cases h with
  | hex _ => decide
  | unicode _ => decide
  | codePoint _ _ => decide
  | octal hread _ _ =>
    have hdigit : (digitOf? u).isSome = true := by simp [digitOf?, digit_of_readBase hread]
    simp [N8n.isCodeEscape, hdigit]
  | decimal hu =>
    have hdigits : ∀ u ∈ units "89", N8n.isCodeEscape u = true := by decide
    exact hdigits u hu
  | lineBreak hu =>
    have hbreaks : ∀ u ∈ [codeUnit '\n', codeUnit '\r', 0x2028, 0x2029],
        N8n.isCodeEscape u = true := by
      decide
    exact hbreaks u hu
  | lineBreaks => decide

theorem backslash_not_mem (h : CodeEscape u text value) : codeUnit '\\' ∉ text := by
  cases h with
  | hex hread => exact N8n.backslash_not_mem (mem_readBase hread)
  | unicode hread =>
    obtain ⟨a', b', c', d', ha, hb, hc, hd, -⟩ := hexUnit?_eq_some hread
    refine N8n.backslash_not_mem ?_
    simp only [List.forall_mem_cons]
    exact ⟨isNumberLiteralUnit_of_hexValue? ha, isNumberLiteralUnit_of_hexValue? hb,
      isNumberLiteralUnit_of_hexValue? hc, isNumberLiteralUnit_of_hexValue? hd, List.forall_mem_nil _⟩
  | codePoint hread _ =>
    have hdigits := N8n.backslash_not_mem (mem_readBase hread)
    have hopen : codeUnit '\\' ≠ codeUnit '\x7b' := by decide
    have hclose : codeUnit '\\' ≠ codeUnit '\x7d' := by decide
    simp [hdigits, hopen, hclose]
  | octal hread => exact fun hmem => N8n.backslash_not_mem (mem_readBase hread) (.tail _ hmem)
  | decimal _ => exact List.not_mem_nil
  | lineBreak _ => exact List.not_mem_nil
  | lineBreaks => decide

/-- Of the escape of a letter, something is left that is none. -/
theorem exists_not_isTypeUnit (h : CodeEscape u text value)
    (hvalue : ∀ v ∈ value, isTypeUnit v = true) : ∃ v ∈ u :: text, isTypeUnit v = false := by
  cases h with
  | hex _ => exact ⟨_, List.mem_cons_self, by decide⟩
  | @unicode a b c d v hread =>
    have ha := head_of_hexUnit? hread (hvalue v List.mem_cons_self)
    exact ⟨a, by simp, not_isTypeUnit_of_digit (by omega)⟩
  | codePoint _ _ => exact ⟨codeUnit '\x7b', by simp, by decide⟩
  | octal hread _ _ =>
    exact ⟨u, List.mem_cons_self, not_isTypeUnit_of_digit (digit_of_readBase hread).2⟩
  | decimal hu =>
    have hdigits : ∀ u ∈ units "89", isTypeUnit u = false := by decide
    exact ⟨u, List.mem_cons_self, hdigits u hu⟩
  | lineBreak hu =>
    have hbreaks : ∀ u ∈ [codeUnit '\n', codeUnit '\r', 0x2028, 0x2029], isTypeUnit u = false := by
      decide
    exact ⟨u, List.mem_cons_self, hbreaks u hu⟩
  | lineBreaks => exact ⟨_, List.mem_cons_self, by decide⟩

end CodeEscape

theorem dropEscapes_append {s : JsString} (h : codeUnit '\\' ∉ s) (t : JsString) :
    dropEscapes (s ++ t) = s ++ dropEscapes t := by
  induction s with
  | nil => rfl
  | cons u s ih =>
    rw [List.mem_cons, not_or] at h
    rw [List.cons_append, dropEscapes_plain (Ne.symm h.1), ih h.2, List.cons_append]

theorem singleEscape_of_isTypeUnit {u : UInt16} (h : isTypeUnit (singleEscape u) = true) :
    singleEscape u = u := by
  have hcontrol : ∀ e ∈ units "nrtbfv", isTypeUnit (singleEscape e) = false := by decide
  have hplain : u ∉ units "nrtbfv" := fun hu => by simp [hcontrol u hu] at h
  have hne : ∀ e ∈ units "nrtbfv", u ≠ e := by
    rintro e he rfl
    exact hplain he
  rw [singleEscape, if_neg (hne _ (by decide)), if_neg (hne _ (by decide)),
    if_neg (hne _ (by decide)), if_neg (hne _ (by decide)), if_neg (hne _ (by decide)),
    if_neg (hne _ (by decide))]

/-- What is left without the backslashes is the value when no escape is a code. -/
theorem Spells.dropEscapes_spec {s value : JsString} (h : Spells s value)
    (hvalue : ∀ u ∈ value, isTypeUnit u = true) :
    codeUnit '\\' ∉ dropEscapes s ∧
      (hasCodeEscape s = false → dropEscapes s = value) ∧
      (hasCodeEscape s = true → ∃ u ∈ dropEscapes s, isTypeUnit u = false) := by
  have hletter : isTypeUnit (codeUnit '\\') = false := by decide
  have hne : ∀ {u}, isTypeUnit u = true → codeUnit '\\' ≠ u := by
    rintro u hu rfl
    rw [hletter] at hu
    cases hu
  induction h with
  | nil => exact ⟨List.not_mem_nil, fun _ => rfl, fun h => by cases h⟩
  | @plain u s value hbackslash _ ih =>
    obtain ⟨hu, hvalue⟩ := List.forall_mem_cons.mp hvalue
    obtain ⟨hmem, hplain, hcode⟩ := ih hvalue
    rw [dropEscapes_plain hbackslash, hasCodeEscape_plain hbackslash]
    refine ⟨List.not_mem_cons_of_ne_of_not_mem (hne hu) hmem, fun h => by rw [hplain h], fun h => ?_⟩
    obtain ⟨v, hv, hnot⟩ := hcode h
    exact ⟨v, .tail _ hv, hnot⟩
  | @single u s value hsingle _ ih =>
    obtain ⟨hu, hvalue⟩ := List.forall_mem_cons.mp hvalue
    obtain ⟨hmem, hplain, hcode⟩ := ih hvalue
    have heq := singleEscape_of_isTypeUnit hu
    rw [heq] at hu ⊢
    rw [dropEscapes_escaped, hasCodeEscape_escaped, hsingle, Bool.false_or]
    refine ⟨List.not_mem_cons_of_ne_of_not_mem (hne hu) hmem, fun h => by rw [hplain h], fun h => ?_⟩
    obtain ⟨v, hv, hnot⟩ := hcode h
    exact ⟨v, .tail _ hv, hnot⟩
  | @code u text s value value' hescape _ _ ih =>
    obtain ⟨hvalue, hvalue'⟩ := List.forall_mem_append.mp hvalue
    obtain ⟨v, hv, hnot⟩ := hescape.exists_not_isTypeUnit hvalue
    have hu : codeUnit '\\' ≠ u := by
      rintro rfl
      exact absurd hescape.isCodeEscape (by decide)
    rw [dropEscapes_escaped, hasCodeEscape_escaped, hescape.isCodeEscape, Bool.true_or,
      dropEscapes_append hescape.backslash_not_mem, ← List.cons_append]
    refine ⟨?_, fun h => Bool.noConfusion h, fun _ => ⟨v, List.mem_append_left _ hv, hnot⟩⟩
    rw [List.mem_append, List.mem_cons, not_or, not_or]
    exact ⟨⟨hu, hescape.backslash_not_mem⟩, (ih hvalue').1⟩

theorem unescapeArg_of_not_mem {s : JsString} (h : codeUnit '\\' ∉ s) : unescapeArg s = s := by
  rw [unescapeArg_eq_self_iff]
  intro u _ hpart
  exact h (hpart.subset List.mem_cons_self)

/-- A type that is spelled in quotes is read as one exactly when no escape is a code. -/
theorem isFromAIArgumentType_dropEscapes {body w : JsString} (h : Spells body w)
    (hw : isFromAIArgumentType w = true) :
    isFromAIArgumentType (unescapeArg (dropEscapes body)) = !hasCodeEscape body := by
  obtain ⟨hmem, hplain, hcode⟩ := h.dropEscapes_spec (isTypeUnit_of_type hw)
  rw [unescapeArg_of_not_mem hmem]
  cases hescape : hasCodeEscape body with
  | false => rw [hplain hescape, hw, Bool.not_false]
  | true =>
    obtain ⟨u, hu, hnot⟩ := hcode hescape
    rw [Bool.not_true]
    by_contra htype
    have := isTypeUnit_of_type (Bool.eq_true_of_not_eq_false htype) u hu
    rw [hnot] at this
    cases this

end N8n
