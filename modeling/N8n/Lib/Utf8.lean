import N8n.Lib.JsonText

/-!
# UTF-8

The encoder and the decoder of the Encoding Standard, between the code units of a string and
bytes. The encoder replaces lone surrogates, the decoder replaces what is malformed, and it leaves
out a byte order mark at the beginning.

`decode_encode_eq_iff` : the decoder gives back the string that was encoded if and only if the
string is well formed and does not begin with a byte order mark.
-/

namespace Lib
namespace Utf8

open JsonText (isHighSurrogate isLowSurrogate)

/-! ## Code points -/

/-- U+FFFD -/
def replacement : ℕ := 0xfffd

/-- U+FEFF -/
def byteOrderMark : ℕ := 0xfeff

/-- A code point that is no surrogate. -/
def IsScalar (c : ℕ) : Prop := c < 0xd800 ∨ 0xe000 ≤ c ∧ c < 0x110000

def isSurrogate (u : UInt16) : Bool := isHighSurrogate u || isLowSurrogate u

/-- The code point of a unit that is not half of a pair of surrogates. -/
def ofUnit (u : UInt16) : ℕ := if isSurrogate u then replacement else u.toNat

/-- The code point of a pair of surrogates. -/
def ofPair (u v : UInt16) : ℕ := 0x10000 + (u.toNat - 0xd800) * 0x400 + (v.toNat - 0xdc00)

/-- The code points of a string, with lone surrogates replaced. -/
def scalars : List UInt16 → List ℕ
  | [] => []
  | [u] => [ofUnit u]
  | u :: v :: s =>
    if isHighSurrogate u = true ∧ isLowSurrogate v = true then ofPair u v :: scalars s
    else ofUnit u :: scalars (v :: s)

/-- The code units of a code point. -/
def toUnits (c : ℕ) : List UInt16 :=
  if c < 0x10000 then [UInt16.ofNat c]
  else [UInt16.ofNat (0xd800 + (c - 0x10000) / 0x400), UInt16.ofNat (0xdc00 + (c - 0x10000) % 0x400)]

/-- There are no lone surrogates. -/
def isWellFormed : List UInt16 → Bool
  | [] => true
  | [u] => !isSurrogate u
  | u :: v :: s =>
    if isHighSurrogate u = true ∧ isLowSurrogate v = true then isWellFormed s
    else !isSurrogate u && isWellFormed (v :: s)

/-! ## Bytes -/

/-- A continuation byte with the last six bits. -/
def tailByte (c : ℕ) : UInt8 := UInt8.ofNat (0x80 + c % 0x40)

/-- The bytes of a code point. -/
def encodeScalar (c : ℕ) : List UInt8 :=
  if c < 0x80 then [UInt8.ofNat c]
  else if c < 0x800 then [UInt8.ofNat (0xc0 + c / 0x40), tailByte c]
  else if c < 0x10000 then [UInt8.ofNat (0xe0 + c / 0x1000), tailByte (c / 0x40), tailByte c]
  else [UInt8.ofNat (0xf0 + c / 0x40000), tailByte (c / 0x1000), tailByte (c / 0x40), tailByte c]

/-- `new TextEncoder().encode(s)` -/
def encode (s : List UInt16) : List UInt8 := (scalars s).flatMap encodeScalar

structure Decoder where
  codePoint : ℕ := 0
  bytesNeeded : ℕ := 0
  bytesSeen : ℕ := 0
  lowerBoundary : ℕ := 0x80
  upperBoundary : ℕ := 0xbf

/-- The first byte of a code point. -/
def first (byte : ℕ) : Decoder × List ℕ :=
  if byte < 0x80 then ({}, [byte])
  else if 0xc2 ≤ byte ∧ byte ≤ 0xdf then ({ codePoint := byte % 0x20, bytesNeeded := 1 }, [])
  else if 0xe0 ≤ byte ∧ byte ≤ 0xef then
    ({ codePoint := byte % 0x10
       bytesNeeded := 2
       lowerBoundary := if byte = 0xe0 then 0xa0 else 0x80
       upperBoundary := if byte = 0xed then 0x9f else 0xbf }, [])
  else if 0xf0 ≤ byte ∧ byte ≤ 0xf4 then
    ({ codePoint := byte % 8
       bytesNeeded := 3
       lowerBoundary := if byte = 0xf0 then 0x90 else 0x80
       upperBoundary := if byte = 0xf4 then 0x8f else 0xbf }, [])
  else ({}, [replacement])

/-- One byte. A byte that does not continue the code point is looked at again as a first one. -/
def step (decoder : Decoder) (byte : ℕ) : Decoder × List ℕ :=
  if decoder.bytesNeeded = 0 then first byte
  else if byte < decoder.lowerBoundary ∨ decoder.upperBoundary < byte then
    ((first byte).1, replacement :: (first byte).2)
  else if decoder.bytesSeen + 1 = decoder.bytesNeeded then
    ({}, [decoder.codePoint * 0x40 + byte % 0x40])
  else ({ codePoint := decoder.codePoint * 0x40 + byte % 0x40
          bytesNeeded := decoder.bytesNeeded
          bytesSeen := decoder.bytesSeen + 1 }, [])

def decodeFrom : Decoder → List UInt8 → List ℕ
  | decoder, [] => if decoder.bytesNeeded = 0 then [] else [replacement]
  | decoder, byte :: bytes =>
    (step decoder byte.toNat).2 ++ decodeFrom (step decoder byte.toNat).1 bytes

/-- A byte order mark at the beginning is left out. -/
def skipMark (cs : List ℕ) : List ℕ := if cs.head? = some byteOrderMark then cs.tail else cs

/-- `new TextDecoder().decode(bytes)` -/
def decode (bytes : List UInt8) : List UInt16 := (skipMark (decodeFrom {} bytes)).flatMap toUnits

/-! ## Decoding what was encoded -/

theorem toNat_tailByte (c : ℕ) : (tailByte c).toNat = 0x80 + c % 0x40 := by
  rw [tailByte, UInt8.toNat_ofNat']
  omega

section Decoder

variable {decoder : Decoder} {bytes : List UInt8} {c : ℕ}

/-- The last byte of a code point. -/
theorem decodeFrom_tailByte_last (hlast : decoder.bytesNeeded = decoder.bytesSeen + 1)
    (hlower : decoder.lowerBoundary ≤ 0x80 + c % 0x40)
    (hupper : 0x80 + c % 0x40 ≤ decoder.upperBoundary) :
    decodeFrom decoder (tailByte c :: bytes) =
      (decoder.codePoint * 0x40 + c % 0x40) :: decodeFrom {} bytes := by
  have hmod : (0x80 + c % 0x40) % 0x40 = c % 0x40 := by omega
  rw [decodeFrom, toNat_tailByte, step, if_neg (by omega), if_neg (by omega), if_pos hlast.symm, hmod]
  rfl

/-- A byte in the middle of a code point. -/
theorem decodeFrom_tailByte_more (hmore : decoder.bytesSeen + 1 < decoder.bytesNeeded)
    (hlower : decoder.lowerBoundary ≤ 0x80 + c % 0x40)
    (hupper : 0x80 + c % 0x40 ≤ decoder.upperBoundary) :
    decodeFrom decoder (tailByte c :: bytes) =
      decodeFrom { codePoint := decoder.codePoint * 0x40 + c % 0x40
                   bytesNeeded := decoder.bytesNeeded
                   bytesSeen := decoder.bytesSeen + 1 } bytes := by
  have hmod : (0x80 + c % 0x40) % 0x40 = c % 0x40 := by omega
  rw [decodeFrom, toNat_tailByte, step, if_neg (by omega), if_neg (by omega), if_neg (by omega), hmod]
  rfl

theorem decodeFrom_first {n : ℕ} (hn : n < 256) :
    decodeFrom {} (UInt8.ofNat n :: bytes) = (first n).2 ++ decodeFrom (first n).1 bytes := by
  rw [decodeFrom, UInt8.toNat_ofNat', Nat.mod_eq_of_lt hn, step, if_pos rfl]

end Decoder

theorem first_one {n : ℕ} (h : n < 0x80) : first n = ({}, [n]) := if_pos h

theorem first_two {n : ℕ} (hlow : 2 ≤ n) (hhigh : n < 0x20) :
    first (0xc0 + n) = ({ codePoint := n, bytesNeeded := 1 }, []) := by
  have hmod : (0xc0 + n) % 0x20 = n := by omega
  rw [first, if_neg (by omega), if_pos (by omega), hmod]

theorem first_three {n : ℕ} (hhigh : n < 0x10) :
    first (0xe0 + n) =
      ({ codePoint := n
         bytesNeeded := 2
         lowerBoundary := if n = 0 then 0xa0 else 0x80
         upperBoundary := if n = 0xd then 0x9f else 0xbf }, []) := by
  have hmod : (0xe0 + n) % 0x10 = n := by omega
  have hlower : 0xe0 + n = 0xe0 ↔ n = 0 := by omega
  have hupper : 0xe0 + n = 0xed ↔ n = 0xd := by omega
  rw [first, if_neg (by omega), if_neg (by omega), if_pos (by omega), hmod]
  simp only [hlower, hupper]

theorem first_four {n : ℕ} (hhigh : n ≤ 4) :
    first (0xf0 + n) =
      ({ codePoint := n
         bytesNeeded := 3
         lowerBoundary := if n = 0 then 0x90 else 0x80
         upperBoundary := if n = 4 then 0x8f else 0xbf }, []) := by
  have hmod : (0xf0 + n) % 8 = n := by omega
  have hlower : 0xf0 + n = 0xf0 ↔ n = 0 := by omega
  have hupper : 0xf0 + n = 0xf4 ↔ n = 4 := by omega
  rw [first, if_neg (by omega), if_neg (by omega), if_neg (by omega), if_pos (by omega), hmod]
  simp only [hlower, hupper]

/-- The bytes of a code point are decoded to it, whatever follows. -/
theorem decodeFrom_encodeScalar {c : ℕ} (h : IsScalar c) (bytes : List UInt8) :
    decodeFrom {} (encodeScalar c ++ bytes) = c :: decodeFrom {} bytes := by
  unfold IsScalar at h
  unfold encodeScalar
  split_ifs with h₁ h₂ h₃
  · rw [List.singleton_append, decodeFrom_first (by omega), first_one h₁]
    rfl
  · rw [List.cons_append, List.singleton_append, decodeFrom_first (by omega),
      first_two (by omega) (by omega)]
    dsimp only
    rw [List.nil_append, decodeFrom_tailByte_last rfl (by dsimp only; omega) (by dsimp only; omega)]
    dsimp only
    congr 1
    omega
  · rw [List.cons_append, List.cons_append, List.singleton_append, decodeFrom_first (by omega),
      first_three (by omega)]
    dsimp only
    rw [List.nil_append, decodeFrom_tailByte_more (by dsimp only; omega)
        (by dsimp only; split_ifs <;> omega) (by dsimp only; split_ifs <;> omega),
      decodeFrom_tailByte_last rfl (by dsimp only; omega) (by dsimp only; omega)]
    dsimp only
    congr 1
    omega
  · rw [List.cons_append, List.cons_append, List.cons_append, List.singleton_append,
      decodeFrom_first (by omega), first_four (by omega)]
    dsimp only
    rw [List.nil_append, decodeFrom_tailByte_more (by dsimp only; omega)
        (by dsimp only; split_ifs <;> omega) (by dsimp only; split_ifs <;> omega),
      decodeFrom_tailByte_more (by dsimp only; omega) (by dsimp only; omega) (by dsimp only; omega),
      decodeFrom_tailByte_last rfl (by dsimp only; omega) (by dsimp only; omega)]
    dsimp only
    congr 1
    omega

theorem decodeFrom_flatMap_encodeScalar {cs : List ℕ} (h : ∀ c ∈ cs, IsScalar c) :
    decodeFrom {} (cs.flatMap encodeScalar) = cs := by
  induction cs with
  | nil => rfl
  | cons c cs ih =>
    rw [List.flatMap_cons, decodeFrom_encodeScalar (h c List.mem_cons_self),
      ih fun d hd => h d (List.mem_cons_of_mem c hd)]

/-! ## Strings -/

theorem isSurrogate_iff {u : UInt16} : isSurrogate u = true ↔ 0xd800 ≤ u.toNat ∧ u.toNat < 0xe000 := by
  simp only [isSurrogate, isHighSurrogate, isLowSurrogate, Bool.or_eq_true, Bool.and_eq_true,
    decide_eq_true_eq]
  omega

theorem pair_iff {u v : UInt16} : isHighSurrogate u = true ∧ isLowSurrogate v = true ↔
    (0xd800 ≤ u.toNat ∧ u.toNat < 0xdc00) ∧ 0xdc00 ≤ v.toNat ∧ v.toNat < 0xe000 := by
  simp only [isHighSurrogate, isLowSurrogate, Bool.and_eq_true, decide_eq_true_eq]

theorem isScalar_ofUnit (u : UInt16) : IsScalar (ofUnit u) := by
  have hlt := u.toNat_lt
  unfold ofUnit IsScalar replacement
  split_ifs with h
  · omega
  · rw [isSurrogate_iff] at h
    omega

theorem isScalar_ofPair {u v : UInt16} (h : isHighSurrogate u = true ∧ isLowSurrogate v = true) :
    IsScalar (ofPair u v) := by
  rw [pair_iff] at h
  have hlow : 0xe000 ≤ ofPair u v := by
    unfold ofPair
    omega
  have hhigh : ofPair u v < 0x110000 := by
    unfold ofPair
    omega
  exact Or.inr ⟨hlow, hhigh⟩

theorem isScalar_of_mem_scalars {c : ℕ} {s : List UInt16} (h : c ∈ scalars s) : IsScalar c := by
  fun_induction scalars s with
  | case1 => cases h
  | case2 u =>
    rw [List.mem_singleton.mp h]
    exact isScalar_ofUnit u
  | case3 u v s hpair ih =>
    rcases List.mem_cons.mp h with heq | h
    · rw [heq]
      exact isScalar_ofPair hpair
    · exact ih h
  | case4 u v s hpair ih =>
    rcases List.mem_cons.mp h with rfl | h
    · exact isScalar_ofUnit u
    · exact ih h

/-- The string with lone surrogates replaced. -/
def toWellFormed (s : List UInt16) : List UInt16 := (scalars s).flatMap toUnits

/-- The unit, replaced if it is a surrogate. -/
def replaceLone (u : UInt16) : UInt16 := if isSurrogate u then UInt16.ofNat replacement else u

theorem toUnits_ofUnit (u : UInt16) : toUnits (ofUnit u) = [replaceLone u] := by
  have hlt := u.toNat_lt
  unfold ofUnit replaceLone
  split_ifs
  · rfl
  · rw [toUnits, if_pos hlt, UInt16.ofNat_toNat]

theorem toUnits_ofPair {u v : UInt16} (h : isHighSurrogate u = true ∧ isLowSurrogate v = true) :
    toUnits (ofPair u v) = [u, v] := by
  rw [pair_iff] at h
  have hhigh : 0xd800 + (ofPair u v - 0x10000) / 0x400 = u.toNat := by
    unfold ofPair
    omega
  have hlow : 0xdc00 + (ofPair u v - 0x10000) % 0x400 = v.toNat := by
    unfold ofPair
    omega
  rw [toUnits, if_neg (by unfold ofPair; omega), hhigh, hlow, UInt16.ofNat_toNat, UInt16.ofNat_toNat]

theorem toWellFormed_singleton (u : UInt16) : toWellFormed [u] = [replaceLone u] := by
  rw [toWellFormed, scalars, List.flatMap_singleton, toUnits_ofUnit]

theorem toWellFormed_pair {u v : UInt16} (s : List UInt16)
    (h : isHighSurrogate u = true ∧ isLowSurrogate v = true) :
    toWellFormed (u :: v :: s) = u :: v :: toWellFormed s := by
  rw [toWellFormed, scalars, if_pos h, List.flatMap_cons, toUnits_ofPair h]
  rfl

theorem toWellFormed_cons {u v : UInt16} (s : List UInt16)
    (h : ¬(isHighSurrogate u = true ∧ isLowSurrogate v = true)) :
    toWellFormed (u :: v :: s) = replaceLone u :: toWellFormed (v :: s) := by
  rw [toWellFormed, scalars, if_neg h, List.flatMap_cons, toUnits_ofUnit]
  rfl

theorem length_toWellFormed (s : List UInt16) : (toWellFormed s).length = s.length := by
  fun_induction isWellFormed s with
  | case1 => rfl
  | case2 u => rw [toWellFormed_singleton, List.length_singleton, List.length_singleton]
  | case3 u v s hpair ih => rw [toWellFormed_pair s hpair, List.length_cons, List.length_cons, ih]; rfl
  | case4 u v s hpair ih => rw [toWellFormed_cons s hpair, List.length_cons, ih]; rfl

theorem replaceLone_eq_iff {u : UInt16} : replaceLone u = u ↔ isSurrogate u = false := by
  unfold replaceLone
  split_ifs with h
  · refine iff_of_false (fun heq => ?_) (by simp [h])
    rw [← heq] at h
    exact absurd h (by decide)
  · simpa using h

/-- Nothing is replaced if and only if there are no lone surrogates. -/
theorem toWellFormed_eq_iff (s : List UInt16) : toWellFormed s = s ↔ isWellFormed s = true := by
  fun_induction isWellFormed s with
  | case1 => exact iff_of_true rfl rfl
  | case2 u => simp [toWellFormed_singleton, replaceLone_eq_iff]
  | case3 u v s hpair ih => simp [toWellFormed_pair s hpair, ih]
  | case4 u v s hpair ih => simp [toWellFormed_cons s hpair, replaceLone_eq_iff, ih]

theorem ofUnit_eq_byteOrderMark_iff {u : UInt16} :
    ofUnit u = byteOrderMark ↔ u = UInt16.ofNat byteOrderMark := by
  unfold ofUnit
  split_ifs with h
  · refine iff_of_false (by decide) fun heq => ?_
    rw [heq] at h
    exact absurd h (by decide)
  · rw [← UInt16.toNat_inj]
    rfl

/-- A string whose first code point is the byte order mark begins with it. -/
theorem head?_scalars_iff (s : List UInt16) :
    (scalars s).head? = some byteOrderMark ↔ s.head? = some (UInt16.ofNat byteOrderMark) := by
  fun_cases scalars s with
  | case1 => simp
  | case2 u => simp [ofUnit_eq_byteOrderMark_iff]
  | case3 u v s hpair =>
    have hhigh := (pair_iff.mp hpair).1
    refine iff_of_false (fun h => ?_) fun h => ?_
    · have heq : ofPair u v = 0xfeff := Option.some.inj h
      unfold ofPair at heq
      omega
    · have heq : u = UInt16.ofNat byteOrderMark := Option.some.inj h
      rw [heq] at hhigh
      exact absurd hhigh (by decide)
  | case4 u v s hpair => simp [ofUnit_eq_byteOrderMark_iff]

/-- Decoding gives the string with lone surrogates replaced, without a byte order mark. -/
theorem decode_encode (s : List UInt16) :
    decode (encode s) = (skipMark (scalars s)).flatMap toUnits := by
  rw [decode, encode, decodeFrom_flatMap_encodeScalar fun c hc => isScalar_of_mem_scalars hc]

/-- The string that was encoded is decoded if and only if it has no lone surrogates and does not
begin with a byte order mark. -/
theorem decode_encode_eq_iff (s : List UInt16) :
    decode (encode s) = s ↔
      isWellFormed s = true ∧ s.head? ≠ some (UInt16.ofNat byteOrderMark) := by
  rw [decode_encode, ← toWellFormed_eq_iff, ne_eq, ← head?_scalars_iff, skipMark]
  split_ifs with hmark
  · -- the mark is missing in what is decoded
    refine iff_of_false (fun heq => ?_) fun h => h.2 hmark
    obtain ⟨cs, hcs⟩ := List.head?_eq_some_iff.mp hmark
    have hlength := length_toWellFormed s
    rw [toWellFormed, hcs, List.flatMap_cons, List.length_append] at hlength
    rw [hcs, List.tail_cons] at heq
    rw [heq] at hlength
    have hunits : (toUnits byteOrderMark).length = 1 := by decide
    omega
  · exact (and_iff_left hmark).symm

/-- An ASCII text has a byte for each unit. -/
theorem length_encode_of_ascii {s : List UInt16} (h : ∀ u ∈ s, u.toNat < 0x80) :
    (encode s).length = s.length := by
  have hunit : ∀ u : UInt16, u.toNat < 0x80 → (encodeScalar (ofUnit u)).length = 1 := by
    intro u hu
    have hsurrogate : ¬isSurrogate u = true := fun hu' => by
      rw [isSurrogate_iff] at hu'
      omega
    rw [ofUnit, if_neg hsurrogate, encodeScalar, if_pos hu, List.length_singleton]
  unfold encode
  fun_induction scalars s with
  | case1 => rfl
  | case2 u => rw [List.flatMap_singleton, hunit u (h u List.mem_cons_self), List.length_singleton]
  | case3 u v s hpair ih =>
    have hu := h u List.mem_cons_self
    rw [pair_iff] at hpair
    omega
  | case4 u v s hpair ih =>
    rw [List.flatMap_cons, List.length_append, hunit u (h u List.mem_cons_self),
      ih fun w hw => h w (List.mem_cons_of_mem u hw), Nat.add_comm]
    rfl

end Utf8
end Lib
