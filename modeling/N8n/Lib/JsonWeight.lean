import N8n.Lib.JsonText
import Mathlib.Algebra.Order.BigOperators.Group.List
import Mathlib.Data.List.Perm.Subperm

/-!
# No text of a value is lighter than the one that is written

A text weighs what its code units weigh : nothing for a hexadecimal digit and what else stands in
a number, two for half of a pair of surrogates and one for anything else. `stringify` writes the
lightest text of a value (`weight_stringify_le`), so that a text from which a code unit with a
weight was taken is no text of it.
-/

namespace Lib
namespace JsonText

def unitWeight (u : UInt16) : ℕ :=
  if isHighSurrogate u = true ∨ isLowSurrogate u = true then 2
  else if (hexValue? u).isSome ∨ u ∈ units "+-." then 0
  else 1

def weight (text : List UInt16) : ℕ := (text.map unitWeight).sum

@[simp] theorem weight_nil : weight [] = 0 := rfl

@[simp] theorem weight_cons (u : UInt16) (text : List UInt16) :
    weight (u :: text) = unitWeight u + weight text := by
  simp [weight]

@[simp] theorem weight_append (s t : List UInt16) : weight (s ++ t) = weight s + weight t := by
  simp [weight]

theorem weight_suffix {s t : List UInt16} (h : s <:+ t) : weight s ≤ weight t := by
  obtain ⟨r, rfl⟩ := h
  rw [weight_append]
  exact Nat.le_add_left _ _

/-! ## Strings -/

theorem hexValue?_hexDigit_isSome {n : ℕ} (h : n < 16) : unitWeight (hexDigit n) = 0 := by
  have hdigits : ∀ n : Fin 16, unitWeight (hexDigit n) = 0 := by decide
  exact hdigits ⟨n, h⟩

theorem weight_unicodeEscape (u : UInt16) : weight (unicodeEscape u) = 2 := by
  have hu : u.toNat < 65536 := u.toNat_lt
  have hletters : unitWeight (charUnit '\\') = 1 ∧ unitWeight (charUnit 'u') = 1 := by decide
  simp only [unicodeEscape, weight_cons, weight_nil, hletters,
    hexValue?_hexDigit_isSome (show u.toNat / 4096 < 16 by omega),
    hexValue?_hexDigit_isSome (show u.toNat / 256 % 16 < 16 by omega),
    hexValue?_hexDigit_isSome (show u.toNat / 16 % 16 < 16 by omega),
    hexValue?_hexDigit_isSome (show u.toNat % 16 < 16 by omega)]

/-- What a code unit of a string adds to the weight of its text. -/
def cost (u : UInt16) : ℕ := weight (escapeUnit u)

theorem unitWeight_surrogate {u : UInt16} (h : isHighSurrogate u = true ∨ isLowSurrogate u = true) :
    unitWeight u = 2 := if_pos h

theorem shortEscape?_surrogate {u : UInt16}
    (h : isHighSurrogate u = true ∨ isLowSurrogate u = true) : shortEscape? u = none := by
  cases he : shortEscape? u with
  | none => rfl
  | some e =>
    exfalso
    revert he
    have hlarge : 0xd800 ≤ u.toNat := by
      simp only [isHighSurrogate, isLowSurrogate, Bool.and_eq_true, decide_eq_true_eq] at h
      omega
    intro he
    unfold shortEscape? at he
    split_ifs at he
    all_goals
      subst u
      exact absurd hlarge (by decide)

theorem cost_surrogate {u : UInt16} (h : isHighSurrogate u = true ∨ isLowSurrogate u = true) :
    cost u = 2 := by
  simp only [cost, escapeUnit, shortEscape?_surrogate h, if_pos (Or.inr h : u.toNat < 32 ∨ _),
    weight_unicodeEscape]

theorem unitWeight_le_two (u : UInt16) : unitWeight u ≤ 2 := by
  unfold unitWeight
  split_ifs <;> omega

theorem unitWeight_escape {e : UInt16} (h : isEscape e = true) : unitWeight e ≤ 1 := by
  have hescapes : ∀ e ∈ units "\"\\/bfnrt", unitWeight e ≤ 1 := by decide
  exact hescapes e (of_decide_eq_true h)

theorem cost_le_two (u : UInt16) : cost u ≤ 2 := by
  have hbackslash : unitWeight (charUnit '\\') = 1 := by decide
  unfold cost escapeUnit
  split
  · rename_i e he
    have hle := unitWeight_escape (readsEscapes_json.escapes _ (shortEscape?_spec he).1)
    simp only [weight_cons, weight_nil, hbackslash]
    omega
  · split
    · exact (weight_unicodeEscape u).le
    · simpa using unitWeight_le_two u

/-- A code unit that is read as itself. -/
theorem cost_plain {u : UInt16} (hquote : u ≠ charUnit '"') (hcontrol : ¬u.toNat < 32)
    (hbackslash : u ≠ charUnit '\\') : cost u = unitWeight u := by
  have hshort : shortEscape? u = none := by
    unfold shortEscape?
    rw [if_neg hquote, if_neg hbackslash]
    split_ifs
    all_goals first | rfl | exact absurd (by subst u; decide) hcontrol
  by_cases hsurrogate : isHighSurrogate u = true ∨ isLowSurrogate u = true
  · rw [cost_surrogate hsurrogate, unitWeight_surrogate hsurrogate]
  · simp only [cost, escapeUnit, hshort, if_neg (not_or.mpr ⟨hcontrol, hsurrogate⟩), weight_cons,
      weight_nil, Nat.add_zero]

theorem cost_singleEscape {e : UInt16} (h : isEscape e = true) :
    cost (singleEscape e) ≤ 1 + unitWeight e := by
  have hescapes : ∀ e ∈ units "\"\\/bfnrt", cost (singleEscape e) ≤ 1 + unitWeight e := by decide
  exact hescapes e (of_decide_eq_true h)

theorem unitWeight_le_cost (u : UInt16) : unitWeight u ≤ cost u := by
  have hbackslash : unitWeight (charUnit '\\') = 1 := by decide
  unfold cost escapeUnit
  split
  · rename_i e he
    have hsurrogate : ¬(isHighSurrogate u = true ∨ isLowSurrogate u = true) := by
      intro h
      rw [shortEscape?_surrogate h] at he
      cases he
    have hle : unitWeight u ≤ 1 := by
      rw [unitWeight, if_neg hsurrogate]
      split_ifs <;> omega
    simp only [weight_cons, hbackslash]
    omega
  · split
    · exact (unitWeight_le_two u).trans (weight_unicodeEscape u).ge
    · simp

theorem weight_escapeUnits (s : List UInt16) : weight (escapeUnits s) = (s.map cost).sum := by
  fun_induction escapeUnits s with
  | case1 => rfl
  | case2 u => simp [cost]
  | case3 u v s hpair ih =>
    rw [weight_cons, weight_cons, ih, List.map_cons, List.map_cons, List.sum_cons, List.sum_cons,
      unitWeight_surrogate (.inl hpair.1), unitWeight_surrogate (.inr hpair.2),
      cost_surrogate (.inl hpair.1), cost_surrogate (.inr hpair.2)]
  | case4 u v s hpair ih => rw [weight_append, ih, List.map_cons (a := u), List.sum_cons, cost]

theorem weight_le_escapeUnits (s : List UInt16) : weight s ≤ weight (escapeUnits s) := by
  rw [weight_escapeUnits]
  exact List.sum_le_sum fun u _ => unitWeight_le_cost u

/-- The text of a string is not lighter than the string is written. -/
theorem weight_readString {text s rest : List UInt16} (h : readString text = some (s, rest)) :
    weight (escapeUnits s) + 1 + weight rest ≤ weight text := by
  have hquote : unitWeight (charUnit '"') = 1 := by decide
  have hbackslash : unitWeight (charUnit '\\') = 1 := by decide
  have hletter : unitWeight (charUnit 'u') = 1 := by decide
  rw [weight_escapeUnits]
  unfold readString at h
  fun_induction readQuoted isControl isEscape (charUnit '"') text generalizing s with
  | case1 | case3 | case4 | case6 | case8 => cases h
  | case2 text =>
    obtain ⟨rfl, rfl⟩ := Prod.mk.inj (Option.some.inj h)
    simp [hquote]
  | case5 a b c d text _ _ ih =>
    obtain ⟨u, -, h⟩ := Option.bind_eq_some_iff.mp h
    obtain ⟨r, hread, heq⟩ := Option.map_eq_some_iff.mp h
    obtain ⟨rfl, rfl⟩ := Prod.mk.inj heq
    have := ih hread
    have := cost_le_two u
    simp only [List.map_cons, List.sum_cons, weight_cons, hbackslash, hletter]
    omega
  | case7 e text _ hescape _ _ ih =>
    obtain ⟨r, hread, heq⟩ := Option.map_eq_some_iff.mp h
    obtain ⟨rfl, rfl⟩ := Prod.mk.inj heq
    have := ih hread
    have := cost_singleEscape hescape
    simp only [List.map_cons, List.sum_cons, weight_cons, hbackslash]
    omega
  | case9 u text hne hcontrol hnotBackslash ih =>
    obtain ⟨r, hread, heq⟩ := Option.map_eq_some_iff.mp h
    obtain ⟨rfl, rfl⟩ := Prod.mk.inj heq
    have := ih hread
    have hcost := cost_plain hne (fun hlt => hcontrol (decide_eq_true hlt)) hnotBackslash
    simp only [List.map_cons, List.sum_cons, weight_cons, hcost]
    omega

theorem weight_quote (s : List UInt16) : weight (quote s) = weight (escapeUnits s) + 2 := by
  have hquote : unitWeight (charUnit '"') = 1 := by decide
  simp only [quote, weight_cons, weight_append, weight_nil, hquote]
  omega

/-! ## Numbers -/

theorem weight_digits (digits : List (Fin 10)) : weight (digits.map digitUnit) = 0 := by
  have hdigit : ∀ d : Fin 10, unitWeight (digitUnit d) = 0 := by decide
  induction digits with
  | nil => rfl
  | cons d digits ih => rw [List.map_cons, weight_cons, hdigit, ih]

theorem weight_toUnits (x : JsNumber) : weight x.toUnits = 0 := by
  have hsigns : weight (units "-") = 0 ∧ unitWeight (charUnit '.') = 0 ∧
      unitWeight (charUnit 'e') = 0 ∧ unitWeight (charUnit '-') = 0 ∧
      unitWeight (charUnit '+') = 0 := by
    decide
  obtain ⟨hminus, hpoint, he, hneg, hplus⟩ := hsigns
  cases x with
  | zero => exact (by decide : weight (units "0") = 0)
  | decimal negative digits exponent h =>
    have hsign : weight (if negative then units "-" else []) = 0 := by
      split
      · exact hminus
      · rfl
    have hfraction : ∀ fraction : List (Fin 10),
        weight (if fraction = [] then [] else charUnit '.' :: fraction.map digitUnit) = 0 := by
      intro fraction
      split
      · rfl
      · rw [weight_cons, hpoint, weight_digits]
    have hexponent : ∀ exponent? : Option ℤ,
        weight (exponent?.elim [] JsNumber.exponentUnits) = 0 := by
      rintro (_ | exponent)
      · rfl
      · rw [Option.elim_some, JsNumber.exponentUnits, weight_cons, weight_cons, weight_digits, he]
        split
        · rw [hneg]
        · rw [hplus]
    simp only [JsNumber.toUnits, weight_append, hsign, hfraction, hexponent, weight_digits]

/-! ## Values -/

/-- The weight of an element and of the comma or bracket after it. -/
def itemsWeight (items : List JsonValue) : ℕ := (items.map fun v => weight (stringify v) + 1).sum

/-- The weight of a property, of the colon in it and of the comma or bracket after it. -/
def entryWeight (entry : List UInt16 × JsonValue) : ℕ :=
  weight (quote entry.1) + weight (stringify entry.2) + 2

def entriesWeight (entries : List (List UInt16 × JsonValue)) : ℕ := (entries.map entryWeight).sum

theorem weight_itemsText (item : JsonValue) (items : List JsonValue) :
    weight (itemsText (item :: items)) + 1 = itemsWeight (item :: items) := by
  have hcomma : unitWeight (charUnit ',') = 1 := by decide
  induction items generalizing item with
  | nil => simp [itemsText_singleton, itemsWeight]
  | cons item' items ih =>
    have hrest := ih item'
    simp only [itemsText_cons, weight_append, weight_cons, hcomma]
    simp only [itemsWeight, List.map_cons, List.sum_cons] at hrest ⊢
    omega

theorem weight_entriesText (entry : List UInt16 × JsonValue)
    (entries : List (List UInt16 × JsonValue)) :
    weight (entriesText (entry :: entries)) + 1 = entriesWeight (entry :: entries) := by
  have hsigns : unitWeight (charUnit ',') = 1 ∧ unitWeight (charUnit ':') = 1 := by decide
  induction entries generalizing entry with
  | nil =>
    obtain ⟨key, value⟩ := entry
    simp only [entriesText_singleton, weight_append, weight_cons, hsigns, entriesWeight,
      List.map_cons, List.map_nil, List.sum_cons, List.sum_nil, entryWeight]
    omega
  | cons entry' entries ih =>
    obtain ⟨key, value⟩ := entry
    have hrest := ih entry'
    simp only [entriesText_cons, weight_append, weight_cons, hsigns]
    simp only [entriesWeight, List.map_cons, List.sum_cons, entryWeight] at hrest ⊢
    omega

theorem weight_array (items : List JsonValue) :
    weight (stringify (.array items)) = 1 + max 1 (itemsWeight items) := by
  have hbrackets : unitWeight (charUnit '[') = 1 ∧ unitWeight (charUnit ']') = 1 := by decide
  rw [stringify_array, weight_cons, weight_append, weight_cons, weight_nil, hbrackets.1, hbrackets.2]
  cases items with
  | nil => rfl
  | cons item items =>
    have hitems := weight_itemsText item items
    omega

theorem weight_object (entries : List (List UInt16 × JsonValue)) :
    weight (stringify (.object entries)) = 1 + max 1 (entriesWeight entries) := by
  have hbrackets : unitWeight (charUnit '\x7b') = 1 ∧ unitWeight (charUnit '\x7d') = 1 := by decide
  rw [stringify_object, weight_cons, weight_append, weight_cons, weight_nil, hbrackets.1, hbrackets.2]
  cases entries with
  | nil => rfl
  | cons entry entries =>
    have hentries := weight_entriesText entry entries
    omega

theorem entriesWeight_put (key : List UInt16) (value : JsonValue)
    (entries : List (List UInt16 × JsonValue)) :
    entriesWeight (OrderedMap.put key value entries) ≤
      entriesWeight entries + entryWeight (key, value) := by
  induction entries with
  | nil => simp [OrderedMap.put, entriesWeight]
  | cons entry entries ih =>
    obtain ⟨key', value'⟩ := entry
    rw [OrderedMap.put]
    simp only [entriesWeight] at ih ⊢
    split
    · simp only [List.map_cons, List.sum_cons]
      omega
    · simp only [List.map_cons, List.sum_cons]
      omega

theorem entriesWeight_lastProperties (properties : List (List UInt16 × JsonValue)) :
    entriesWeight (JsonValue.lastProperties properties) ≤ entriesWeight properties := by
  have hfold : ∀ entries : List (List UInt16 × JsonValue),
      entriesWeight (properties.foldl (fun entries property =>
        OrderedMap.put property.1 property.2 entries) entries) ≤
        entriesWeight entries + entriesWeight properties := by
    induction properties with
    | nil => exact fun entries => Nat.le_add_right _ _
    | cons property properties ih =>
      intro entries
      obtain ⟨key, value⟩ := property
      have hrest := ih (OrderedMap.put key value entries)
      have hput := entriesWeight_put key value entries
      rw [List.foldl_cons]
      simp only [entriesWeight, List.map_cons, List.sum_cons] at hrest hput ⊢
      omega
  have hle := hfold []
  rwa [show entriesWeight [] = 0 from rfl, Nat.zero_add] at hle

/-! ## Texts -/

def partWeight : Part → ℕ
  | .value v => weight (stringify v)
  | .elements vs => itemsWeight vs
  | .properties ps => entriesWeight ps

section

variable {text rest : List UInt16}

theorem weight_skipSpaces {u : UInt16} {inner : List UInt16}
    (h : json.skipSpaces text = u :: inner) : unitWeight u + weight inner ≤ weight text := by
  rw [← weight_cons, ← h]
  exact weight_suffix (List.dropWhile_suffix _)

theorem eq_of_start (u : UInt16) :
    (json.start u = .string → u = charUnit '"') ∧ (json.start u = .array → u = charUnit '[') ∧
      (json.start u = .object → u = charUnit '\x7b') := by
  change (start u = .string → _) ∧ (start u = .array → _) ∧ (start u = .object → _)
  unfold start
  split_ifs with hquote hbracket hbrace
  all_goals simp_all

theorem stringify_of_keyword {name : List UInt16} {v : JsonValue} (h : keyword? name = some v) :
    stringify v = name := by
  unfold keyword? at h
  split_ifs at h with hnull htrue hfalse
  · obtain rfl := Option.some.inj h
    exact hnull.symm
  · obtain rfl := Option.some.inj h
    exact htrue.symm
  · obtain rfl := Option.some.inj h
    exact hfalse.symm

theorem weight_expect {u : UInt16} (h : json.expect u text = some rest) :
    unitWeight u + weight rest ≤ weight text := by
  unfold Dialect.expect at h
  split at h
  · rename_i u' inner hskip
    split at h
    · rename_i hu
      obtain rfl := Option.some.inj h
      exact hu ▸ weight_skipSpaces hskip
    · cases h
  · cases h

theorem weight_readKey {key : List UInt16} (h : json.readKey text = some (key, rest)) :
    weight (quote key) + weight rest ≤ weight text := by
  unfold Dialect.readKey at h
  split at h
  · cases h
  · rename_i u inner hskip
    have hle := weight_skipSpaces hskip
    split at h
    · rename_i hstart
      obtain rfl := (eq_of_start u).1 hstart
      have hread := weight_readString h
      have hquote : unitWeight (charUnit '"') = 1 := by decide
      rw [weight_quote]
      omega
    · cases h
    · cases h

theorem one_le_itemsWeight {vs : List JsonValue} (h : Reads json (.elements vs) text rest) :
    1 ≤ itemsWeight vs := by
  cases h with
  | lastElement | element =>
    simp only [itemsWeight, List.map_cons, List.sum_cons]
    omega

theorem one_le_entriesWeight {ps : List (List UInt16 × JsonValue)}
    (h : Reads json (.properties ps) text rest) : 1 ≤ entriesWeight ps := by
  cases h with
  | lastProperty | property =>
    simp only [entriesWeight, entryWeight, List.map_cons, List.sum_cons]
    omega

/-- A text is not lighter than what is read is written. -/
theorem weight_le_of_reads {part : Part} (h : Reads json part text rest) :
    partWeight part + weight rest ≤ weight text := by
  have hcomma : unitWeight (charUnit ',') = 1 := by decide
  have hcolon : unitWeight (charUnit ':') = 1 := by decide
  have hbrackets : unitWeight (charUnit '[') = 1 ∧ unitWeight (charUnit ']') = 1 := by decide
  have hbraces : unitWeight (charUnit '\x7b') = 1 ∧ unitWeight (charUnit '\x7d') = 1 := by decide
  induction h with
  | string hskip hstart hread =>
    obtain rfl := (eq_of_start _).1 hstart
    have := weight_skipSpaces hskip
    have := weight_readString hread
    have hquote : unitWeight (charUnit '"') = 1 := by decide
    rw [partWeight, stringify, weight_quote]
    omega
  | number hskip hstart hread =>
    have hle := weight_skipSpaces hskip
    have hsuffix := weight_suffix (json.readNumber_suffix hread)
    rw [weight_cons] at hsuffix
    rw [partWeight, stringify, weight_toUnits]
    omega
  | emptyArray hskip hstart hend =>
    obtain rfl := (eq_of_start _).2.1 hstart
    have := weight_skipSpaces hskip
    have := weight_expect hend
    rw [partWeight, weight_array]
    simp only [itemsWeight, List.map_nil, List.sum_nil]
    omega
  | array hskip hstart hend h ih =>
    obtain rfl := (eq_of_start _).2.1 hstart
    have := weight_skipSpaces hskip
    have hitems := one_le_itemsWeight h
    simp only [partWeight] at ih ⊢
    rw [weight_array]
    omega
  | emptyObject hskip hstart hend =>
    obtain rfl := (eq_of_start _).2.2 hstart
    have := weight_skipSpaces hskip
    have := weight_expect hend
    rw [partWeight, weight_object]
    simp only [entriesWeight, List.map_nil, List.sum_nil]
    omega
  | @object _ _ _ _ ps hskip hstart hend h ih =>
    obtain rfl := (eq_of_start _).2.2 hstart
    have := weight_skipSpaces hskip
    have hentries := one_le_entriesWeight h
    have hown : entriesWeight (json.own ps) ≤ entriesWeight ps := entriesWeight_lastProperties ps
    simp only [partWeight] at ih ⊢
    rw [weight_object]
    omega
  | @keyword u _ inner v hskip hstart hkeyword =>
    have hle := weight_skipSpaces hskip
    rw [← weight_cons, ← List.takeWhile_append_dropWhile (p := isNamePart) (l := u :: inner),
      weight_append] at hle
    rwa [partWeight, stringify_of_keyword hkeyword]
  | call hskip hstart hkeyword hopen h hclose hcall ih => cases hcall
  | lastElement h _ hend ih =>
    have := weight_expect hend
    simp only [partWeight, itemsWeight, List.map_cons, List.map_nil, List.sum_cons, List.sum_nil] at ih ⊢
    omega
  | element h hnext hs ih ihs =>
    have := weight_expect hnext
    simp only [partWeight, itemsWeight, List.map_cons, List.sum_cons] at ih ihs ⊢
    omega
  | lastProperty hkey hinner h _ hend ih =>
    have := weight_readKey hkey
    have := weight_expect hinner
    have := weight_expect hend
    simp only [partWeight, entriesWeight, entryWeight, List.map_cons, List.map_nil, List.sum_cons,
      List.sum_nil] at ih ⊢
    omega
  | property hkey hinner h hnext hs ih ihs =>
    have := weight_readKey hkey
    have := weight_expect hinner
    have := weight_expect hnext
    simp only [partWeight, entriesWeight, entryWeight, List.map_cons, List.sum_cons] at ih ihs ⊢
    omega

end

/-! ## Equal values -/

theorem entriesWeight_le {entries entries' : List (List UInt16 × JsonValue)}
    (hnodup : (entries.map Prod.fst).Nodup)
    (hkeys : ∀ key ∈ entries.map Prod.fst, key ∈ entries'.map Prod.fst)
    (hvalues : ∀ entry ∈ entries', ∃ value, OrderedMap.find entry.1 entries = some value ∧
      weight (stringify value) ≤ weight (stringify entry.2)) :
    entriesWeight entries ≤ entriesWeight entries' := by
  -- what the entry of a key weighs
  let keyWeight : List UInt16 → ℕ := fun key =>
    (OrderedMap.find key entries).elim 0 fun value => entryWeight (key, value)
  have hentries : entriesWeight entries = ((entries.map Prod.fst).map keyWeight).sum := by
    rw [entriesWeight, List.map_map]
    refine congrArg List.sum (List.map_congr_left fun entry hentry => ?_)
    simp only [Function.comp_apply, keyWeight, OrderedMap.find_of_mem hnodup hentry, Option.elim_some]
  have hentries' : ((entries'.map Prod.fst).map keyWeight).sum ≤ entriesWeight entries' := by
    rw [entriesWeight, List.map_map]
    refine List.sum_le_sum fun entry hentry => ?_
    obtain ⟨value, hfind, hle⟩ := hvalues entry hentry
    simp only [Function.comp_apply, keyWeight, hfind, Option.elim_some, entryWeight]
    omega
  obtain ⟨keys, hperm, hsublist⟩ := List.subperm_of_subset hnodup hkeys
  calc entriesWeight entries
      = (keys.map keyWeight).sum := hentries.trans (hperm.map keyWeight).sum_nat.symm
    _ ≤ ((entries'.map Prod.fst).map keyWeight).sum :=
        (hsublist.map keyWeight).sum_le_sum fun _ _ => Nat.zero_le _
    _ ≤ entriesWeight entries' := hentries'

mutual

theorem weight_le_of_equal : ∀ v' v : JsonValue, v'.Equal v → v.WellFormed →
    weight (stringify v) ≤ weight (stringify v')
  | .null, v, h, _ => by
    cases v with
    | null => exact Nat.le_refl _
    | _ => simp [JsonValue.Equal] at h
  | .boolean b, v, h, _ => by
    cases v with
    | boolean b' =>
      rw [JsonValue.Equal] at h
      rw [h]
    | _ => simp [JsonValue.Equal] at h
  | .number x, v, h, _ => by
    cases v with
    | number x' =>
      rw [JsonValue.Equal] at h
      rw [h]
    | _ => simp [JsonValue.Equal] at h
  | .string s, v, h, _ => by
    cases v with
    | string s' =>
      rw [JsonValue.Equal] at h
      rw [h]
    | _ => simp [JsonValue.Equal] at h
  | .array items', v, h, hv => by
    cases v with
    | array items =>
      rw [JsonValue.Equal] at h
      rw [JsonValue.WellFormed] at hv
      have hle := itemsWeight_le_of_equal items' items h hv
      rw [weight_array, weight_array]
      omega
    | _ => simp [JsonValue.Equal] at h
  | .object entries', v, h, hv => by
    cases v with
    | object entries =>
      rw [JsonValue.Equal] at h
      rw [JsonValue.WellFormed] at hv
      have hle := entriesWeight_le hv.1 h.1 (entries_le_of_equal entries' entries h.2 hv.2)
      rw [weight_object, weight_object]
      omega
    | _ => simp [JsonValue.Equal] at h

theorem itemsWeight_le_of_equal : ∀ items' items : List JsonValue,
    JsonValue.ItemsEqual items' items → JsonValue.ItemsWellFormed items →
    itemsWeight items ≤ itemsWeight items'
  | [], items, h, _ => by
    cases items with
    | nil => exact Nat.le_refl _
    | cons item items => simp [JsonValue.ItemsEqual] at h
  | item' :: items', items, h, hv => by
    cases items with
    | nil => simp [JsonValue.ItemsEqual] at h
    | cons item items =>
      rw [JsonValue.ItemsEqual] at h
      rw [JsonValue.ItemsWellFormed] at hv
      have hitem := weight_le_of_equal item' item h.1 hv.1
      have hitems := itemsWeight_le_of_equal items' items h.2 hv.2
      simp only [itemsWeight, List.map_cons, List.sum_cons] at hitems ⊢
      omega

theorem entries_le_of_equal : ∀ entries' entries : List (List UInt16 × JsonValue),
    JsonValue.EntriesEqual entries' entries → JsonValue.EntriesWellFormed entries →
    ∀ entry ∈ entries', ∃ value, OrderedMap.find entry.1 entries = some value ∧
      weight (stringify value) ≤ weight (stringify entry.2)
  | [], _, _, _ => by simp
  | (key, value') :: entries', entries, h, hv => by
    rw [JsonValue.EntriesEqual] at h
    obtain ⟨⟨value, hfind, hequal⟩, hrest⟩ := h
    have hvalue := JsonValue.wellFormed_of_mem hv (OrderedMap.mem_of_find hfind)
    rw [List.forall_mem_cons]
    exact ⟨⟨value, hfind, weight_le_of_equal value' value hequal hvalue⟩,
      entries_le_of_equal entries' entries hrest hv⟩

end

/-- No text of a value is lighter than the one that is written. -/
theorem weight_stringify_le {text : List UInt16} {v v' : JsonValue} (hv : v.WellFormed)
    (h : parse text = some v') (hequal : v'.Equal v) : weight (stringify v) ≤ weight text := by
  obtain ⟨rest, hreads, -⟩ := evaluate_eq_some_iff.mp h
  have hle := weight_le_of_reads hreads
  have hle' := weight_le_of_equal v' v hequal hv
  rw [partWeight] at hle
  omega

end JsonText
end Lib
