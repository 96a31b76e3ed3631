import N8n.Lib.LiteralReader

/-!
# The texts of JSON

`stringify` writes a value as `JSON.stringify` does, and `parse` reads a text as `JSON.parse`
does. A value that is written is read back (`parse_stringify`).
-/

namespace Lib
namespace JsonText

/-! ## Writing -/

def isHighSurrogate (u : UInt16) : Bool := 0xd800 ≤ u.toNat && u.toNat < 0xdc00

def isLowSurrogate (u : UInt16) : Bool := 0xdc00 ≤ u.toNat && u.toNat < 0xe000

def hexDigit (n : ℕ) : UInt16 := if n < 10 then UInt16.ofNat (48 + n) else UInt16.ofNat (87 + n)

/-- `\u` and four hexadecimal digits. -/
def unicodeEscape (u : UInt16) : List UInt16 :=
  [charUnit '\\', charUnit 'u', hexDigit (u.toNat / 4096), hexDigit (u.toNat / 256 % 16),
    hexDigit (u.toNat / 16 % 16), hexDigit (u.toNat % 16)]

/-- The code units that are written with a letter after a backslash, or as themselves after one. -/
def shortEscape? (u : UInt16) : Option UInt16 :=
  if u = charUnit '"' then some (charUnit '"')
  else if u = charUnit '\\' then some (charUnit '\\')
  else if u = 8 then some (charUnit 'b')
  else if u = 12 then some (charUnit 'f')
  else if u = charUnit '\n' then some (charUnit 'n')
  else if u = charUnit '\r' then some (charUnit 'r')
  else if u = charUnit '\t' then some (charUnit 't')
  else none

/-- How a code unit is written that is not half of a pair of surrogates. -/
def escapeUnit (u : UInt16) : List UInt16 :=
  match shortEscape? u with
  | some e => [charUnit '\\', e]
  | none =>
    if u.toNat < 32 ∨ isHighSurrogate u = true ∨ isLowSurrogate u = true then unicodeEscape u
    else [u]

def escapeUnits : List UInt16 → List UInt16
  | [] => []
  | [u] => escapeUnit u
  | u :: v :: s =>
    if isHighSurrogate u = true ∧ isLowSurrogate v = true then u :: v :: escapeUnits s
    else escapeUnit u ++ escapeUnits (v :: s)

def quote (s : List UInt16) : List UInt16 := charUnit '"' :: (escapeUnits s ++ [charUnit '"'])

mutual

/-- `JSON.stringify(value)` -/
def stringify : JsonValue → List UInt16
  | .null => units "null"
  | .boolean b => if b then units "true" else units "false"
  | .number x => x.toUnits
  | .string s => quote s
  | .array items => units "[" ++ (units ",").intercalate (stringifyItems items) ++ units "]"
  | .object entries =>
    units "\x7b" ++ (units ",").intercalate (stringifyEntries entries) ++ units "\x7d"

def stringifyItems : List JsonValue → List (List UInt16)
  | [] => []
  | item :: items => stringify item :: stringifyItems items

def stringifyEntries : List (List UInt16 × JsonValue) → List (List UInt16)
  | [] => []
  | (key, value) :: entries =>
    (quote key ++ units ":" ++ stringify value) :: stringifyEntries entries

end

/-! ## Reading -/

def isSpace (u : UInt16) : Bool := u ∈ [9, 10, 13, 32]

def start (u : UInt16) : ExpressionStart :=
  if u = charUnit '"' then .string
  else if u = charUnit '[' then .array
  else if u = charUnit '\x7b' then .object
  else if u = charUnit '-' ∨ (digitOf? u).isSome then .number
  else if isNameStart u then .name
  else .other

def isControl (u : UInt16) : Bool := u.toNat < 32

def isEscape (u : UInt16) : Bool := u ∈ units "\"\\/bfnrt"

/-- The dialect of `JSON.parse`. -/
def json : Dialect where
  isSpace := isSpace
  start := start
  readString := readQuoted isControl isEscape
  readNumber := JsNumber.readStrict
  nameKeys := false
  own := JsonValue.lastProperties
  call := fun _ _ => none
  readString_suffix := readQuoted_suffix
  readNumber_suffix := JsNumber.readStrict_suffix

/-- `JSON.parse(text)`, `none` where it throws. -/
def parse (text : List UInt16) : Option JsonValue := json.evaluate text

/-! ## Strings are read back -/

theorem hexValue?_hexDigit {n : ℕ} (h : n < 16) : hexValue? (hexDigit n) = some n := by
  have hdigits : ∀ n : Fin 16, hexValue? (hexDigit n) = some n.val := by decide
  exact hdigits ⟨n, h⟩

theorem hexUnit?_unicodeEscape (u : UInt16) :
    hexUnit? (hexDigit (u.toNat / 4096)) (hexDigit (u.toNat / 256 % 16))
      (hexDigit (u.toNat / 16 % 16)) (hexDigit (u.toNat % 16)) = some u := by
  have hu : u.toNat < 65536 := u.toNat_lt
  simp only [hexUnit?, hexValue?_hexDigit (show u.toNat / 4096 < 16 by omega),
    hexValue?_hexDigit (show u.toNat / 256 % 16 < 16 by omega),
    hexValue?_hexDigit (show u.toNat / 16 % 16 < 16 by omega),
    hexValue?_hexDigit (show u.toNat % 16 < 16 by omega), Option.bind_eq_bind, Option.bind_some]
  have hvalue : ((u.toNat / 4096 * 16 + u.toNat / 256 % 16) * 16 + u.toNat / 16 % 16) * 16 +
      u.toNat % 16 = u.toNat := by omega
  rw [hvalue, UInt16.ofNat_toNat]
  rfl

theorem shortEscape?_spec {u e : UInt16} (h : shortEscape? u = some e) :
    e ∈ units "\"\\bfnrt" ∧ e ≠ charUnit 'u' ∧ singleEscape e = u := by
  unfold shortEscape? at h
  split_ifs at h with h1 h2 h3 h4 h5 h6 h7
  all_goals
    obtain rfl := Option.some.inj h
    subst u
    decide

theorem shortEscape?_eq_none {u : UInt16} (h : shortEscape? u = none) :
    u ≠ charUnit '"' ∧ u ≠ charUnit '\\' := by
  constructor
  · rintro rfl
    exact absurd h (by decide)
  · rintro rfl
    exact absurd h (by decide)

theorem surrogate_plain {u : UInt16} (h : isHighSurrogate u = true ∨ isLowSurrogate u = true) :
    u ≠ charUnit '"' ∧ ¬u.toNat < 32 ∧ u ≠ charUnit '\\' := by
  have hlarge : 0xd800 ≤ u.toNat := by
    simp only [isHighSurrogate, isLowSurrogate, Bool.and_eq_true, decide_eq_true_eq] at h
    omega
  refine ⟨?_, by omega, ?_⟩
  · rintro rfl
    exact absurd hlarge (by decide)
  · rintro rfl
    exact absurd hlarge (by decide)

/-- The string of a text of JSON from after its opening quote. -/
def readString : List UInt16 → Option (List UInt16 × List UInt16) :=
  readQuoted isControl isEscape (charUnit '"')

/-- A reader of strings that reads all that JSON writes. -/
structure ReadsEscapes (refused escapes : UInt16 → Bool) : Prop where
  escapes : ∀ e ∈ units "\"\\bfnrt", escapes e = true
  backslash : refused (charUnit '\\') = false
  plain : ∀ u : UInt16, ¬u.toNat < 32 → refused u = false

theorem readsEscapes_json : ReadsEscapes isControl isEscape where
  escapes := by decide
  backslash := by decide
  plain _ h := decide_eq_false h

section

variable {refused escapes : UInt16 → Bool} (h : ReadsEscapes refused escapes)

include h

theorem readQuoted_of_plain {u : UInt16} (hquote : u ≠ charUnit '"') (hcontrol : ¬u.toNat < 32)
    (hbackslash : u ≠ charUnit '\\') (text : List UInt16) :
    readQuoted refused escapes (charUnit '"') (u :: text) =
      (readQuoted refused escapes (charUnit '"') text).map fun r => (u :: r.1, r.2) :=
  readQuoted_plain hquote (h.plain u hcontrol) hbackslash text

theorem readQuoted_escapeUnit (u : UInt16) (text : List UInt16) :
    readQuoted refused escapes (charUnit '"') (escapeUnit u ++ text) =
      (readQuoted refused escapes (charUnit '"') text).map fun r => (u :: r.1, r.2) := by
  have hquote : charUnit '"' ≠ charUnit '\\' := by decide
  unfold escapeUnit
  split
  · rename_i e he
    obtain ⟨hescape, hu, rfl⟩ := shortEscape?_spec he
    exact readQuoted_escape hquote h.backslash (h.escapes e hescape) hu text
  · rename_i hnone
    obtain ⟨hne, hbackslash⟩ := shortEscape?_eq_none hnone
    split
    · exact readQuoted_unicode hquote h.backslash (hexUnit?_unicodeEscape u) text
    · rename_i hplain
      exact readQuoted_of_plain h hne (fun hcontrol => hplain (.inl hcontrol)) hbackslash text

theorem readQuoted_escapeUnits (s text : List UInt16) :
    readQuoted refused escapes (charUnit '"') (escapeUnits s ++ charUnit '"' :: text) =
      some (s, text) := by
  fun_induction escapeUnits s with
  | case1 => exact readQuoted_quote text
  | case2 u =>
    rw [readQuoted_escapeUnit h]
    exact congrArg (Option.map _) (readQuoted_quote text)
  | case3 u v s hpair ih =>
    obtain ⟨hu, hu', hu''⟩ := surrogate_plain (.inl hpair.1)
    obtain ⟨hv, hv', hv''⟩ := surrogate_plain (.inr hpair.2)
    rw [List.cons_append, List.cons_append, readQuoted_of_plain h hu hu' hu'',
      readQuoted_of_plain h hv hv' hv'', ih]
    rfl
  | case4 u v s hpair ih =>
    rw [List.append_assoc, readQuoted_escapeUnit h, ih]
    rfl

end

/-! ## Values are read back -/

section

variable {text rest : List UInt16}

theorem start_of_isNameStart {u : UInt16} (h : isNameStart u = true) : start u = .name := by
  have hne : ∀ {c : UInt16}, isNameStart c = false → u ≠ c := by
    rintro c hc rfl
    rw [h] at hc
    cases hc
  have hdigit := digitOf?_of_isNameStart h
  unfold start
  rw [if_neg (hne (by decide)), if_neg (hne (by decide)), if_neg (hne (by decide)),
    if_neg (not_or.mpr ⟨hne (by decide), by simp [hdigit]⟩), if_pos h]

theorem hasNames_json : json.HasNames := fun _ h => start_of_isNameStart h

theorem toUnits_start (x : JsNumber) :
    ∃ u tail, x.toUnits = u :: tail ∧ isSpace u = false ∧ u ≠ charUnit ']' ∧ start u = .number :=
  JsNumber.head_toUnits_of (p := fun u => isSpace u = false ∧ u ≠ charUnit ']' ∧ start u = .number)
    (by decide) (by decide) x

/-- What is written between the brackets. -/
def itemsText (items : List JsonValue) : List UInt16 :=
  (units ",").intercalate (stringifyItems items)

def entriesText (entries : List (List UInt16 × JsonValue)) : List UInt16 :=
  (units ",").intercalate (stringifyEntries entries)

theorem stringify_array (items : List JsonValue) :
    stringify (.array items) = charUnit '[' :: (itemsText items ++ [charUnit ']']) := by
  rw [stringify]
  rfl

theorem stringify_object (entries : List (List UInt16 × JsonValue)) :
    stringify (.object entries) =
      charUnit '\x7b' :: (entriesText entries ++ [charUnit '\x7d']) := by
  rw [stringify]
  rfl

theorem itemsText_singleton (item : JsonValue) : itemsText [item] = stringify item := by
  rw [itemsText, stringifyItems, stringifyItems, List.intercalate_singleton]

theorem itemsText_cons (item item' : JsonValue) (items : List JsonValue) :
    itemsText (item :: item' :: items) =
      stringify item ++ charUnit ',' :: itemsText (item' :: items) := by
  rw [itemsText, stringifyItems, stringifyItems, List.intercalate_cons_cons, List.append_assoc]
  rfl

theorem entriesText_singleton (key : List UInt16) (value : JsonValue) :
    entriesText [(key, value)] = quote key ++ charUnit ':' :: stringify value := by
  rw [entriesText, stringifyEntries, stringifyEntries, List.intercalate_singleton, List.append_assoc]
  rfl

theorem entriesText_cons (key : List UInt16) (value : JsonValue) (entry : List UInt16 × JsonValue)
    (entries : List (List UInt16 × JsonValue)) :
    entriesText ((key, value) :: entry :: entries) = quote key ++ charUnit ':' ::
      (stringify value ++ charUnit ',' :: entriesText (entry :: entries)) := by
  rw [entriesText, stringifyEntries, stringifyEntries, List.intercalate_cons_cons]
  simp [entriesText, stringifyEntries, units]

theorem startsInside_stringify (v : JsonValue) :
    StartsInside json (charUnit ']') (stringify v) := by
  have hstart : ∀ {u : UInt16} {tail : List UInt16}, isSpace u = false → u ≠ charUnit ']' →
      StartsInside json (charUnit ']') (u :: tail) := fun hspace hend => ⟨_, _, rfl, hspace, hend⟩
  cases v with
  | null => exact hstart (by decide) (by decide)
  | boolean b => cases b <;> exact hstart (by decide) (by decide)
  | number x =>
    obtain ⟨u, tail, hcons, hspace, hend, -⟩ := toUnits_start x
    exact ⟨u, tail, hcons, hspace, hend⟩
  | string value => exact hstart (by decide) (by decide)
  | array items => exact hstart (by decide) (by decide)
  | object entries => exact hstart (by decide) (by decide)

theorem startsInside_itemsText (item : JsonValue) (items : List JsonValue) :
    StartsInside json (charUnit ']') (itemsText (item :: items)) := by
  cases items with
  | nil => exact itemsText_singleton item ▸ startsInside_stringify item
  | cons item' items => exact itemsText_cons item item' items ▸ (startsInside_stringify item).append _

theorem startsInside_entriesText (entry : List UInt16 × JsonValue)
    (entries : List (List UInt16 × JsonValue)) :
    StartsInside json (charUnit '\x7d') (entriesText (entry :: entries)) := by
  obtain ⟨key, value⟩ := entry
  cases entries with
  | nil => exact ⟨charUnit '"', _, by rw [entriesText_singleton]; rfl, by decide, by decide⟩
  | cons entry entries =>
    exact ⟨charUnit '"', _, by rw [entriesText_cons]; rfl, by decide, by decide⟩

theorem readKey_quote (key rest : List UInt16) :
    json.readKey (quote key ++ rest) = some (key, rest) := by
  have hskip : json.skipSpaces (quote key ++ rest) =
      charUnit '"' :: (escapeUnits key ++ charUnit '"' :: rest) := by
    rw [quote, List.cons_append, Dialect.skipSpaces_of_not_space (by decide)]
    simp
  have hstart : json.start (charUnit '"') = .string := by decide
  simp only [Dialect.readKey, hskip, hstart]
  exact readQuoted_escapeUnits readsEscapes_json key rest

mutual

theorem reads_stringify : ∀ (v : JsonValue) {rest : List UInt16}, v.WellFormed → Delimited rest →
    Reads json (.value v) (stringify v ++ rest) rest
  | .null, rest, _, hrest =>
    reads_keyword hasNames_json ⟨by decide, by decide, by decide⟩ hrest
      ((startsInside_stringify .null).append rest).skipSpaces rfl
  | .boolean true, rest, _, hrest =>
    reads_keyword hasNames_json ⟨by decide, by decide, by decide⟩ hrest
      ((startsInside_stringify (.boolean true)).append rest).skipSpaces rfl
  | .boolean false, rest, _, hrest =>
    reads_keyword hasNames_json ⟨by decide, by decide, by decide⟩ hrest
      ((startsInside_stringify (.boolean false)).append rest).skipSpaces rfl
  | .number x, rest, _, hrest => by
    obtain ⟨u, tail, hcons, hspace, -, hstart⟩ := toUnits_start x
    have hread := JsNumber.readStrict_toUnits x hrest.numberEnds
    rw [stringify, hcons, List.cons_append]
    rw [hcons, List.cons_append] at hread
    exact .number (Dialect.skipSpaces_of_not_space hspace) hstart hread
  | .string s, rest, _, _ => by
    have hskip : json.skipSpaces (stringify (.string s) ++ rest) =
        charUnit '"' :: (escapeUnits s ++ charUnit '"' :: rest) := by
      rw [(startsInside_stringify (.string s)).append rest |>.skipSpaces, stringify, quote]
      simp
    exact .string hskip (by decide) (readQuoted_escapeUnits readsEscapes_json s rest)
  | .array [], _, _, _ =>
    .emptyArray (Dialect.skipSpaces_of_not_space (by decide)) (by decide)
      (Dialect.expect_self (by decide))
  | .array (item :: items), rest, hv, _ => by
    rw [JsonValue.WellFormed, JsonValue.ItemsWellFormed] at hv
    have hstart := (startsInside_itemsText item items).append (charUnit ']' :: rest)
    rw [stringify_array, List.cons_append, List.append_assoc]
    exact .array (Dialect.skipSpaces_of_not_space (by decide)) (by decide)
      (hstart.expect_close hstart.skipSpaces) (reads_stringifyItems item items hv.1 hv.2)
  | .object [], _, _, _ =>
    .emptyObject (Dialect.skipSpaces_of_not_space (by decide)) (by decide)
      (Dialect.expect_self (by decide))
  | .object (entry :: entries), rest, hv, _ => by
    rw [JsonValue.WellFormed] at hv
    have hstart := (startsInside_entriesText entry entries).append (charUnit '\x7d' :: rest)
    have hown : json.own (entry :: entries) = entry :: entries :=
      JsonValue.lastProperties_of_nodup hv.1
    have hreads : Reads json (.properties (entry :: entries))
        (entriesText (entry :: entries) ++ charUnit '\x7d' :: rest) rest :=
      reads_stringifyEntries entry entries hv.2
    have hobject := Reads.object (d := json) (u := charUnit '\x7b')
      (Dialect.skipSpaces_of_not_space (by decide)) (by decide)
      (hstart.expect_close hstart.skipSpaces) hreads
    rw [hown] at hobject
    rw [stringify_object, List.cons_append, List.append_assoc]
    exact hobject
termination_by v => sizeOf v

theorem reads_stringifyItems : ∀ (item : JsonValue) (items : List JsonValue) {rest : List UInt16},
    item.WellFormed → JsonValue.ItemsWellFormed items →
    Reads json (.elements (item :: items)) (itemsText (item :: items) ++ charUnit ']' :: rest) rest
  | item, [], _, hitem, _ => by
    rw [itemsText_singleton]
    refine .lastElement (reads_stringify item hitem (delimited_cons (by decide) (by decide))) ?_
      (Dialect.expect_self (by decide))
    exact Dialect.expect_of_ne (Dialect.skipSpaces_of_not_space (by decide)) (by decide)
  | item, item' :: items, rest, hitem, hitems => by
    rw [JsonValue.ItemsWellFormed] at hitems
    rw [itemsText_cons, List.append_assoc]
    exact .element (reads_stringify item hitem (delimited_cons (by decide) (by decide)))
      (Dialect.expect_self (by decide)) (reads_stringifyItems item' items hitems.1 hitems.2)
termination_by item items => sizeOf (item :: items)

theorem reads_stringifyEntries : ∀ (entry : List UInt16 × JsonValue)
    (entries : List (List UInt16 × JsonValue)) {rest : List UInt16},
    JsonValue.EntriesWellFormed (entry :: entries) →
    Reads json (.properties (entry :: entries))
      (entriesText (entry :: entries) ++ charUnit '\x7d' :: rest) rest
  | (key, value), [], rest, hentries => by
    rw [JsonValue.EntriesWellFormed] at hentries
    rw [entriesText_singleton, List.append_assoc]
    refine .lastProperty (readKey_quote key _) (Dialect.expect_self (by decide))
      (reads_stringify value hentries.1 (delimited_cons (by decide) (by decide))) ?_
      (Dialect.expect_self (by decide))
    exact Dialect.expect_of_ne (Dialect.skipSpaces_of_not_space (by decide)) (by decide)
  | (key, value), entry :: entries, rest, hentries => by
    rw [JsonValue.EntriesWellFormed] at hentries
    rw [entriesText_cons, List.append_assoc, List.cons_append, List.append_assoc]
    exact .property (readKey_quote key _) (Dialect.expect_self (by decide))
      (reads_stringify value hentries.1 (delimited_cons (by decide) (by decide)))
      (Dialect.expect_self (by decide)) (reads_stringifyEntries entry entries hentries.2)
termination_by entry entries => sizeOf (entry :: entries)

end

/-- `JSON.parse(JSON.stringify(v))` is `v`. -/
theorem parse_stringify {v : JsonValue} (h : v.WellFormed) : parse (stringify v) = some v := by
  have hreads := reads_stringify v h delimited_nil
  rw [List.append_nil] at hreads
  exact evaluate_eq_some_iff.mpr ⟨[], hreads, rfl⟩

end

end JsonText
end Lib
