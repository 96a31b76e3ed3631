import N8n.Codegen.FormatValue

/-!
# Parameter values survive code generation

Reading the text of `formatValue` gives the value `reread` tells (`evaluate_formatValue`) : the
same but for three things. `expr` drops an `=` of a string that begins with `==`. A placeholder
whose hint has a line break, or whose prefix and suffix overlap, loses its hint. And an object
literal sets its prototype where it has the key `__proto__`. So a value survives exactly when
none of its strings is such a string and none of its objects has such a key
(`formatValue_survives_iff`).
-/

open Lib

namespace N8n

variable {s : JsString} {rest text : List UInt16}

/-! ## Escaping -/

def escapeUnit (u : UInt16) : JsString :=
  if u = codeUnit '\\' then units "\\\\"
  else if u = codeUnit '\'' then units "\\'"
  else if u = codeUnit '\u2018' then units "\\u2018"
  else if u = codeUnit '\u2019' then units "\\u2019"
  else if u = codeUnit '\u201c' then units "\\u201C"
  else if u = codeUnit '\u201d' then units "\\u201D"
  else if u = codeUnit '\n' then units "\\n"
  else if u = codeUnit '\r' then units "\\r"
  else [u]

theorem escapeString_eq (s : JsString) : escapeString s = s.flatMap escapeUnit := by
  have hs : s = s.flatMap fun u => [u] := by simp
  conv_lhs => rw [escapeString, hs]
  simp only [replaceUnit_flatMap]
  refine List.flatMap_congr fun u _ => ?_
  unfold escapeUnit
  by_cases hbackslash : u = codeUnit '\\'
  · subst hbackslash
    decide
  by_cases hquote : u = codeUnit '\''
  · subst hquote
    decide
  by_cases hleft : u = codeUnit '\u2018'
  · subst hleft
    decide
  by_cases hright : u = codeUnit '\u2019'
  · subst hright
    decide
  by_cases hleft' : u = codeUnit '\u201c'
  · subst hleft'
    decide
  by_cases hright' : u = codeUnit '\u201d'
  · subst hright'
    decide
  by_cases hn : u = codeUnit '\n'
  · subst hn
    decide
  by_cases hr : u = codeUnit '\r'
  · subst hr
    decide
  simp only [replaceUnit, List.flatMap_singleton, if_neg hbackslash, if_neg hquote, if_neg hleft,
    if_neg hright, if_neg hleft', if_neg hright', if_neg hn, if_neg hr]

/-- The quote of the strings that are written. -/
def singleQuote : UInt16 := charUnit '\''

theorem readString_escapeUnit (u : UInt16) (text : List UInt16) :
    readString singleQuote (escapeUnit u ++ text) =
      (readString singleQuote text).map fun r => (u :: r.1, r.2) := by
  have hquote : singleQuote ≠ charUnit '\\' := by decide
  have hescape : ∀ {u e : UInt16}, isSingleEscape e = true → e ≠ charUnit 'u' → singleEscape e = u →
      readString singleQuote ([charUnit '\\', e] ++ text) =
        (readString singleQuote text).map fun r => (u :: r.1, r.2) := by
    rintro u e he hu rfl
    exact readQuoted_escape hquote (by decide) he hu text
  have hunicode : ∀ {u a b c d : UInt16},
      escapeUnit u = [charUnit '\\', charUnit 'u', a, b, c, d] → hexUnit? a b c d = some u →
        readString singleQuote (escapeUnit u ++ text) =
          (readString singleQuote text).map fun r => (u :: r.1, r.2) := by
    intro u a b c d hunit hvalue
    rw [hunit]
    exact readQuoted_unicode hquote (by decide) hvalue text
  by_cases hbackslash : u = codeUnit '\\'
  · subst hbackslash
    exact hescape (by decide) (by decide) (by decide)
  by_cases hsingle : u = codeUnit '\''
  · subst hsingle
    exact hescape (by decide) (by decide) (by decide)
  by_cases hleft : u = codeUnit '\u2018'
  · subst hleft
    exact hunicode (a := charUnit '2') (b := charUnit '0') (c := charUnit '1') (d := charUnit '8')
      (by decide) (by decide)
  by_cases hright : u = codeUnit '\u2019'
  · subst hright
    exact hunicode (a := charUnit '2') (b := charUnit '0') (c := charUnit '1') (d := charUnit '9')
      (by decide) (by decide)
  by_cases hleft' : u = codeUnit '\u201c'
  · subst hleft'
    exact hunicode (a := charUnit '2') (b := charUnit '0') (c := charUnit '1') (d := charUnit 'C')
      (by decide) (by decide)
  by_cases hright' : u = codeUnit '\u201d'
  · subst hright'
    exact hunicode (a := charUnit '2') (b := charUnit '0') (c := charUnit '1') (d := charUnit 'D')
      (by decide) (by decide)
  by_cases hn : u = codeUnit '\n'
  · subst hn
    exact hescape (by decide) (by decide) (by decide)
  by_cases hr : u = codeUnit '\r'
  · subst hr
    exact hescape (by decide) (by decide) (by decide)
  simp only [escapeUnit, if_neg hbackslash, if_neg hsingle, if_neg hleft, if_neg hright,
    if_neg hleft', if_neg hright', if_neg hn, if_neg hr]
  exact readQuoted_plain hsingle (Bool.or_eq_false_iff.mpr ⟨decide_eq_false hn, decide_eq_false hr⟩)
    hbackslash text

theorem readString_escapeString (s : JsString) (text : List UInt16) :
    readString singleQuote (escapeString s ++ singleQuote :: text) = some (s, text) := by
  rw [escapeString_eq]
  induction s with
  | nil => exact readQuoted_quote _
  | cons u s ih =>
    rw [List.flatMap_cons, List.append_assoc, readString_escapeUnit, ih]
    rfl

/-! ## What is read -/

def rereadString (value : JsString) : JsString :=
  if isPlaceholderValue value then placeholder (extractPlaceholderHint value)
  else if units "=" <+: value then expr (value.drop 1)
  else value

mutual

/-- The value that is read again. -/
def reread : JsonValue → JsonValue
  | .string value => .string (rereadString value)
  | .array items => .array (rereadItems items)
  | .object entries => .object (rereadEntries entries)
  | v => v

def rereadItems : List JsonValue → List JsonValue
  | [] => []
  | item :: items => reread item :: rereadItems items

def rereadEntries : List (JsString × JsonValue) → List (JsString × JsonValue)
  | [] => []
  | (key, value) :: entries =>
    if key = protoKey then rereadEntries entries
    else (key, reread value) :: rereadEntries entries

end

/-- The string is read again as it was. -/
def StringSurvives (value : JsString) : Prop :=
  ¬units "==" <+: value ∧ (isPlaceholderValue value = true →
    ∃ hint, value = placeholder hint ∧ ∀ u ∈ hint, isLineTerminator u = false)

mutual

/-- The strings survive, and no object has the key `__proto__`. -/
def Survives : JsonValue → Prop
  | .string value => StringSurvives value
  | .array items => ItemsSurvive items
  | .object entries => EntriesSurvive entries
  | _ => True

def ItemsSurvive : List JsonValue → Prop
  | [] => True
  | item :: items => Survives item ∧ ItemsSurvive items

def EntriesSurvive : List (JsString × JsonValue) → Prop
  | [] => True
  | (key, value) :: entries =>
    (key ≠ protoKey ∧ Survives value) ∧ EntriesSurvive entries

end

/-! ## Strings -/

theorem extractPlaceholderHint_placeholder {hint : JsString}
    (h : ∀ u ∈ hint, isLineTerminator u = false) :
    extractPlaceholderHint (placeholder hint) = hint := by
  have hhint : ((placeholder hint).drop placeholderPrefix.length).take
      ((placeholder hint).length - placeholderPrefix.length - placeholderSuffix.length) = hint := by
    simp [placeholder]
  have hany : hint.any isLineTerminator = false := by simpa using h
  simp only [extractPlaceholderHint, hhint]
  exact if_pos ⟨rfl, by rw [hany]; rfl⟩

theorem isLineTerminator_of_mem_hint {value : JsString} {u : UInt16}
    (h : u ∈ extractPlaceholderHint value) : isLineTerminator u = false := by
  unfold extractPlaceholderHint at h
  dsimp only at h
  split at h
  · rename_i hmatch
    have hnone := hmatch.2
    rw [Bool.not_eq_true', List.any_eq_false] at hnone
    exact Bool.not_eq_true _ ▸ hnone u h
  · cases h

theorem not_equals_prefix_of_placeholder {value : JsString} (h : isPlaceholderValue value = true) :
    ¬units "=" <+: value := by
  intro hequals
  obtain ⟨t, rfl⟩ := (of_decide_eq_true h).1
  exact absurd (List.cons_prefix_cons.mp hequals).1 (by decide)

theorem rereadString_eq_iff (value : JsString) : rereadString value = value ↔ StringSurvives value := by
  have hdouble : units "==" <+: value → units "=" <+: value :=
    List.IsPrefix.trans ⟨units "=", rfl⟩
  unfold rereadString StringSurvives
  by_cases hplaceholder : isPlaceholderValue value = true
  · rw [if_pos hplaceholder, and_iff_right
      fun h => not_equals_prefix_of_placeholder hplaceholder (hdouble h)]
    constructor
    · exact fun h _ => ⟨_, h.symm, fun u hu => isLineTerminator_of_mem_hint hu⟩
    · intro h
      obtain ⟨hint, rfl, hnone⟩ := h hplaceholder
      rw [extractPlaceholderHint_placeholder hnone]
  · rw [if_neg hplaceholder, and_iff_left fun h => absurd h hplaceholder]
    by_cases hequals : units "=" <+: value
    · rw [if_pos hequals]
      obtain ⟨t, rfl⟩ := hequals
      have hiff : units "==" <+: units "=" ++ t ↔ units "=" <+: t :=
        List.prefix_append_right_inj (units "=")
      rw [hiff]
      by_cases ht : units "=" <+: t
      · obtain ⟨t, rfl⟩ := ht
        refine iff_of_false (fun h => ?_) (not_not_intro ⟨t, rfl⟩)
        have hlength := congrArg List.length h
        simp [expr, units] at hlength
      · refine iff_of_true ?_ ht
        have hdrop : (units "=" ++ t).drop 1 = t := rfl
        rw [hdrop, expr, if_neg ht]
    · rw [if_neg hequals]
      exact iff_of_true rfl fun h => hequals (hdouble h)

/-! ## Reading what is written -/

theorem hasNames_sdkLiterals : sdkLiterals.HasNames := hasNames_literals sdkFunction

theorem toUnits_start (x : JsNumber) :
    ∃ u tail, x.toUnits = u :: tail ∧ isSpace u = false ∧ u ≠ charUnit ']' ∧
      expressionStart u = .number :=
  JsNumber.head_toUnits_of (p := fun u => isSpace u = false ∧ u ≠ charUnit ']' ∧ expressionStart u = .number)
    (by decide) (by decide) x

theorem startsInside_formatValue (v : JsonValue) : StartsInside sdkLiterals (charUnit ']') (formatValue v) := by
  have hstart : ∀ {u : UInt16} {tail : List UInt16}, isSpace u = false → u ≠ charUnit ']' →
      StartsInside sdkLiterals (charUnit ']') (u :: tail) := fun hspace hend => ⟨_, _, rfl, hspace, hend⟩
  cases v with
  | null => exact hstart (by decide) (by decide)
  | boolean b => cases b <;> exact hstart (by decide) (by decide)
  | number x =>
    obtain ⟨u, tail, hcons, hspace, hend, -⟩ := toUnits_start x
    exact ⟨u, tail, hcons, hspace, hend⟩
  | string value =>
    unfold formatValue
    split
    · exact hstart (by decide) (by decide)
    · split
      · exact hstart (by decide) (by decide)
      · exact hstart (by decide) (by decide)
  | array items => exact hstart (by decide) (by decide)
  | object entries =>
    unfold formatValue
    split
    · exact hstart (by decide) (by decide)
    · exact hstart (by decide) (by decide)

/-- A string literal is read to its end. -/
theorem readString_quoted (value rest : JsString) :
    ∃ tail, quoted value ++ rest = singleQuote :: tail ∧
      readString singleQuote tail = some (value, rest) := by
  refine ⟨escapeString value ++ singleQuote :: rest, ?_, readString_escapeString value rest⟩
  simp [quoted, units, singleQuote]

theorem reads_quoted {value : JsString} (h : sdkLiterals.skipSpaces text = quoted value ++ rest) :
    Reads sdkLiterals (.value (.string value)) text rest := by
  obtain ⟨tail, htail, hread⟩ := readString_quoted value rest
  exact .string (h.trans htail) (by decide) hread

/-- A call of a function of the SDK with a string. -/
theorem reads_sdkCall {name value : JsString} {result : JsonValue} (hname : IsName name)
    (hkeyword : keyword? name = none) (hcall : sdkFunction name (.string value) = some result)
    (h : sdkLiterals.skipSpaces text = name ++ units "(" ++ quoted value ++ units ")" ++ rest) :
    Reads sdkLiterals (.value result) text rest := by
  have hargument : Reads sdkLiterals (.value (.string value))
      (quoted value ++ charUnit ')' :: rest) (charUnit ')' :: rest) :=
    reads_quoted (Dialect.skipSpaces_of_not_space (by decide))
  refine reads_call hasNames_sdkLiterals hname hkeyword ?_ (by decide) hargument
    (Dialect.expect_self (by decide)) hcall
  simpa [units] using h

/-- A key without quotes is a name. -/
theorem isName_of_not_needsQuoting {key : JsString} (h : needsQuoting key = false) : IsName key := by
  cases key with
  | nil => cases h
  | cons u key =>
    rw [needsQuoting, Bool.not_eq_false', Bool.and_eq_true, List.all_eq_true] at h
    obtain ⟨hstart, hparts⟩ := h
    refine ⟨?_, ?_, List.cons_ne_nil u key⟩
    · rintro u' (_ | ⟨_, hmem⟩)
      · exact Bool.or_eq_true _ _ ▸ .inl hstart
      · exact hparts u' hmem
    · intro u' hu
      obtain rfl := Option.some.inj hu
      exact hstart

theorem readKey_formatKey {key : JsString}
    (h : sdkLiterals.skipSpaces text = formatKey key ++ charUnit ':' :: rest) :
    sdkLiterals.readKey text = some (key, charUnit ':' :: rest) := by
  unfold formatKey at h
  split at h
  · obtain ⟨tail, htail, hread⟩ := readString_quoted key (charUnit ':' :: rest)
    have hstart : sdkLiterals.start singleQuote = .string := by decide
    simp only [Dialect.readKey, h.trans htail, hstart]
    exact hread
  · rename_i hquoting
    have hname := isName_of_not_needsQuoting (Bool.not_eq_true _ ▸ hquoting)
    cases key with
    | nil => exact absurd rfl hname.ne_nil
    | cons u key =>
      have hcolon : ∀ u' ∈ (charUnit ':' :: rest).head?, isNamePart u' = false := by
        intro u' hu
        obtain rfl := Option.some.inj hu
        decide
      have hstart : sdkLiterals.start u = .name := expressionStart_of_isNameStart (hname.start u rfl)
      obtain ⟨htake, hdrop⟩ := takeWhile_name hname.parts hcolon
      rw [List.cons_append] at h htake hdrop
      simp only [Dialect.readKey, h, hstart, htake, hdrop]
      rfl

theorem isName_expr : IsName (units "expr") := ⟨by decide, by decide, by decide⟩

theorem isName_placeholder : IsName (units "placeholder") := ⟨by decide, by decide, by decide⟩

theorem reads_formatString (value : JsString)
    (h : sdkLiterals.skipSpaces text = formatValue (.string value) ++ rest) :
    Reads sdkLiterals (.value (reread (.string value))) text rest := by
  unfold reread rereadString
  unfold formatValue at h
  split at h
  · rename_i hplaceholder
    rw [if_pos hplaceholder]
    exact reads_sdkCall isName_placeholder (by decide) rfl h
  · rename_i hplaceholder
    rw [if_neg hplaceholder]
    split at h
    · rename_i hequals
      rw [if_pos hequals]
      exact reads_sdkCall isName_expr (by decide) rfl h
    · rename_i hequals
      rw [if_neg hequals]
      exact reads_quoted h

/-- What is written between the brackets. -/
def itemsText (items : List JsonValue) : JsString := (units ", ").intercalate (formatItems items)

def entriesText (entries : List (JsString × JsonValue)) : JsString :=
  (units ", ").intercalate (formatEntries entries)

theorem formatValue_array (items : List JsonValue) :
    formatValue (.array items) = charUnit '[' :: (itemsText items ++ [charUnit ']']) := by
  rw [formatValue]
  rfl

theorem formatValue_object (entry : JsString × JsonValue) (entries : List (JsString × JsonValue)) :
    formatValue (.object (entry :: entries)) =
      charUnit '\x7b' :: charUnit ' ' ::
        (entriesText (entry :: entries) ++ [charUnit ' ', charUnit '\x7d']) := by
  rw [formatValue, if_neg (List.cons_ne_nil entry entries)]
  rfl

theorem itemsText_cons (item item' : JsonValue) (items : List JsonValue) :
    itemsText (item :: item' :: items) =
      formatValue item ++ charUnit ',' :: charUnit ' ' :: itemsText (item' :: items) := by
  rw [itemsText, formatItems, formatItems, List.intercalate_cons_cons, List.append_assoc]
  rfl

theorem entriesText_cons (key : JsString) (value : JsonValue) (entry : JsString × JsonValue)
    (entries : List (JsString × JsonValue)) :
    entriesText ((key, value) :: entry :: entries) =
      formatKey key ++ charUnit ':' :: charUnit ' ' :: (formatValue value ++
        charUnit ',' :: charUnit ' ' :: entriesText (entry :: entries)) := by
  rw [entriesText, formatEntries, formatEntries, List.intercalate_cons_cons]
  simp [entriesText, formatEntries, units]

theorem itemsText_singleton (item : JsonValue) : itemsText [item] = formatValue item := by
  rw [itemsText, formatItems, formatItems, List.intercalate_singleton]

theorem entriesText_singleton (key : JsString) (value : JsonValue) :
    entriesText [(key, value)] = formatKey key ++ charUnit ':' :: charUnit ' ' :: formatValue value := by
  rw [entriesText, formatEntries, formatEntries, List.intercalate_singleton]
  simp [units]

theorem startsInside_itemsText (item : JsonValue) (items : List JsonValue) :
    StartsInside sdkLiterals (charUnit ']') (itemsText (item :: items)) := by
  obtain ⟨u, tail, hcons, hspace, hend⟩ := startsInside_formatValue item
  cases items with
  | nil => exact ⟨u, tail, by rw [itemsText_singleton, hcons], hspace, hend⟩
  | cons item' items => exact ⟨u, _, by rw [itemsText_cons, hcons, List.cons_append], hspace, hend⟩

theorem startsInside_formatKey (key : JsString) :
    StartsInside sdkLiterals (charUnit '\x7d') (formatKey key) := by
  unfold formatKey
  split
  · exact ⟨_, _, rfl, by decide, by decide⟩
  · rename_i hquoting
    have hname := isName_of_not_needsQuoting (Bool.not_eq_true _ ▸ hquoting)
    cases key with
    | nil => exact absurd rfl hname.ne_nil
    | cons u key =>
      have hstart : isNameStart u = true := hname.start u rfl
      refine ⟨u, key, rfl, ?_, ?_⟩
      · by_contra hspace
        rw [not_isNameStart_of_isSpace ((Bool.not_eq_false _).mp hspace)] at hstart
        cases hstart
      · rintro rfl
        exact absurd hstart (by decide)

theorem startsInside_entriesText (entry : JsString × JsonValue)
    (entries : List (JsString × JsonValue)) :
    StartsInside sdkLiterals (charUnit '\x7d') (entriesText (entry :: entries)) := by
  obtain ⟨key, value⟩ := entry
  obtain ⟨u, tail, hcons, hspace, hend⟩ := startsInside_formatKey key
  cases entries with
  | nil => exact ⟨u, _, by rw [entriesText_singleton, hcons, List.cons_append], hspace, hend⟩
  | cons entry entries =>
    exact ⟨u, _, by rw [entriesText_cons, hcons, List.cons_append], hspace, hend⟩

theorem wellFormed_keys {entries : List (JsString × JsonValue)}
    (h : (JsonValue.object entries).WellFormed) : (entries.map Prod.fst).Nodup := by
  rw [JsonValue.WellFormed] at h
  exact h.1

/-- `readProperties` gives all the keys, of which `__proto__` is no property. -/
theorem filter_rereadEntries {properties entries : List (JsString × JsonValue)} (key : JsString)
    (value : JsonValue)
    (h : (properties.filter fun property => property.1 ≠ protoKey) = rereadEntries entries) :
    (((key, reread value) :: properties).filter fun property => property.1 ≠ protoKey) =
      rereadEntries ((key, value) :: entries) := by
  rw [rereadEntries]
  by_cases hproto : key = protoKey
  · rw [if_pos hproto, List.filter_cons_of_neg (by simp [hproto]), h]
  · rw [if_neg hproto, List.filter_cons_of_pos (by simp [hproto]), h]

/-- The space before a value is skipped. -/
theorem skipSpaces_value (v : JsonValue) (rest : List UInt16) :
    sdkLiterals.skipSpaces (charUnit ' ' :: (formatValue v ++ rest)) = formatValue v ++ rest :=
  ((startsInside_formatValue v).append rest).skipSpaces_space (by decide)

mutual

/-- A value is read again from where it was written, up to the comma or bracket that follows. -/
theorem reads_formatValue : ∀ (v : JsonValue) {text rest : List UInt16}, v.WellFormed →
    Delimited rest → sdkLiterals.skipSpaces text = formatValue v ++ rest →
    Reads sdkLiterals (.value (reread v)) text rest
  | .null, _, _, _, hrest, h =>
    reads_keyword hasNames_sdkLiterals ⟨by decide, by decide, by decide⟩ hrest h rfl
  | .boolean true, _, _, _, hrest, h =>
    reads_keyword hasNames_sdkLiterals ⟨by decide, by decide, by decide⟩ hrest h rfl
  | .boolean false, _, _, _, hrest, h =>
    reads_keyword hasNames_sdkLiterals ⟨by decide, by decide, by decide⟩ hrest h rfl
  | .number x, _, rest, _, hrest, h => by
    obtain ⟨u, tail, hcons, -, -, hstart⟩ := toUnits_start x
    have hread := JsNumber.readSigned_toUnits x hrest.numberEnds
    rw [hcons, List.cons_append] at hread
    exact .number (h.trans (congrArg (· ++ rest) hcons)) hstart hread
  | .string value, _, _, _, _, h => reads_formatString value h
  | .array [], _, _, _, _, h => .emptyArray h (by decide) (Dialect.expect_self (by decide))
  | .array (item :: items), text, rest, hv, _, h => by
    rw [formatValue_array] at h
    rw [JsonValue.WellFormed, JsonValue.ItemsWellFormed] at hv
    have hstart := (startsInside_itemsText item items).append (charUnit ']' :: rest)
    have hreads := reads_formatItems item items hv.1 hv.2 hstart.skipSpaces
    have hopen : sdkLiterals.skipSpaces text =
        charUnit '[' :: (itemsText (item :: items) ++ charUnit ']' :: rest) := by
      simpa using h
    rw [reread]
    exact .array hopen (by decide) (hstart.expect_close hstart.skipSpaces) hreads
  | .object [], _, _, _, _, h => .emptyObject h (by decide) (Dialect.expect_self (by decide))
  | .object (entry :: entries), text, rest, hv, _, h => by
    rw [formatValue_object] at h
    have hnodup := wellFormed_keys hv
    rw [JsonValue.WellFormed] at hv
    have hstart := (startsInside_entriesText entry entries).append
      (charUnit ' ' :: charUnit '\x7d' :: rest)
    have hskip := hstart.skipSpaces_space (u := charUnit ' ') (by decide)
    obtain ⟨properties, hreads, hkeys, hvalues⟩ := reads_formatEntries entry entries hv.2 hskip
    have hopen : sdkLiterals.skipSpaces text = charUnit '\x7b' :: charUnit ' ' ::
        (entriesText (entry :: entries) ++ charUnit ' ' :: charUnit '\x7d' :: rest) := by
      simpa using h
    rw [reread, ← hvalues, ← ownProperties_of_nodup (by rwa [hkeys])]
    exact .object hopen (by decide) (hstart.expect_close hskip) hreads
termination_by v => sizeOf v

theorem reads_formatItems : ∀ (item : JsonValue) (items : List JsonValue) {text rest : List UInt16},
    item.WellFormed → JsonValue.ItemsWellFormed items →
    sdkLiterals.skipSpaces text = itemsText (item :: items) ++ charUnit ']' :: rest →
    Reads sdkLiterals (.elements (rereadItems (item :: items))) text rest
  | item, [], _, _, hitem, _, h => by
    rw [itemsText_singleton] at h
    have hvalue := reads_formatValue item hitem (delimited_cons (by decide) (by decide)) h
    refine .lastElement hvalue ?_ (Dialect.expect_self (by decide))
    exact Dialect.expect_of_ne (Dialect.skipSpaces_of_not_space (by decide)) (by decide)
  | item, item' :: items, _, rest, hitem, hitems, h => by
    rw [itemsText_cons, List.append_assoc] at h
    rw [JsonValue.ItemsWellFormed] at hitems
    have hvalue := reads_formatValue item hitem (delimited_cons (by decide) (by decide)) h
    have hstart := (startsInside_itemsText item' items).append (charUnit ']' :: rest)
    have hnext := reads_formatItems item' items hitems.1 hitems.2
      (hstart.skipSpaces_space (u := charUnit ' ') (by decide))
    exact .element hvalue (Dialect.expect_self (by decide)) hnext
termination_by item items => sizeOf (item :: items)

theorem reads_formatEntries : ∀ (entry : JsString × JsonValue)
    (entries : List (JsString × JsonValue)) {text rest : List UInt16},
    JsonValue.EntriesWellFormed (entry :: entries) →
    sdkLiterals.skipSpaces text =
      entriesText (entry :: entries) ++ charUnit ' ' :: charUnit '\x7d' :: rest →
    ∃ properties, Reads sdkLiterals (.properties properties) text rest ∧
      properties.map Prod.fst = (entry :: entries).map Prod.fst ∧
      (properties.filter fun property => property.1 ≠ protoKey) = rereadEntries (entry :: entries)
  | (key, value), [], _, rest, hentries, h => by
    rw [JsonValue.EntriesWellFormed] at hentries
    rw [entriesText_singleton] at h
    simp only [List.append_assoc, List.cons_append] at h
    have hvalue := reads_formatValue value hentries.1 (delimited_cons (by decide) (by decide))
      (skipSpaces_value value (charUnit ' ' :: charUnit '\x7d' :: rest))
    have hend : sdkLiterals.skipSpaces (charUnit ' ' :: charUnit '\x7d' :: rest) =
        charUnit '\x7d' :: rest := by
      rw [Dialect.skipSpaces_space (by decide), Dialect.skipSpaces_of_not_space (by decide)]
    refine ⟨[(key, reread value)], ?_, rfl, filter_rereadEntries key value rfl⟩
    exact .lastProperty (readKey_formatKey h) (Dialect.expect_self (by decide)) hvalue
      (Dialect.expect_of_ne hend (by decide)) (Dialect.expect_of_skipSpaces hend)
  | (key, value), entry :: entries, _, rest, hentries, h => by
    rw [JsonValue.EntriesWellFormed] at hentries
    rw [entriesText_cons] at h
    simp only [List.append_assoc, List.cons_append] at h
    have hvalue := reads_formatValue value hentries.1 (delimited_cons (by decide) (by decide))
      (skipSpaces_value value (charUnit ',' :: charUnit ' ' ::
        (entriesText (entry :: entries) ++ charUnit ' ' :: charUnit '\x7d' :: rest)))
    have hstart := (startsInside_entriesText entry entries).append
      (charUnit ' ' :: charUnit '\x7d' :: rest)
    obtain ⟨properties, hnext, hkeys, hfilter⟩ := reads_formatEntries entry entries hentries.2
      (hstart.skipSpaces_space (u := charUnit ' ') (by decide))
    refine ⟨(key, reread value) :: properties, ?_, by rw [List.map_cons, hkeys]; rfl,
      filter_rereadEntries key value hfilter⟩
    exact .property (readKey_formatKey h) (Dialect.expect_self (by decide)) hvalue
      (Dialect.expect_self (by decide)) hnext
termination_by entry entries => sizeOf (entry :: entries)

end

theorem evaluate_formatValue (v : ParameterValue) :
    sdkLiterals.evaluate (formatValue v.1) = some (reread v.1) := by
  have hskip : sdkLiterals.skipSpaces (formatValue v.1) = formatValue v.1 ++ [] := by
    rw [List.append_nil, (startsInside_formatValue v.1).skipSpaces]
  exact evaluate_eq_some_iff.mpr ⟨[], reads_formatValue v.1 v.2 delimited_nil hskip, rfl⟩

/-! ## What survives -/

theorem entriesSurvive_iff {entries : List (JsString × JsonValue)} :
    EntriesSurvive entries ↔
      ∀ entry ∈ entries, entry.1 ≠ protoKey ∧ Survives entry.2 := by
  induction entries with
  | nil => simp [EntriesSurvive]
  | cons entry entries ih => rw [EntriesSurvive, ih, List.forall_mem_cons]

theorem keys_rereadEntries (entries : List (JsString × JsonValue)) :
    (rereadEntries entries).map Prod.fst =
      (entries.map Prod.fst).filter fun key => key ≠ protoKey := by
  induction entries with
  | nil => rfl
  | cons entry entries ih =>
    obtain ⟨key, value⟩ := entry
    rw [rereadEntries, List.map_cons]
    by_cases hproto : key = protoKey
    · rw [if_pos hproto, ih, List.filter_cons_of_neg (by simp [hproto])]
    · rw [if_neg hproto, List.map_cons, ih, List.filter_cons_of_pos (by simp [hproto])]

mutual

theorem equal_reread_iff : ∀ v : JsonValue, v.WellFormed → ((reread v).Equal v ↔ Survives v)
  | .null, _ => by simp only [reread, JsonValue.Equal, Survives]
  | .boolean b, _ => by simp only [reread, JsonValue.Equal, Survives]
  | .number x, _ => by simp only [reread, JsonValue.Equal, Survives]
  | .string value, _ => by
    rw [reread, JsonValue.Equal, Survives]
    exact rereadString_eq_iff value
  | .array items, h => by
    rw [JsonValue.WellFormed] at h
    rw [reread, JsonValue.Equal, Survives]
    exact itemsEqual_reread_iff items h
  | .object entries, h => by
    have hnodup := wellFormed_keys h
    rw [JsonValue.WellFormed] at h
    have hvalues := entriesEqual_reread_iff entries entries h.2
      fun entry hentry => OrderedMap.find_of_mem hnodup hentry
    rw [reread, JsonValue.Equal, Survives, hvalues, entriesSurvive_iff, keys_rereadEntries]
    constructor
    · rintro ⟨hkeys, hsurvive⟩ entry hentry
      have hkey := hkeys entry.1 (List.mem_map_of_mem hentry)
      have hproto := of_decide_eq_true (List.mem_filter.mp hkey).2
      exact ⟨hproto, hsurvive entry hentry hproto⟩
    · intro hsurvive
      refine ⟨fun key hkey => List.mem_filter.mpr ⟨hkey, ?_⟩,
        fun entry hentry _ => (hsurvive entry hentry).2⟩
      obtain ⟨entry, hentry, rfl⟩ := List.mem_map.mp hkey
      exact decide_eq_true (hsurvive entry hentry).1

theorem itemsEqual_reread_iff : ∀ items : List JsonValue, JsonValue.ItemsWellFormed items →
    (JsonValue.ItemsEqual (rereadItems items) items ↔ ItemsSurvive items)
  | [], _ => by simp only [rereadItems, JsonValue.ItemsEqual, ItemsSurvive]
  | item :: items, h => by
    rw [JsonValue.ItemsWellFormed] at h
    rw [rereadItems, JsonValue.ItemsEqual, ItemsSurvive, equal_reread_iff item h.1,
      itemsEqual_reread_iff items h.2]

/-- The entries of an object `whole`. -/
theorem entriesEqual_reread_iff : ∀ entries whole : List (JsString × JsonValue),
    JsonValue.EntriesWellFormed entries →
    (∀ entry ∈ entries, OrderedMap.find entry.1 whole = some entry.2) →
    (JsonValue.EntriesEqual (rereadEntries entries) whole ↔
      ∀ entry ∈ entries, entry.1 ≠ protoKey → Survives entry.2)
  | [], _, _, _ => by simp [rereadEntries, JsonValue.EntriesEqual]
  | (key, value) :: entries, whole, h, hfind => by
    rw [JsonValue.EntriesWellFormed] at h
    obtain ⟨hkey, hrest⟩ := List.forall_mem_cons.mp hfind
    have hentries := entriesEqual_reread_iff entries whole h.2 hrest
    rw [rereadEntries, List.forall_mem_cons]
    by_cases hproto : key = protoKey
    · rw [if_pos hproto, hentries, and_iff_right fun hne => absurd hproto hne]
    · have hvalue : (∃ value', OrderedMap.find key whole = some value' ∧ (reread value).Equal value') ↔
          Survives value := by
        rw [← equal_reread_iff value h.1]
        constructor
        · rintro ⟨value', hvalue', hequal⟩
          obtain rfl := Option.some.inj (hkey.symm.trans hvalue')
          exact hequal
        · exact fun hequal => ⟨value, hkey, hequal⟩
      rw [if_neg hproto, JsonValue.EntriesEqual, hvalue, hentries]
      exact and_congr_left' ⟨fun hsurvives _ => hsurvives, fun hsurvives => hsurvives hproto⟩

end

/-- A parameter value survives code generation exactly when its strings do and no object in it has
the key `__proto__`. -/
theorem formatValue_survives_iff (v : ParameterValue) :
    (∃ v', sdkLiterals.evaluate (formatValue v.1) = some v' ∧ v'.Equal v.1) ↔ Survives v.1 := by
  rw [← equal_reread_iff v.1 v.2, evaluate_formatValue]
  constructor
  · rintro ⟨v', hv', hequal⟩
    obtain rfl := Option.some.inj hv'
    exact hequal
  · exact fun hequal => ⟨_, rfl, hequal⟩

/-- `expr` drops the second `=` of a string. -/
theorem formatValue_loses_equals :
    ¬∀ v : ParameterValue, ∃ v', sdkLiterals.evaluate (formatValue v.1) = some v' ∧ v'.Equal v.1 := by
  intro h
  obtain ⟨v', hv', hequal⟩ := h ⟨.string (units "==x"), by simp [JsonValue.WellFormed]⟩
  rw [evaluate_formatValue] at hv'
  obtain rfl := Option.some.inj hv'
  simp only [reread, JsonValue.Equal] at hequal
  exact absurd hequal (by decide)

end N8n
