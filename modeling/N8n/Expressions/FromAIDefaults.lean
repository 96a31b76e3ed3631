import N8n.Expressions.FromAIScan

/-!
# Default values of `$fromAI`

A default value that is no string is written as JSON. `scanArguments` goes over such a text
(`passes_stringify`), but `splitArguments` cuts it at the first comma between two elements and
takes the backslashes out of its strings : it keeps the text of a `Narrow` value without
backslashes (`readsAs_or_cuts`), and what is left of any other is no text of the value.
-/

open Lib

namespace N8n

/-! ## Strings of JSON -/

theorem inside_unicodeEscape (u : UInt16) :
    Inside (charUnit '"') (JsonText.unicodeEscape u) := by
  have hdigits : ∀ n : Fin 16, JsonText.hexDigit n ≠ codeUnit '\\' ∧
      JsonText.hexDigit n ≠ charUnit '"' := by
    decide
  have hu : u.toNat < 65536 := u.toNat_lt
  have hplain : ∀ {n : ℕ} {s : JsString}, n < 16 → Inside (charUnit '"') s →
      Inside (charUnit '"') (JsonText.hexDigit n :: s) :=
    fun {n s} hn hs => .plain (hdigits ⟨n, hn⟩).1 (hdigits ⟨n, hn⟩).2 hs
  exact .escaped (hplain (by omega) (hplain (by omega) (hplain (by omega) (hplain (by omega) .nil))))

theorem inside_escapeUnit (u : UInt16) : Inside (charUnit '"') (JsonText.escapeUnit u) := by
  unfold JsonText.escapeUnit
  split
  · exact .escaped .nil
  · rename_i hnone
    obtain ⟨hquote, hbackslash⟩ := JsonText.shortEscape?_eq_none hnone
    split
    · exact inside_unicodeEscape u
    · exact .plain hbackslash hquote .nil

theorem inside_escapeUnits (s : JsString) : Inside (charUnit '"') (JsonText.escapeUnits s) := by
  fun_induction JsonText.escapeUnits s with
  | case1 => exact .nil
  | case2 u => exact inside_escapeUnit u
  | case3 u v s hpair ih =>
    obtain ⟨hu, -, hu'⟩ := JsonText.surrogate_plain (.inl hpair.1)
    obtain ⟨hv, -, hv'⟩ := JsonText.surrogate_plain (.inr hpair.2)
    exact .plain hu' hu (.plain hv' hv ih)
  | case4 u v s hpair ih => exact (inside_escapeUnit u).append ih

theorem passes_quote (s : JsString) : Passes (JsonText.quote s) :=
  (inside_escapeUnits s).passes (by decide)

variable {s : JsString}

theorem readsAs_quote (h : codeUnit '\\' ∉ JsonText.quote s) :
    ReadsAs (JsonText.quote s) (JsonText.quote s) := by
  have hreads := (inside_escapeUnits s).readsAs (by decide)
  rwa [dropEscapes_of_not_mem fun hmem => h (List.mem_cons_of_mem _ (List.mem_append_left _ hmem))]
    at hreads

/-! ## Passing -/

theorem isPlain_toUnits (x : JsNumber) : ∀ u ∈ x.toUnits, isPlain u = true ∧ u ≠ codeUnit ',' := by
  have hunits : ∀ u ∈ units "0123456789+-.e", isPlain u = true ∧ u ≠ codeUnit ',' := by decide
  exact fun u hu => hunits u (of_decide_eq_true (JsNumber.isNumberUnit_toUnits x u hu))

variable {u : UInt16}

theorem Passes.cons (hu : isPlain u = true) (h : Passes s) :
    Passes (u :: s) := (passes_plain hu).append h

mutual

theorem passes_stringify : ∀ v : JsonValue, Passes (JsonText.stringify v)
  | .null => passes_of_plain (by decide)
  | .boolean true => passes_of_plain (by decide)
  | .boolean false => passes_of_plain (by decide)
  | .number x => passes_of_plain fun u hu => (isPlain_toUnits x u hu).1
  | .string s => passes_quote s
  | .array [] => passes_of_plain (by decide)
  | .array (item :: items) => by
    rw [JsonText.stringify_array]
    exact .cons (by decide) ((passes_itemsText item items).append (passes_plain (by decide)))
  | .object [] => passes_of_plain (by decide)
  | .object (entry :: entries) => by
    rw [JsonText.stringify_object]
    exact .cons (by decide) ((passes_entriesText entry entries).append (passes_plain (by decide)))
termination_by v => sizeOf v

theorem passes_itemsText : ∀ (item : JsonValue) (items : List JsonValue),
    Passes (JsonText.itemsText (item :: items))
  | item, [] => by
    rw [JsonText.itemsText_singleton]
    exact passes_stringify item
  | item, item' :: items => by
    rw [JsonText.itemsText_cons]
    exact (passes_stringify item).append (.cons (by decide) (passes_itemsText item' items))
termination_by item items => sizeOf (item :: items)

theorem passes_entriesText : ∀ (entry : JsString × JsonValue)
    (entries : List (JsString × JsonValue)), Passes (JsonText.entriesText (entry :: entries))
  | (key, value), [] => by
    rw [JsonText.entriesText_singleton]
    exact (passes_quote key).append (.cons (by decide) (passes_stringify value))
  | (key, value), entry :: entries => by
    rw [JsonText.entriesText_cons]
    exact (passes_quote key).append (.cons (by decide)
      ((passes_stringify value).append (.cons (by decide) (passes_entriesText entry entries))))
termination_by entry entries => sizeOf (entry :: entries)

end

/-! ## Keeping -/

/-- No array or object has more than one element. -/
def Narrow : JsonValue → Prop
  | .array [] => True
  | .array [item] => Narrow item
  | .array (_ :: _ :: _) => False
  | .object [] => True
  | .object [(_, value)] => Narrow value
  | .object (_ :: _ :: _) => False
  | _ => True

/-- `splitArguments` ends the argument before the end of the text. -/
def Cuts (s : JsString) : Prop :=
  ∀ currentArg rest, ∃ pre args, splitArguments none false currentArg (s ++ rest) =
    trim (currentArg ++ pre) :: args ∧ JsonText.weight pre < JsonText.weight s

theorem Cuts.append (h : Cuts s) (t : JsString) : Cuts (s ++ t) := by
  intro currentArg rest
  obtain ⟨pre, args, hsplit, hlt⟩ := h currentArg (t ++ rest)
  rw [List.append_assoc, JsonText.weight_append]
  exact ⟨pre, args, hsplit, by omega⟩

theorem ReadsAs.cuts {t : JsString} (hs : ReadsAs s s) (ht : Cuts t) : Cuts (s ++ t) := by
  intro currentArg rest
  obtain ⟨pre, args, hsplit, hlt⟩ := ht (currentArg ++ s) rest
  refine ⟨s ++ pre, args, ?_, ?_⟩
  · rw [List.append_assoc, hs currentArg (t ++ rest), hsplit, List.append_assoc]
  · simp only [JsonText.weight_append]
    omega

theorem cuts_comma (s : JsString) : Cuts (codeUnit ',' :: s) := by
  have hcomma : JsonText.unitWeight (codeUnit ',') = 1 := by decide
  intro currentArg rest
  refine ⟨[], splitArguments none false [] (s ++ rest), ?_, ?_⟩
  · rw [List.cons_append, splitArguments, if_neg Bool.false_ne_true, if_neg (by decide),
      if_neg (by decide), if_pos ⟨rfl, rfl⟩, List.append_nil]
  · rw [JsonText.weight_cons, hcomma, JsonText.weight_nil]
    omega

theorem ReadsAs.cons (hu : isPlain u = true) (hcomma : u ≠ codeUnit ',') (h : ReadsAs s s) :
    ReadsAs (u :: s) (u :: s) := (readsAs_plain hu hcomma).append h

theorem Cuts.cons (hu : isPlain u = true) (hcomma : u ≠ codeUnit ',') (h : Cuts s) :
    Cuts (u :: s) := (readsAs_plain hu hcomma).cuts h

/-- Of a text without backslashes, the argument goes on after it or ends inside it. -/
theorem readsAs_or_cuts : ∀ v : JsonValue, codeUnit '\\' ∉ JsonText.stringify v →
    Narrow v ∧ ReadsAs (JsonText.stringify v) (JsonText.stringify v) ∨
      ¬Narrow v ∧ Cuts (JsonText.stringify v)
  | .null, _ => .inl ⟨trivial, readsAs_of_plain (by decide)⟩
  | .boolean true, _ => .inl ⟨trivial, readsAs_of_plain (by decide)⟩
  | .boolean false, _ => .inl ⟨trivial, readsAs_of_plain (by decide)⟩
  | .number x, _ => .inl ⟨trivial, readsAs_of_plain (isPlain_toUnits x)⟩
  | .string s, h => .inl ⟨trivial, readsAs_quote h⟩
  | .array [], _ => .inl ⟨trivial, readsAs_of_plain (by decide)⟩
  | .array [item], h => by
    rw [JsonText.stringify_array, JsonText.itemsText_singleton] at h ⊢
    have hitem : codeUnit '\\' ∉ JsonText.stringify item :=
      fun hmem => h (List.mem_cons_of_mem _ (List.mem_append_left _ hmem))
    rw [Narrow]
    rcases readsAs_or_cuts item hitem with ⟨hnarrow, hreads⟩ | ⟨hwide, hcuts⟩
    · exact .inl ⟨hnarrow, .cons (by decide) (by decide)
        (hreads.append (readsAs_plain (by decide) (by decide)))⟩
    · exact .inr ⟨hwide, .cons (by decide) (by decide) (hcuts.append _)⟩
  | .array (item :: item' :: items), h => by
    rw [JsonText.stringify_array, JsonText.itemsText_cons] at h ⊢
    have hitem : codeUnit '\\' ∉ JsonText.stringify item := fun hmem =>
      h (List.mem_cons_of_mem _ (List.mem_append_left _ (List.mem_append_left _ hmem)))
    refine .inr ⟨by simp [Narrow], .cons (by decide) (by decide) (.append ?_ _)⟩
    rcases readsAs_or_cuts item hitem with ⟨-, hreads⟩ | ⟨-, hcuts⟩
    · exact hreads.cuts (cuts_comma _)
    · exact hcuts.append _
  | .object [], _ => .inl ⟨trivial, readsAs_of_plain (by decide)⟩
  | .object [(key, value)], h => by
    rw [JsonText.stringify_object, JsonText.entriesText_singleton] at h ⊢
    have hkey : codeUnit '\\' ∉ JsonText.quote key := fun hmem =>
      h (List.mem_cons_of_mem _ (List.mem_append_left _ (List.mem_append_left _ hmem)))
    have hvalue : codeUnit '\\' ∉ JsonText.stringify value := fun hmem =>
      h (List.mem_cons_of_mem _ (List.mem_append_left _ (List.mem_append_right _
        (List.mem_cons_of_mem _ hmem))))
    rw [Narrow]
    rcases readsAs_or_cuts value hvalue with ⟨hnarrow, hreads⟩ | ⟨hwide, hcuts⟩
    · exact .inl ⟨hnarrow, .cons (by decide) (by decide)
        (((readsAs_quote hkey).append (.cons (by decide) (by decide) hreads)).append
          (readsAs_plain (by decide) (by decide)))⟩
    · exact .inr ⟨hwide, .cons (by decide) (by decide)
        (((readsAs_quote hkey).cuts (.cons (by decide) (by decide) hcuts)).append _)⟩
  | .object ((key, value) :: entry :: entries), h => by
    rw [JsonText.stringify_object, JsonText.entriesText_cons] at h ⊢
    have hkey : codeUnit '\\' ∉ JsonText.quote key := fun hmem =>
      h (List.mem_cons_of_mem _ (List.mem_append_left _ (List.mem_append_left _ hmem)))
    have hvalue : codeUnit '\\' ∉ JsonText.stringify value := fun hmem =>
      h (List.mem_cons_of_mem _ (List.mem_append_left _ (List.mem_append_right _
        (List.mem_cons_of_mem _ (List.mem_append_left _ hmem)))))
    refine .inr ⟨by simp [Narrow], .cons (by decide) (by decide) (.append ?_ _)⟩
    refine (readsAs_quote hkey).cuts (.cons (by decide) (by decide) ?_)
    rcases readsAs_or_cuts value hvalue with ⟨-, hreads⟩ | ⟨-, hcuts⟩
    · exact hreads.cuts (cuts_comma _)
    · exact hcuts.append _

/-! ## Reading the last argument -/

/-- The argument that is read from its text, which comes after a comma and a space. -/
def readArgument (text : JsString) : JsString :=
  cleanArg ((splitArguments none false (units " ") text).headD [])

variable {text : JsString}

/-- A text in which spaces stand at neither end. -/
theorem trim_space {v : UInt16} (htext : text = u :: s ∧ text.getLast? = some v)
    (hu : isSpace u = false) (hv : isSpace v = false) :
    trim (units " " ++ text) = text ∧ trim text = text := by
  obtain ⟨rfl, hlast⟩ := htext
  have hdrop : (units " " ++ u :: s).dropWhile isSpace = u :: s := by
    rw [List.dropWhile_append_of_pos (by decide), List.dropWhile_cons_of_neg (by simp [hu])]
  have hdrop' : (u :: s).dropWhile isSpace = u :: s := List.dropWhile_cons_of_neg (by simp [hu])
  have hrdrop : (u :: s).rdropWhile isSpace = u :: s := by
    rw [List.rdropWhile_eq_self_iff]
    intro hne
    rw [List.getLast?_eq_some_getLast hne] at hlast
    rw [Option.some.inj hlast, hv]
    exact Bool.false_ne_true
  exact ⟨by rw [trim, hdrop, hrdrop], by rw [trim, hdrop', hrdrop]⟩

/-- An argument without quotes around it is read as it is. -/
theorem cleanArg_plain (htrim : trim (u :: s) = u :: s) (hu : isQuote u = false) :
    cleanArg (u :: s) = u :: s := by
  have hquotes : ((units "'\x60\"").any fun quote =>
      (u :: s).head? = some quote && (u :: s).getLast? = some quote) = false := by
    rw [List.any_eq_false]
    intro quote hquote
    have hne : u ≠ quote := by
      rintro rfl
      have hisQuote : ∀ u ∈ units "'\x60\"", isQuote u = true := by decide
      rw [hisQuote u hquote] at hu
      cases hu
    simp [hne]
  simp only [cleanArg, htrim, hquotes]
  rfl

/-- An argument in quotes is read without its backslashes. -/
theorem cleanArg_quoted {q : UInt16} (hq : isQuote q = true) (s : JsString) :
    trim (units " " ++ q :: (s ++ [q])) = q :: (s ++ [q]) ∧
      trim (q :: (s ++ [q])) = q :: (s ++ [q]) ∧
      cleanArg (q :: (s ++ [q])) = unescapeArg s := by
  have hspace := isSpace_of_isQuote hq
  have hlast : (q :: (s ++ [q])).getLast? = some q := List.getLast?_concat (l := q :: s)
  obtain ⟨htrim, htrim'⟩ := trim_space ⟨rfl, hlast⟩ hspace hspace
  have hquotes : ((units "'\x60\"").any fun quote =>
      (q :: (s ++ [q])).head? = some quote && (q :: (s ++ [q])).getLast? = some quote) = true := by
    have hmem : ∀ q ∈ units "\"'\x60", q ∈ units "'\x60\"" := by decide
    rw [List.any_eq_true]
    exact ⟨q, hmem q (of_decide_eq_true hq), by simp [hlast]⟩
  refine ⟨htrim, htrim', ?_⟩
  simp only [cleanArg, htrim', hquotes, if_true]
  simp

/-- A text that is kept is read as it is. -/
theorem readArgument_of_readsAs {arg : JsString} (h : ReadsAs text arg) :
    readArgument text = cleanArg (trim (units " " ++ arg)) := by
  have hsplit := h (units " ") []
  have hne : units " " ++ arg ≠ [] := List.append_ne_nil_of_left_ne_nil (by decide) arg
  rw [List.append_nil, splitArguments, if_neg hne] at hsplit
  rw [readArgument, hsplit, List.headD_cons]

theorem readsAs_escapeArg (s : JsString) :
    ReadsAs (escapeArg s) (getBestQuoteChar s :: (s ++ [getBestQuoteChar s])) := by
  have hq := isQuote_getBestQuoteChar s
  obtain ⟨hinside, hdrop⟩ := escapeForQuote_spec hq s
  have hreads := hinside.readsAs hq
  rwa [hdrop] at hreads

theorem readArgument_escapeArg (s : JsString) : readArgument (escapeArg s) = unescapeArg s := by
  obtain ⟨htrim, -, hclean⟩ := cleanArg_quoted (isQuote_getBestQuoteChar s) s
  rw [readArgument_of_readsAs (readsAs_escapeArg s), htrim, hclean]

/-- A text without quotes around it is read as it is when it is kept. -/
theorem readArgument_plain {v : UInt16} (htext : text = u :: s ∧ text.getLast? = some v)
    (hu : isSpace u = false ∧ isQuote u = false) (hv : isSpace v = false)
    (hreads : ReadsAs text text) : readArgument text = text := by
  obtain ⟨htrim, htrim'⟩ := trim_space htext hu.1 hv
  rw [readArgument_of_readsAs hreads, htrim]
  obtain ⟨rfl, -⟩ := htext
  exact cleanArg_plain htrim' hu.2

theorem trim_append_space (s : JsString) : trim (units " " ++ s) = trim s := by
  rw [trim, List.dropWhile_append_of_pos (by decide), trim]

variable {v : JsonValue}

/-- Of a text that is not kept, something with a weight is gone. -/
theorem weight_readArgument (h : ¬(codeUnit '\\' ∉ JsonText.stringify v ∧ Narrow v)) :
    JsonText.weight (readArgument (JsonText.stringify v)) <
      JsonText.weight (JsonText.stringify v) := by
  have htaken : ∃ taken args, splitArguments none false (units " ") (JsonText.stringify v) =
      trim (units " " ++ taken) :: args ∧
      JsonText.weight taken < JsonText.weight (JsonText.stringify v) := by
    by_cases hbackslash : codeUnit '\\' ∈ JsonText.stringify v
    · obtain ⟨taken, args, hsplit, -, hlt⟩ :=
        splitArguments_head (JsonText.stringify v) none false (units " ") (by decide)
      exact ⟨taken, args, hsplit, hlt rfl hbackslash⟩
    · rcases readsAs_or_cuts v hbackslash with ⟨hnarrow, -⟩ | ⟨-, hcuts⟩
      · exact absurd ⟨hbackslash, hnarrow⟩ h
      · obtain ⟨pre, args, hsplit, hlt⟩ := hcuts (units " ") []
        rw [List.append_nil] at hsplit
        exact ⟨pre, args, hsplit, hlt⟩
  obtain ⟨taken, args, hsplit, hlt⟩ := htaken
  have hle := weight_le_of_isInfix (trim_isInfix taken)
  have hclean := weight_cleanArg (trim (units " " ++ taken))
  rw [readArgument, hsplit, List.headD_cons]
  rw [trim_append_space] at hclean ⊢
  omega

/-! ## What default values are read as -/

/-- With this type the text is read as nothing but a string. -/
def ReadsAsText (type : FromAIArgumentType) (s : JsString) : Prop :=
  ¬(type = .boolean ∧ (toLowerCase s = units "true" ∨ toLowerCase s = units "false")) ∧
    ¬(type = .number ∧ (toNumber s).isSome = true) ∧ JsonText.parse s = none

/-- The default value is read as what it was. -/
def DefaultSurvives (type : FromAIArgumentType) : JsonValue → Prop
  | .string s => Unescaped s ∧ (type = .string ∨ ReadsAsText type s)
  | .array items => type ≠ .string ∧ codeUnit '\\' ∉ JsonText.stringify (.array items) ∧
    Narrow (.array items)
  | .object entries => type ≠ .string ∧ codeUnit '\\' ∉ JsonText.stringify (.object entries) ∧
    Narrow (.object entries)
  | _ => type ≠ .string

/-- The default value that is read equals `v`. -/
def ReadsEqual (value : DefaultValue) (v : JsonValue) : Prop :=
  ∃ v', value = .json v' ∧ v'.Equal v

theorem readsEqual_json {v' : JsonValue} : ReadsEqual (.json v') v ↔ v'.Equal v := by
  constructor
  · rintro ⟨v'', heq, hequal⟩
    cases heq
    exact hequal
  · exact fun hequal => ⟨v', rfl, hequal⟩

theorem name_eq_iff (type : FromAIArgumentType) :
    (type.name = units "string" ↔ type = .string) ∧
      (type.name = units "boolean" ↔ type = .boolean) ∧
      (type.name = units "number" ↔ type = .number) := by
  cases type <;> decide

/-- A string type makes a string of every text. -/
theorem parseDefaultValue_string (text : JsString) :
    parseDefaultValue text (FromAIArgumentType.name .string) = .json (.string text) := by
  simp [parseDefaultValue, FromAIArgumentType.name]

/-- The cases of `parseDefaultValue` for the other types. -/
theorem parseDefaultValue_cases {type : FromAIArgumentType} (htype : type ≠ .string)
    (text : JsString) :
    (type = .boolean ∧ (toLowerCase text = units "true" ∨ toLowerCase text = units "false") ∧
        parseDefaultValue text type.name = .json (.boolean (toLowerCase text = units "true"))) ∨
      (∃ number, type = .number ∧ toNumber text = some number ∧
        parseDefaultValue text type.name = .ofNumeric number) ∨
      ¬(type = .boolean ∧ (toLowerCase text = units "true" ∨ toLowerCase text = units "false")) ∧
        ¬(type = .number ∧ (toNumber text).isSome = true) ∧
        parseDefaultValue text type.name = .json ((JsonText.parse text).getD (.string text)) := by
  obtain ⟨hstring, hboolean, hnumber⟩ := name_eq_iff type
  simp only [parseDefaultValue, hstring, hboolean, hnumber, if_neg htype]
  by_cases hb : type = .boolean ∧
      (toLowerCase text = units "true" ∨ toLowerCase text = units "false")
  · exact .inl ⟨hb.1, hb.2, by rw [if_pos hb]⟩
  · rw [if_neg hb]
    by_cases hn : type = .number
    · cases hvalue : toNumber text with
      | some number => exact .inr (.inl ⟨number, hn, rfl, by simp [hn]⟩)
      | none => exact .inr (.inr ⟨hb, by simp, by simp⟩)
    · exact .inr (.inr ⟨hb, fun h => hn h.1, by simp [hn]⟩)

theorem not_readsEqual_ofNumeric {number : Numeric} (h : ∀ x, v ≠ .number x) :
    ¬ReadsEqual (.ofNumeric number) v := by
  rintro ⟨v', heq, hequal⟩
  cases number with
  | finite x =>
    cases heq
    cases v with
    | number x' => exact h x' rfl
    | _ => simp [JsonValue.Equal] at hequal
  | infinite negative => cases heq

theorem readsEqual_string_iff (type : FromAIArgumentType) (s : JsString) :
    ReadsEqual (parseDefaultValue (unescapeArg s) type.name) (.string s) ↔
      DefaultSurvives type (.string s) := by
  rw [DefaultSurvives, ← unescapeArg_eq_self_iff]
  by_cases htype : type = .string
  · subst htype
    rw [parseDefaultValue_string, readsEqual_json, JsonValue.Equal]
    simp
  · rw [or_iff_right htype]
    rcases parseDefaultValue_cases htype (unescapeArg s) with ⟨hb, hlower, heq⟩ |
      ⟨number, hn, hvalue, heq⟩ | ⟨hb, hn, heq⟩
    · rw [heq, readsEqual_json]
      refine iff_of_false (by simp [JsonValue.Equal]) ?_
      rintro ⟨hs, hreads, -, -⟩
      exact hreads ⟨hb, hs ▸ hlower⟩
    · rw [heq]
      refine iff_of_false (not_readsEqual_ofNumeric (by simp)) ?_
      rintro ⟨hs, -, hreads, -⟩
      rw [hs] at hvalue
      exact hreads ⟨hn, by rw [hvalue]; rfl⟩
    · rw [heq]
      cases hparse : JsonText.parse (unescapeArg s) with
      | none =>
        rw [Option.getD_none, readsEqual_json, JsonValue.Equal]
        exact ⟨fun hs => ⟨hs, hs ▸ hb, hs ▸ hn, hs ▸ hparse⟩, fun h => h.1⟩
      | some v' =>
        -- a string that is a text of JSON is shorter than that text
        rw [Option.getD_some, readsEqual_json]
        refine iff_of_false (fun hequal => ?_) ?_
        · have hwell : (JsonValue.string s).WellFormed := by simp [JsonValue.WellFormed]
          have hle := JsonText.weight_stringify_le hwell hparse hequal
          have hquote := JsonText.weight_quote s
          have hcost := JsonText.weight_le_escapeUnits s
          have hunescape := weight_unescapeArg s
          rw [JsonText.stringify] at hle
          omega
        · rintro ⟨hs, -, -, hnone⟩
          rw [hs, hnone] at hparse
          cases hparse

/-- An array or an object. -/
def IsStructure : JsonValue → Prop
  | .array _ => True
  | .object _ => True
  | _ => False

theorem structure_text (h : IsStructure v) :
    ∃ u s w, (JsonText.stringify v = u :: s ∧ (JsonText.stringify v).getLast? = some w) ∧
      u ∈ units "[\x7b" ∧ w ∈ units "]\x7d" := by
  cases v with
  | array items =>
    rw [JsonText.stringify_array]
    exact ⟨charUnit '[', _, charUnit ']', ⟨rfl, List.getLast?_concat (l := charUnit '[' :: _)⟩,
      by decide, by decide⟩
  | object entries =>
    rw [JsonText.stringify_object]
    exact ⟨charUnit '\x7b', _, charUnit '\x7d', ⟨rfl, List.getLast?_concat (l := charUnit '\x7b' :: _)⟩,
      by decide, by decide⟩
  | _ => exact absurd h not_false

/-- A text that begins with a bracket is neither a truth value nor a number. -/
theorem not_special_of_bracket {v : UInt16} (htext : text = u :: s ∧ text.getLast? = some v)
    (hu : u ∈ units "[\x7b") (hv : v ∈ units "]\x7d") :
    ¬(toLowerCase text = units "true" ∨ toLowerCase text = units "false") ∧
      toNumber text = none := by
  have hunits : ∀ u ∈ units "[\x7b", isSpace u = false ∧ lowerUnit u ≠ charUnit 't' ∧
      lowerUnit u ≠ charUnit 'f' ∧ u ≠ charUnit '0' ∧ u ≠ charUnit '-' ∧ u ≠ charUnit '+' ∧
      u ≠ charUnit 'I' ∧ u ≠ charUnit '.' ∧ digitOf? u = none := by
    decide
  have hends : ∀ v ∈ units "]\x7d", isSpace v = false := by decide
  obtain ⟨hspace, ht, hf, hzero, hminus, hplus, hinfinity, hpoint, hdigit⟩ := hunits u hu
  have htrim := (trim_space htext hspace (hends v hv)).2
  obtain ⟨rfl, -⟩ := htext
  refine ⟨?_, ?_⟩
  · rintro (h | h)
    · exact ht (List.cons.inj h).1
    · exact hf (List.cons.inj h).1
  · have hprefix : basePrefix? (u :: s) = none := by
      cases s with
      | nil => rfl
      | cons v s => exact if_pos hzero
    have hdigits : readDigits (u :: s) = ([], u :: s) := readDigits_of_not_digit hdigit
    have hloose : JsNumber.readLoose (u :: s) = none := by
      simp only [JsNumber.readLoose, hdigits, JsNumber.readFraction, if_neg hpoint, List.append_nil,
        if_true]
    have hne : u :: s ≠ units "Infinity" := fun h => hinfinity (List.cons.inj h).1
    have hunsigned : unsignedNumber (u :: s) = none := by
      rw [unsignedNumber, if_neg hne, hloose]
    rw [toNumber, htrim]
    simp only [trimmedNumber, hprefix, if_neg hminus, if_neg hplus, hunsigned]

theorem not_equal_structure {v' : JsonValue} (hv : IsStructure v) (hv' : ¬IsStructure v') :
    ¬v'.Equal v := by
  cases v' with
  | array items => exact absurd trivial hv'
  | object entries => exact absurd trivial hv'
  | _ =>
    cases v with
    | array items => simp [JsonValue.Equal]
    | object entries => simp [JsonValue.Equal]
    | _ => exact absurd hv not_false

theorem readsEqual_structure_iff (type : FromAIArgumentType) (hv : v.WellFormed)
    (hstructure : IsStructure v) :
    ReadsEqual (parseDefaultValue (readArgument (JsonText.stringify v)) type.name) v ↔
      type ≠ .string ∧ codeUnit '\\' ∉ JsonText.stringify v ∧ Narrow v := by
  obtain ⟨u, s, w, htext, hu, hw⟩ := structure_text hstructure
  have hspaces : (∀ u ∈ units "[\x7b", isSpace u = false ∧ isQuote u = false) ∧
      ∀ w ∈ units "]\x7d", isSpace w = false := by
    decide
  by_cases htype : type = .string
  · subst htype
    rw [parseDefaultValue_string, readsEqual_json]
    exact iff_of_false (not_equal_structure hstructure not_false) fun h => h.1 rfl
  by_cases hkept : codeUnit '\\' ∉ JsonText.stringify v ∧ Narrow v
  · refine iff_of_true ?_ ⟨htype, hkept⟩
    have hreads : ReadsAs (JsonText.stringify v) (JsonText.stringify v) := by
      rcases readsAs_or_cuts v hkept.1 with ⟨-, hreads⟩ | ⟨hwide, -⟩
      · exact hreads
      · exact absurd hkept.2 hwide
    obtain ⟨hlower, hnumber⟩ := not_special_of_bracket htext hu hw
    rw [readArgument_plain htext (hspaces.1 u hu) (hspaces.2 w hw) hreads]
    rcases parseDefaultValue_cases htype (JsonText.stringify v) with ⟨-, h, -⟩ |
      ⟨number, -, h, -⟩ | ⟨-, -, heq⟩
    · exact absurd h hlower
    · rw [hnumber] at h
      cases h
    · rw [heq, JsonText.parse_stringify hv, readsEqual_json]
      exact JsonValue.equal_refl v hv
  · refine iff_of_false ?_ fun h => hkept h.2
    have hlt := weight_readArgument hkept
    rcases parseDefaultValue_cases htype (readArgument (JsonText.stringify v)) with ⟨-, -, heq⟩ |
      ⟨number, -, -, heq⟩ | ⟨-, -, heq⟩
    · rw [heq, readsEqual_json]
      exact not_equal_structure hstructure not_false
    · rw [heq]
      refine not_readsEqual_ofNumeric ?_
      rintro x rfl
      exact hstructure
    · rw [heq, readsEqual_json]
      intro hequal
      cases hparse : JsonText.parse (readArgument (JsonText.stringify v)) with
      | none =>
        rw [hparse] at hequal
        exact absurd hequal (not_equal_structure hstructure not_false)
      | some v' =>
        rw [hparse] at hequal
        have hle := JsonText.weight_stringify_le hv hparse hequal
        omega

/-- What is written without quotes and brackets is read as it is. -/
theorem readArgument_of_plain (hne : text ≠ [])
    (h : ∀ u ∈ text, isPlain u = true ∧ u ≠ codeUnit ',' ∧ isSpace u = false) :
    readArgument text = text := by
  obtain ⟨u, s, rfl⟩ := List.exists_cons_of_ne_nil hne
  have hlast := List.getLast?_eq_some_getLast (List.cons_ne_nil u s)
  have hu := h u List.mem_cons_self
  have hquote : isQuote u = false := by
    have hplain := hu.1
    simp only [isPlain, Bool.and_eq_true, Bool.not_eq_true', decide_eq_true_eq] at hplain
    exact hplain.1.1.1
  exact readArgument_plain ⟨rfl, hlast⟩ ⟨hu.2.2, hquote⟩ (h _ (List.getLast_mem _)).2.2
    (readsAs_of_plain fun u hu => ⟨(h u hu).1, (h u hu).2.1⟩)

theorem readsEqual_number_iff (type : FromAIArgumentType) (x : JsNumber) :
    ReadsEqual (parseDefaultValue (readArgument x.toUnits) type.name) (.number x) ↔
      type ≠ .string := by
  have hunits : ∀ u ∈ units "0123456789+-.e", isPlain u = true ∧ u ≠ codeUnit ',' ∧
      isSpace u = false ∧ lowerUnit u ≠ charUnit 't' ∧ lowerUnit u ≠ charUnit 'f' := by
    decide
  have hmem : ∀ u ∈ x.toUnits, u ∈ units "0123456789+-.e" :=
    fun u hu => of_decide_eq_true (JsNumber.isNumberUnit_toUnits x u hu)
  have hread : readArgument x.toUnits = x.toUnits :=
    readArgument_of_plain (JsNumber.toUnits_ne_nil x) fun u hu =>
      ⟨(hunits u (hmem u hu)).1, (hunits u (hmem u hu)).2.1, (hunits u (hmem u hu)).2.2.1⟩
  have hparse : JsonText.parse x.toUnits = some (.number x) :=
    JsonText.parse_stringify (v := .number x) (by simp [JsonValue.WellFormed])
  by_cases htype : type = .string
  · subst htype
    rw [parseDefaultValue_string, readsEqual_json]
    exact iff_of_false (by simp [JsonValue.Equal]) fun h => h rfl
  refine iff_of_true ?_ htype
  rw [hread]
  rcases parseDefaultValue_cases htype x.toUnits with ⟨-, h, -⟩ | ⟨number, -, h, heq⟩ | ⟨-, -, heq⟩
  · obtain ⟨u, s, hcons⟩ := List.exists_cons_of_ne_nil (JsNumber.toUnits_ne_nil x)
    obtain ⟨-, -, -, ht, hf⟩ := hunits u (hmem u (by simp [hcons]))
    rw [hcons] at h
    rcases h with h | h
    · exact absurd (List.cons.inj h).1 ht
    · exact absurd (List.cons.inj h).1 hf
  · rw [toNumber_toUnits] at h
    obtain rfl := Option.some.inj h
    exact ⟨.number x, heq, by simp [JsonValue.Equal]⟩
  · rw [heq, hparse, readsEqual_json]
    simp [JsonValue.Equal]

theorem readsEqual_boolean_iff (type : FromAIArgumentType) (b : Bool) :
    ReadsEqual (parseDefaultValue (readArgument (if b then units "true" else units "false"))
      type.name) (.boolean b) ↔ type ≠ .string := by
  have hread : readArgument (if b then units "true" else units "false") =
      if b then units "true" else units "false" := by
    cases b with
    | true => exact readArgument_of_plain (by decide) (by decide)
    | false => exact readArgument_of_plain (by decide) (by decide)
  have hnumber : toNumber (if b then units "true" else units "false") = none := by
    cases b <;> rfl
  have hparse : JsonText.parse (if b then units "true" else units "false") = some (.boolean b) := by
    have h := JsonText.parse_stringify (v := .boolean b) (by simp [JsonValue.WellFormed])
    rwa [JsonText.stringify] at h
  have hlower : decide (toLowerCase (if b then units "true" else units "false") = units "true") = b := by
    cases b <;> decide
  by_cases htype : type = .string
  · subst htype
    rw [parseDefaultValue_string, readsEqual_json]
    exact iff_of_false (by simp [JsonValue.Equal]) fun h => h rfl
  refine iff_of_true ?_ htype
  rw [hread]
  rcases parseDefaultValue_cases htype (if b then units "true" else units "false") with ⟨-, -, heq⟩ |
    ⟨number, -, h, -⟩ | ⟨-, -, heq⟩
  · rw [heq, hlower, readsEqual_json]
    simp [JsonValue.Equal]
  · rw [hnumber] at h
    cases h
  · rw [heq, hparse, readsEqual_json]
    simp [JsonValue.Equal]

theorem readsEqual_null_iff (type : FromAIArgumentType) :
    ReadsEqual (parseDefaultValue (readArgument (units "null")) type.name) .null ↔
      type ≠ .string := by
  have hread : readArgument (units "null") = units "null" :=
    readArgument_of_plain (by decide) (by decide)
  have hparse : JsonText.parse (units "null") = some .null :=
    JsonText.parse_stringify (v := .null) (by simp [JsonValue.WellFormed])
  by_cases htype : type = .string
  · subst htype
    rw [parseDefaultValue_string, readsEqual_json]
    exact iff_of_false (by simp [JsonValue.Equal]) fun h => h rfl
  refine iff_of_true ?_ htype
  rw [hread]
  rcases parseDefaultValue_cases htype (units "null") with ⟨-, h, -⟩ | ⟨number, -, h, -⟩ | ⟨-, -, heq⟩
  · exact absurd h (by decide)
  · cases h
  · rw [heq, hparse, readsEqual_json]
    simp [JsonValue.Equal]

/-- A default value is read as what it was exactly when it survives. -/
theorem readsEqual_default_iff (type : FromAIArgumentType) (hv : v.WellFormed) :
    ReadsEqual (parseDefaultValue (readArgument (serializeDefaultValue v)) type.name) v ↔
      DefaultSurvives type v := by
  cases v with
  | null => exact readsEqual_null_iff type
  | boolean b => exact readsEqual_boolean_iff type b
  | number x => exact readsEqual_number_iff type x
  | string s =>
    rw [serializeDefaultValue, readArgument_escapeArg]
    exact readsEqual_string_iff type s
  | array items => exact readsEqual_structure_iff type hv trivial
  | object entries => exact readsEqual_structure_iff type hv trivial

end N8n
