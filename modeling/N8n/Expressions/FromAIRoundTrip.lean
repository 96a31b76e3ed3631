import N8n.Expressions.FromAIDefaults

/-!
# A call of `$fromAI` that is written is read back

`extractFromAICalls` finds the call that `createFromAIExpression` writes, reads all of its
arguments and gives their record (`readCall_argsText`). It then looks for more calls inside the
arguments, and of the description and the default value it reads what `unescapeArg` and
`parseDefaultValue` leave. So what is read is what was written exactly when no call stands in
them, no backslash in the description stands before a quote or a backslash and the default value
survives (`createFromAIExpression_readBack_iff`).
-/

open Lib

namespace N8n

/-! ## The arguments as they are written -/

/-- What follows the first argument. -/
def textAfter (args : List JsString) : JsString := args.flatMap (units ", " ++ ·)

theorem intercalate_eq (arg : JsString) (args : List JsString) :
    (units ", ").intercalate (arg :: args) = arg ++ textAfter args := by
  induction args generalizing arg with
  | nil => simp [textAfter]
  | cons arg' args ih =>
    rw [List.intercalate_cons_cons, ih]
    simp [textAfter]

/-- The arguments that are read after the first one. -/
def readArgs : List JsString → List JsString
  | [] => []
  | arg :: args => (splitArguments none false (units " ") (arg ++ textAfter args)).map cleanArg

/-- An argument ends where the text of the next one begins. -/
theorem splitArguments_textAfter {currentArg : JsString} (hne : currentArg ≠ [])
    (args : List JsString) :
    (splitArguments none false currentArg (textAfter args)).map cleanArg =
      cleanArg (trim currentArg) :: readArgs args := by
  cases args with
  | nil =>
    rw [textAfter, List.flatMap_nil, splitArguments, if_neg hne]
    rfl
  | cons arg args =>
    have hspace : isPlain (codeUnit ' ') = true ∧ codeUnit ' ' ≠ codeUnit ',' := by decide
    have htext : textAfter (arg :: args) =
        codeUnit ',' :: ([codeUnit ' '] ++ (arg ++ textAfter args)) := by
      simp [textAfter, units, codeUnit, charUnit]
    rw [htext, splitArguments, if_neg Bool.false_ne_true, if_neg (by decide), if_neg (by decide),
      if_pos ⟨rfl, rfl⟩, readsAs_plain hspace.1 hspace.2 [] (arg ++ textAfter args), List.map_cons]
    rfl

theorem readArgs_escapeArg (s : JsString) (args : List JsString) :
    readArgs (escapeArg s :: args) = unescapeArg s :: readArgs args := by
  obtain ⟨htrim, -, hclean⟩ := cleanArg_quoted (isQuote_getBestQuoteChar s) s
  rw [readArgs, readsAs_escapeArg s, splitArguments_textAfter (List.append_ne_nil_of_left_ne_nil
    (by decide) _), htrim, hclean]

theorem cleanArgs_escapeArg (s : JsString) (args : List JsString) :
    (splitArguments none false [] (escapeArg s ++ textAfter args)).map cleanArg =
      unescapeArg s :: readArgs args := by
  obtain ⟨-, htrim, hclean⟩ := cleanArg_quoted (isQuote_getBestQuoteChar s) s
  rw [readsAs_escapeArg s, List.nil_append, splitArguments_textAfter (List.cons_ne_nil _ _), htrim, hclean]

theorem readArgs_last (text : JsString) : (readArgs [text])[0]? = some (readArgument text) := by
  obtain ⟨taken, args, hsplit, -⟩ := splitArguments_head text none false (units " ") (by decide)
  rw [readArgs, textAfter, List.flatMap_nil, List.append_nil, readArgument, hsplit]
  rfl

/-! ## Keys and types -/

/-- Nothing in the text has a meaning in a call. -/
theorem plain_of_keyUnits {s : JsString} (h : ∀ u ∈ s, isKeyUnit u = true) :
    unescapeArg s = s ∧ hasCall s = false := by
  have hnot : ∀ {u : UInt16}, isKeyUnit u = false → u ∉ s := by
    intro u hu hmem
    rw [h u hmem] at hu
    cases hu
  have hbackslash : codeUnit '\\' ∉ s := hnot (by decide)
  refine ⟨(unescapeArg_eq_self_iff s).mpr fun u _ hpart => ?_,
    hasCall_of_not_mem_dollar (hnot (by decide))⟩
  exact hbackslash (hpart.subset List.mem_cons_self)

theorem mem_collapseUnderscores {s : JsString} : ∀ u ∈ collapseUnderscores s, u ∈ s := by
  fun_induction collapseUnderscores s with
  | case1 u v s _ ih => exact fun x hx => List.mem_cons_of_mem u (ih x hx)
  | case2 u v s _ ih =>
    intro x hx
    rcases List.mem_cons.mp hx with rfl | hx
    · exact List.mem_cons_self
    · exact List.mem_cons_of_mem u (ih x hx)
  | case3 s _ => exact fun x hx => hx

theorem isKeyUnit_sanitizeFromAIKey (key : JsString) :
    ∀ u ∈ sanitizeFromAIKey key, isKeyUnit u = true := by
  intro u hu
  simp only [sanitizeFromAIKey] at hu
  split at hu
  · revert u
    decide
  · have hmem := (List.dropWhile_suffix _).subset ((List.rdropWhile_prefix _ _).subset
      (List.mem_of_mem_take hu))
    obtain ⟨u', -, rfl⟩ := List.mem_map.mp (mem_collapseUnderscores u hmem)
    split
    · assumption
    · decide

theorem isKeyUnit_name (type : FromAIArgumentType) : ∀ u ∈ type.name, isKeyUnit u = true := by
  cases type <;> decide

theorem passes_escapeArg (s : JsString) : Passes (escapeArg s) :=
  (escapeForQuote_spec (isQuote_getBestQuoteChar s) s).1.passes (isQuote_getBestQuoteChar s)

theorem passes_serializeDefaultValue (v : JsonValue) : Passes (serializeDefaultValue v) := by
  cases v with
  | string s => exact passes_escapeArg s
  | number x => exact passes_stringify (.number x)
  | boolean b => exact passes_stringify (.boolean b)
  | null => exact passes_stringify .null
  | array items => exact passes_stringify (.array items)
  | object entries => exact passes_stringify (.object entries)

theorem passes_textAfter {args : List JsString} (h : ∀ arg ∈ args, Passes arg) :
    Passes (textAfter args) := by
  induction args with
  | nil => exact passes_nil
  | cons arg args ih =>
    rw [List.forall_mem_cons] at h
    rw [textAfter, List.flatMap_cons, ← textAfter]
    exact ((passes_of_plain (by decide)).append h.1).append (ih h.2)

/-- A call in quotes or after them. -/
theorem hasCall_escapeArg (s t : JsString) :
    hasCall (escapeArg s ++ t) = (hasCall s || hasCall t) := by
  have hq := isQuote_getBestQuoteChar s
  have hcall := isCallUnit_of_isQuote hq
  have htext : escapeArg s ++ t = getBestQuoteChar s ::
      (escapeForQuote s (getBestQuoteChar s) ++ getBestQuoteChar s :: t) := by
    simp [escapeArg]
  rw [htext, hasCall_cons_of_not hcall, hasCall_append hcall, hasCall_escapeForQuote hq]

theorem hasCall_separator (t : JsString) : hasCall (units ", " ++ t) = hasCall t := by
  have hsearch := searchFromAI_append (s := units ", ") (by decide) t
  rw [hasCall, hsearch]
  rfl

/-! ## The record of the call -/

section

variable (key : JsString) (description : Option JsString) (type : FromAIArgumentType)
  (defaultValue : Option JsonValue)

/-- The text of the arguments, and what is written after it. -/
def argsText : JsString := (units ", ").intercalate (fromAIArgs key description type defaultValue)

def afterArgs : JsString := units ") \x7d\x7d"

/-- Whether a description is written. -/
def writesDescription : Prop := description.isSome ∨ type ≠ .string ∨ defaultValue.isSome

instance : Decidable (writesDescription description type defaultValue) :=
  inferInstanceAs (Decidable (_ ∨ _ ∨ _))

/-- The arguments after the key. -/
def laterArgs : List JsString :=
  (if writesDescription description type defaultValue then [escapeArg (description.getD [])]
    else []) ++
    (if type ≠ .string ∨ defaultValue.isSome then [escapeArg type.name] else []) ++
    (defaultValue.map serializeDefaultValue).toList

/-- The record that is read of what is written. -/
def readRecord : FromAIArgument where
  key := sanitizeFromAIKey key
  description := if writesDescription description type defaultValue then
    some (unescapeArg (description.getD [])) else none
  type := type.name
  defaultValue := defaultValue.map fun v =>
    parseDefaultValue (readArgument (serializeDefaultValue v)) type.name

theorem argsText_eq : argsText key description type defaultValue =
    escapeArg (sanitizeFromAIKey key) ++ textAfter (laterArgs description type defaultValue) := by
  rw [argsText, ← intercalate_eq, fromAIArgs, laterArgs]
  rfl

theorem passes_argsText : Passes (argsText key description type defaultValue) := by
  rw [argsText_eq]
  refine (passes_escapeArg _).append (passes_textAfter fun arg harg => ?_)
  simp only [laterArgs, List.mem_append] at harg
  rcases harg with (harg | harg) | harg
  · split at harg
    · exact List.mem_singleton.mp harg ▸ passes_escapeArg _
    · cases harg
  · split at harg
    · exact List.mem_singleton.mp harg ▸ passes_escapeArg _
    · cases harg
  · cases defaultValue with
    | none => cases harg
    | some v => exact List.mem_singleton.mp harg ▸ passes_serializeDefaultValue v

theorem isFromAIArgumentType_name : isFromAIArgumentType type.name = true := by
  cases type <;> decide

theorem parseArguments_argsText : parseArguments (argsText key description type defaultValue) =
    .ok (readRecord key description type defaultValue) := by
  have hkey := (plain_of_keyUnits (isKeyUnit_sanitizeFromAIKey key)).1
  have htype := (plain_of_keyUnits (isKeyUnit_name type)).1
  have hargs := cleanArgs_escapeArg (sanitizeFromAIKey key) (laterArgs description type defaultValue)
  rw [← argsText_eq, hkey] at hargs
  have hvalid := isFromAIArgumentType_name type
  by_cases hwritten : type ≠ .string ∨ defaultValue.isSome
  · -- key, description and type are written
    have hdescription : writesDescription description type defaultValue := .inr hwritten
    rw [laterArgs, if_pos hdescription, if_pos hwritten, List.append_assoc, List.singleton_append,
      List.singleton_append, readArgs_escapeArg, readArgs_escapeArg, htype] at hargs
    have hdefault : (readArgs (defaultValue.map serializeDefaultValue).toList)[0]? =
        defaultValue.map fun v => readArgument (serializeDefaultValue v) := by
      cases defaultValue with
      | none => rfl
      | some v => exact readArgs_last (serializeDefaultValue v)
    simp only [parseArguments, hargs, List.getElem?_cons_zero, List.getElem?_cons_succ,
      Option.getD_some, hvalid, if_true, hdefault, readRecord, if_pos hdescription, Option.map_map]
    rfl
  · rw [not_or, not_not] at hwritten
    obtain ⟨rfl, hnone⟩ := hwritten
    obtain rfl : defaultValue = none := by simpa using hnone
    have hstring : isFromAIArgumentType (units "string") = true := by decide
    cases description with
    | none =>
      have hargs' : (splitArguments none false [] (argsText key none .string none)).map cleanArg =
          [sanitizeFromAIKey key] := hargs
      simp only [parseArguments, hargs']
      rfl
    | some d =>
      have hlater : laterArgs (some d) .string none = [escapeArg d] := rfl
      rw [hlater, readArgs_escapeArg] at hargs
      simp only [parseArguments, hargs]
      rfl

theorem readCall_argsText : readCall (argsText key description type defaultValue ++ afterArgs) =
    .ok (readRecord key description type defaultValue) := by
  have hscan := passes_argsText key description type defaultValue 0 afterArgs
  have hclose : scanArguments none 1 afterArgs = some [] := by decide
  rw [hclose, Option.map_some, List.append_nil] at hscan
  simp only [readCall, hscan, parseArguments_argsText]

/-! ## Other calls -/

/-- The first call that is found is the one that is written. -/
theorem searchFromAI_createFromAIExpression :
    searchFromAI (createFromAIExpression key description type defaultValue) =
      some (argsText key description type defaultValue ++ afterArgs) := by
  have htext : createFromAIExpression key description type defaultValue =
      (units "=\x7b\x7b " ++ fromAIMarker ++ units " ") ++ (units "$fromAI(" ++
        (argsText key description type defaultValue ++ afterArgs)) := by
    have hcall : units " $fromAI(" = units " " ++ units "$fromAI(" := by decide
    simp only [createFromAIExpression, hcall, argsText, afterArgs, List.append_assoc]
  obtain ⟨q, tail, hargs, hspace⟩ : ∃ q tail,
      argsText key description type defaultValue ++ afterArgs = q :: tail ∧ isSpace q = false := by
    rw [argsText_eq]
    exact ⟨_, _, rfl, isSpace_of_isQuote (isQuote_getBestQuoteChar _)⟩
  have hmatch : ∀ rest, matchFromAI (units "$fromAI(" ++ rest) = some (rest.dropWhile isSpace) :=
    fun rest => rfl
  have hdrop : (q :: tail).dropWhile isSpace = q :: tail :=
    List.dropWhile_cons_of_neg (by simp [hspace])
  rw [htext, searchFromAI_append (by decide), hargs]
  have hcons : ∃ u s, units "$fromAI(" ++ q :: tail = u :: s := ⟨_, _, rfl⟩
  obtain ⟨u, s, hus⟩ := hcons
  rw [hus, searchFromAI, ← hus, hmatch, hdrop]
  rfl

theorem hasCall_afterArgs (text : JsString) : hasCall (text ++ afterArgs) = hasCall text := by
  have hcall : isCallUnit (codeUnit ')') = false := by decide
  have hrest : hasCall (units " \x7d\x7d") = false := hasCall_of_not_mem_dollar (by decide)
  have htext : text ++ afterArgs = text ++ codeUnit ')' :: units " \x7d\x7d" := rfl
  rw [htext, hasCall_append hcall, hrest, Bool.or_false]

/-- More calls are found in the description and the default value only. -/
theorem hasCall_argsText : hasCall (argsText key description type defaultValue ++ afterArgs) =
    (hasCall (description.getD []) || hasCall ((defaultValue.map serializeDefaultValue).getD [])) := by
  have hkey := (plain_of_keyUnits (isKeyUnit_sanitizeFromAIKey key)).2
  have htype := (plain_of_keyUnits (isKeyUnit_name type)).2
  have hnil : hasCall [] = false := rfl
  have hdefault : hasCall (textAfter (defaultValue.map serializeDefaultValue).toList) =
      hasCall ((defaultValue.map serializeDefaultValue).getD []) := by
    cases defaultValue with
    | none => rfl
    | some v =>
      have htext : textAfter ((some v).map serializeDefaultValue).toList =
          units ", " ++ serializeDefaultValue v := by
        simp [textAfter]
      rw [htext, hasCall_separator]
      rfl
  rw [hasCall_afterArgs, argsText_eq, hasCall_escapeArg, hkey, Bool.false_or, laterArgs]
  by_cases hwritten : type ≠ .string ∨ defaultValue.isSome
  · have hdescription : writesDescription description type defaultValue := .inr hwritten
    have htext : ∀ d rest, textAfter ([d] ++ [escapeArg type.name] ++ rest) =
        units ", " ++ (d ++ (units ", " ++ (escapeArg type.name ++ textAfter rest))) := by
      intro d rest
      simp [textAfter]
    rw [if_pos hdescription, if_pos hwritten, htext, hasCall_separator, hasCall_escapeArg,
      hasCall_separator, hasCall_escapeArg, htype, Bool.false_or, hdefault]
  · rw [if_neg hwritten]
    rw [not_or, not_not] at hwritten
    obtain ⟨rfl, hnone⟩ := hwritten
    obtain rfl : defaultValue = none := by simpa using hnone
    cases description with
    | none => rfl
    | some d =>
      have htext : textAfter ((if writesDescription (some d) .string none then
          [escapeArg ((some d).getD [])] else []) ++ [] ++ (none.map serializeDefaultValue).toList) =
          units ", " ++ (escapeArg d ++ []) := by
        have hwrites : writesDescription (some d) .string none := .inl rfl
        rw [if_pos hwrites]
        simp [textAfter]
      rw [htext, hasCall_separator, hasCall_escapeArg]
      rfl

theorem extractFromAICalls_of_none {str : JsString} (h : searchFromAI str = none) :
    extractFromAICalls str = .ok [] := by
  rw [extractFromAICalls]
  split
  · rfl
  · rename_i rest hrest
    rw [h] at hrest
    cases hrest

theorem extractFromAICalls_of_some {str rest : JsString} (h : searchFromAI str = some rest) :
    extractFromAICalls str = (readCall rest).bind fun parsedArgs =>
      (extractFromAICalls rest).map fun args => parsedArgs :: args := by
  rw [extractFromAICalls]
  split
  · rename_i hnone
    rw [h] at hnone
    cases hnone
  · rename_i rest' hrest
    obtain rfl := Option.some.inj (h.symm.trans hrest)
    cases readCall rest with
    | error error => rfl
    | ok parsedArgs => cases extractFromAICalls rest <;> rfl

/-- There are records exactly when there are calls, unless an error is thrown. -/
theorem extractFromAICalls_eq_nil_iff {str : JsString} :
    extractFromAICalls str = .ok [] ↔ hasCall str = false := by
  rw [hasCall]
  cases h : searchFromAI str with
  | none => exact iff_of_true (extractFromAICalls_of_none h) rfl
  | some rest =>
    refine iff_of_false (fun hnil => ?_) (by simp)
    rw [extractFromAICalls_of_some h] at hnil
    cases hcall : readCall rest with
    | error error =>
      rw [hcall] at hnil
      cases hnil
    | ok parsedArgs =>
      rw [hcall] at hnil
      cases hrest : extractFromAICalls rest with
      | error error =>
        rw [hrest] at hnil
        cases hnil
      | ok args =>
        rw [hrest] at hnil
        cases hnil

/-- One record is read when there is no other call from where the arguments of the first begin. -/
theorem extractFromAICalls_eq_singleton_iff {str rest : JsString} (h : searchFromAI str = some rest)
    (record : FromAIArgument) :
    extractFromAICalls str = .ok [record] ↔ readCall rest = .ok record ∧ hasCall rest = false := by
  rw [extractFromAICalls_of_some h, ← extractFromAICalls_eq_nil_iff]
  cases readCall rest with
  | error error =>
    refine iff_of_false (fun h => by cases h) ?_
    rintro ⟨h, -⟩
    cases h
  | ok parsedArgs =>
    cases extractFromAICalls rest with
    | error error =>
      refine iff_of_false (fun h => by cases h) ?_
      rintro ⟨-, h⟩
      cases h
    | ok args =>
      constructor
      · intro h
        obtain ⟨rfl, rfl⟩ := List.cons.inj (Except.ok.inj h)
        exact ⟨rfl, rfl⟩
      · rintro ⟨hrecord, hnil⟩
        obtain rfl := Except.ok.inj hrecord
        obtain rfl := Except.ok.inj hnil
        rfl

/-- One record is read when there is no other call, the record of what was written. -/
theorem extractFromAICalls_createFromAIExpression (record : FromAIArgument) :
    extractFromAICalls (createFromAIExpression key description type defaultValue) = .ok [record] ↔
      readRecord key description type defaultValue = record ∧
        hasCall (argsText key description type defaultValue ++ afterArgs) = false := by
  rw [extractFromAICalls_eq_singleton_iff (searchFromAI_createFromAIExpression key description type
    defaultValue), readCall_argsText, Except.ok.injEq]

end

/-! ## Reading back -/

/-- What is read as the default value equals the one that was given. -/
def DefaultRead (value : Option DefaultValue) : Option ParameterValue → Prop
  | none => value = none
  | some v => ∃ value', value = some value' ∧ ReadsEqual value' v.1

/-- `records` is one record, of what was given. -/
def ReadBack (key : JsString) (description : Option JsString) (type : FromAIArgumentType)
    (defaultValue : Option ParameterValue) (records : Except JsString (List FromAIArgument)) : Prop :=
  ∃ record, records = .ok [record] ∧ record.key = sanitizeFromAIKey key ∧
    (record.description = description ∨ description = none ∧ record.description = some []) ∧
    record.type = type.name ∧ DefaultRead record.defaultValue defaultValue

theorem readRecord_description_iff (key : JsString) (description : Option JsString)
    (type : FromAIArgumentType) (defaultValue : Option JsonValue) :
    ((readRecord key description type defaultValue).description = description ∨
        description = none ∧
          (readRecord key description type defaultValue).description = some []) ↔
      ∀ d ∈ description, Unescaped d := by
  cases description with
  | none =>
    refine iff_of_true ?_ fun d hd => by cases hd
    by_cases hwrites : writesDescription none type defaultValue
    · refine .inr ⟨rfl, ?_⟩
      rw [readRecord, if_pos hwrites]
      rfl
    · exact .inl (if_neg hwrites)
  | some d =>
    have hwrites : writesDescription (some d) type defaultValue := .inl rfl
    have hrecord : (readRecord key (some d) type defaultValue).description = some (unescapeArg d) := by
      rw [readRecord, if_pos hwrites]
      rfl
    rw [hrecord, or_iff_left fun h => Option.some_ne_none d h.1, Option.some_inj,
      unescapeArg_eq_self_iff]
    simp

/-- A call that is written is read back exactly when neither the description nor the default value
has a call in it, no backslash in the description stands before a quote or a backslash, and the
default value survives. -/
theorem createFromAIExpression_readBack_iff (key : JsString) (description : Option JsString)
    (type : FromAIArgumentType) (defaultValue : Option ParameterValue) :
    ReadBack key description type defaultValue
        (extractFromAICalls (createFromAIExpression key description type
          (defaultValue.map Subtype.val))) ↔
      (∀ d ∈ description, hasCall d = false ∧ Unescaped d) ∧
        ∀ v ∈ defaultValue, hasCall (serializeDefaultValue v.1) = false ∧ DefaultSurvives type v.1 := by
  have hdescription := readRecord_description_iff key description type (defaultValue.map Subtype.val)
  have hcall := hasCall_argsText key description type (defaultValue.map Subtype.val)
  have hvalue : DefaultRead (readRecord key description type
      (defaultValue.map Subtype.val)).defaultValue defaultValue ↔
      ∀ v ∈ defaultValue, DefaultSurvives type v.1 := by
    cases defaultValue with
    | none => exact iff_of_true rfl fun v hv => by cases hv
    | some v =>
      have hiff := readsEqual_default_iff type v.2
      constructor
      · rintro ⟨value, hvalue, hequal⟩ v' hv'
        obtain rfl := Option.some.inj hv'
        obtain rfl := Option.some.inj hvalue
        exact hiff.mp hequal
      · exact fun h => ⟨_, rfl, hiff.mpr (h v rfl)⟩
  have hnone : hasCall (argsText key description type (defaultValue.map Subtype.val) ++ afterArgs) =
      false ↔ (∀ d ∈ description, hasCall d = false) ∧
        ∀ v ∈ defaultValue, hasCall (serializeDefaultValue v.1) = false := by
    have hnil : hasCall [] = false := rfl
    rw [hcall, Bool.or_eq_false_iff]
    cases description <;> cases defaultValue <;> simp [hnil]
  constructor
  · rintro ⟨record, hrecords, -, hread, -, hdefault⟩
    obtain ⟨rfl, hcalls⟩ := (extractFromAICalls_createFromAIExpression key description type
      (defaultValue.map Subtype.val) record).mp hrecords
    obtain ⟨hcalls, hcalls'⟩ := hnone.mp hcalls
    exact ⟨fun d hd => ⟨hcalls d hd, hdescription.mp hread d hd⟩,
      fun v hv => ⟨hcalls' v hv, hvalue.mp hdefault v hv⟩⟩
  · rintro ⟨hd, hv⟩
    refine ⟨readRecord key description type (defaultValue.map Subtype.val), ?_, rfl,
      hdescription.mpr fun d hmem => (hd d hmem).2, rfl, hvalue.mpr fun v hmem => (hv v hmem).2⟩
    exact (extractFromAICalls_createFromAIExpression key description type
      (defaultValue.map Subtype.val) _).mpr ⟨rfl, hnone.mpr
        ⟨fun d hmem => (hd d hmem).1, fun v hmem => (hv v hmem).1⟩⟩

/-- The backslashes of a description are taken away twice. -/
theorem createFromAIExpression_not_readBack :
    ¬∀ (key : JsString) (description : Option JsString) (type : FromAIArgumentType)
        (defaultValue : Option ParameterValue), ReadBack key description type defaultValue
      (extractFromAICalls (createFromAIExpression key description type
        (defaultValue.map Subtype.val))) := by
  intro h
  obtain ⟨record, hrecords, -, hread, -, -⟩ := h (units "path") (some (units "C:\\\\share")) .string none
  obtain ⟨rfl, -⟩ := (extractFromAICalls_createFromAIExpression (units "path")
    (some (units "C:\\\\share")) .string none record).mp hrecords
  have hunescaped := (readRecord_description_iff (units "path") (some (units "C:\\\\share"))
    .string none).mp hread _ rfl
  have hescaped : ¬Unescaped (units "C:\\\\share") := by
    intro hall
    exact hall (codeUnit '\\') (by decide) ⟨units "C:", units "share", by decide⟩
  exact hescaped hunescaped

end N8n
