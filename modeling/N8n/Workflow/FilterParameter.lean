import N8n.Workflow.ParameterOrder
import N8n.Workflow.TypeValidation

/-!
# The validation of filter parameters

`parseFilterConditionValues` returns a `Result` : it never throws a `FilterError`
(`parseFilterConditionValues_ne_filterError`). `validateFilterParameter` waits for one and does not
look at the result, so it finds no issues at all (`validateFilterParameter_eq`). The conditions it
is right about are those that can be parsed (`reportsCondition_iff`).
-/

open Lib

namespace N8n

/-! ## Filters -/

structure FilterOperatorValue where
  type : FilterOperatorType
  rightType : Option FilterOperatorType := none
  singleValue : Bool := false

structure FilterConditionValue where
  leftValue : JsValue
  operator : FilterOperatorValue
  rightValue : JsValue

inductive TypeValidation where
  | strict
  | loose
  deriving DecidableEq

structure FilterOptionsValue where
  typeValidation : TypeValidation
  version : Option ℕ

structure FilterValue where
  options : FilterOptionsValue
  conditions : List FilterConditionValue

inductive ErrorFormat where
  | full
  | inline
  deriving DecidableEq

/-- What is left out is the default. -/
structure FilterConditionMetadata where
  index : ℕ := 0
  unresolvedExpressions : Bool := false
  itemIndex : ℕ := 0
  errorFormat : ErrorFormat := .full

structure FilterError where
  message : List UInt16
  description : List UInt16

/-- What the code throws. -/
inductive Thrown where
  | filterError (error : FilterError)
  | typeError

variable {δ : Type} (parsers : ValueParsers δ)

/-! ## Parsing -/

def isEmptyString : JsValue → Bool
  | .string s => trim s = []
  | _ => false

def isEmptyArray : JsValue → Bool
  | .array items => items.isEmpty
  | _ => false

def parseSingleFilterValue (value : JsValue) (type : FilterOperatorType) (strict : Bool)
    (version : ℕ) : ValidationResult δ :=
  if type = .any ∨ value.isNullish then .valid (.value value)
  else if type = .boolean ∧ ¬strict then
    let result := validateFieldType parsers "filter" value type false false
    if 2 ≤ version ∧ result.isValid then result else .valid (.value (.boolean value.truthy))
  else if type = .number ∧ value.isNaN then .valid (.value value)
  else if type = .number ∧ (isEmptyString value ∨ isEmptyArray value) ∧ 3 ≤ version then
      .valid (.value .null)
    else validateFieldType parsers "filter" value type strict true

def withIndefiniteArticle (noun : String) : List UInt16 :=
  units (if noun.toList.head?.all (· ∈ "aeiou".toList) then s!"an {noun}" else s!"a {noun}")

/-- `typeof value === 'string' && value.startsWith('=')` -/
def isExpressionValue : JsValue → Bool
  | .string s => s.head? = some (charUnit '=')
  | _ => false

def suffix (metadata : FilterConditionMetadata) : List UInt16 :=
  units (match metadata.errorFormat with
    | .full => s!"[condition {metadata.index}, item {metadata.itemIndex}]"
    | .inline => s!"[item {metadata.itemIndex}]")

def composeInvalidTypeMessage (strict : Bool) (metadata : FilterConditionMetadata)
    (type fromType : String) (value : List UInt16) : List UInt16 :=
  if strict then
    units "Wrong type: '" ++ value ++ units "' is " ++ withIndefiniteArticle fromType ++
      units " but was expecting " ++ withIndefiniteArticle type ++ units " " ++ suffix metadata
  else
    units s!"Conversion error: the {fromType} '" ++ value ++ units "' can't be converted to " ++
      withIndefiniteArticle type ++ units " " ++ suffix metadata

def getTypeDescription (isStrict : Bool) : List UInt16 :=
  units (if isStrict then
    "Try changing the type of comparison. Alternatively you can enable 'Convert types where required'."
  else "Try changing the type of the comparison.")

def convertionFunction (type : FilterOperatorType) : String :=
  match type with
  | .string => ".toString()"
  | .number => ".toNumber()"
  | .boolean => ".toBoolean()"
  | _ => ""

def composeInvalidTypeDescription (strict : Bool) (type : FilterOperatorType)
    (valuePosition : String) : List UInt16 :=
  if strict ∧ convertionFunction type ≠ "" then
    units ("\n<p>Try either:</p>\n<ol>\n  <li>Enabling 'Convert types where required'</li>\n" ++
        s!"  <li>Converting the {valuePosition} field to ") ++
      withIndefiniteArticle type.name ++
      units (s!" by adding <code>{convertionFunction type}</code>" ++ "</li>\n</ol>\n\t\t\t")
  else getTypeDescription strict

/-- What is returned of the parsed values. -/
def filterResult (condition : FilterConditionValue) (strict : Bool)
    (metadata : FilterConditionMetadata) (leftValueString rightValueString : List UInt16)
    (parsedLeftValue parsedRightValue : ValidationResult δ) :
    Except FilterError (ParsedValue δ × ParsedValue δ) :=
  let operator := condition.operator
  let rightType := operator.rightType.getD operator.type
  let leftValid := parsedLeftValue.isValid ||
    (metadata.unresolvedExpressions && isExpressionValue condition.leftValue)
  let rightValid := parsedRightValue.isValid || operator.singleValue ||
    (metadata.unresolvedExpressions && isExpressionValue condition.rightValue)
  if ¬leftValid ∧ ¬rightValid ∧ condition.leftValue.typeof = condition.rightValue.typeof then
    .error
      { message :=
          units "Comparison type expects " ++ withIndefiniteArticle operator.type.name ++
            units " but both fields are " ++ withIndefiniteArticle condition.leftValue.typeof
        description := getTypeDescription strict }
  else if ¬leftValid then
    .error
      { message :=
          composeInvalidTypeMessage strict metadata operator.type.name condition.leftValue.typeof
            leftValueString
        description := composeInvalidTypeDescription strict operator.type "first" }
  else if ¬rightValid then
    .error
      { message :=
          composeInvalidTypeMessage strict metadata rightType.name condition.rightValue.typeof
            rightValueString
        description := composeInvalidTypeDescription strict rightType "second" }
  else .ok (parsedLeftValue.newValue, parsedRightValue.newValue)

/-- Outside what is thrown : a value has no text. Inside the result. -/
def parseFilterConditionValues (condition : FilterConditionValue) (options : FilterOptionsValue)
    (metadata : FilterConditionMetadata) :
    Except Thrown (Except FilterError (ParsedValue δ × ParsedValue δ)) :=
  let strict : Bool := options.typeValidation = .strict
  let version := options.version.getD 1
  let operator := condition.operator
  let rightType := operator.rightType.getD operator.type
  let parsedLeftValue :=
    parseSingleFilterValue parsers condition.leftValue operator.type strict version
  let parsedRightValue :=
    parseSingleFilterValue parsers condition.rightValue rightType strict version
  match condition.leftValue.toText?, condition.rightValue.toText? with
  | some leftValueString, some rightValueString =>
    .ok (filterResult condition strict metadata leftValueString rightValueString parsedLeftValue
      parsedRightValue)
  | _, _ => .error .typeError

/-! ## Validation -/

def issueKey (nodeProperties : INodeProperties) (index : ℕ) : String :=
  s!"{nodeProperties.name}.{index}"

/-- The metadata that a condition is validated with. -/
def validationMetadata (index : ℕ) : FilterConditionMetadata where
  index := index
  unresolvedExpressions := true
  errorFormat := .inline

/-- One condition. The result that is returned is not looked at. -/
def validateCondition (nodeProperties : INodeProperties) (options : FilterOptionsValue)
    (issues : OrderedMap String (List (List UInt16))) (condition : FilterConditionValue × ℕ) :
    Except Thrown (OrderedMap String (List (List UInt16))) :=
  let key := issueKey nodeProperties condition.2
  match parseFilterConditionValues parsers condition.1 options (validationMetadata condition.2) with
  | .ok _ => .ok issues
  | .error (.filterError error) =>
    match issues.get? key with
    | none => .error .typeError
    | some messages => .ok (issues.set key (messages ++ [error.message]))
  | .error _ => .ok issues

def validateFilterParameter (nodeProperties : INodeProperties) (value : FilterValue) :
    Except Thrown (OrderedMap String (List (List UInt16))) :=
  value.conditions.zipIdx.foldlM (validateCondition parsers nodeProperties value.options) ∅

/-! ## What validation is for -/

/-- There is an issue for the condition exactly if its values cannot be parsed. -/
def ReportsCondition (nodeProperties : INodeProperties) (value : FilterValue)
    (index : Fin value.conditions.length) : Prop :=
  (∃ issues messages, validateFilterParameter parsers nodeProperties value = .ok issues ∧
      issues.get? (issueKey nodeProperties index) = some messages) ↔
    ∃ error, parseFilterConditionValues parsers (value.conditions.get index) value.options
      (validationMetadata index) = .ok (.error error)

/-! ## Conditions that can be parsed -/

/-- A date can be read of the text. -/
def ReadsDateTime (dateString : List UInt16) : Prop :=
  (parsers.fromISO dateString).isSome ∨ (parsers.fromHTTP dateString).isSome ∨
    (parsers.fromRFC2822 dateString).isSome ∨ (parsers.fromSQL dateString).isSome ∨
    (parsers.fromMillis dateString).isSome

/-- The value is one of the type, or there is a way to make it one. -/
def FitsType (strict : Bool) (version : ℕ) (value : JsValue) : FilterOperatorType → Prop
  | .any => True
  | .string => strict → value.typeof = "string"
  | .boolean => strict → value.typeof = "boolean"
  | .number =>
    value.isNaN ∨ (isEmptyString value ∨ isEmptyArray value) ∧ 3 ≤ version ∨
      (strict → value.typeof = "number") ∧ ∃ x, value.toNumber? = some (some x)
  | .dateTime => ∃ text, value.toText? = some text ∧ ReadsDateTime parsers (trim text)
  | .object =>
    (strict → value.typeof = "object") ∧
      (value.isRecord ∨ ∃ text o, value.toText? = some text ∧ jsonParse parsers text = some o ∧
        o.typeof = "object" ∧ ¬o.isArray)
  | .array =>
    value.isArray ∨ ¬strict ∧ ∃ text items, value.toText? = some text ∧
      (JsonText.parse text = some (.array items) ∨
        JsonText.parse text = none ∧ JsonText.parse (doubleQuotes text) = some (.array items))

/-- The value is left out, an expression, or fits the type. -/
def FitsSide (options : FilterOptionsValue) (type : FilterOperatorType) (value : JsValue) : Prop :=
  value.isNullish ∨ isExpressionValue value ∨
    FitsType parsers (options.typeValidation = .strict) (options.version.getD 1) value type

/-- Both values fit, or one of them has no text. -/
def FitsCondition (options : FilterOptionsValue) (condition : FilterConditionValue) : Prop :=
  condition.leftValue.toText? = none ∨ condition.rightValue.toText? = none ∨
    FitsSide parsers options condition.operator.type condition.leftValue ∧
      (condition.operator.singleValue ∨
        FitsSide parsers options
          (condition.operator.rightType.getD condition.operator.type) condition.rightValue)

variable {parsers} {value : JsValue} {strict : Bool} {version : ℕ}

theorem isSome_tryToParseNumber_iff :
    (tryToParseNumber value).isSome ↔ ∃ x, value.toNumber? = some (some x) := by
  rw [tryToParseNumber, Option.isSome_iff_exists]
  refine exists_congr fun x => ?_
  cases value.toNumber? <;> simp

theorem isSome_tryToParseDateTime_iff :
    (tryToParseDateTime parsers value).isSome ↔
      ∃ text, value.toText? = some text ∧ ReadsDateTime parsers (trim text) := by
  unfold tryToParseDateTime ReadsDateTime
  cases value.toText? with
  | none => simp
  | some text => simp

theorem isSome_tryToParseObject_iff :
    (tryToParseObject parsers value).isSome ↔
      value.isRecord ∨ ∃ text o, value.toText? = some text ∧ jsonParse parsers text = some o ∧
        o.typeof = "object" ∧ ¬o.isArray := by
  unfold tryToParseObject
  by_cases hrecord : value.isRecord = true
  · rw [if_pos hrecord]
    exact iff_of_true rfl (.inl hrecord)
  · rw [if_neg hrecord, or_iff_right hrecord]
    cases htext : value.toText? with
    | none => simp
    | some text =>
      cases hparse : jsonParse parsers text with
      | none => simp [hparse]
      | some o => simp [hparse, Option.isSome_ite]

theorem isArray_ofJson_iff {v : JsonValue} :
    (JsValue.ofJson v).isArray = true ↔ ∃ items, v = .array items := by
  cases v <;> simp [JsValue.ofJson, JsValue.isArray]

theorem isSome_tryToParseArray_iff :
    (tryToParseArray value).isSome ↔
      value.isArray ∨ ∃ text items, value.toText? = some text ∧
        (JsonText.parse text = some (.array items) ∨
          JsonText.parse text = none ∧ JsonText.parse (doubleQuotes text) = some (.array items)) := by
  unfold tryToParseArray
  by_cases harray : value.isArray = true
  · rw [if_pos harray]
    exact iff_of_true rfl (.inl harray)
  · rw [if_neg harray, or_iff_right harray]
    cases htext : value.toText? with
    | none => simp
    | some text =>
      cases hparse : JsonText.parse text with
      | some v => simp [hparse, Option.isSome_ite, isArray_ofJson_iff]
      | none =>
        cases hquoted : JsonText.parse (doubleQuotes text) with
        | none => simp [hparse, hquoted]
        | some v => simp [hparse, hquoted, Option.isSome_ite, isArray_ofJson_iff]

/-- Nothing but the type decides, past what `parseSingleFilterValue` looks at itself. -/
theorem parseSingleFilterValue_eq (type : FilterOperatorType) (hany : type ≠ .any)
    (hnullish : ¬value.isNullish) (hboolean : type = .boolean → strict)
    (hnumber : type = .number →
      ¬value.isNaN ∧ ¬((isEmptyString value ∨ isEmptyArray value) ∧ 3 ≤ version)) :
    parseSingleFilterValue parsers value type strict version =
      validateFieldType parsers "filter" value type strict true := by
  rw [parseSingleFilterValue, if_neg (not_or.mpr ⟨hany, hnullish⟩),
    if_neg fun h => h.2 (hboolean h.1), if_neg fun h => (hnumber h.1).1 h.2,
    if_neg fun h => (hnumber h.1).2 h.2]

theorem isValid_parseSingleFilterValue_number_iff (hnullish : ¬value.isNullish) :
    (parseSingleFilterValue parsers value .number strict version).isValid ↔
      FitsType parsers strict version value .number := by
  rw [FitsType]
  by_cases hnan : value.isNaN = true
  · rw [parseSingleFilterValue, if_neg (not_or.mpr ⟨by decide, hnullish⟩), if_neg (by simp),
      if_pos ⟨rfl, hnan⟩]
    exact iff_of_true rfl (.inl hnan)
  rw [or_iff_right hnan]
  by_cases hempty : (isEmptyString value = true ∨ isEmptyArray value = true) ∧ 3 ≤ version
  · rw [parseSingleFilterValue, if_neg (not_or.mpr ⟨by decide, hnullish⟩), if_neg (by simp),
      if_neg fun h => hnan h.2, if_pos ⟨rfl, hempty⟩]
    exact iff_of_true rfl (.inl hempty)
  rw [or_iff_right hempty, parseSingleFilterValue_eq .number (by decide) hnullish nofun
      fun _ => ⟨hnan, hempty⟩,
    validateFieldType, if_neg hnullish]
  dsimp only
  rw [isValid_ite_iff, Option.isSome_map, isSome_tryToParseNumber_iff, not_not]

theorem isValid_parseSingleFilterValue_boolean_iff (hnullish : ¬value.isNullish) :
    (parseSingleFilterValue parsers value .boolean strict version).isValid ↔
      FitsType parsers strict version value .boolean := by
  rw [FitsType]
  by_cases hstrict : strict = true
  · rw [parseSingleFilterValue_eq .boolean (by decide) hnullish (fun _ => hstrict) nofun, validateFieldType,
      if_neg hnullish]
    dsimp only
    rw [isValid_ite_iff, Option.isSome_map, not_not]
    exact and_iff_left_of_imp fun htype => isSome_tryToParseBoolean (htype hstrict)
  · rw [parseSingleFilterValue, if_neg (not_or.mpr ⟨by decide, hnullish⟩), if_pos ⟨rfl, hstrict⟩]
    refine iff_of_true ?_ fun h => absurd h hstrict
    dsimp only
    split
    · rename_i hresult
      exact hresult.2
    · rfl

theorem isValid_parseSingleFilterValue_iff (type : FilterOperatorType) :
    (parseSingleFilterValue parsers value type strict version).isValid ↔
      value.isNullish ∨ FitsType parsers strict version value type := by
  by_cases hnullish : value.isNullish = true
  · rw [parseSingleFilterValue, if_pos (.inr hnullish)]
    exact iff_of_true rfl (.inl hnullish)
  rw [or_iff_right hnullish]
  cases type with
  | any =>
    rw [parseSingleFilterValue, if_pos (.inl rfl)]
    exact iff_of_true rfl trivial
  | number => exact isValid_parseSingleFilterValue_number_iff hnullish
  | boolean => exact isValid_parseSingleFilterValue_boolean_iff hnullish
  | string =>
    rw [parseSingleFilterValue_eq .string (by decide) hnullish nofun nofun, validateFieldType,
      if_neg hnullish, FitsType]
    dsimp only
    rw [if_neg (by simp), isValid_ite_iff, Option.isSome_map, not_not]
    exact and_iff_left (isSome_tryToParseString value)
  | dateTime =>
    rw [parseSingleFilterValue_eq .dateTime (by decide) hnullish nofun nofun, validateFieldType,
      if_neg hnullish, FitsType]
    dsimp only
    rw [isValid_of, Option.isSome_map, isSome_tryToParseDateTime_iff]
  | object =>
    rw [parseSingleFilterValue_eq .object (by decide) hnullish nofun nofun, validateFieldType,
      if_neg hnullish, FitsType]
    dsimp only
    rw [isValid_ite_iff, Option.isSome_map, isSome_tryToParseObject_iff, not_not]
  | array =>
    rw [parseSingleFilterValue_eq .array (by decide) hnullish nofun nofun, validateFieldType,
      if_neg hnullish, FitsType]
    dsimp only
    rw [isValid_ite_iff, Option.isSome_map, isSome_tryToParseArray_iff, not_not]
    by_cases harray : value.isArray = true
    · exact iff_of_true ⟨fun _ => harray, .inl harray⟩ (.inl harray)
    · rw [or_iff_right harray, or_iff_right harray]
      exact and_congr_left' ⟨fun h hstrict => harray (h hstrict), fun h hstrict => absurd hstrict h⟩

theorem filterResult_isOk_iff {condition : FilterConditionValue} {metadata : FilterConditionMetadata}
    {leftValueString rightValueString : List UInt16} {left right : ValidationResult δ} :
    (∃ error, filterResult condition strict metadata leftValueString rightValueString left right =
        .error error) ↔
      ¬((left.isValid ∨ metadata.unresolvedExpressions ∧ isExpressionValue condition.leftValue) ∧
        (right.isValid ∨ condition.operator.singleValue ∨
          metadata.unresolvedExpressions ∧ isExpressionValue condition.rightValue)) := by
  unfold filterResult
  simp only [← Bool.and_eq_true, ← Bool.or_eq_true, Bool.or_assoc]
  generalize (left.isValid ||
    (metadata.unresolvedExpressions && isExpressionValue condition.leftValue)) = leftValid
  generalize (right.isValid || (condition.operator.singleValue ||
    (metadata.unresolvedExpressions && isExpressionValue condition.rightValue))) = rightValid
  cases leftValid <;> cases rightValid <;> simp
  split <;> exact ⟨_, rfl⟩

/-! ## When a condition cannot be parsed -/

variable {nodeProperties : INodeProperties} {options : FilterOptionsValue}
  {condition : FilterConditionValue} {metadata : FilterConditionMetadata}

theorem fitsSide_iff (type : FilterOperatorType) :
    FitsSide parsers options type value ↔
      (parseSingleFilterValue parsers value type (options.typeValidation = .strict)
        (options.version.getD 1)).isValid ∨ isExpressionValue value := by
  rw [FitsSide, isValid_parseSingleFilterValue_iff, or_assoc, or_comm (a := isExpressionValue value = true)]

/-- With expressions allowed, an error is returned for the conditions that do not fit. -/
theorem exists_error_iff (hmetadata : metadata.unresolvedExpressions = true) :
    (∃ error, parseFilterConditionValues parsers condition options metadata = .ok (.error error)) ↔
      ¬FitsCondition parsers options condition := by
  unfold parseFilterConditionValues FitsCondition
  cases condition.leftValue.toText? with
  | none => simp
  | some leftValueString =>
    cases condition.rightValue.toText? with
    | none => simp
    | some rightValueString =>
      simp only [reduceCtorEq, false_or, Except.ok.injEq]
      rw [filterResult_isOk_iff, fitsSide_iff, fitsSide_iff, or_left_comm]
      simp only [hmetadata, true_and]

theorem parseFilterConditionValues_ne_filterError (error : FilterError) :
    parseFilterConditionValues parsers condition options metadata ≠ .error (.filterError error) := by
  unfold parseFilterConditionValues
  dsimp only
  split <;> simp

/-- No condition has an issue. -/
theorem validateFilterParameter_eq (nodeProperties : INodeProperties) (filter : FilterValue) :
    validateFilterParameter parsers nodeProperties filter = .ok ∅ := by
  have hstep : ∀ issues condition,
      validateCondition parsers nodeProperties filter.options issues condition = .ok issues := by
    intro issues condition
    unfold validateCondition
    dsimp only
    split
    · rfl
    · rename_i error herror
      exact absurd herror (parseFilterConditionValues_ne_filterError error)
    · rfl
  unfold validateFilterParameter
  induction filter.conditions.zipIdx with
  | nil => rfl
  | cons condition conditions ih =>
    rw [List.foldlM_cons, hstep]
    exact ih

/-- Validation is right about a condition exactly if it can be parsed. -/
theorem reportsCondition_iff (parsers : ValueParsers δ) (nodeProperties : INodeProperties)
    (filter : FilterValue) (index : Fin filter.conditions.length) :
    ReportsCondition parsers nodeProperties filter index ↔
      FitsCondition parsers filter.options (filter.conditions.get index) := by
  rw [ReportsCondition, validateFilterParameter_eq, exists_error_iff rfl]
  have hnone : ¬∃ (issues : OrderedMap String (List (List UInt16))) (messages : List (List UInt16)),
      (Except.ok ∅ : Except Thrown _) = .ok issues ∧
        issues.get? (issueKey nodeProperties index) = some messages := by
    rintro ⟨issues, messages, hissues, hget⟩
    obtain rfl := Except.ok.inj hissues
    cases hget
  rw [iff_false_left hnone, not_not]

/-- A text where a number is asked for, with strict types. -/
def strictNumber : FilterValue where
  options := { typeValidation := .strict, version := some 2 }
  conditions :=
    [{ leftValue := .string (units "abc"), operator := { type := .number },
       rightValue := .number (some (.finite .zero)) }]

/-- Of a library that reads nothing. -/
def readsNothing : ValueParsers Unit where
  fromISO _ := none
  fromHTTP _ := none
  fromRFC2822 _ := none
  fromSQL _ := none
  fromMillis _ := none
  esprimaParse _ := none

theorem not_reportsCondition_strictNumber :
    ¬ReportsCondition readsNothing { name := "conditions" } strictNumber ⟨0, by decide⟩ := by
  intro h
  obtain ⟨issues, messages, hissues, hget⟩ := h.mpr ⟨_, rfl⟩
  rw [validateFilterParameter_eq] at hissues
  obtain rfl := Except.ok.inj hissues
  cases hget

end N8n
