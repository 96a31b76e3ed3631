import N8n.Lib.JsValue

/-!
# Types of values

`validateFieldType` says whether a value can be taken for one of a type, and what it is then. With
`strict` it has to be one of the type already. Here it is for the types of filter operators.

Dates are read by a library and so are the expressions that `parseJSObject` makes objects of :
`ValueParsers` has what they read.
-/

open Lib

namespace N8n

inductive FilterOperatorType where
  | string
  | number
  | boolean
  | array
  | object
  | dateTime
  | any
  deriving DecidableEq

def FilterOperatorType.name : FilterOperatorType → String
  | string => "string"
  | number => "number"
  | boolean => "boolean"
  | array => "array"
  | object => "object"
  | dateTime => "dateTime"
  | any => "any"

/-- A node of a syntax tree. `other` is also what stands for a hole in an array. -/
inductive SyntaxNode where
  | expressionStatement (expression : SyntaxNode)
  | objectExpression (properties : List SyntaxNode)
  | property (key value : SyntaxNode)
  | identifier (name : List UInt16)
  | literal (value : JsValue)
  | arrayExpression (elements : List SyntaxNode)
  | unaryExpression (operator : String) (argument : SyntaxNode)
  | other

/-- What the libraries read of a text, `none` where they throw or what they read is not valid. -/
structure ValueParsers (δ : Type) where
  fromISO : List UInt16 → Option δ
  fromHTTP : List UInt16 → Option δ
  fromRFC2822 : List UInt16 → Option δ
  fromSQL : List UInt16 → Option δ
  /-- `DateTime.fromMillis(Date.parse(text))` -/
  fromMillis : List UInt16 → Option δ
  /-- The body of the program. -/
  esprimaParse : List UInt16 → Option (List SyntaxNode)

inductive ParsedValue (δ : Type) where
  | value (v : JsValue)
  | dateTime (d : δ)

inductive ValidationResult (δ : Type) where
  | valid (newValue : ParsedValue δ)
  | invalid (errorMessage : List UInt16)

variable {δ : Type}

def ValidationResult.isValid : ValidationResult δ → Bool
  | valid _ => true
  | invalid _ => false

/-- `parsed.valid ? parsed.newValue : undefined` -/
def ValidationResult.newValue : ValidationResult δ → ParsedValue δ
  | valid newValue => newValue
  | invalid _ => .value .undefined

/-! ## Objects of expressions -/

mutual

/-- `none` where a key has no text. -/
def syntaxNodeToValue : SyntaxNode → Option JsValue
  | .objectExpression properties =>
    (propertiesToEntries properties).map fun entries => .object (fromEntries entries)
  | .identifier name => some (.string name)
  | .literal value => some value
  | .arrayExpression elements => (elementsToValues elements).map .array
  | .unaryExpression operator argument => do
    let value ← syntaxNodeToValue argument
    match value with
    | .number x => return .number (if operator = "-" then x.map Numeric.neg else x)
    | value => return value
  | .expressionStatement _ | .property _ _ | .other => some .undefined

def propertiesToEntries : List SyntaxNode → Option (List (List UInt16 × JsValue))
  | [] => some []
  | .property key value :: properties => do
    let key ← syntaxNodeToValue key
    let value ← syntaxNodeToValue value
    let entries ← propertiesToEntries properties
    let key ← key.toText?
    return (key, value) :: entries
  | _ :: properties => propertiesToEntries properties

def elementsToValues : List SyntaxNode → Option (List JsValue)
  | [] => some []
  | element :: elements => do
    let value ← syntaxNodeToValue element
    let values ← elementsToValues elements
    return value :: values

end

def SyntaxNode.isObjectStatement : SyntaxNode → Bool
  | .expressionStatement (.objectExpression _) => true
  | _ => false

variable (parsers : ValueParsers δ)

def parseJSObject (objectAsString : List UInt16) : Option JsValue := do
  let body ← parsers.esprimaParse (units "(" ++ objectAsString ++ units ")")
  match body.find? SyntaxNode.isObjectStatement with
  | some (.expressionStatement expression) => syntaxNodeToValue expression
  | _ => return .undefined

/-- `jsonParse(jsonString, { acceptJSObject: true })` -/
def jsonParse (jsonString : List UInt16) : Option JsValue :=
  match JsonText.parse jsonString with
  | some value => some (.ofJson value)
  | none => parseJSObject parsers jsonString

/-! ## Parsing -/

def tryToParseNumber (value : JsValue) : Option Numeric := value.toNumber?.join

def tryToParseString (value : JsValue) : Option (List UInt16) :=
  if value.typeof = "object" then value.stringify?
  else if value.typeof = "undefined" then some []
  else value.toText?

/-- No other letters than capitals of the alphabet become those of the words. -/
def tryToParseBoolean (value : JsValue) : Option Bool :=
  let ofNumber : Option Bool :=
    match tryToParseNumber value with
    | some (.finite x) => if x = .zero then some false else if x = .ofNat 1 then some true else none
    | _ => none
  match value with
  | .boolean b => some b
  | .string s =>
    if s.map lowerUnit = units "true" then some true
    else if s.map lowerUnit = units "false" then some false
    else if trim s = [] then none
    else ofNumber
  | _ => ofNumber

/-- No value is a date before it is read. -/
def tryToParseDateTime (value : JsValue) : Option δ := do
  let text ← value.toText?
  let dateString := trim text
  parsers.fromISO dateString <|> parsers.fromHTTP dateString <|> parsers.fromRFC2822 dateString <|>
    parsers.fromSQL dateString <|> parsers.fromMillis dateString

/-- `text.replace(/'/g, '"')` -/
def doubleQuotes (text : List UInt16) : List UInt16 :=
  text.map fun u => if u = charUnit '\'' then charUnit '"' else u

def tryToParseArray (value : JsValue) : Option JsValue :=
  if value.isArray then some value
  else do
    let text ← value.toText?
    let parsed ← JsonText.parse text <|> JsonText.parse (doubleQuotes text)
    let parsed := JsValue.ofJson parsed
    if parsed.isArray then some parsed else none

def tryToParseObject (value : JsValue) : Option JsValue :=
  if value.isRecord then some value
  else do
    let text ← value.toText?
    let o ← jsonParse parsers text
    if o.typeof = "object" ∧ ¬o.isArray then some o else none

def getValueDescription (value : JsValue) : List UInt16 :=
  if value.typeof = "object" then
    if value.isNullish then units "'null'"
    else if value.isArray then units "array"
    else units "object"
  else units "'" ++ value.toText?.getD [] ++ units "'"

/-! ## Validation -/

/-- What was parsed, or the message if parsing threw. -/
def ValidationResult.of (errorMessage : List UInt16) : Option (ParsedValue δ) → ValidationResult δ
  | some newValue => .valid newValue
  | none => .invalid errorMessage

def dateTimeHint : List UInt16 :=
  units (" <br/><br/> Consider using <a href=\"" ++
    "https://moment.github.io/luxon/api-docs/index.html#datetimefromformat" ++
    "\" target=\"_blank\"><code>DateTime.fromFormat</code></a> to work with custom date formats.")

def validateFieldType (fieldName : String) (value : JsValue) (type : FilterOperatorType)
    (strict parseStrings : Bool) : ValidationResult δ :=
  if value.isNullish then .valid (.value .undefined)
  else
    let defaultErrorMessage :=
      units s!"'{fieldName}' expects a {type.name} but we got " ++ getValueDescription value
    match type with
    | .string =>
      if ¬parseStrings then .valid (.value value)
      else if strict ∧ value.typeof ≠ "string" then .invalid defaultErrorMessage
      else .of defaultErrorMessage ((tryToParseString value).map fun s => .value (.string s))
    | .number =>
      if strict ∧ value.typeof ≠ "number" then .invalid defaultErrorMessage
      else .of defaultErrorMessage ((tryToParseNumber value).map fun x => .value (.number (some x)))
    | .boolean =>
      if strict ∧ value.typeof ≠ "boolean" then .invalid defaultErrorMessage
      else .of defaultErrorMessage ((tryToParseBoolean value).map fun b => .value (.boolean b))
    | .dateTime =>
      .of (defaultErrorMessage ++ dateTimeHint) ((tryToParseDateTime parsers value).map .dateTime)
    | .object =>
      if strict ∧ value.typeof ≠ "object" then .invalid defaultErrorMessage
      else .of defaultErrorMessage ((tryToParseObject parsers value).map .value)
    | .array =>
      if strict ∧ ¬value.isArray then .invalid defaultErrorMessage
      else .of defaultErrorMessage ((tryToParseArray value).map .value)
    | .any => .valid (.value value)

/-! ## When a value is valid -/

variable {parsers} {fieldName : String} {value : JsValue} {strict : Bool}

@[simp] theorem isValid_of (errorMessage : List UInt16) (parsed : Option (ParsedValue δ)) :
    (ValidationResult.of errorMessage parsed).isValid = parsed.isSome := by
  cases parsed <;> rfl

/-- With `strict`, only what is of the type is parsed. -/
theorem isValid_ite_iff {errorMessage : List UInt16} {parsed : Option (ParsedValue δ)}
    {mistyped : Prop} [Decidable mistyped] :
    (if strict ∧ mistyped then .invalid errorMessage
      else ValidationResult.of errorMessage parsed).isValid = true ↔
      (strict → ¬mistyped) ∧ parsed.isSome := by
  by_cases h : strict = true ∧ mistyped
  · rw [if_pos h]
    exact iff_of_false Bool.false_ne_true fun hfits => hfits.1 h.1 h.2
  · rw [if_neg h, isValid_of]
    exact (and_iff_right fun hstrict hmistyped => h ⟨hstrict, hmistyped⟩).symm

/-- Every value has a text or a JSON text. -/
theorem isSome_tryToParseString (value : JsValue) : (tryToParseString value).isSome := by
  unfold tryToParseString
  split
  · rename_i hobject
    obtain ⟨text, htext⟩ := JsValue.exists_stringify?_of_typeof hobject
    rw [htext]
    rfl
  · rename_i hobject
    split
    · rfl
    · obtain ⟨text, htext⟩ := JsValue.exists_toText?_of_typeof hobject
      rw [htext]
      rfl

theorem isSome_tryToParseBoolean (h : value.typeof = "boolean") : (tryToParseBoolean value).isSome := by
  cases value with
  | boolean b => rfl
  | _ => simp [JsValue.typeof] at h

end N8n
