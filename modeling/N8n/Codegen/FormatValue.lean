import N8n.Interfaces
import N8n.Lib.JsLiteral

/-!
# Parameter values in generated code

`formatValue` writes a parameter value into the generated code : as a literal, a string that is
an expression as a call of `expr`, and a placeholder as a call of `placeholder`. Nothing is
annotated here. `sdkLiterals` is the dialect in which such a text is read again.
-/

open Lib

namespace N8n

/-- A JSON value, in which no object has a key twice. -/
abbrev ParameterValue := { v : JsonValue // v.WellFormed }

/-! ## Strings -/

/-- `str.replace(/u/g, replacement)` -/
def replaceUnit (u : UInt16) (replacement str : JsString) : JsString :=
  str.flatMap fun u' => if u' = u then replacement else [u']

theorem replaceUnit_flatMap (u : UInt16) (replacement s : JsString)
    (f : UInt16 → JsString) :
    replaceUnit u replacement (s.flatMap f) = s.flatMap fun u' => replaceUnit u replacement (f u') :=
  List.flatMap_assoc

def escapeString (str : JsString) : JsString :=
  str
    |> replaceUnit (codeUnit '\\') (units "\\\\")
    |> replaceUnit (codeUnit '\'') (units "\\'")
    |> replaceUnit (codeUnit '\u2018') (units "\\u2018")
    |> replaceUnit (codeUnit '\u2019') (units "\\u2019")
    |> replaceUnit (codeUnit '\u201c') (units "\\u201C")
    |> replaceUnit (codeUnit '\u201d') (units "\\u201D")
    |> replaceUnit (codeUnit '\n') (units "\\n")
    |> replaceUnit (codeUnit '\r') (units "\\r")

/-- `!/^[a-zA-Z_$][a-zA-Z0-9_$]*$/.test(key)` -/
def needsQuoting (key : JsString) : Bool :=
  match key with
  | [] => true
  | u :: key => !(isNameStart u && key.all isNamePart)

/-- `'…'` -/
def quoted (str : JsString) : JsString := units "'" ++ escapeString str ++ units "'"

def formatKey (key : JsString) : JsString := if needsQuoting key then quoted key else key

/-! ## Placeholders -/

def placeholderPrefix : JsString := units "<__PLACEHOLDER_VALUE__"

def placeholderSuffix : JsString := units "__>"

def isPlaceholderValue (value : JsString) : Bool :=
  placeholderPrefix <+: value ∧ placeholderSuffix <:+ value

/-- What `.` matches in a regular expression. -/
def isLineTerminator (u : UInt16) : Bool := u ∈ [10, 13, 0x2028, 0x2029]

/-- The match of `/^<__PLACEHOLDER_VALUE__(.*)__>$/`. -/
def extractPlaceholderHint (value : JsString) : JsString :=
  let hint := (value.drop placeholderPrefix.length).take
    (value.length - placeholderPrefix.length - placeholderSuffix.length)
  if placeholderPrefix ++ hint ++ placeholderSuffix = value ∧ !hint.any isLineTerminator then hint
  else []

def placeholder (hint : JsString) : JsString := placeholderPrefix ++ hint ++ placeholderSuffix

def expr (expression : JsString) : JsString :=
  let normalized := if units "=" <+: expression then expression.drop 1 else expression
  units "=" ++ normalized

/-! ## Values -/

mutual

def formatValue : JsonValue → JsString
  | .null => units "null"
  | .string value =>
    if isPlaceholderValue value then
      units "placeholder(" ++ quoted (extractPlaceholderHint value) ++ units ")"
    else if units "=" <+: value then units "expr(" ++ quoted (value.drop 1) ++ units ")"
    else quoted value
  | .number x => x.toUnits
  | .boolean b => if b then units "true" else units "false"
  | .array items => units "[" ++ (units ", ").intercalate (formatItems items) ++ units "]"
  | .object entries =>
    if entries = [] then units "\x7b\x7d"
    else units "\x7b " ++ (units ", ").intercalate (formatEntries entries) ++ units " \x7d"

def formatItems : List JsonValue → List JsString
  | [] => []
  | item :: items => formatValue item :: formatItems items

def formatEntries : List (JsString × JsonValue) → List JsString
  | [] => []
  | (key, value) :: entries =>
    (formatKey key ++ units ": " ++ formatValue value) :: formatEntries entries

end

/-- The functions of the SDK that `formatValue` writes calls of. -/
def sdkFunction (name : JsString) : JsonValue → Option JsonValue
  | .string argument =>
    if name = units "expr" then some (.string (expr argument))
    else if name = units "placeholder" then some (.string (placeholder argument))
    else none
  | _ => none

/-- The dialect in which generated code is read. -/
def sdkLiterals : Dialect := literals sdkFunction

end N8n
