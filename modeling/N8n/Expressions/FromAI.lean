import N8n.Codegen.FormatValue
import N8n.Lib.JsonText
import N8n.Lib.NumberOfString

/-!
# `$fromAI` expressions

`createFromAIExpression` writes a call of `$fromAI` into an expression : the sanitised key, the
description, the type and the default value, each in quotes but for a default value that is no
string. `extractFromAICalls` finds the calls in a text and reads their arguments. It scans for the
closing parenthesis first, then splits what stands before it at the commas outside quotes.

The lower case of a text is only compared with words of ASCII letters.
-/

open Lib

namespace N8n

inductive FromAIArgumentType where
  | string | number | boolean | json
  deriving DecidableEq

namespace FromAIArgumentType

def name : FromAIArgumentType → JsString
  | string => units "string"
  | number => units "number"
  | boolean => units "boolean"
  | json => units "json"

end FromAIArgumentType

/-! ## Writing -/

/-- `[a-zA-Z0-9_-]` -/
def isKeyUnit (u : UInt16) : Bool :=
  97 ≤ u.toNat && u.toNat ≤ 122 || 65 ≤ u.toNat && u.toNat ≤ 90 || (digitOf? u).isSome ||
    u = codeUnit '_' || u = codeUnit '-'

/-- `.replace(/_+/g, '_')` -/
def collapseUnderscores : JsString → JsString
  | u :: v :: s =>
    if u = codeUnit '_' ∧ v = codeUnit '_' then collapseUnderscores (v :: s)
    else u :: collapseUnderscores (v :: s)
  | s => s

def sanitizeFromAIKey (key : JsString) : JsString :=
  let sanitized := key.map fun u => if isKeyUnit u then u else codeUnit '_'
  let sanitized := collapseUnderscores sanitized
  let sanitized := (sanitized.dropWhile (· = codeUnit '_')).rdropWhile (· = codeUnit '_')
  let sanitized := sanitized.take 64
  if sanitized = [] then units "param" else sanitized

def escapeForQuote (str : JsString) (quoteChar : UInt16) : JsString :=
  str
    |> replaceUnit (codeUnit '\\') (units "\\\\")
    |> replaceUnit quoteChar [codeUnit '\\', quoteChar]

def getBestQuoteChar (str : JsString) : UInt16 :=
  if codeUnit '\'' ∉ str then codeUnit '\''
  else if codeUnit '"' ∉ str then codeUnit '"'
  else codeUnit '\x60'

def escapeArg (arg : JsString) : JsString :=
  let quoteChar := getBestQuoteChar arg
  quoteChar :: (escapeForQuote arg quoteChar ++ [quoteChar])

def serializeDefaultValue : JsonValue → JsString
  | .string value => escapeArg value
  | .number x => x.toUnits
  | .boolean b => if b then units "true" else units "false"
  | value => JsonText.stringify value

def fromAIMarker : JsString := units "/*n8n-auto-generated-fromAI-override*/"

/-- The arguments of the call. -/
def fromAIArgs (key : JsString) (description : Option JsString) (type : FromAIArgumentType)
    (defaultValue : Option JsonValue) : List JsString :=
  [escapeArg (sanitizeFromAIKey key)] ++
    (if description.isSome ∨ type ≠ .string ∨ defaultValue.isSome then
      [escapeArg (description.getD [])]
    else []) ++
    (if type ≠ .string ∨ defaultValue.isSome then [escapeArg type.name] else []) ++
    (defaultValue.map serializeDefaultValue).toList

def createFromAIExpression (key : JsString) (description : Option JsString)
    (type : FromAIArgumentType) (defaultValue : Option JsonValue) : JsString :=
  units "=\x7b\x7b " ++ fromAIMarker ++ units " $fromAI(" ++
    (units ", ").intercalate (fromAIArgs key description type defaultValue) ++ units ") \x7d\x7d"

/-! ## Finding the calls -/

def isQuote (u : UInt16) : Bool := u ∈ units "\"'\x60"

/-- `str.toLowerCase()` -/
def toLowerCase (str : JsString) : JsString := str.map lowerUnit

def fromAIName : JsString := units "$fromai"

/-- What stands after a match of `/\$fromAI\s*\(\s*/i` at the beginning. -/
def matchFromAI (str : JsString) : Option JsString :=
  if toLowerCase (str.take fromAIName.length) = fromAIName then
    match (str.drop fromAIName.length).dropWhile isSpace with
    | u :: rest => if u = codeUnit '(' then some (rest.dropWhile isSpace) else none
    | [] => none
  else none

/-- What stands after the first match. -/
def searchFromAI : JsString → Option JsString
  | [] => none
  | u :: str => (matchFromAI (u :: str)).or (searchFromAI str)

/-- The text of the arguments up to the closing parenthesis, `none` where there is none.
`parenthesesCount` are open and `quoteChar` is the quote inside of which the text begins. -/
def scanArguments : Option UInt16 → ℕ → JsString → Option JsString
  | _, 0, _ => some []
  | _, _ + 1, [] => none
  | some quoteChar, n + 1, char :: str =>
    if char = codeUnit '\\' then
      match str with
      | next :: str => (scanArguments (some quoteChar) (n + 1) str).map fun s => char :: next :: s
      | [] => none
    else if char = quoteChar then (scanArguments none (n + 1) str).map (char :: ·)
    else (scanArguments (some quoteChar) (n + 1) str).map (char :: ·)
  | none, n + 1, char :: str =>
    if isQuote char = true then (scanArguments (some char) (n + 1) str).map (char :: ·)
    else if char = codeUnit '(' then (scanArguments none (n + 2) str).map (char :: ·)
    else if char = codeUnit ')' then
      (scanArguments none n str).map fun s => if n = 0 then s else char :: s
    else (scanArguments none (n + 1) str).map (char :: ·)

/-! ## Reading the arguments -/

/-- The arguments, split at the commas outside quotes. -/
def splitArguments (quoteChar : Option UInt16) (escapeNext : Bool) (currentArg : JsString) :
    JsString → List JsString
  | [] => if currentArg = [] then [] else [trim currentArg]
  | char :: str =>
    if escapeNext then splitArguments quoteChar false (currentArg ++ [char]) str
    else if char = codeUnit '\\' then splitArguments quoteChar true currentArg str
    else if isQuote char = true then
      splitArguments (if quoteChar = none then some char else if quoteChar = some char then none
        else quoteChar) false (currentArg ++ [char]) str
    else if char = codeUnit ',' ∧ quoteChar = none then
      trim currentArg :: splitArguments none false [] str
    else splitArguments quoteChar false (currentArg ++ [char]) str

/-- `.replace(/ab/g, 'c')` -/
def replacePair (a b c : UInt16) : JsString → JsString
  | u :: v :: str =>
    if u = a ∧ v = b then c :: replacePair a b c str else u :: replacePair a b c (v :: str)
  | str => str

def unescapeArg (arg : JsString) : JsString :=
  arg
    |> replacePair (codeUnit '\\') (codeUnit '\'') (codeUnit '\'')
    |> replacePair (codeUnit '\\') (codeUnit '\x60') (codeUnit '\x60')
    |> replacePair (codeUnit '\\') (codeUnit '"') (codeUnit '"')
    |> replacePair (codeUnit '\\') (codeUnit '\\') (codeUnit '\\')

/-- The argument without the quotes around it. -/
def cleanArg (arg : JsString) : JsString :=
  let trimmed := trim arg
  if (units "'\x60\"").any fun quote =>
      trimmed.head? = some quote && trimmed.getLast? = some quote then
    unescapeArg (trimmed.drop 1).dropLast
  else trimmed

def isFromAIArgumentType (value : JsString) : Bool :=
  toLowerCase value ∈ ["string", "number", "boolean", "json"].map units

/-- A default value as it is read. -/
inductive DefaultValue where
  | json (value : JsonValue)
  | infinite (negative : Bool)

def DefaultValue.ofNumeric : Numeric → DefaultValue
  | .finite x => json (.number x)
  | .infinite negative => infinite negative

def parseDefaultValue (value : JsString) (type : JsString) : DefaultValue :=
  let lowerValue := toLowerCase value
  if type = units "string" then .json (.string value)
  else if type = units "boolean" ∧ (lowerValue = units "true" ∨ lowerValue = units "false") then
    .json (.boolean (lowerValue = units "true"))
  else
    match if type = units "number" then toNumber value else none with
    | some number => .ofNumeric number
    | none => .json ((JsonText.parse value).getD (.string value))

structure FromAIArgument where
  key : JsString
  description : Option JsString
  type : JsString
  defaultValue : Option DefaultValue

/-- Fails with the message of the error. -/
def parseArguments (argsString : JsString) : Except JsString FromAIArgument :=
  let cleanArgs := (splitArguments none false [] argsString).map cleanArg
  let type := cleanArgs[2]?.getD (units "string")
  if isFromAIArgumentType type then
    .ok
      { key := cleanArgs[0]?.getD []
        description := cleanArgs[1]?
        type := type
        defaultValue := cleanArgs[3]?.map fun value => parseDefaultValue value type }
  else .error (units "Invalid type: " ++ type)

/-- The record of a call, from where its arguments begin. -/
def readCall (str : JsString) : Except JsString FromAIArgument :=
  match scanArguments none 1 str with
  | none => .error (units "Unbalanced parentheses while parsing $fromAI call: " ++ str)
  | some argsString =>
    match parseArguments argsString with
    | .ok parsedArgs => .ok parsedArgs
    | .error error =>
      .error (units "Failed to parse $fromAI arguments: " ++ argsString ++ units ": Error: " ++ error)

theorem length_matchFromAI {str rest : JsString} (h : matchFromAI str = some rest) :
    rest.length < str.length := by
  unfold matchFromAI at h
  split at h
  · split at h
    · rename_i u inner hdrop
      split at h
      · obtain rfl := Option.some.inj h
        have hle := (List.dropWhile_suffix isSpace (l := str.drop fromAIName.length)).length_le
        have hle' := (List.dropWhile_suffix isSpace (l := inner)).length_le
        rw [hdrop, List.length_cons, List.length_drop] at hle
        omega
      · cases h
    · cases h
  · cases h

theorem length_searchFromAI {str rest : JsString} (h : searchFromAI str = some rest) :
    rest.length < str.length := by
  induction str with
  | nil => cases h
  | cons u str ih =>
    rw [searchFromAI, Option.or_eq_some_iff] at h
    rcases h with h | ⟨-, h⟩
    · exact length_matchFromAI h
    · exact (ih h).trans (Nat.lt_succ_self _)

/-- The calls in the text, or the message of the error that is thrown. The next call is searched
for from where the arguments of the last one begin. -/
def extractFromAICalls (str : JsString) : Except JsString (List FromAIArgument) :=
  match h : searchFromAI str with
  | none => .ok []
  | some rest => do
    have := length_searchFromAI h
    let parsedArgs ← readCall rest
    let args ← extractFromAICalls rest
    return parsedArgs :: args
termination_by str.length

end N8n
