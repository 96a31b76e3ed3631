import N8n.Lib.ReplaceText
import N8n.Workflow.UniqueDotNames

/-!
# References to nodes in expressions

When nodes are extracted into a sub-workflow, the references to the nodes that stay outside become
parameters of the sub-workflow. `parseReferencingExpressions` finds the references of an expression,
`resolveDuplicates` gives each its variable, and `applyMapping` puts the variables in their places,
one `replaceAll` after another, the longest reference first.
-/

open Lib

namespace N8n

/-! ## Mappings -/

structure ExpressionMapping where
  nodeNameInExpression : Option JsString
  originalExpression : JsString
  replacementPrefix : JsString
  replacementName : JsString
  deriving DecidableEq

/-- What is put in the place of the original expression. -/
def ExpressionMapping.replacement (mapping : ExpressionMapping) : JsString :=
  mapping.replacementPrefix ++ units "." ++ mapping.replacementName

def dot : UInt16 := charUnit '.'

/-- A unit that `INVALID_JS_DOT_PATH` does not find. -/
def isDotPathPart (u : UInt16) : Bool := isNamePart u || u = dot

/-- `DOT_REFERENCEABLE_JS_VARIABLE.test(part)`: there is a letter, a digit or an underscore. -/
def isReferenceable (part : JsString) : Bool := part.any fun u => isNamePart u && u != charUnit '$'

/-- `text` after `start`. -/
def afterPrefix? (start text : JsString) : Option JsString :=
  if start <+: text then some (text.drop start.length) else none

/-- What the expressions of `ITEM_TO_DATA_ACCESSORS` match, in their order. -/
def itemToDataAccessors (text : JsString) : List JsString :=
  let literals := ["first()", "last()", "all()"].map units
  let itemMatching := (afterPrefix? (units "itemMatching(") text).bind fun rest =>
    let digits := rest.takeWhile fun u => (digitOf? u).isSome
    if digits ≠ [] ∧ (rest.drop digits.length).head? = some (charUnit ')') then
      some (units "itemMatching(" ++ digits ++ units ")")
    else none
  let item := if units "item" <+: text then some (units "item") else none
  literals.filter (· <+: text) ++ itemMatching.toList ++ item.toList

def ITEM_ACCESSORS : List JsString := ["params", "isExecuted"].map units

def DATA_ACCESSORS : List JsString := ["json", "binary"].map units

def joinWith (separator : JsString) (parts : List JsString) : JsString := separator.intercalate parts

def convertDataAccessorName (name : JsString) : JsString :=
  let parts := name.splitOn (charUnit '(')
  let fnName := parts.headD []
  let lower := fnName.map lowerUnit
  if lower = units "item" then fnName
  else if lower = units "first" ∨ lower = units "last" then fnName ++ units "Item"
  else if lower = units "all" then fnName ++ units "Items"
  else fnName ++ units "_" ++ (parts[1]?.map List.dropLast).getD (units "unknown")

def parseExpressionMapping (isolatedExpression : JsString)
    (nodeNameInExpression nodeNamePlainJs : Option JsString) (startNodeName : JsString) :
    Option ExpressionMapping :=
  let splitExpr := isolatedExpression.splitOn dot
  let dotsInName := (nodeNameInExpression.map (List.count dot)).getD 0
  let dotInAccessorsOffset := if units "$node." <+: isolatedExpression then 1 else 0
  let exprStart := joinWith [dot] (splitExpr.take (dotInAccessorsOffset + dotsInName + 1))
  let parts := splitExpr.drop (dotInAccessorsOffset + dotsInName + 1)
  let plainJs := nodeNamePlainJs.getD (units "null")
  let start := units "$('" ++ startNodeName ++ units "')."
  if exprStart = units "$json" then
    let partsIdx := parts.findIdx fun part => !isReferenceable part
    some
      { nodeNameInExpression := none
        originalExpression := exprStart ++ dot :: joinWith [dot] (parts.take (partsIdx + 1))
        replacementPrefix := exprStart
        replacementName := joinWith (units "_") (parts.take partsIdx) }
  else
    match parts with
    | [] => none
    | part :: rest =>
      let accessorPrefix := if part = units "all()" then units "first()" else part
      -- the value that the accessor gives, with or without functions called on it
      let whole : ExpressionMapping :=
        { nodeNameInExpression
          originalExpression := exprStart ++ dot :: part
          replacementPrefix := start ++ accessorPrefix ++ units ".json"
          replacementName := plainJs ++ units "_" ++ convertDataAccessorName part }
      if itemToDataAccessors part ≠ [] then
        match rest with
        | [] => some whole
        | accessor :: path =>
          if accessor ∈ DATA_ACCESSORS then
            let pathIdx := path.findIdx fun part => !isReferenceable part
            let replacementPostfix :=
              if part = units "item" then [] else units "_" ++ convertDataAccessorName part
            some
              { nodeNameInExpression
                originalExpression :=
                  exprStart ++ dot :: joinWith [dot] (parts.take (2 + pathIdx + 1))
                replacementPrefix := start ++ accessorPrefix ++ units "." ++ accessor
                replacementName := joinWith (units "_") (path.take pathIdx) ++ replacementPostfix }
          else some whole
      else if part ∈ ITEM_ACCESSORS then
        some
          { nodeNameInExpression
            originalExpression := exprStart ++ dot :: part
            replacementPrefix := start ++ units "first().json"
            replacementName := plainJs ++ units "_" ++ part }
      else none

/-! ## Finding references -/

def extractExpressionCandidate (expression : JsString) (startIndex endIndex : ℕ) :
    Option JsString :=
  let afterAccessor := match itemToDataAccessors (expression.drop endIndex) with
    | [] => endIndex - 1
    | accessor :: _ => endIndex + accessor.length
  let afterAccessor :=
    if expression[afterAccessor + 1]? = some dot then afterAccessor + 1 else afterAccessor
  match (expression.drop afterAccessor).findIdx? fun u => !isDotPathPart u with
  | none => none
  | some index => some ((expression.take (afterAccessor + index)).drop startIndex)

structure AccessPattern where
  checkPattern : JsString
  before : Regex UInt16
  after : Regex UInt16

def quoteRegex : Regex UInt16 := .oneOf (units "'\"")

def ACCESS_PATTERNS : List AccessPattern :=
  [⟨units "$(", .seq (.literal (units "$(")) quoteRegex, .seq quoteRegex (.unit (charUnit ')'))⟩,
    ⟨units "$node[", .seq (.literal (units "$node[")) quoteRegex,
      .seq quoteRegex (.unit (charUnit ']'))⟩,
    ⟨units "$node.", .literal (units "$node."), .optional (.unit dot)⟩,
    ⟨units "$items(", .seq (.literal (units "$items(")) quoteRegex,
      .alt (.seq quoteRegex (.unit (charUnit ','))) (.seq quoteRegex (.unit (charUnit ')')))⟩]

/-- `(name|name|…)` -/
def namesRegex : List JsString → Regex UInt16
  | [] => .empty
  | [name] => .literal name
  | name :: names => .alt (.literal name) (namesRegex names)

/-- `/\$json/gi` -/
def jsonPattern : Pattern UInt16 :=
  ⟨.empty, .seq (.unit (charUnit '$')) (.seq (.oneOf (units "jJ")) (.seq (.oneOf (units "sS"))
    (.seq (.oneOf (units "oO")) (.oneOf (units "nN"))))), .empty⟩

def uniqueJsDotName (nodeName : JsString) (allNodeNames : List JsString) : JsString :=
  (convertToUniqueJsDotName (allNodeNames.length + 1) nodeName allNodeNames).get
    (convertToUniqueJsDotName_isSome allNodeNames nodeName)

section

variable (nodeNames : List JsString) (startNodeName : JsString) (expression : JsString)

def parseCandidateMatch (index : ℕ) (found : Match UInt16) : Option ExpressionMapping :=
  let endIndex := index + found.text.length + 1
  let nodeNameInExpression := found.body
  if nodeNameInExpression ∉ nodeNames then none
  else
    (extractExpressionCandidate expression index endIndex).bind fun candidate =>
      parseExpressionMapping candidate (some nodeNameInExpression)
        (some (uniqueJsDotName nodeNameInExpression nodeNames)) startNodeName

def parse_jsonMatch (index : ℕ) (found : Match UInt16) : Option ExpressionMapping :=
  (extractExpressionCandidate expression index (index + found.text.length + 1)).bind fun candidate =>
    parseExpressionMapping candidate none none startNodeName

/-- The mappings found, each with the place of its match. -/
def placedMappings (parse_json : Bool) : List (ℕ × ExpressionMapping) :=
  (ACCESS_PATTERNS.flatMap fun pattern =>
    if pattern.checkPattern <:+: expression then
      ((Pattern.mk pattern.before (namesRegex nodeNames) pattern.after).matchAll expression).filterMap
        fun found =>
          (parseCandidateMatch nodeNames startNodeName expression found.1 found.2).map (found.1, ·)
    else []) ++
  if parse_json && units "$json" <:+: expression then
    (jsonPattern.matchAll expression).filterMap fun found =>
      (parse_jsonMatch startNodeName expression found.1 found.2).map (found.1, ·)
  else []

def parseReferencingExpressions (parse_json : Bool) : List ExpressionMapping :=
  (placedMappings nodeNames startNodeName expression parse_json).map Prod.snd

end

/-! ## Variables -/

/-- The maps that `resolveDuplicates` builds: from the key of a variable to its mapping, and from an
original expression to the key of its variable. -/
structure ResolvedDuplicates where
  triggerArgumentMap : OrderedMap JsString ExpressionMapping := ∅
  originalExpressionMap : OrderedMap JsString JsString := ∅

def mappingKey (replacementPrefix replacementName : JsString) : JsString :=
  replacementPrefix ++ units "." ++ replacementName

def hasKeyAndCollides (triggerArgumentMap : OrderedMap JsString ExpressionMapping)
    (mapping : ExpressionMapping) (key : JsString) : Bool :=
  (triggerArgumentMap.get? key).any fun value => value ≠ mapping

/-- The loop that appends `_1`. -/
def appendWhileCollides (collides : JsString → Bool) : ℕ → JsString → JsString
  | 0, replacementName => replacementName
  | rounds + 1, replacementName =>
    if collides replacementName then
      appendWhileCollides collides rounds (replacementName ++ units "_1")
    else replacementName

/-- The name of the variable for a mapping. There are no more collisions than there are keys. -/
def variableName (allNodeNames : List JsString)
    (triggerArgumentMap : OrderedMap JsString ExpressionMapping) (mapping : ExpressionMapping) :
    JsString :=
  let collides := fun replacementName =>
    hasKeyAndCollides triggerArgumentMap mapping
      (mappingKey mapping.replacementPrefix replacementName)
  let replacementName :=
    match mapping.nodeNameInExpression with
    | none | some [] => mapping.replacementName
    | some nodeName =>
      if collides mapping.replacementName then
        uniqueJsDotName nodeName allNodeNames ++ units "_" ++ mapping.replacementName
      else mapping.replacementName
  appendWhileCollides collides triggerArgumentMap.size replacementName

/-- The loop body. -/
def resolveMapping (allNodeNames : List JsString) (resolved : ResolvedDuplicates)
    (mapping : ExpressionMapping) : ResolvedDuplicates :=
  let replacementName := variableName allNodeNames resolved.triggerArgumentMap mapping
  let key := mappingKey mapping.replacementPrefix replacementName
  { triggerArgumentMap := resolved.triggerArgumentMap.set key { mapping with replacementName }
    originalExpressionMap := resolved.originalExpressionMap.set mapping.originalExpression key }

def resolveDuplicates (data : List ExpressionMapping) (allNodeNames : List JsString) :
    ResolvedDuplicates :=
  data.foldl (resolveMapping allNodeNames) {}

def getCanonicalData (resolved : ResolvedDuplicates) (mapping : ExpressionMapping) :
    Option ExpressionMapping :=
  (resolved.originalExpressionMap.get? mapping.originalExpression).bind
    resolved.triggerArgumentMap.get?

/-! ## Rewriting -/

/-- `.sort((a, b) => b.originalExpression.length - a.originalExpression.length)` -/
def sortByLength (mappings : List ExpressionMapping) : List ExpressionMapping :=
  mappings.insertionSort fun a b => b.originalExpression.length ≤ a.originalExpression.length

def applyCanonicalMapping (resolved : ResolvedDuplicates) (mapping : List ExpressionMapping) :
    List ExpressionMapping :=
  sortByLength (mapping.filterMap (getCanonicalData resolved))

/-- The loop body, for a parameter that is a string. -/
def applyMapper (parameters : JsString) (mapper : ExpressionMapping) : JsString :=
  if mapper.originalExpression <:+: parameters then
    replaceText mapper.originalExpression mapper.replacement parameters
  else parameters

def applyMapping (parameters : JsString) (mapping : List ExpressionMapping) : JsString :=
  mapping.foldl applyMapper parameters

end N8n
