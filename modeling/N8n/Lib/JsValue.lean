import N8n.Lib.JsonText
import N8n.Lib.NumberOfString

/-!
# Values of JavaScript

`JsValue` has the values that data is made of, big integers and regular expressions among them. A
function or an object of a class is none of them. Numbers are the decimals they are written as.

`toText?` is `String(value)` and `toNumber?` is `Number(value)`, both `none` where they throw.
-/

namespace Lib

inductive JsValue where
  | undefined
  | null
  | boolean (b : Bool)
  /-- `none` is `NaN`. -/
  | number (x : Option Numeric)
  | bigint (n : ℤ)
  | string (s : List UInt16)
  | array (items : List JsValue)
  | object (entries : List (List UInt16 × JsValue))
  | regExp (text : List UInt16)

/-- `String(x)` -/
def Numeric.toUnits : Numeric → List UInt16
  | finite x => x.toUnits
  | infinite negative => if negative then units "-Infinity" else units "Infinity"

/-- The properties of `Object.fromEntries`. -/
def fromEntries {β : Type*} (entries : List (List UInt16 × β)) : List (List UInt16 × β) :=
  entries.foldl (fun properties entry => OrderedMap.put entry.1 entry.2 properties) []

namespace JsValue

def isNullish : JsValue → Bool
  | undefined | null => true
  | _ => false

/-- `typeof value` -/
def typeof : JsValue → String
  | undefined => "undefined"
  | boolean _ => "boolean"
  | number _ => "number"
  | bigint _ => "bigint"
  | string _ => "string"
  | null | array _ | object _ | regExp _ => "object"

def isArray : JsValue → Bool
  | array _ => true
  | _ => false

/-- An object that is no array. -/
def isRecord : JsValue → Bool
  | object _ | regExp _ => true
  | _ => false

def isNaN : JsValue → Bool
  | number none => true
  | _ => false

/-- `Boolean(value)` -/
def truthy : JsValue → Bool
  | undefined | null | number none => false
  | boolean b => b
  | number (some x) => match x with
    | .finite .zero => false
    | _ => true
  | bigint n => n ≠ 0
  | string s => s ≠ []
  | array _ | object _ | regExp _ => true

/-! ## Texts and numbers -/

mutual

/-- `String(value)`. A property `toString` is no function, and nothing else makes a text of an
object. -/
def toText? : JsValue → Option (List UInt16)
  | undefined => some (units "undefined")
  | null => some (units "null")
  | boolean b => some (if b then units "true" else units "false")
  | number x => some (x.elim (units "NaN") Numeric.toUnits)
  | bigint n => some (units (toString n))
  | string s => some s
  | array items => (itemTexts? items).map (units ",").intercalate
  | object entries =>
    if units "toString" ∈ entries.map Prod.fst then none else some (units "[object Object]")
  | regExp text => some text

/-- What `join` puts together. -/
def itemTexts? : List JsValue → Option (List (List UInt16))
  | [] => some []
  | item :: items => do
    let text ← if item.isNullish then some [] else toText? item
    let texts ← itemTexts? items
    return text :: texts

end

/-- `Number(value)`, with `none` inside for `NaN`. -/
def toNumber? (value : JsValue) : Option (Option Numeric) :=
  match value with
  | undefined => some none
  | null => some (some (.finite .zero))
  | boolean b => some (some (.finite (.ofNat b.toNat)))
  | number x => some x
  | bigint n => some (some (if n < 0 then .finite (.neg (.ofNat n.natAbs)) else .finite (.ofNat n.natAbs)))
  | string s => some (toNumber s)
  | array _ | object _ | regExp _ => value.toText?.map toNumber

/-! ## JSON -/

mutual

def ofJson : JsonValue → JsValue
  | .null => null
  | .boolean b => boolean b
  | .number x => number (some (.finite x))
  | .string s => string s
  | .array items => array (ofJsonItems items)
  | .object entries => object (ofJsonEntries entries)

def ofJsonItems : List JsonValue → List JsValue
  | [] => []
  | item :: items => ofJson item :: ofJsonItems items

def ofJsonEntries : List (List UInt16 × JsonValue) → List (List UInt16 × JsValue)
  | [] => []
  | (key, value) :: entries => (key, ofJson value) :: ofJsonEntries entries

end

mutual

/-- What is written of the value, `none` if it is left out. A big integer is written as its text. -/
def toJson? : JsValue → Option JsonValue
  | undefined => none
  | null | number none => some .null
  | boolean b => some (.boolean b)
  | number (some x) => match x with
    | .finite x => some (.number x)
    | .infinite _ => some .null
  | bigint n => some (.string (units (toString n)))
  | string s => some (.string s)
  | array items => some (.array (itemsToJson items))
  | object entries => some (.object (entriesToJson entries))
  | regExp _ => some (.object [])

def itemsToJson : List JsValue → List JsonValue
  | [] => []
  | item :: items => (toJson? item).getD .null :: itemsToJson items

def entriesToJson : List (List UInt16 × JsValue) → List (List UInt16 × JsonValue)
  | [] => []
  | (key, value) :: entries =>
    match toJson? value with
    | none => entriesToJson entries
    | some value => (key, value) :: entriesToJson entries

end

/-- `JSON.stringify(value)`, `none` for `undefined`. -/
def stringify? (value : JsValue) : Option (List UInt16) := value.toJson?.map JsonText.stringify

/-- Data that is no object has a text. -/
theorem exists_toText?_of_typeof {value : JsValue} (h : value.typeof ≠ "object") :
    ∃ text, value.toText? = some text := by
  cases value with
  | undefined | boolean _ | number _ | bigint _ | string _ =>
    rw [toText?]
    exact ⟨_, rfl⟩
  | null | array _ | object _ | regExp _ => exact absurd rfl h

/-- An object has a JSON text. -/
theorem exists_stringify?_of_typeof {value : JsValue} (h : value.typeof = "object") :
    ∃ text, value.stringify? = some text := by
  unfold stringify?
  cases value with
  | null | array _ | object _ | regExp _ =>
    rw [toJson?]
    exact ⟨_, rfl⟩
  | _ => simp [typeof] at h

end JsValue

end Lib
