import N8n.Lib.LiteralReader

/-!
# Literals of JavaScript

`literals call` is the dialect of expressions made of literals and calls of functions with one
argument; `call` says what the functions do. In an object literal `__proto__` is no property
(`ownProperties_of_nodup`).
-/

namespace Lib

/-- A backslash before a digit, a line break or `x` is not read. -/
def isSingleEscape (u : UInt16) : Bool :=
  (digitOf? u).isNone && u ≠ charUnit '\n' && u ≠ charUnit '\r' && u ≠ charUnit 'x'

def isLineBreak (u : UInt16) : Bool := u = charUnit '\n' || u = charUnit '\r'

/-- The value of a string literal from after its opening quote, and what is left. -/
def readString : UInt16 → List UInt16 → Option (List UInt16 × List UInt16) :=
  readQuoted isLineBreak isSingleEscape

/-- White space and line terminators. -/
def spaceUnits : List UInt16 :=
  [9, 10, 11, 12, 13, 32, 0xa0, 0x1680, 0x2000, 0x2001, 0x2002, 0x2003, 0x2004, 0x2005, 0x2006,
    0x2007, 0x2008, 0x2009, 0x200a, 0x2028, 0x2029, 0x202f, 0x205f, 0x3000, 0xfeff]

def isSpace (u : UInt16) : Bool := u ∈ spaceUnits

def expressionStart (u : UInt16) : ExpressionStart :=
  if u = charUnit '\'' ∨ u = charUnit '"' then .string
  else if u = charUnit '[' then .array
  else if u = charUnit '\x7b' then .object
  else if u = charUnit '-' ∨ (digitOf? u).isSome then .number
  else if isNameStart u then .name
  else .other

/-- The key of an object literal that sets the prototype. -/
def protoKey : List UInt16 := units "__proto__"

/-- The own properties of an object literal. `__proto__` sets the prototype. -/
def ownProperties (properties : List (List UInt16 × JsonValue)) : List (List UInt16 × JsonValue) :=
  JsonValue.lastProperties (properties.filter fun property => property.1 ≠ protoKey)

/-- Literals, and calls of functions with one argument. -/
def literals (call : List UInt16 → JsonValue → Option JsonValue) : Dialect where
  isSpace := isSpace
  start := expressionStart
  readString := readString
  readNumber := JsNumber.readSigned
  nameKeys := true
  own := ownProperties
  call := call
  readString_suffix := readQuoted_suffix
  readNumber_suffix := JsNumber.readSigned_suffix

theorem expressionStart_of_isNameStart (h : isNameStart u = true) : expressionStart u = .name := by
  have hne : ∀ {c : UInt16}, isNameStart c = false → u ≠ c := by
    rintro c hc rfl
    rw [h] at hc
    cases hc
  have hdigit := digitOf?_of_isNameStart h
  unfold expressionStart
  rw [if_neg (not_or.mpr ⟨hne (by decide), hne (by decide)⟩), if_neg (hne (by decide)),
    if_neg (hne (by decide)), if_neg (not_or.mpr ⟨hne (by decide), by simp [hdigit]⟩), if_pos h]

theorem not_isNameStart_of_isSpace {u : UInt16} (h : isSpace u = true) : isNameStart u = false := by
  have hspaces : ∀ u ∈ spaceUnits, isNameStart u = false := by decide
  exact hspaces u (of_decide_eq_true h)

theorem hasNames_literals (call : List UInt16 → JsonValue → Option JsonValue) :
    (literals call).HasNames := fun _ h => expressionStart_of_isNameStart h

/-- Of an object literal without a key twice, the properties are its own, except `__proto__`. -/
theorem ownProperties_of_nodup {properties : List (List UInt16 × JsonValue)}
    (h : (properties.map Prod.fst).Nodup) :
    ownProperties properties = properties.filter fun property => property.1 ≠ protoKey :=
  JsonValue.lastProperties_of_nodup (h.sublist (List.filter_sublist.map Prod.fst))

end Lib
