import N8n.Lib.NumberOfString
import N8n.Lib.Utf8

/-!
# String literals and property names of JavaScript

`StringCharacters` is the grammar of what stands between the quotes of a string literal, with the
value of each piece, as in strict code : there are no octal escapes. A text is at most one literal
(`StringLiteral.unique`) and names at most one property (`PropertyName.unique`).
-/

namespace Lib

variable {quote : UInt16} {text s s' : List UInt16}

/-- Line feed, carriage return, line separator and paragraph separator. -/
def lineTerminators : List UInt16 := [10, 13, 0x2028, 0x2029]

/-- The character of an `x` escape, and what is left. -/
def readHexEscape : List UInt16 → Option (List UInt16 × List UInt16)
  | a :: b :: rest => (hexUnit? (charUnit '0') (charUnit '0') a b).map fun u => ([u], rest)
  | _ => none

/-- The character of a `u` escape, and what is left : four digits, or a code point in braces. -/
def readUnicodeEscape (text : List UInt16) : Option (List UInt16 × List UInt16) :=
  if text.head? = some (charUnit '\x7b') then
    let digits := text.tail.takeWhile fun u => (hexValue? u).isSome
    let rest := text.tail.dropWhile fun u => (hexValue? u).isSome
    match readBase 16 digits with
    | some c =>
      if c < 0x110000 ∧ rest.head? = some (charUnit '\x7d') then some (Utf8.toUnits c, rest.tail)
      else none
    | none => none
  else
    match text with
    | a :: b :: c :: d :: rest => (hexUnit? a b c d).map fun u => ([u], rest)
    | _ => none

/-- What an escape stands for, from after its backslash, and what is left. A line terminator goes
on with the literal on the next line. -/
def readEscape : List UInt16 → Option (List UInt16 × List UInt16)
  | [] => none
  | e :: rest =>
    if e = charUnit 'x' then readHexEscape rest
    else if e = charUnit 'u' then readUnicodeEscape rest
    else if e = charUnit '0' ∧ rest.head?.bind digitOf? = none then some ([0], rest)
    else if (digitOf? e).isSome then none
    else if e = charUnit '\r' ∧ rest.head? = some (charUnit '\n') then some ([], rest.tail)
    else if e ∈ lineTerminators then some ([], rest)
    else some ([singleEscape e], rest)

/-- The characters of a string literal, and their value. -/
inductive StringCharacters (quote : UInt16) : List UInt16 → List UInt16 → Prop
  | nil : StringCharacters quote [] []
  | plain {u : UInt16} {text s : List UInt16} : u ≠ quote → u ≠ charUnit '\\' →
    isLineBreak u = false → StringCharacters quote text s → StringCharacters quote (u :: text) (u :: s)
  | escape {text us rest s : List UInt16} : readEscape text = some (us, rest) →
    StringCharacters quote rest s → StringCharacters quote (charUnit '\\' :: text) (us ++ s)

/-- The text is a string literal of the value `s`. -/
def StringLiteral (text s : List UInt16) : Prop :=
  ∃ quote ∈ [charUnit '\'', charUnit '"'], ∃ characters,
    text = quote :: (characters ++ [quote]) ∧ StringCharacters quote characters s

/-- The text is the name `key` of a property : an identifier of the characters `a` to `z`, `A` to
`Z`, `0` to `9`, `_` and `$`, or a string literal. -/
inductive PropertyName : List UInt16 → List UInt16 → Prop
  | identifier {key : List UInt16} : IsName key → PropertyName key key
  | literal {text key : List UInt16} : StringLiteral text key → PropertyName text key

/-! ## At most one value -/

theorem StringCharacters.unique (h : StringCharacters quote text s)
    (h' : StringCharacters quote text s') : s = s' := by
  induction h generalizing s' with
  | nil =>
    cases h'
    rfl
  | plain hquote hbackslash hbreak h ih =>
    cases h' with
    | plain _ _ _ h' => rw [ih h']
    | escape => exact absurd rfl hbackslash
  | escape hescape h ih =>
    cases h' with
    | plain _ hbackslash => exact absurd rfl hbackslash
    | escape hescape' h' =>
      obtain ⟨rfl, rfl⟩ := Prod.mk.inj (Option.some.inj (hescape.symm.trans hescape'))
      rw [ih h']

theorem StringLiteral.unique (h : StringLiteral text s) (h' : StringLiteral text s') : s = s' := by
  obtain ⟨quote, -, characters, rfl, h⟩ := h
  obtain ⟨quote', -, characters', heq, h'⟩ := h'
  obtain ⟨rfl, heq⟩ := List.cons.inj heq
  obtain rfl := List.append_cancel_right heq
  exact h.unique h'

/-- A literal begins with a quote, and no identifier does. -/
theorem StringLiteral.not_isName (h : StringLiteral text s) : ¬IsName text := by
  obtain ⟨quote, hquote, characters, rfl, -⟩ := h
  have hquotes : ∀ u ∈ [charUnit '\'', charUnit '"'], isNameStart u = false := by decide
  intro hname
  have hstart := hname.start quote rfl
  rw [hquotes quote hquote] at hstart
  cases hstart

theorem PropertyName.unique (h : PropertyName text s) (h' : PropertyName text s') : s = s' := by
  cases h with
  | identifier hname =>
    cases h' with
    | identifier => rfl
    | literal h' => exact absurd hname h'.not_isName
  | literal h =>
    cases h' with
    | identifier hname => exact absurd hname h.not_isName
    | literal h' => exact h.unique h'

end Lib
