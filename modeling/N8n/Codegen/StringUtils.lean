import N8n.Codegen.FormatRoundTrip
import N8n.Lib.StringLiteral

/-!
# Strings and keys of generated code

Every string is escaped so that between single quotes it is a literal of that string, and every
key is written as a name of the property of that key (`escapeString_formatKey_denote`).
-/

open Lib

namespace N8n

variable {text value : List UInt16}

/-- What `escapeUnit` leaves as it is. -/
structure IsPlain (u : UInt16) : Prop where
  backslash : u ≠ codeUnit '\\'
  quote : u ≠ codeUnit '\''
  lineBreak : isLineBreak u = false

/-- A unit is left as it is, or becomes an escape that is read as the unit. -/
theorem escapeUnit_cases (u : UInt16) : escapeUnit u = [u] ∧ IsPlain u ∨
    ∃ escape, escapeUnit u = charUnit '\\' :: escape ∧
      ∀ text, readEscape (escape ++ text) = some ([u], text) := by
  by_cases hbackslash : u = codeUnit '\\'
  · subst hbackslash
    exact .inr ⟨units "\\", by decide, fun _ => rfl⟩
  by_cases hsingle : u = codeUnit '\''
  · subst hsingle
    exact .inr ⟨units "'", by decide, fun _ => rfl⟩
  by_cases hleft : u = codeUnit '\u2018'
  · subst hleft
    exact .inr ⟨units "u2018", by decide, fun _ => rfl⟩
  by_cases hright : u = codeUnit '\u2019'
  · subst hright
    exact .inr ⟨units "u2019", by decide, fun _ => rfl⟩
  by_cases hleft' : u = codeUnit '\u201c'
  · subst hleft'
    exact .inr ⟨units "u201C", by decide, fun _ => rfl⟩
  by_cases hright' : u = codeUnit '\u201d'
  · subst hright'
    exact .inr ⟨units "u201D", by decide, fun _ => rfl⟩
  by_cases hn : u = codeUnit '\n'
  · subst hn
    exact .inr ⟨units "n", by decide, fun _ => rfl⟩
  by_cases hr : u = codeUnit '\r'
  · subst hr
    exact .inr ⟨units "r", by decide, fun _ => rfl⟩
  refine .inl ⟨?_, hbackslash, hsingle, ?_⟩
  · simp only [escapeUnit, if_neg hbackslash, if_neg hsingle, if_neg hleft, if_neg hright,
      if_neg hleft', if_neg hright', if_neg hn, if_neg hr]
  · exact Bool.or_eq_false_iff.mpr ⟨decide_eq_false hn, decide_eq_false hr⟩

theorem stringCharacters_escapeUnit (u : UInt16) (h : StringCharacters singleQuote text value) :
    StringCharacters singleQuote (escapeUnit u ++ text) (u :: value) := by
  rcases escapeUnit_cases u with ⟨heq, hplain⟩ | ⟨escape, heq, hread⟩
  · rw [heq]
    exact .plain hplain.quote hplain.backslash hplain.lineBreak h
  · rw [heq]
    exact .escape (hread text) h

theorem stringCharacters_escapeString (s : JsString) :
    StringCharacters singleQuote (escapeString s) s := by
  rw [escapeString_eq]
  induction s with
  | nil => exact .nil
  | cons u s ih => exact stringCharacters_escapeUnit u ih

theorem stringLiteral_quoted (s : JsString) : StringLiteral (quoted s) s :=
  ⟨singleQuote, by decide, escapeString s, by simp [quoted, units, singleQuote],
    stringCharacters_escapeString s⟩

/-- A key that needs no quotes is an identifier. -/
theorem propertyName_formatKey (key : JsString) : PropertyName (formatKey key) key := by
  unfold formatKey
  split
  · exact .literal (stringLiteral_quoted key)
  · rename_i hquoting
    exact .identifier (isName_of_not_needsQuoting (Bool.not_eq_true _ ▸ hquoting))

/-- A string between single quotes is a literal of that string and no other, and a key is a name
of the property of that key and no other. -/
theorem escapeString_formatKey_denote :
    (∀ s value : JsString,
      StringLiteral (units "'" ++ escapeString s ++ units "'") value ↔ value = s) ∧
    ∀ k key : JsString, PropertyName (formatKey k) key ↔ key = k := by
  refine ⟨fun s value => ⟨fun h => h.unique (stringLiteral_quoted s), ?_⟩,
    fun k key => ⟨fun h => h.unique (propertyName_formatKey k), ?_⟩⟩
  · rintro rfl
    exact stringLiteral_quoted value
  · rintro rfl
    exact propertyName_formatKey key

end N8n
