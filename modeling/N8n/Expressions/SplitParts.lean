import N8n.Expressions.ExpressionParser

/-!
# Which brackets the splitters see

Both splitters cut an expression at its brackets, looking for `{{` and `}}` in turn. For the
workflow package a bracket does not count if a backslash stands before it, for the tournament
package if the number of backslashes directly before it is odd
(`ExpressionParser.splitExpression_eq`, `ExpressionSplitter.splitExpression_eq`).
-/

open Lib

namespace N8n

/-- The bracket that is looked for outside and inside of code. -/
def brace : Bool → UInt16
  | false => openBrace
  | true => closeBrace

def SearchingFor.inside : SearchingFor → Bool
  | .open => false
  | .close => true

theorem backslash_ne_brace (inside : Bool) : backslash ≠ brace inside := by
  cases inside <;> decide

namespace ExpressionParser

/-- A bracket with a backslash before it does not count. -/
def escapes (backslashes : ℕ) : Bool := 0 < backslashes

def parts (expression : JsString) : List (BracketPart UInt16) :=
  bracketParts escapes backslash brace expression

/-- The chunk made of a part; what comes after the last bracket is lost if it is empty or ends
with a bracket that does not count. -/
def chunk? (part : BracketPart UInt16) : Option ExpressionChunk :=
  match part.ending, part.inside with
  | .cut, _ => none
  | _, false => some (.text part.text)
  | .bracket, true => some (.code (escapeCode part.text) true)
  | .missing, true => some (.code (escapeCode part.text) false)

theorem activeRegex_eq (searchingFor : SearchingFor) :
    activeRegex searchingFor = escapedPair backslash (brace searchingFor.inside) := by
  cases searchingFor <;> rfl

theorem splitLoop_eq (n : ℕ) (searchingFor : SearchingFor) (buffer expr : JsString) :
    splitLoop n searchingFor buffer expr =
      (bracketPartsFrom escapes backslash brace n searchingFor.inside buffer expr).filterMap
        chunk? := by
  induction n generalizing searchingFor buffer expr with
  | zero => rfl
  | succ n ih =>
    unfold splitLoop
    rw [bracketPartsFrom]
    split
    · rfl
    rw [activeRegex_eq, search_escapedPair (backslash_ne_brace _)]
    cases hfind : findPair (brace searchingFor.inside) expr with
    | none => cases searchingFor <;> rfl
    | some x =>
      have hexpr := append_of_findPair hfind
      obtain ⟨htake, hdrop⟩ := take_of_append hexpr
      by_cases hlast : x.1.getLast? = some backslash
      · obtain ⟨before, hbefore⟩ := List.getLast?_eq_some_iff.mp hlast
        have hlength : x.1.dropLast.length + 3 = x.1.length + 2 := by simp [hbefore]
        have hescapes : escapes (escapeRun backslash x.1) = true :=
          decide_eq_true (escapeRun_pos_iff.mpr ⟨before, hbefore⟩)
        simp only [Option.map_some, if_pos hlast, hlength, htake, hdrop, hescapes, if_true]
        exact ih ..
      · have hescapes : escapes (escapeRun backslash x.1) = false := by
          refine decide_eq_false fun hpos => hlast ?_
          obtain ⟨before, hbefore⟩ := escapeRun_pos_iff.mp hpos
          rw [hbefore, List.getLast?_concat]
        simp only [Option.map_some, if_neg hlast, hdrop, hescapes]
        cases searchingFor with
        | «open» => simp [ih, SearchingFor.inside, chunk?]
        | close => simp [ih, SearchingFor.inside, chunk?]

theorem splitExpression_eq {expression : JsString} (h : expression ≠ []) :
    splitExpression expression = (parts expression).filterMap chunk? := by
  rw [splitExpression, if_neg h, splitLoop_eq]
  rfl

end ExpressionParser

namespace ExpressionSplitter

/-- A bracket with an odd number of backslashes before it does not count. -/
def escapes (backslashes : ℕ) : Bool := backslashes % 2 = 1

def parts (expression : JsString) : List (BracketPart UInt16) :=
  bracketParts escapes backslash brace expression

/-- The chunk made of a part; what comes after the last bracket is lost if it is empty or ends
with a bracket that does not count. -/
def chunk? (part : BracketPart UInt16) : Option ExpressionChunk :=
  match part.ending, part.inside with
  | .cut, _ => none
  | .bracket, false => some (.text (normalizeBackslashes part.text))
  | .missing, false => some (.text part.text)
  | .bracket, true => some (.code (escapeCode part.text) true)
  | .missing, true => some (.code (escapeCode part.text) false)

theorem activeRegex_eq (searchingFor : SearchingFor) :
    activeRegex searchingFor =
      .literal [brace searchingFor.inside, brace searchingFor.inside] := by
  cases searchingFor <;> rfl

theorem splitLoop_eq (n : ℕ) (searchingFor : SearchingFor) (buffer expr : JsString) :
    splitLoop n searchingFor buffer expr =
      (bracketPartsFrom escapes backslash brace n searchingFor.inside buffer expr).filterMap
        chunk? := by
  induction n generalizing searchingFor buffer expr with
  | zero => rfl
  | succ n ih =>
    unfold splitLoop
    rw [bracketPartsFrom]
    split
    · rfl
    rw [activeRegex_eq, search_pair]
    cases hfind : findPair (brace searchingFor.inside) expr with
    | none => cases searchingFor <;> rfl
    | some x =>
      have hexpr := append_of_findPair hfind
      obtain ⟨htake, hdrop⟩ := take_of_append hexpr
      simp only [Option.map_some, htake, hdrop, escapes, decide_eq_true_eq]
      split
      · exact ih ..
      · cases searchingFor with
        | «open» => simp [ih, SearchingFor.inside, chunk?]
        | close => simp [ih, SearchingFor.inside, chunk?]

theorem splitExpression_eq {expression : JsString} (h : expression ≠ []) :
    splitExpression expression = (parts expression).filterMap chunk? := by
  rw [splitExpression, if_neg h, splitLoop_eq]
  rfl

end ExpressionSplitter

end N8n
