import N8n.Interfaces
import N8n.Lib.Brackets

/-!
# Splitting an expression

An expression is text with code between `{{` and `}}`. The workflow package and the
tournament package both split one into chunks; they differ in which brackets count.

A string is the sequence of its UTF-16 code units. The loops get a bound on the number of
their iterations, the length of the expression, since each takes at least two code units.
-/

open Lib

namespace N8n

inductive ExpressionChunk where
  | text (text : JsString)
  | code (text : JsString) (hasClosingBrackets : Bool)
  deriving DecidableEq, Repr

inductive SearchingFor where
  | open
  | close
  deriving DecidableEq, Repr

def backslash : UInt16 := codeUnit '\\'

def openBrace : UInt16 := codeUnit '\x7b'

def closeBrace : UInt16 := codeUnit '\x7d'

/-! ## The workflow package -/

namespace ExpressionParser

/-- `/(?<escape>\\|)(?<brackets>\{\{)/` -/
def OPEN_BRACKET : Pattern UInt16 where
  before := .alt (.unit backslash) .empty
  body := .literal [openBrace, openBrace]
  after := .empty

/-- `/(?<escape>\\|)(?<brackets>\}\})/` -/
def CLOSE_BRACKET : Pattern UInt16 where
  before := .alt (.unit backslash) .empty
  body := .literal [closeBrace, closeBrace]
  after := .empty

def activeRegex : SearchingFor → Pattern UInt16
  | .open => OPEN_BRACKET
  | .close => CLOSE_BRACKET

def escapeCode (text : JsString) : JsString :=
  replaceFirst [backslash, closeBrace, closeBrace] [closeBrace, closeBrace] text

/-- What is left of the loop : `expr` is the expression from `index` on. -/
def splitLoop : ℕ → SearchingFor → JsString → JsString → List ExpressionChunk
  | 0, _, _, _ => []
  | n + 1, searchingFor, buffer, expr =>
    if expr = [] then []
    else
      match (activeRegex searchingFor).search expr with
      | none =>
        match searchingFor with
        | .open => [.text (buffer ++ expr)]
        | .close => [.code (escapeCode (buffer ++ expr)) false]
      | some (before, res) =>
        if res.before ≠ [] then
          splitLoop n searchingFor (buffer ++ expr.take (before.length + 3))
            (expr.drop (before.length + 3))
        else
          match searchingFor with
          | .open => .text (buffer ++ before) :: splitLoop n .close [] (expr.drop (before.length + 2))
          | .close =>
            .code (escapeCode (buffer ++ before)) true ::
              splitLoop n .open [] (expr.drop (before.length + 2))

def splitExpression (expression : JsString) : List ExpressionChunk :=
  if expression = [] then [.text []] else splitLoop expression.length .open [] expression

def escapeTmplExpression (part : JsString) : JsString :=
  replaceFirst [closeBrace, closeBrace] [backslash, closeBrace, closeBrace] part

def joinChunk : ExpressionChunk → JsString
  | .text text => text
  | .code text hasClosingBrackets =>
    [openBrace, openBrace] ++ escapeTmplExpression text ++
      if hasClosingBrackets then [closeBrace, closeBrace] else []

def joinExpression (parts : List ExpressionChunk) : JsString := parts.flatMap joinChunk

end ExpressionParser

/-! ## The tournament package -/

namespace ExpressionSplitter

/-- `/(?<brackets>\{\{)/` -/
def OPEN_BRACKET : Pattern UInt16 := .literal [openBrace, openBrace]

/-- `/(?<brackets>\}\})/` -/
def CLOSE_BRACKET : Pattern UInt16 := .literal [closeBrace, closeBrace]

def activeRegex : SearchingFor → Pattern UInt16
  | .open => OPEN_BRACKET
  | .close => CLOSE_BRACKET

def escapeCode (text : JsString) : JsString :=
  replaceFirst [backslash, closeBrace, closeBrace] [closeBrace, closeBrace] text

def normalizeBackslashes (text : JsString) : JsString :=
  (Pattern.literal [backslash, backslash]).replaceAll (fun _ => [backslash]) text

/-- What is left of the loop : `expr` is the expression from `index` on. -/
def splitLoop : ℕ → SearchingFor → JsString → JsString → List ExpressionChunk
  | 0, _, _, _ => []
  | n + 1, searchingFor, buffer, expr =>
    if expr = [] then []
    else
      match (activeRegex searchingFor).search expr with
      | none =>
        match searchingFor with
        | .open => [.text (buffer ++ expr)]
        | .close => [.code (escapeCode (buffer ++ expr)) false]
      | some (before, _) =>
        let backslashCount := escapeRun backslash before
        if backslashCount % 2 = 1 then
          splitLoop n searchingFor (buffer ++ expr.take (before.length + 2))
            (expr.drop (before.length + 2))
        else
          match searchingFor with
          | .open =>
            .text (normalizeBackslashes (buffer ++ before)) ::
              splitLoop n .close [] (expr.drop (before.length + 2))
          | .close =>
            .code (escapeCode (buffer ++ before)) true ::
              splitLoop n .open [] (expr.drop (before.length + 2))

def splitExpression (expression : JsString) : List ExpressionChunk :=
  if expression = [] then [.text []] else splitLoop expression.length .open [] expression

end ExpressionSplitter

end N8n
