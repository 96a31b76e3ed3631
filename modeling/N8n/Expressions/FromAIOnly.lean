import N8n.Expressions.FromAIScan
import N8n.Lib.Segments

/-!
# Expressions that are only a call of `$fromAI`

`isFromAIOnlyExpression` takes away what may stand around the call (`callText`) and goes through
its arguments : outside quotes only letters, digits, points, commas, minus signs and white space
may stand, and no quoted text may be interpolated or tagged.

What it goes through is a list of pieces, units and quoted texts (`wentThrough_of_scanLiterals`),
and the pieces are determined by the text (`piecesFrom_textOf`).
-/

open Lib

namespace N8n

/-! ## The check -/

/-- `/[a-zA-Z0-9]/` -/
def isAlphanumeric (u : UInt16) : Bool :=
  97 ≤ u.toNat && u.toNat ≤ 122 || 65 ≤ u.toNat && u.toNat ≤ 90 || (digitOf? u).isSome

/-- `/[a-zA-Z0-9_]/` -/
def isWordUnit (u : UInt16) : Bool := isAlphanumeric u || u = codeUnit '_'

/-- `/[a-zA-Z0-9.,\s-]/` -/
def isLiteralUnit (u : UInt16) : Bool :=
  isAlphanumeric u || u = codeUnit '.' || u = codeUnit ',' || isSpace u || u = codeUnit '-'

def stripEquals (str : JsString) : JsString :=
  if str.head? = some (codeUnit '=') then str.drop 1 else str

def stripDelimiters (str : JsString) : JsString :=
  if units "\x7b\x7b" <+: str ∧ units "\x7d\x7d" <:+ str then trim ((str.drop 2).rdrop 2) else str

def stripMarker (str : JsString) : JsString :=
  if fromAIMarker <+: str then trim (str.drop fromAIMarker.length) else str

/-- The expression without what may stand around the call. -/
def callText (expr : JsString) : JsString := stripMarker (stripDelimiters (trim (stripEquals expr)))

/-- What stands after a match of `/^\$fromAI\s*\(/i`. -/
def matchCallStart (str : JsString) : Option JsString :=
  if toLowerCase (str.take fromAIName.length) = fromAIName then
    match (str.drop fromAIName.length).dropWhile isSpace with
    | u :: rest => if u = codeUnit '(' then some rest else none
    | [] => none
  else none

/-- What stands after the closing parenthesis; `none` if the text is refused before it. -/
def scanLiterals : Option UInt16 → Option UInt16 → JsString → Option JsString
  | _, _, [] => none
  | some quoteChar, lastOutsideChar, char :: str =>
    if char = codeUnit '\\' then
      match str with
      | _ :: str => scanLiterals (some quoteChar) lastOutsideChar str
      | [] => none
    else if quoteChar = codeUnit '\x60' ∧ char = codeUnit '$' ∧
        str.head? = some (codeUnit '\x7b') then none
    else if char = quoteChar then scanLiterals none lastOutsideChar str
    else scanLiterals (some quoteChar) lastOutsideChar str
  | none, lastOutsideChar, char :: str =>
    if isQuote char = true then
      if char = codeUnit '\x60' ∧ lastOutsideChar.any isWordUnit = true then none
      else scanLiterals (some char) (some char) str
    else if char = codeUnit ')' then some str
    else if isLiteralUnit char = true then
      scanLiterals none (if isSpace char = true then lastOutsideChar else some char) str
    else none

def isFromAIOnlyExpression (expr : JsString) : Bool :=
  match (matchCallStart (callText expr)).bind (scanLiterals none none) with
  | some remainder => trim remainder = []
  | none => false

/-! ## Pieces -/

/-- What stands between quotes `q` without interpolation. -/
inductive QuotedText (q : UInt16) : JsString → Prop
  | nil : QuotedText q []
  | plain {u : UInt16} {s : JsString} : u ≠ codeUnit '\\' → u ≠ q →
      ¬(q = codeUnit '\x60' ∧ u = codeUnit '$' ∧ s.head? = some (codeUnit '\x7b')) →
      QuotedText q s → QuotedText q (u :: s)
  | escaped {u : UInt16} {s : JsString} : QuotedText q s → QuotedText q (codeUnit '\\' :: u :: s)

theorem QuotedText.inside {q : UInt16} {s : JsString} (h : QuotedText q s) : Inside q s := by
  induction h with
  | nil => exact .nil
  | plain hbackslash hne _ _ ih => exact .plain hbackslash hne ih
  | escaped _ ih => exact .escaped ih

/-- A unit outside quotes, or a quoted text. -/
inductive Piece where
  | unit (u : UInt16)
  | quoted (quoteChar : UInt16) (text : JsString)
  deriving DecidableEq

namespace Piece

def text : Piece → JsString
  | unit u => [u]
  | quoted quoteChar text => quoteChar :: (text ++ [quoteChar])

/-- What the check lets pass. -/
def IsPassed : Piece → Prop
  | unit u => isLiteralUnit u = true
  | quoted quoteChar text => isQuote quoteChar = true ∧ QuotedText quoteChar text

/-- What ends where it should : a unit outside quotes opens no quotes and closes no call. -/
def IsClosed : Piece → Prop
  | unit u => isQuote u = false ∧ u ≠ codeUnit ')'
  | quoted quoteChar text => isQuote quoteChar = true ∧ Inside quoteChar text

theorem IsPassed.isClosed {piece : Piece} (h : piece.IsPassed) : piece.IsClosed := by
  cases piece with
  | unit u =>
    have hu : isLiteralUnit u = true := h
    exact ⟨decide_eq_false (not_mem_of_refused hu (by decide)), ne_of_refused hu (by decide)⟩
  | quoted quoteChar text => exact ⟨h.1, h.2.inside⟩

end Piece

def textOf (pieces : List Piece) : JsString := pieces.flatMap Piece.text

@[simp] theorem textOf_append (pieces pieces' : List Piece) :
    textOf (pieces ++ pieces') = textOf pieces ++ textOf pieces' := List.flatMap_append

@[simp] theorem textOf_cons (piece : Piece) (pieces : List Piece) :
    textOf (piece :: pieces) = piece.text ++ textOf pieces := List.flatMap_cons

@[simp] theorem textOf_nil : textOf [] = [] := rfl

@[simp] theorem textOf_map_unit (s : JsString) : textOf (s.map .unit) = s := by
  induction s with
  | nil => rfl
  | cons u s ih => rw [List.map_cons, textOf_cons, ih, Piece.text, List.singleton_append]

/-- The pieces up to the closing parenthesis. Inside quotes, the quote and the text before come
with it. -/
def piecesFrom : Option (UInt16 × JsString) → JsString → List Piece
  | _, [] => []
  | some (quoteChar, text), char :: str =>
    if char = codeUnit '\\' then
      match str with
      | next :: str => piecesFrom (some (quoteChar, text ++ [char, next])) str
      | [] => []
    else if char = quoteChar then .quoted quoteChar text :: piecesFrom none str
    else piecesFrom (some (quoteChar, text ++ [char])) str
  | none, char :: str =>
    if isQuote char = true then piecesFrom (some (char, [])) str
    else if char = codeUnit ')' then []
    else .unit char :: piecesFrom none str

/-- The pieces of the arguments. -/
def argumentPieces (expr : JsString) : List Piece :=
  piecesFrom none ((matchCallStart (callText expr)).getD [])

theorem piecesFrom_quoted {q : UInt16} {s : JsString} (hq : isQuote q = true) (h : Inside q s)
    (text rest : JsString) :
    piecesFrom (some (q, text)) (s ++ q :: rest) = .quoted q (text ++ s) :: piecesFrom none rest := by
  induction h generalizing text with
  | nil =>
    rw [List.nil_append, piecesFrom.eq_def]
    simp [ne_backslash_of_isQuote hq]
  | @plain u s hbackslash hne _ ih =>
    have htext : text ++ u :: s = text ++ [u] ++ s := by simp
    rw [htext, ← ih, List.cons_append, piecesFrom.eq_def]
    simp [hbackslash, hne]
  | @escaped u s _ ih =>
    have htext : text ++ codeUnit '\\' :: u :: s = text ++ [codeUnit '\\', u] ++ s := by simp
    rw [htext, ← ih, List.cons_append, List.cons_append, piecesFrom.eq_def]
    simp

/-- The text determines the pieces. -/
theorem piecesFrom_textOf {pieces : List Piece} (h : ∀ piece ∈ pieces, piece.IsClosed)
    (rest : JsString) : piecesFrom none (textOf pieces ++ codeUnit ')' :: rest) = pieces := by
  have hclose : ¬isQuote (codeUnit ')') = true := by decide
  induction pieces with
  | nil => rw [textOf, List.flatMap_nil, List.nil_append, piecesFrom, if_neg hclose, if_pos rfl]
  | cons piece pieces ih =>
    obtain ⟨hpiece, hpieces⟩ := List.forall_mem_cons.mp h
    rw [textOf, List.flatMap_cons, ← textOf, List.append_assoc]
    cases piece with
    | unit u =>
      rw [Piece.text, List.singleton_append, piecesFrom, if_neg (Bool.not_eq_true _ ▸ hpiece.1),
        if_neg hpiece.2, ih hpieces]
    | quoted q text =>
      rw [Piece.text, List.cons_append, piecesFrom, if_pos hpiece.1, List.append_assoc,
        List.singleton_append, piecesFrom_quoted hpiece.1 hpiece.2, ih hpieces, List.nil_append]

/-- What the check has gone through when it stops : inside quotes, first the rest of the quoted
text. -/
def WentThrough : Option UInt16 → JsString → JsString → Prop
  | none, str, rest => ∃ pieces : List Piece, (∀ piece ∈ pieces, piece.IsPassed) ∧
      str = textOf pieces ++ codeUnit ')' :: rest
  | some q, str, rest => ∃ text, ∃ pieces : List Piece, QuotedText q text ∧
      (∀ piece ∈ pieces, piece.IsPassed) ∧
      str = text ++ q :: (textOf pieces ++ codeUnit ')' :: rest)

theorem wentThrough_of_scanLiterals {quoteChar lastOutsideChar : Option UInt16}
    {str rest : JsString} (h : scanLiterals quoteChar lastOutsideChar str = some rest) :
    WentThrough quoteChar str rest := by
  fun_induction scanLiterals quoteChar lastOutsideChar str with
  | case1 => cases h
  | case2 lastOutsideChar q next str ih =>
    obtain ⟨text, pieces, htext, hpieces, rfl⟩ := ih h
    exact ⟨_, pieces, .escaped htext, hpieces, rfl⟩
  | case3 => cases h
  | case4 => cases h
  | case5 lastOutsideChar q str _ _ ih =>
    obtain ⟨pieces, hpieces, rfl⟩ := ih h
    exact ⟨[], pieces, .nil, hpieces, rfl⟩
  | case6 lastOutsideChar q char str hbackslash hinterpolated hquote ih =>
    obtain ⟨text, pieces, htext, hpieces, rfl⟩ := ih h
    refine ⟨char :: text, pieces, .plain hbackslash hquote (fun hopen => hinterpolated ?_) htext,
      hpieces, rfl⟩
    -- what comes after `char` in the quoted text comes after it in the whole
    obtain ⟨hq, hchar, hhead⟩ := hopen
    refine ⟨hq, hchar, ?_⟩
    rw [List.head?_append, hhead]
    rfl
  | case7 => cases h
  | case8 lastOutsideChar char str hquote _ ih =>
    obtain ⟨text, pieces, htext, hpieces, rfl⟩ := ih h
    refine ⟨.quoted char text :: pieces, List.forall_mem_cons.mpr ⟨⟨hquote, htext⟩, hpieces⟩, ?_⟩
    simp [textOf, Piece.text]
  | case9 lastOutsideChar str _ =>
    obtain rfl := Option.some.inj h
    exact ⟨[], List.forall_mem_nil _, rfl⟩
  | case10 lastOutsideChar char str _ _ hliteral ih =>
    obtain ⟨pieces, hpieces, rfl⟩ := ih h
    exact ⟨.unit char :: pieces, List.forall_mem_cons.mpr ⟨hliteral, hpieces⟩, rfl⟩
  | case11 => cases h

/-! ## The call -/

/-- A call of `$fromAI` with these arguments. -/
def IsCallOf (args text : JsString) : Prop :=
  ∃ name spaces trailing : JsString, toLowerCase name = fromAIName ∧
    (∀ u ∈ spaces, isSpace u = true) ∧ (∀ u ∈ trailing, isSpace u = true) ∧
    text = name ++ (spaces ++ codeUnit '(' :: (args ++ codeUnit ')' :: trailing))

theorem matchCallStart_eq_some_iff {str rest : JsString} :
    matchCallStart str = some rest ↔ ∃ name spaces : JsString,
      str = name ++ (spaces ++ codeUnit '(' :: rest) ∧ toLowerCase name = fromAIName ∧
        ∀ u ∈ spaces, isSpace u = true := by
  rw [← callStart_iff, matchCallStart]
  constructor
  · intro h
    split at h
    · rename_i hname
      split at h
      · rename_i u tail hdrop
        split at h
        · rename_i hu
          obtain rfl := Option.some.inj h
          exact ⟨hname, hu ▸ hdrop⟩
        · cases h
      · cases h
    · cases h
  · rintro ⟨hname, hdrop⟩
    rw [if_pos hname, hdrop]
    rfl

/-- The pieces of an expression that is accepted. -/
theorem isFromAIOnlyExpression_spec {expr : JsString} (h : isFromAIOnlyExpression expr = true) :
    IsCallOf (textOf (argumentPieces expr)) (callText expr) ∧
      ∀ piece ∈ argumentPieces expr, piece.IsPassed := by
  unfold isFromAIOnlyExpression at h
  split at h
  · rename_i remainder hscan
    obtain ⟨rest, hstart, hscan⟩ := Option.bind_eq_some_iff.mp hscan
    obtain ⟨pieces, hpieces, rfl⟩ := wentThrough_of_scanLiterals hscan
    obtain ⟨name, spaces, htext, hname, hspaces⟩ := matchCallStart_eq_some_iff.mp hstart
    have hargs : argumentPieces expr = pieces := by
      rw [argumentPieces, hstart, Option.getD_some,
        piecesFrom_textOf fun piece hpiece => (hpieces piece hpiece).isClosed]
    rw [hargs]
    exact ⟨⟨name, spaces, remainder, hname, hspaces, trimBy_eq_nil_iff.mp (of_decide_eq_true h), htext⟩,
      hpieces⟩
  · cases h

/-- The text of a call determines its arguments, as long as they are made of pieces. -/
theorem argumentPieces_of_isCallOf {expr : JsString} {pieces : List Piece}
    (hcall : IsCallOf (textOf pieces) (callText expr)) (h : ∀ piece ∈ pieces, piece.IsClosed) :
    argumentPieces expr = pieces := by
  obtain ⟨name, spaces, trailing, hname, hspaces, -, htext⟩ := hcall
  have hstart := matchCallStart_eq_some_iff.mpr ⟨name, spaces, htext, hname, hspaces⟩
  rw [argumentPieces, hstart, Option.getD_some, piecesFrom_textOf h]

/-! ## The pieces between commas -/

def isComma (piece : Piece) : Bool := piece = .unit (codeUnit ',')

def Piece.isBlank : Piece → Bool
  | unit u => isSpace u
  | quoted _ _ => false

/-- The pieces of each argument. -/
def argumentSegments (expr : JsString) : List (List Piece) := (argumentPieces expr).splitOnP isComma

theorem isSpace_textOf {pieces : List Piece} (h : ∀ piece ∈ pieces, piece.isBlank = true) :
    ∀ u ∈ textOf pieces, isSpace u = true := by
  intro u hu
  obtain ⟨piece, hpiece, hu⟩ := List.mem_flatMap.mp hu
  have hblank := h piece hpiece
  cases piece with
  | unit v =>
    rw [Piece.text, List.mem_singleton] at hu
    rwa [hu]
  | quoted => cases hblank

end N8n
