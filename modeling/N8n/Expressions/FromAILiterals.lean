import N8n.Expressions.FromAIOnly
import N8n.Lib.NumberLiteral

/-!
# Literal arguments of `$fromAI`

The arguments of an expression that `isFromAIOnlyExpression` accepts are meant to be literals. The
check looks at one unit after another, so names, operators between names and members of literals
pass. What is a literal call is said by the grammar of its text (`IsLiteralCall`), and the pieces
that the check goes through tell whether the text is one (`isFromAIOnlyExpression_literal_iff`).
-/

open Lib

namespace N8n

/-! ## The grammar -/

/-- `true`, `false` or a number with or without a sign. -/
def isLiteralWord (word : JsString) : Bool :=
  word = units "true" || word = units "false" || isNumberLiteral word ||
    match word with
    | [] => false
    | sign :: number =>
      (sign = codeUnit '-' || sign = codeUnit '+') && isNumberLiteral (number.dropWhile isSpace)

inductive IsLiteral : JsString → Prop
  | quoted {q : UInt16} {body : JsString} : isQuote q = true → QuotedText q body →
      IsLiteral (q :: (body ++ [q]))
  | word {word : JsString} : isLiteralWord word = true → IsLiteral word

/-- A literal between spaces. -/
def IsLiteralArgument (text : JsString) : Prop :=
  ∃ before literal after : JsString, (∀ u ∈ before, isSpace u = true) ∧
    (∀ u ∈ after, isSpace u = true) ∧ IsLiteral literal ∧ text = before ++ (literal ++ after)

/-- Literals between commas. A comma may stand after the last one. -/
inductive LiteralArguments : JsString → Prop
  | blank {s : JsString} : (∀ u ∈ s, isSpace u = true) → LiteralArguments s
  | last {s : JsString} : IsLiteralArgument s → LiteralArguments s
  | cons {s t : JsString} : IsLiteralArgument s → LiteralArguments t →
      LiteralArguments (s ++ codeUnit ',' :: t)

def IsLiteralCall (text : JsString) : Prop := ∃ args, LiteralArguments args ∧ IsCallOf args text

/-! ## The pieces of the arguments -/

/-- One quoted text, or one word that is a literal. -/
def isLiteralSegment (segment : List Piece) : Bool :=
  match trimBy Piece.isBlank segment with
  | [.quoted _ _] => true
  | pieces => isLiteralWord (textOf pieces)

/-- Each but a last blank one is a literal. -/
def areLiterals : List (List Piece) → Bool
  | [] => true
  | [last] => isLiteralSegment last || trimBy Piece.isBlank last = []
  | segment :: next :: segments => isLiteralSegment segment && areLiterals (next :: segments)

theorem areLiterals_singleton {last : List Piece} :
    areLiterals [last] = true ↔
      isLiteralSegment last = true ∨ trimBy Piece.isBlank last = [] := by
  rw [areLiterals, Bool.or_eq_true, decide_eq_true_eq]

theorem areLiterals_cons {segment : List Piece} {segments : List (List Piece)}
    (hne : segments ≠ []) :
    areLiterals (segment :: segments) = true ↔
      isLiteralSegment segment = true ∧ areLiterals segments = true := by
  cases segments with
  | nil => exact absurd rfl hne
  | cons next segments => rw [areLiterals, Bool.and_eq_true]

/-! ## From the pieces to the grammar -/

theorem isLiteralArgument_of_segment {segment : List Piece}
    (hpassed : ∀ piece ∈ segment, piece.IsPassed) (h : isLiteralSegment segment = true) :
    IsLiteralArgument (textOf segment) := by
  obtain ⟨before, after, hbefore, hafter, heq⟩ := exists_append_trimBy Piece.isBlank segment
  have htext : textOf segment =
      textOf before ++ (textOf (trimBy Piece.isBlank segment) ++ textOf after) := by
    conv_lhs => rw [heq]
    rw [textOf_append, textOf_append]
  refine ⟨textOf before, textOf (trimBy Piece.isBlank segment), textOf after,
    isSpace_textOf hbefore, isSpace_textOf hafter, ?_, htext⟩
  unfold isLiteralSegment at h
  split at h
  · rename_i q body htrim
    obtain ⟨hq, hbody⟩ := hpassed (.quoted q body) (by rw [heq, htrim]; simp)
    rw [htrim, textOf_cons, textOf_nil, List.append_nil]
    exact .quoted hq hbody
  · exact .word h

theorem literalArguments_of_segments {pieces : List Piece}
    (hpassed : ∀ piece ∈ pieces, piece.IsPassed)
    (h : areLiterals (pieces.splitOnP isComma) = true) : LiteralArguments (textOf pieces) := by
  induction pieces using separated_induction isComma with
  | single pieces hnone =>
    rw [List.splitOnP_eq_singleton hnone, areLiterals_singleton] at h
    rcases h with h | h
    · exact .last (isLiteralArgument_of_segment hpassed h)
    · exact .blank (isSpace_textOf (trimBy_eq_nil_iff.mp h))
  | cons pre sep post hnone hsep ih =>
    obtain rfl : sep = .unit (codeUnit ',') := of_decide_eq_true hsep
    obtain ⟨hpre, hrest⟩ := List.forall_mem_append.mp hpassed
    rw [List.splitOnP_append_cons_of_forall_mem hnone _ hsep,
      areLiterals_cons (List.splitOnP_ne_nil isComma post)] at h
    rw [textOf_append, textOf_cons]
    exact .cons (isLiteralArgument_of_segment hpre h.1) (ih (List.forall_mem_cons.mp hrest).2 h.2)

/-! ## From the grammar to the pieces -/

/-- What stands in a word neither opens quotes, closes the call nor ends the argument. -/
def isInnerUnit (u : UInt16) : Bool := !isQuote u && u ≠ codeUnit ')' && u ≠ codeUnit ','

theorem isInnerUnit_of_isSpace {u : UInt16} (h : isSpace u = true) : isInnerUnit u = true := by
  have hspaces : ∀ u ∈ spaceUnits, isInnerUnit u = true := by decide
  exact hspaces u (of_decide_eq_true h)

theorem inner_of_isNumberLiteralUnit {u : UInt16} (h : isNumberLiteralUnit u = true) :
    isInnerUnit u = true ∧ isSpace u = false := by
  have hquote : isQuote u = false := decide_eq_false (not_mem_of_refused h (by decide))
  have hclose : u ≠ codeUnit ')' := ne_of_refused h (by decide)
  have hcomma : u ≠ codeUnit ',' := ne_of_refused h (by decide)
  exact ⟨by simp [isInnerUnit, hquote, hclose, hcomma],
    decide_eq_false (not_mem_of_refused h (by decide))⟩

/-- A text of units that stand in a word, with spaces at neither end. -/
structure IsWord (word : JsString) : Prop where
  inner : ∀ u ∈ word, isInnerUnit u = true
  head : ∀ u ∈ word.head?, isSpace u = false
  last : ∀ u ∈ word.getLast?, isSpace u = false

theorem IsWord.of_numberUnits {word : JsString} (h : ∀ u ∈ word, isNumberLiteralUnit u = true) :
    IsWord word where
  inner u hu := (inner_of_isNumberLiteralUnit (h u hu)).1
  head u hu := (inner_of_isNumberLiteralUnit (h u (List.mem_of_mem_head? hu))).2
  last u hu := (inner_of_isNumberLiteralUnit (h u (List.mem_of_mem_getLast? hu))).2

/-- A sign goes before a word, with spaces between them. -/
theorem IsWord.signed {sign : UInt16} {number : JsString} (hsign : isNumberLiteralUnit sign = true)
    (h : IsWord (number.dropWhile isSpace)) (hne : number.dropWhile isSpace ≠ []) :
    IsWord (sign :: number) := by
  have hnumber : number = number.takeWhile isSpace ++ number.dropWhile isSpace :=
    List.takeWhile_append_dropWhile.symm
  obtain ⟨hinner, hspace⟩ := inner_of_isNumberLiteralUnit hsign
  refine ⟨List.forall_mem_cons.mpr ⟨hinner, ?_⟩, fun u hu => ?_, fun u hu => h.last u ?_⟩
  · rw [hnumber]
    exact List.forall_mem_append.mpr
      ⟨fun u hu => isInnerUnit_of_isSpace (List.mem_takeWhile_imp hu), h.inner⟩
  · obtain rfl := Option.some.inj hu
    exact hspace
  · rwa [hnumber, ← List.cons_append, List.getLast?_append_of_ne_nil _ hne] at hu

theorem isWord_of_isLiteralWord {word : JsString} (h : isLiteralWord word = true) :
    IsWord word ∧ word ≠ [] := by
  have hnil : isNumberLiteral [] = false := by decide
  have hnumber : ∀ {number : JsString}, isNumberLiteral number = true →
      IsWord number ∧ number ≠ [] := by
    intro number h
    refine ⟨.of_numberUnits (isNumberLiteralUnit_of_isNumberLiteral h), ?_⟩
    rintro rfl
    simp [hnil] at h
  simp only [isLiteralWord, Bool.or_eq_true, decide_eq_true_eq] at h
  rcases h with ((rfl | rfl) | h) | h
  · exact ⟨.of_numberUnits (by decide), by decide⟩
  · exact ⟨.of_numberUnits (by decide), by decide⟩
  · exact hnumber h
  · cases word with
    | nil => cases h
    | cons sign number =>
      simp only [Bool.and_eq_true, Bool.or_eq_true, decide_eq_true_eq] at h
      obtain ⟨hsign, h⟩ := h
      obtain ⟨hword, hne⟩ := hnumber h
      refine ⟨.signed ?_ hword hne, List.cons_ne_nil _ _⟩
      rcases hsign with rfl | rfl <;> decide

/-- The pieces of an argument : they end where they should, and none is a comma. -/
def IsSegment (pieces : List Piece) : Prop :=
  ∀ piece ∈ pieces, piece.IsClosed ∧ isComma piece = false

theorem isSegment_map_unit {s : JsString} (h : ∀ u ∈ s, isInnerUnit u = true) :
    IsSegment (s.map .unit) := by
  intro piece hpiece
  obtain ⟨u, hu, rfl⟩ := List.mem_map.mp hpiece
  have hinner := h u hu
  simp only [isInnerUnit, Bool.and_eq_true, Bool.not_eq_true', decide_eq_true_eq] at hinner
  exact ⟨⟨hinner.1.1, hinner.1.2⟩, decide_eq_false fun hcomma => hinner.2 (Piece.unit.inj hcomma)⟩

theorem segment_of_isLiteral {literal : JsString} (h : IsLiteral literal) :
    ∃ pieces, IsSegment pieces ∧ textOf pieces = literal ∧
      (∀ piece ∈ pieces.head?, piece.isBlank = false) ∧
      (∀ piece ∈ pieces.getLast?, piece.isBlank = false) ∧
      ((∃ q body, pieces = [.quoted q body]) ∨ isLiteralWord (textOf pieces) = true) := by
  cases h with
  | @quoted q body hq hbody =>
    refine ⟨[.quoted q body], fun piece hpiece => ?_, by simp [Piece.text], fun piece hpiece => ?_,
      fun piece hpiece => ?_, .inl ⟨q, body, rfl⟩⟩
    · rw [List.mem_singleton.mp hpiece]
      exact ⟨⟨hq, hbody.inside⟩, decide_eq_false (by simp)⟩
    · rw [← Option.some.inj hpiece]
      rfl
    · rw [← Option.some.inj hpiece]
      rfl
  | word hword =>
    obtain ⟨⟨hinner, hhead, hlast⟩, -⟩ := isWord_of_isLiteralWord hword
    refine ⟨literal.map .unit, isSegment_map_unit hinner, textOf_map_unit literal,
      fun piece hpiece => ?_, fun piece hpiece => ?_, .inr (by rwa [textOf_map_unit])⟩
    · rw [List.head?_map] at hpiece
      obtain ⟨u, hu, rfl⟩ := Option.map_eq_some_iff.mp hpiece
      exact hhead u hu
    · rw [List.getLast?_map] at hpiece
      obtain ⟨u, hu, rfl⟩ := Option.map_eq_some_iff.mp hpiece
      exact hlast u hu

theorem segment_of_isLiteralArgument {text : JsString} (h : IsLiteralArgument text) :
    ∃ pieces, IsSegment pieces ∧ textOf pieces = text ∧ isLiteralSegment pieces = true := by
  obtain ⟨before, literal, after, hbefore, hafter, hliteral, rfl⟩ := h
  obtain ⟨pieces, hpieces, rfl, hhead, hlast, hkind⟩ := segment_of_isLiteral hliteral
  have hblank : ∀ {s : JsString}, (∀ u ∈ s, isSpace u = true) →
      IsSegment (s.map .unit) ∧ ∀ piece ∈ s.map Piece.unit, piece.isBlank = true := by
    intro s hs
    refine ⟨isSegment_map_unit fun u hu => isInnerUnit_of_isSpace (hs u hu), fun piece hpiece => ?_⟩
    obtain ⟨u, hu, rfl⟩ := List.mem_map.mp hpiece
    exact hs u hu
  refine ⟨before.map Piece.unit ++ (pieces ++ after.map Piece.unit), List.forall_mem_append.mpr
    ⟨(hblank hbefore).1, List.forall_mem_append.mpr ⟨hpieces, (hblank hafter).1⟩⟩, by simp, ?_⟩
  rw [isLiteralSegment, trimBy_append (hblank hbefore).2 (hblank hafter).2 hhead hlast]
  split
  · rfl
  · rename_i hnot
    exact hkind.resolve_left fun ⟨q, body, heq⟩ => hnot q body heq

theorem segments_of_literalArguments {args : JsString} (h : LiteralArguments args) :
    ∃ pieces : List Piece, (∀ piece ∈ pieces, piece.IsClosed) ∧ textOf pieces = args ∧
      areLiterals (pieces.splitOnP isComma) = true := by
  induction h with
  | @blank s hs =>
    have hsegment := isSegment_map_unit fun u hu => isInnerUnit_of_isSpace (hs u hu)
    refine ⟨s.map .unit, fun piece hpiece => (hsegment piece hpiece).1, textOf_map_unit s, ?_⟩
    rw [List.splitOnP_eq_singleton fun piece hpiece => (hsegment piece hpiece).2,
      areLiterals_singleton]
    refine .inr (trimBy_eq_nil_iff.mpr fun piece hpiece => ?_)
    obtain ⟨u, hu, rfl⟩ := List.mem_map.mp hpiece
    exact hs u hu
  | last hs =>
    obtain ⟨pieces, hsegment, htext, hliteral⟩ := segment_of_isLiteralArgument hs
    refine ⟨pieces, fun piece hpiece => (hsegment piece hpiece).1, htext, ?_⟩
    rw [List.splitOnP_eq_singleton fun piece hpiece => (hsegment piece hpiece).2,
      areLiterals_singleton]
    exact .inl hliteral
  | cons hs _ ih =>
    obtain ⟨pieces, hsegment, rfl, hliteral⟩ := segment_of_isLiteralArgument hs
    obtain ⟨pieces', hclosed, rfl, hsegments⟩ := ih
    have hcomma : (Piece.unit (codeUnit ',')).IsClosed := ⟨by decide, by decide⟩
    refine ⟨pieces ++ .unit (codeUnit ',') :: pieces', List.forall_mem_append.mpr
      ⟨fun piece hpiece => (hsegment piece hpiece).1, List.forall_mem_cons.mpr ⟨hcomma, hclosed⟩⟩,
      by simp [Piece.text], ?_⟩
    rw [List.splitOnP_append_cons_of_forall_mem (fun piece hpiece => (hsegment piece hpiece).2) _
      (by decide), areLiterals_cons (List.splitOnP_ne_nil isComma pieces')]
    exact ⟨hliteral, hsegments⟩

/-! ## Literal calls -/

theorem areLiterals_of_isLiteralCall {expr : JsString} (h : IsLiteralCall (callText expr)) :
    areLiterals (argumentSegments expr) = true := by
  obtain ⟨args, hargs, hcall⟩ := h
  obtain ⟨pieces, hclosed, rfl, hsegments⟩ := segments_of_literalArguments hargs
  rwa [argumentSegments, argumentPieces_of_isCallOf hcall hclosed]

/-- Of what is accepted, the calls with literal arguments are those whose words outside quotes are
literals, one quoted text or word between two commas. -/
theorem isFromAIOnlyExpression_literal_iff {expr : JsString}
    (h : isFromAIOnlyExpression expr = true) :
    IsLiteralCall (callText expr) ↔ areLiterals (argumentSegments expr) = true := by
  refine ⟨areLiterals_of_isLiteralCall, fun hsegments => ?_⟩
  obtain ⟨hcall, hpassed⟩ := isFromAIOnlyExpression_spec h
  exact ⟨_, literalArguments_of_segments hpassed hsegments, hcall⟩

theorem isFromAIOnlyExpression_literal_iff_number :
    isFromAIOnlyExpression (units "=\x7b\x7b $fromAI('count', - 2) \x7d\x7d") = true ∧
      IsLiteralCall (callText (units "=\x7b\x7b $fromAI('count', - 2) \x7d\x7d")) := by
  have haccepted :
      isFromAIOnlyExpression (units "=\x7b\x7b $fromAI('count', - 2) \x7d\x7d") = true := by
    decide +kernel
  exact ⟨haccepted, (isFromAIOnlyExpression_literal_iff haccepted).mpr (by decide +kernel)⟩

/-- A member of a variable is accepted as an argument. -/
theorem isFromAIOnlyExpression_not_literal :
    ¬∀ expr : JsString, isFromAIOnlyExpression expr = true → IsLiteralCall (callText expr) := by
  intro h
  have haccepted : isFromAIOnlyExpression (units "=$fromAI(process.env)") = true := by
    decide +kernel
  have hrefused : areLiterals (argumentSegments (units "=$fromAI(process.env)")) = false := by
    decide +kernel
  have hliterals := areLiterals_of_isLiteralCall (h _ haccepted)
  rw [hrefused] at hliterals
  cases hliterals

end N8n
