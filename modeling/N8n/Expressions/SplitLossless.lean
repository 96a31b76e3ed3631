import N8n.Expressions.SplitParts
import N8n.Lib.Splice
import Mathlib.Data.List.Chain

/-!
# Splitting and joining an expression

`joinExpression` puts the brackets back, and in code a backslash before the first `}}`. That
gives the expression again, and the chunks are as they should be (`SplitsLosslessly`), exactly
if every part is restored (`splitsLosslessly_iff`) :

* the expression does not end directly after an opening bracket or an escaped one, because
  `splitExpression` drops what it has collected then;
* in code no `}` stands directly before the first escaped `}}`, because the backslash is put
  back before that one.
-/

open Lib

namespace N8n

namespace ExpressionChunk

def isCode : ExpressionChunk → Bool
  | text _ => false
  | code _ _ => true

/-- Not code without closing brackets. -/
def isClosed : ExpressionChunk → Bool
  | text _ => true
  | code _ hasClosingBrackets => hasClosingBrackets

end ExpressionChunk

/-- Parts that all give chunks give chunks that take turns as they do. -/
theorem chunks_alternate {chunk? : BracketPart UInt16 → Option ExpressionChunk}
    (hcode : ∀ part chunk, chunk? part = some chunk → chunk.isCode = part.inside)
    {parts : List (BracketPart UInt16)} (hchain : parts.IsChain fun x y => y.inside = !x.inside)
    (hsome : ∀ part ∈ parts, ∃ chunk, chunk? part = some chunk) :
    (parts.filterMap chunk?).head?.map ExpressionChunk.isCode = parts.head?.map (·.inside) ∧
      (parts.filterMap chunk?).IsChain fun c d => d.isCode = !c.isCode := by
  induction parts with
  | nil => exact ⟨rfl, .nil⟩
  | cons part parts ih =>
    obtain ⟨chunk, hchunk⟩ := hsome part List.mem_cons_self
    obtain ⟨hhead, hchain'⟩ := ih hchain.of_cons fun p hp => hsome p (List.mem_cons_of_mem _ hp)
    have hpart := hcode part chunk hchunk
    rw [List.filterMap_cons_some hchunk]
    refine ⟨by rw [List.head?_cons, Option.map_some, hpart]; rfl, ?_⟩
    cases hrest : parts.filterMap chunk? with
    | nil => exact .singleton _
    | cons chunk' rest =>
      rw [hrest] at hhead hchain'
      cases parts with
      | nil => cases hrest
      | cons part' parts =>
        refine .cons_cons ?_ hchain'
        rw [hpart, Option.some.inj hhead]
        exact (List.isChain_cons_cons.mp hchain).1

namespace ExpressionParser

/-! ## What is promised -/

/-- Text and code in turn, text first, only the last code without closing brackets, and joined
they are the expression. -/
structure SplitsLosslessly (expression : JsString) (chunks : List ExpressionChunk) : Prop where
  head : chunks.head?.map ExpressionChunk.isCode = some false
  alternate : chunks.IsChain fun c d => d.isCode = !c.isCode
  closed : ∀ c ∈ chunks.dropLast, c.isClosed = true
  joined : joinExpression chunks = expression

/-- Directly before the first escaped `}}` stands another `}`. -/
def braceBeforeEscape (code : JsString) : Bool :=
  match findPair closeBrace code with
  | none => false
  | some (before, _) => [closeBrace, backslash].isSuffixOf before

/-- Joining gives back what the part was made from. -/
def isRestored (part : BracketPart UInt16) : Bool :=
  match part.ending with
  | .cut => !part.inside && part.text == []
  | _ => !(part.inside && braceBeforeEscape part.text)

/-! ## One chunk -/

/-- The brackets of a part of code come back, but not always in their place. -/
theorem escapeTmplExpression_escapeCode {code : JsString}
    (h : FirstPairEscaped backslash closeBrace code) :
    (escapeTmplExpression (escapeCode code)).length = code.length ∧
      (escapeTmplExpression (escapeCode code) = code ↔ braceBeforeEscape code = false) := by
  cases hfind : findPair closeBrace code with
  | none =>
    have hcode : escapeCode code = code := by
      rw [escapeCode, replaceFirst, search_escape_pair_of_none hfind]
    have hpart : escapeTmplExpression code = code := by
      rw [escapeTmplExpression, replaceFirst, search_pair, hfind]
      rfl
    rw [hcode, hpart, braceBeforeEscape, hfind]
    exact ⟨rfl, iff_of_true rfl rfl⟩
  | some x =>
    obtain ⟨before, hbefore⟩ := h x hfind
    obtain ⟨before', rest⟩ := x
    obtain rfl : before' = before ++ [backslash] := hbefore
    have hcode := append_of_findPair hfind
    have hescape : escapeCode code = before ++ closeBrace :: closeBrace :: rest := by
      rw [escapeCode, replaceFirst, search_escape_pair hfind]
      simp
    have hnone : findPair closeBrace before = none :=
      findPair_eq_none_of_prefix (List.prefix_append before [backslash]) (findPair_before hfind)
    have hbefore : braceBeforeEscape code =
        [closeBrace, backslash].isSuffixOf (before ++ [backslash]) := by
      simp only [braceBeforeEscape, hfind]
    rw [hbefore, hescape]
    rcases findPair_after hnone rest with ⟨early, hearly, hfind'⟩ | ⟨hsuffix, hfind'⟩
    · have hpart : escapeTmplExpression (before ++ closeBrace :: closeBrace :: rest) =
          early ++ [backslash, closeBrace, closeBrace] ++ closeBrace :: rest := by
        rw [escapeTmplExpression, replaceFirst, search_pair, hfind']
        rfl
      have hbrace : [closeBrace, backslash].isSuffixOf (before ++ [backslash]) = true := by
        rw [List.isSuffixOf_iff_suffix, hearly]
        exact ⟨early, by simp⟩
      rw [hpart, hbrace, ← hcode, hearly]
      refine ⟨by simp, iff_of_false (fun heq => ?_) (by simp)⟩
      have htail := List.append_cancel_left (by simpa using heq :
        early ++ (backslash :: closeBrace :: closeBrace :: closeBrace :: rest) =
          early ++ (closeBrace :: backslash :: closeBrace :: closeBrace :: rest))
      exact absurd (List.cons.inj htail).1 (by decide)
    · have hpart : escapeTmplExpression (before ++ closeBrace :: closeBrace :: rest) =
          before ++ [backslash, closeBrace, closeBrace] ++ rest := by
        rw [escapeTmplExpression, replaceFirst, search_pair, hfind']
        rfl
      have hbrace : [closeBrace, backslash].isSuffixOf (before ++ [backslash]) = false := by
        rw [Bool.eq_false_iff, Ne, List.isSuffixOf_iff_suffix]
        rintro ⟨early, hearly⟩
        refine hsuffix ⟨early, ?_⟩
        have : early ++ [closeBrace] ++ [backslash] = before ++ [backslash] := by
          simpa using hearly
        exact List.append_cancel_right this
      rw [hpart, hbrace, ← hcode]
      refine ⟨by simp, iff_of_true (by simp) rfl⟩

/-- What a part contributes to the joined expression. -/
def joinPart (part : BracketPart UInt16) : JsString := (chunk? part).elim [] joinChunk

theorem joinExpression_chunks (parts : List (BracketPart UInt16)) :
    joinExpression (parts.filterMap chunk?) = parts.flatMap joinPart := by
  induction parts with
  | nil => rfl
  | cons part parts ih =>
    rw [List.flatMap_cons, ← ih, List.filterMap_cons]
    cases hchunk : chunk? part with
    | none => simp [joinPart, hchunk]
    | some chunk => simp [joinPart, hchunk, joinExpression]

theorem joinPart_eq_source_iff {part : BracketPart UInt16} (hending : part.ending ≠ .cut)
    (h : FirstPairEscaped backslash (brace part.inside) part.text) :
    (joinPart part).length = (part.source brace).length ∧
      (joinPart part = part.source brace ↔ isRestored part = true) := by
  obtain ⟨inside, text, ending⟩ := part
  cases inside with
  | false =>
    cases ending with
    | cut => exact absurd rfl hending
    | bracket => simp [joinPart, chunk?, joinChunk, BracketPart.source, isRestored]
    | missing => simp [joinPart, chunk?, joinChunk, BracketPart.source, isRestored]
  | true =>
    obtain ⟨hlength, hrestored⟩ := escapeTmplExpression_escapeCode h
    cases ending with
    | cut => exact absurd rfl hending
    | bracket =>
      simp [joinPart, chunk?, joinChunk, BracketPart.source, isRestored, brace, hlength, hrestored]
    | missing =>
      simp [joinPart, chunk?, joinChunk, BracketPart.source, isRestored, brace, hlength, hrestored]

/-! ## All of them -/

theorem isCode_of_chunk? {part : BracketPart UInt16} {chunk : ExpressionChunk}
    (h : chunk? part = some chunk) : chunk.isCode = part.inside := by
  obtain ⟨inside, text, ending⟩ := part
  cases inside <;> cases ending <;> cases h <;> rfl

theorem isClosed_of_chunk? {part : BracketPart UInt16} {chunk : ExpressionChunk}
    (hending : part.ending = .bracket) (h : chunk? part = some chunk) : chunk.isClosed = true := by
  obtain ⟨inside, text, ending⟩ := part
  cases inside <;> cases ending <;> cases h <;> first | rfl | cases hending

theorem exists_chunk? {part : BracketPart UInt16} (hending : part.ending ≠ .cut) :
    ∃ chunk, chunk? part = some chunk := by
  obtain ⟨inside, text, ending⟩ := part
  cases inside <;> cases ending <;> first | exact ⟨_, rfl⟩ | exact absurd rfl hending

theorem chunk?_of_cut {part : BracketPart UInt16} (hending : part.ending = .cut) :
    chunk? part = none := by
  obtain ⟨inside, text, ending⟩ := part
  cases hending
  rfl

/-- Where the expression ends the parts are as `bracketPartsFrom_ends` says. -/
theorem parts_ends (expression : JsString) :
    ∃ parts' last, parts expression = parts' ++ [last] ∧
      (∀ part ∈ parts', part.ending = .bracket) ∧ last.ending ≠ .bracket :=
  bracketPartsFrom_ends _ _ _ _

theorem firstPairEscaped_of_mem_parts {expression : JsString} {part : BracketPart UInt16}
    (h : part ∈ parts expression) :
    FirstPairEscaped backslash (brace part.inside) part.text :=
  bracketPartsFrom_firstPairEscaped (fun _ hk => of_decide_eq_true hk) _ _ _ (.inl rfl) part h

theorem joinPart_eq_source_iff_of_cut {part : BracketPart UInt16} (hending : part.ending = .cut) :
    joinPart part = part.source brace ↔ isRestored part = true := by
  obtain ⟨inside, text, ending⟩ := part
  cases hending
  cases inside with
  | false =>
    cases text with
    | nil => exact iff_of_true rfl rfl
    | cons u text => exact iff_of_false (fun h => by cases h) (fun h => by cases h)
  | true => exact iff_of_false (fun h => by cases h) (fun h => by cases h)

/-- Joining gives the expression back exactly if it gives back every part. -/
theorem joinExpression_eq_iff (expression : JsString) :
    joinExpression ((parts expression).filterMap chunk?) = expression ↔
      ∀ part ∈ parts expression, isRestored part = true := by
  obtain ⟨parts', last, hparts, hends, hlast⟩ := parts_ends expression
  have hescaped : ∀ part ∈ parts expression,
      FirstPairEscaped backslash (brace part.inside) part.text :=
    fun part hpart => firstPairEscaped_of_mem_parts hpart
  have hsource : parts'.flatMap (·.source brace) ++ last.source brace = expression := by
    have : (parts expression).flatMap (·.source brace) = expression :=
      flatMap_source_bracketParts expression
    rwa [hparts, List.flatMap_append, List.flatMap_singleton] at this
  rw [joinExpression_chunks, hparts]
  rw [hparts] at hescaped
  have hparts' : ∀ part ∈ parts', (joinPart part).length = (part.source brace).length ∧
      (joinPart part = part.source brace ↔ isRestored part = true) := fun part hpart =>
    joinPart_eq_source_iff (by rw [hends part hpart]; decide)
      (hescaped part (List.mem_append_left _ hpart))
  have hlast' : joinPart last = last.source brace ↔ isRestored last = true := by
    by_cases hcut : last.ending = .cut
    · exact joinPart_eq_source_iff_of_cut hcut
    · exact (joinPart_eq_source_iff hcut (hescaped last (by simp))).2
  have hjoin : parts'.flatMap joinPart ++ joinPart last =
        parts'.flatMap (·.source brace) ++ last.source brace ↔
      (∀ part ∈ parts', joinPart part = part.source brace) ∧
        joinPart last = last.source brace :=
    flatMap_append_inj_iff fun part hpart => (hparts' part hpart).1
  rw [hsource] at hjoin
  rw [List.flatMap_append, List.flatMap_singleton, hjoin, hlast', List.forall_mem_append,
    List.forall_mem_singleton]
  exact and_congr_left' (forall₂_congr fun part hpart => (hparts' part hpart).2)

/-- Chunks of parts that end at their brackets are closed. -/
theorem isClosed_of_mem {parts : List (BracketPart UInt16)}
    (hends : ∀ part ∈ parts, part.ending = .bracket) {chunk : ExpressionChunk}
    (h : chunk ∈ parts.filterMap chunk?) : chunk.isClosed = true := by
  obtain ⟨part, hpart, hchunk⟩ := List.mem_filterMap.mp h
  exact isClosed_of_chunk? (hends part hpart) hchunk

theorem splitsLosslessly_iff (expression : JsString) :
    SplitsLosslessly expression (splitExpression expression) ↔
      ∀ part ∈ parts expression, isRestored part = true := by
  by_cases hempty : expression = []
  · subst hempty
    exact iff_of_true ⟨rfl, .singleton _, by simp [splitExpression], rfl⟩ (by decide)
  rw [splitExpression_eq hempty, ← joinExpression_eq_iff]
  refine ⟨fun h => h.joined, fun hjoin => ?_⟩
  have halternate : (parts expression).head?.map (·.inside) = some false ∧
      (parts expression).IsChain fun x y => y.inside = !x.inside :=
    bracketPartsFrom_alternate expression.length false [] expression
  obtain ⟨hhead, hchain⟩ := halternate
  obtain ⟨parts', last, hparts, hends, hlast⟩ := parts_ends expression
  have hhead' : (parts' ++ [last]).head?.map (·.inside) = some false := hparts ▸ hhead
  have hchain' : (parts' ++ [last]).IsChain fun x y => y.inside = !x.inside := hparts ▸ hchain
  have hnotCut : ∀ part ∈ parts', part.ending ≠ .cut := fun part hpart => by
    rw [hends part hpart]
    decide
  rw [hparts, List.filterMap_append] at hjoin ⊢
  by_cases hcut : last.ending = .cut
  · -- the last part is empty, so the chunks are those of the others
    rw [List.filterMap_cons_none (chunk?_of_cut hcut), List.filterMap_nil, List.append_nil]
      at hjoin ⊢
    obtain ⟨hhead₁, hchain₁⟩ := chunks_alternate (fun _ _ => isCode_of_chunk?)
      hchain'.left_of_append fun part hpart => exists_chunk? (hnotCut part hpart)
    refine ⟨hhead₁.trans ?_, hchain₁, fun c hc => isClosed_of_mem hends (List.dropLast_subset _ hc),
      hjoin⟩
    cases parts' with
    | nil => exact absurd hjoin.symm hempty
    | cons part parts' => exact hhead'
  · obtain ⟨chunk, hchunk⟩ := exists_chunk? hcut
    obtain ⟨hhead₁, hchain₁⟩ := chunks_alternate (fun _ _ => isCode_of_chunk?) hchain'
      fun part hpart => exists_chunk? <| by
        rcases List.mem_append.mp hpart with hpart | hpart
        · exact hnotCut part hpart
        · exact List.mem_singleton.mp hpart ▸ hcut
    rw [List.filterMap_append] at hhead₁ hchain₁
    refine ⟨hhead₁.trans hhead', hchain₁, fun c hc => ?_, hjoin⟩
    rw [List.filterMap_cons_some hchunk, List.filterMap_nil, List.dropLast_concat] at hc
    exact isClosed_of_mem hends hc

/-- What has been collected is dropped at the end, and a brace before an escaped bracket takes
its place. -/
theorem splitExpression_lossy :
    ¬∀ expression, SplitsLosslessly expression (splitExpression expression) := by
  intro h
  have hhead := (h [backslash, openBrace, openBrace]).head
  have hnil : splitExpression [backslash, openBrace, openBrace] = [] := by decide
  rw [hnil] at hhead
  cases hhead

end ExpressionParser

end N8n
