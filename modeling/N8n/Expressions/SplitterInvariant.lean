import N8n.Expressions.SplitLossless

/-!
# What the expression builder relies on

`getExpressionCode` reads the first chunk of an expression and, if there are two of which the
first is empty, the second. The splitter of the tournament package is to give it text and code
in turn, text first, with no part of the expression dropped (`KeepsInvariant`).

What is collected when the loop ends is dropped, so that is what it does exactly if nothing is
left then (`splitExpression_keepsInvariant_iff`) : the expression ends neither directly after
an opening bracket nor after an escaped bracket of the kind that is looked for there. A dropped
part is not made up for elsewhere because the units other than backslashes are counted by the
chunks (`solid`).
-/

open Lib

namespace N8n

def ExpressionChunk.chunkText : ExpressionChunk → JsString
  | .text s => s
  | .code s _ => s

namespace ExpressionBuilder

/-- What the program of an expression returns : the value of one piece of code, or all chunks
joined. -/
inductive Returned where
  | value (code : JsString)
  | joined (chunks : List ExpressionChunk)

/-- What `getExpressionCode` makes of the chunks, `none` where it reads one that is missing. -/
def getExpressionCode (chunks : List ExpressionChunk) : Option Returned :=
  if 2 < chunks.length then some (.joined chunks)
  else
    match chunks with
    | [] => none
    | first :: rest =>
      if first.chunkText ≠ [] ∨ chunks.length = 1 then some (.joined chunks)
      else
        match rest with
        | .code text _ :: _ => some (.value text)
        | _ => none

/-- Two chunks that take turns are read, and one. -/
theorem getExpressionCode_isSome {chunks : List ExpressionChunk}
    (hhead : chunks.head?.map ExpressionChunk.isCode = some false)
    (halternate : chunks.IsChain fun c d => d.isCode = !c.isCode) :
    (getExpressionCode chunks).isSome = true := by
  unfold getExpressionCode
  split
  · rfl
  cases chunks with
  | nil => cases hhead
  | cons first rest =>
    dsimp only
    split
    · rfl
    rename_i hread
    cases rest with
    | nil => exact absurd (.inr rfl) hread
    | cons second rest =>
      have hfirst : first.isCode = false := Option.some.inj hhead
      have hsecond : second.isCode = true := by
        rw [(List.isChain_cons_cons.mp halternate).1, hfirst]
        rfl
      cases second with
      | text text => cases hsecond
      | code text closed => rfl

end ExpressionBuilder

namespace ExpressionSplitter

/-! ## What is promised -/

/-- What a chunk is made from. -/
def MadeFrom : ExpressionChunk → JsString → Prop
  | .text text, source => text = source ∨ text = normalizeBackslashes source
  | .code text hasClosingBrackets, source => ∃ inner,
      source = [openBrace, openBrace] ++ inner ++
        (if hasClosingBrackets then [closeBrace, closeBrace] else []) ∧ text = escapeCode inner

/-- Before every opening bracket stands an odd number of backslashes. -/
def NoOpening (expression : JsString) : Prop :=
  ∀ before rest, expression = before ++ openBrace :: openBrace :: rest →
    escapeRun backslash before % 2 = 1

structure KeepsInvariant (expression : JsString) (chunks : List ExpressionChunk) : Prop where
  head : chunks.head?.map ExpressionChunk.isCode = some false
  alternate : chunks.IsChain fun c d => d.isCode = !c.isCode
  /-- The chunks are made from the whole expression. -/
  nothingDropped : ∃ sources, List.Forall₂ MadeFrom chunks sources ∧ sources.flatten = expression
  onlyText : NoOpening expression → chunks = [.text expression]
  /-- The builder reads no chunk that is missing. -/
  read : (ExpressionBuilder.getExpressionCode chunks).isSome = true

/-! ## Units that are no backslashes -/

def solid (s : JsString) : ℕ := s.countP (· ≠ backslash)

@[simp] theorem solid_append (s t : JsString) : solid (s ++ t) = solid s + solid t :=
  List.countP_append

theorem solid_normalizeBackslashes (s : JsString) : solid (normalizeBackslashes s) = solid s :=
  Pattern.countP_replaceAll_literal (by decide) (by decide) s

theorem solid_escapeCode (s : JsString) : solid (escapeCode s) = solid s :=
  countP_replaceFirst (by decide) s

/-- How many units that are no backslashes a chunk stands for. -/
def chunkSolid : ExpressionChunk → ℕ
  | .text text => solid text
  | .code text hasClosingBrackets => solid text + 2 + if hasClosingBrackets then 2 else 0

theorem MadeFrom.solid_eq {chunk : ExpressionChunk} {source : JsString} (h : MadeFrom chunk source) :
    chunkSolid chunk = solid source := by
  cases chunk with
  | text text =>
    rcases h with rfl | rfl
    · rfl
    · exact solid_normalizeBackslashes source
  | code text closed =>
    obtain ⟨inner, rfl, rfl⟩ := h
    have hopen : solid [openBrace, openBrace] = 2 := by decide
    have hclose : solid [closeBrace, closeBrace] = 2 := by decide
    have hnil : solid [] = 0 := rfl
    cases closed with
    | true =>
      simp only [chunkSolid, solid_append, solid_escapeCode, if_true, hopen, hclose]
      omega
    | false =>
      simp only [chunkSolid, solid_append, solid_escapeCode, Bool.false_eq_true, if_false, hopen,
        hnil]
      omega

theorem sum_chunkSolid {chunks : List ExpressionChunk} {sources : List JsString}
    (h : List.Forall₂ MadeFrom chunks sources) :
    (chunks.map chunkSolid).sum = solid sources.flatten := by
  induction h with
  | nil => rfl
  | cons hmade _ ih =>
    rw [List.map_cons, List.sum_cons, List.flatten_cons, solid_append, hmade.solid_eq, ih]

/-! ## Chunks and parts -/

theorem isCode_of_chunk? {part : BracketPart UInt16} {chunk : ExpressionChunk}
    (h : chunk? part = some chunk) : chunk.isCode = part.inside := by
  obtain ⟨inside, text, ending⟩ := part
  cases inside <;> cases ending <;> cases h <;> rfl

theorem exists_chunk? {part : BracketPart UInt16} (hending : part.ending ≠ .cut) :
    ∃ chunk, chunk? part = some chunk ∧ MadeFrom chunk (part.source brace) := by
  obtain ⟨inside, text, ending⟩ := part
  cases inside with
  | false =>
    cases ending with
    | bracket => exact ⟨_, rfl, .inr (by simp [BracketPart.source])⟩
    | missing => exact ⟨_, rfl, .inl (by simp [BracketPart.source])⟩
    | cut => exact absurd rfl hending
  | true =>
    cases ending with
    | bracket => exact ⟨_, rfl, text, by simp [BracketPart.source, brace], rfl⟩
    | missing => exact ⟨_, rfl, text, by simp [BracketPart.source, brace], rfl⟩
    | cut => exact absurd rfl hending

/-- Parts that are not cut off are the sources of their chunks. -/
theorem forall₂_madeFrom {parts : List (BracketPart UInt16)}
    (hending : ∀ part ∈ parts, part.ending ≠ .cut) :
    List.Forall₂ MadeFrom (parts.filterMap chunk?) (parts.map (·.source brace)) := by
  induction parts with
  | nil => exact .nil
  | cons part parts ih =>
    obtain ⟨chunk, hchunk, hmade⟩ := exists_chunk? (hending part List.mem_cons_self)
    rw [List.filterMap_cons_some hchunk]
    exact .cons hmade (ih fun p hp => hending p (List.mem_cons_of_mem _ hp))

theorem chunk?_of_cut {part : BracketPart UInt16} (hending : part.ending = .cut) :
    chunk? part = none := by
  obtain ⟨inside, text, ending⟩ := part
  cases hending
  rfl

/-- Nothing is left when the loop ends. -/
def nothingLeft (expression : JsString) : Prop :=
  ∀ part ∈ parts expression, part.ending = .cut → part.source brace = []

instance (expression : JsString) : Decidable (nothingLeft expression) :=
  inferInstanceAs (Decidable (∀ part ∈ parts expression, _))

theorem parts_ends (expression : JsString) :
    ∃ parts' last, parts expression = parts' ++ [last] ∧
      (∀ part ∈ parts', part.ending ≠ .cut) ∧ last.ending ≠ .bracket := by
  have hends : ∃ parts' last, parts expression = parts' ++ [last] ∧
      (∀ part ∈ parts', part.ending = .bracket) ∧ last.ending ≠ .bracket :=
    bracketPartsFrom_ends _ _ _ _
  obtain ⟨parts', last, hparts, hends, hlast⟩ := hends
  exact ⟨parts', last, hparts, fun part hpart => by rw [hends part hpart]; decide, hlast⟩

/-- A part that is cut off and is not empty has a brace. -/
theorem solid_pos_of_cut {expression : JsString} {part : BracketPart UInt16}
    (hpart : part ∈ parts expression) (hcut : part.ending = .cut) (hsource : part.source brace ≠ []) :
    0 < solid (part.source brace) := by
  have hescapes : ∀ k, escapes k = true → 0 < k := by
    intro k hk
    simp only [escapes, decide_eq_true_eq] at hk
    omega
  have hbegun := bracketPartsFrom_cut hescapes expression.length false (Nat.le_refl _) (.inl rfl)
    part hpart hcut
  have hbrace : ∀ inside, solid [brace inside, brace inside] = 2 := by decide
  obtain ⟨inside, text, ending⟩ := part
  obtain rfl : ending = .cut := hcut
  cases inside with
  | true =>
    have hopen := hbrace false
    simp only [BracketPart.source, if_true, solid_append, hopen]
    omega
  | false =>
    rcases hbegun with htext | ⟨before, rest, hfind⟩
    · obtain rfl : text = [] := htext
      exact absurd rfl hsource
    · have htext : text = before ++ [backslash] ++ ([openBrace, openBrace] ++ rest) := by
        simpa [brace] using (append_of_findPair hfind).symm
      have hopen : solid [openBrace, openBrace] = 2 := hbrace false
      have hsource' : BracketPart.source brace ⟨false, text, .cut⟩ = text := by
        simp [BracketPart.source]
      rw [hsource', htext, solid_append, solid_append, solid_append, hopen]
      omega

/-- Nothing is dropped exactly if nothing is left when the loop ends. -/
theorem nothingDropped_iff (expression : JsString) :
    (∃ sources, List.Forall₂ MadeFrom ((parts expression).filterMap chunk?) sources ∧
        sources.flatten = expression) ↔ nothingLeft expression := by
  obtain ⟨parts', last, hparts, hends, -⟩ := parts_ends expression
  have hsource : (parts'.map (·.source brace)).flatten ++ last.source brace = expression := by
    have : (parts expression).flatMap (·.source brace) = expression :=
      flatMap_source_bracketParts expression
    rwa [hparts, List.flatMap_append, List.flatMap_singleton, List.flatMap_def] at this
  have hmade := forall₂_madeFrom hends
  by_cases hcut : last.ending = .cut
  · have hchunks : (parts expression).filterMap chunk? = parts'.filterMap chunk? := by
      rw [hparts, List.filterMap_append, List.filterMap_cons_none (chunk?_of_cut hcut),
        List.filterMap_nil, List.append_nil]
    have hleft : nothingLeft expression ↔ last.source brace = [] := by
      constructor
      · exact fun h => h last (by simp [hparts]) hcut
      · intro h part hpart hpartCut
        rw [hparts] at hpart
        rcases List.mem_append.mp hpart with hpart | hpart
        · exact absurd hpartCut (hends part hpart)
        · rwa [List.mem_singleton.mp hpart]
    rw [hchunks, hleft]
    constructor
    · rintro ⟨sources, hsources, hflatten⟩
      by_contra hne
      have hlast : last ∈ parts expression := by simp [hparts]
      have hpos := solid_pos_of_cut hlast hcut hne
      have hcount := (sum_chunkSolid hmade).symm.trans (sum_chunkSolid hsources)
      rw [hflatten, ← hsource, solid_append] at hcount
      omega
    · intro hnil
      refine ⟨_, hmade, ?_⟩
      rwa [hnil, List.append_nil] at hsource
  · have hall : ∀ part ∈ parts expression, part.ending ≠ .cut := by
      intro part hpart
      rw [hparts] at hpart
      rcases List.mem_append.mp hpart with hpart | hpart
      · exact hends part hpart
      · rwa [List.mem_singleton.mp hpart]
    refine iff_of_true ⟨_, forall₂_madeFrom hall, ?_⟩ fun part hpart hpartCut =>
      absurd hpartCut (hall part hpart)
    rw [hparts, List.map_append, List.flatten_append]
    simpa using hsource

/-! ## The chunks of an expression -/

theorem splitExpression_of_noOpening {expression : JsString} (hleft : nothingLeft expression)
    (h : NoOpening expression) : splitExpression expression = [.text expression] := by
  by_cases hempty : expression = []
  · subst hempty
    rfl
  have hone : ∃ ending, ending ≠ .bracket ∧ parts expression = [⟨false, expression, ending⟩] :=
    bracketPartsFrom_of_escaped (by decide) (Nat.le_refl _) (.inl rfl) fun before rest heq =>
      decide_eq_true (h before rest heq)
  obtain ⟨ending, hending, hparts⟩ := hone
  rw [splitExpression_eq hempty, hparts]
  cases ending with
  | bracket => exact absurd rfl hending
  | missing => rfl
  | cut =>
    have hsource := hleft ⟨false, expression, .cut⟩ (by simp [hparts]) rfl
    exact absurd (by simpa [BracketPart.source] using hsource) hempty

theorem splitExpression_keepsInvariant_iff (expression : JsString) :
    KeepsInvariant expression (splitExpression expression) ↔ nothingLeft expression := by
  by_cases hempty : expression = []
  · subst hempty
    refine iff_of_true ⟨rfl, .singleton _, ⟨[[]], ?_, rfl⟩, fun _ => rfl, rfl⟩ (by decide)
    exact .cons (.inl rfl) .nil
  constructor
  · intro h
    have hdropped := h.nothingDropped
    rwa [splitExpression_eq hempty, nothingDropped_iff] at hdropped
  intro hleft
  have hdropped := (nothingDropped_iff expression).mpr hleft
  rw [← splitExpression_eq hempty] at hdropped
  have halternate : (parts expression).head?.map (·.inside) = some false ∧
      (parts expression).IsChain fun x y => y.inside = !x.inside :=
    bracketPartsFrom_alternate expression.length false [] expression
  obtain ⟨hhead, hchain⟩ := halternate
  obtain ⟨parts', last, hparts, hends, hlast⟩ := parts_ends expression
  have hsome : ∀ part ∈ parts', ∃ chunk, chunk? part = some chunk := fun part hpart =>
    (exists_chunk? (hends part hpart)).imp fun _ h => h.1
  have hturns : (splitExpression expression).head?.map ExpressionChunk.isCode = some false ∧
      (splitExpression expression).IsChain fun c d => d.isCode = !c.isCode := by
    rw [hparts] at hhead hchain
    rw [splitExpression_eq hempty, hparts]
    by_cases hcut : last.ending = .cut
    · -- the last part is empty, so the chunks are those of the others
      obtain ⟨hhead', hchain'⟩ := chunks_alternate (fun _ _ => isCode_of_chunk?)
        hchain.left_of_append hsome
      rw [List.filterMap_append, List.filterMap_cons_none (chunk?_of_cut hcut),
        List.filterMap_nil, List.append_nil]
      refine ⟨hhead'.trans ?_, hchain'⟩
      cases parts' with
      | cons part parts' => exact hhead
      | nil =>
        have hsource : (parts expression).flatMap (·.source brace) = expression :=
          flatMap_source_bracketParts expression
        rw [hparts, List.nil_append, List.flatMap_singleton,
          hleft last (by simp [hparts]) hcut] at hsource
        exact absurd hsource.symm hempty
    · obtain ⟨hhead', hchain'⟩ := chunks_alternate (fun _ _ => isCode_of_chunk?) hchain
        fun part hpart => by
          rcases List.mem_append.mp hpart with hpart | hpart
          · exact hsome part hpart
          · obtain rfl := List.mem_singleton.mp hpart
            exact (exists_chunk? hcut).imp fun _ h => h.1
      exact ⟨hhead'.trans hhead, hchain'⟩
  exact ⟨hturns.1, hturns.2, hdropped, splitExpression_of_noOpening hleft,
    ExpressionBuilder.getExpressionCode_isSome hturns.1 hturns.2⟩

/-- Of an escaped bracket alone no chunk is made. -/
theorem splitExpression_breaksInvariant :
    ¬∀ expression, KeepsInvariant expression (splitExpression expression) := by
  intro h
  have hhead := (h [backslash, openBrace, openBrace]).head
  have hnil : splitExpression [backslash, openBrace, openBrace] = [] := by decide
  rw [hnil] at hhead
  cases hhead

end ExpressionSplitter

end N8n
