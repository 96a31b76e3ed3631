import N8n.Expressions.SplitParts
import N8n.Lib.BracketScan

/-!
# Whether the two splitters see the same code

A bracket after a positive even number of backslashes counts for the tournament package and not
for the workflow package. The first such bracket makes a difference, unless it is an opening one
behind which nothing comes, or only escaped closing brackets up to the end (`bracketsAgree`,
`codeChunks_eq_iff`).
-/

open Lib

namespace N8n

/-- The code chunks, in order. -/
def codeChunks (chunks : List ExpressionChunk) : List ExpressionChunk :=
  chunks.filter fun
    | .text _ => false
    | .code _ _ => true

/-- Only closing brackets after an odd number of backslashes, up to the end. -/
def closedOff : ℕ → JsString → Bool
  | 0, _ => true
  | n + 1, expr =>
    if expr = [] then true
    else
      match findPair closeBrace expr with
      | none => false
      | some (before, rest) => escapeRun backslash before % 2 = 1 && closedOff n rest

/-- The brackets that are looked for stand after no backslash or an odd number of them, up to an
opening one behind which all is closed off. -/
def bracketsAgreeFrom : ℕ → Bool → JsString → Bool
  | 0, _, _ => true
  | n + 1, inside, expr =>
    match findPair (brace inside) expr with
    | none => true
    | some (before, rest) =>
      if escapeRun backslash before = 0 then bracketsAgreeFrom n (!inside) rest
      else if escapeRun backslash before % 2 = 1 then bracketsAgreeFrom n inside rest
      else !inside && closedOff n rest

def bracketsAgree (expression : JsString) : Bool :=
  bracketsAgreeFrom expression.length false expression

/-! ## The code that is read -/

def codeOf (part : JsString × Bool) : ExpressionChunk :=
  .code (ExpressionParser.escapeCode part.1) part.2

/-- `escapeCode` takes away at most the backslash before a pair. -/
theorem escapeCode_cases (text : JsString) :
    ExpressionParser.escapeCode text = text ∨ ∃ before rest,
      text = before ++ [backslash, closeBrace, closeBrace] ++ rest ∧
        ExpressionParser.escapeCode text = before ++ [closeBrace, closeBrace] ++ rest := by
  rw [ExpressionParser.escapeCode, replaceFirst]
  split
  · exact .inl rfl
  · rename_i before m hsearch
    exact .inr ⟨before, m.rest, (Pattern.append_of_search_literal hsearch).symm, rfl⟩

theorem trims_escapeCode : BracketScan.Trims ExpressionParser.escapeCode where
  length_le text := by
    rcases escapeCode_cases text with h | ⟨before, rest, htext, h⟩
    · exact Nat.le_of_eq (congrArg List.length h)
    · rw [h, htext]
      simp
  le_length text := by
    rcases escapeCode_cases text with h | ⟨before, rest, htext, h⟩
    · rw [h]
      exact Nat.le_succ _
    · rw [h, htext]
      simp only [List.length_append, List.length_cons, List.length_nil]
      omega
  getLast?_eq text := by
    rcases escapeCode_cases text with h | ⟨before, rest, htext, h⟩
    · rw [h]
    · rw [h, htext, List.getLast?_append, List.getLast?_append, List.getLast?_append,
        List.getLast?_append]
      rfl

theorem brace_ne_backslash (inside : Bool) : brace inside ≠ backslash :=
  (backslash_ne_brace inside).symm

/-- What a splitter makes of the parts, as far as it is code. -/
theorem codeChunks_filterMap {chunk? : BracketPart UInt16 → Option ExpressionChunk}
    (h : ∀ part, codeChunks (chunk? part).toList = (part.inside?.map codeOf).toList)
    (parts : List (BracketPart UInt16)) :
    codeChunks (parts.filterMap chunk?) = (parts.filterMap BracketPart.inside?).map codeOf := by
  induction parts with
  | nil => rfl
  | cons part parts ih =>
    have hleft : (part :: parts).filterMap chunk? =
        (chunk? part).toList ++ parts.filterMap chunk? := by
      rw [List.filterMap_cons]
      cases chunk? part <;> rfl
    have hright : (part :: parts).filterMap BracketPart.inside? =
        part.inside?.toList ++ parts.filterMap BracketPart.inside? := by
      rw [List.filterMap_cons]
      cases part.inside? <;> rfl
    have hmap : part.inside?.toList.map codeOf = (part.inside?.map codeOf).toList := by
      cases part.inside? <;> rfl
    rw [hleft, hright, codeChunks, List.filter_append, List.map_append, hmap, ← h part, ← ih]
    rfl

/-- The code of the workflow package. -/
theorem codeChunks_parsed (expression : JsString) :
    codeChunks (ExpressionParser.splitExpression expression) =
      (BracketScan.read ExpressionParser.escapes backslash brace (.start false []) expression).map
        codeOf := by
  by_cases hempty : expression = []
  · subst hempty
    rfl
  have hchunk : ∀ part : BracketPart UInt16, codeChunks (ExpressionParser.chunk? part).toList =
      (part.inside?.map codeOf).toList := by
    rintro ⟨inside, text, ending⟩
    cases inside <;> cases ending <;> rfl
  rw [ExpressionParser.splitExpression_eq hempty, codeChunks_filterMap hchunk,
    BracketScan.read_start brace_ne_backslash (Nat.le_refl _)]
  rfl

/-- The code of the tournament package. -/
theorem codeChunks_splitter (expression : JsString) :
    codeChunks (ExpressionSplitter.splitExpression expression) =
      (BracketScan.read ExpressionSplitter.escapes backslash brace (.start false [])
        expression).map codeOf := by
  by_cases hempty : expression = []
  · subst hempty
    rfl
  have hchunk : ∀ part : BracketPart UInt16, codeChunks (ExpressionSplitter.chunk? part).toList =
      (part.inside?.map codeOf).toList := by
    rintro ⟨inside, text, ending⟩
    cases inside <;> cases ending <;> rfl
  rw [ExpressionSplitter.splitExpression_eq hempty, codeChunks_filterMap hchunk,
    BracketScan.read_start brace_ne_backslash (Nat.le_refl _)]
  rfl

/-! ## Where they agree -/

theorem map_codeOf_eq_iff {parts parts' : List (JsString × Bool)} :
    parts.map codeOf = parts'.map codeOf ↔
      BracketScan.trimmed ExpressionParser.escapeCode parts =
        BracketScan.trimmed ExpressionParser.escapeCode parts' := by
  have hinj : Function.Injective fun x : JsString × Bool => ExpressionChunk.code x.1 x.2 := by
    rintro ⟨text, closed⟩ ⟨text', closed'⟩ h
    cases h
    rfl
  have hmap : ∀ parts : List (JsString × Bool), parts.map codeOf =
      (BracketScan.trimmed ExpressionParser.escapeCode parts).map fun x =>
        ExpressionChunk.code x.1 x.2 := by
    intro parts
    rw [BracketScan.trimmed, List.map_map]
    rfl
  rw [hmap, hmap, (List.map_injective_iff.mpr hinj).eq_iff]

/-- An odd number of backslashes is a positive one. -/
theorem escapes_of_odd (k : ℕ) (h : ExpressionSplitter.escapes k = true) :
    ExpressionParser.escapes k = true := by
  have := of_decide_eq_true h
  exact decide_eq_true (by omega)

theorem closedOff_iff {n : ℕ} {text expr : JsString} (hn : expr.length ≤ n) :
    closedOff n expr = true ↔
      BracketScan.read ExpressionSplitter.escapes backslash brace (.start true text) expr = [] := by
  induction n generalizing text expr with
  | zero =>
    obtain rfl := List.length_eq_zero_iff.mp (Nat.le_zero.mp hn)
    exact iff_of_true rfl rfl
  | succ n ih =>
    rw [closedOff]
    split
    · rename_i hexpr
      subst hexpr
      exact iff_of_true rfl rfl
    rename_i hexpr
    split
    · rename_i hnone
      rw [BracketScan.read_of_findPair_none (s := .start true text) hnone (.inl rfl) hexpr]
      exact iff_of_false Bool.false_ne_true (by simp [BracketScan.start])
    · rename_i before rest hfind
      have hrest : rest.length ≤ n := by
        have := length_lt_of_append (append_of_findPair hfind)
        omega
      have hfind' : findPair (brace true) expr = some (before, rest) := hfind
      rw [BracketScan.read_start_of_findPair brace_ne_backslash text hfind', Bool.and_eq_true,
        ExpressionSplitter.escapes]
      split
      · rename_i hodd
        exact (and_iff_right hodd).trans (ih hrest)
      · rename_i hodd
        exact iff_of_false (fun h => hodd h.1) (by simp)

theorem escapes_iff (k : ℕ) : ExpressionParser.escapes k = true ↔ 0 < k := decide_eq_true_iff

/-- The tournament package takes an opening bracket to count, the workflow package does not. -/
theorem doubtfulOpening_iff {n : ℕ} {expr : JsString} (hn : expr.length ≤ n) (text : JsString) :
    closedOff n expr = true ↔
      BracketScan.trimmed ExpressionParser.escapeCode
          (BracketScan.read ExpressionSplitter.escapes backslash brace (.start true []) expr) =
        BracketScan.trimmed ExpressionParser.escapeCode
          (BracketScan.read ExpressionParser.escapes backslash brace (.start false text) expr) := by
  have hinStep : BracketScan.InStep (.start true []) (.start false text) :=
    .start_start true false [] text
  have hne : brace false ≠ brace true := by decide
  have hclosed : closedOff n expr = true ↔ BracketScan.read ExpressionSplitter.escapes backslash
      brace (.start true []) expr = [] :=
    closedOff_iff hn
  rw [hclosed]
  constructor
  · intro hread
    have hlength := hinStep.length_read_le (l := expr) brace_ne_backslash hne
      escapes_of_odd
    rw [BracketScan.lead_of_outside rfl, hread] at hlength
    rw [hread, List.length_eq_zero_iff.mp (Nat.le_zero.mp hlength)]
  · intro heq
    by_contra hread
    exact BracketScan.read_ne_of_inside trims_escapeCode brace_ne_backslash hne
      escapes_of_odd escapes_iff hinStep (.start_nil true) rfl rfl
      (fun h => absurd rfl h) hread heq

theorem bracketsAgreeFrom_iff {n : ℕ} {inside : Bool} {text expr : JsString}
    (hn : expr.length ≤ n) :
    bracketsAgreeFrom n inside expr = true ↔
      BracketScan.trimmed ExpressionParser.escapeCode
          (BracketScan.read ExpressionSplitter.escapes backslash brace (.start inside text) expr) =
        BracketScan.trimmed ExpressionParser.escapeCode
          (BracketScan.read ExpressionParser.escapes backslash brace (.start inside text)
            expr) := by
  induction n generalizing inside text expr with
  | zero =>
    obtain rfl := List.length_eq_zero_iff.mp (Nat.le_zero.mp hn)
    exact iff_of_true rfl rfl
  | succ n ih =>
    rw [bracketsAgreeFrom]
    split
    · rename_i hnone
      refine iff_of_true rfl ?_
      by_cases hexpr : expr = []
      · subst hexpr
        rfl
      · rw [BracketScan.read_of_findPair_none (s := .start inside text) hnone (.inl rfl) hexpr,
          BracketScan.read_of_findPair_none (s := .start inside text) hnone (.inl rfl) hexpr]
    · rename_i before rest hfind
      have hrest : rest.length ≤ n := by
        have := length_lt_of_append (append_of_findPair hfind)
        omega
      rw [BracketScan.read_start_of_findPair brace_ne_backslash text hfind,
        BracketScan.read_start_of_findPair brace_ne_backslash text hfind]
      generalize hk : escapeRun backslash before = k
      by_cases hzero : k = 0
      · subst hzero
        rw [if_pos rfl, if_neg (by decide : ¬ExpressionSplitter.escapes 0 = true),
          if_neg (by decide : ¬ExpressionParser.escapes 0 = true), BracketScan.trimmed,
          BracketScan.trimmed, List.map_append, List.map_append, List.append_right_inj]
        exact ih hrest
      · have hpos : ExpressionParser.escapes k = true :=
          decide_eq_true (Nat.pos_of_ne_zero hzero)
        rw [if_neg hzero, if_pos hpos]
        by_cases hodd : k % 2 = 1
        · have hescapes : ExpressionSplitter.escapes k = true := decide_eq_true hodd
          rw [if_pos hodd, if_pos hescapes]
          exact ih hrest
        · have heven : ¬ExpressionSplitter.escapes k = true := fun h => hodd (of_decide_eq_true h)
          rw [if_neg hodd, if_neg heven, ← List.append_assoc]
          cases inside with
          | false => exact doubtfulOpening_iff hrest _
          | true =>
            obtain ⟨before', hbefore⟩ := escapeRun_pos_iff.mp (hk ▸ Nat.pos_of_ne_zero hzero)
            have hlast : (text ++ before).getLast? = some backslash := by
              rw [hbefore, ← List.append_assoc, List.getLast?_concat]
            have htidy : BracketScan.Tidy backslash
                (.start true (text ++ before ++ [brace true, brace true])) :=
              .start_pair (brace_ne_backslash true) true _
            exact iff_of_false Bool.false_ne_true
              (BracketScan.trimmed_ne_of_bracket trims_escapeCode brace_ne_backslash escapes_iff
                htidy rfl hlast _)

/-- The two packages see the same code exactly if the brackets agree. -/
theorem codeChunks_eq_iff (expression : JsString) :
    codeChunks (ExpressionParser.splitExpression expression) =
        codeChunks (ExpressionSplitter.splitExpression expression) ↔
      bracketsAgree expression = true := by
  rw [codeChunks_parsed, codeChunks_splitter, eq_comm, map_codeOf_eq_iff, bracketsAgree,
    bracketsAgreeFrom_iff (Nat.le_refl _)]

/-- Two backslashes before a bracket : `\\{{1}}` is text for one and has code for the other. -/
theorem codeChunks_ne :
    ¬∀ expression, codeChunks (ExpressionParser.splitExpression expression) =
      codeChunks (ExpressionSplitter.splitExpression expression) := by
  intro h
  have hne : codeChunks (ExpressionParser.splitExpression [backslash, backslash, openBrace,
      openBrace, codeUnit '1', closeBrace, closeBrace]) ≠
    codeChunks (ExpressionSplitter.splitExpression [backslash, backslash, openBrace, openBrace,
      codeUnit '1', closeBrace, closeBrace]) := by decide
  exact hne (h _)

end N8n
