import N8n.Expressions.SplitLossless
import N8n.Expressions.SplittersAgree
import N8n.Lib.PairEnd

/-!
# Whether rewritten code survives

`extendSyntax` rewrites the code of an expression and joins the chunks again. The code that is
evaluated is what a splitter then reads. `joinExpression` escapes the first `}}` of a piece of
code, and `splitExpression` takes one escape away, so code with one `}}` comes back. The same code
is read exactly if the chunks survive (`codeChunks_join_iff`) :

* no text before code ends with `{`;
* code without a `}}` ends neither with `}` nor with a backslash, or is not empty where its
  closing bracket is missing;
* in code with a `}}` this holds of what stands behind its last `}}`, and every `}}` but the first
  has a backslash directly before it.

Where a text ends with `\{` the opening bracket is not seen. Then no code that is read further
on can take the place of the code behind it, as the end of a piece of code cannot stand inside
of the same code (`codes_ne_of_suffix`).
-/

open Lib

namespace N8n.ExpressionParser

open BracketScan

/-! ## What is promised -/

/-- Text and code in turn, the text without an opening bracket and without a backslash at its
end, and only the last chunk without closing brackets. -/
structure Joinable (chunks : List ExpressionChunk) : Prop where
  alternate : chunks.IsChain fun c d => d.isCode = !c.isCode
  text : ∀ text, .text text ∈ chunks →
    findPair openBrace text = none ∧ text.getLast? ≠ some backslash
  closed : ∀ c ∈ chunks.dropLast, c.isClosed = true

/-- Behind the first `}}`, if there is one, all is read as it is. -/
def codeSurvives (code : JsString) (closed : Bool) : Bool :=
  match findPair closeBrace code with
  | none => endsWell backslash closeBrace closed code
  | some (_, rest) => readsWhole backslash closeBrace closed rest.length rest

def chunksSurvive : List ExpressionChunk → Bool
  | [] => true
  | .text text :: rest => (rest.isEmpty || text.getLast? ≠ some openBrace) && chunksSurvive rest
  | .code code closed :: rest => codeSurvives code closed && chunksSurvive rest

/-! ## Escaping the first pair -/

/-- `t` is `code` with its first pair escaped, if it has one. -/
def Escaping (t code : JsString) : Prop :=
  t = code ∧ findPair closeBrace code = none ∨ ∃ before rest,
    t = before ++ backslash :: closeBrace :: closeBrace :: rest ∧
      code = before ++ closeBrace :: closeBrace :: rest

theorem escaping_escapeTmplExpression (code : JsString) :
    Escaping (escapeTmplExpression code) code := by
  rw [escapeTmplExpression, replaceFirst, search_pair]
  cases hfind : findPair closeBrace code with
  | none => exact .inl ⟨rfl, hfind⟩
  | some x => exact .inr ⟨x.1, x.2, by simp, (append_of_findPair hfind).symm⟩

theorem escapeCode_of_findPair {before rest t : JsString}
    (h : findPair closeBrace t = some (before ++ [backslash], rest)) :
    escapeCode t = before ++ closeBrace :: closeBrace :: rest := by
  rw [escapeCode, replaceFirst, search_escape_pair h]
  simp

theorem escapeCode_of_none {t : JsString} (h : findPair closeBrace t = none) : escapeCode t = t := by
  rw [escapeCode, replaceFirst, search_escape_pair_of_none h]

theorem escaping_escapeCode {t : JsString} (h : FirstPairEscaped backslash closeBrace t) :
    Escaping t (escapeCode t) := by
  cases hfind : findPair closeBrace t with
  | none =>
    rw [escapeCode_of_none hfind]
    exact .inl ⟨rfl, hfind⟩
  | some x =>
    obtain ⟨before, rest⟩ := x
    obtain ⟨before', hbefore⟩ := h _ hfind
    obtain rfl : before = before' ++ [backslash] := hbefore
    refine .inr ⟨before', rest, ?_, escapeCode_of_findPair hfind⟩
    rw [← append_of_findPair hfind]
    simp

namespace Escaping

variable {s t code : JsString}

theorem length_eq (hs : Escaping s code) (ht : Escaping t code) : s.length = t.length := by
  have hpair : ∀ {before rest : JsString}, code = before ++ closeBrace :: closeBrace :: rest →
      findPair closeBrace code ≠ none := by
    rintro before rest rfl hnone
    obtain ⟨x, hx⟩ := exists_findPair closeBrace before rest
    rw [hnone] at hx
    cases hx
  rcases hs with ⟨rfl, hnone⟩ | ⟨before, rest, rfl, hcode⟩ <;>
    rcases ht with ⟨rfl, hnone'⟩ | ⟨before', rest', rfl, hcode'⟩
  · rfl
  · exact absurd hnone (hpair hcode')
  · exact absurd hnone' (hpair hcode)
  · have hlength := congrArg List.length (hcode.symm.trans hcode')
    simp only [List.length_append, List.length_cons] at hlength ⊢
    omega

theorem count_eq (h : Escaping t code) : t.count openBrace = code.count openBrace := by
  rcases h with ⟨rfl, -⟩ | ⟨before, rest, rfl, rfl⟩
  · rfl
  · have hbackslash : (backslash == openBrace) = false := by decide
    simp [List.count_cons, hbackslash]

theorem endsEscaped_iff (h : Escaping t code) :
    EndsEscaped backslash closeBrace t ↔ EndsEscaped backslash closeBrace code := by
  rcases h with ⟨rfl, -⟩ | ⟨before, rest, rfl, rfl⟩
  · rfl
  · have htext : before ++ backslash :: closeBrace :: closeBrace :: rest =
        before ++ [backslash] ++ closeBrace :: closeBrace :: rest := by simp
    rw [htext, endsEscaped_append_pair (by decide), endsEscaped_append_pair (by decide)]

end Escaping

/-! ## One piece of code -/

theorem escapes_iff (k : ℕ) : escapes k = true ↔ 0 < k := decide_eq_true_iff

/-- The code that is read from here on. -/
def codesFrom (inside : Bool) (text expr : JsString) : List ExpressionChunk :=
  (read escapes backslash brace (start inside text) expr).map codeOf

theorem codeChunks_splitExpression (expression : JsString) :
    codeChunks (splitExpression expression) = codesFrom false [] expression :=
  codeChunks_parsed expression

theorem findPair_append_ne {a b : UInt16} {l : JsString} (h : findPair b l = none) (ha : a ≠ b) :
    findPair b (l ++ [a]) = none := by
  fun_induction findPair b l with
  | case1 => rfl
  | case2 c => simp [findPair, ha]
  | case3 c c' l hpair => cases h
  | case4 c c' l hpair ih =>
    rw [List.cons_append, List.cons_append, findPair, if_neg hpair, ← List.cons_append,
      ih (Option.map_eq_none_iff.mp h)]
    rfl

/-- The first pair of the code is read as an escaped one. -/
theorem read_escapeTmplExpression {code before rest : JsString}
    (h : findPair closeBrace code = some (before, rest)) (more : JsString) :
    read escapes backslash brace (start true []) (escapeTmplExpression code ++ more) =
      read escapes backslash brace
        (start true (before ++ [backslash, closeBrace, closeBrace])) (rest ++ more) := by
  have hnone : findPair closeBrace (before ++ [backslash]) = none :=
    findPair_append_ne (findPair_before h) (by decide)
  have hsuffix : ∀ x, before ++ [backslash] ≠ x ++ [closeBrace] := by
    intro x hx
    have hlast := congrArg List.getLast? hx
    rw [List.getLast?_concat, List.getLast?_concat] at hlast
    exact absurd (Option.some.inj hlast) (by decide)
  have hfind : findPair (brace true)
      (before ++ [backslash] ++ closeBrace :: closeBrace :: (rest ++ more)) =
        some (before ++ [backslash], rest ++ more) := by
    rcases findPair_after hnone (rest ++ more) with ⟨x, hx, -⟩ | ⟨-, hfind⟩
    · exact absurd hx (hsuffix x)
    · exact hfind
  have htext : escapeTmplExpression code ++ more =
      before ++ [backslash] ++ closeBrace :: closeBrace :: (rest ++ more) := by
    rw [escapeTmplExpression, replaceFirst, search_pair, h]
    simp
  have hescapes : escapes (escapeRun backslash (before ++ [backslash])) = true :=
    (escapes_escapeRun_iff escapes_iff _).mpr List.getLast?_concat
  rw [htext, read_start_of_findPair brace_ne_backslash [] hfind, if_pos hescapes]
  simp [brace]

theorem escapeTmplExpression_of_none {code : JsString} (h : findPair closeBrace code = none) :
    escapeTmplExpression code = code := by
  rw [escapeTmplExpression, replaceFirst, search_pair, h]
  rfl

/-- The text that is read behind an escaped pair is kept as it is. -/
theorem escapeCode_behind {code before rest : JsString}
    (h : findPair closeBrace code = some (before, rest)) (more : JsString) :
    escapeCode (before ++ [backslash, closeBrace, closeBrace] ++ more) =
      before ++ closeBrace :: closeBrace :: more := by
  have hnone : findPair closeBrace (before ++ [backslash]) = none :=
    findPair_append_ne (findPair_before h) (by decide)
  rcases findPair_after hnone more with ⟨x, hx, -⟩ | ⟨-, hfind⟩
  · have hlast := congrArg List.getLast? hx
    rw [List.getLast?_concat, List.getLast?_concat] at hlast
    exact absurd (Option.some.inj hlast) (by decide)
  · refine escapeCode_of_findPair (hfind ▸ congrArg _ ?_)
    simp

variable {closed : Bool}

theorem codesFrom_of_survives {code more : JsString} (h : codeSurvives code closed = true) :
    codesFrom true [] (escapeTmplExpression code ++ behind closeBrace closed more) =
      .code code closed :: if closed then codesFrom false [] more else [] := by
  have hmap : ∀ (t : JsString) (parts : List (JsString × Bool)), escapeCode t = code →
      ((t, closed) :: if closed then parts else []).map codeOf =
        .code code closed :: if closed then parts.map codeOf else [] := by
    rintro t parts rfl
    cases closed <;> rfl
  unfold codeSurvives at h
  cases hfind : findPair closeBrace code with
  | none =>
    rw [hfind] at h
    have hread := read_of_endsWell brace_ne_backslash escapes_iff [] more hfind h
    rw [codesFrom, escapeTmplExpression_of_none hfind]
    exact (congrArg _ hread).trans (hmap code _ (escapeCode_of_none hfind))
  | some x =>
    obtain ⟨before, rest⟩ := x
    rw [hfind] at h
    have hread := read_of_readsWhole brace_ne_backslash escapes_iff
      (before ++ [backslash, closeBrace, closeBrace]) more (Nat.le_refl _) h
    rw [codesFrom, read_escapeTmplExpression hfind]
    refine (congrArg _ hread).trans (hmap _ _ ?_)
    rw [escapeCode_behind hfind, append_of_findPair hfind]

/-- The code that is read first, as it stands before `escapeCode`. -/
theorem exists_of_codesFrom {text expr code : JsString} {codes : List ExpressionChunk}
    (h : codesFrom true text expr = .code code closed :: codes) :
    ∃ t parts, read escapes backslash brace (start true text) expr = (text ++ t, closed) :: parts ∧
      escapeCode (text ++ t) = code ∧ codes = parts.map codeOf ∧
      FirstPairEscaped backslash closeBrace t ∧
      (closed = true → ∃ rest, PairEnd backslash closeBrace expr t rest ∧
        parts = read escapes backslash brace (start false []) rest) ∧
      (closed = false → t = expr) := by
  rw [codesFrom] at h
  rcases read_inside_cases brace_ne_backslash escapes_iff text expr with
    ⟨t, rest, hend, hread⟩ | hnil | ⟨hescaped, hread⟩
  · rw [hread, List.map_cons] at h
    obtain ⟨hcode, rfl⟩ := List.cons.inj h
    cases hcode
    exact ⟨t, _, hread, rfl, rfl, hend.firstPairEscaped, fun _ => ⟨rest, hend, rfl⟩, by simp⟩
  · rw [hnil] at h
    cases h
  · rw [hread, List.map_cons] at h
    obtain ⟨hcode, rfl⟩ := List.cons.inj h
    cases hcode
    exact ⟨expr, _, hread, rfl, rfl, hescaped, by simp, fun _ => rfl⟩

theorem survives_of_codesFrom {code more : JsString}
    {codes : List ExpressionChunk}
    (h : codesFrom true [] (escapeTmplExpression code ++ behind closeBrace closed more) =
      .code code closed :: codes) : codeSurvives code closed = true := by
  unfold codeSurvives
  cases hfind : findPair closeBrace code with
  | none =>
    rw [escapeTmplExpression_of_none hfind] at h
    obtain ⟨t, parts, hread, hcode, -, hescaped, -, -⟩ := exists_of_codesFrom h
    have ht : t = code := by
      have hescaping := escaping_escapeCode hescaped
      rw [← List.nil_append t, hcode] at hescaping
      rcases hescaping with ⟨ht, -⟩ | ⟨before, rest, -, rfl⟩
      · exact ht
      · obtain ⟨x, hx⟩ := exists_findPair closeBrace before rest
        rw [hfind] at hx
        cases hx
    subst ht
    exact endsWell_of_read brace_ne_backslash escapes_iff hfind hread
  | some x =>
    obtain ⟨before, rest⟩ := x
    have hsame : codesFrom true [] (escapeTmplExpression code ++ behind closeBrace closed more) =
        codesFrom true (before ++ [backslash, closeBrace, closeBrace])
          (rest ++ behind closeBrace closed more) := by
      rw [codesFrom, read_escapeTmplExpression hfind]
      rfl
    rw [hsame] at h
    obtain ⟨t, parts, hread, hcode, -⟩ := exists_of_codesFrom h
    rw [escapeCode_behind hfind, ← append_of_findPair hfind] at hcode
    have ht : t = rest := by simpa using hcode
    subst ht
    exact readsWhole_of_read brace_ne_backslash escapes_iff (Nat.le_refl _) hread

/-- Code that is read one brace too early is other code. -/
theorem codesFrom_openBrace_ne {code more : JsString} {codes : List ExpressionChunk} :
    codesFrom true []
        (openBrace :: (escapeTmplExpression code ++ behind closeBrace closed more)) ≠
      .code code closed :: codes := by
  intro h
  obtain ⟨t, parts, -, hcode, -, hescaped, hclosed, hopen⟩ := exists_of_codesFrom h
  have ht : Escaping t code := hcode ▸ escaping_escapeCode hescaped
  have hw := escaping_escapeTmplExpression code
  have hlength := ht.length_eq hw
  cases closed with
  | false =>
    rw [hopen rfl] at hlength
    simp [behind] at hlength
  | true =>
    obtain ⟨rest, hend, -⟩ := hclosed rfl
    have happend : t ++ closeBrace :: closeBrace :: rest =
        openBrace :: (escapeTmplExpression code ++ closeBrace :: closeBrace :: more) := hend.append
    cases t with
    | nil => exact absurd (List.cons.inj happend).1 (by decide)
    | cons u t =>
      obtain ⟨rfl, htail⟩ := List.cons.inj happend
      have htail' : t ++ [closeBrace] ++ closeBrace :: rest =
          escapeTmplExpression code ++ closeBrace :: closeBrace :: more := by
        rw [← htail]
        simp
      have hsame := (List.append_inj htail' (by simpa using hlength)).1
      -- the text has a brace that opens more than the code
      have hcount := ht.count_eq.trans hw.count_eq.symm
      have hbrace : (closeBrace == openBrace) = false := by decide
      rw [← hsame] at hcount
      simp [List.count_cons, hbrace] at hcount

/-! ## All chunks -/

variable {rest : List ExpressionChunk}

theorem Joinable.tail {c : ExpressionChunk} (h : Joinable (c :: rest)) : Joinable rest where
  alternate := h.alternate.of_cons
  text text hmem := h.text text (List.mem_cons_of_mem c hmem)
  closed d hd := by
    refine h.closed d ?_
    cases rest with
    | nil => cases hd
    | cons e rest => exact List.mem_cons_of_mem c hd

/-- Behind code without closing brackets there is nothing. -/
theorem Joinable.eq_nil {code : JsString} (h : Joinable (.code code false :: rest)) :
    rest = [] := by
  cases rest with
  | nil => rfl
  | cons d rest =>
    have hclosed := h.closed (.code code false) List.mem_cons_self
    cases hclosed

theorem joinExpression_code {code : JsString} (h : Joinable (.code code closed :: rest)) :
    joinExpression (.code code closed :: rest) = openBrace :: openBrace ::
      (escapeTmplExpression code ++ behind closeBrace closed (joinExpression rest)) := by
  cases closed with
  | true => simp [joinExpression, joinChunk, behind]
  | false =>
    obtain rfl := h.eq_nil
    simp [joinExpression, joinChunk, behind]

/-- An opening pair is found behind text only where one stands, or a brace before it. -/
theorem suffix_of_text {text expr a z : JsString} (htext : findPair openBrace text = none)
    (h : text ++ openBrace :: openBrace :: expr = a ++ openBrace :: openBrace :: z) :
    z <:+ openBrace :: expr := by
  have hz : z <:+ text ++ openBrace :: openBrace :: expr :=
    h ▸ ⟨a ++ [openBrace, openBrace], by simp⟩
  have hexpr : openBrace :: expr <:+ text ++ openBrace :: openBrace :: expr :=
    ⟨text ++ [openBrace], by simp⟩
  refine List.suffix_of_suffix_length_le hz hexpr ?_
  by_contra hlt
  have hpre : a ++ [openBrace, openBrace] <+: text := by
    have hpre : a ++ [openBrace, openBrace] <+: text ++ openBrace :: openBrace :: expr :=
      h ▸ ⟨z, by simp⟩
    refine List.prefix_of_prefix_length_le hpre (List.prefix_append text _) ?_
    have hlength := congrArg List.length h
    simp only [List.length_append, List.length_cons, List.length_nil] at hlength hlt ⊢
    omega
  obtain ⟨more, rfl⟩ := hpre
  obtain ⟨x, hx⟩ := exists_findPair openBrace a more
  have hsame : a ++ [openBrace, openBrace] ++ more = a ++ openBrace :: openBrace :: more := by simp
  rw [hsame, hx] at htext
  cases htext

/-- An opening pair behind code is read at the next code, or a brace before it. -/
theorem next_of_joinExpression {code a z : JsString} (h : Joinable (.code code true :: rest))
    (hjoin : joinExpression rest = a ++ openBrace :: openBrace :: z) :
    ∃ text' code' closed' rest', rest = .text text' :: .code code' closed' :: rest' ∧
      z <:+ openBrace ::
        (escapeTmplExpression code' ++ behind closeBrace closed' (joinExpression rest')) := by
  match rest with
  | [] => simp [joinExpression] at hjoin
  | .code _ _ :: _ => cases (List.isChain_cons_cons.mp h.alternate).1
  | [.text text] =>
    obtain ⟨x, hx⟩ := exists_findPair openBrace a z
    rw [← hjoin] at hx
    simp [joinExpression, joinChunk, (h.text text (by simp)).1] at hx
  | .text _ :: .text _ :: _ => cases (List.isChain_cons_cons.mp h.alternate.of_cons).1
  | .text text :: .code code' closed' :: rest =>
    refine ⟨text, code', closed', rest, rfl, suffix_of_text (a := a) (h.text text (by simp)).1 ?_⟩
    rw [← hjoin, ← joinExpression_code h.tail.tail]
    rfl

/-- What stands before a pair ends with a brace, up to the element before the pair. -/
theorem exists_of_openBrace {s a z : JsString}
    (h : a ++ openBrace :: openBrace :: z = openBrace :: s) :
    ∃ u, s = u ++ openBrace :: z ∧ (u = [] ∨ ∃ u', u = u' ++ [openBrace]) := by
  cases a with
  | nil => exact ⟨[], (List.cons.inj h).2.symm, .inl rfl⟩
  | cons x a =>
    refine ⟨a ++ [openBrace], ?_, .inr ⟨a, rfl⟩⟩
    rw [← (List.cons.inj h).2]
    simp

/-- Behind an opening bracket that is not seen other code is read. -/
theorem codes_ne_of_suffix {code : JsString}
    (h : Joinable (.code code closed :: rest)) {expr : JsString}
    (hexpr : expr <:+ openBrace ::
      (escapeTmplExpression code ++ behind closeBrace closed (joinExpression rest)))
    (text : JsString) :
    codesFrom false text expr ≠ .code code closed :: codeChunks rest := by
  induction hn : rest.length using Nat.strongRecOn generalizing code closed rest expr text with
  | _ n ih =>
  intro hcodes
  rcases read_outside_cases brace_ne_backslash text expr with hnil | ⟨y, z, rfl, hread⟩
  · rw [codesFrom, hnil] at hcodes
    cases hcodes
  rw [codesFrom, hread] at hcodes
  obtain ⟨t, parts, -, hcode, hparts, hescaped, hclosed, hopen⟩ := exists_of_codesFrom hcodes
  have ht : Escaping t code := hcode ▸ escaping_escapeCode hescaped
  have hw := escaping_escapeTmplExpression code
  have hlength := ht.length_eq hw
  obtain ⟨v, hv⟩ := hexpr
  obtain ⟨u, hu, hlast⟩ := exists_of_openBrace (a := v ++ y) (z := z)
    (by rw [← hv]; simp [brace])
  cases closed with
  | false =>
    obtain rfl := h.eq_nil
    rw [hopen rfl] at hlength
    have hle := congrArg List.length hu
    simp [behind] at hle
    omega
  | true =>
    obtain ⟨more, hend, rfl⟩ := hclosed rfl
    have hu' : escapeTmplExpression code ++ closeBrace :: closeBrace :: joinExpression rest =
        u ++ openBrace :: z := hu
    rcases List.append_eq_append_iff.mp hu' with ⟨a, rfl, ha⟩ | ⟨a, hcode', ha⟩
    · -- the code is read from behind this code, so what follows it is read too late as well
      rcases a with _ | ⟨x, _ | ⟨x', a⟩⟩
      · exact absurd (List.cons.inj ha).1 (by decide)
      · exact absurd (List.cons.inj (List.cons.inj ha).2).1 (by decide)
      · obtain ⟨-, ha⟩ := List.cons.inj ha
        obtain ⟨hx', ha⟩ := List.cons.inj ha
        obtain ⟨u', hu'⟩ := hlast.resolve_left (by simp)
        obtain ⟨a', rfl⟩ : ∃ a', a = a' ++ [openBrace] := by
          rcases List.eq_nil_or_concat' a with rfl | ⟨a', c, rfl⟩
          · have hend' : escapeTmplExpression code ++ [x] ++ [x'] = u' ++ [openBrace] := by
              simpa using hu'
            rw [← hx'] at hend'
            exact absurd (List.cons.inj (List.append_inj' hend' rfl).2).1 (by decide)
          · have hend' : escapeTmplExpression code ++ x :: x' :: a' ++ [c] = u' ++ [openBrace] := by
              simpa using hu'
            exact ⟨a', congrArg _ (List.append_inj' hend' rfl).2⟩
        obtain ⟨text', code', closed', rest', rfl, hz⟩ :=
          next_of_joinExpression (a := a') (z := z) h (by rw [ha]; simp)
        have hmore : more <:+ z := ⟨t ++ [closeBrace, closeBrace], by simpa using hend.append⟩
        have hshorter : rest'.length < n := by
          rw [← hn]
          simp only [List.length_append, List.length_cons]
          omega
        exact ih rest'.length hshorter h.tail.tail (hmore.trans hz) [] rfl hparts.symm
    · -- it is read from inside of this code, which then ends as its text does there
      cases a with
      | nil => exact absurd (List.cons.inj ha).1 (by decide)
      | cons x a =>
        obtain ⟨rfl, hz⟩ := List.cons.inj ha
        have hlt : a.length < t.length := by
          rw [hlength, hcode']
          simp
          omega
        have hends : EndsEscaped backslash closeBrace a := hend.endsEscaped hz hlt
        refine hend.not_endsEscaped (by decide) (ht.endsEscaped_iff.mpr (hw.endsEscaped_iff.mp ?_))
        rw [hcode']
        have := hends.append (u ++ [openBrace])
        simpa using this

theorem codesFrom_nil (text : JsString) : codesFrom false text [] = [] := by
  simp [codesFrom, BracketScan.read, start]

/-- From where a piece of code begins, it and what follows are read exactly if they survive. -/
theorem codesFrom_code_iff {code : JsString}
    (h : Joinable (.code code closed :: rest))
    (hrest : codesFrom false [] (joinExpression rest) = codeChunks rest ↔ chunksSurvive rest = true) :
    codesFrom true []
        (escapeTmplExpression code ++ behind closeBrace closed (joinExpression rest)) =
        codeChunks (.code code closed :: rest) ↔
      chunksSurvive (.code code closed :: rest) = true := by
  have hcodes : codeChunks (.code code closed :: rest) = .code code closed :: codeChunks rest := rfl
  rw [hcodes, chunksSurvive, Bool.and_eq_true, ← hrest]
  have hiff : codeSurvives code closed = true →
      (codesFrom true []
          (escapeTmplExpression code ++ behind closeBrace closed (joinExpression rest)) =
        .code code closed :: codeChunks rest ↔
          codesFrom false [] (joinExpression rest) = codeChunks rest) := by
    intro hsurvives
    rw [codesFrom_of_survives hsurvives, List.cons_inj_right]
    cases closed with
    | true => rfl
    | false =>
      obtain rfl := h.eq_nil
      exact iff_of_true rfl (codesFrom_nil [])
  exact ⟨fun hread => ⟨survives_of_codesFrom hread,
    (hiff (survives_of_codesFrom hread)).mp hread⟩, fun ⟨hsurvives, hread⟩ => (hiff hsurvives).mpr hread⟩

/-- Text before code is read as text if it does not end with a brace. -/
theorem codesFrom_text_code {text expr : JsString} (htext : findPair openBrace text = none)
    (hbackslash : text.getLast? ≠ some backslash) (hbrace : text.getLast? ≠ some openBrace) :
    codesFrom false [] (text ++ openBrace :: openBrace :: expr) = codesFrom true [] expr := by
  have hfind : findPair (brace false) (text ++ openBrace :: openBrace :: expr) = some (text, expr) := by
    rcases findPair_after htext expr with ⟨x, rfl, -⟩ | ⟨-, hfind⟩
    · exact absurd List.getLast?_concat hbrace
    · exact hfind
  have hescapes : ¬escapes (escapeRun backslash text) = true :=
    mt (escapes_escapeRun_iff escapes_iff text).mp hbackslash
  rw [codesFrom, read_start_of_findPair brace_ne_backslash [] hfind, if_neg hescapes]
  rfl

/-- Behind text that ends with a brace other code is read. -/
theorem codesFrom_text_ne {text code : JsString} (h : Joinable (.code code closed :: rest))
    (htext : findPair openBrace text = none) (hbrace : text.getLast? = some openBrace) :
    codesFrom false [] (text ++ openBrace :: openBrace ::
        (escapeTmplExpression code ++ behind closeBrace closed (joinExpression rest))) ≠
      .code code closed :: codeChunks rest := by
  obtain ⟨before, rfl⟩ := List.getLast?_eq_some_iff.mp hbrace
  obtain ⟨before', hbefore, hfind⟩ := (findPair_after htext (escapeTmplExpression code ++
    behind closeBrace closed (joinExpression rest))).resolve_right fun hnot =>
      hnot.1 (List.suffix_append before _)
  obtain rfl := List.append_cancel_right hbefore
  have hfind' : findPair (brace false) _ = some (before, _) := hfind
  rw [codesFrom, read_start_of_findPair brace_ne_backslash [] hfind']
  split
  · exact codes_ne_of_suffix h (List.suffix_refl _) _
  · exact codesFrom_openBrace_ne

/-- The code that is read from joined chunks is their code exactly if they survive. -/
theorem codesFrom_join_iff : ∀ {chunks : List ExpressionChunk}, Joinable chunks →
    (codesFrom false [] (joinExpression chunks) = codeChunks chunks ↔ chunksSurvive chunks = true)
  | [], _ => iff_of_true (codesFrom_nil []) rfl
  | [.text text], h => by
    have htext := (h.text text (by simp)).1
    refine iff_of_true ?_ (by simp [chunksSurvive])
    have hjoin : joinExpression [.text text] = text := by simp [joinExpression, joinChunk]
    rw [hjoin]
    rcases read_outside_cases brace_ne_backslash [] text with hnil | ⟨y, z, heq, -⟩
    · rw [codesFrom, hnil]
      rfl
    · obtain ⟨x, hx⟩ := exists_findPair openBrace y z
      have hsame : y ++ openBrace :: openBrace :: z = text := heq.symm
      rw [hsame, htext] at hx
      cases hx
  | .text _ :: .text _ :: _, h => by cases (List.isChain_cons_cons.mp h.alternate).1
  | .code code closed :: rest, h => by
    have hnil : codesFrom false [] (openBrace :: openBrace ::
          (escapeTmplExpression code ++ behind closeBrace closed (joinExpression rest))) =
        codesFrom true []
          (escapeTmplExpression code ++ behind closeBrace closed (joinExpression rest)) :=
      codesFrom_text_code (rfl : findPair openBrace [] = none) (by simp) (by simp)
    rw [joinExpression_code h, hnil]
    exact codesFrom_code_iff h (codesFrom_join_iff h.tail)
  | .text text :: .code code closed :: rest, h => by
    obtain ⟨htext, hbackslash⟩ := h.text text (by simp)
    have hjoin : joinExpression (.text text :: .code code closed :: rest) =
        text ++ openBrace :: openBrace ::
          (escapeTmplExpression code ++ behind closeBrace closed (joinExpression rest)) := by
      rw [← joinExpression_code h.tail]
      rfl
    have hcodes : codeChunks (.text text :: .code code closed :: rest) =
        codeChunks (.code code closed :: rest) := rfl
    rw [hjoin, hcodes, chunksSurvive]
    by_cases hbrace : text.getLast? = some openBrace
    · exact iff_of_false (codesFrom_text_ne h.tail htext hbrace) (by simp [hbrace])
    · rw [codesFrom_text_code htext hbackslash hbrace,
        codesFrom_code_iff h.tail (codesFrom_join_iff h.tail.tail)]
      simp [hbrace]

/-- The code of joined chunks comes back exactly if the chunks survive. -/
theorem codeChunks_join_iff {chunks : List ExpressionChunk} (h : Joinable chunks) :
    codeChunks (splitExpression (joinExpression chunks)) = codeChunks chunks ↔
      chunksSurvive chunks = true := by
  rw [codeChunks_splitExpression]
  exact codesFrom_join_iff h

/-- The text `x` and the code `a}}b`. -/
def closingChunks (closed : Bool) : List ExpressionChunk :=
  [.text [codeUnit 'x'], .code [codeUnit 'a', closeBrace, closeBrace, codeUnit 'b'] closed]

theorem joinable_closingChunks (closed : Bool) : Joinable (closingChunks closed) where
  alternate := .cons_cons rfl (.singleton _)
  text text hmem := by
    simp only [closingChunks, List.mem_cons, List.not_mem_nil, or_false, reduceCtorEq] at hmem
    cases hmem
    decide
  closed c hc := by
    obtain rfl := List.mem_singleton.mp hc
    rfl

theorem codeChunks_join_iff_closing :
    codeChunks (splitExpression (joinExpression (closingChunks true))) =
        codeChunks (closingChunks true) ↔ chunksSurvive (closingChunks true) = true :=
  codeChunks_join_iff (joinable_closingChunks true)

/-- `a}}b}}` -/
def nestedCode : JsString :=
  [codeUnit 'a', closeBrace, closeBrace, codeUnit 'b', closeBrace, closeBrace]

/-- The second pair of closing braces ends the code. -/
theorem codeChunks_join_ne :
    ¬∀ chunks, Joinable chunks →
      codeChunks (splitExpression (joinExpression chunks)) = codeChunks chunks := by
  intro h
  have hjoinable : Joinable [.code nestedCode true] :=
    ⟨.singleton _, fun text hmem => by simp at hmem, fun c hc => by cases hc⟩
  have hread := h _ hjoinable
  rw [codeChunks_splitExpression] at hread
  have hsurvives := (codesFrom_join_iff hjoinable).mp hread
  exact absurd hsurvives (by decide)

end N8n.ExpressionParser
