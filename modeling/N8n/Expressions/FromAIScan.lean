import N8n.Expressions.FromAI
import N8n.Lib.JsonWeight

/-!
# Scanning a call of `$fromAI`

What `createFromAIExpression` writes in quotes goes through both scanners : `scanArguments` keeps
it as it is (`Inside.scanArguments`), and `splitArguments` keeps it but for the backslashes
(`Inside.splitArguments`). `unescapeArg` takes backslashes away once more
(`unescapeArg_eq_self_iff`). A call that is found in a text lies between two characters that
cannot stand in it (`hasCall_append`).
-/

open Lib

namespace N8n

/-! ## Where calls are found -/

/-- `/\$fromAI\s*\(/i` matches somewhere. -/
def hasCall (str : JsString) : Bool := (searchFromAI str).isSome

/-- What may stand in a match. -/
def isCallUnit (u : UInt16) : Bool :=
  lowerUnit u ∈ fromAIName || isSpace u || u = codeUnit '('

/-- `name` and the spaces after it end at the parenthesis. -/
theorem callStart_iff {str tail : JsString} :
    toLowerCase (str.take fromAIName.length) = fromAIName ∧
        (str.drop fromAIName.length).dropWhile isSpace = codeUnit '(' :: tail ↔
      ∃ name spaces : JsString, str = name ++ (spaces ++ codeUnit '(' :: tail) ∧
        toLowerCase name = fromAIName ∧ ∀ u ∈ spaces, isSpace u = true := by
  constructor
  · rintro ⟨hname, hdrop⟩
    refine ⟨str.take fromAIName.length, (str.drop fromAIName.length).takeWhile isSpace, ?_, hname,
      fun u hu => List.mem_takeWhile_imp hu⟩
    rw [← hdrop, List.takeWhile_append_dropWhile, List.take_append_drop]
  · rintro ⟨name, spaces, rfl, hname, hspaces⟩
    have hlength : fromAIName.length = name.length := by
      rw [← hname, toLowerCase, List.length_map]
    have hparen : ¬isSpace (codeUnit '(') = true := by decide
    rw [hlength, List.take_left, List.drop_left, List.dropWhile_append_of_pos hspaces,
      List.dropWhile_cons_of_neg hparen]
    exact ⟨hname, rfl⟩

theorem matchFromAI_isSome_iff {str : JsString} :
    (matchFromAI str).isSome = true ↔ ∃ name spaces tail,
      str = name ++ (spaces ++ codeUnit '(' :: tail) ∧ toLowerCase name = fromAIName ∧
        ∀ u ∈ spaces, isSpace u = true := by
  unfold matchFromAI
  constructor
  · intro h
    split at h
    · rename_i hname
      split at h
      · rename_i u tail hdrop
        split at h
        · rename_i hu
          subst hu
          obtain ⟨name, spaces, hcall⟩ := callStart_iff.mp ⟨hname, hdrop⟩
          exact ⟨name, spaces, tail, hcall⟩
        · cases h
      · cases h
    · cases h
  · rintro ⟨name, spaces, tail, hcall⟩
    obtain ⟨hname, hdrop⟩ := callStart_iff.mpr ⟨name, spaces, hcall⟩
    rw [if_pos hname, hdrop]
    rfl

/-! ## Units that are told apart -/

section

variable {p : UInt16 → Bool} {u v : UInt16} {us : JsString}

/-- What `p` holds of is none of those that `p` refuses. -/
theorem not_mem_of_refused (h : p u = true) (hus : ∀ v ∈ us, p v = false) : u ∉ us := by
  intro hu
  rw [hus u hu] at h
  cases h

theorem ne_of_refused (h : p u = true) (hv : p v = false) : u ≠ v := by
  rintro rfl
  rw [h] at hv
  cases hv

theorem isSpace_of_isQuote (h : isQuote u = true) : isSpace u = false := by
  have hquotes : ∀ q ∈ units "\"'\x60", isSpace q = false := by decide
  exact hquotes u (of_decide_eq_true h)

theorem isCallUnit_of_isQuote (h : isQuote u = true) : isCallUnit u = false := by
  have hquotes : ∀ q ∈ units "\"'\x60", isCallUnit q = false := by decide
  exact hquotes u (of_decide_eq_true h)

end

/-! ## Calls between other characters -/

/-- Nothing in a match but its units. -/
theorem isCallUnit_of_match {name spaces : JsString} (hname : toLowerCase name = fromAIName)
    (hspaces : ∀ u ∈ spaces, isSpace u = true) :
    ∀ u ∈ name ++ (spaces ++ [codeUnit '(']), isCallUnit u = true := by
  intro u hu
  simp only [isCallUnit, Bool.or_eq_true, decide_eq_true_eq]
  rcases List.mem_append.mp hu with hu | hu
  · exact .inl (.inl (hname ▸ List.mem_map_of_mem hu))
  · rcases List.mem_append.mp hu with hu | hu
    · exact .inl (.inr (hspaces u hu))
    · exact .inr (List.mem_singleton.mp hu)

theorem matchFromAI_append {u : UInt16} (hu : isCallUnit u = false) (s t : JsString) :
    (matchFromAI (s ++ u :: t)).isSome = (matchFromAI s).isSome := by
  rw [Bool.eq_iff_iff, matchFromAI_isSome_iff, matchFromAI_isSome_iff]
  constructor
  · rintro ⟨name, spaces, tail, heq, hname, hspaces⟩
    have hunits := isCallUnit_of_match hname hspaces
    have hmatch : name ++ (spaces ++ [codeUnit '(']) <+: s ++ u :: t := by
      rw [heq]
      exact ⟨tail, by simp⟩
    have hsu : s ++ [u] <+: s ++ u :: t := ⟨t, by simp⟩
    have hnot : u ∉ name ++ (spaces ++ [codeUnit '(']) := by
      intro hmem
      rw [hunits u hmem] at hu
      cases hu
    -- the match ends before `u`
    have hprefix : name ++ (spaces ++ [codeUnit '(']) <+: s := by
      rcases List.prefix_or_prefix_of_prefix hmatch hsu with h | h
      · rcases List.prefix_concat_iff.mp h with h | h
        · exact absurd (by rw [h]; simp) hnot
        · exact h
      · exact absurd (h.subset (by simp)) hnot
    obtain ⟨rest, rfl⟩ := hprefix
    exact ⟨name, spaces, rest, by simp, hname, hspaces⟩
  · rintro ⟨name, spaces, tail, rfl, hname, hspaces⟩
    exact ⟨name, spaces, tail ++ u :: t, by simp, hname, hspaces⟩

theorem hasCall_cons (u : UInt16) (str : JsString) :
    hasCall (u :: str) = ((matchFromAI (u :: str)).isSome || hasCall str) := by
  rw [hasCall, searchFromAI, Option.isSome_or]
  rfl

/-- A call lies between two characters that cannot stand in it. -/
theorem hasCall_append {u : UInt16} (hu : isCallUnit u = false) (s t : JsString) :
    hasCall (s ++ u :: t) = (hasCall s || hasCall t) := by
  induction s with
  | nil =>
    have hnone : (matchFromAI ([] ++ u :: t)).isSome = (matchFromAI []).isSome :=
      matchFromAI_append hu [] t
    rw [List.nil_append] at hnone ⊢
    rw [hasCall_cons, hnone]
    rfl
  | cons u' s ih =>
    have hmatch := matchFromAI_append hu (u' :: s) t
    rw [List.cons_append] at hmatch ⊢
    rw [hasCall_cons, hasCall_cons, hmatch, ih, Bool.or_assoc]

theorem hasCall_cons_of_not {u : UInt16} (hu : isCallUnit u = false) (s : JsString) :
    hasCall (u :: s) = hasCall s := hasCall_append hu [] s

theorem lowerUnit_eq_dollar {u : UInt16} (h : lowerUnit u = codeUnit '$') : u = codeUnit '$' := by
  unfold lowerUnit at h
  split at h
  · rename_i hupper
    have hnat := congrArg UInt16.toNat h
    rw [UInt16.toNat_add] at hnat
    have hdollar : (codeUnit '$').toNat = 36 := by decide
    have hoffset : (32 : UInt16).toNat = 32 := by decide
    omega
  · exact h

theorem matchFromAI_of_ne {u : UInt16} (h : u ≠ codeUnit '$') (str : JsString) :
    matchFromAI (u :: str) = none := by
  rw [← Option.not_isSome_iff_eq_none, matchFromAI_isSome_iff]
  rintro ⟨name, spaces, tail, heq, hname, -⟩
  cases name with
  | nil => cases hname
  | cons u' name =>
    obtain ⟨rfl, -⟩ := List.cons.inj heq
    exact h (lowerUnit_eq_dollar (List.cons.inj hname).1)

/-- A text without `$` before it does not matter. -/
theorem searchFromAI_append {s : JsString} (h : codeUnit '$' ∉ s) (t : JsString) :
    searchFromAI (s ++ t) = searchFromAI t := by
  induction s with
  | nil => rfl
  | cons u s ih =>
    rw [List.mem_cons, not_or] at h
    rw [List.cons_append, searchFromAI, matchFromAI_of_ne (Ne.symm h.1), Option.none_or, ih h.2]

theorem hasCall_of_not_mem_dollar {str : JsString} (h : codeUnit '$' ∉ str) :
    hasCall str = false := by
  have hsearch := searchFromAI_append h []
  rw [List.append_nil] at hsearch
  rw [hasCall, hsearch]
  rfl

/-! ## Inside quotes -/

/-- A text that stands between two quotes `q` : after a backslash comes what it escapes. -/
inductive Inside (q : UInt16) : JsString → Prop
  | nil : Inside q []
  | plain {u : UInt16} {s : JsString} : u ≠ codeUnit '\\' → u ≠ q → Inside q s → Inside q (u :: s)
  | escaped {u : UInt16} {s : JsString} : Inside q s → Inside q (codeUnit '\\' :: u :: s)

/-- Without the backslashes that escape something. -/
def dropEscapes : JsString → JsString
  | u :: v :: s =>
    if u = codeUnit '\\' then v :: dropEscapes s else u :: dropEscapes (v :: s)
  | s => s

theorem dropEscapes_escaped (u : UInt16) (s : JsString) :
    dropEscapes (codeUnit '\\' :: u :: s) = u :: dropEscapes s := by
  rw [dropEscapes, if_pos rfl]

theorem dropEscapes_plain {u : UInt16} (h : u ≠ codeUnit '\\') (s : JsString) :
    dropEscapes (u :: s) = u :: dropEscapes s := by
  cases s with
  | nil => rfl
  | cons v s => rw [dropEscapes, if_neg h]

theorem dropEscapes_of_not_mem {s : JsString} (h : codeUnit '\\' ∉ s) : dropEscapes s = s := by
  induction s with
  | nil => rfl
  | cons u s ih =>
    rw [List.mem_cons, not_or] at h
    rw [dropEscapes_plain (Ne.symm h.1), ih h.2]

theorem scanArguments_close {q : UInt16} (hq : q ≠ codeUnit '\\') (n : ℕ) (str : JsString) :
    scanArguments (some q) (n + 1) (q :: str) =
      (scanArguments none (n + 1) str).map (q :: ·) := by
  conv_lhs => unfold scanArguments
  rw [if_neg hq, if_pos rfl]

theorem scanArguments_plain {q u : UInt16} (hbackslash : u ≠ codeUnit '\\') (hne : u ≠ q) (n : ℕ)
    (str : JsString) :
    scanArguments (some q) (n + 1) (u :: str) =
      (scanArguments (some q) (n + 1) str).map (u :: ·) := by
  conv_lhs => unfold scanArguments
  rw [if_neg hbackslash, if_neg hne]

theorem scanArguments_escaped (q u : UInt16) (n : ℕ) (str : JsString) :
    scanArguments (some q) (n + 1) (codeUnit '\\' :: u :: str) =
      (scanArguments (some q) (n + 1) str).map fun s => codeUnit '\\' :: u :: s := by
  conv_lhs => unfold scanArguments
  rw [if_pos rfl]

theorem ne_backslash_of_isQuote {q : UInt16} (h : isQuote q = true) : q ≠ codeUnit '\\' := by
  rintro rfl
  exact absurd h (by decide)

namespace Inside

variable {q : UInt16} {s t : JsString}

theorem append (hs : Inside q s) (ht : Inside q t) : Inside q (s ++ t) := by
  induction hs with
  | nil => exact ht
  | plain hbackslash hq _ ih => exact .plain hbackslash hq ih
  | escaped _ ih => exact .escaped ih

theorem scanArguments (h : Inside q s) (hq : isQuote q = true) (n : ℕ) (rest : JsString) :
    N8n.scanArguments (some q) (n + 1) (s ++ q :: rest) =
      (N8n.scanArguments none (n + 1) rest).map fun r => s ++ q :: r := by
  induction h with
  | nil =>
    rw [List.nil_append, scanArguments_close (ne_backslash_of_isQuote hq)]
    rfl
  | plain hbackslash hne _ ih =>
    rw [List.cons_append, scanArguments_plain hbackslash hne, ih, Option.map_map]
    rfl
  | escaped _ ih =>
    rw [List.cons_append, List.cons_append, scanArguments_escaped, ih, Option.map_map]
    rfl

theorem splitArguments (h : Inside q s) (hq : isQuote q = true) (currentArg rest : JsString) :
    N8n.splitArguments (some q) false currentArg (s ++ q :: rest) =
      N8n.splitArguments none false (currentArg ++ dropEscapes s ++ [q]) rest := by
  induction h generalizing currentArg with
  | nil =>
    rw [List.nil_append, N8n.splitArguments, if_neg Bool.false_ne_true,
      if_neg (ne_backslash_of_isQuote hq), if_pos hq, if_neg (Option.some_ne_none q), if_pos rfl]
    simp [dropEscapes]
  | @plain u s hbackslash hne _ ih =>
    have hquote : (if (some q : Option UInt16) = none then some u
        else if some q = some u then none else some q) = some q := by
      rw [if_neg (Option.some_ne_none q), if_neg fun heq => hne (Option.some.inj heq).symm]
    have hcomma : ¬(u = codeUnit ',' ∧ (some q : Option UInt16) = none) :=
      fun hcomma => Option.some_ne_none q hcomma.2
    rw [List.cons_append, N8n.splitArguments, if_neg Bool.false_ne_true, if_neg hbackslash, hquote,
      if_neg hcomma, ite_self, ih, dropEscapes_plain hbackslash]
    simp
  | @escaped u s _ ih =>
    rw [List.cons_append, List.cons_append, N8n.splitArguments, if_neg Bool.false_ne_true,
      if_pos rfl, N8n.splitArguments, if_pos rfl, ih, dropEscapes_escaped]
    simp

end Inside

/-! ## Outside quotes -/

/-- `scanArguments` goes over the text without leaving the call. -/
def Passes (s : JsString) : Prop :=
  ∀ n rest, scanArguments none (n + 1) (s ++ rest) =
    (scanArguments none (n + 1) rest).map (s ++ ·)

/-- `splitArguments` takes `arg` from the text and goes on in the same argument. -/
def ReadsAs (s arg : JsString) : Prop :=
  ∀ currentArg rest, splitArguments none false currentArg (s ++ rest) =
    splitArguments none false (currentArg ++ arg) rest

/-- Neither a quote, a parenthesis nor a backslash. -/
def isPlain (u : UInt16) : Bool :=
  !isQuote u && u ≠ codeUnit '(' && u ≠ codeUnit ')' && u ≠ codeUnit '\\'

theorem Passes.append {s t : JsString} (hs : Passes s) (ht : Passes t) : Passes (s ++ t) := by
  intro n rest
  rw [List.append_assoc, hs n (t ++ rest), ht n rest, Option.map_map]
  refine congrArg (fun f => Option.map f _) (funext fun r => ?_)
  exact (List.append_assoc s t r).symm

theorem ReadsAs.append {s t arg arg' : JsString} (hs : ReadsAs s arg) (ht : ReadsAs t arg') :
    ReadsAs (s ++ t) (arg ++ arg') := by
  intro currentArg rest
  rw [List.append_assoc, hs currentArg (t ++ rest), ht (currentArg ++ arg) rest, List.append_assoc]

theorem passes_nil : Passes [] := by
  intro n rest
  exact (congrFun Option.map_id _).symm

theorem readsAs_nil : ReadsAs [] [] := by
  intro currentArg rest
  rw [List.nil_append, List.append_nil]

theorem passes_plain {u : UInt16} (h : isPlain u = true) : Passes [u] := by
  intro n rest
  simp only [isPlain, Bool.and_eq_true, Bool.not_eq_true', decide_eq_true_eq] at h
  obtain ⟨⟨⟨hquote, hopen⟩, hclose⟩, -⟩ := h
  rw [List.singleton_append, scanArguments, if_neg (Bool.not_eq_true _ ▸ hquote), if_neg hopen,
    if_neg hclose]
  rfl

theorem readsAs_plain {u : UInt16} (h : isPlain u = true) (hcomma : u ≠ codeUnit ',') :
    ReadsAs [u] [u] := by
  intro currentArg rest
  simp only [isPlain, Bool.and_eq_true, Bool.not_eq_true', decide_eq_true_eq] at h
  obtain ⟨⟨⟨hquote, -⟩, -⟩, hbackslash⟩ := h
  rw [List.singleton_append, splitArguments, if_neg Bool.false_ne_true, if_neg hbackslash,
    if_neg (Bool.not_eq_true _ ▸ hquote), if_neg fun h => hcomma h.1]

theorem passes_of_plain {s : JsString} (h : ∀ u ∈ s, isPlain u = true) : Passes s := by
  induction s with
  | nil => exact passes_nil
  | cons u s ih =>
    obtain ⟨hu, hs⟩ := List.forall_mem_cons.mp h
    exact (passes_plain hu).append (ih hs)

theorem readsAs_of_plain {s : JsString} (h : ∀ u ∈ s, isPlain u = true ∧ u ≠ codeUnit ',') :
    ReadsAs s s := by
  induction s with
  | nil => exact readsAs_nil
  | cons u s ih =>
    obtain ⟨hu, hs⟩ := List.forall_mem_cons.mp h
    exact (readsAs_plain hu.1 hu.2).append (ih hs)

theorem Inside.passes {q : UInt16} {s : JsString} (h : Inside q s) (hq : isQuote q = true) :
    Passes (q :: (s ++ [q])) := by
  intro n rest
  rw [List.cons_append, N8n.scanArguments, if_pos hq, List.append_assoc, List.singleton_append,
    h.scanArguments hq, Option.map_map]
  refine congrArg (fun f => Option.map f _) (funext fun r => ?_)
  simp

theorem Inside.readsAs {q : UInt16} {s : JsString} (h : Inside q s) (hq : isQuote q = true) :
    ReadsAs (q :: (s ++ [q])) (q :: (dropEscapes s ++ [q])) := by
  intro currentArg rest
  rw [List.cons_append, N8n.splitArguments, if_neg Bool.false_ne_true,
    if_neg (ne_backslash_of_isQuote hq), if_pos hq, if_pos rfl, List.append_assoc,
    List.singleton_append, h.splitArguments hq]
  simp

/-! ## Arguments in quotes -/

theorem isQuote_getBestQuoteChar (str : JsString) : isQuote (getBestQuoteChar str) = true := by
  unfold getBestQuoteChar
  split_ifs <;> decide

def escapeQuoteUnit (q u : UInt16) : JsString :=
  if u = codeUnit '\\' then units "\\\\"
  else if u = q then [codeUnit '\\', q]
  else [u]

theorem escapeForQuote_eq {q : UInt16} (hq : isQuote q = true) (s : JsString) :
    escapeForQuote s q = s.flatMap (escapeQuoteUnit q) := by
  have hs : s = s.flatMap fun u => [u] := by simp
  have hne : codeUnit '\\' ≠ q := (ne_backslash_of_isQuote hq).symm
  conv_lhs => rw [escapeForQuote, hs]
  simp only [replaceUnit_flatMap]
  refine List.flatMap_congr fun u _ => ?_
  unfold escapeQuoteUnit
  by_cases hbackslash : u = codeUnit '\\'
  · subst hbackslash
    have hunits : units "\\\\" = [codeUnit '\\', codeUnit '\\'] := by decide
    simp [replaceUnit, hunits, hne]
  · simp [replaceUnit, hbackslash]

theorem escapeForQuote_spec {q : UInt16} (hq : isQuote q = true) (s : JsString) :
    Inside q (escapeForQuote s q) ∧ dropEscapes (escapeForQuote s q) = s := by
  rw [escapeForQuote_eq hq]
  induction s with
  | nil => exact ⟨.nil, rfl⟩
  | cons u s ih =>
    rw [List.flatMap_cons]
    by_cases hbackslash : u = codeUnit '\\'
    · subst hbackslash
      exact ⟨.escaped ih.1, (dropEscapes_escaped _ _).trans (congrArg _ ih.2)⟩
    · by_cases hquote : u = q
      · subst hquote
        rw [escapeQuoteUnit, if_neg hbackslash, if_pos rfl]
        exact ⟨.escaped ih.1, (dropEscapes_escaped _ _).trans (congrArg _ ih.2)⟩
      · rw [escapeQuoteUnit, if_neg hbackslash, if_neg hquote]
        exact ⟨.plain hbackslash hquote ih.1, (dropEscapes_plain hbackslash _).trans (congrArg _ ih.2)⟩

/-- The escapes cut no call and make none. -/
theorem hasCall_escapeForQuote {q : UInt16} (hq : isQuote q = true) (s : JsString) :
    hasCall (escapeForQuote s q) = hasCall s := by
  have hbackslash : isCallUnit (codeUnit '\\') = false := by decide
  have hcall : isCallUnit q = false := isCallUnit_of_isQuote hq
  have hpre : ∀ pre : JsString,
      hasCall (pre ++ s.flatMap (escapeQuoteUnit q)) = hasCall (pre ++ s) := by
    induction s with
    | nil => exact fun pre => rfl
    | cons u s ih =>
      intro pre
      have hs : hasCall (s.flatMap (escapeQuoteUnit q)) = hasCall s := ih []
      rw [List.flatMap_cons]
      -- an escape and what it escapes end a call
      have hescape : ∀ v, isCallUnit u = false → isCallUnit v = false →
          hasCall (pre ++ ([codeUnit '\\', v] ++ s.flatMap (escapeQuoteUnit q))) =
            hasCall (pre ++ u :: s) := by
        intro v hu hv
        have h := hasCall_append hbackslash pre (v :: s.flatMap (escapeQuoteUnit q))
        rw [hasCall_cons_of_not hv, hs, ← hasCall_append hu pre s] at h
        exact h
      by_cases hu : u = codeUnit '\\'
      · rw [escapeQuoteUnit, if_pos hu]
        exact hescape (codeUnit '\\') (hu ▸ hbackslash) hbackslash
      · by_cases huq : u = q
        · rw [escapeQuoteUnit, if_neg hu, if_pos huq]
          exact hescape q (huq ▸ hcall) hcall
        · have hplain := ih (pre ++ [u])
          rw [escapeQuoteUnit, if_neg hu, if_neg huq]
          simpa using hplain
  rw [escapeForQuote_eq hq]
  exact hpre []

/-! ## Backslashes taken away -/

theorem replacePair_cases (a b c : UInt16) (s : JsString) :
    replacePair a b c s = s ∧ ¬[a, b] <:+: s ∨
      (replacePair a b c s).length < s.length ∧ [a, b] <:+: s := by
  fun_induction replacePair a b c s with
  | case1 u v s hpair ih =>
    obtain ⟨rfl, rfl⟩ := hpair
    refine .inr ⟨?_, ⟨[], s, rfl⟩⟩
    have hle : (replacePair u v c s).length ≤ s.length := by
      rcases ih with ⟨heq, -⟩ | ⟨hlt, -⟩
      · rw [heq]
      · exact hlt.le
    simp only [List.length_cons]
    omega
  | case2 u v s hpair ih =>
    have hpart : [a, b] <:+: u :: v :: s ↔ [a, b] <:+: v :: s := by
      rw [List.infix_cons_iff]
      refine or_iff_right fun hprefix => hpair ?_
      obtain ⟨hu, hprefix⟩ := List.cons_prefix_cons.mp hprefix
      exact ⟨hu.symm, (List.cons_prefix_cons.mp hprefix).1.symm⟩
    rcases ih with ⟨heq, hnot⟩ | ⟨hlt, hin⟩
    · exact .inl ⟨congrArg _ heq, fun h => hnot (hpart.mp h)⟩
    · refine .inr ⟨?_, hpart.mpr hin⟩
      simpa using hlt
  | case3 s hshort =>
    refine .inl ⟨rfl, fun hpart => ?_⟩
    obtain ⟨pre, post, rfl⟩ := hpart
    cases pre with
    | nil => exact hshort a b post rfl
    | cons u pre =>
      cases pre with
      | nil => exact hshort u a (b :: post) rfl
      | cons v pre => exact hshort u v (pre ++ [a, b] ++ post) rfl

/-- `unescapeArg` takes the backslashes before these away, one after another. -/
def escapedUnits : List UInt16 := units "'\x60\"\\"

def unescapeUnits (us : List UInt16) (s : JsString) : JsString :=
  us.foldl (fun s u => replacePair (codeUnit '\\') u u s) s

theorem length_unescapeUnits (us : List UInt16) (s : JsString) :
    (unescapeUnits us s).length ≤ s.length := by
  induction us generalizing s with
  | nil => exact Nat.le_refl _
  | cons u us ih =>
    rw [unescapeUnits, List.foldl_cons]
    refine (ih _).trans ?_
    rcases replacePair_cases (codeUnit '\\') u u s with ⟨heq, -⟩ | ⟨hlt, -⟩
    · rw [heq]
    · exact hlt.le

theorem unescapeUnits_eq_self_iff (us : List UInt16) (s : JsString) :
    unescapeUnits us s = s ↔ ∀ u ∈ us, ¬[codeUnit '\\', u] <:+: s := by
  induction us with
  | nil => simp [unescapeUnits]
  | cons u us ih =>
    rw [unescapeUnits, List.foldl_cons, ← unescapeUnits, List.forall_mem_cons]
    rcases replacePair_cases (codeUnit '\\') u u s with ⟨heq, hnot⟩ | ⟨hlt, hpart⟩
    · rw [heq, ih, and_iff_right hnot]
    · -- a replacement that does something makes the text shorter for good
      refine iff_of_false (fun h => ?_) fun h => h.1 hpart
      have hle := length_unescapeUnits us (replacePair (codeUnit '\\') u u s)
      rw [h] at hle
      omega

/-- No backslash stands before a quote or a backslash. -/
def Unescaped (s : JsString) : Prop := ∀ u ∈ escapedUnits, ¬[codeUnit '\\', u] <:+: s

theorem unescapeArg_eq_self_iff (s : JsString) : unescapeArg s = s ↔ Unescaped s :=
  unescapeUnits_eq_self_iff escapedUnits s

theorem weight_replacePair (a b : UInt16) (s : JsString) :
    JsonText.weight (replacePair a b b s) ≤ JsonText.weight s := by
  fun_induction replacePair a b b s with
  | case1 u v s hpair ih =>
    obtain ⟨-, rfl⟩ := hpair
    simp only [JsonText.weight_cons]
    omega
  | case2 u v s _ ih =>
    simp only [JsonText.weight_cons] at ih ⊢
    omega
  | case3 s _ => exact Nat.le_refl _

theorem weight_unescapeArg (s : JsString) :
    JsonText.weight (unescapeArg s) ≤ JsonText.weight s := by
  have hunits : ∀ us : List UInt16, ∀ s,
      JsonText.weight (unescapeUnits us s) ≤ JsonText.weight s := by
    intro us
    induction us with
    | nil => exact fun s => Nat.le_refl _
    | cons u us ih => exact fun s => (ih _).trans (weight_replacePair (codeUnit '\\') u s)
  exact hunits escapedUnits s

/-! ## The arguments that are split off -/

theorem weight_le_of_isInfix {s t : JsString} (h : s <:+: t) : JsonText.weight s ≤ JsonText.weight t := by
  obtain ⟨pre, post, rfl⟩ := h
  simp only [JsonText.weight_append]
  omega

theorem trim_isInfix (s : JsString) : trim s <:+: s :=
  (List.rdropWhile_prefix _ _).isInfix.trans (List.dropWhile_suffix _).isInfix

theorem weight_cleanArg (s : JsString) :
    JsonText.weight (cleanArg s) ≤ JsonText.weight s := by
  have htrim := weight_le_of_isInfix (trim_isInfix s)
  unfold cleanArg
  dsimp only
  split
  · have hslice : ((trim s).drop 1).dropLast <:+: trim s :=
      (List.dropLast_prefix _).isInfix.trans (List.drop_suffix 1 _).isInfix
    exact (weight_unescapeArg _).trans ((weight_le_of_isInfix hslice).trans htrim)
  · exact htrim

/-- What is taken into the current argument weighs no more than the text, and less if there is a
backslash. -/
theorem splitArguments_head (s : JsString) : ∀ (quoteChar : Option UInt16) (escapeNext : Bool)
    (currentArg : JsString), currentArg ≠ [] →
      ∃ taken args, splitArguments quoteChar escapeNext currentArg s = trim (currentArg ++ taken) :: args ∧
        JsonText.weight taken ≤ JsonText.weight s ∧
        (escapeNext = false → codeUnit '\\' ∈ s → JsonText.weight taken < JsonText.weight s) := by
  have hone : JsonText.unitWeight (codeUnit '\\') = 1 ∧ JsonText.unitWeight (codeUnit ',') = 1 := by
    decide
  induction s with
  | nil =>
    intro quoteChar escapeNext currentArg hne
    refine ⟨[], [], ?_, Nat.le_refl _, fun _ hmem => by cases hmem⟩
    rw [splitArguments, if_neg hne, List.append_nil]
  | cons char s ih =>
    intro quoteChar escapeNext currentArg hne
    -- the character is taken into the argument
    have htake : ∀ quoteChar', ∃ taken args,
        splitArguments quoteChar' false (currentArg ++ [char]) s = trim (currentArg ++ taken) :: args ∧
        JsonText.weight taken ≤ JsonText.weight (char :: s) ∧
        (codeUnit '\\' ∈ s → JsonText.weight taken < JsonText.weight (char :: s)) := by
      intro quoteChar'
      obtain ⟨taken, args, hsplit, hle, hlt⟩ := ih quoteChar' false (currentArg ++ [char]) (by simp)
      refine ⟨char :: taken, args, by rw [hsplit, List.append_assoc]; rfl, ?_, fun hmem => ?_⟩
      · simp only [JsonText.weight_cons]
        omega
      · have := hlt rfl hmem
        simp only [JsonText.weight_cons]
        omega
    rw [splitArguments]
    cases escapeNext with
    | true =>
      obtain ⟨taken, args, hsplit, hle, -⟩ := htake quoteChar
      exact ⟨taken, args, by rw [if_pos rfl, hsplit], hle, fun h => by cases h⟩
    | false =>
      rw [if_neg Bool.false_ne_true]
      by_cases hbackslash : char = codeUnit '\\'
      · obtain ⟨taken, args, hsplit, hle, -⟩ := ih quoteChar true currentArg hne
        have hlt : JsonText.weight taken < JsonText.weight (char :: s) := by
          rw [JsonText.weight_cons, hbackslash, hone.1]
          omega
        exact ⟨taken, args, by rw [if_pos hbackslash, hsplit], hlt.le, fun _ _ => hlt⟩
      · rw [if_neg hbackslash, List.mem_cons, or_iff_right (Ne.symm hbackslash)]
        split
        · obtain ⟨taken, args, hsplit, hle, hlt⟩ := htake _
          exact ⟨taken, args, hsplit, hle, fun _ => hlt⟩
        · split
          · rename_i hcomma
            have hlt : JsonText.weight [] < JsonText.weight (char :: s) := by
              rw [JsonText.weight_cons, hcomma.1, hone.2, JsonText.weight_nil]
              omega
            exact ⟨[], _, by rw [List.append_nil], hlt.le, fun _ _ => hlt⟩
          · obtain ⟨taken, args, hsplit, hle, hlt⟩ := htake quoteChar
            exact ⟨taken, args, hsplit, hle, fun _ => hlt⟩

end N8n
