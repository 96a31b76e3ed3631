import N8n.Lib.Regex

/-!
# Text between doubled brackets

`findPair b` finds the first `b b`. `bracketParts` cuts a list at the pairs it looks for, in
turn an opening and a closing one; a pair that `escapes` tells from the number of escapes
directly before it does not count and stays in the part.

The parts with their brackets make up the list (`flatMap_source_bracketParts`), only the last
one is without the pair that ends it (`bracketPartsFrom_ends`), and they take turns
(`bracketPartsFrom_alternate`).
-/

namespace Lib

variable {α : Type} [DecidableEq α]

/-! ## Pairs -/

/-- What stands before the first `b b` and after it. -/
def findPair (b : α) : List α → Option (List α × List α)
  | [] => none
  | [_] => none
  | a :: a' :: l =>
    if a = b ∧ a' = b then some ([], l)
    else (findPair b (a' :: l)).map fun x => (a :: x.1, x.2)

/-- How many `esc` stand at the end. -/
def escapeRun (esc : α) (l : List α) : ℕ := (l.reverse.takeWhile (· = esc)).length

variable {l : List α}

theorem append_of_findPair {b : α} {before rest : List α} (h : findPair b l = some (before, rest)) :
    before ++ b :: b :: rest = l := by
  fun_induction findPair b l generalizing before with
  | case1 => cases h
  | case2 => cases h
  | case3 a a' l hpair =>
    cases h
    rw [hpair.1, hpair.2]
    rfl
  | case4 a a' l hpair ih =>
    obtain ⟨x, hx, heq⟩ := Option.map_eq_some_iff.mp h
    cases heq
    rw [List.cons_append, ih hx]

omit [DecidableEq α] in
theorem length_lt_of_append {b : α} {before rest : List α} (h : before ++ b :: b :: rest = l) :
    rest.length < l.length := by
  have := congrArg List.length h
  simp only [List.length_append, List.length_cons] at this
  omega

omit [DecidableEq α] in
theorem take_of_append {b : α} {before rest : List α} (h : before ++ b :: b :: rest = l) :
    l.take (before.length + 2) = before ++ [b, b] ∧ l.drop (before.length + 2) = rest := by
  subst h
  exact ⟨by simp [List.take_append, List.take_of_length_le], by simp [List.drop_append]⟩

theorem escapeRun_pos_iff {esc : α} :
    0 < escapeRun esc l ↔ ∃ before, l = before ++ [esc] := by
  rcases List.eq_nil_or_concat l with rfl | ⟨before, a, rfl⟩
  · simp [escapeRun]
  · by_cases ha : a = esc
    · subst ha
      simp [escapeRun]
    · simp [escapeRun, ha]

/-- Escapes are counted back to the first element that is none. -/
theorem escapeRun_append_cons {esc a : α} (ha : a ≠ esc) (l l' : List α) :
    escapeRun esc (l ++ a :: l') = escapeRun esc l' := by
  have hstop : (a :: l.reverse).takeWhile (· = esc) = [] := by
    rw [List.takeWhile_cons_of_neg (by simpa using ha)]
  rw [escapeRun, escapeRun, List.reverse_append, List.reverse_cons, List.append_assoc,
    List.singleton_append, List.takeWhile_append, hstop, List.append_nil]
  split
  · rename_i hall
    rw [hall]
  · rfl

/-- What stands before a pair has no pair, also with the first half of it. -/
theorem findPair_append {b : α} {before rest : List α} (h : findPair b l = some (before, rest))
    (rest' : List α) :
    findPair b (before ++ b :: b :: rest') = some (before, rest') := by
  fun_induction findPair b l generalizing before with
  | case1 => cases h
  | case2 => cases h
  | case3 a a' l hpair =>
    cases h
    simp [findPair]
  | case4 a a' l hpair ih =>
    obtain ⟨x, hx, heq⟩ := Option.map_eq_some_iff.mp h
    cases heq
    have hl := append_of_findPair hx
    have := ih hx
    cases hx1 : x.1 with
    | nil =>
      rw [hx1, List.nil_append] at hl
      have ha' : b = a' := (List.cons.inj hl).1
      rw [hx1, List.nil_append] at this
      rw [List.cons_append, List.nil_append, findPair, if_neg (ha' ▸ hpair), this]
      rfl
    | cons c cs =>
      rw [hx1, List.cons_append] at hl
      have hc : c = a' := (List.cons.inj hl).1
      rw [hx1, List.cons_append] at this
      rw [List.cons_append, List.cons_append, findPair, if_neg (by rw [hc]; exact hpair), this]
      rfl

theorem findPair_before {b : α} {before rest : List α} (h : findPair b l = some (before, rest)) :
    findPair b before = none := by
  cases hbefore : findPair b before with
  | none => rfl
  | some x =>
    have hlen := congrArg List.length (append_of_findPair hbefore)
    have hsame := findPair_append hbefore (x.2 ++ b :: b :: rest)
    have hbefore' := append_of_findPair hbefore
    have heq : x.1 ++ b :: b :: (x.2 ++ b :: b :: rest) = before ++ b :: b :: rest := by
      rw [← hbefore']
      simp
    rw [heq, findPair_append h rest] at hsame
    have := congrArg (fun y => (Option.getD y ([], [])).1.length) hsame
    simp at this hlen
    omega

/-- A pair after a list without one : it is found there, or one element earlier. -/
theorem findPair_after {b : α} (h : findPair b l = none) (rest : List α) :
    (∃ before, l = before ++ [b] ∧ findPair b (l ++ b :: b :: rest) = some (before, b :: rest)) ∨
      (¬[b] <:+ l ∧ findPair b (l ++ b :: b :: rest) = some (l, rest)) := by
  fun_induction findPair b l with
  | case1 => exact .inr ⟨by simp, by simp [findPair]⟩
  | case2 a =>
    by_cases ha : a = b
    · subst ha
      exact .inl ⟨[], rfl, by simp [findPair]⟩
    · refine .inr ⟨fun ⟨before, hbefore⟩ => ha ?_, by simp [findPair, ha]⟩
      simpa using (congrArg List.getLast? hbefore).symm
  | case3 a a' l hpair => cases h
  | case4 a a' l hpair ih =>
    rw [Option.map_eq_none_iff] at h
    rcases ih h with ⟨before, hl, hfind⟩ | ⟨hsuffix, hfind⟩
    · refine .inl ⟨a :: before, by rw [hl, List.cons_append], ?_⟩
      rw [List.cons_append, List.cons_append, findPair, if_neg hpair, ← List.cons_append, hfind]
      rfl
    · refine .inr ⟨fun h' => hsuffix ?_, ?_⟩
      · rcases List.suffix_cons_iff.mp h' with h' | h'
        · simp at h'
        · exact h'
      · rw [List.cons_append, List.cons_append, findPair, if_neg hpair, ← List.cons_append, hfind]
        rfl

/-- A pair is found, with what stands before it no later than here. -/
theorem exists_findPair (b : α) (before rest : List α) :
    ∃ x, findPair b (before ++ b :: b :: rest) = some x := by
  induction before with
  | nil => exact ⟨([], rest), by simp [findPair]⟩
  | cons a before ih =>
    obtain ⟨x, hx⟩ := ih
    cases hl : before ++ b :: b :: rest with
    | nil => simp at hl
    | cons a' l =>
      rw [hl] at hx
      rw [List.cons_append, hl, findPair]
      split
      · exact ⟨_, rfl⟩
      · exact ⟨_, by rw [hx]; rfl⟩

theorem findPair_eq_none_of_prefix {b : α} {m : List α} (hpre : l <+: m) (h : findPair b m = none) :
    findPair b l = none := by
  obtain ⟨more, rfl⟩ := hpre
  cases hl : findPair b l with
  | none => rfl
  | some x =>
    have heq := append_of_findPair hl
    obtain ⟨y, hy⟩ := exists_findPair b x.1 (x.2 ++ more)
    have hsame : x.1 ++ b :: b :: (x.2 ++ more) = l ++ more := by
      rw [← heq]
      simp
    rw [hsame, h] at hy
    cases hy

/-- More at the end does not change the first pair. -/
theorem findPair_append_right {b : α} {x : List α × List α} (h : findPair b l = some x)
    (more : List α) :
    findPair b (l ++ more) = some (x.1, x.2 ++ more) := by
  have heq := append_of_findPair h
  have hsame : x.1 ++ b :: b :: (x.2 ++ more) = l ++ more := by
    rw [← heq]
    simp
  rw [← hsame]
  exact findPair_append h _

/-! ## Searching for pairs -/

omit [DecidableEq α] in
theorem pair_prefix_iff {b a a' : α} : [b, b] <+: a :: a' :: l ↔ a = b ∧ a' = b := by
  simp only [List.cons_prefix_cons, List.nil_prefix, and_true]
  exact ⟨fun h => ⟨h.1.symm, h.2.symm⟩, fun h => ⟨h.1.symm, h.2.symm⟩⟩

theorem search_pair (b : α) (l : List α) :
    (Pattern.literal [b, b]).search l =
      (findPair b l).map fun x => (x.1, ⟨[], [b, b], [], x.2⟩) := by
  fun_induction findPair b l with
  | case1 => rfl
  | case2 a => simp [Pattern.search, Pattern.exec_literal, List.cons_prefix_cons]
  | case3 a a' l hpair =>
    rw [Pattern.search, Pattern.exec_literal, if_pos (pair_prefix_iff.mpr hpair)]
    rfl
  | case4 a a' l hpair ih =>
    rw [Pattern.search, Pattern.exec_literal, if_neg (mt pair_prefix_iff.mp hpair), ih,
      Option.map_map, Option.map_map]
    rfl

/-- A pair with an escape before it, if there is one. -/
def escapedPair (esc b : α) : Pattern α where
  before := .alt (.unit esc) .empty
  body := .literal [b, b]
  after := .empty

theorem exec_escapedPair {esc b : α} (hne : esc ≠ b) (l : List α) :
    (escapedPair esc b).exec l =
      if [esc, b, b] <+: l then some ⟨[esc], [b, b], [], l.drop 3⟩
      else if [b, b] <+: l then some ⟨[], [b, b], [], l.drop 2⟩ else none := by
  cases l with
  | nil => rfl
  | cons a l =>
    simp only [Pattern.exec, escapedPair, Regex.readings, List.flatMap_append, List.flatMap_cons,
      List.flatMap_nil, List.append_nil, Regex.readings_literal]
    by_cases ha : a = esc
    · subst ha
      have hpair : ¬[b, b] <+: a :: l := fun h => hne (List.cons_prefix_cons.mp h).1.symm
      have hesc : [a, b, b] <+: a :: l ↔ [b, b] <+: l := by simp [List.cons_prefix_cons]
      simp only [if_true, if_neg hpair, hesc, List.flatMap_nil, List.append_nil, List.flatMap_cons]
      split <;> rfl
    · have hesc : ¬[esc, b, b] <+: a :: l := fun h => ha (List.cons_prefix_cons.mp h).1.symm
      simp only [if_neg ha, if_neg hesc, List.flatMap_nil, List.nil_append]
      split <;> rfl

/-- The escape before a pair is taken with it. -/
theorem search_escapedPair {esc b : α} (hne : esc ≠ b) (l : List α) :
    (escapedPair esc b).search l =
      (findPair b l).map fun x =>
        if x.1.getLast? = some esc then (x.1.dropLast, ⟨[esc], [b, b], [], x.2⟩)
        else (x.1, ⟨[], [b, b], [], x.2⟩) := by
  fun_induction findPair b l with
  | case1 => rfl
  | case2 a => simp [Pattern.search, exec_escapedPair hne, List.cons_prefix_cons]
  | case3 a a' l hpair =>
    have hnot : ¬[esc, b, b] <+: a :: a' :: l := fun h =>
      hne ((List.cons_prefix_cons.mp h).1.trans hpair.1)
    rw [Pattern.search, exec_escapedPair hne, if_neg hnot, if_pos (pair_prefix_iff.mpr hpair)]
    rfl
  | case4 a a' l hpair ih =>
    rw [Pattern.search, exec_escapedPair hne, if_neg (mt pair_prefix_iff.mp hpair), ih]
    by_cases hesc : [esc, b, b] <+: a :: a' :: l
    · have hcons := List.cons_prefix_cons.mp hesc
      obtain rfl : esc = a := hcons.1
      obtain ⟨rest, hrest⟩ := hcons.2
      have hfind : findPair b (a' :: l) = some ([], rest) := by
        rw [← hrest]
        simp [findPair]
      have hdrop : (esc :: a' :: l).drop 3 = rest := by
        rw [← hrest]
        rfl
      rw [if_pos hesc, hfind, hdrop]
      simp
    · rw [if_neg hesc, Option.map_map, Option.map_map]
      cases hfind : findPair b (a' :: l) with
      | none => rfl
      | some x =>
        have hl := append_of_findPair hfind
        -- the escape in question is not the element before the rest
        cases hx : x.1 with
        | nil =>
          have ha : a ≠ esc := by
            rintro rfl
            rw [hx, List.nil_append] at hl
            exact hesc (hl ▸ List.prefix_append [a, b, b] x.2)
          simp [hx, ha]
        | cons c cs =>
          simp only [Option.map_some, Function.comp, hx, List.getLast?_cons_cons]
          split <;> rfl

/-- An escape with a pair after it is found where the first pair stands. -/
theorem search_escape_pair {esc b : α} {before rest : List α}
    (h : findPair b l = some (before ++ [esc], rest)) :
    (Pattern.literal [esc, b, b]).search l = some (before, ⟨[], [esc, b, b], [], rest⟩) := by
  induction before generalizing l with
  | nil =>
    have hl : l = esc :: b :: b :: rest := (append_of_findPair h).symm
    rw [hl, Pattern.search, Pattern.exec_literal, if_pos ⟨rest, rfl⟩]
    rfl
  | cons a before ih =>
    have hl := append_of_findPair h
    cases l with
    | nil => cases h
    | cons a' l =>
      obtain rfl : a = a' := (List.cons.inj hl).1
      have htail : before ++ [esc] ++ b :: b :: rest = l := (List.cons.inj hl).2
      cases l with
      | nil => simp at htail
      | cons c l =>
        have hpair : ¬(a = b ∧ c = b) := by
          intro hpair
          rw [findPair, if_pos hpair] at h
          cases h
        rw [findPair, if_neg hpair] at h
        obtain ⟨x, hx, heq⟩ := Option.map_eq_some_iff.mp h
        obtain ⟨hbefore, hrest⟩ := Prod.mk.inj heq
        have hx' : x = (before ++ [esc], rest) := Prod.ext (List.cons.inj hbefore).2 hrest
        rw [hx'] at hx
        have hnot : ¬[esc, b, b] <+: a :: c :: l := by
          intro hpre
          obtain ⟨more, hmore⟩ := (List.cons_prefix_cons.mp hpre).2
          have hnil : findPair b (c :: l) = some ([], more) := by
            rw [← hmore]
            simp [findPair]
          rw [hnil] at hx
          simp at hx
        rw [Pattern.search, Pattern.exec_literal, if_neg hnot, ih hx]
        rfl

theorem search_escape_pair_of_none {esc b : α} (h : findPair b l = none) :
    (Pattern.literal [esc, b, b]).search l = none := by
  induction l with
  | nil => rfl
  | cons a l ih =>
    have hnot : ¬[esc, b, b] <+: a :: l := by
      rintro ⟨more, hmore⟩
      obtain ⟨x, hx⟩ := exists_findPair b [esc] more
      have hsame : [esc] ++ b :: b :: more = a :: l := hmore
      rw [hsame, h] at hx
      cases hx
    have htail : findPair b l = none := by
      cases hl : findPair b l with
      | none => rfl
      | some x =>
        have heq := append_of_findPair hl
        obtain ⟨y, hy⟩ := exists_findPair b (a :: x.1) x.2
        rw [List.cons_append, heq, h] at hy
        cases hy
    rw [Pattern.search, Pattern.exec_literal, if_neg hnot, ih htail]
    rfl

/-! ## Parts -/

/-- How a part ends. -/
inductive PartEnd where
  /-- At the bracket that was looked for. -/
  | bracket
  /-- At the end, where that bracket is missing. -/
  | missing
  /-- At the end, directly after the last bracket that was found. -/
  | cut
  deriving DecidableEq, Repr

structure BracketPart (α : Type) where
  inside : Bool
  text : List α
  ending : PartEnd
  deriving DecidableEq, Repr

namespace BracketPart

/-- What the part was made from, with the bracket before it if it stands inside and with the
bracket after it. -/
def source (b : Bool → α) (part : BracketPart α) : List α :=
  (if part.inside then [b false, b false] else []) ++ part.text ++
    if part.inside && part.ending = .bracket then [b true, b true] else []

end BracketPart

/-- The parts of `l`, after `text` of the first of them; `n` bounds their number. -/
def bracketPartsFrom (escapes : ℕ → Bool) (esc : α) (b : Bool → α) :
    ℕ → Bool → List α → List α → List (BracketPart α)
  | 0, inside, text, _ => [⟨inside, text, .cut⟩]
  | n + 1, inside, text, l =>
    if l = [] then [⟨inside, text, .cut⟩]
    else
      match findPair (b inside) l with
      | none => [⟨inside, text ++ l, .missing⟩]
      | some (before, rest) =>
        if escapes (escapeRun esc before) then
          bracketPartsFrom escapes esc b n inside (text ++ (before ++ [b inside, b inside])) rest
        else
          ⟨inside, text ++ before, .bracket⟩ :: bracketPartsFrom escapes esc b n (!inside) [] rest

def bracketParts (escapes : ℕ → Bool) (esc : α) (b : Bool → α) (l : List α) :
    List (BracketPart α) :=
  bracketPartsFrom escapes esc b l.length false [] l

variable {escapes : ℕ → Bool} {esc : α} {b : Bool → α} {text : List α}

/-- The parts make up the list. -/
theorem flatMap_source_bracketPartsFrom {n : ℕ} {inside : Bool} (hn : l.length ≤ n) :
    (bracketPartsFrom escapes esc b n inside text l).flatMap (·.source b) =
      (if inside then [b false, b false] else []) ++ text ++ l := by
  induction n generalizing inside text l with
  | zero =>
    obtain rfl := List.length_eq_zero_iff.mp (Nat.le_zero.mp hn)
    simp [bracketPartsFrom, BracketPart.source]
  | succ n ih =>
    rw [bracketPartsFrom]
    split
    · rename_i hl
      simp [BracketPart.source, hl]
    split
    · simp [BracketPart.source]
    · rename_i before rest hfind
      have hl := append_of_findPair hfind
      have hrest : rest.length ≤ n := by
        have := length_lt_of_append hl
        omega
      split
      · rw [ih hrest, ← hl]
        simp
      · rw [List.flatMap_cons, ih hrest, ← hl]
        cases inside <;> simp [BracketPart.source]

theorem flatMap_source_bracketParts (l : List α) :
    (bracketParts escapes esc b l).flatMap (·.source b) = l := by
  rw [bracketParts, flatMap_source_bracketPartsFrom (Nat.le_refl _)]
  rfl

/-- Every part but the last ends at its bracket, and the last does not. -/
theorem bracketPartsFrom_ends (n : ℕ) (inside : Bool) (text l : List α) :
    ∃ parts last, bracketPartsFrom escapes esc b n inside text l = parts ++ [last] ∧
      (∀ part ∈ parts, part.ending = .bracket) ∧ last.ending ≠ .bracket := by
  induction n generalizing inside text l with
  | zero => exact ⟨[], _, rfl, by simp, by simp⟩
  | succ n ih =>
    rw [bracketPartsFrom]
    split
    · exact ⟨[], _, rfl, by simp, by simp⟩
    split
    · exact ⟨[], _, rfl, by simp, by simp⟩
    split
    · exact ih ..
    · rename_i before rest hfind hescapes
      obtain ⟨parts, last, heq, hparts, hlast⟩ := ih (!inside) [] rest
      refine ⟨⟨inside, text ++ before, .bracket⟩ :: parts, last, by rw [heq]; rfl, ?_, hlast⟩
      simpa using hparts

/-- The parts are outside and inside in turn. -/
theorem bracketPartsFrom_alternate (n : ℕ) (inside : Bool) (text l : List α) :
    (bracketPartsFrom escapes esc b n inside text l).head?.map (·.inside) = some inside ∧
      (bracketPartsFrom escapes esc b n inside text l).IsChain fun x y => y.inside = !x.inside := by
  induction n generalizing inside text l with
  | zero => exact ⟨rfl, .singleton _⟩
  | succ n ih =>
    rw [bracketPartsFrom]
    split
    · exact ⟨rfl, .singleton _⟩
    split
    · exact ⟨rfl, .singleton _⟩
    split
    · exact ih ..
    · rename_i before rest hfind hescapes
      obtain ⟨hhead, hchain⟩ := ih (!inside) [] rest
      refine ⟨rfl, ?_⟩
      cases hparts : bracketPartsFrom escapes esc b n (!inside) [] rest with
      | nil => exact .singleton _
      | cons part parts =>
        rw [hparts] at hhead hchain
        exact .cons_cons (Option.some.inj hhead) hchain

/-- The first pair of a list, if it has one, stands after an escape. -/
def FirstPairEscaped (esc b : α) (l : List α) : Prop :=
  ∀ x, findPair b l = some x → ∃ before, x.1 = before ++ [esc]

/-- A part that has been begun : empty, or with an escaped pair. -/
def PartBegun (esc b : α) (text : List α) : Prop :=
  text = [] ∨ ∃ before rest, findPair b text = some (before ++ [esc], rest)

theorem PartBegun.firstPairEscaped {esc b : α} {more : List α} (h : PartBegun esc b text)
    (hmore : text = [] → findPair b more = none) : FirstPairEscaped esc b (text ++ more) := by
  intro x hx
  rcases h with rfl | ⟨before, rest, htext⟩
  · rw [List.nil_append, hmore rfl] at hx
    cases hx
  · rw [findPair_append_right htext] at hx
    cases hx
    exact ⟨before, rfl⟩

theorem PartBegun.append {esc b : α} {before rest : List α} (h : PartBegun esc b text)
    (hfind : findPair b l = some (before ++ [esc], rest)) :
    PartBegun esc b (text ++ (before ++ [esc] ++ [b, b])) := by
  rcases h with rfl | ⟨before', rest', htext⟩
  · exact .inr ⟨before, [], findPair_append hfind []⟩
  · exact .inr ⟨before', _, findPair_append_right htext _⟩

/-- Where every pair that does not count is escaped, a part has no other pair first. -/
theorem bracketPartsFrom_firstPairEscaped (hescapes : ∀ k, escapes k = true → 0 < k) (n : ℕ)
    (inside : Bool) (l : List α) (htext : PartBegun esc (b inside) text) :
    ∀ part ∈ bracketPartsFrom escapes esc b n inside text l,
      FirstPairEscaped esc (b part.inside) part.text := by
  induction n generalizing inside text l with
  | zero =>
    intro part hpart
    obtain rfl := List.mem_singleton.mp hpart
    simpa using htext.firstPairEscaped fun _ => (rfl : findPair (b inside) [] = none)
  | succ n ih =>
    rw [bracketPartsFrom]
    split
    · intro part hpart
      obtain rfl := List.mem_singleton.mp hpart
      simpa using htext.firstPairEscaped fun _ => (rfl : findPair (b inside) [] = none)
    split
    · rename_i hnone
      intro part hpart
      obtain rfl := List.mem_singleton.mp hpart
      exact htext.firstPairEscaped fun _ => hnone
    · rename_i before rest hfind
      split
      · rename_i hescaped
        obtain ⟨before', rfl⟩ := escapeRun_pos_iff.mp (hescapes _ hescaped)
        exact ih inside rest (htext.append hfind)
      · intro part hpart
        rcases List.mem_cons.mp hpart with rfl | hpart
        · exact htext.firstPairEscaped fun _ => findPair_before hfind
        · exact ih (!inside) rest (.inl rfl) part hpart

/-- What is cut off at the end is empty or has an escaped pair. -/
theorem bracketPartsFrom_cut (hescapes : ∀ k, escapes k = true → 0 < k) (n : ℕ) (inside : Bool)
    (hn : l.length ≤ n) (htext : PartBegun esc (b inside) text) :
    ∀ part ∈ bracketPartsFrom escapes esc b n inside text l, part.ending = .cut →
      PartBegun esc (b part.inside) part.text := by
  induction n generalizing inside text l with
  | zero =>
    intro part hpart _
    obtain rfl := List.mem_singleton.mp hpart
    exact htext
  | succ n ih =>
    rw [bracketPartsFrom]
    split
    · intro part hpart _
      obtain rfl := List.mem_singleton.mp hpart
      exact htext
    split
    · intro part hpart hcut
      obtain rfl := List.mem_singleton.mp hpart
      cases hcut
    · rename_i before rest hfind
      have hrest : rest.length ≤ n := by
        have := length_lt_of_append (append_of_findPair hfind)
        omega
      split
      · rename_i hescaped
        obtain ⟨before', rfl⟩ := escapeRun_pos_iff.mp (hescapes _ hescaped)
        exact ih inside hrest (htext.append hfind)
      · intro part hpart hcut
        rcases List.mem_cons.mp hpart with rfl | hpart
        · cases hcut
        · exact ih (!inside) hrest (.inl rfl) part hpart hcut

/-- Where every pair that is looked for is escaped, there is one part. -/
theorem bracketPartsFrom_of_escaped {n : ℕ} {inside : Bool}
    (hb : b inside ≠ esc) (hn : l.length ≤ n)
    (htext : text = [] ∨ ∃ before, text = before ++ [b inside])
    (h : ∀ before rest, text ++ l = before ++ b inside :: b inside :: rest →
      escapes (escapeRun esc before) = true) :
    ∃ ending, ending ≠ .bracket ∧
      bracketPartsFrom escapes esc b n inside text l = [⟨inside, text ++ l, ending⟩] := by
  induction n generalizing text l with
  | zero =>
    obtain rfl := List.length_eq_zero_iff.mp (Nat.le_zero.mp hn)
    exact ⟨.cut, by decide, by rw [List.append_nil]; rfl⟩
  | succ n ih =>
    rw [bracketPartsFrom]
    split
    · rename_i hl
      exact ⟨.cut, by decide, by rw [hl, List.append_nil]⟩
    split
    · exact ⟨.missing, by decide, rfl⟩
    · rename_i before rest hfind
      have hl := append_of_findPair hfind
      have hrest : rest.length ≤ n := by
        have := length_lt_of_append hl
        omega
      have hrun : escapeRun esc (text ++ before) = escapeRun esc before := by
        rcases htext with rfl | ⟨text', rfl⟩
        · rfl
        · rw [List.append_assoc, List.singleton_append, escapeRun_append_cons hb]
      have hescaped : escapes (escapeRun esc before) = true := by
        rw [← hrun]
        exact h (text ++ before) rest (by rw [← hl]; simp)
      have hsame : text ++ (before ++ [b inside, b inside]) ++ rest = text ++ l := by
        rw [← hl]
        simp
      obtain ⟨ending, hending, hparts⟩ := ih hrest
        (.inr ⟨text ++ (before ++ [b inside]), by simp⟩) fun before' rest' heq =>
          h before' rest' (hsame.symm.trans heq)
      rw [if_pos hescaped]
      exact ⟨ending, hending, hsame ▸ hparts⟩

end Lib
