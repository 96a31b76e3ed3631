import N8n.Lib.Brackets
import Mathlib.Data.List.Induction

/-!
# Reading brackets one element at a time

`BracketScan.read` reads the parts inside brackets one element at a time. It reads what
`bracketParts` cuts out (`read_start`), and two readings that disagree on which pairs count can
be followed side by side, even where one is inside and the other is not.

Where fewer pairs are escaped, no fewer parts are read (`InStep.length_read_le`). A reading that
is inside when the other is not reads something else, unless it reads nothing
(`read_ne_of_inside`), and so does one that ends a part where the other goes on
(`trimmed_ne_of_bracket`).
-/

set_option linter.unusedSectionVars false

namespace Lib

variable {α : Type} [DecidableEq α]

structure BracketScan (α : Type) where
  inside : Bool
  /-- How many escapes have just been read. -/
  run : ℕ
  /-- The first half of a pair has just been read, after so many escapes. -/
  half : Option ℕ
  text : List α
  /-- Nothing has been read since the last pair. -/
  fresh : Bool

namespace BracketScan

def start (inside : Bool) (text : List α) : BracketScan α := ⟨inside, 0, none, text, true⟩

/-- Read an element that is no half of a pair. -/
def pass (esc : α) (s : BracketScan α) (a : α) : BracketScan α :=
  ⟨s.inside, if a = esc then s.run + 1 else 0, none, s.text ++ [a], false⟩

/-- Read the first half of a pair. -/
def halve (s : BracketScan α) (a : α) : BracketScan α :=
  ⟨s.inside, 0, some s.run, s.text ++ [a], false⟩

/-- Read the second half of a pair that does not count. -/
def keep (s : BracketScan α) (a : α) : BracketScan α := ⟨s.inside, 0, none, s.text ++ [a], true⟩

/-- The parts inside that are read, each with whether it ends at its bracket. -/
def read (escapes : ℕ → Bool) (esc : α) (b : Bool → α) :
    BracketScan α → List α → List (List α × Bool)
  | s, [] => if s.inside && !s.fresh then [(s.text, false)] else []
  | s, a :: l =>
    if a = b s.inside then
      match s.half with
      | none => read escapes esc b (s.halve a) l
      | some k =>
        if escapes k then read escapes esc b (s.keep a) l
        else (if s.inside then [(s.text.dropLast, true)] else []) ++
          read escapes esc b (start (!s.inside) []) l
    else read escapes esc b (s.pass esc a) l

variable {escapes : ℕ → Bool} {esc : α} {b : Bool → α} {s : BracketScan α} {a : α} {l : List α}

theorem read_pass (ha : a ≠ b s.inside) :
    read escapes esc b s (a :: l) = read escapes esc b (s.pass esc a) l := by
  rw [read, if_neg ha]

theorem read_halve (ha : a = b s.inside) (hhalf : s.half = none) :
    read escapes esc b s (a :: l) = read escapes esc b (s.halve a) l := by
  rw [read, if_pos ha, hhalf]

theorem read_keep {k : ℕ} (ha : a = b s.inside) (hhalf : s.half = some k)
    (hescapes : escapes k = true) :
    read escapes esc b s (a :: l) = read escapes esc b (s.keep a) l := by
  simp only [read, if_pos ha, hhalf, hescapes, if_true]

theorem read_bracket {k : ℕ} (ha : a = b s.inside) (hhalf : s.half = some k)
    (hescapes : escapes k = false) :
    read escapes esc b s (a :: l) =
      (if s.inside then [(s.text.dropLast, true)] else []) ++
        read escapes esc b (start (!s.inside) []) l := by
  simp only [read, if_pos ha, hhalf, hescapes, Bool.false_eq_true, if_false]

/-! ## It reads what is cut out -/

/-- Up to the next pair. -/
theorem read_of_findPair_none (h : findPair (b s.inside) l = none)
    (hhead : s.half = none ∨ l.head? ≠ some (b s.inside)) (hl : l ≠ []) :
    read escapes esc b s l = if s.inside then [(s.text ++ l, false)] else [] := by
  induction l generalizing s with
  | nil => exact absurd rfl hl
  | cons a l ih =>
    have htail : findPair (b s.inside) l = none := by
      cases l with
      | nil => rfl
      | cons a' l =>
        rw [findPair] at h
        split at h
        · cases h
        · exact Option.map_eq_none_iff.mp h
    by_cases ha : a = b s.inside
    · have hhalf : s.half = none := hhead.resolve_right fun hne => hne (by rw [List.head?_cons, ha])
      rw [read_halve ha hhalf]
      cases l with
      | nil => cases hinside : s.inside <;> simp [read, halve, hinside]
      | cons a' l =>
        have ha' : a' ≠ b s.inside := by
          intro ha'
          rw [findPair, if_pos ⟨ha, ha'⟩] at h
          cases h
        have := ih (s := s.halve a) htail (.inr fun hh => ha' (Option.some.inj hh)) (by simp)
        rw [this]
        simp [halve]
    · rw [read_pass ha]
      cases l with
      | nil => cases hinside : s.inside <;> simp [read, pass, hinside]
      | cons a' l =>
        have := ih (s := s.pass esc a) htail (.inl rfl) (by simp)
        rw [this]
        simp [pass]

/-- How many escapes stand directly before what follows, if `run` stood before the list. -/
def runAfter (esc : α) (run : ℕ) (l : List α) : ℕ :=
  l.foldl (fun run a => if a = esc then run + 1 else 0) run

theorem runAfter_append_singleton (run : ℕ) (l : List α) (a : α) :
    runAfter esc run (l ++ [a]) = if a = esc then runAfter esc run l + 1 else 0 := by
  rw [runAfter, List.foldl_append]
  rfl

theorem runAfter_zero (l : List α) : runAfter esc 0 l = escapeRun esc l := by
  induction l using List.reverseRecOn with
  | nil => rfl
  | append_singleton l a ih =>
    rw [runAfter_append_singleton, ih, escapeRun, escapeRun, List.reverse_concat,
      List.takeWhile_cons]
    split <;> rename_i ha
    · rw [if_pos (decide_eq_true ha), List.length_cons]
    · rw [if_neg (by simpa using ha), List.length_nil]

theorem read_of_findPair (hb : ∀ inside, b inside ≠ esc) {before rest : List α}
    (h : findPair (b s.inside) l = some (before, rest))
    (hhead : s.half = none ∨ l.head? ≠ some (b s.inside)) :
    read escapes esc b s l =
      if escapes (runAfter esc s.run before) then
        read escapes esc b (start s.inside (s.text ++ (before ++ [b s.inside, b s.inside]))) rest
      else
        (if s.inside then [(s.text ++ before, true)] else []) ++
          read escapes esc b (start (!s.inside) []) rest := by
  induction before generalizing s l with
  | nil =>
    obtain rfl : l = b s.inside :: b s.inside :: rest := (append_of_findPair h).symm
    have hhalf : s.half = none := hhead.resolve_right fun hne => hne rfl
    have hinside : b s.inside = b (s.halve (b s.inside)).inside := rfl
    rw [read_halve rfl hhalf]
    cases hescapes : escapes s.run with
    | true =>
      rw [read_keep hinside rfl hescapes]
      simp [runAfter, hescapes, halve, keep, start]
    | false =>
      rw [read_bracket hinside rfl hescapes]
      simp [runAfter, hescapes, halve, start]
  | cons c before ih =>
    have hl := append_of_findPair h
    cases l with
    | nil => cases h
    | cons a l =>
      obtain rfl : c = a := (List.cons.inj hl).1
      have htail : before ++ b s.inside :: b s.inside :: rest = l := (List.cons.inj hl).2
      cases l with
      | nil => simp at htail
      | cons a' l =>
        have hpair : ¬(c = b s.inside ∧ a' = b s.inside) := by
          intro hpair
          rw [findPair, if_pos hpair] at h
          cases h
        rw [findPair, if_neg hpair] at h
        obtain ⟨x, hx, heq⟩ := Option.map_eq_some_iff.mp h
        obtain ⟨hbefore, hrest⟩ := Prod.mk.inj heq
        have hx' : x = (before, rest) := Prod.ext (List.cons.inj hbefore).2 hrest
        rw [hx'] at hx
        by_cases ha : c = b s.inside
        · have hhalf : s.half = none :=
            hhead.resolve_right fun hne => hne (by rw [List.head?_cons, ha])
          have ha' : a' ≠ b s.inside := fun ha' => hpair ⟨ha, ha'⟩
          have := ih (s := s.halve c) hx (.inr fun hh => ha' (Option.some.inj hh))
          rw [read_halve ha hhalf, this]
          have hrun : runAfter esc s.run (c :: before) = runAfter esc 0 before := by
            rw [runAfter, List.foldl_cons, if_neg (ha ▸ hb s.inside)]
            rfl
          rw [hrun]
          simp [halve]
        · have := ih (s := s.pass esc c) hx (.inl rfl)
          rw [read_pass ha, this]
          have hrun : runAfter esc s.run (c :: before) =
              runAfter esc (if c = esc then s.run + 1 else 0) before := rfl
          rw [hrun]
          simp [pass]

/-- Up to the next pair, from the start of a part. -/
theorem read_start_of_findPair (hb : ∀ inside, b inside ≠ esc) {inside : Bool}
    {before rest : List α} (text : List α) (h : findPair (b inside) l = some (before, rest)) :
    read escapes esc b (start inside text) l =
      if escapes (escapeRun esc before) then
        read escapes esc b (start inside (text ++ (before ++ [b inside, b inside]))) rest
      else
        (if inside then [(text ++ before, true)] else []) ++
          read escapes esc b (start (!inside) []) rest := by
  rw [← runAfter_zero]
  exact read_of_findPair (s := start inside text) hb h (.inl rfl)

end BracketScan

/-- What stands inside, with whether it ends at its bracket. -/
def BracketPart.inside? (part : BracketPart α) : Option (List α × Bool) :=
  if part.inside ∧ part.ending ≠ .cut then some (part.text, part.ending = .bracket) else none

theorem BracketScan.read_start {escapes : ℕ → Bool} {esc : α} {b : Bool → α}
    (hb : ∀ inside, b inside ≠ esc) {n : ℕ} {inside : Bool} {text l : List α}
    (hn : l.length ≤ n) :
    read escapes esc b (start inside text) l =
      (bracketPartsFrom escapes esc b n inside text l).filterMap BracketPart.inside? := by
  induction n generalizing inside text l with
  | zero =>
    obtain rfl := List.length_eq_zero_iff.mp (Nat.le_zero.mp hn)
    simp [read, start, bracketPartsFrom, BracketPart.inside?]
  | succ n ih =>
    rw [bracketPartsFrom]
    split
    · rename_i hl
      subst hl
      simp [read, start, BracketPart.inside?]
    rename_i hl
    split
    · rename_i hnone
      rw [read_of_findPair_none (s := start inside text) hnone (.inl rfl) hl]
      cases inside <;> simp [start, BracketPart.inside?]
    · rename_i before rest hfind
      have hrest : rest.length ≤ n := by
        have := length_lt_of_append (append_of_findPair hfind)
        omega
      rw [read_start_of_findPair hb text hfind]
      split
      · exact ih hrest
      · rw [ih hrest]
        cases inside <;> simp [BracketPart.inside?]

/-! ## Two readings side by side -/

namespace BracketScan

variable {esc : α} {b : Bool → α} {escapes escapes' : ℕ → Bool} {t w : BracketScan α} {l : List α}

/-- Two readings of the same list : they have read the same escapes, and if both are inside or
both outside the same half of a pair. -/
structure InStep (t w : BracketScan α) : Prop where
  run_eq : t.run = w.run
  half_eq : t.inside = w.inside → t.half = w.half

theorem InStep.pass (h : InStep t w) (esc a : α) : InStep (t.pass esc a) (w.pass esc a) :=
  ⟨by simp [BracketScan.pass, h.run_eq], fun _ => rfl⟩

theorem InStep.halve (h : InStep t w) (a : α) : InStep (t.halve a) (w.halve a) :=
  ⟨rfl, fun _ => by simp [BracketScan.halve, h.run_eq]⟩

theorem InStep.keep_keep (t w : BracketScan α) (a : α) : InStep (t.keep a) (w.keep a) :=
  ⟨rfl, fun _ => rfl⟩

theorem InStep.keep_pass {a : α} (ha : a ≠ esc) : InStep (t.keep a) (w.pass esc a) :=
  ⟨(if_neg ha).symm, fun _ => rfl⟩

theorem InStep.pass_keep {a : α} (ha : a ≠ esc) : InStep (t.pass esc a) (w.keep a) :=
  ⟨if_neg ha, fun _ => rfl⟩

theorem InStep.halve_pass (hinside : t.inside ≠ w.inside) {a : α} (ha : a ≠ esc) :
    InStep (t.halve a) (w.pass esc a) :=
  ⟨(if_neg ha).symm, fun h => absurd h hinside⟩

theorem InStep.pass_halve (hinside : t.inside ≠ w.inside) {a : α} (ha : a ≠ esc) :
    InStep (t.pass esc a) (w.halve a) :=
  ⟨if_neg ha, fun h => absurd h hinside⟩

theorem InStep.start_pass {a : α} (ha : a ≠ esc) (inside : Bool) (text : List α) :
    InStep (start inside text) (w.pass esc a) :=
  ⟨(if_neg ha).symm, fun _ => rfl⟩

theorem InStep.pass_start {a : α} (ha : a ≠ esc) (inside : Bool) (text : List α) :
    InStep (t.pass esc a) (start inside text) :=
  ⟨if_neg ha, fun _ => rfl⟩

theorem InStep.start_keep (a : α) (inside : Bool) (text : List α) :
    InStep (start inside text) (w.keep a) :=
  ⟨rfl, fun _ => rfl⟩

theorem InStep.start_start (inside inside' : Bool) (text text' : List α) :
    InStep (start inside text) (start inside' text') :=
  ⟨rfl, fun _ => rfl⟩

/-- What the second reading may still read more than the first : it is inside, and the first is
outside or at its end. -/
def lead (t w : BracketScan α) (l : List α) : ℕ :=
  if w.inside && (!t.inside || t.fresh && !w.fresh && l.isEmpty) then 1 else 0

theorem lead_of_outside (hw : w.inside = false) : lead t w l = 0 := by
  simp [lead, hw]

theorem lead_of_not_fresh (h : t.inside = w.inside) (ht : t.fresh = false) : lead t w l = 0 := by
  cases hw : w.inside <;> simp [lead, h, hw, ht]

theorem lead_of_fresh (h : t.inside = w.inside) (hw : w.fresh = true) : lead t w l = 0 := by
  cases hinside : w.inside <;> simp [lead, h, hinside, hw]

theorem lead_of_apart (h : t.inside ≠ w.inside) : lead t w l = if w.inside then 1 else 0 := by
  cases ht : t.inside <;> cases hw : w.inside <;> simp_all [lead]

theorem lead_le_one : lead t w l ≤ 1 := by
  unfold lead
  split <;> omega

omit [DecidableEq α] in
theorem bracket_ne (hne : b false ≠ b true) {inside inside' : Bool} (h : inside ≠ inside') :
    b inside ≠ b inside' := by
  cases inside <;> cases inside'
  · exact absurd rfl h
  · exact hne
  · exact hne.symm
  · exact absurd rfl h

omit [DecidableEq α] in
theorem length_part (inside : Bool) (x : List α × Bool) :
    (if inside then [x] else []).length = if inside then 1 else 0 := by
  cases inside <;> rfl

/-- A reading in which fewer pairs are escaped reads no fewer parts. -/
theorem InStep.length_read_le (hb : ∀ inside, b inside ≠ esc) (hne : b false ≠ b true)
    (hescapes : ∀ k, escapes k = true → escapes' k = true) (h : InStep t w) :
    (read escapes' esc b w l).length ≤ (read escapes esc b t l).length + lead t w l := by
  induction l generalizing t w with
  | nil =>
    cases ht : t.inside <;> cases hw : w.inside <;> cases hf : t.fresh <;> cases hf' : w.fresh <;>
      simp [read, lead, ht, hw, hf, hf']
  | cons a l ih =>
    by_cases hsame : t.inside = w.inside
    · by_cases ha : a = b w.inside
      · have ha' : a = b t.inside := by rw [hsame, ha]
        cases hhalf : w.half with
        | none =>
          have hhalf' : t.half = none := (h.half_eq hsame).trans hhalf
          rw [read_halve ha hhalf, read_halve ha' hhalf']
          have := ih (h.halve a)
          rw [lead_of_not_fresh (t := t.halve a) (w := w.halve a) hsame rfl] at this
          omega
        | some k =>
          have hhalf' : t.half = some k := (h.half_eq hsame).trans hhalf
          cases hk : escapes k with
          | true =>
            rw [read_keep ha hhalf (hescapes k hk), read_keep ha' hhalf' hk]
            have := ih (InStep.keep_keep t w a)
            rw [lead_of_fresh (t := t.keep a) (w := w.keep a) hsame rfl] at this
            omega
          | false =>
            rw [read_bracket ha' hhalf' hk, List.length_append]
            cases hk' : escapes' k with
            | true =>
              rw [read_keep ha hhalf hk']
              have := ih (InStep.start_keep (w := w) a (!t.inside) [])
              have hapart : (start (!t.inside) ([] : List α)).inside ≠ (w.keep a).inside := by
                simp [start, keep, hsame]
              have hkeep : (w.keep a).inside = w.inside := rfl
              rw [lead_of_apart hapart, hkeep] at this
              cases hw : w.inside with
              | false =>
                rw [hw, if_neg Bool.false_ne_true] at this
                omega
              | true =>
                have ht : t.inside = true := hsame.trans hw
                rw [hw, if_pos rfl] at this
                rw [ht, if_pos rfl, List.length_singleton]
                rw [ht] at this
                omega
            | false =>
              rw [read_bracket ha hhalf hk', List.length_append, hsame, length_part, length_part]
              have := ih (InStep.start_start (α := α) (!w.inside) (!w.inside) [] [])
              rw [lead_of_fresh rfl rfl] at this
              omega
      · have ha' : a ≠ b t.inside := by rwa [hsame]
        rw [read_pass ha, read_pass ha']
        have := ih (InStep.pass h esc a)
        rw [lead_of_not_fresh (t := t.pass esc a) (w := w.pass esc a) hsame rfl] at this
        omega
    · have hlead : lead t w (a :: l) = if w.inside then 1 else 0 := lead_of_apart hsame
      have hb' : b t.inside ≠ b w.inside := bracket_ne hne hsame
      rw [hlead]
      by_cases ha : a = b t.inside
      · have hesc : a ≠ esc := ha ▸ hb t.inside
        rw [read_pass (ha ▸ hb')]
        cases hhalf : t.half with
        | none =>
          rw [read_halve ha hhalf]
          have := ih (InStep.halve_pass hsame hesc)
          rwa [lead_of_apart (t := t.halve a) (w := w.pass esc a) hsame] at this
        | some k =>
          cases hk : escapes k with
          | true =>
            rw [read_keep ha hhalf hk]
            have := ih (InStep.keep_pass (t := t) (w := w) hesc)
            rwa [lead_of_apart (t := t.keep a) (w := w.pass esc a) hsame] at this
          | false =>
            rw [read_bracket ha hhalf hk, List.length_append]
            have := ih (InStep.start_pass (w := w) hesc (!t.inside) [])
            cases hw : w.inside with
            | false =>
              rw [lead_of_outside (w := w.pass esc a) hw] at this
              omega
            | true =>
              have := lead_le_one (t := start (!t.inside) []) (w := w.pass esc a) (l := l)
              simp only [if_true]
              omega
      · rw [read_pass ha]
        by_cases ha' : a = b w.inside
        · have hesc : a ≠ esc := ha' ▸ hb w.inside
          cases hhalf : w.half with
          | none =>
            rw [read_halve ha' hhalf]
            have := ih (InStep.pass_halve hsame hesc)
            rwa [lead_of_apart (t := t.pass esc a) (w := w.halve a) hsame] at this
          | some k =>
            cases hk : escapes' k with
            | true =>
              rw [read_keep ha' hhalf hk]
              have := ih (InStep.pass_keep (t := t) (w := w) hesc)
              rwa [lead_of_apart (t := t.pass esc a) (w := w.keep a) hsame] at this
            | false =>
              have hinside : t.inside = (start (!w.inside) ([] : List α)).inside := by
                cases ht : t.inside <;> cases hw : w.inside <;> simp_all [start]
              rw [read_bracket ha' hhalf hk, List.length_append, length_part]
              have := ih (InStep.pass_start (t := t) hesc (!w.inside) [])
              rw [lead_of_not_fresh (t := t.pass esc a) hinside rfl] at this
              omega
        · rw [read_pass ha']
          have := ih (InStep.pass h esc a)
          rwa [lead_of_apart (t := t.pass esc a) (w := w.pass esc a) hsame] at this

/-! ## Readings that differ -/

/-- What the state says about the escapes at the end of the text is so. -/
structure Tidy (esc : α) (s : BracketScan α) : Prop where
  run : 0 < s.run ↔ s.text.getLast? = some esc
  half : ∀ k, s.half = some k → s.text ≠ [] ∧ (0 < k ↔ s.text.dropLast.getLast? = some esc)

theorem Tidy.start_nil (inside : Bool) : Tidy esc (start inside ([] : List α)) :=
  ⟨by simp [start], by simp [start]⟩

theorem Tidy.start_pair {a : α} (ha : a ≠ esc) (inside : Bool) (text : List α) :
    Tidy esc (start inside (text ++ [a, a])) :=
  ⟨by simp [start, ha], by simp [start]⟩

theorem Tidy.pass (s : BracketScan α) (a : α) : Tidy esc (s.pass esc a) := by
  refine ⟨?_, by simp [BracketScan.pass]⟩
  simp only [BracketScan.pass, List.getLast?_concat, Option.some.injEq]
  split <;> simp_all

theorem Tidy.halve {s : BracketScan α} (h : Tidy esc s) {a : α} (ha : a ≠ esc) :
    Tidy esc (s.halve a) := by
  refine ⟨by simp [BracketScan.halve, ha], ?_⟩
  rintro k ⟨⟩
  exact ⟨by simp [BracketScan.halve], by simpa [BracketScan.halve] using h.run⟩

theorem Tidy.keep (s : BracketScan α) {a : α} (ha : a ≠ esc) : Tidy esc (s.keep a) :=
  ⟨by simp [BracketScan.keep, ha], by simp [BracketScan.keep]⟩

/-- Where only unescaped pairs count, no part ends with an escape at its bracket. -/
theorem Tidy.getLast?_ne (hb : ∀ inside, b inside ≠ esc) (hescapes : ∀ k, escapes' k = true ↔ 0 < k)
    (h : Tidy esc w) (hw : w.inside = true) :
    ∀ x ∈ (read escapes' esc b w l).head?, x.2 = true → x.1.getLast? ≠ some esc := by
  induction l generalizing w with
  | nil =>
    intro x hx hclosed
    cases hfresh : w.fresh <;> simp [read, hw, hfresh] at hx
    rw [← hx] at hclosed
    cases hclosed
  | cons a l ih =>
    by_cases ha : a = b w.inside
    · have hesc : a ≠ esc := ha ▸ hb w.inside
      cases hhalf : w.half with
      | none =>
        rw [read_halve ha hhalf]
        exact ih (h.halve hesc) hw
      | some k =>
        cases hk : escapes' k with
        | true =>
          rw [read_keep ha hhalf hk]
          exact ih (Tidy.keep w hesc) hw
        | false =>
          intro x hx _ hlast
          rw [read_bracket ha hhalf hk, hw, if_pos rfl] at hx
          obtain rfl : (w.text.dropLast, true) = x := by simpa using hx
          have := (hescapes k).mpr ((h.half k hhalf).2.mpr hlast)
          rw [hk] at this
          cases this
    · rw [read_pass ha]
      exact ih (Tidy.pass w a) hw

/-- A change to a text that takes away at most one element, and not the last. -/
structure Trims (f : List α → List α) : Prop where
  length_le : ∀ l, (f l).length ≤ l.length
  le_length : ∀ l, l.length ≤ (f l).length + 1
  getLast?_eq : ∀ l, (f l).getLast? = l.getLast?

/-- What has been read, with the texts changed. -/
def trimmed (f : List α → List α) (parts : List (List α × Bool)) : List (List α × Bool) :=
  parts.map fun x => (f x.1, x.2)

variable {f : List α → List α}

/-- A part that ends with an escape at its bracket, where the other reading goes on. -/
theorem trimmed_ne_of_bracket (hf : Trims f) (hb : ∀ inside, b inside ≠ esc)
    (hescapes : ∀ k, escapes' k = true ↔ 0 < k) (h : Tidy esc w) (hw : w.inside = true)
    {text : List α} (htext : text.getLast? = some esc) (rest : List (List α × Bool)) :
    trimmed f ((text, true) :: rest) ≠ trimmed f (read escapes' esc b w l) := by
  intro heq
  cases hread : read escapes' esc b w l with
  | nil =>
    rw [hread] at heq
    cases heq
  | cons x rest' =>
    rw [hread] at heq
    obtain ⟨htext', hclosed⟩ := Prod.mk.inj (List.cons.inj heq).1
    refine h.getLast?_ne hb hescapes hw x (by rw [hread]; rfl) hclosed.symm ?_
    rw [← hf.getLast?_eq, ← htext', hf.getLast?_eq, htext]

/-- Texts whose lengths differ by two at least are still different. -/
theorem Trims.ne (hf : Trims f) {text more : List α} (hmore : 2 ≤ more.length) :
    f (more ++ text) ≠ f text := by
  intro heq
  have := congrArg List.length heq
  have := hf.le_length (more ++ text)
  have := hf.length_le text
  simp only [List.length_append] at *
  omega

/-- Both readings are inside, but the first has been so for longer. -/
theorem read_ne_of_longer (hf : Trims f) (hb : ∀ inside, b inside ≠ esc)
    (hescapes : ∀ k, escapes k = true → escapes' k = true)
    (hescapes' : ∀ k, escapes' k = true ↔ 0 < k) (h : InStep t w) (ht : Tidy esc t)
    (hw : Tidy esc w) (hinside : t.inside = true) (hinside' : w.inside = true) (more : List α)
    (hmore : 2 ≤ more.length) (htext : t.text = more ++ w.text)
    (hread : read escapes esc b t l ≠ []) :
    trimmed f (read escapes esc b t l) ≠ trimmed f (read escapes' esc b w l) := by
  have hsame : t.inside = w.inside := hinside.trans hinside'.symm
  induction l generalizing t w with
  | nil =>
    intro heq
    cases hfresh : t.fresh with
    | true => simp [read, hfresh] at hread
    | false =>
      cases hfresh' : w.fresh with
      | true => simp [read, trimmed, hinside, hinside', hfresh, hfresh'] at heq
      | false =>
        simp [read, trimmed, hinside, hinside', hfresh, hfresh', htext] at heq
        exact hf.ne hmore heq
  | cons a l ih =>
    by_cases ha : a = b w.inside
    · have ha' : a = b t.inside := by rw [hsame, ha]
      have hesc : a ≠ esc := ha ▸ hb w.inside
      cases hhalf : w.half with
      | none =>
        have hhalf' : t.half = none := (h.half_eq hsame).trans hhalf
        rw [read_halve ha' hhalf'] at hread ⊢
        rw [read_halve ha hhalf]
        exact ih (h.halve a) (ht.halve hesc) (hw.halve hesc) hinside hinside'
          (by simp [BracketScan.halve, htext]) hread hsame
      | some k =>
        have hhalf' : t.half = some k := (h.half_eq hsame).trans hhalf
        cases hk : escapes k with
        | true =>
          rw [read_keep ha' hhalf' hk] at hread ⊢
          rw [read_keep ha hhalf (hescapes k hk)]
          exact ih (.keep_keep t w a) (Tidy.keep t hesc) (Tidy.keep w hesc) hinside hinside'
            (by simp [BracketScan.keep, htext]) hread hsame
        | false =>
          rw [read_bracket ha' hhalf' hk, hinside, if_pos rfl]
          cases hk' : escapes' k with
          | true =>
            rw [read_keep ha hhalf hk']
            have hlast := (ht.half k hhalf').2.mp ((hescapes' k).mp hk')
            exact trimmed_ne_of_bracket hf hb hescapes' (Tidy.keep w hesc) hinside' hlast _
          | false =>
            rw [read_bracket ha hhalf hk', hinside', if_pos rfl]
            intro heq
            have hne := (hw.half k hhalf).1
            rw [htext, List.dropLast_append_of_ne_nil hne] at heq
            exact hf.ne hmore (Prod.mk.inj (List.cons.inj heq).1).1
    · have ha' : a ≠ b t.inside := by rwa [hsame]
      rw [read_pass ha'] at hread ⊢
      rw [read_pass ha]
      exact ih (h.pass esc a) (Tidy.pass t a) (Tidy.pass w a) hinside hinside'
        (by simp [BracketScan.pass, htext]) hread hsame

/-- The first reading is inside, the second is not yet. -/
theorem read_ne_of_inside (hf : Trims f) (hb : ∀ inside, b inside ≠ esc) (hne : b false ≠ b true)
    (hescapes : ∀ k, escapes k = true → escapes' k = true)
    (hescapes' : ∀ k, escapes' k = true ↔ 0 < k) (h : InStep t w) (ht : Tidy esc t)
    (hinside : t.inside = true) (hinside' : w.inside = false) (hhalf : w.half ≠ none → t.text ≠ [])
    (hread : read escapes esc b t l ≠ []) :
    trimmed f (read escapes esc b t l) ≠ trimmed f (read escapes' esc b w l) := by
  have hapart : t.inside ≠ w.inside := by simp [hinside, hinside']
  induction l generalizing t w with
  | nil =>
    intro heq
    cases hfresh : t.fresh with
    | true => simp [read, hfresh] at hread
    | false => simp [read, trimmed, hinside, hinside', hfresh] at heq
  | cons a l ih =>
    by_cases ha : a = b t.inside
    · have hesc : a ≠ esc := ha ▸ hb t.inside
      rw [read_pass (s := w) (ha ▸ bracket_ne hne hapart)]
      have hnone : (w.pass esc a).half ≠ none → (t.text ++ [a]) ≠ [] := fun _ => by simp
      cases hhalf' : t.half with
      | none =>
        rw [read_halve ha hhalf'] at hread ⊢
        exact ih (.halve_pass hapart hesc) (ht.halve hesc) hinside hinside' hnone hread hapart
      | some k =>
        cases hk : escapes k with
        | true =>
          rw [read_keep ha hhalf' hk] at hread ⊢
          exact ih (.keep_pass hesc) (Tidy.keep t hesc) hinside hinside' hnone hread hapart
        | false =>
          -- the first reading ends a part, and from here on it reads no fewer than the second
          intro heq
          have hlength := congrArg List.length heq
          have hle := InStep.length_read_le (l := l) hb hne hescapes
            (InStep.start_pass (w := w) hesc (!t.inside) [])
          rw [lead_of_outside (w := w.pass esc a) hinside'] at hle
          rw [read_bracket ha hhalf' hk, hinside, if_pos rfl] at hlength
          rw [hinside] at hle
          simp only [trimmed, List.length_map, List.length_append, List.length_singleton] at hlength
          omega
    · rw [read_pass ha] at hread ⊢
      by_cases ha' : a = b w.inside
      · have hesc : a ≠ esc := ha' ▸ hb w.inside
        cases hhalf' : w.half with
        | none =>
          rw [read_halve ha' hhalf']
          exact ih (.pass_halve hapart hesc) (Tidy.pass t a) hinside hinside'
            (fun _ => by simp [BracketScan.pass]) hread hapart
        | some k =>
          cases hk : escapes' k with
          | true =>
            rw [read_keep ha' hhalf' hk]
            exact ih (.pass_keep hesc) (Tidy.pass t a) hinside hinside'
              (fun _ => by simp [BracketScan.pass]) hread hapart
          | false =>
            rw [read_bracket ha' hhalf' hk, hinside']
            have hpos : 0 < t.text.length :=
              List.length_pos_iff.mpr (hhalf (by rw [hhalf']; simp))
            exact read_ne_of_longer hf hb hescapes hescapes' (.pass_start hesc true []) (Tidy.pass t a)
              (Tidy.start_nil true) hinside rfl (t.text ++ [a])
              (by rw [List.length_append, List.length_singleton]; omega)
              (by simp [BracketScan.pass, start]) hread
      · rw [read_pass ha']
        exact ih (h.pass esc a) (Tidy.pass t a) hinside hinside'
          (fun _ => by simp [BracketScan.pass]) hread hapart

end BracketScan

end Lib
