import N8n.Lib.BracketScan

/-!
# Where a bracketed text ends

`PairEnd esc b l t rest` says that `l` is read up to the first `b b` that has no `esc` directly
before it, counting from the last pair that was read. The text that is read does not end so that
this pair would be escaped (`PairEnd.not_endsEscaped`), and every pair inside of it is escaped or
begins with the second half of one that is (`PairEnd.endsEscaped`).

`BracketScan.read` reads the inside of brackets in this way (`BracketScan.read_inside_cases`).
-/

namespace Lib

variable {α : Type} [DecidableEq α] {esc b : α} {l t rest : List α}

/-- The text `t` of `l` ends at a pair that is not escaped, and behind this pair stands `rest`. -/
inductive PairEnd (esc b : α) : List α → List α → List α → Prop
  | found {l t rest : List α} : findPair b l = some (t, rest) → t.getLast? ≠ some esc →
      PairEnd esc b l t rest
  | escaped {l before l' t rest : List α} : findPair b l = some (before, l') →
      before.getLast? = some esc → PairEnd esc b l' t rest →
      PairEnd esc b l (before ++ b :: b :: t) rest

theorem PairEnd.append (h : PairEnd esc b l t rest) : t ++ b :: b :: rest = l := by
  induction h with
  | found hfind _ => exact append_of_findPair hfind
  | escaped hfind _ _ ih =>
    rw [← append_of_findPair hfind, ← ih]
    simp

/-- What stands before a pair does not end with the first half of one. -/
theorem getLast?_of_findPair {before : List α} (h : findPair b l = some (before, rest)) :
    before.getLast? ≠ some b := by
  intro hlast
  obtain ⟨early, rfl⟩ := List.getLast?_eq_some_iff.mp hlast
  have hearly : findPair b early = none :=
    findPair_eq_none_of_prefix (List.prefix_append early [b]) (findPair_before h)
  have hsame : early ++ b :: b :: b :: rest = l := by
    rw [← append_of_findPair h]
    simp
  rcases findPair_after hearly (b :: rest) with ⟨before', rfl, hfind⟩ | ⟨-, hfind⟩
  · rw [hsame, h] at hfind
    have := congrArg (fun x => (Option.getD x ([], [])).1.length) hfind
    simp at this
  · rw [hsame, h] at hfind
    have := congrArg (fun x => (Option.getD x ([], [])).1.length) hfind
    simp at this

/-- The first pair stands no later than any other. -/
theorem length_le_of_findPair {x y before : List α}
    (h : findPair b (x ++ b :: b :: y) = some (before, rest)) : before.length ≤ x.length := by
  induction x generalizing before with
  | nil =>
    have hfirst : findPair b (b :: b :: y) = some ([], y) := by simp [findPair]
    rw [List.nil_append, hfirst] at h
    cases h
    exact Nat.le_refl _
  | cons a x ih =>
    obtain ⟨z, hz⟩ := exists_findPair b x y
    cases hx : x ++ b :: b :: y with
    | nil => simp at hx
    | cons a' l =>
      rw [hx] at hz
      rw [List.cons_append, hx, findPair] at h
      split at h
      · cases h
        exact Nat.zero_le _
      · rw [hz] at h
        cases h
        exact Nat.succ_le_succ (ih (by rw [hx, hz]))

omit [DecidableEq α] in
/-- Only the end of a list matters for a short suffix. -/
theorem suffix_append_iff_of_le {s m : List α} (h : s.length ≤ m.length) (x : List α) :
    s <:+ x ++ m ↔ s <:+ m :=
  ⟨fun hs => List.suffix_of_suffix_length_le hs (List.suffix_append x m) h,
    fun hs => hs.trans (List.suffix_append x m)⟩

/-- Behind an escape, or behind an escape and a single `b`. -/
def EndsEscaped (esc b : α) (l : List α) : Prop := [esc] <:+ l ∨ [esc, b] <:+ l

omit [DecidableEq α] in
theorem EndsEscaped.append {l : List α} (h : EndsEscaped esc b l) (x : List α) :
    EndsEscaped esc b (x ++ l) :=
  h.imp (fun h => h.trans (List.suffix_append x l)) fun h => h.trans (List.suffix_append x l)

omit [DecidableEq α] in
/-- Behind a pair only what follows it matters. -/
theorem endsEscaped_append_pair (hne : esc ≠ b) (x q : List α) :
    EndsEscaped esc b (x ++ b :: b :: q) ↔ EndsEscaped esc b q := by
  rw [EndsEscaped, suffix_append_iff_of_le (by simp), suffix_append_iff_of_le (by simp)]
  have hone : [esc] <:+ b :: b :: q ↔ [esc] <:+ q := by
    simp [List.suffix_cons_iff, hne]
  have htwo : [esc, b] <:+ b :: b :: q ↔ [esc, b] <:+ q := by
    simp [List.suffix_cons_iff, hne]
  rw [hone, htwo, EndsEscaped]

/-- A text that is read does not end so that the pair behind it would be escaped. -/
theorem PairEnd.not_endsEscaped (hne : esc ≠ b) (h : PairEnd esc b l t rest) :
    ¬EndsEscaped esc b t := by
  induction h with
  | found hfind hesc =>
    rintro (⟨before, rfl⟩ | ⟨before, rfl⟩)
    · exact hesc List.getLast?_concat
    · refine getLast?_of_findPair hfind ?_
      rw [List.getLast?_append]
      rfl
  | escaped _ _ _ ih =>
    rwa [endsEscaped_append_pair hne]

/-- A pair inside of a text that is read is escaped, or its first half belongs to such a pair. -/
theorem PairEnd.endsEscaped (h : PairEnd esc b l t rest) {x y : List α}
    (hl : l = x ++ b :: b :: y) (hlt : x.length < t.length) : EndsEscaped esc b x := by
  induction h generalizing x with
  | found hfind _ =>
    exact absurd hlt (Nat.not_lt.mpr (length_le_of_findPair (hl ▸ hfind)))
  | @escaped l before l' t rest hfind hesc _ ih =>
    obtain ⟨early, rfl⟩ := List.getLast?_eq_some_iff.mp hesc
    have hle := length_le_of_findPair (hl ▸ hfind)
    have hsame : early ++ [esc] ++ b :: b :: l' = x ++ b :: b :: y :=
      (append_of_findPair hfind).trans hl
    -- the pair is the escaped one, or begins in it, or stands behind it
    obtain ⟨z, rfl, hz⟩ : ∃ z, x = early ++ [esc] ++ z ∧ b :: b :: l' = z ++ b :: b :: y := by
      rcases List.append_eq_append_iff.mp hsame with ⟨z, hx, hz⟩ | ⟨z, hx, hz⟩
      · exact ⟨z, hx, hz⟩
      · have hnil : z = [] := by
          have := congrArg List.length hx
          simp only [List.length_append] at this hle
          exact List.length_eq_zero_iff.mp (by omega)
        subst hnil
        exact ⟨[], by simpa using hx.symm, by simpa using hz.symm⟩
    match z, hz with
    | [], _ => exact .inl ⟨early, by simp⟩
    | [c], hz =>
      have hc : b = c := (List.cons.inj hz).1
      exact .inr ⟨early, by simp [hc]⟩
    | c :: c' :: z, hz =>
      obtain ⟨hc, htail⟩ := List.cons.inj hz
      obtain ⟨hc', htail⟩ := List.cons.inj htail
      have hlt' : z.length < t.length := by
        simp only [List.length_append, List.length_cons] at hlt
        omega
      have hends := (ih htail hlt').append (early ++ [esc] ++ [c, c'])
      simpa using hends

/-- A text that is read has no pair, or its first pair is escaped. -/
theorem PairEnd.firstPairEscaped (h : PairEnd esc b l t rest) : FirstPairEscaped esc b t := by
  cases h with
  | found hfind _ =>
    intro x hx
    rw [findPair_before hfind] at hx
    cases hx
  | escaped hfind hesc _ =>
    intro x hx
    rw [findPair_append hfind] at hx
    cases hx
    exact List.getLast?_eq_some_iff.mp hesc

/-! ## Reading the inside of brackets -/

namespace BracketScan

variable {escapes : ℕ → Bool} {b : Bool → α}

theorem escapes_escapeRun_iff (hescapes : ∀ k, escapes k = true ↔ 0 < k) (l : List α) :
    escapes (escapeRun esc l) = true ↔ l.getLast? = some esc := by
  rw [hescapes, escapeRun_pos_iff, List.getLast?_eq_some_iff]

section

variable (hb : ∀ inside, b inside ≠ esc) (hescapes : ∀ k, escapes k = true ↔ 0 < k)
include hb hescapes

/-- The inside is read up to its end, or nothing is read, or all that is left. -/
theorem read_inside_cases (text l : List α) :
    (∃ t rest, PairEnd esc (b true) l t rest ∧ read escapes esc b (start true text) l =
        (text ++ t, true) :: read escapes esc b (start false []) rest) ∨
      read escapes esc b (start true text) l = [] ∨
      FirstPairEscaped esc (b true) l ∧
        read escapes esc b (start true text) l = [(text ++ l, false)] := by
  induction hn : l.length using Nat.strongRecOn generalizing l text with
  | _ n ih =>
    cases hfind : findPair (b true) l with
    | none =>
      by_cases hl : l = []
      · subst hl
        exact .inr (.inl (by simp [read, start]))
      · refine .inr (.inr ⟨fun x hx => ?_, read_of_findPair_none (s := start true text) hfind
          (.inl rfl) hl⟩)
        rw [hfind] at hx
        cases hx
    | some x =>
      obtain ⟨before, rest⟩ := x
      rw [read_start_of_findPair hb text hfind]
      by_cases hesc : before.getLast? = some esc
      · have hlt := length_lt_of_append (append_of_findPair hfind)
        rw [if_pos ((escapes_escapeRun_iff hescapes before).mpr hesc)]
        rcases ih rest.length (hn ▸ hlt) (text ++ (before ++ [b true, b true])) rest rfl with
          ⟨t, rest', hend, hread⟩ | hnil | ⟨-, hread⟩
        · refine .inl ⟨before ++ b true :: b true :: t, rest', .escaped hfind hesc hend, ?_⟩
          rw [hread]
          simp
        · exact .inr (.inl hnil)
        · refine .inr (.inr ⟨fun x hx => ?_, ?_⟩)
          · obtain rfl := Option.some.inj (hfind.symm.trans hx)
            exact List.getLast?_eq_some_iff.mp hesc
          · rw [hread, ← append_of_findPair hfind]
            simp
      · rw [if_neg (mt (escapes_escapeRun_iff hescapes before).mp hesc)]
        exact .inl ⟨before, rest, .found hfind hesc, rfl⟩

omit hescapes in
/-- Outside nothing is read, or the inside behind an opening pair. -/
theorem read_outside_cases (text l : List α) :
    read escapes esc b (start false text) l = [] ∨ ∃ y z, l = y ++ b false :: b false :: z ∧
      read escapes esc b (start false text) l = read escapes esc b (start true []) z := by
  induction hn : l.length using Nat.strongRecOn generalizing l text with
  | _ n ih =>
    cases hfind : findPair (b false) l with
    | none =>
      refine .inl ?_
      by_cases hl : l = []
      · subst hl
        simp [read, start]
      · exact read_of_findPair_none (s := start false text) hfind (.inl rfl) hl
    | some x =>
      obtain ⟨before, rest⟩ := x
      have hl := append_of_findPair hfind
      rw [read_start_of_findPair hb text hfind]
      split
      · rcases ih rest.length (hn ▸ length_lt_of_append hl) (text ++ (before ++ [b false, b false]))
          rest rfl with hnil | ⟨y, z, rfl, hread⟩
        · exact .inl hnil
        · exact .inr ⟨before ++ b false :: b false :: y, z, by rw [← hl]; simp, hread⟩
      · exact .inr ⟨before, rest, hl.symm, rfl⟩

/-- What has been read of a part stays at its beginning. -/
theorem length_le_of_read_inside {text l : List α} {x : List α × Bool} {parts : List (List α × Bool)}
    (h : read escapes esc b (start true text) l = x :: parts) : text.length ≤ x.1.length := by
  rcases read_inside_cases hb hescapes text l with ⟨t, rest, -, hread⟩ | hnil | ⟨-, hread⟩
  · cases hread.symm.trans h
    simp
  · cases hnil.symm.trans h
  · cases hread.symm.trans h
    simp

end

/-! ## Texts that are read as they are -/

/-- A text may end so before its closing pair, or where this pair is missing. -/
def endsWell (esc b : α) (closed : Bool) (l : List α) : Bool :=
  if closed then l.getLast? ≠ some esc && l.getLast? ≠ some b else l ≠ []

/-- Every pair in the text is escaped, and it ends well behind the last. -/
def readsWhole (esc b : α) (closed : Bool) : ℕ → List α → Bool
  | 0, l => endsWell esc b closed l
  | n + 1, l =>
    match findPair b l with
    | none => endsWell esc b closed l
    | some (before, rest) => before.getLast? = some esc && readsWhole esc b closed n rest

/-- What stands behind the inside of brackets. -/
def behind (b : α) (closed : Bool) (more : List α) : List α := if closed then b :: b :: more else []

variable {n : ℕ} {closed : Bool}

section

variable (hb : ∀ inside, b inside ≠ esc) (hescapes : ∀ k, escapes k = true ↔ 0 < k)
include hb hescapes

/-- A text without a pair is read as it is if it ends well. -/
theorem read_of_endsWell {l : List α} (text more : List α) (hfind : findPair (b true) l = none)
    (h : endsWell esc (b true) closed l = true) :
    read escapes esc b (start true text) (l ++ behind (b true) closed more) =
      (text ++ l, closed) :: if closed then read escapes esc b (start false []) more else [] := by
  cases closed with
  | true =>
    simp only [endsWell, if_true, Bool.and_eq_true, decide_eq_true_eq] at h
    have hnot : ¬[b true] <:+ l := fun ⟨x, hx⟩ => h.2 (by rw [← hx, List.getLast?_concat])
    obtain ⟨-, hfind'⟩ := (findPair_after hfind more).resolve_left fun ⟨x, hx, _⟩ => hnot ⟨x, hx.symm⟩
    rw [behind, if_pos rfl, read_start_of_findPair hb text hfind',
      if_neg (mt (escapes_escapeRun_iff hescapes l).mp h.1)]
    rfl
  | false =>
    have hl : l ≠ [] := by simpa [endsWell] using h
    rw [behind, if_neg Bool.false_ne_true, List.append_nil,
      read_of_findPair_none (s := start true text) hfind (.inl rfl) hl]
    rfl

theorem endsWell_of_read {text more l : List α} {parts : List (List α × Bool)}
    (hfind : findPair (b true) l = none)
    (h : read escapes esc b (start true text) (l ++ behind (b true) closed more) =
      (text ++ l, closed) :: parts) : endsWell esc (b true) closed l = true := by
  cases closed with
  | false =>
    rw [behind, if_neg Bool.false_ne_true, List.append_nil] at h
    have hl : l ≠ [] := by
      rintro rfl
      simp [read, start] at h
    simpa [endsWell] using hl
  | true =>
    rw [behind, if_pos rfl] at h
    rcases findPair_after hfind more with ⟨before, rfl, hfind'⟩ | ⟨hsuffix, hfind'⟩
    · -- the pair begins with the last element of the text
      rw [read_start_of_findPair hb text hfind'] at h
      split at h
      · have hlength := length_le_of_read_inside hb hescapes h
        simp only [List.length_append, List.length_cons, List.length_nil] at hlength
        omega
      · have htext := congrArg (fun x => x.1.length) (List.cons.inj h).1
        simp at htext
    · rw [read_start_of_findPair hb text hfind'] at h
      split at h
      · have hlength := length_le_of_read_inside hb hescapes h
        simp only [List.length_append, List.length_cons, List.length_nil] at hlength
        omega
      · rename_i hesc
        have hlast : l.getLast? ≠ some (b true) := fun hlast => by
          obtain ⟨before, rfl⟩ := List.getLast?_eq_some_iff.mp hlast
          exact hsuffix (List.suffix_append before _)
        simp [endsWell, hlast, mt (escapes_escapeRun_iff hescapes l).mpr hesc]

theorem read_of_readsWhole {l : List α} (text more : List α) (hn : l.length ≤ n)
    (h : readsWhole esc (b true) closed n l = true) :
    read escapes esc b (start true text) (l ++ behind (b true) closed more) =
      (text ++ l, closed) :: if closed then read escapes esc b (start false []) more else [] := by
  induction n generalizing text l with
  | zero =>
    obtain rfl := List.length_eq_zero_iff.mp (Nat.le_zero.mp hn)
    exact read_of_endsWell hb hescapes text more rfl h
  | succ n ih =>
    rw [readsWhole] at h
    cases hfind : findPair (b true) l with
    | none =>
      rw [hfind] at h
      exact read_of_endsWell hb hescapes text more hfind h
    | some x =>
      obtain ⟨before, rest⟩ := x
      simp only [hfind, Bool.and_eq_true, decide_eq_true_eq] at h
      have hl := append_of_findPair hfind
      have hrest : rest.length ≤ n := by
        have := length_lt_of_append hl
        omega
      rw [read_start_of_findPair hb text (findPair_append_right hfind _),
        if_pos ((escapes_escapeRun_iff hescapes before).mpr h.1), ih _ hrest h.2, ← hl]
      simp

theorem readsWhole_of_read {text more l : List α} {parts : List (List α × Bool)} (hn : l.length ≤ n)
    (h : read escapes esc b (start true text) (l ++ behind (b true) closed more) =
      (text ++ l, closed) :: parts) : readsWhole esc (b true) closed n l = true := by
  induction n generalizing text l with
  | zero =>
    obtain rfl := List.length_eq_zero_iff.mp (Nat.le_zero.mp hn)
    exact endsWell_of_read hb hescapes rfl h
  | succ n ih =>
    rw [readsWhole]
    cases hfind : findPair (b true) l with
    | none => exact endsWell_of_read hb hescapes hfind h
    | some x =>
      obtain ⟨before, rest⟩ := x
      have hl := append_of_findPair hfind
      have hrest : rest.length ≤ n := by
        have := length_lt_of_append hl
        omega
      rw [read_start_of_findPair hb text (findPair_append_right hfind _)] at h
      split at h
      · rename_i hesc
        have hsame : text ++ l = text ++ (before ++ [b true, b true]) ++ rest := by
          rw [← hl]
          simp
        rw [hsame] at h
        simp [(escapes_escapeRun_iff hescapes before).mp hesc, ih hrest h]
      · have htext := congrArg (fun x => x.1.length) (List.cons.inj h).1
        have hlength := congrArg List.length hl
        simp at htext hlength
        omega

end

end BracketScan

end Lib
