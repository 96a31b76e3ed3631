import N8n.Lib.JsNumber
import N8n.Lib.Regex
import Mathlib.Data.List.Infix

/-!
# Matches and replacements in a text

`Pattern.matchAll` is `matchAll`, with the place of each match. `replaceText` is `replaceAll` for a
searched text, where `$` and a character after it stand for what was matched or what is around it.

A text in pieces is replaced piece by piece if the searched text occurs nowhere else than at pieces
that are to be replaced (`replaceText_pieces`).
-/

namespace Lib

variable {α : Type} [DecidableEq α]

namespace Pattern

/-- The matches from a place on, after the next `skip` elements, which were matched. -/
def matchesFrom (p : Pattern α) : ℕ → ℕ → List α → List (ℕ × Match α)
  | 0, place, [] => (p.exec []).elim [] fun m => [(place, m)]
  | _ + 1, _, [] => []
  | skip + 1, place, _ :: l => matchesFrom p skip (place + 1) l
  | 0, place, a :: l =>
    match p.exec (a :: l) with
    | none => matchesFrom p 0 (place + 1) l
    | some m => (place, m) :: matchesFrom p (m.text.length - 1) (place + 1) l

/-- `text.matchAll(pattern)` -/
def matchAll (p : Pattern α) (l : List α) : List (ℕ × Match α) := p.matchesFrom 0 0 l

theorem replaceFrom_length (p : Pattern α) (f : Match α → List α) (matched l : List α) :
    p.replaceFrom f matched.length (matched ++ l) = p.replaceFrom f 0 l := by
  induction matched with
  | nil => rfl
  | cons a matched ih => exact ih

variable {us : List α} {f : Match α → List α}

/-- Where nothing matches, nothing changes. -/
theorem replaceFrom_append_of_not_prefix {l rest : List α}
    (h : ∀ before after, l = before ++ after → after ≠ [] → ¬ us <+: after ++ rest) :
    (literal us).replaceFrom f 0 (l ++ rest) = l ++ (literal us).replaceFrom f 0 rest := by
  induction l with
  | nil => rfl
  | cons a l ih =>
    have hnot : ¬ us <+: a :: (l ++ rest) := h [] (a :: l) rfl (List.cons_ne_nil _ _)
    rw [List.cons_append, replaceFrom, exec_literal, if_neg hnot]
    exact congrArg (a :: ·) (ih fun before after heq hne => h (a :: before) after
      (congrArg (a :: ·) heq) hne)

/-- What is matched is replaced. -/
theorem replaceFrom_append_of_starts (hus : us ≠ []) (rest : List α) :
    (literal us).replaceFrom f 0 (us ++ rest) =
      f ⟨[], us, [], rest⟩ ++ (literal us).replaceFrom f 0 rest := by
  obtain ⟨u, us, rfl⟩ := List.exists_cons_of_ne_nil hus
  rw [List.cons_append, replaceFrom, exec_literal, if_pos ⟨rest, rfl⟩]
  simp only [Match.text, List.nil_append, List.append_nil, List.cons_ne_nil, if_false,
    List.length_cons, Nat.add_sub_cancel, List.drop_succ_cons, List.drop_left]
  exact congrArg _ (replaceFrom_length _ f us rest)

/-- Replacing a text by itself changes nothing. -/
theorem replaceFrom_self (hus : us ≠ []) (hf : ∀ m, f m = us) (l : List α) :
    (literal us).replaceFrom f 0 l = l := by
  induction hlength : l.length using Nat.strong_induction_on generalizing l with
  | _ n ih =>
    by_cases hpre : us <+: l
    · obtain ⟨rest, rfl⟩ := hpre
      have hpos := List.length_pos_iff.mpr hus
      rw [List.length_append] at hlength
      rw [replaceFrom_append_of_starts hus, hf, ih rest.length (by omega) rest rfl]
    · rcases l with _ | ⟨a, l⟩
      · rw [replaceFrom, exec_literal, if_neg hpre]
        rfl
      · rw [List.length_cons] at hlength
        rw [replaceFrom, exec_literal, if_neg hpre]
        exact congrArg (a :: ·) (ih l.length (by omega) l rfl)

end Pattern

/-! ## Pieces -/

/-- The pieces of a text, with those that are to be replaced marked. -/
abbrev Pieces (α : Type) := List (List α × Bool)

def Pieces.text (pieces : Pieces α) : List α := (pieces.map Prod.fst).flatten

/-- The searched text occurs only at marked pieces. -/
def OccursAtMarks (us : List α) (pieces : Pieces α) : Prop :=
  ∀ before after, pieces.text = before ++ us ++ after →
    ∃ pieces₁ pieces₂, pieces = pieces₁ ++ (us, true) :: pieces₂ ∧ before = pieces₁.text

def Pieces.replace (vs : List α) (pieces : Pieces α) : List α :=
  (pieces.map fun piece => if piece.2 then vs else piece.1).flatten

variable {us vs : List α} {pieces : Pieces α}

omit [DecidableEq α] in
theorem Pieces.text_cons (piece : List α × Bool) (pieces : Pieces α) :
    Pieces.text (piece :: pieces) = piece.1 ++ pieces.text := rfl

omit [DecidableEq α] in
/-- The marks of the other pieces are where they were. -/
theorem OccursAtMarks.tail {piece : List α × Bool} (hpiece : piece.1 ≠ [])
    (h : OccursAtMarks us (piece :: pieces)) : OccursAtMarks us pieces := by
  intro before after htext
  obtain ⟨pieces₁, pieces₂, hpieces, hbefore⟩ := h (piece.1 ++ before) after
    (by rw [Pieces.text_cons, htext, List.append_assoc, List.append_assoc, List.append_assoc])
  rcases pieces₁ with _ | ⟨piece', pieces₁⟩
  · exact absurd (List.append_eq_nil_iff.mp hbefore).1 hpiece
  · obtain ⟨rfl, htail⟩ := List.cons.inj hpieces
    refine ⟨pieces₁, pieces₂, htail, ?_⟩
    rw [Pieces.text_cons] at hbefore
    exact List.append_cancel_left hbefore

omit [DecidableEq α] in
/-- Inside of a piece that is not marked the searched text does not begin. -/
theorem OccursAtMarks.not_prefix {piece : List α} (h : OccursAtMarks us ((piece, false) :: pieces))
    {before after : List α} (hsplit : piece = before ++ after) (hafter : after ≠ []) :
    ¬ us <+: after ++ pieces.text := by
  rintro ⟨rest, hrest⟩
  obtain ⟨pieces₁, pieces₂, hpieces, hbefore⟩ := h before rest
    (by rw [Pieces.text_cons, hsplit, List.append_assoc, ← hrest, List.append_assoc])
  rcases pieces₁ with _ | ⟨piece', pieces₁⟩
  · obtain ⟨hpiece, -⟩ := List.cons.inj hpieces
    cases hpiece
  · obtain ⟨rfl, -⟩ := List.cons.inj hpieces
    rw [Pieces.text_cons, hsplit, List.append_assoc] at hbefore
    have hlength := congrArg List.length hbefore
    have hpos := List.length_pos_iff.mpr hafter
    simp only [List.length_append] at hlength
    omega

theorem Pattern.replaceAll_pieces {f : Match α → List α} (hus : us ≠ [])
    (hne : ∀ piece ∈ pieces, piece.1 ≠ []) (hmarked : ∀ piece ∈ pieces, piece.2 = true → piece.1 = us)
    (hf : ∀ m, f m = vs) (h : OccursAtMarks us pieces) :
    (Pattern.literal us).replaceAll f pieces.text = pieces.replace vs := by
  induction pieces with
  | nil =>
    rw [Pattern.replaceAll, Pieces.text, List.map_nil, List.flatten_nil, Pattern.replaceFrom,
      Pattern.exec_literal, if_neg (by simpa using hus)]
    rfl
  | cons piece pieces ih =>
    have ih := ih (fun piece h => hne piece (List.mem_cons_of_mem _ h))
      (fun piece h => hmarked piece (List.mem_cons_of_mem _ h))
      (h.tail (hne piece List.mem_cons_self))
    rw [Pattern.replaceAll] at ih ⊢
    obtain ⟨piece, marked⟩ := piece
    rw [Pieces.text_cons]
    cases marked with
    | true =>
      obtain rfl : piece = us := hmarked _ List.mem_cons_self rfl
      rw [Pattern.replaceFrom_append_of_starts hus, hf, ih]
      rfl
    | false =>
      rw [Pattern.replaceFrom_append_of_not_prefix
        fun before after hsplit hafter => h.not_prefix hsplit hafter, ih]
      rfl

/-! ## Templates -/

/-- The unit of a backtick. -/
def backtickUnit : UInt16 := 96

/-- What a template stands for : `$$` for a dollar sign, `$&` for what was matched, and `$` with a
backtick or an apostrophe for what is before or after it. -/
def substitute (matched before after : List UInt16) : List UInt16 → List UInt16
  | u :: v :: template =>
    if u = charUnit '$' then
      if v = charUnit '$' then charUnit '$' :: substitute matched before after template
      else if v = charUnit '&' then matched ++ substitute matched before after template
      else if v = backtickUnit then before ++ substitute matched before after template
      else if v = charUnit '\'' then after ++ substitute matched before after template
      else u :: substitute matched before after (v :: template)
    else u :: substitute matched before after (v :: template)
  | template => template

/-- No dollar sign is before one of the characters that have a meaning there. -/
def isPlain : List UInt16 → Bool
  | u :: v :: template =>
    !(u = charUnit '$' && (v = charUnit '$' || v = charUnit '&' || v = backtickUnit ||
      v = charUnit '\'')) && isPlain (v :: template)
  | _ => true

/-- `text.replaceAll(searched, template)` -/
def replaceText (searched template text : List UInt16) : List UInt16 :=
  (Pattern.literal searched).replaceAll
    (fun m => substitute m.text (text.take (text.length - (m.text ++ m.rest).length)) m.rest template)
    text

theorem substitute_of_isPlain {template : List UInt16} (h : isPlain template = true)
    (matched before after : List UInt16) : substitute matched before after template = template := by
  induction template with
  | nil => rfl
  | cons u template ih =>
    rcases template with _ | ⟨v, template⟩
    · rfl
    · simp only [isPlain, Bool.and_eq_true, Bool.not_eq_true', Bool.and_eq_false_iff,
        Bool.or_eq_false_iff, decide_eq_false_iff_not] at h
      obtain ⟨hu, hplain⟩ := h
      have ih := ih hplain
      rw [substitute, ih]
      by_cases hdollar : u = charUnit '$'
      · obtain ⟨⟨⟨hv₁, hv₂⟩, hv₃⟩, hv₄⟩ := hu.resolve_left (not_not.mpr hdollar)
        rw [if_pos hdollar, if_neg hv₁, if_neg hv₂, if_neg hv₃, if_neg hv₄]
      · rw [if_neg hdollar]

variable {searched template : List UInt16} {pieces : Pieces UInt16}

theorem replaceText_pieces (hsearched : searched ≠ []) (hplain : isPlain template = true)
    (hne : ∀ piece ∈ pieces, piece.1 ≠ [])
    (hmarked : ∀ piece ∈ pieces, piece.2 = true → piece.1 = searched)
    (h : OccursAtMarks searched pieces) :
    replaceText searched template pieces.text = pieces.replace template :=
  Pattern.replaceAll_pieces hsearched hne hmarked
    (fun _ => substitute_of_isPlain hplain _ _ _) h

theorem replaceText_self (hsearched : searched ≠ []) (hplain : isPlain searched = true)
    (text : List UInt16) : replaceText searched searched text = text :=
  Pattern.replaceFrom_self hsearched (fun _ => substitute_of_isPlain hplain _ _ _) text

end Lib
