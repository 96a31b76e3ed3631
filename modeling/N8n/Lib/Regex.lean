import Mathlib.Data.List.Basic

/-!
# Regular expressions as a backtracking matcher reads them

`Regex.readings r l` lists the ways in which `r` matches the beginning of `l`, each with what is
left, in the order in which a backtracking matcher tries them. A `Pattern` is a regular
expression between two capture groups; `exec` takes the first match at the beginning of a
list, `search` the leftmost one.

What is matched and what is left make up the list (`Regex.append_of_mem_readings`,
`Pattern.append_of_exec`, `Pattern.append_of_search`). `replaceAll` and `replaceFirst` put
something else in the place of what is matched.
-/

namespace Lib

inductive Regex (α : Type) where
  | empty
  | unit (u : α)
  | oneOf (us : List α)
  | noneOf (us : List α)
  | seq (r s : Regex α)
  | alt (r s : Regex α)

namespace Regex

variable {α : Type}

/-- `r?`, which takes `r` if it can. -/
def optional (r : Regex α) : Regex α := .alt r .empty

/-- These elements one after another. -/
def literal : List α → Regex α
  | [] => .empty
  | u :: us => .seq (.unit u) (literal us)

variable [DecidableEq α]

def readings : Regex α → List α → List (List α × List α)
  | .empty, l => [([], l)]
  | .unit u, a :: l => if a = u then [([a], l)] else []
  | .unit _, [] => []
  | .oneOf us, a :: l => if a ∈ us then [([a], l)] else []
  | .oneOf _, [] => []
  | .noneOf us, a :: l => if a ∈ us then [] else [([a], l)]
  | .noneOf _, [] => []
  | .seq r s, l => (r.readings l).flatMap fun x => (s.readings x.2).map fun y => (x.1 ++ y.1, y.2)
  | .alt r s, l => r.readings l ++ s.readings l

theorem append_of_mem_readings {r : Regex α} {l : List α} {x : List α × List α}
    (h : x ∈ r.readings l) : x.1 ++ x.2 = l := by
  induction r generalizing l x with
  | empty =>
    obtain rfl := List.mem_singleton.mp h
    rfl
  | unit u =>
    cases l with
    | nil => cases h
    | cons a l =>
      rw [Regex.readings] at h
      split at h
      · obtain rfl := List.mem_singleton.mp h
        rfl
      · cases h
  | oneOf us =>
    cases l with
    | nil => cases h
    | cons a l =>
      rw [Regex.readings] at h
      split at h
      · obtain rfl := List.mem_singleton.mp h
        rfl
      · cases h
  | noneOf us =>
    cases l with
    | nil => cases h
    | cons a l =>
      rw [Regex.readings] at h
      split at h
      · cases h
      · obtain rfl := List.mem_singleton.mp h
        rfl
  | seq r s ihr ihs =>
    rw [Regex.readings] at h
    obtain ⟨y, hy, h⟩ := List.mem_flatMap.mp h
    obtain ⟨z, hz, rfl⟩ := List.mem_map.mp h
    rw [List.append_assoc, ihs hz, ihr hy]
  | alt r s ihr ihs =>
    rw [Regex.readings] at h
    rcases List.mem_append.mp h with h | h
    · exact ihr h
    · exact ihs h

theorem readings_literal (us l : List α) :
    (literal us).readings l = if us <+: l then [(us, l.drop us.length)] else [] := by
  induction us generalizing l with
  | nil => rw [if_pos List.nil_prefix, literal, Regex.readings, List.length_nil, List.drop_zero]
  | cons u us ih =>
    cases l with
    | nil => simp [literal, Regex.readings]
    | cons a l =>
      rw [literal, Regex.readings, Regex.readings]
      by_cases ha : a = u
      · subst ha
        rw [if_pos rfl, List.flatMap_singleton, ih]
        by_cases hpre : us <+: l
        · rw [if_pos hpre, if_pos (by rwa [List.prefix_cons_inj]), List.map_singleton]
          rfl
        · rw [if_neg hpre, if_neg (by rwa [List.prefix_cons_inj])]
          rfl
      · rw [if_neg ha, if_neg fun hpre => ha (List.cons_prefix_cons.mp hpre).1.symm]
        rfl

end Regex

/-- A regular expression between two capture groups. -/
structure Pattern (α : Type) where
  before : Regex α
  body : Regex α
  after : Regex α

structure Match (α : Type) where
  before : List α
  body : List α
  after : List α
  rest : List α
  deriving DecidableEq, Repr

namespace Match

variable {α : Type}

/-- What was matched. -/
def text (m : Match α) : List α := m.before ++ m.body ++ m.after

end Match

namespace Pattern

variable {α : Type} [DecidableEq α]

/-- The first match at the beginning. -/
def exec (p : Pattern α) (l : List α) : Option (Match α) :=
  ((p.before.readings l).flatMap fun x =>
    (p.body.readings x.2).flatMap fun y =>
      (p.after.readings y.2).map fun z => (⟨x.1, y.1, z.1, z.2⟩ : Match α)).head?

/-- The leftmost match, after what stands before it. -/
def search (p : Pattern α) : List α → Option (List α × Match α)
  | [] => (p.exec []).map fun m => ([], m)
  | a :: l =>
    match p.exec (a :: l) with
    | some m => some ([], m)
    | none => (p.search l).map fun x => (a :: x.1, x.2)

theorem append_of_exec {p : Pattern α} {l : List α} {m : Match α} (h : p.exec l = some m) :
    m.text ++ m.rest = l := by
  have hmem := List.mem_of_head? h
  obtain ⟨x, hx, hmem⟩ := List.mem_flatMap.mp hmem
  obtain ⟨y, hy, hmem⟩ := List.mem_flatMap.mp hmem
  obtain ⟨z, hz, rfl⟩ := List.mem_map.mp hmem
  rw [Match.text, List.append_assoc, List.append_assoc, Regex.append_of_mem_readings hz,
    Regex.append_of_mem_readings hy, Regex.append_of_mem_readings hx]

theorem append_of_search {p : Pattern α} {l before : List α} {m : Match α}
    (h : p.search l = some (before, m)) : before ++ (m.text ++ m.rest) = l := by
  induction l generalizing before with
  | nil =>
    obtain ⟨m', hexec, heq⟩ := Option.map_eq_some_iff.mp h
    cases heq
    exact append_of_exec hexec
  | cons a l ih =>
    rw [search] at h
    split at h
    · rename_i hexec
      cases h
      exact append_of_exec hexec
    · obtain ⟨x, hsearch, heq⟩ := Option.map_eq_some_iff.mp h
      cases heq
      rw [List.cons_append, ih hsearch]

/-- These elements one after another. -/
def literal (us : List α) : Pattern α := ⟨.empty, .literal us, .empty⟩

theorem exec_literal (us l : List α) :
    (literal us).exec l =
      if us <+: l then some ⟨[], us, [], l.drop us.length⟩ else none := by
  simp only [exec, literal, Regex.readings, List.flatMap_singleton, Regex.readings_literal]
  split <;> rfl

theorem append_of_search_literal {us l before : List α} {m : Match α}
    (h : (literal us).search l = some (before, m)) : before ++ us ++ m.rest = l := by
  have hbody : m.text = us := by
    induction l generalizing before with
    | nil =>
      obtain ⟨m', hexec, heq⟩ := Option.map_eq_some_iff.mp h
      cases heq
      rw [exec_literal] at hexec
      split at hexec
      · cases hexec
        simp [Match.text]
      · cases hexec
    | cons a l ih =>
      rw [search] at h
      split at h
      · rename_i hexec
        cases h
        rw [exec_literal] at hexec
        split at hexec
        · cases hexec
          simp [Match.text]
        · cases hexec
      · obtain ⟨x, hsearch, heq⟩ := Option.map_eq_some_iff.mp h
        cases heq
        exact ih hsearch
  have happend := append_of_search h
  rwa [hbody, ← List.append_assoc] at happend

/-- Put `f` of a match in its place, from left to right, after the next `skip` elements, which
were matched. An empty match does not take the element after it. -/
def replaceFrom (p : Pattern α) (f : Match α → List α) : ℕ → List α → List α
  | 0, [] => (p.exec []).elim [] f
  | _ + 1, [] => []
  | skip + 1, _ :: l => replaceFrom p f skip l
  | 0, a :: l =>
    match p.exec (a :: l) with
    | none => a :: replaceFrom p f 0 l
    | some m =>
      if m.text = [] then f m ++ a :: replaceFrom p f 0 l
      else f m ++ replaceFrom p f (m.text.length - 1) l

/-- `text.replace(pattern, f)` for a global pattern. -/
def replaceAll (p : Pattern α) (f : Match α → List α) (l : List α) : List α :=
  p.replaceFrom f 0 l

end Pattern

/-- `text.replace(searched, replacement)`, which puts the replacement in the place of the first
occurrence. -/
def replaceFirst {α : Type} [DecidableEq α] (searched replacement l : List α) : List α :=
  match (Pattern.literal searched).search l with
  | none => l
  | some (before, m) => before ++ replacement ++ m.rest

section

variable {α : Type} [DecidableEq α] {p : α → Bool} {us vs : List α}

/-- What is counted does not change if as much of it is put in as is taken out. -/
theorem Pattern.countP_replaceFrom_literal (hne : us ≠ []) (hcount : vs.countP p = us.countP p)
    (skip : ℕ) (l : List α) :
    ((Pattern.literal us).replaceFrom (fun _ => vs) skip l).countP p = (l.drop skip).countP p := by
  induction l generalizing skip with
  | nil =>
    cases skip with
    | zero =>
      rw [Pattern.replaceFrom, Pattern.exec_literal, if_neg (by simpa using hne)]
      rfl
    | succ skip => rfl
  | cons a l ih =>
    cases skip with
    | succ skip => exact ih skip
    | zero =>
      rw [Pattern.replaceFrom, Pattern.exec_literal]
      by_cases hpre : us <+: a :: l
      · obtain ⟨rest, hrest⟩ := hpre
        obtain ⟨u, us', rfl⟩ := List.exists_cons_of_ne_nil hne
        obtain ⟨rfl, hl⟩ := List.cons.inj hrest
        have hdrop : l.drop us'.length = rest := hl ▸ List.drop_left
        rw [if_pos ⟨rest, hrest⟩]
        simp only [Match.text, List.nil_append, List.append_nil, List.cons_ne_nil, if_false,
          List.length_cons, Nat.add_sub_cancel, List.countP_append, ih, hdrop, hcount]
        rw [List.drop_zero, ← hrest, List.countP_append]
      · rw [if_neg hpre]
        simp only [List.countP_cons, ih, List.drop_zero]

theorem Pattern.countP_replaceAll_literal (hne : us ≠ []) (hcount : vs.countP p = us.countP p)
    (l : List α) : ((Pattern.literal us).replaceAll (fun _ => vs) l).countP p = l.countP p :=
  Pattern.countP_replaceFrom_literal hne hcount 0 l

theorem countP_replaceFirst (hcount : vs.countP p = us.countP p) (l : List α) :
    (replaceFirst us vs l).countP p = l.countP p := by
  unfold replaceFirst
  split
  · rfl
  · rename_i before m hsearch
    rw [← Pattern.append_of_search_literal hsearch]
    simp only [List.countP_append, hcount]

end

end Lib
