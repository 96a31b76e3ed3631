import N8n.Lib.PathMemo
import Mathlib.Logic.Relation

/-!
# Without cycles the deepest nodes come first

Where no node leads back to itself, the path that `collect` skips never matters, and a list
that is remembered is the list of all that is below its node. Such a list is in order
(`DeepestFirst`) if a node stands in it behind everything below it.

The order outlives a merge (`DeepestFirst.merge`) : what is below the new node moves to the
front together with it, in its own order, and what stays behind leads to nothing that moved
but has everything else below it in front of it still.
-/

namespace Lib

open Relation

variable {V : Type*} {succ : V → Option (List V)}

/-- One or more steps. -/
def Below (succ : V → Option (List V)) : V → V → Prop := TransGen (StepTo succ)

theorem Below.trans {a b c : V} (h : Below succ a b) (h' : Below succ b c) : Below succ a c :=
  TransGen.trans h h'

/-- No node leads back to itself. -/
def Acyclic (succ : V → Option (List V)) : Prop := ∀ v, ¬Below succ v v

/-- Nothing leads back where every step goes down. -/
theorem acyclic_of_lt (rank : V → ℕ) (h : ∀ a b, StepTo succ a b → rank b < rank a) :
    Acyclic succ := by
  have hdown : ∀ a b, Below succ a b → rank b < rank a := by
    intro a b hab
    induction hab with
    | single hstep => exact h _ _ hstep
    | tail _ hstep ih => exact (h _ _ hstep).trans ih
  exact fun v hv => lt_irrefl _ (hdown v v hv)

/-- The list has no node twice, all that is below its nodes, and nothing behind a node that is
below it. -/
structure DeepestFirst (succ : V → Option (List V)) (l : List V) : Prop where
  nodup : l.Nodup
  closed : ∀ a ∈ l, ∀ b, Below succ a b → b ∈ l
  order : l.Pairwise fun a b => ¬Below succ a b

theorem DeepestFirst.nil : DeepestFirst succ [] := ⟨List.nodup_nil, by simp, .nil⟩

variable [DecidableEq V]

/-- A node stands behind what is below it. -/
theorem DeepestFirst.idxOf_lt {l : List V} (h : DeepestFirst succ l) (hacyclic : Acyclic succ)
    {a b : V} (ha : a ∈ l) (hb : b ∈ l) (hab : Below succ a b) : l.idxOf b < l.idxOf a := by
  rcases lt_trichotomy (l.idxOf a) (l.idxOf b) with hlt | heq | hlt
  · have hnot := List.pairwise_iff_getElem.mp h.order (l.idxOf a) (l.idxOf b)
      (List.idxOf_lt_length_iff.mpr ha) (List.idxOf_lt_length_iff.mpr hb) hlt
    rw [List.getElem_idxOf, List.getElem_idxOf] at hnot
    exact absurd hab hnot
  · rw [(List.idxOf_inj ha).mp heq] at hab
    exact absurd hab (hacyclic b)
  · exact hlt

/-! ## Merging -/

theorem foldr_toFront_eq {below l : List V} (hbelow : below.Nodup) (hl : l.Nodup) :
    below.foldr toFront l = below ++ l.filter (· ∉ below) := by
  induction below with
  | nil => simp
  | cons a below ih =>
    obtain ⟨ha, hbelow⟩ := List.nodup_cons.mp hbelow
    rw [List.foldr_cons, ih hbelow, toFront, List.erase_append_right _ ha,
      (hl.filter _).erase_eq_filter, List.filter_filter, List.cons_append]
    congr 2
    refine List.filter_congr fun b _ => ?_
    by_cases hb : b = a <;> simp [hb]

/-- Everything below a node, and the node itself, moved to the front. -/
theorem DeepestFirst.merge {below found : List V} {w : V} (hacyclic : Acyclic succ)
    (hbelow : DeepestFirst succ below) (hall : ∀ b, b ∈ below ↔ Below succ w b)
    (hfound : DeepestFirst succ found) :
    DeepestFirst succ (below.foldr toFront (toFront w found)) := by
  have hw : w ∉ below := fun h => hacyclic w ((hall w).mp h)
  have hfront := nodup_toFront (a := w) hfound.nodup
  refine ⟨nodup_foldr_toFront hfront, fun a ha b hab => ?_, ?_⟩
  · rw [mem_foldr_toFront, mem_toFront] at ha ⊢
    rcases ha with ha | rfl | ha
    · exact .inl (hbelow.closed a ha b hab)
    · exact .inl ((hall b).mpr hab)
    · exact .inr (.inr (hfound.closed a ha b hab))
  · rw [foldr_toFront_eq hbelow.nodup hfront, toFront, List.filter_cons_of_pos (by simpa using hw)]
    have hrest : ∀ b ∈ (found.erase w).filter (· ∉ below), b ∈ found ∧ ¬Below succ w b := by
      intro b hb
      obtain ⟨hmem, hnot⟩ := List.mem_filter.mp hb
      exact ⟨List.mem_of_mem_erase hmem, fun h => by simp [(hall b).mpr h] at hnot⟩
    refine List.pairwise_append.mpr ⟨hbelow.order, List.pairwise_cons.mpr
      ⟨fun b hb => (hrest b hb).2, ?_⟩, fun a ha b hb hab => ?_⟩
    · exact hfound.order.sublist ((List.filter_sublist).trans List.erase_sublist)
    · have hwa := (hall a).mp ha
      rcases List.mem_cons.mp hb with rfl | hb
      · exact hacyclic b (hwa.trans hab)
      · exact (hrest b hb).2 (hwa.trans hab)

/-! ## The search -/

/-- The list is in order and has what is below the node, and nothing else. -/
def ListsBelow (succ : V → Option (List V)) (v : V) (found : List V) : Prop :=
  DeepestFirst succ found ∧ ∀ w, w ∈ found ↔ Below succ v w

/-- Every list in the memo is in order and complete. -/
def AllListBelow (succ : V → Option (List V)) (memo : PathMemo V) : Prop :=
  ∀ v found, memo.get? (-1, v) = some found → ListsBelow succ v found

/-- A call without a bound, on a path that leads to the node, lists what is below it. -/
def InOrder (succ : V → Option (List V)) : CallProperty V :=
  fun v depth path memo found memo' => depth = -1 → (∀ q ∈ path, Below succ q v) →
    AllListBelow succ memo → ListsBelow succ v found ∧ AllListBelow succ memo'

theorem Expands.inOrder {v : V} {path next found found' : List V} {memo memo' : PathMemo V}
    (h : Expands (InOrder succ) (-1) path next found memo found' memo') (hacyclic : Acyclic succ)
    (hpath : ∀ q ∈ path, q = v ∨ Below succ q v) (hnext : ∀ w ∈ next, StepTo succ v w)
    (hfound : DeepestFirst succ found) (hmemo : AllListBelow succ memo) :
    DeepestFirst succ found' ∧ AllListBelow succ memo' ∧
      ∀ x, x ∈ found' ↔ x ∈ found ∨ ∃ w ∈ next, x = w ∨ Below succ w x := by
  induction h with
  | nil => exact ⟨hfound, hmemo, by simp⟩
  | @skip w _ _ _ _ _ hw _ _ =>
    -- the path would lead back to itself
    have hstep : Below succ v w := .single (hnext w List.mem_cons_self)
    rcases hpath w hw with rfl | hback
    · exact absurd hstep (hacyclic w)
    · exact absurd (hstep.trans hback) (hacyclic v)
  | @follow w next found below found' memo memo₁ memo' hw hcall _ ih =>
    have hstep : Below succ v w := .single (hnext w List.mem_cons_self)
    have hlead : ∀ q ∈ path, Below succ q w := fun q hq => by
      rcases hpath q hq with rfl | hq
      · exact hstep
      · exact hq.trans hstep
    obtain ⟨⟨hbelow, hall⟩, hmemo₁⟩ := hcall rfl hlead hmemo
    obtain ⟨horder, hmemo', hmem⟩ := ih (fun x hx => hnext x (List.mem_cons_of_mem _ hx))
      (hbelow.merge hacyclic hall hfound) hmemo₁
    refine ⟨horder, hmemo', fun x => ?_⟩
    rw [hmem, mem_foldr_toFront, mem_toFront, hall]
    simp only [List.mem_cons, exists_eq_or_imp]
    grind

theorem callCases_inOrder (hacyclic : Acyclic succ) : CallCases succ (InOrder succ) where
  zero _ _ _ h := absurd h (by decide)
  leaf v _ _ _ hsucc _ _ hmemo := by
    refine ⟨⟨.nil, fun w => iff_of_false List.not_mem_nil fun h => ?_⟩, hmemo⟩
    obtain ⟨_, ⟨l, hl, -⟩, -⟩ := TransGen.head'_iff.mp h
    rw [hsucc] at hl
    cases hl
  cached v _ _ _ found hget hdepth _ hmemo := by
    subst hdepth
    exact ⟨hmemo v found hget, hmemo⟩
  expand v _ path memo next found memo' _ hsucc _ hexpands hdepth hpath hmemo := by
    subst hdepth
    obtain ⟨horder, hmemo', hmem⟩ := hexpands.inOrder hacyclic
      (List.forall_mem_cons.mpr ⟨.inl rfl, fun q hq => .inr (hpath q hq)⟩)
      (fun w hw => ⟨next, hsucc, hw⟩) .nil hmemo
    have hlists : ListsBelow succ v found := by
      refine ⟨horder, fun x => (hmem x).trans ?_⟩
      rw [Below, TransGen.head'_iff]
      simp only [reflTransGen_iff_eq_or_transGen, List.not_mem_nil, false_or]
      constructor
      · rintro ⟨w, hw, hx⟩
        exact ⟨w, ⟨next, hsucc, hw⟩, hx⟩
      · rintro ⟨w, ⟨l, hl, hw⟩, hx⟩
        rw [hsucc] at hl
        cases hl
        exact ⟨w, hw, hx⟩
    refine ⟨hlists, fun x found' hget => ?_⟩
    rw [OrderedMap.get?_set] at hget
    split_ifs at hget with heq
    · cases heq
      cases hget
      exact hlists
    · exact hmemo' x found' hget

/-- Without cycles and without a bound the search lists the deepest nodes first. -/
theorem collect_deepestFirst (hacyclic : Acyclic succ) {dom : List V}
    (hdom : ∀ v, succ v ≠ none → v ∈ dom) {fuel : ℕ} (hfuel : dom.length < fuel) (root : V) :
    DeepestFirst succ (collect succ fuel root (-1) [] ∅).1 :=
  (collect_rule (callCases_inOrder hacyclic) hdom List.nodup_nil (List.nil_subset _) (by simp)
    (by simpa using hfuel) ∅ rfl (by simp) (fun _ _ h => nomatch h)).1.1

end Lib
