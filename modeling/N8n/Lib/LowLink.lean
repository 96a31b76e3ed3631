import N8n.Lib.DepthFirst

/-!
# Low links that are passed on

A depth-first traversal can keep, for every vertex, the smallest rank it has been passed : a
vertex starts with its own rank, and takes over what its successor has got when the
traversal is back from there, if both are in one strongly connected component. `IsLow` says
what it gets : the smallest rank of a vertex of its component that it is linked back to.

This need not be the rank of `First`, the vertex of the component entered first : what the
successor gets later is not passed on. A vertex that keeps its own rank until it is left is
the first of its component (`Valid.first_of_isLow`).
-/

set_option linter.unusedSectionVars false

namespace Lib

variable {V : Type} [DecidableEq V] {succ : V → List V} {t : Trace V} {F : List (Frame V)}
  {u v w x y c r : V} {k j : ℕ}

theorem Mutual.refl (v : V) : Mutual succ v v := ⟨.refl, .refl⟩

theorem Mutual.symm (h : Mutual succ v w) : Mutual succ w v := ⟨h.2, h.1⟩

theorem Mutual.trans (h : Mutual succ u v) (h' : Mutual succ v w) : Mutual succ u w :=
  ⟨h.1.trans h'.1, h'.2.trans h.2⟩

/-- Linked back along edges that lead between entered vertices. -/
theorem Valid.leadsto_of_linkedBack (h : Valid succ t F) (hvw : LinkedBack t.edges v w)
    (hv : v ∈ t.entered) : w ∈ t.entered ∧ Leadsto succ v w := by
  obtain ⟨path, hwalk, hsub⟩ := hvw
  have hedge : ∀ e ∈ path, e ∈ t.edges := fun e he => List.mem_reverse.mp (hsub.subset he)
  clear hsub
  induction hwalk with
  | nil v => exact ⟨hv, .refl⟩
  | cons e _ ih =>
    obtain ⟨-, hc, hsucc⟩ := h.edge e.1 e.2 (hedge e (by simp))
    obtain ⟨hw, hlead⟩ := ih hc fun d hd => hedge d (by simp [hd])
    exact ⟨hw, .head hsucc hlead⟩

/-! ## The first vertex of a component -/

/-- Of the strongly connected component of `v`, the traversal enters `r` first. -/
structure First (succ : V → List V) (t : Trace V) (v r : V) : Prop where
  entered : r ∈ t.entered
  mutual_first : Mutual succ v r
  le : ∀ w ∈ t.entered, Mutual succ v w → t.rank r ≤ t.rank w

theorem First.enter (h : First succ t v r) (hc : c ∉ t.entered) :
    First succ (t.enter c) v r where
  entered := by simp [h.entered]
  mutual_first := h.mutual_first
  le w hw hvw := by
    rcases Trace.mem_entered_enter.mp hw with hw | rfl
    · rw [Trace.rank_enter h.entered, Trace.rank_enter hw]
      exact h.le w hw hvw
    · exact (Trace.rank_enter_lt h.entered hc).le

/-- A vertex entered later is not the first of a component entered in part. -/
theorem First.of_enter (h : First succ (t.enter c) v r) (hr : r ∈ t.entered) :
    First succ t v r where
  entered := hr
  mutual_first := h.mutual_first
  le w hw hvw := by
    have := h.le w (by simp [hw]) hvw
    rwa [Trace.rank_enter hr, Trace.rank_enter hw] at this

theorem First.eq (h : First succ t v r) (h' : First succ t v w) : r = w :=
  (Trace.rank_inj h.entered).mp
    (le_antisymm (h.le w h'.entered h'.mutual_first) (h'.le r h.entered h.mutual_first))

theorem First.congr (h : First succ t v r) (hvw : Mutual succ w v) : First succ t w r :=
  ⟨h.entered, hvw.trans h.mutual_first, fun x hx hwx => h.le x hx (hvw.symm.trans hwx)⟩

/-! ## Low links -/

/-- `k` is the smallest rank in the component of `v` that `v` is linked back to. -/
structure IsLow (succ : V → List V) (t : Trace V) (v : V) (k : ℕ) : Prop where
  attained : ∃ w ∈ t.entered, LinkedBack t.edges v w ∧ Mutual succ v w ∧ t.rank w = k
  le : ∀ w ∈ t.entered, LinkedBack t.edges v w → Mutual succ v w → k ≤ t.rank w

theorem IsLow.le_rank (h : IsLow succ t v k) (hv : v ∈ t.entered) : k ≤ t.rank v :=
  h.le v hv (.refl _ _) (.refl _)

/-- A vertex that is linked back to the first of its component has its rank. -/
theorem IsLow.eq_rank_iff (h : IsLow succ t v k) (hr : First succ t v r) :
    k = t.rank r ↔ LinkedBack t.edges v r := by
  obtain ⟨w, hw, hback, hvw, rfl⟩ := h.attained
  constructor
  · intro he
    rwa [(Trace.rank_inj hw).mp he] at hback
  · intro hback'
    exact le_antisymm (h.le r hr.entered hback' hr.mutual_first) (hr.le w hw hvw)

theorem IsLow.enter_of_ne (hvalid : Valid succ t F) (h : IsLow succ t v k) (hv : v ∈ t.entered) :
    IsLow succ (t.enter c) v k where
  attained := by
    obtain ⟨w, hw, hback, hvw, hk⟩ := h.attained
    exact ⟨w, by simp [hw], hback, hvw, by rwa [Trace.rank_enter hw]⟩
  le w _ hback hvw := by
    have hw := (hvalid.leadsto_of_linkedBack hback hv).1
    rw [Trace.rank_enter hw]
    exact h.le w hw hback hvw

theorem IsLow.enter_self (hvalid : Valid succ t F) (hv : v ∉ t.entered) :
    IsLow succ (t.enter v) v t.entered.length where
  attained := ⟨v, by simp, .refl _ _, .refl _, Trace.rank_enter_self hv⟩
  le w _ hback _ := by
    obtain rfl := hback.eq_of_forall fun c hc => hv (hvalid.edge v c hc).1
    exact (Trace.rank_enter_self hv).ge

theorem isLow_traverse_of_ne (hv : v ≠ x) : IsLow succ (t.traverse x c) v k ↔ IsLow succ t v k := by
  constructor
  · rintro ⟨⟨w, hw, hback, hvw, hk⟩, hle⟩
    refine ⟨⟨w, hw, (linkedBack_concat_of_ne hv).mp hback, hvw, hk⟩, fun w hw hback => ?_⟩
    exact hle w hw ((linkedBack_concat_of_ne hv).mpr hback)
  · rintro ⟨⟨w, hw, hback, hvw, hk⟩, hle⟩
    refine ⟨⟨w, hw, (linkedBack_concat_of_ne hv).mpr hback, hvw, hk⟩, fun w hw hback => ?_⟩
    exact hle w hw ((linkedBack_concat_of_ne hv).mp hback)

/-- Back from a successor in the same component, its low link is passed on. -/
theorem IsLow.traverse (h : IsLow succ t v k) (hc : IsLow succ t c j) (hvc : Mutual succ v c) :
    IsLow succ (t.traverse v c) v (min j k) where
  attained := by
    rcases min_choice j k with hmin | hmin
    · obtain ⟨w, hw, hback, hcw, hk⟩ := hc.attained
      exact ⟨w, hw, linkedBack_concat_iff.mpr (Or.inr ⟨rfl, hback⟩), hvc.trans hcw,
        by rw [hmin, ← hk, Trace.rank_traverse]⟩
    · obtain ⟨w, hw, hback, hvw, hk⟩ := h.attained
      exact ⟨w, hw, hback.concat, hvw, by rw [hmin, ← hk, Trace.rank_traverse]⟩
  le w hw hback hvw := by
    rcases linkedBack_concat_iff.mp hback with hback | ⟨-, hback⟩
    · exact (min_le_right _ _).trans (h.le w hw hback hvw)
    · exact (min_le_left _ _).trans (hc.le w hw hback (hvc.symm.trans hvw))

/-- Back from a successor in another component, nothing changes. -/
theorem IsLow.traverse_of_not_mutual (hvalid : Valid succ t F) (h : IsLow succ t v k)
    (hc : c ∈ t.entered) (hsucc : c ∈ succ v) (hvc : ¬Mutual succ v c) :
    IsLow succ (t.traverse v c) v k where
  attained := by
    obtain ⟨w, hw, hback, hvw, hk⟩ := h.attained
    exact ⟨w, hw, hback.concat, hvw, hk⟩
  le w hw hback hvw := by
    rcases linkedBack_concat_iff.mp hback with hback | ⟨-, hback⟩
    · exact h.le w hw hback hvw
    · have hcw := (hvalid.leadsto_of_linkedBack hback hc).2
      exact absurd ⟨.single hsucc, hcw.trans hvw.2⟩ hvc

/-- A vertex that has its own rank when it is left is the first of its component. -/
theorem Valid.first_of_isLow (h : Valid succ t ((v, []) :: F)) (hlow : IsLow succ t v (t.rank v)) :
    First succ t v v := by
  refine ⟨h.active (v, []) (by simp), .refl v, fun w hw hvw => not_lt.mp fun hlt => ?_⟩
  obtain ⟨y, hy, hvy, hback, hyv⟩ := h.exists_linkedBack hvw hlt
  exact absurd (hlow.le y hy hback hvy) (not_le.mpr hyv)

end Lib
