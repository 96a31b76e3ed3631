import N8n.PartialExecution.StronglyConnectedComponents

/-!
# The stack of `getStronglyConnectedComponents`

A node whose low link value is not the id of the first node of its component, although it
can reach it, is not popped with the component, and stays on the stack for good. As long
as there is no such node, the stack holds exactly the components that are not complete
(`Good`). With the first one, a node is stuck (`Stuck`), and this lasts to the end. Which
of the two it is depends on whether every node that is left is linked back to the first
node of its component.

`getStronglyConnectedComponents_exact_iff` : the result is exact just in case the graph
returns in order.
-/

open Lib

namespace N8n

namespace SccState

variable {t : Trace INode} {s s' : SccState} {n m v c : INode}

/-! ## As long as no node is stuck -/

variable {succ : INode → List INode} {F : List (Frame INode)}

/-- The stack holds the components with a call under way, and every complete component is
returned. -/
structure Good (succ : INode → List INode) (t : Trace INode) (F : List (Frame INode))
    (s : SccState) : Prop where
  closed : ∀ n ∈ s.stronglyConnectedComponents.flatten, ∀ m ∈ succ n,
    m ∈ s.stronglyConnectedComponents.flatten
  component : ∀ scc ∈ s.stronglyConnectedComponents, ∀ n ∈ scc, ∀ m,
    m ∈ scc ↔ Mutual succ n m
  sorted : s.stack.Pairwise fun n m => t.rank m < t.rank n
  call : ∀ n ∈ s.stack, ∃ f ∈ F, Mutual succ f.1 n ∧ t.rank f.1 ≤ t.rank n
  onStack : ∀ f ∈ F, f.1 ∈ s.stack
  low : ∀ n ∈ s.stack, ∃ k, s.lowLinkValues.get? n = some k ∧ IsLow succ t n k
  linked : ∀ n ∈ s.stronglyConnectedComponents.flatten, ∀ r, First succ t n r →
    LinkedBack t.edges n r

theorem Good.closed_leadsto (h : Good succ t F s) (hnm : Leadsto succ n m)
    (hn : n ∈ s.stronglyConnectedComponents.flatten) :
    m ∈ s.stronglyConnectedComponents.flatten := by
  induction hnm with
  | refl => exact hn
  | tail _ hstep ih => exact h.closed _ ih _ hstep

/-- A node is on the stack with the others of its component. -/
theorem Good.mem_stack_of_mutual (h : Good succ t F s) (ht : Tracks t s)
    (hnodup : t.entered.Nodup) (hn : n ∈ s.stack) (hm : m ∈ t.entered) (hnm : Mutual succ n m) :
    m ∈ s.stack :=
  (ht.mem_entered_iff.mp hm).resolve_right fun hm' =>
    ht.notMem_flatten hnodup hn (h.closed_leadsto hnm.2 hm')

theorem Good.nil : Good succ {} [] {} := by
  constructor <;> simp

theorem Good.visit (h : Good succ t F s) (hvalid : Valid succ t F) (ht : Tracks t s)
    (hn : n ∉ t.entered) : Good succ (t.enter n) ((n, succ n) :: F) (s.visit n) where
  closed := h.closed
  component := h.component
  sorted := by
    refine List.pairwise_cons.mpr
      ⟨fun m hm => Trace.rank_enter_lt (ht.entered_of_mem_stack hm) hn, ?_⟩
    refine h.sorted.imp_of_mem fun {a b} ha hb hlt => ?_
    rwa [Trace.rank_enter (ht.entered_of_mem_stack ha),
      Trace.rank_enter (ht.entered_of_mem_stack hb)]
  call m hm := by
    rcases List.mem_cons.mp hm with rfl | hm
    · exact ⟨(m, succ m), by simp, .refl m, le_rfl⟩
    · obtain ⟨f, hf, hmut, hle⟩ := h.call m hm
      refine ⟨f, by simp [hf], hmut, ?_⟩
      rwa [Trace.rank_enter (hvalid.active f hf), Trace.rank_enter (ht.entered_of_mem_stack hm)]
  onStack f hf := by
    rcases List.mem_cons.mp hf with rfl | hf
    · simp [SccState.visit]
    · simp [SccState.visit, h.onStack f hf]
  low m hm := by
    simp only [SccState.visit, OrderedMap.get?_set]
    rcases List.mem_cons.mp hm with rfl | hm
    · exact ⟨t.entered.length, by rw [if_pos rfl, ht.id], .enter_self hvalid hn⟩
    · have hm' := ht.entered_of_mem_stack hm
      obtain ⟨k, hk, hlow⟩ := h.low m hm
      rw [if_neg (ne_of_mem_of_not_mem hm' hn).symm]
      exact ⟨k, hk, hlow.enter_of_ne hvalid hm'⟩
  linked m hm r hr := by
    have hr' : r ∈ t.entered :=
      ht.mem_entered_iff.mpr (Or.inr (h.closed_leadsto hr.mutual_first.1 hm))
    exact h.linked m hm r (hr.of_enter hr')

/-- Back from a child, the child is on the stack just in case the node is in its component. -/
theorem Good.mem_stack_iff {cs : List INode} (h : Good succ t ((v, c :: cs) :: F) s)
    (hvalid : Valid succ t ((v, c :: cs) :: F)) (ht : Tracks t s) (hc : c ∈ t.entered) :
    c ∈ s.stack ↔ Mutual succ v c := by
  have hsucc : c ∈ succ v := (hvalid.pending (v, c :: cs) (by simp)).1 (by simp)
  constructor
  · intro hmem
    obtain ⟨f, hf, hfc, -⟩ := h.call c hmem
    have hfv := hvalid.leads f hf v (hvalid.active (v, c :: cs) (by simp)) (hvalid.rank_le hf)
    exact ⟨.single hsucc, hfc.2.trans hfv⟩
  · exact h.mem_stack_of_mutual ht hvalid.nodup (h.onStack (v, c :: cs) (by simp)) hc

theorem Good.minLowLink {cs : List INode} (h : Good succ t ((v, c :: cs) :: F) s)
    (hvalid : Valid succ t ((v, c :: cs) :: F)) (ht : Tracks t s) (hc : c ∈ t.entered)
    (hs' : Minned s s' v c) : Good succ (t.traverse v c) ((v, cs) :: F) s' where
  closed := by
    rw [hs'.components]
    exact h.closed
  component := by
    rw [hs'.components]
    exact h.component
  sorted := by
    rw [hs'.stack]
    exact h.sorted
  call := by
    rw [hs'.stack]
    intro n hn
    obtain ⟨f, hf, hmut⟩ := h.call n hn
    rcases List.mem_cons.mp hf with rfl | hf
    · exact ⟨(v, cs), by simp, hmut⟩
    · exact ⟨f, by simp [hf], hmut⟩
  onStack := by
    rw [hs'.stack]
    intro f hf
    rcases List.mem_cons.mp hf with rfl | hf
    · exact h.onStack (v, c :: cs) (by simp)
    · exact h.onStack f (by simp [hf])
  low := by
    rw [hs'.stack]
    intro n hn
    obtain ⟨k, hk, hlow⟩ := h.low n hn
    by_cases hnv : n = v
    · subst hnv
      by_cases hmem : c ∈ s.stack
      · obtain ⟨j, hj, hlowc⟩ := h.low c hmem
        exact ⟨_, hs'.low_of_mem hmem j k hj hk,
          hlow.traverse hlowc ((h.mem_stack_iff hvalid ht hc).mp hmem)⟩
      · have hsucc : c ∈ succ n := (hvalid.pending (n, c :: cs) (by simp)).1 (by simp)
        refine ⟨k, by rw [hs'.low_of_notMem hmem, hk], ?_⟩
        exact hlow.traverse_of_not_mutual hvalid hc hsucc
          fun hmut => hmem ((h.mem_stack_iff hvalid ht hc).mpr hmut)
    · exact ⟨k, by rw [hs'.low_of_ne n hnv, hk], (isLow_traverse_of_ne hnv).mpr hlow⟩
  linked := by
    rw [hs'.components]
    exact fun n hn r hr => (h.linked n hn r ⟨hr.entered, hr.mutual_first, hr.le⟩).concat

theorem Good.congr (h : Good succ t F s) (hstack : s'.stack = s.stack)
    (hcomponents : s'.stronglyConnectedComponents = s.stronglyConnectedComponents)
    (hlow : s'.lowLinkValues = s.lowLinkValues) : Good succ t F s' := by
  obtain ⟨h₁, h₂, h₃, h₄, h₅, h₆, h₇⟩ := h
  rw [← hstack] at h₃ h₄ h₅ h₆
  rw [← hcomponents] at h₁ h₂ h₇
  rw [← hlow] at h₆
  exact ⟨h₁, h₂, h₃, h₄, h₅, h₆, h₇⟩

/-- A node that is left with another low id than its own has a node of its component below
it on the stack. -/
theorem Good.leave_of_ne (h : Good succ t ((v, []) :: F) s)
    (hvalid : Valid succ t ((v, []) :: F)) (ht : Tracks t s)
    (hv : s.lowLinkValues.get? v ≠ some (t.rank v)) : Good succ t F s where
  closed := h.closed
  component := h.component
  sorted := h.sorted
  call n hn := by
    obtain ⟨f, hf, hfn, hle⟩ := h.call n hn
    rcases List.mem_cons.mp hf with rfl | hf
    · have hmem := h.onStack (v, []) (by simp)
      obtain ⟨k, hk, hlow⟩ := h.low v hmem
      have hlt : k < t.rank v := by
        refine lt_of_le_of_ne (hlow.le_rank (ht.entered_of_mem_stack hmem)) ?_
        rintro rfl
        exact hv hk
      obtain ⟨w, hw, -, hvw, rfl⟩ := hlow.attained
      obtain ⟨f, hf, hfw, hfle⟩ :=
        h.call w (h.mem_stack_of_mutual ht hvalid.nodup hmem hw hvw)
      rcases List.mem_cons.mp hf with rfl | hf
      · exact absurd hlt (not_lt.mpr hfle)
      · exact ⟨f, hf, (hfw.trans hvw.symm).trans hfn, (hfle.trans hlt.le).trans hle⟩
    · exact ⟨f, hf, hfn, hle⟩
  onStack f hf := h.onStack f (by simp [hf])
  low := h.low
  linked := h.linked

/-- What is on the stack from a first node on is its component. -/
theorem Good.mutual_of_le (h : Good succ t ((v, []) :: F) s)
    (hvalid : Valid succ t ((v, []) :: F)) (ht : Tracks t s) (hfirst : First succ t v v)
    (hn : n ∈ s.stack) (hle : t.rank v ≤ t.rank n) : Mutual succ v n := by
  obtain ⟨f, hf, hfn, -⟩ := h.call n hn
  have hfv := hvalid.leads f hf v hfirst.entered (hvalid.rank_le hf)
  have hvn := hvalid.leads (v, []) (by simp) n (ht.entered_of_mem_stack hn) hle
  exact ⟨hvn, hfn.2.trans hfv⟩

theorem Good.mem_of_leadsto (h : Good succ t ((v, []) :: F) s)
    (hvalid : Valid succ t ((v, []) :: F)) (ht : Tracks t s) (hfirst : First succ t v v)
    (hvn : Leadsto succ v n) :
    n ∈ s.stronglyConnectedComponents.flatten ∨ (n ∈ s.stack ∧ t.rank v ≤ t.rank n) := by
  induction hvn with
  | refl => exact Or.inr ⟨h.onStack (v, []) (by simp), le_rfl⟩
  | @tail m n hvm hstep ih =>
    rcases ih with hm | ⟨hm, hle⟩
    · exact Or.inl (h.closed m hm n hstep)
    · have hedge := hvalid.completed (ht.entered_of_mem_stack hm) hle hstep
      have hn := (hvalid.edge m n hedge).2.1
      rcases ht.mem_entered_iff.mp hn with hn' | hn'
      · refine Or.inr ⟨hn', not_lt.mp fun hlt => ?_⟩
        -- a call below `v` on the stack would be in the component of `v`
        obtain ⟨f, hf, hfn, hfle⟩ := h.call n hn'
        have hf' := hvalid.active f hf
        have hfv := hvalid.leads f hf v hfirst.entered (hvalid.rank_le hf)
        have hvf : Mutual succ v f.1 := ⟨(hvm.tail hstep).trans hfn.2, hfv⟩
        exact absurd (hfirst.le f.1 hf' hvf) (not_le.mpr (hfle.trans_lt hlt))
      · exact Or.inl hn'

theorem Good.mem_of_mutual (h : Good succ t ((v, []) :: F) s)
    (hvalid : Valid succ t ((v, []) :: F)) (ht : Tracks t s) (hfirst : First succ t v v)
    (hvn : Mutual succ v n) : n ∈ s.stack ∧ t.rank v ≤ t.rank n := by
  refine (h.mem_of_leadsto hvalid ht hfirst hvn.1).resolve_left fun hn => ?_
  exact ht.notMem_flatten hvalid.nodup (h.onStack (v, []) (by simp)) (h.closed_leadsto hvn.2 hn)

theorem mem_takeWhile_of_pairwise {α : Type} {p : α → Bool} {l : List α} {x : α}
    (h : l.Pairwise fun a b => p b → p a) (hx : x ∈ l) (hp : p x) : x ∈ l.takeWhile p := by
  induction l with
  | nil => cases hx
  | cons a l ih =>
    obtain ⟨ha, h⟩ := List.pairwise_cons.mp h
    rcases List.mem_cons.mp hx with rfl | hx
    · simp [hp]
    · simp [ha x hx hp, ih h hx]

/-- A first node is left with its whole component on top of the stack. If all of it has the
low id of the node, it is popped. -/
theorem Good.mem_popped_iff (h : Good succ t ((v, []) :: F) s)
    (hvalid : Valid succ t ((v, []) :: F)) (ht : Tracks t s)
    (hv : s.lowLinkValues.get? v = some (t.rank v)) (hfirst : First succ t v v)
    (hall : ∀ n ∈ s.stack, t.rank v ≤ t.rank n → s.lowLinkValues.get? n = some (t.rank v)) :
    n ∈ popped t s v ↔ Mutual succ v n := by
  have hle : ∀ m ∈ s.stack, s.lowLinkValues.get? m = some (t.rank v) → t.rank v ≤ t.rank m := by
    intro m hm hlow
    obtain ⟨k, hk, hklow⟩ := h.low m hm
    obtain rfl : k = t.rank v := Option.some.inj (hk.symm.trans hlow)
    exact hklow.le_rank (ht.entered_of_mem_stack hm)
  have hpopped : popped t s v = s.stack.takeWhile (HasLow s.lowLinkValues (t.rank v)) := by
    rw [popped, if_pos hv]
  constructor
  · intro hn
    have hmem : n ∈ s.stack := by
      rw [hpopped] at hn
      exact List.takeWhile_subset _ hn
    exact h.mutual_of_le hvalid ht hfirst hmem (hle n hmem (low_of_mem_popped hn))
  · intro hvn
    obtain ⟨hmem, hn⟩ := h.mem_of_mutual hvalid ht hfirst hvn
    rw [hpopped]
    refine mem_takeWhile_of_pairwise (h.sorted.imp_of_mem fun {a b} ha hb hlt hp => ?_) hmem
      (by simpa using hall n hmem hn)
    have hb' := hle b hb (by simpa using hp)
    simpa using hall a ha (hb'.trans hlt.le)

theorem Tracks.nodup_stack (h : Tracks t s) (ht : t.entered.Nodup) : s.stack.Nodup :=
  (List.nodup_append.mp (h.perm.nodup_iff.mpr ht)).1

/-- Then the component is returned, and nothing else changes. -/
theorem Good.leave_of_all (h : Good succ t ((v, []) :: F) s)
    (hvalid : Valid succ t ((v, []) :: F)) (ht : Tracks t s)
    (hv : s.lowLinkValues.get? v = some (t.rank v)) (hfirst : First succ t v v)
    (hall : ∀ n ∈ s.stack, t.rank v ≤ t.rank n → s.lowLinkValues.get? n = some (t.rank v))
    (hs' : Closed s s' (popped t s v)) : Good succ t F s' := by
  have hpopped : ∀ n, n ∈ popped t s v ↔ Mutual succ v n :=
    fun n => h.mem_popped_iff hvalid ht hv hfirst hall
  have hne : popped t s v ≠ [] := List.ne_nil_of_mem ((hpopped v).mpr (.refl v))
  have hcomponents : s'.stronglyConnectedComponents =
      s.stronglyConnectedComponents ++ [popped t s v] := by
    rw [hs'.components, if_neg hne]
  have hsub : ∀ n ∈ s'.stack, n ∈ s.stack ∧ n ∉ popped t s v := by
    intro n hn
    have hnodup := ht.nodup_stack hvalid.nodup
    rw [hs'.stack] at hnodup ⊢
    exact ⟨by simp [hn], fun hn' => List.disjoint_of_nodup_append hnodup hn' hn⟩
  have hmem : ∀ n, n ∈ s'.stronglyConnectedComponents.flatten ↔
      n ∈ s.stronglyConnectedComponents.flatten ∨ Mutual succ v n := by
    intro n
    rw [hs'.flatten, List.mem_append, hpopped]
  constructor
  case closed =>
    intro n hn m hm
    rw [hmem] at hn ⊢
    rcases hn with hn | hn
    · exact Or.inl (h.closed n hn m hm)
    · exact (h.mem_of_leadsto hvalid ht hfirst (hn.1.tail hm)).imp_right
        fun ⟨hm, hle⟩ => h.mutual_of_le hvalid ht hfirst hm hle
  case component =>
    intro scc hscc n hn m
    rw [hcomponents, List.mem_append, List.mem_singleton] at hscc
    rcases hscc with hscc | rfl
    · exact h.component scc hscc n hn m
    · rw [hpopped] at hn ⊢
      exact ⟨hn.symm.trans, hn.trans⟩
  case sorted =>
    have hsorted := h.sorted
    rw [hs'.stack] at hsorted
    exact (List.pairwise_append.mp hsorted).2.1
  case call =>
    intro n hn
    obtain ⟨hn, hnot⟩ := hsub n hn
    obtain ⟨f, hf, hfn, hle⟩ := h.call n hn
    rcases List.mem_cons.mp hf with rfl | hf
    · exact absurd ((hpopped n).mpr hfn) hnot
    · exact ⟨f, hf, hfn, hle⟩
  case onStack =>
    intro f hf
    have hstack := h.onStack f (by simp [hf])
    rw [hs'.stack, List.mem_append] at hstack
    refine hstack.resolve_left fun hp => ?_
    have hle := hfirst.le f.1 (hvalid.active f (by simp [hf])) ((hpopped f.1).mp hp)
    exact absurd (List.rel_of_pairwise_cons hvalid.order hf) (not_lt.mpr hle)
  case low =>
    rw [hs'.lowLinkValues]
    exact fun n hn => h.low n (hsub n hn).1
  case linked =>
    intro n hn r hr
    rcases (hmem n).mp hn with hn | hvn
    · exact h.linked n hn r hr
    · have hnv := hfirst.congr hvn.symm
      obtain rfl := hnv.eq hr
      obtain ⟨hstack, hle⟩ := h.mem_of_mutual hvalid ht hfirst hvn
      obtain ⟨k, hk, hlow⟩ := h.low n hstack
      exact (hlow.eq_rank_iff hnv).mp (Option.some.inj (hk.symm.trans (hall n hstack hle)))

/-! ## Once a node is stuck -/

/-- The node `n` is left and on the stack with the id of `a`, which is left too, and is not
linked back to `r`, the first node of its component. -/
structure StuckAt (succ : INode → List INode) (t : Trace INode) (F : List (Frame INode))
    (s : SccState) (n a r : INode) : Prop where
  onStack : n ∈ s.stack
  entered : a ∈ t.entered
  left : n ∉ F.map Prod.fst
  low_left : a ∉ F.map Prod.fst
  low : s.lowLinkValues.get? n = some (t.rank a)
  first : First succ t n r
  not_linked : ¬LinkedBack t.edges n r

/-- Some node is stuck. -/
def Stuck (succ : INode → List INode) (t : Trace INode) (F : List (Frame INode))
    (s : SccState) : Prop := ∃ n a r, StuckAt succ t F s n a r

theorem Stuck.visit (h : Stuck succ t F s) (ht : Tracks t s) (hv : v ∉ t.entered) :
    Stuck succ (t.enter v) ((v, succ v) :: F) (s.visit v) := by
  obtain ⟨n, a, r, h⟩ := h
  have hn := ne_of_mem_of_not_mem (ht.entered_of_mem_stack h.onStack) hv
  have ha := ne_of_mem_of_not_mem h.entered hv
  refine ⟨n, a, r, ?_, by simp [h.entered], ?_, ?_, ?_, h.first.enter hv, h.not_linked⟩
  · simp [SccState.visit, h.onStack]
  · rw [List.map_cons, List.mem_cons, not_or]
    exact ⟨hn, h.left⟩
  · rw [List.map_cons, List.mem_cons, not_or]
    exact ⟨ha, h.low_left⟩
  · simp only [SccState.visit, OrderedMap.get?_set, if_neg hn.symm, Trace.rank_enter h.entered]
    exact h.low

theorem Stuck.minLowLink {cs : List INode} (h : Stuck succ t ((v, c :: cs) :: F) s)
    (hs' : Minned s s' v c) : Stuck succ (t.traverse v c) ((v, cs) :: F) s' := by
  obtain ⟨n, a, r, h⟩ := h
  have hn : n ≠ v := fun he => h.left (by simp [he])
  refine ⟨n, a, r, by rw [hs'.stack]; exact h.onStack, h.entered, by simpa using h.left,
    by simpa using h.low_left, by rw [hs'.low_of_ne n hn]; exact h.low,
    ⟨h.first.entered, h.first.mutual_first, h.first.le⟩, ?_⟩
  exact fun hback => h.not_linked ((linkedBack_concat_of_ne hn).mp hback)

/-- What has another low id than the node that is left stays on the stack. -/
theorem Closed.mem_stack {popped' : List INode} (hs' : Closed s s' popped')
    (hn : n ∈ s.stack) (hnot : n ∉ popped') : n ∈ s'.stack := by
  rw [hs'.stack, List.mem_append] at hn
  exact hn.resolve_left hnot

theorem Stuck.closeScc (h : Stuck succ t ((v, []) :: F) s)
    (hs' : Closed s s' (popped t s v)) : Stuck succ t F s' := by
  obtain ⟨n, a, r, h⟩ := h
  have hsub : ∀ {x}, x ∉ ((v, []) :: F).map Prod.fst → x ∉ F.map Prod.fst :=
    fun hx hx' => hx (by simp at hx' ⊢; exact Or.inr hx')
  refine ⟨n, a, r, hs'.mem_stack h.onStack fun hp => ?_, h.entered, hsub h.left,
    hsub h.low_left, by rw [hs'.lowLinkValues]; exact h.low, h.first, h.not_linked⟩
  have hrank := Option.some.inj (h.low.symm.trans (low_of_mem_popped hp))
  have hav := (Trace.rank_inj h.entered).mp hrank
  exact h.low_left (by simp [hav])

/-- If a component is not popped as a whole, a node of it is stuck. -/
theorem Good.stuck_of_exists (h : Good succ t ((v, []) :: F) s)
    (hvalid : Valid succ t ((v, []) :: F)) (ht : Tracks t s)
    (hfirst : First succ t v v) (hn : n ∈ s.stack) (hle : t.rank v ≤ t.rank n)
    (hlow : s.lowLinkValues.get? n ≠ some (t.rank v)) (hs' : Closed s s' (popped t s v)) :
    Stuck succ t F s' := by
  obtain ⟨k, hk, hklow⟩ := h.low n hn
  have hvn := h.mutual_of_le hvalid ht hfirst hn hle
  have hnv := hfirst.congr hvn.symm
  obtain ⟨a, ha, hback, hna, rfl⟩ := hklow.attained
  have hva : t.rank v ≤ t.rank a := (h.mem_of_mutual hvalid ht hfirst (hvn.trans hna)).2
  have hleft : ∀ x, t.rank v ≤ t.rank x → x ∉ F.map Prod.fst := by
    intro x hx hmem
    obtain ⟨f, hf, rfl⟩ := List.mem_map.mp hmem
    exact absurd (List.rel_of_pairwise_cons hvalid.order hf) (not_lt.mpr hx)
  refine ⟨n, a, v, hs'.mem_stack hn fun hp => hlow (low_of_mem_popped hp), ha, hleft n hle,
    hleft a hva, by rw [hs'.lowLinkValues]; exact hk, hnv, fun hback' => hlow ?_⟩
  rw [hk, (hklow.eq_rank_iff hnv).mpr hback']

/-- Leaving a node keeps the stack good, or a node gets stuck. -/
theorem Good.closeScc (h : Good succ t ((v, []) :: F) s) (hvalid : Valid succ t ((v, []) :: F))
    (ht : Tracks t s) (hs' : Closed s s' (popped t s v)) :
    Good succ t F s' ∨ Stuck succ t F s' := by
  by_cases hv : s.lowLinkValues.get? v = some (t.rank v)
  · have hfirst : First succ t v v := by
      obtain ⟨k, hk, hlow⟩ := h.low v (h.onStack (v, []) (by simp))
      obtain rfl : k = t.rank v := Option.some.inj (hk.symm.trans hv)
      exact hvalid.first_of_isLow hlow
    by_cases hall : ∀ n ∈ s.stack, t.rank v ≤ t.rank n →
        s.lowLinkValues.get? n = some (t.rank v)
    · exact Or.inl (h.leave_of_all hvalid ht hv hfirst hall hs')
    · push Not at hall
      obtain ⟨n, hn, hle, hlow⟩ := hall
      exact Or.inr (h.stuck_of_exists hvalid ht hfirst hn hle hlow hs')
  · have hp : popped t s v = [] := by rw [popped, if_neg hv]
    have hstack := hs'.stack
    have hcomponents := hs'.components
    rw [hp] at hstack hcomponents
    exact Or.inl ((h.leave_of_ne hvalid ht hv).congr (by simp [hstack]) (by simp [hcomponents])
      hs'.lowLinkValues)

end SccState

/-! ## The whole traversal -/

namespace DirectedGraph

open SccState

variable {g : DirectedGraph} {t : Trace INode} {F : List (Frame INode)} {s : SccState}
  {n m : INode}

/-- `followNode`, in its parts. -/
def sccVisitor (g : DirectedGraph) : Visitor INode SccState GraphError where
  seen s node := node ∈ s.visited
  enter := SccState.visit
  next node := do return (← g.getDirectChildConnections node).map (·.to)
  back := SccState.minLowLink
  leave := SccState.closeScc

theorem followNode_eq_follow (fuel : ℕ) :
    g.followNode fuel = g.sccVisitor.follow .outOfFuel fuel := by
  induction fuel with
  | zero => rfl
  | succ fuel ih =>
    funext s node
    rw [followNode, Visitor.follow, ih]
    simp [sccVisitor]

/-- What holds all along the traversal. -/
structure SccInvariant (g : DirectedGraph) (t : Trace INode) (F : List (Frame INode))
    (s : SccState) : Prop where
  within : t.entered ⊆ g.getNodes
  tracks : Tracks t s
  good_or_stuck : Good g.directChildren t F s ∨ Stuck g.directChildren t F s

theorem keeps_sccVisitor :
    Keeps g.sccVisitor g.directChildren g.getNodes.toFinset g.SccInvariant where
  seen {t F s v} _ hI := by simp [sccVisitor, hI.tracks.visited]
  next {v} hv := by
    have hnode := mem_getNodes_iff.mp (List.mem_toFinset.mp hv)
    simp only [sccVisitor, getDirectChildConnections_eq hnode]
    rfl
  enter {t F s v} hvalid hI hvU hv _ := by
    refine ⟨fun n hn => ?_, hI.tracks.visit hv, ?_⟩
    · rcases Trace.mem_entered_enter.mp hn with hn | rfl
      · exact hI.within hn
      · exact List.mem_toFinset.mp hvU
    · exact hI.good_or_stuck.imp (·.visit hvalid hI.tracks hv) (·.visit hI.tracks hv)
  back {t F s v c cs} hvalid hI hc := by
    have hv := hvalid.active (v, c :: cs) (by simp)
    obtain ⟨s', hs', htracks, hmin⟩ := minLowLink_spec hI.tracks hv hc
    exact ⟨s', hs', hI.within, htracks,
      hI.good_or_stuck.imp (·.minLowLink hvalid hI.tracks hc hmin) (·.minLowLink hmin)⟩
  leave {t F s v} hvalid hI := by
    have hv := hvalid.active (v, []) (by simp)
    obtain ⟨s', hs', htracks, hclosed⟩ := closeScc_spec hI.tracks hvalid.nodup hv
    refine ⟨s', hs', hI.within, htracks, ?_⟩
    rcases hI.good_or_stuck with h | h
    · exact h.closeScc hvalid hI.tracks hclosed
    · exact Or.inr (h.closeScc hclosed)

theorem mem_directChildren_iff : m ∈ g.directChildren n ↔ g.Connected n m := by
  simp [directChildren, Connected, JoinedBy, and_assoc]

theorem mutual_directChildren_iff : Mutual g.directChildren n m ↔ g.Cyclic n m := by
  have h : (fun a b => b ∈ g.directChildren a) = g.Connected := by
    funext a b
    exact propext mem_directChildren_iff
  unfold Mutual Leadsto
  rw [h]
  rfl

/-- The function succeeds, and ends with the invariant. -/
theorem getStronglyConnectedComponents_spec (hg : g.JoinsNodes) :
    ∃ s, g.getStronglyConnectedComponents = .ok s.stronglyConnectedComponents ∧
      Valid g.directChildren g.traversal [] ∧ g.SccInvariant g.traversal [] s ∧
      ∀ n, n ∈ g.traversal.entered ↔ g.HasNode n := by
  have hU : ∀ v ∈ g.getNodes.toFinset, ∀ c ∈ g.directChildren v, c ∈ g.getNodes.toFinset := by
    intro v _ c hc
    obtain ⟨d, hd, -, rfl⟩ := mem_directChildren_iff.mp hc
    exact List.mem_toFinset.mpr (mem_getNodes_iff.mpr (hg d hd).2)
  have hfuel : g.getNodes.toFinset.card < g.fuel := by
    have := g.getNodes.toFinset_card_le
    rw [length_getNodes] at this
    unfold fuel
    omega
  obtain ⟨s, hs, hadv, hmem⟩ := keeps_sccVisitor.foldlM_follow hU .outOfFuel hfuel
    (fun v hv => List.mem_toFinset.mpr hv) (Valid.nil _)
    ⟨List.nil_subset _, Tracks.nil, Or.inl Good.nil⟩
  refine ⟨s, ?_, hadv.valid, hadv.inv, fun n => ⟨fun hn => ?_, fun hn => ?_⟩⟩
  · rw [getStronglyConnectedComponents, followNode_eq_follow, hs]
    rfl
  · exact mem_getNodes_iff.mp (hadv.inv.within hn)
  · exact hmem n (mem_getNodes_iff.mpr hn)

theorem entersFirst_iff (ht : ∀ n, n ∈ g.traversal.entered ↔ g.HasNode n) :
    g.EntersFirst n m ↔ First g.directChildren g.traversal n m := by
  constructor
  · rintro ⟨h₁, h₂, h₃⟩
    exact ⟨(ht m).mpr h₁, mutual_directChildren_iff.mpr h₂,
      fun w hw hnw => h₃ w ((ht w).mp hw) (mutual_directChildren_iff.mp hnw)⟩
  · rintro ⟨h₁, h₂, h₃⟩
    exact ⟨(ht m).mp h₁, mutual_directChildren_iff.mp h₂,
      fun w hw hnw => h₃ w ((ht w).mpr hw) (mutual_directChildren_iff.mpr hnw)⟩

/-- With a good stack in the end, the components are exact, and the graph returns in order. -/
theorem exact_of_good (hvalid : Valid g.directChildren g.traversal [])
    (htracks : Tracks g.traversal s) (ht : ∀ n, n ∈ g.traversal.entered ↔ g.HasNode n)
    (h : Good g.directChildren g.traversal [] s) :
    g.Exact s.stronglyConnectedComponents ∧ g.ReturnsInOrder := by
  have hstack : s.stack = [] := List.eq_nil_iff_forall_not_mem.mpr fun n hn => by
    obtain ⟨f, hf, -⟩ := h.call n hn
    cases hf
  have hmem : ∀ n, n ∈ s.stronglyConnectedComponents.flatten ↔ g.HasNode n := by
    intro n
    rw [← ht, htracks.mem_entered_iff, hstack]
    simp
  have hnodup : s.stronglyConnectedComponents.flatten.Nodup := by
    have := htracks.perm.nodup_iff.mpr hvalid.nodup
    rwa [hstack, List.nil_append] at this
  constructor
  · refine ⟨(List.nodup_flatten.mp hnodup).2, fun n => by rw [← hmem, List.mem_flatten], ?_⟩
    intro n m hn _
    rw [← mutual_directChildren_iff]
    constructor
    · rintro ⟨scc, hscc, hn, hm⟩
      exact (h.component scc hscc n hn m).mp hm
    · intro hnm
      obtain ⟨scc, hscc, hn⟩ := List.mem_flatten.mp ((hmem n).mpr hn)
      exact ⟨scc, hscc, hn, (h.component scc hscc n hn m).mpr hnm⟩
  · exact fun n first hn hfirst =>
      h.linked n ((hmem n).mpr hn) first ((entersFirst_iff ht).mp hfirst)

/-- A node that is stuck is in no component, and does not return in order. -/
theorem not_exact_of_stuck (hvalid : Valid g.directChildren g.traversal [])
    (htracks : Tracks g.traversal s) (ht : ∀ n, n ∈ g.traversal.entered ↔ g.HasNode n)
    (h : Stuck g.directChildren g.traversal [] s) :
    ¬g.Exact s.stronglyConnectedComponents ∧ ¬g.ReturnsInOrder := by
  obtain ⟨n, a, r, h⟩ := h
  have hn : g.HasNode n := (ht n).mp (htracks.entered_of_mem_stack h.onStack)
  refine ⟨fun hexact => ?_, fun hreturns => ?_⟩
  · exact htracks.notMem_flatten hvalid.nodup h.onStack
      (List.mem_flatten.mpr ((hexact.union n).mpr hn))
  · exact h.not_linked (hreturns n r hn ((entersFirst_iff ht).mpr h.first))

/-- `getStronglyConnectedComponents` returns sets, and they are the strongly connected
components just in case every node reaches the first node of its component along connections
that the depth-first traversal completes in reverse order. -/
theorem getStronglyConnectedComponents_exact_iff (hg : g.JoinsNodes) :
    ∃ sccs, g.getStronglyConnectedComponents = .ok sccs ∧ (g.Exact sccs ↔ g.ReturnsInOrder) := by
  obtain ⟨s, hs, hvalid, hinv, ht⟩ := getStronglyConnectedComponents_spec hg
  refine ⟨_, hs, ?_⟩
  rcases hinv.good_or_stuck with h | h
  · obtain ⟨hexact, hreturns⟩ := exact_of_good hvalid hinv.tracks ht h
    exact iff_of_true hexact hreturns
  · obtain ⟨hexact, hreturns⟩ := not_exact_of_stuck hvalid hinv.tracks ht h
    exact iff_of_false hexact hreturns

/-- Two cycles through `A`, the inner one first. -/
def innerCycleGraph : DirectedGraph :=
  .ofLists [.named "Root", .named "A", .named "B"]
    [{ «from» := .named "Root", «to» := .named "A" },
      { «from» := .named "A", «to» := .named "B" },
      { «from» := .named "A", «to» := .named "Root" },
      { «from» := .named "B", «to» := .named "A" }]

theorem getStronglyConnectedComponents_exact_iff_innerCycleGraph :
    innerCycleGraph.JoinsNodes ∧ ∃ sccs,
      innerCycleGraph.getStronglyConnectedComponents = .ok sccs ∧
        (innerCycleGraph.Exact sccs ↔ innerCycleGraph.ReturnsInOrder) := by
  have h : innerCycleGraph.JoinsNodes := by decide
  exact ⟨h, getStronglyConnectedComponents_exact_iff h⟩

/-- Of the three nodes, which are on one cycle, none is returned. -/
theorem getStronglyConnectedComponents_not_exact :
    innerCycleGraph.JoinsNodes ∧ innerCycleGraph.getStronglyConnectedComponents = .ok [] ∧
      ¬innerCycleGraph.Exact [] := by
  refine ⟨by decide, by decide, fun h => ?_⟩
  obtain ⟨scc, hscc, -⟩ := (h.union (.named "Root")).mpr (by decide)
  cases hscc

end DirectedGraph

end N8n
