import Mathlib.Data.Finset.Card
import N8n.Lib.Run
import N8n.Lib.Walk

/-!
# Depth-first traversal

`explore succ fuel v t` goes depth first through what is reachable from `v`. Its trace is the
list of the vertices in the order they are entered, and the list of the edges in the order
they are completed : the edge from `v` to `c` is completed when the traversal is back from
`c`.

A `Visitor` computes along the traversal; `Visitor.follow` is the recursion. To reason about
it step by step, the calls that are under way are listed as frames, innermost first, each
with the successors that are left to go through. `Keeps.follow` is the rule : what entering,
completing an edge and leaving keep holds in the end, together with `Valid`, which says what
every depth-first traversal keeps by itself.

`LinkedBack edges v w` says that a path from `v` to `w` has its edges completed last to
first, which is how far a value that is passed on at the completion of an edge gets.
`Valid.exists_linkedBack` : a vertex that is left, and is not the first of its strongly
connected component, is linked back to a vertex of the component entered before it.
-/

set_option linter.unusedSectionVars false

namespace Lib

variable {V S ε : Type} [DecidableEq V]

/-! ## Linked back -/

/-- A path from `v` to `w` the edges of which are completed in reverse order. -/
def LinkedBack (edges : List (V × V)) (v w : V) : Prop :=
  ∃ path, IsWalk Prod.fst Prod.snd v path w ∧ path.Sublist edges.reverse

variable {edges : List (V × V)} {u v w c x y : V}

theorem LinkedBack.refl (edges : List (V × V)) (v : V) : LinkedBack edges v v :=
  ⟨[], .nil v, List.nil_sublist _⟩

/-- What completing an edge adds : its source is linked to what its target is linked to. -/
theorem linkedBack_concat_iff :
    LinkedBack (edges ++ [(v, c)]) x w ↔
      LinkedBack edges x w ∨ (x = v ∧ LinkedBack edges c w) := by
  simp only [LinkedBack, List.reverse_append, List.reverse_singleton, List.singleton_append,
    List.sublist_cons_iff]
  constructor
  · rintro ⟨path, hw, hs | ⟨rest, rfl, hs⟩⟩
    · exact Or.inl ⟨path, hw, hs⟩
    · obtain ⟨hx, hrest⟩ := isWalk_cons_iff.mp hw
      exact Or.inr ⟨hx.symm, rest, hrest, hs⟩
  · rintro (⟨path, hw, hs⟩ | ⟨rfl, path, hw, hs⟩)
    · exact ⟨path, hw, Or.inl hs⟩
    · exact ⟨(x, c) :: path, isWalk_cons_iff.mpr ⟨rfl, hw⟩, Or.inr ⟨path, rfl, hs⟩⟩

theorem linkedBack_concat_of_ne (hx : x ≠ v) :
    LinkedBack (edges ++ [(v, c)]) x w ↔ LinkedBack edges x w := by
  simp [linkedBack_concat_iff, hx]

theorem LinkedBack.concat (h : LinkedBack edges x w) : LinkedBack (edges ++ [(v, c)]) x w :=
  linkedBack_concat_iff.mpr (Or.inl h)

theorem LinkedBack.of_mem (h : (v, c) ∈ edges) : LinkedBack edges v c :=
  ⟨[(v, c)], .cons (v, c) (.nil c), by simpa using h⟩

/-- A vertex without completed edges is linked to itself only. -/
theorem LinkedBack.eq_of_forall (h : LinkedBack edges v w) (hv : ∀ c, (v, c) ∉ edges) :
    w = v := by
  obtain ⟨path, hw, hs⟩ := h
  cases hw with
  | nil => rfl
  | cons e _ => exact absurd (List.mem_reverse.mp (hs.subset (by simp))) (hv e.2)

/-! ## Traversals and their traces -/

/-- The vertices entered and the edges completed, in order. -/
structure Trace (V : Type) where
  entered : List V := []
  edges : List (V × V) := []

namespace Trace

variable (t : Trace V)

def enter (v : V) : Trace V := { t with entered := t.entered ++ [v] }

def traverse (v c : V) : Trace V := { t with edges := t.edges ++ [(v, c)] }

/-- When the vertex is entered. -/
def rank (v : V) : ℕ := t.entered.idxOf v

variable {t}

@[simp] theorem mem_entered_enter : x ∈ (t.enter v).entered ↔ x ∈ t.entered ∨ x = v := by
  simp [enter]

@[simp] theorem edges_enter : (t.enter v).edges = t.edges := rfl

@[simp] theorem entered_traverse : (t.traverse v c).entered = t.entered := rfl

@[simp] theorem edges_traverse : (t.traverse v c).edges = t.edges ++ [(v, c)] := rfl

@[simp] theorem rank_traverse : (t.traverse v c).rank x = t.rank x := rfl

theorem rank_lt_iff : t.rank x < t.entered.length ↔ x ∈ t.entered := List.idxOf_lt_length_iff

theorem rank_inj (hx : x ∈ t.entered) : t.rank x = t.rank y ↔ x = y := List.idxOf_inj hx

theorem rank_enter (hx : x ∈ t.entered) : (t.enter v).rank x = t.rank x :=
  List.idxOf_append_of_mem hx

theorem rank_enter_self (hv : v ∉ t.entered) : (t.enter v).rank v = t.entered.length := by
  rw [rank, enter, List.idxOf_append_of_notMem hv, List.idxOf_cons_self, Nat.add_zero]

/-- The vertex entered last has the greatest rank. -/
theorem rank_enter_lt (hx : x ∈ t.entered) (hv : v ∉ t.entered) :
    (t.enter v).rank x < (t.enter v).rank v := by
  rw [rank_enter hx, rank_enter_self hv]
  exact rank_lt_iff.mpr hx

end Trace

/-- Go depth first through what is reachable from `v` and not entered yet. -/
def explore (succ : V → List V) : ℕ → V → Trace V → Trace V
  | 0, _, t => t
  | fuel + 1, v, t =>
    if v ∈ t.entered then t
    else (succ v).foldl (fun t c => (explore succ fuel c t).traverse v c) (t.enter v)

/-- What is computed along a traversal : when a vertex is entered, when the traversal is back
from a successor, and when a vertex is left. -/
structure Visitor (V S ε : Type) where
  seen : S → V → Bool
  enter : S → V → S
  next : V → Except ε (List V)
  back : S → V → V → Except ε S
  leave : S → V → Except ε S

def Visitor.follow (m : Visitor V S ε) (stuck : ε) : ℕ → S → V → Except ε S
  | 0, _, _ => .error stuck
  | fuel + 1, s, v =>
    if m.seen s v then .ok s
    else do
      let cs ← m.next v
      let s ← cs.foldlM (fun s c => do m.back (← m.follow stuck fuel s c) v c) (m.enter s v)
      m.leave s v

/-! ## What every traversal keeps -/

/-- A call under way : its vertex, and the successors left. -/
abbrev Frame (V : Type) := V × List V

/-- The innermost call, if there is one, is about to go to `v`. -/
def Turn (F : List (Frame V)) (v : V) : Prop := ∀ f ∈ F.head?, ∃ cs, f.2 = v :: cs

/-- `w` is reachable from `v`. -/
abbrev Leadsto (succ : V → List V) : V → V → Prop :=
  Relation.ReflTransGen fun a b => b ∈ succ a

/-- Each is reachable from the other. -/
def Mutual (succ : V → List V) (v w : V) : Prop := Leadsto succ v w ∧ Leadsto succ w v

structure Valid (succ : V → List V) (t : Trace V) (F : List (Frame V)) : Prop where
  nodup : t.entered.Nodup
  active : ∀ f ∈ F, f.1 ∈ t.entered
  order : F.Pairwise fun f f' => t.rank f'.1 < t.rank f.1
  pending : ∀ f ∈ F, f.2 ⊆ succ f.1 ∧ ∀ c ∈ succ f.1, c ∈ f.2 ∨ (f.1, c) ∈ t.edges
  done : ∀ v ∈ t.entered, v ∉ F.map Prod.fst → ∀ c ∈ succ v, (v, c) ∈ t.edges
  edge : ∀ v c, (v, c) ∈ t.edges → v ∈ t.entered ∧ c ∈ t.entered ∧ c ∈ succ v
  leads : ∀ f ∈ F, ∀ u ∈ t.entered, t.rank f.1 ≤ t.rank u → Leadsto succ f.1 u
  parent : ∀ f ∈ F, ∀ x ∈ t.entered, t.rank f.1 < t.rank x →
    ∃ p ∈ t.entered, t.rank f.1 ≤ t.rank p ∧ t.rank p < t.rank x ∧
      ((p, x) ∈ t.edges ∨ ∃ cs, (p, x :: cs) ∈ F)
  forward : ∀ p x, (p, x) ∈ t.edges → t.rank p < t.rank x →
    x ∉ F.map Prod.fst ∧ ∀ y, LinkedBack t.edges x y → LinkedBack t.edges p y

variable {succ : V → List V} {t : Trace V} {F : List (Frame V)} {f : Frame V}

theorem Valid.nil (succ : V → List V) : Valid succ {} [] := by
  constructor <;> simp

/-- Calls are nested in the order their vertices are entered. -/
theorem Valid.rank_le (h : Valid succ t (f :: F)) {f' : Frame V} (hf : f' ∈ f :: F) :
    t.rank f'.1 ≤ t.rank f.1 := by
  rcases List.mem_cons.mp hf with rfl | hf
  · exact le_rfl
  · exact (List.rel_of_pairwise_cons h.order hf).le

theorem Valid.notMem_of_lt (h : Valid succ t (f :: F)) (hx : t.rank f.1 < t.rank x) :
    x ∉ (f :: F).map Prod.fst := by
  rintro hmem
  obtain ⟨f', hf', rfl⟩ := List.mem_map.mp hmem
  exact absurd (h.rank_le hf') (by omega)

/-- The calls under way lead to the vertex whose turn it is. -/
theorem Valid.leads_turn (h : Valid succ t F) (hv : Turn F v) (hf : f ∈ F) :
    Leadsto succ f.1 v := by
  cases F with
  | nil => cases hf
  | cons top F =>
    obtain ⟨cs, hcs⟩ := hv top rfl
    have hsucc : v ∈ succ top.1 := (h.pending top (by simp)).1 (by simp [hcs])
    exact (h.leads f hf top.1 (h.active top (by simp)) (h.rank_le hf)).tail hsucc

theorem Valid.enter (h : Valid succ t F) (hv : v ∉ t.entered) (hturn : Turn F v) :
    Valid succ (t.enter v) ((v, succ v) :: F) where
  nodup := List.Nodup.append h.nodup (List.nodup_singleton v) (by simpa using hv)
  active f hf := by
    rcases List.mem_cons.mp hf with rfl | hf
    · simp
    · simp [h.active f hf]
  order := by
    refine List.pairwise_cons.mpr ⟨fun f hf => Trace.rank_enter_lt (h.active f hf) hv, ?_⟩
    refine h.order.imp_of_mem fun {f f'} hf hf' hlt => ?_
    rwa [Trace.rank_enter (h.active f hf), Trace.rank_enter (h.active f' hf')]
  pending f hf := by
    rcases List.mem_cons.mp hf with rfl | hf
    · exact ⟨List.Subset.refl _, fun c hc => Or.inl hc⟩
    · exact h.pending f hf
  done x hx hnot := by
    rw [List.map_cons, List.mem_cons, not_or] at hnot
    exact h.done x ((Trace.mem_entered_enter.mp hx).resolve_right hnot.1) hnot.2
  edge x c hc := by
    obtain ⟨hx, hc', hs⟩ := h.edge x c hc
    simp [hx, hc', hs]
  leads f hf u hu hle := by
    rcases List.mem_cons.mp hf with rfl | hf'
    · rcases Trace.mem_entered_enter.mp hu with hu | rfl
      · exact absurd (Trace.rank_enter_lt hu hv) (not_lt.mpr hle)
      · exact .refl
    · rcases Trace.mem_entered_enter.mp hu with hu | rfl
      · rw [Trace.rank_enter (h.active f hf'), Trace.rank_enter hu] at hle
        exact h.leads f hf' u hu hle
      · exact h.leads_turn hturn hf'
  parent f hf x hx hlt := by
    rcases List.mem_cons.mp hf with rfl | hf'
    · rcases Trace.mem_entered_enter.mp hx with hx | rfl
      · exact absurd (Trace.rank_enter_lt hx hv) hlt.le.not_gt
      · exact absurd hlt (lt_irrefl _)
    · rcases Trace.mem_entered_enter.mp hx with hx | rfl
      · rw [Trace.rank_enter (h.active f hf'), Trace.rank_enter hx] at hlt
        obtain ⟨p, hp, hle, hlt', hpx⟩ := h.parent f hf' x hx hlt
        refine ⟨p, by simp [hp], ?_, ?_, hpx.imp_right fun ⟨cs, hcs⟩ => ⟨cs, by simp [hcs]⟩⟩
        · rwa [Trace.rank_enter (h.active f hf'), Trace.rank_enter hp]
        · rwa [Trace.rank_enter hp, Trace.rank_enter hx]
      · -- the new vertex comes from the innermost call
        cases F with
        | nil => cases hf'
        | cons top F =>
          obtain ⟨cs, hcs⟩ := hturn top rfl
          have htop := h.active top (by simp)
          refine ⟨top.1, by simp [htop], ?_, Trace.rank_enter_lt htop hv, Or.inr ⟨cs, ?_⟩⟩
          · rw [Trace.rank_enter (h.active f hf'), Trace.rank_enter htop]
            exact h.rank_le hf'
          · simp [← hcs]
  forward p x hpx hlt := by
    obtain ⟨hp, hx, -⟩ := h.edge p x hpx
    rw [Trace.rank_enter hp, Trace.rank_enter hx] at hlt
    obtain ⟨hnot, hback⟩ := h.forward p x hpx hlt
    refine ⟨?_, hback⟩
    rw [List.map_cons, List.mem_cons, not_or]
    exact ⟨fun he => hv (by rwa [← show x = v from he]), hnot⟩

theorem Valid.traverse {cs : List V} (h : Valid succ t ((v, c :: cs) :: F))
    (hc : c ∈ t.entered) : Valid succ (t.traverse v c) ((v, cs) :: F) where
  nodup := h.nodup
  active f hf := by
    rcases List.mem_cons.mp hf with rfl | hf
    · exact h.active (v, c :: cs) (by simp)
    · exact h.active f (by simp [hf])
  order := List.pairwise_cons.mpr (List.pairwise_cons.mp h.order)
  pending f hf := by
    rcases List.mem_cons.mp hf with rfl | hf
    · obtain ⟨hsub, hall⟩ := h.pending (v, c :: cs) (by simp)
      refine ⟨fun x hx => hsub (by simp [hx]), fun x hx => ?_⟩
      rcases hall x hx with hx | hx
      · rcases List.mem_cons.mp hx with rfl | hx
        · simp
        · exact Or.inl hx
      · exact Or.inr (by simp [hx])
    · refine (h.pending f (by simp [hf])).imp_right fun hall x hx => ?_
      exact (hall x hx).imp_right fun hx => by simp [hx]
  done x hx hnot y hy := by
    have := h.done x hx (by simpa using hnot) y hy
    simp [this]
  edge x y hxy := by
    rcases List.mem_append.mp hxy with hxy | hxy
    · exact h.edge x y hxy
    · obtain ⟨rfl, rfl⟩ : x = v ∧ y = c := by simpa using hxy
      exact ⟨h.active (x, y :: cs) (by simp), hc, (h.pending (x, y :: cs) (by simp)).1 (by simp)⟩
  leads f hf u hu hle := by
    rcases List.mem_cons.mp hf with rfl | hf
    · exact h.leads (v, c :: cs) (by simp) u hu hle
    · exact h.leads f (by simp [hf]) u hu hle
  parent f hf x hx hlt := by
    have hold : ∃ p ∈ t.entered, t.rank f.1 ≤ t.rank p ∧ t.rank p < t.rank x ∧
        ((p, x) ∈ t.edges ∨ ∃ ds, (p, x :: ds) ∈ (v, c :: cs) :: F) := by
      rcases List.mem_cons.mp hf with rfl | hf
      · exact h.parent (v, c :: cs) (by simp) x hx hlt
      · exact h.parent f (by simp [hf]) x hx hlt
    obtain ⟨p, hp, hle, hlt', hpx | ⟨ds, hds⟩⟩ := hold
    · exact ⟨p, hp, hle, hlt', Or.inl (by simp [hpx])⟩
    · rcases List.mem_cons.mp hds with hds | hds
      · cases hds
        exact ⟨v, hp, hle, hlt', Or.inl (by simp)⟩
      · exact ⟨p, hp, hle, hlt', Or.inr ⟨ds, by simp [hds]⟩⟩
  forward p x hpx hlt := by
    rcases List.mem_append.mp hpx with hpx | hpx
    · obtain ⟨hnot, hback⟩ := h.forward p x hpx hlt
      have hne : x ≠ v := fun he => hnot (by simp [he])
      refine ⟨by simpa using hnot, fun y hy => ?_⟩
      exact (hback y ((linkedBack_concat_of_ne hne).mp hy)).concat
    · obtain ⟨rfl, rfl⟩ : p = v ∧ x = c := by simpa using hpx
      have hnot := h.notMem_of_lt hlt
      have hne : x ≠ p := fun he => hnot (by simp [he])
      refine ⟨by simpa using hnot, fun y hy => ?_⟩
      exact linkedBack_concat_iff.mpr (Or.inr ⟨rfl, (linkedBack_concat_of_ne hne).mp hy⟩)

theorem Valid.leave (h : Valid succ t ((v, []) :: F)) : Valid succ t F where
  nodup := h.nodup
  active f hf := h.active f (by simp [hf])
  order := h.order.tail
  pending f hf := h.pending f (by simp [hf])
  done x hx hnot c hc := by
    by_cases hxv : x = v
    · rw [hxv] at hc ⊢
      simpa using (h.pending (v, []) (by simp)).2 c hc
    · exact h.done x hx (by simpa [hxv] using hnot) c hc
  edge := h.edge
  leads f hf := h.leads f (by simp [hf])
  parent f hf x hx hlt := by
    obtain ⟨p, hp, hle, hlt', hpx | ⟨ds, hds⟩⟩ := h.parent f (by simp [hf]) x hx hlt
    · exact ⟨p, hp, hle, hlt', Or.inl hpx⟩
    · exact ⟨p, hp, hle, hlt', Or.inr ⟨ds, by simpa using hds⟩⟩
  forward p x hpx hlt := by
    obtain ⟨hnot, hback⟩ := h.forward p x hpx hlt
    exact ⟨fun hmem => hnot (by simpa using Or.inr hmem), hback⟩

/-! ## Leaving a vertex -/

/-- From the vertex that is left on, every edge is completed. -/
theorem Valid.completed (h : Valid succ t ((v, []) :: F)) (hx : x ∈ t.entered)
    (hle : t.rank v ≤ t.rank x) (hy : y ∈ succ x) : (x, y) ∈ t.edges := by
  rcases hle.eq_or_lt with heq | hlt
  · obtain rfl := (Trace.rank_inj (h.active (v, []) (by simp))).mp heq
    simpa using (h.pending (v, []) (by simp)).2 y hy
  · exact h.done x hx (h.notMem_of_lt hlt) y hy

/-- A path from there to a vertex entered before takes a completed edge to such a vertex. -/
theorem Valid.exists_edge_before (h : Valid succ t ((v, []) :: F)) (hlead : Leadsto succ x w)
    (hx : x ∈ t.entered) (hle : t.rank v ≤ t.rank x) (hw : t.rank w < t.rank v) :
    ∃ u ∈ t.entered, ∃ y, t.rank v ≤ t.rank u ∧ (u, y) ∈ t.edges ∧ t.rank y < t.rank v ∧
      Leadsto succ y w := by
  induction hlead using Relation.ReflTransGen.head_induction_on with
  | refl => omega
  | @head x y hstep hrest ih =>
    have hedge := h.completed hx hle hstep
    by_cases hy : t.rank y < t.rank v
    · exact ⟨x, hx, y, hle, hedge, hy, hrest⟩
    · exact ih (h.edge x y hedge).2.1 (not_lt.mp hy)

/-- What is linked back from a vertex entered later is linked back from the vertex left. -/
theorem Valid.linkedBack_of_le (h : Valid succ t ((v, []) :: F)) (hx : x ∈ t.entered)
    (hle : t.rank v ≤ t.rank x) (hxy : LinkedBack t.edges x y) : LinkedBack t.edges v y := by
  induction hr : t.rank x using Nat.strong_induction_on generalizing x with
  | _ r ih =>
    subst hr
    rcases hle.eq_or_lt with heq | hlt
    · have hvx : v = x := (Trace.rank_inj (h.active (v, []) (by simp))).mp heq
      rwa [hvx]
    · obtain ⟨p, hp, hvp, hpx, hedge | ⟨cs, hcs⟩⟩ := h.parent (v, []) (by simp) x hx hlt
      · exact ih _ hpx hp hvp ((h.forward p x hedge hpx).2 y hxy) rfl
      · -- the outer calls are at vertices entered before `v`
        rcases List.mem_cons.mp hcs with hcs | hcs
        · cases hcs
        · exact absurd (List.rel_of_pairwise_cons h.order hcs) (not_lt.mpr hvp)

/-- A vertex that is left, with a vertex of its component entered before it, is linked back
to one. -/
theorem Valid.exists_linkedBack (h : Valid succ t ((v, []) :: F)) (hvw : Mutual succ v w)
    (hlt : t.rank w < t.rank v) :
    ∃ y ∈ t.entered, Mutual succ v y ∧ LinkedBack t.edges v y ∧ t.rank y < t.rank v := by
  have hv : v ∈ t.entered := h.active (v, []) (by simp)
  obtain ⟨u, hu, y, hle, hedge, hy, hyw⟩ := h.exists_edge_before hvw.1 hv le_rfl hlt
  obtain ⟨-, hy', hsucc⟩ := h.edge u y hedge
  have hvy : Leadsto succ v y := (h.leads (v, []) (by simp) u hu hle).tail hsucc
  exact ⟨y, hy', ⟨hvy, hyw.trans hvw.2⟩, h.linkedBack_of_le hu hle (.of_mem hedge), hy⟩

/-! ## The rule -/

/-- `I` relates the trace, the calls under way and the state of the visitor, and every step
of the traversal keeps it. -/
structure Keeps (m : Visitor V S ε) (succ : V → List V) (U : Finset V)
    (I : Trace V → List (Frame V) → S → Prop) : Prop where
  seen : ∀ {t F s v}, Valid succ t F → I t F s → (m.seen s v = true ↔ v ∈ t.entered)
  next : ∀ {v}, v ∈ U → m.next v = .ok (succ v)
  enter : ∀ {t F s v}, Valid succ t F → I t F s → v ∈ U → v ∉ t.entered → Turn F v →
    I (t.enter v) ((v, succ v) :: F) (m.enter s v)
  back : ∀ {t F s v c cs}, Valid succ t ((v, c :: cs) :: F) → I t ((v, c :: cs) :: F) s →
    c ∈ t.entered → ∃ s', m.back s v c = .ok s' ∧ I (t.traverse v c) ((v, cs) :: F) s'
  leave : ∀ {t F s v}, Valid succ t ((v, []) :: F) → I t ((v, []) :: F) s →
    ∃ s', m.leave s v = .ok s' ∧ I t F s'

variable {m : Visitor V S ε} {U : Finset V} {I : Trace V → List (Frame V) → S → Prop} {s : S}

/-- Before and after a piece of a traversal. -/
structure Advances (succ : V → List V) (I : Trace V → List (Frame V) → S → Prop)
    (t t' : Trace V) (F : List (Frame V)) (s' : S) : Prop where
  valid : Valid succ t' F
  inv : I t' F s'
  entered : t.entered ⊆ t'.entered

/-- With fuel above the number of vertices left, a call with this fuel succeeds, enters its
vertex and keeps the invariant. -/
def Follows (m : Visitor V S ε) (succ : V → List V) (U : Finset V)
    (I : Trace V → List (Frame V) → S → Prop) (stuck : ε) (fuel : ℕ) : Prop :=
  ∀ {v t F s}, (U \ t.entered.toFinset).card < fuel → v ∈ U → Turn F v → Valid succ t F →
    I t F s → ∃ s', m.follow stuck fuel s v = .ok s' ∧
      Advances succ I t (explore succ fuel v t) F s' ∧ v ∈ (explore succ fuel v t).entered

/-- Entering a vertex leaves fewer to enter. -/
theorem card_sdiff_lt {t' : Trace V} (hvU : v ∈ U) (hv : v ∉ t.entered) (hv' : v ∈ t'.entered)
    (hsub : t.entered ⊆ t'.entered) :
    (U \ t'.entered.toFinset).card < (U \ t.entered.toFinset).card := by
  refine Finset.card_lt_card (Finset.ssubset_iff_of_subset ?_ |>.mpr ⟨v, ?_, ?_⟩)
  · refine Finset.sdiff_subset_sdiff le_rfl fun x hx => ?_
    exact List.mem_toFinset.mpr (hsub (List.mem_toFinset.mp hx))
  · simp [hvU, hv]
  · simp [hv']

/-- The loop over the successors of `v`, with those left in the frame of `v`. -/
theorem Keeps.foldlM_back {stuck : ε} {fuel : ℕ} (hk : Keeps m succ U I)
    (hU : ∀ v ∈ U, ∀ c ∈ succ v, c ∈ U) (hrec : Follows m succ U I stuck fuel) (hvU : v ∈ U)
    {cs : List V} (hcs : cs ⊆ succ v) (hvalid : Valid succ t ((v, cs) :: F))
    (hI : I t ((v, cs) :: F) s) (hfuel : (U \ t.entered.toFinset).card < fuel) :
    ∃ s', cs.foldlM (fun s c => do m.back (← m.follow stuck fuel s c) v c) s = .ok s' ∧
      Advances succ I t (cs.foldl (fun t c => (explore succ fuel c t).traverse v c) t)
        ((v, []) :: F) s' := by
  induction cs generalizing t s with
  | nil => exact ⟨s, rfl, hvalid, hI, List.Subset.refl _⟩
  | cons c cs ih =>
    have hc : c ∈ U := hU v hvU c (hcs (by simp))
    obtain ⟨s₁, hs₁, hadv, hmem⟩ := hrec hfuel hc (by simp [Turn]) hvalid hI
    obtain ⟨s₂, hs₂, hI₂⟩ := hk.back hadv.valid hadv.inv hmem
    have hfuel₂ : (U \ (explore succ fuel c t).entered.toFinset).card < fuel := by
      refine (Finset.card_le_card (Finset.sdiff_subset_sdiff le_rfl fun x hx => ?_)).trans_lt hfuel
      exact List.mem_toFinset.mpr (hadv.entered (List.mem_toFinset.mp hx))
    obtain ⟨s₃, hs₃, hadv₃⟩ := ih (fun x hx => hcs (by simp [hx])) (hadv.valid.traverse hmem)
      hI₂ hfuel₂
    refine ⟨s₃, ?_, hadv₃.valid, hadv₃.inv, List.Subset.trans hadv.entered hadv₃.entered⟩
    rw [List.foldlM_cons, bind_eq_ok]
    exact ⟨s₂, bind_eq_ok.mpr ⟨s₁, hs₁, hs₂⟩, hs₃⟩

/-- The rule for one call. -/
theorem Keeps.follow (hk : Keeps m succ U I) (hU : ∀ v ∈ U, ∀ c ∈ succ v, c ∈ U) (stuck : ε)
    (fuel : ℕ) : Follows m succ U I stuck fuel := by
  induction fuel with
  | zero => intro v t F s hfuel; omega
  | succ fuel ih =>
    intro v t F s hfuel hvU hturn hvalid hI
    have hseen := hk.seen hvalid hI (v := v)
    by_cases hv : v ∈ t.entered
    · refine ⟨s, by simp [Visitor.follow, hseen.mpr hv], ?_, ?_⟩
      · simpa [explore, hv] using ⟨hvalid, hI, List.Subset.refl _⟩
      · simp [explore, hv]
    · have hself : v ∈ (t.enter v).entered := by simp
      have hsub : t.entered ⊆ (t.enter v).entered := fun x hx => by simp [hx]
      have hcard := card_sdiff_lt hvU hv hself hsub
      obtain ⟨s₁, hs₁, hadv⟩ := hk.foldlM_back hU ih hvU (List.Subset.refl _)
        (hvalid.enter hv hturn) (hk.enter hvalid hI hvU hv hturn) (by omega)
      obtain ⟨s₂, hs₂, hI₂⟩ := hk.leave hadv.valid hadv.inv
      refine ⟨s₂, ?_, ?_, ?_⟩
      · rw [Visitor.follow, if_neg (mt hseen.mp hv), bind_eq_ok]
        exact ⟨_, hk.next hvU, bind_eq_ok.mpr ⟨s₁, hs₁, hs₂⟩⟩
      · rw [explore, if_neg hv]
        exact ⟨hadv.valid.leave, hI₂, List.Subset.trans hsub hadv.entered⟩
      · rw [explore, if_neg hv]
        exact hadv.entered hself

/-- The rule for a loop over start vertices. -/
theorem Keeps.foldlM_follow (hk : Keeps m succ U I) (hU : ∀ v ∈ U, ∀ c ∈ succ v, c ∈ U)
    (stuck : ε) {fuel : ℕ} (hfuel : U.card < fuel) {vs : List V} (hvs : ∀ v ∈ vs, v ∈ U)
    (hvalid : Valid succ t []) (hI : I t [] s) :
    ∃ s', vs.foldlM (m.follow stuck fuel) s = .ok s' ∧
      Advances succ I t (vs.foldl (fun t v => explore succ fuel v t) t) [] s' ∧
      ∀ v ∈ vs, v ∈ (vs.foldl (fun t v => explore succ fuel v t) t).entered := by
  induction vs generalizing t s with
  | nil => exact ⟨s, rfl, ⟨hvalid, hI, List.Subset.refl _⟩, by simp⟩
  | cons v vs ih =>
    have hcard : (U \ t.entered.toFinset).card < fuel :=
      (Finset.card_le_card Finset.sdiff_subset).trans_lt hfuel
    obtain ⟨s₁, hs₁, hadv₁, hmem₁⟩ :=
      hk.follow hU stuck fuel hcard (hvs v (by simp)) (by simp [Turn]) hvalid hI
    obtain ⟨s₂, hs₂, hadv₂, hmem₂⟩ := ih (fun u hu => hvs u (by simp [hu])) hadv₁.valid hadv₁.inv
    refine ⟨s₂, ?_, ⟨hadv₂.valid, hadv₂.inv, List.Subset.trans hadv₁.entered hadv₂.entered⟩, ?_⟩
    · rw [List.foldlM_cons, bind_eq_ok]
      exact ⟨s₁, hs₁, hs₂⟩
    · intro u hu
      rcases List.mem_cons.mp hu with rfl | hu
      · exact hadv₂.entered hmem₁
      · exact hmem₂ u hu

end Lib
