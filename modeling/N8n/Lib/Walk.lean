import Mathlib.Data.List.Nodup
import Mathlib.Data.List.Infix
import Mathlib.Logic.Relation

/-!
# Walks in a directed multigraph

Edges are values with a source and a target; parallel edges stay apart. `IsWalk` says
that a list of edges leads from one vertex to another.

`IsWalk.exists_simple` shortens a walk to one that visits no vertex twice.
`IsWalk.extend_back` is the lemma behind a backward search that stops at the first
vertex it has seen: prepend the edges of a walk to a path, last edge first; either all
of them fit, or a vertex of the path comes up again. `Frontier` is what a forward search
finds that stops at the vertices with a property; `frontier_nil_iff` says that marking
the vertices of the branch does not lose any of them.
-/

namespace Lib

variable {V E : Type*}

/-- The edges `es` lead from the first vertex to the second. -/
inductive IsWalk (src tgt : E → V) : V → List E → V → Prop
  | nil (v : V) : IsWalk src tgt v [] v
  | cons (e : E) {es : List E} {v : V} (h : IsWalk src tgt (tgt e) es v) :
    IsWalk src tgt (src e) (e :: es) v

/-- Some edge with the property joins the two vertices. -/
def JoinedBy (src tgt : E → V) (p : E → Prop) (u v : V) : Prop :=
  ∃ e, p e ∧ src e = u ∧ tgt e = v

/-- A walk of edges with the property leads from the first vertex to the second. -/
def Reaches (src tgt : E → V) (p : E → Prop) : V → V → Prop :=
  Relation.ReflTransGen (JoinedBy src tgt p)

variable {src tgt : E → V} {u v w : V} {e : E} {es es' : List E} {p : E → Prop}

@[simp] theorem isWalk_nil_iff : IsWalk src tgt u [] v ↔ u = v := by
  constructor
  · rintro ⟨⟩
    rfl
  · rintro rfl
    exact .nil u

@[simp] theorem isWalk_cons_iff :
    IsWalk src tgt u (e :: es) v ↔ src e = u ∧ IsWalk src tgt (tgt e) es v := by
  constructor
  · rintro ⟨⟩
    exact ⟨rfl, ‹_›⟩
  · rintro ⟨rfl, h⟩
    exact .cons e h

theorem isWalk_append_iff :
    IsWalk src tgt u (es ++ es') w ↔ ∃ v, IsWalk src tgt u es v ∧ IsWalk src tgt v es' w := by
  induction es generalizing u with
  | nil => simp
  | cons e es ih => simp [ih, and_assoc]

theorem IsWalk.append (h : IsWalk src tgt u es v) (h' : IsWalk src tgt v es' w) :
    IsWalk src tgt u (es ++ es') w :=
  isWalk_append_iff.mpr ⟨v, h, h'⟩

theorem isWalk_concat_iff :
    IsWalk src tgt u (es ++ [e]) v ↔ IsWalk src tgt u es (src e) ∧ tgt e = v := by
  simp [isWalk_append_iff, and_comm]

/-- The edges and the end of a walk determine its start. -/
theorem IsWalk.start_eq (h : IsWalk src tgt u es v) (h' : IsWalk src tgt w es v) : u = w := by
  cases h with
  | nil => exact (isWalk_nil_iff.mp h').symm
  | cons e _ => exact (isWalk_cons_iff.mp h').1

/-- A walk splits at each of its edges. -/
theorem IsWalk.split (h : IsWalk src tgt u es v) (he : e ∈ es) :
    ∃ as bs, es = as ++ e :: bs ∧ IsWalk src tgt u as (src e) ∧ IsWalk src tgt (tgt e) bs v := by
  obtain ⟨as, bs, rfl⟩ := List.append_of_mem he
  obtain ⟨x, ha, hb⟩ := isWalk_append_iff.mp h
  obtain ⟨rfl, hb'⟩ := isWalk_cons_iff.mp hb
  exact ⟨as, bs, rfl, ha, hb'⟩

/-- A nonempty walk ends at the target of its last edge. -/
theorem IsWalk.mem_targets (h : IsWalk src tgt u es v) (hne : es ≠ []) : v ∈ es.map tgt := by
  obtain ⟨as, e, rfl⟩ := List.eq_nil_or_concat es |>.resolve_left hne
  rw [List.concat_eq_append] at h ⊢
  simp [(isWalk_concat_iff.mp h).2]

/-! ## Reachability -/

theorem Reaches.of_edge (he : p e) : Reaches src tgt p (src e) (tgt e) :=
  .single ⟨e, he, rfl, rfl⟩

theorem Reaches.mono {q : E → Prop} (hpq : ∀ e, p e → q e) (h : Reaches src tgt p u v) :
    Reaches src tgt q u v :=
  Relation.ReflTransGen.mono (fun _ _ ⟨e, he, h⟩ => ⟨e, hpq e he, h⟩) u v h

theorem IsWalk.reaches (h : IsWalk src tgt u es v) (hp : ∀ e ∈ es, p e) :
    Reaches src tgt p u v := by
  induction h with
  | nil v => exact .refl
  | cons e _ ih =>
    exact (Reaches.of_edge (hp e (by simp))).trans (ih fun e he => hp e (by simp [he]))

theorem reaches_iff_walk :
    Reaches src tgt p u v ↔ ∃ es, IsWalk src tgt u es v ∧ ∀ e ∈ es, p e := by
  constructor
  · intro h
    induction h using Relation.ReflTransGen.head_induction_on with
    | refl => exact ⟨[], .nil v, by simp⟩
    | head hstep _ ih =>
      obtain ⟨e, he, rfl, rfl⟩ := hstep
      obtain ⟨es, hw, hes⟩ := ih
      exact ⟨e :: es, .cons e hw, by simpa using ⟨he, hes⟩⟩
  · rintro ⟨es, hw, hes⟩
    exact hw.reaches hes

/-- A path to the only vertex by which one can leave a set stays in the set until it gets
there. -/
theorem reflTransGen_inside {r : V → V → Prop} {S : V → Prop} {exit : V}
    (hexit : ∀ a b, r a b → S a → ¬S b → a = exit) (hu : S u) (h : Relation.ReflTransGen r u exit) :
    Relation.ReflTransGen (fun a b => r a b ∧ S a ∧ S b) u exit := by
  induction h using Relation.ReflTransGen.head_induction_on with
  | refl => exact .refl
  | @head a c hac _ ih =>
    by_cases hc : S c
    · exact .head ⟨hac, hu, hc⟩ (ih hc)
    · rw [hexit a c hac hu hc]

/-! ## Simple walks -/

/-- From any vertex a simple walk visits, the rest of it is a simple walk. -/
theorem IsWalk.drop_to (h : IsWalk src tgt u es v) (hn : (u :: es.map tgt).Nodup)
    (hw : w ∈ u :: es.map tgt) :
    ∃ es', es' <:+ es ∧ IsWalk src tgt w es' v ∧ (w :: es'.map tgt).Nodup := by
  induction h with
  | nil v =>
    obtain rfl : w = v := by simpa using hw
    exact ⟨[], List.suffix_refl _, .nil w, by simp⟩
  | cons e h ih =>
    rcases List.mem_cons.mp hw with rfl | hw
    · exact ⟨_, List.suffix_refl _, .cons e h, hn⟩
    · obtain ⟨es', hsuf, hwalk, hn'⟩ := ih (List.nodup_cons.mp hn).2 hw
      exact ⟨es', hsuf.trans (List.suffix_cons e _), hwalk, hn'⟩

/-- A walk can be shortened to one that visits no vertex twice. -/
theorem IsWalk.exists_simple (h : IsWalk src tgt u es v) :
    ∃ es', es' ⊆ es ∧ IsWalk src tgt u es' v ∧ (u :: es'.map tgt).Nodup := by
  classical
  induction h with
  | nil v => exact ⟨[], List.Subset.refl _, .nil v, by simp⟩
  | @cons e es v h ih =>
    obtain ⟨es', hsub, hwalk, hn⟩ := ih
    have hsub' : es' ⊆ e :: es := List.subset_cons_of_subset e hsub
    by_cases hmem : src e ∈ tgt e :: es'.map tgt
    · obtain ⟨es'', hsuf, hwalk', hn'⟩ := hwalk.drop_to hn hmem
      exact ⟨es'', List.Subset.trans hsuf.subset hsub', hwalk', hn'⟩
    · refine ⟨e :: es', List.cons_subset_cons e hsub, .cons e hwalk, ?_⟩
      exact List.nodup_cons.mpr ⟨hmem, hn⟩

/-- The vertices of a walk, once by source and once by target. -/
theorem IsWalk.cons_targets (h : IsWalk src tgt u es v) : u :: es.map tgt = es.map src ++ [v] := by
  induction h with
  | nil v => rfl
  | cons e _ ih => rw [List.map_cons, List.map_cons, List.cons_append, ih]

/-- Prepend the edges of a walk `as` into `u` to a walk `es` out of `u`, last edge first,
until a vertex of the result comes up again. Either all of `as` is prepended, or the
vertex that came up again is one `as` passes through. -/
theorem IsWalk.extend_back {a : V} {as : List E} (ha : IsWalk src tgt a as u)
    (h : IsWalk src tgt u es v) (hn : (es.map tgt).Nodup) :
    ∃ es' x, es <:+ es' ∧ es' ⊆ as ++ es ∧ IsWalk src tgt x es' v ∧ (es'.map tgt).Nodup ∧
      ((x = a ∧ es' = as ++ es) ∨ (x ∈ es'.map tgt ∧ x ∈ as.map tgt)) := by
  classical
  induction as using List.reverseRecOn generalizing u es with
  | nil =>
    obtain rfl := isWalk_nil_iff.mp ha
    exact ⟨es, a, List.suffix_refl _, by simp, h, hn, Or.inl ⟨rfl, rfl⟩⟩
  | append_singleton as e ih =>
    obtain ⟨ha', rfl⟩ := isWalk_concat_iff.mp ha
    by_cases hmem : tgt e ∈ es.map tgt
    · exact ⟨es, tgt e, List.suffix_refl _, by simp, h, hn, Or.inr ⟨hmem, by simp⟩⟩
    · have hn' : ((e :: es).map tgt).Nodup := List.nodup_cons.mpr ⟨hmem, hn⟩
      obtain ⟨es', x, hsuf, hsub, hwalk, hnd, hx⟩ := ih ha' (.cons e h) hn'
      refine ⟨es', x, (List.suffix_cons e es).trans hsuf, by simpa using hsub, hwalk, hnd, ?_⟩
      rcases hx with ⟨rfl, rfl⟩ | ⟨hx, hx'⟩
      · exact Or.inl ⟨rfl, by simp⟩
      · exact Or.inr ⟨hx, by simp [hx']⟩

/-! ## The first vertices with a property -/

/-- Some walk from `u` meets a vertex that satisfies `stop` only at its end `v`; before, it
visits no vertex twice and none of `seen`. -/
def Frontier (src tgt : E → V) (p : E → Prop) (stop : V → Prop) (seen : List V) (u v : V) : Prop :=
  stop v ∧ ∃ es, IsWalk src tgt u es v ∧ (∀ e ∈ es, p e ∧ ¬stop (src e) ∧ src e ∉ seen) ∧
    (es.map src).Nodup

variable {stop : V → Prop} {seen : List V}

theorem frontier_of_stop (hu : stop u) : Frontier src tgt p stop seen u v ↔ v = u := by
  constructor
  · rintro ⟨-, es, hw, hes, -⟩
    cases hw with
    | nil => rfl
    | cons e _ => exact absurd hu (hes e (by simp)).2.1
  · rintro rfl
    exact ⟨hu, [], .nil v, by simp, by simp⟩

theorem not_frontier_of_mem (hu : ¬stop u) (hs : u ∈ seen) :
    ¬Frontier src tgt p stop seen u v := by
  rintro ⟨hv, es, hw, hes, -⟩
  cases hw with
  | nil => exact hu hv
  | cons e _ => exact (hes e (by simp)).2.2 hs

theorem frontier_of_not_stop (hu : ¬stop u) (hs : u ∉ seen) :
    Frontier src tgt p stop seen u v ↔
      ∃ e, p e ∧ src e = u ∧ Frontier src tgt p stop (seen ++ [u]) (tgt e) v := by
  constructor
  · rintro ⟨hv, es, hw, hes, hn⟩
    cases hw with
    | nil => exact absurd hv hu
    | @cons e es _ hw =>
      rw [List.map_cons, List.nodup_cons] at hn
      refine ⟨e, (hes e (by simp)).1, rfl, hv, es, hw, fun d hd => ?_, hn.2⟩
      obtain ⟨hp, hstop, hseen⟩ := hes d (by simp [hd])
      refine ⟨hp, hstop, ?_⟩
      rw [List.mem_append, List.mem_singleton, not_or]
      exact ⟨hseen, fun he => hn.1 (he ▸ List.mem_map_of_mem hd)⟩
  · rintro ⟨e, hp, rfl, hv, es, hw, hes, hn⟩
    refine ⟨hv, e :: es, .cons e hw, fun d hd => ?_, ?_⟩
    · rcases List.mem_cons.mp hd with rfl | hd
      · exact ⟨hp, hu, hs⟩
      · obtain ⟨hp, hstop, hseen⟩ := hes d hd
        exact ⟨hp, hstop, fun h => hseen (by simp [h])⟩
    · rw [List.map_cons, List.nodup_cons]
      refine ⟨fun hmem => ?_, hn⟩
      obtain ⟨d, hd, he⟩ := List.mem_map.mp hmem
      exact (hes d hd).2.2 (by simp [he])

/-- With nothing seen the frontier is what is reachable through vertices that do not
satisfy `stop`. -/
theorem frontier_nil_iff :
    Frontier src tgt p stop [] u v ↔
      stop v ∧ Reaches src tgt (fun e => p e ∧ ¬stop (src e)) u v := by
  rw [reaches_iff_walk, Frontier]
  refine and_congr_right fun _ => ⟨?_, ?_⟩
  · rintro ⟨es, hw, hes, -⟩
    exact ⟨es, hw, fun e he => ⟨(hes e he).1, (hes e he).2.1⟩⟩
  · rintro ⟨es, hw, hes⟩
    obtain ⟨es', hsub, hw', hn⟩ := hw.exists_simple
    rw [hw'.cons_targets, List.nodup_append] at hn
    refine ⟨es', hw', fun e he => ?_, hn.1⟩
    obtain ⟨hp, hstop⟩ := hes e (hsub he)
    exact ⟨hp, hstop, List.not_mem_nil⟩

end Lib
