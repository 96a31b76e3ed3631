import Mathlib.Logic.Basic

/-!
# Eliminating vertices of a directed multigraph

A vertex is eliminated by splicing every edge into it with every edge out of it; the
spliced edge starts like the first and ends like the second. `Bypasses p R` are the edges
obtained from paths of edges with `p` whose inner vertices all have `R`.

`Bypasses.insert` : one more inner vertex means one more place where a path can be cut.
`Eliminated.step` follows a set of edges while vertices are eliminated one at a time : as
long as there is no cycle among the eliminated vertices the edges are those that bypass
them (`Eliminated.iff_of_not_cyclic`), and with a cycle some edge joins two of them
(`Eliminated.dangling`).
-/

namespace Lib

variable {V E : Type*}

/-- `splice e f` starts like `e` and ends like `f`, and depends on nothing else of them. -/
structure IsSplice (src tgt : E → V) (m : E → Prop) (splice : E → E → E) : Prop where
  src_splice : ∀ e f, src (splice e f) = src e
  tgt_splice : ∀ e f, tgt (splice e f) = tgt f
  splice_left : ∀ e f f', splice (splice e f) f' = splice e f'
  splice_right : ∀ e f f', splice e (splice f f') = splice e f'
  of_left : ∀ e f, m e → m (splice e f)

/-- The edge runs along a path of edges with `p` through vertices with `R`. -/
inductive Bypasses (src tgt : E → V) (splice : E → E → E) (p : E → Prop) (R : V → Prop) : E → Prop
  | edge {e : E} : p e → Bypasses src tgt splice p R e
  | cons {e c : E} : p e → R (tgt e) → src c = tgt e → Bypasses src tgt splice p R c →
      Bypasses src tgt splice p R (splice e c)

/-- A path through vertices with `R` leads from one of them back to it. -/
def Cyclic (src tgt : E → V) (splice : E → E → E) (p : E → Prop) (R : V → Prop) : Prop :=
  ∃ c, Bypasses src tgt splice p R c ∧ R (src c) ∧ tgt c = src c

variable {src tgt : E → V} {splice : E → E → E} {p m : E → Prop} {R R' : V → Prop} {a b c : E}
  {d : V}

namespace Bypasses

theorem mono (h : Bypasses src tgt splice p R c) (hle : ∀ v, R v → R' v) :
    Bypasses src tgt splice p R' c := by
  induction h with
  | edge he => exact .edge he
  | cons he hv hsrc _ ih => exact .cons he (hle _ hv) hsrc ih

theorem append (hs : IsSplice src tgt m splice) (ha : Bypasses src tgt splice p R a)
    (hb : Bypasses src tgt splice p R b) (hv : R (tgt a)) (hsrc : src b = tgt a) :
    Bypasses src tgt splice p R (splice a b) := by
  induction ha with
  | edge he => exact .cons he hv hsrc hb
  | @cons e c he hv' hsrc' _ ih =>
    rw [hs.tgt_splice] at hv hsrc
    have hrest := ih hv hsrc
    rw [hs.splice_left, ← hs.splice_right e c b]
    exact .cons he hv' ((hs.src_splice c b).trans hsrc') hrest

/-- The edges a path begins with have the property of the edge that runs along it. -/
theorem of_edges (hs : IsSplice src tgt m splice)
    (h : Bypasses src tgt splice (fun e => p e ∧ m e) R c) : m c := by
  cases h with
  | edge he => exact he.2
  | cons he => exact hs.of_left _ _ he.2

/-- A path that may pass `d` does not, or can be cut where it arrives at `d` first and
where it leaves `d` last. -/
theorem insert (hs : IsSplice src tgt m splice)
    (h : Bypasses src tgt splice p (fun v => R v ∨ v = d) c) :
    Bypasses src tgt splice p R c ∨ ∃ a b, Bypasses src tgt splice p R a ∧ tgt a = d ∧
      Bypasses src tgt splice p R b ∧ src b = d ∧ c = splice a b := by
  induction h with
  | edge he => exact .inl (.edge he)
  | @cons e c he hv hsrc _ ih =>
    rcases ih with ih | ⟨a, b, ha, had, hb, hbd, rfl⟩
    · rcases hv with hv | hv
      · exact .inl (.cons he hv hsrc ih)
      · exact .inr ⟨e, c, .edge he, hv, ih, hsrc.trans hv, rfl⟩
    · rw [hs.src_splice] at hsrc
      rcases hv with hv | hv
      · exact .inr ⟨splice e a, b, .cons he hv hsrc ha, (hs.tgt_splice e a).trans had, hb, hbd,
          by rw [hs.splice_left, hs.splice_right]⟩
      · exact .inr ⟨e, b, .edge he, hv, hb, hbd, hs.splice_right e a b⟩

end Bypasses

/-- A new cycle passes the new vertex. -/
theorem Cyclic.insert (hs : IsSplice src tgt m splice)
    (h : Cyclic src tgt splice p fun v => R v ∨ v = d) :
    Cyclic src tgt splice p R ∨
      ∃ c, Bypasses src tgt splice p R c ∧ src c = d ∧ tgt c = d := by
  obtain ⟨c, hc, hv, hcycle⟩ := h
  rcases hc.insert hs with hc | ⟨a, b, ha, had, hb, hbd, rfl⟩
  · rcases hv with hv | hv
    · exact .inl ⟨c, hc, hv, hcycle⟩
    · exact .inr ⟨c, hc, hv, hcycle.trans hv⟩
  · rw [hs.src_splice] at hv hcycle
    rw [hs.tgt_splice] at hcycle
    rcases hv with hv | hv
    · -- turned around, the path starts and ends at `d`
      refine .inr ⟨splice b a, hb.append hs ha (hcycle ▸ hv) hcycle.symm, ?_, ?_⟩
      · rw [hs.src_splice, hbd]
      · rw [hs.tgt_splice, had]
    · exact .inr ⟨a, ha, hv, had⟩

theorem Cyclic.mono (h : Cyclic src tgt splice p R) (hle : ∀ v, R v → R' v) :
    Cyclic src tgt splice p R' := by
  obtain ⟨c, hc, hv, hcycle⟩ := h
  exact ⟨c, hc.mono hle, hle _ hv, hcycle⟩

/-! ## One vertex at a time -/

/-- What is left of the edges with `p` when the vertices with `R` have been eliminated, only
edges with `m` being spliced. -/
structure Eliminated (src tgt : E → V) (splice : E → E → E) (p m : E → Prop) (R : V → Prop)
    (S : E → Prop) : Prop where
  bypasses : ∀ c, S c → p c ∨ Bypasses src tgt splice (fun e => p e ∧ m e) R c
  kept : ∀ c, ¬R (src c) → ¬R (tgt c) →
    p c ∨ Bypasses src tgt splice (fun e => p e ∧ m e) R c → S c
  dangling : Cyclic src tgt splice (fun e => p e ∧ m e) R → ∃ c, S c ∧ R (src c) ∧ R (tgt c)
  clean : ¬Cyclic src tgt splice (fun e => p e ∧ m e) R →
    ∀ c, S c → ¬R (src c) ∧ ¬R (tgt c)

/-- `S'` is `S` with the edges at `d` replaced by those that bypass it. -/
def Eliminates (src tgt : E → V) (splice : E → E → E) (m : E → Prop) (d : V) (S S' : E → Prop) :
    Prop :=
  ∀ c, S' c ↔ S c ∧ src c ≠ d ∧ tgt c ≠ d ∨
    ∃ i o, S i ∧ m i ∧ tgt i = d ∧ S o ∧ m o ∧ src o = d ∧ c = splice i o

namespace Eliminated

variable {S S' : E → Prop}

theorem init : Eliminated src tgt splice p m (fun _ => False) p where
  bypasses _ hc := .inl hc
  kept c _ _ hc := by
    rcases hc with hc | hc
    · exact hc
    · cases hc with
      | edge he => exact he.1
      | cons _ hv => exact hv.elim
  dangling h := by
    obtain ⟨_, _, hv, _⟩ := h
    exact hv.elim
  clean _ _ _ := ⟨not_false, not_false⟩

/-- The edges with `m` that are left come from paths of edges with `m`. -/
theorem bypasses_of (h : Eliminated src tgt splice p m R S) (hc : S c) (hm : m c) :
    Bypasses src tgt splice (fun e => p e ∧ m e) R c :=
  (h.bypasses c hc).elim (fun hp => .edge ⟨hp, hm⟩) id

theorem step (hs : IsSplice src tgt m splice) (h : Eliminated src tgt splice p m R S) (hd : ¬R d)
    (hS : Eliminates src tgt splice m d S S') :
    Eliminated src tgt splice p m (fun v => R v ∨ v = d) S' := by
  have hle : ∀ v, R v → R v ∨ v = d := fun _ => .inl
  refine ⟨fun c hc => ?bypasses, fun c hsrc htgt hc => ?kept, fun hcyclic => ?dangling,
    fun hacyclic c hc => ?clean⟩
  case bypasses =>
    rcases (hS c).mp hc with ⟨hc, -, -⟩ | ⟨i, o, hi, hmi, hid, ho, hmo, hod, rfl⟩
    · exact (h.bypasses c hc).imp_right (·.mono hle)
    · exact .inr (((h.bypasses_of hi hmi).mono hle).append hs ((h.bypasses_of ho hmo).mono hle)
        (.inr hid) (hod.trans hid.symm))
  case kept =>
    obtain ⟨hsrc, hsrcd⟩ := not_or.mp hsrc
    obtain ⟨htgt, htgtd⟩ := not_or.mp htgt
    rcases hc with hc | hc
    · exact (hS c).mpr (.inl ⟨h.kept c hsrc htgt (.inl hc), hsrcd, htgtd⟩)
    · rcases hc.insert hs with hc | ⟨a, b, ha, had, hb, hbd, rfl⟩
      · exact (hS c).mpr (.inl ⟨h.kept c hsrc htgt (.inr hc), hsrcd, htgtd⟩)
      · rw [hs.src_splice] at hsrc
        rw [hs.tgt_splice] at htgt
        exact (hS _).mpr (.inr ⟨a, b, h.kept a hsrc (had ▸ hd) (.inr ha), ha.of_edges hs, had,
          h.kept b (hbd ▸ hd) htgt (.inr hb), hb.of_edges hs, hbd, rfl⟩)
  case dangling =>
    rcases hcyclic.insert hs with hcyclic | ⟨c, hc, hsrc, htgt⟩
    · obtain ⟨c, hc, hsrc, htgt⟩ := h.dangling hcyclic
      exact ⟨c, (hS c).mpr (.inl ⟨hc, fun he => hd (he ▸ hsrc), fun he => hd (he ▸ htgt)⟩),
        .inl hsrc, .inl htgt⟩
    · -- the edge from `d` to `d` is spliced with itself
      have hS₀ := h.kept c (hsrc ▸ hd) (htgt ▸ hd) (.inr hc)
      have hm := hc.of_edges hs
      refine ⟨splice c c, (hS _).mpr (.inr ⟨c, c, hS₀, hm, htgt, hS₀, hm, hsrc, rfl⟩),
        .inr ?_, .inr ?_⟩
      · rw [hs.src_splice, hsrc]
      · rw [hs.tgt_splice, htgt]
  case clean =>
    have hclean := h.clean fun hcyclic => hacyclic (hcyclic.mono hle)
    -- no edge from `d` to `d` is left
    have hloop : ∀ e, S e → m e → src e = d → tgt e ≠ d := fun e he hm hsrc htgt =>
      hacyclic ⟨e, (h.bypasses_of he hm).mono hle, .inr hsrc, htgt.trans hsrc.symm⟩
    rcases (hS c).mp hc with ⟨hc, hsrcd, htgtd⟩ | ⟨i, o, hi, hmi, hid, ho, hmo, hod, rfl⟩
    · obtain ⟨hsrc, htgt⟩ := hclean c hc
      exact ⟨not_or.mpr ⟨hsrc, hsrcd⟩, not_or.mpr ⟨htgt, htgtd⟩⟩
    · rw [hs.src_splice, hs.tgt_splice]
      exact ⟨not_or.mpr ⟨(hclean i hi).1, fun he => hloop i hi hmi he hid⟩,
        not_or.mpr ⟨(hclean o ho).2, hloop o ho hmo hod⟩⟩

/-- Without a cycle the edges left are those between other vertices that bypass the
eliminated ones. -/
theorem iff_of_not_cyclic (h : Eliminated src tgt splice p m R S)
    (hacyclic : ¬Cyclic src tgt splice (fun e => p e ∧ m e) R) (c : E) :
    S c ↔ ¬R (src c) ∧ ¬R (tgt c) ∧
      (p c ∨ Bypasses src tgt splice (fun e => p e ∧ m e) R c) := by
  constructor
  · intro hc
    obtain ⟨hsrc, htgt⟩ := h.clean hacyclic c hc
    exact ⟨hsrc, htgt, h.bypasses c hc⟩
  · rintro ⟨hsrc, htgt, hc⟩
    exact h.kept c hsrc htgt hc

end Eliminated

end Lib
