import Mathlib.Data.Finset.Card
import Mathlib.Data.List.Nodup
import Mathlib.Logic.Relation

/-!
# Depth-first collection with a shared set

`expand next key stuck fuel k seen` goes through the elements `next k` and adds each
one that is new to `seen`, together with everything reachable from its key, before it
looks at the next one. The set is threaded through all branches, so no element is
expanded twice. `next` may fail; `stuck` is the answer when the fuel does not suffice.

`expand_spec` : over a finite universe on which `next` succeeds, fuel above the number
of unseen elements gives exactly the elements `k` leads to, each of them once.

`Collects` describes a computation that only adds to what its state holds, whatever was
there before. Recursions that mark what they have seen branch by branch and share only the
result are of this kind, and `collects_foldlM` puts their branches together.
-/

set_option linter.unusedSectionVars false

namespace Lib

variable {K X ε : Type*} [DecidableEq X]

/-- Collect, depth first, the elements reachable from the key `k`. -/
def expand (next : K → Except ε (List X)) (key : X → K) (stuck : ε) :
    ℕ → K → List X → Except ε (List X)
  | 0, _, _ => .error stuck
  | fuel + 1, k, seen => do
    let xs ← next k
    xs.foldlM (fun seen x =>
      if x ∈ seen then .ok seen else expand next key stuck fuel (key x) (seen ++ [x])) seen

/-- `x` is one of the elements of `k`, or reachable from one of them. -/
def Leads (f : K → List X) (key : X → K) (k : K) (x : X) : Prop :=
  ∃ y ∈ f k, Relation.ReflTransGen (fun a b => b ∈ f (key a)) y x

/-- What a call that starts with `seen` and goes through `xs` returns. -/
structure Expanded (f : K → List X) (key : X → K) (xs seen seen' : List X) : Prop where
  subset : seen ⊆ seen'
  nodup : seen.Nodup → seen'.Nodup
  sound : ∀ x ∈ seen', x ∈ seen ∨ ∃ y ∈ xs, Relation.ReflTransGen (fun a b => b ∈ f (key a)) y x
  covers : xs ⊆ seen'
  closed : ∀ x ∈ seen', x ∈ seen ∨ f (key x) ⊆ seen'

variable {f : K → List X} {key : X → K} {next : K → Except ε (List X)} {stuck : ε}

theorem Expanded.nil (seen : List X) : Expanded f key [] seen seen :=
  ⟨List.Subset.refl _, id, fun _ hx => Or.inl hx, List.nil_subset _, fun _ hx => Or.inl hx⟩

/-- Going through `x`, which is new, and then through `xs`. -/
theorem Expanded.cons_new {x : X} {xs seen seen₁ seen₂ : List X} (hx : x ∉ seen)
    (h₁ : Expanded f key (f (key x)) (seen ++ [x]) seen₁) (h₂ : Expanded f key xs seen₁ seen₂) :
    Expanded f key (x :: xs) seen seen₂ where
  subset := fun _ ha => h₂.subset (h₁.subset (by simp [ha]))
  nodup hn := h₂.nodup (h₁.nodup (List.Nodup.append hn (List.nodup_singleton x) (by simpa)))
  sound a ha := by
    rcases h₂.sound a ha with ha | ⟨y, hy, hr⟩
    · rcases h₁.sound a ha with ha | ⟨y, hy, hr⟩
      · rcases List.mem_append.mp ha with ha | ha
        · exact Or.inl ha
        · rw [List.mem_singleton.mp ha]
          exact Or.inr ⟨x, by simp, .refl⟩
      · exact Or.inr ⟨x, by simp, .head hy hr⟩
    · exact Or.inr ⟨y, by simp [hy], hr⟩
  covers := List.cons_subset.mpr ⟨h₂.subset (h₁.subset (by simp)), h₂.covers⟩
  closed a ha := by
    rcases h₂.closed a ha with ha | hc
    · rcases h₁.closed a ha with ha | hc
      · rcases List.mem_append.mp ha with ha | ha
        · exact Or.inl ha
        · rw [List.mem_singleton.mp ha]
          exact Or.inr (List.Subset.trans h₁.covers h₂.subset)
      · exact Or.inr (List.Subset.trans hc h₂.subset)
    · exact Or.inr hc

/-- Going through `x`, which is there already, and then through `xs`. -/
theorem Expanded.cons_seen {x : X} {xs seen seen' : List X} (hx : x ∈ seen)
    (h : Expanded f key xs seen seen') : Expanded f key (x :: xs) seen seen' where
  subset := h.subset
  nodup := h.nodup
  sound a ha := (h.sound a ha).imp_right fun ⟨y, hy, hr⟩ => ⟨y, by simp [hy], hr⟩
  covers := List.cons_subset.mpr ⟨h.subset hx, h.covers⟩
  closed := h.closed

theorem card_sdiff_concat_lt {U : Finset X} {seen : List X} {x : X} (hU : x ∈ U)
    (hx : x ∉ seen) : (U \ (seen ++ [x]).toFinset).card < (U \ seen.toFinset).card := by
  refine Finset.card_lt_card (Finset.ssubset_iff_of_subset ?_ |>.mpr ⟨x, ?_, ?_⟩)
  · intro a ha
    simp only [Finset.mem_sdiff, List.mem_toFinset, List.mem_append] at ha ⊢
    exact ⟨ha.1, fun h => ha.2 (Or.inl h)⟩
  · simp [hU, hx]
  · simp

variable (stuck) in
/-- Fuel above the number of unseen elements of a universe `next` stays in suffices. -/
theorem expand_expanded {D : K → Prop} {U : Finset X} (hnext : ∀ k, D k → next k = .ok (f k))
    (hU : ∀ k, D k → ∀ x ∈ f k, x ∈ U ∧ D (key x)) :
    ∀ (fuel : ℕ) (k : K) (seen : List X), D k → (U \ seen.toFinset).card < fuel →
      ∃ seen', expand next key stuck fuel k seen = .ok seen' ∧
        Expanded f key (f k) seen seen' := by
  intro fuel
  induction fuel with
  | zero => intro k seen _ h; exact absurd h (Nat.not_lt_zero _)
  | succ fuel ih =>
    intro k seen hk hfuel
    simp only [expand, hnext k hk, bind, Except.bind]
    have hxs : ∀ x ∈ f k, x ∈ U ∧ D (key x) := hU k hk
    -- the set only grows along the loop, so the fuel stays sufficient
    generalize f k = xs at hxs
    induction xs generalizing seen with
    | nil => exact ⟨seen, rfl, .nil seen⟩
    | cons x xs ihxs =>
      have hxs' : ∀ y ∈ xs, y ∈ U ∧ D (key y) := fun y hy => hxs y (by simp [hy])
      obtain ⟨hxU, hxD⟩ := hxs x (by simp)
      rw [List.foldlM_cons]
      by_cases hx : x ∈ seen
      · simp only [if_pos hx, bind, Except.bind]
        obtain ⟨seen', heq, hexp⟩ := ihxs seen hfuel hxs'
        exact ⟨seen', heq, hexp.cons_seen hx⟩
      · have hcard := card_sdiff_concat_lt hxU hx
        obtain ⟨seen₁, heq₁, h₁⟩ := ih (key x) (seen ++ [x]) hxD (by omega)
        have hle : (U \ seen₁.toFinset).card ≤ (U \ (seen ++ [x]).toFinset).card := by
          refine Finset.card_le_card fun a ha => ?_
          simp only [Finset.mem_sdiff, List.mem_toFinset] at ha ⊢
          exact ⟨ha.1, fun h => ha.2 (h₁.subset h)⟩
        obtain ⟨seen₂, heq₂, h₂⟩ := ihxs seen₁ (by omega) hxs'
        refine ⟨seen₂, ?_, h₁.cons_new hx h₂⟩
        simp only [if_neg hx, heq₁, bind, Except.bind]
        exact heq₂

variable (stuck) in
/-- Starting from the empty set, exactly what `k` leads to is collected, without
repetition. -/
theorem expand_spec {D : K → Prop} {U : Finset X} (hnext : ∀ k, D k → next k = .ok (f k))
    (hU : ∀ k, D k → ∀ x ∈ f k, x ∈ U ∧ D (key x)) {fuel : ℕ} (hfuel : U.card < fuel) {k : K}
    (hk : D k) :
    ∃ r, expand next key stuck fuel k [] = .ok r ∧ r.Nodup ∧ ∀ x, x ∈ r ↔ Leads f key k x := by
  obtain ⟨r, heq, h⟩ := expand_expanded stuck hnext hU fuel k [] hk (by simpa)
  refine ⟨r, heq, h.nodup List.nodup_nil, fun x => ⟨fun hx => ?_, ?_⟩⟩
  · exact (h.sound x hx).resolve_left (by simp)
  · rintro ⟨y, hy, hr⟩
    induction hr with
    | refl => exact h.covers hy
    | tail _ hstep ih => exact (h.closed _ ih).resolve_left (by simp) hstep

/-! ## Computations that add to a set -/

/-- `set.add(x)` -/
def addTo (x : X) (found : List X) : List X := if x ∈ found then found else found ++ [x]

@[simp] theorem mem_addTo {x y : X} {found : List X} : y ∈ addTo x found ↔ y ∈ found ∨ y = x := by
  unfold addTo
  split_ifs with h
  · exact ⟨Or.inl, by rintro (hy | rfl) <;> assumption⟩
  · simp

theorem nodup_addTo {x : X} {found : List X} (h : found.Nodup) : (addTo x found).Nodup := by
  unfold addTo
  split_ifs with hx
  · exact h
  · exact List.Nodup.append h (List.nodup_singleton x) (by simpa)

section Collects

variable {S Y : Type*} {Inv : S → Prop} {mem : S → Y → Prop} {step : S → Except ε S}
  {P Q : Y → Prop}

/-- From every state with the invariant the computation succeeds, keeps the invariant and
adds the elements that satisfy `P` to the members of the state. -/
def Collects (Inv : S → Prop) (mem : S → Y → Prop) (step : S → Except ε S) (P : Y → Prop) : Prop :=
  ∀ s, Inv s → ∃ s', step s = .ok s' ∧ Inv s' ∧ ∀ y, mem s' y ↔ mem s y ∨ P y

theorem Collects.congr (h : Collects Inv mem step P) (hPQ : ∀ y, P y ↔ Q y) :
    Collects Inv mem step Q := by
  rwa [show Q = P from funext fun y => propext (hPQ y).symm]

theorem collects_ok (h : ∀ y, ¬P y) : Collects Inv mem (Except.ok : S → Except ε S) P :=
  fun s hs => ⟨s, rfl, hs, by simp [h]⟩

theorem Collects.bind {step' : S → Except ε S} (h : Collects Inv mem step P)
    (h' : Collects Inv mem step' Q) :
    Collects Inv mem (fun s => step s >>= step') (fun y => P y ∨ Q y) := by
  intro s hs
  obtain ⟨s₁, h₁, hs₁, hm₁⟩ := h s hs
  obtain ⟨s₂, h₂, hs₂, hm₂⟩ := h' s₁ hs₁
  refine ⟨s₂, ?_, hs₂, fun y => by rw [hm₂, hm₁, or_assoc]⟩
  simp only [h₁]
  exact h₂

theorem collects_foldlM {A : Type*} {P : A → Y → Prop} {as : List A} {step : S → A → Except ε S}
    (h : ∀ a ∈ as, Collects Inv mem (step · a) (P a)) :
    Collects Inv mem (as.foldlM step ·) (fun y => ∃ a ∈ as, P a y) := by
  induction as with
  | nil => exact collects_ok (by simp)
  | cons a as ih =>
    have hrest := (h a (by simp)).bind (ih fun b hb => h b (by simp [hb]))
    exact hrest.congr fun y => by simp

theorem collects_addTo (x : X) :
    Collects List.Nodup (fun found x => x ∈ found)
      (fun found => (.ok (addTo x found) : Except ε (List X))) (· = x) :=
  fun _ hn => ⟨_, rfl, nodup_addTo hn, fun _ => mem_addTo⟩

end Collects

end Lib
