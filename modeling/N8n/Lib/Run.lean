import Mathlib.Algebra.BigOperators.Group.List.Basic
import Mathlib.Algebra.Order.Ring.Nat
import Mathlib.Data.List.Forall2

/-!
# Runs of a state machine

`Run step init steps s` says that the machine gets from `init` to `s` by the steps listed,
each with the state it was taken in. `Run.invariant` and `Run.balance` are the induction
rules : a property every step keeps holds in the end, and a quantity every step changes by
what comes in and what goes out has changed by the totals. Both ask only for steps that
meet a condition `C` on the state and the event.
-/

namespace Lib

variable {ε α β : Type}

/-- A computation succeeds when its parts do. -/
theorem bind_eq_ok {x : Except ε α} {f : α → Except ε β} {b : β} :
    (x >>= f) = .ok b ↔ ∃ a, x = .ok a ∧ f a = .ok b := by
  cases x with
  | error e => simp [bind, Except.bind]
  | ok a => simp [bind, Except.bind]

theorem exists_bind_eq_ok {x : Except ε α} {f : α → Except ε β} (hx : ∃ a, x = .ok a)
    (hf : ∀ a, x = .ok a → ∃ b, f a = .ok b) : ∃ b, (x >>= f) = .ok b := by
  obtain ⟨a, rfl⟩ := hx
  exact hf a rfl

variable {as : List α}

theorem mapM_eq_ok {f : α → Except ε β} {bs : List β} :
    as.mapM f = .ok bs ↔ List.Forall₂ (fun a b => f a = .ok b) as bs := by
  induction as generalizing bs with
  | nil =>
    rw [List.mapM_nil, List.forall₂_nil_left_iff]
    exact ⟨fun h => (Except.ok.inj h).symm, fun h => by rw [h]; rfl⟩
  | cons a as ih =>
    simp only [List.mapM_cons, bind_eq_ok, ih, List.forall₂_cons_left_iff]
    constructor
    · rintro ⟨b, hb, bs', hbs', h⟩
      exact ⟨b, bs', hb, hbs', (Except.ok.inj h).symm⟩
    · rintro ⟨b, bs', hb, hbs', rfl⟩
      exact ⟨b, hb, bs', hbs', rfl⟩

theorem mapM_eq_some {f : α → Option β} {bs : List β} :
    as.mapM f = some bs ↔ List.Forall₂ (fun a b => f a = some b) as bs := by
  induction as generalizing bs with
  | nil =>
    rw [List.mapM_nil, List.forall₂_nil_left_iff]
    exact ⟨fun h => (Option.some.inj h).symm, fun h => by rw [h]; rfl⟩
  | cons a as ih =>
    simp only [List.mapM_cons, Option.bind_eq_bind, Option.bind_eq_some_iff, ih,
      List.forall₂_cons_left_iff]
    constructor
    · rintro ⟨b, hb, bs', hbs', h⟩
      exact ⟨b, bs', hb, hbs', (Option.some.inj h).symm⟩
    · rintro ⟨b, bs', hb, hbs', rfl⟩
      exact ⟨b, hb, bs', hbs', rfl⟩

theorem exists_mapM_eq_some {f : α → Option β} (h : ∀ a ∈ as, ∃ b, f a = some b) :
    ∃ bs, as.mapM f = some bs := by
  induction as with
  | nil => exact ⟨[], rfl⟩
  | cons a as ih =>
    obtain ⟨b, hb⟩ := h a List.mem_cons_self
    obtain ⟨bs, hbs⟩ := ih fun a ha => h a (List.mem_cons_of_mem _ ha)
    exact ⟨b :: bs, mapM_eq_some.mpr (.cons hb (mapM_eq_some.mp hbs))⟩

theorem exists_foldlM_eq_some {S : Type} {f : S → α → Option S}
    (h : ∀ s, ∀ a ∈ as, ∃ s', f s a = some s') (s : S) : ∃ s', as.foldlM f s = some s' := by
  induction as generalizing s with
  | nil => exact ⟨s, rfl⟩
  | cons a as ih =>
    obtain ⟨s₁, hs₁⟩ := h s a List.mem_cons_self
    obtain ⟨s', hs'⟩ := ih (fun s b hb => h s b (List.mem_cons_of_mem _ hb)) s₁
    exact ⟨s', by rw [List.foldlM_cons, hs₁]; exact hs'⟩

theorem exists_of_forall₂_right {R : α → β → Prop} {bs : List β} (h : List.Forall₂ R as bs)
    {b : β} (hb : b ∈ bs) : ∃ a ∈ as, R a b := by
  induction h with
  | nil => cases hb
  | cons hR _ ih =>
    rcases List.mem_cons.mp hb with rfl | hb
    · exact ⟨_, List.mem_cons_self, hR⟩
    · obtain ⟨a, ha, hR'⟩ := ih hb
      exact ⟨a, List.mem_cons_of_mem _ ha, hR'⟩

/-- A check that succeeds everywhere succeeds. -/
theorem forM_eq_ok {f : α → Except ε Unit} (h : ∀ a ∈ as, f a = .ok ()) :
    as.forM f = .ok () := by
  induction as with
  | nil => rfl
  | cons a as ih =>
    exact bind_eq_ok.mpr ⟨(), h a (by simp), ih fun b hb => h b (by simp [hb])⟩

/-- A loop has kept a property exactly when none of its iterations has lost it. -/
theorem foldl_iff {S : Type} {f : S → α → S} {P : S → Prop} {C : α → Prop}
    (hstep : ∀ s, ∀ a ∈ as, (P (f s a) ↔ P s ∧ C a)) (s : S) :
    P (as.foldl f s) ↔ P s ∧ ∀ a ∈ as, C a := by
  induction as generalizing s with
  | nil => simp
  | cons a as ih =>
    rw [List.foldl_cons, ih (fun s b hb => hstep s b (List.mem_cons_of_mem _ hb)),
      hstep s a List.mem_cons_self, List.forall_mem_cons, and_assoc]

/-- What every iteration of a loop keeps, the loop keeps. -/
theorem foldlM_invariant {S : Type} {f : S → α → Except ε S} {I : S → Prop}
    (hstep : ∀ s, ∀ a ∈ as, ∀ s', I s → f s a = .ok s' → I s') {s s' : S} (hs : I s)
    (h : as.foldlM f s = .ok s') : I s' := by
  induction as generalizing s with
  | nil =>
    cases h
    exact hs
  | cons a as ih =>
    rw [List.foldlM_cons] at h
    obtain ⟨s₁, hs₁, h⟩ := bind_eq_ok.mp h
    exact ih (fun s a ha => hstep s a (by simp [ha])) (hstep s a (by simp) s₁ hs hs₁) h

theorem foldlM_invariant_of_some {S : Type} {f : S → α → Option S} {I : S → Prop}
    (hstep : ∀ s, ∀ a ∈ as, ∀ s', I s → f s a = some s' → I s') {s s' : S} (hs : I s)
    (h : as.foldlM f s = some s') : I s' := by
  induction as generalizing s with
  | nil =>
    cases h
    exact hs
  | cons a as ih =>
    rw [List.foldlM_cons] at h
    obtain ⟨s₁, hs₁, h⟩ := Option.bind_eq_some_iff.mp h
    exact ih (fun s a ha => hstep s a (by simp [ha])) (hstep s a (by simp) s₁ hs hs₁) h

/-- What one iteration brings about and the others keep holds after the loop. -/
theorem foldlM_establishes {S : Type} {f : S → α → Except ε S} {P : S → Prop} {a : α}
    (ha : a ∈ as) (hest : ∀ s s', f s a = .ok s' → P s')
    (hkeep : ∀ s, ∀ b ∈ as, ∀ s', P s → f s b = .ok s' → P s') {s s' : S}
    (h : as.foldlM f s = .ok s') : P s' := by
  induction as generalizing s with
  | nil => cases ha
  | cons b as ih =>
    rw [List.foldlM_cons] at h
    obtain ⟨s₁, hs₁, hrest⟩ := bind_eq_ok.mp h
    have hkeep' : ∀ s, ∀ b ∈ as, ∀ s', P s → f s b = .ok s' → P s' :=
      fun s b hb => hkeep s b (List.mem_cons_of_mem _ hb)
    rcases List.mem_cons.mp ha with rfl | ha
    · exact foldlM_invariant hkeep' (hest s s₁ hs₁) hrest
    · exact ih ha hkeep' hrest

/-- A loop each iteration of which adds the results planned for it adds all that are
planned. -/
theorem foldlM_appends {γ S : Type} {f : S → α → Except ε S} {out : S → List β}
    {plan : α → List γ} {R : γ → β → Prop}
    (hstep : ∀ s, ∀ a ∈ as, ∀ s', f s a = .ok s' →
      ∃ added, out s' = out s ++ added ∧ List.Forall₂ R (plan a) added)
    {s s' : S} (h : as.foldlM f s = .ok s') :
    ∃ added, out s' = out s ++ added ∧ List.Forall₂ R (as.flatMap plan) added := by
  induction as generalizing s with
  | nil =>
    cases h
    exact ⟨[], by simp, .nil⟩
  | cons a as ih =>
    rw [List.foldlM_cons] at h
    obtain ⟨s₁, hs₁, h⟩ := bind_eq_ok.mp h
    obtain ⟨added, hout, hR⟩ := hstep s a (by simp) s₁ hs₁
    obtain ⟨added', hout', hR'⟩ := ih (fun s a ha => hstep s a (by simp [ha])) h
    exact ⟨added ++ added', by rw [hout', hout, List.append_assoc], List.rel_append hR hR'⟩

variable {S E : Type} {step : S → E → Except ε S} {init s : S} {steps : List (S × E)}
  {C : S → E → Prop}

/-- The machine gets from `init` to the last state by these steps, none of which fails. -/
inductive Run (step : S → E → Except ε S) (init : S) : List (S × E) → S → Prop
  | nil : Run step init [] init
  | snoc {steps : List (S × E)} {s s' : S} {e : E} (h : Run step init steps s)
    (hs : step s e = .ok s') : Run step init (steps ++ [(s, e)]) s'

theorem Run.init_mem (h : Run step init steps s) : init ∈ steps.map Prod.fst ++ [s] := by
  induction h with
  | nil => simp
  | snoc _ _ ih =>
    rw [List.map_append, List.map_singleton]
    exact List.mem_append_left _ ih

/-- What every step that meets the condition keeps holds in all states of a run of such
steps. -/
theorem Run.forall_states_of {I : S → Prop} (h : Run step init steps s) (hinit : I init)
    (hstep : ∀ s e s', I s → C s e → step s e = .ok s' → I s') (hC : ∀ x ∈ steps, C x.1 x.2) :
    ∀ state ∈ steps.map Prod.fst ++ [s], I state := by
  induction h with
  | nil => simpa using hinit
  | @snoc steps s s' e _ hs ih =>
    have hbefore := ih fun x hx => hC x (by simp [hx])
    rw [List.map_append, List.map_singleton]
    refine List.forall_mem_append.mpr ⟨hbefore, List.forall_mem_singleton.mpr ?_⟩
    exact hstep s e s' (hbefore s (by simp)) (hC (s, e) (by simp)) hs

/-- What every step keeps holds in all states of a run. -/
theorem Run.forall_states {I : S → Prop} (h : Run step init steps s) (hinit : I init)
    (hstep : ∀ s e s', I s → step s e = .ok s' → I s') :
    ∀ state ∈ steps.map Prod.fst ++ [s], I state :=
  h.forall_states_of hinit (fun s e s' hs (_ : True) => hstep s e s' hs) fun _ _ => trivial

/-- A property that exactly the steps that meet the condition keep holds in the end exactly when
all steps do. -/
theorem Run.holds_iff {P : S → Prop} (h : Run step init steps s) (hinit : P init)
    (hstep : ∀ s e s', step s e = .ok s' → (P s' ↔ P s ∧ C s e)) :
    P s ↔ ∀ x ∈ steps, C x.1 x.2 := by
  induction h with
  | nil => exact iff_of_true hinit fun x hx => (by cases hx)
  | @snoc steps s s' e _ hs ih =>
    rw [hstep s e s' hs, ih, List.forall_mem_append, List.forall_mem_singleton]

/-- What relates the two states of every step relates every state of a run to the last one. -/
theorem Run.forall_related {I : S → Prop} {R : S → S → Prop} (h : Run step init steps s)
    (hinit : I init) (hrefl : ∀ s, R s s) (htrans : ∀ a b c, R a b → R b c → R a c)
    (hstep : ∀ s e s', I s → C s e → step s e = .ok s' → I s' ∧ R s s')
    (hC : ∀ x ∈ steps, C x.1 x.2) : ∀ state ∈ steps.map Prod.fst ++ [s], R state s := by
  induction h with
  | nil => simpa using hrefl init
  | @snoc steps s s' e hrun hs ih =>
    have hC' : ∀ x ∈ steps, C x.1 x.2 := fun x hx => hC x (by simp [hx])
    have hI := hrun.forall_states_of hinit (fun s e s' hs hc h => (hstep s e s' hs hc h).1) hC'
    have hlast : R s s' := (hstep s e s' (hI s (by simp)) (hC (s, e) (by simp)) hs).2
    rw [List.map_append, List.map_singleton]
    refine List.forall_mem_append.mpr ⟨fun state hstate => ?_,
      List.forall_mem_singleton.mpr (hrefl s')⟩
    exact htrans state s s' (ih hC' state hstate) hlast

/-- A quantity that every step brings down bounds the number of steps. -/
theorem Run.length_le {I : S → Prop} {m : S → ℕ} (h : Run step init steps s) (hinit : I init)
    (hstep : ∀ s e s', I s → step s e = .ok s' → I s' ∧ m s' + 1 ≤ m s) :
    I s ∧ steps.length + m s ≤ m init := by
  induction h with
  | nil => exact ⟨hinit, by simp⟩
  | snoc _ hs ih =>
    obtain ⟨hI, hlength⟩ := ih
    obtain ⟨hI', hless⟩ := hstep _ _ _ hI hs
    refine ⟨hI', ?_⟩
    rw [List.length_append, List.length_singleton]
    omega

/-- The last step of a run, and the run before it. -/
theorem Run.of_snoc {e : E} {t : S} (h : Run step init (steps ++ [(s, e)]) t) :
    Run step init steps s ∧ step s e = .ok t := by
  generalize hsteps : steps ++ [(s, e)] = all at h
  cases h with
  | nil => simp at hsteps
  | snoc h hs =>
    obtain ⟨rfl, hlast⟩ := List.append_inj' hsteps rfl
    obtain ⟨rfl, rfl⟩ := Prod.mk.inj (List.singleton_inj.mp hlast)
    exact ⟨h, hs⟩

theorem Run.invariant {I : S → Prop} (h : Run step init steps s) (hinit : I init)
    (hstep : ∀ s e s', I s → C s e → step s e = .ok s' → I s')
    (hC : ∀ x ∈ steps, C x.1 x.2) : I s :=
  h.forall_states_of hinit hstep hC s (by simp)

theorem Run.balance {I : S → Prop} {m : S → ℕ} {out inn : S → E → ℕ} (h : Run step init steps s)
    (hinit : I init) (hI : ∀ s e s', I s → C s e → step s e = .ok s' → I s')
    (hstep : ∀ s e s', I s → C s e → step s e = .ok s' → m s' + out s e = m s + inn s e)
    (hC : ∀ x ∈ steps, C x.1 x.2) :
    m s + (steps.map fun x => out x.1 x.2).sum = m init + (steps.map fun x => inn x.1 x.2).sum := by
  induction h with
  | nil => rfl
  | @snoc steps s s' e h hs ih =>
    have hC' : ∀ x ∈ steps, C x.1 x.2 := fun x hx => hC x (by simp [hx])
    have := hstep s e s' (h.invariant hinit hI hC') (hC (s, e) (by simp)) hs
    have := ih hC'
    simp only [List.map_append, List.map_singleton, List.sum_append, List.sum_singleton]
    omega

/-- Take the events one after another, and list the steps. -/
def runSteps (step : S → E → Except ε S) : S → List E → Except ε (List (S × E) × S)
  | s, [] => .ok ([], s)
  | s, e :: es => do
    let s' ← step s e
    let (steps, t) ← runSteps step s' es
    return ((s, e) :: steps, t)

theorem Run.cons {e : E} {t : S} (hs : step init e = .ok s) (h : Run step s steps t) :
    Run step init ((init, e) :: steps) t := by
  induction h with
  | nil => exact .snoc .nil hs
  | snoc _ hs' ih => exact .snoc ih hs'

theorem run_of_runSteps {es : List E} {t : S} (h : runSteps step s es = .ok (steps, t)) :
    Run step s steps t ∧ steps.map Prod.snd = es := by
  induction es generalizing s steps with
  | nil =>
    cases h
    exact ⟨.nil, rfl⟩
  | cons e es ih =>
    obtain ⟨s', hs, h⟩ := bind_eq_ok.mp h
    obtain ⟨⟨rest, t'⟩, hrest, h⟩ := bind_eq_ok.mp h
    cases h
    obtain ⟨hrun, hmap⟩ := ih hrest
    exact ⟨.cons hs hrun, by rw [List.map_cons, hmap]⟩

/-- What evaluating the events shows about the run they make. -/
theorem exists_run {es : List E} {f : List (S × E) × S → β} {b : β}
    (h : (runSteps step s es).map f = .ok b) :
    ∃ steps t, Run step s steps t ∧ steps.map Prod.snd = es ∧ f (steps, t) = b := by
  cases hrun : runSteps step s es with
  | error e =>
    rw [hrun] at h
    cases h
  | ok r =>
    rw [hrun] at h
    obtain ⟨hr, hmap⟩ := run_of_runSteps hrun
    exact ⟨r.1, r.2, hr, hmap, Except.ok.inj h⟩

/-- The same with the last event apart. -/
theorem exists_run_last {es : List E} {e : E} {f : List (S × E) × S → β} {b : β}
    (h : (runSteps step s (es ++ [e])).map f = .ok b) :
    ∃ steps s' t, Run step s (steps ++ [(s', e)]) t ∧ f (steps ++ [(s', e)], t) = b := by
  obtain ⟨all, t, hrun, hmap, hf⟩ := exists_run h
  obtain ⟨steps, last, rfl, -, hlast⟩ := List.map_eq_append_iff.mp hmap
  obtain ⟨⟨s', e'⟩, rfl, rfl⟩ := List.map_eq_singleton_iff.mp hlast
  exact ⟨steps, s', t, hrun, hf⟩

end Lib
