import N8n.ExpressionRuntime.IsolatePool
import N8n.Lib.Run

/-!
# No isolate is leaked

A bridge that its pool has is disposed of, held, or in a pool that is looked after : the inner
one until `dispose` takes it, or one whose disposal has not looked at its bridges yet (`Placed`).
A pool that is being disposed of is that of the scale-up or of the scale-down in progress, or the
one that `dispose` has taken (`Sound.tracked`), so when `dispose` has resolved no pool is left
(`idleScaling_run`).

`initialize` of an isolate pool does not ask whether the pool was disposed of meanwhile, as its
replenishments do, and `initialize` of the idle scaling pool replaces the inner pool it has. The
theorem is about runs no step of which loses a bridge so (`losesNone`);
`idleScaling_run_initializing` is one that does.
-/

open Lib

namespace N8n

namespace IdleScalingPool

variable {config : IdleScalingConfig} {s s' : IdleScalingPool} {k p q : ℕ}

/-! ## Pools and creations -/

theorem getElem?_updatePool {f : IsolatePool → IsolatePool} :
    (s.updatePool p f).pools[q]? = s.pools[q]?.map fun pool => if p = q then f pool else pool :=
  List.getElem?_modify f p s.pools q

theorem getElem?_updatePool_self {f : IsolatePool → IsolatePool} :
    (s.updatePool p f).pools[p]? = s.pools[p]?.map f := by
  rw [getElem?_updatePool]
  simp only [if_true]

variable {creation : ℕ} {phase : CreationPhase}

theorem getElem?_setPhase :
    (s.setPhase creation phase).creations[k]? = s.creations[k]?.map fun c =>
      if creation = k then { c with phase := phase } else c :=
  List.getElem?_modify _ creation s.creations k

theorem isCreated_setPhase (h : (s.setPhase creation phase).IsCreated k) :
    s.IsCreated k ∨ k = creation ∧ phase = .created := by
  obtain ⟨c, hc, hphase⟩ := h
  rw [getElem?_setPhase] at hc
  obtain ⟨d, hd, rfl⟩ := Option.map_eq_some_iff.mp hc
  by_cases hk : creation = k
  · rw [if_pos hk] at hphase
    exact Or.inr ⟨hk.symm, hphase⟩
  · rw [if_neg hk] at hphase
    exact Or.inl ⟨d, hd, hphase⟩

theorem mem_setPhase {c : Creation} (h : c ∈ (s.setPhase creation phase).creations) :
    c ∈ s.creations ∨ ∃ d, s.creations[creation]? = some d ∧ c = { d with phase := phase } := by
  obtain ⟨k, hk⟩ := List.mem_iff_getElem?.mp h
  rw [getElem?_setPhase] at hk
  obtain ⟨d, hd, rfl⟩ := Option.map_eq_some_iff.mp hk
  by_cases hcreation : creation = k
  · rw [if_pos hcreation]
    exact Or.inr ⟨d, hcreation ▸ hd, rfl⟩
  · rw [if_neg hcreation]
    exact Or.inl (List.mem_of_getElem? hd)

/-- New calls of `createBridge` are pending. -/
theorem isCreated_of_append {added : List Creation} (hadded : ∀ c ∈ added, c.phase = .pending)
    (h : { s with creations := s.creations ++ added }.IsCreated k) : s.IsCreated k := by
  obtain ⟨c, hc, hphase⟩ := h
  rw [List.getElem?_append] at hc
  split at hc
  · exact ⟨c, hc, hphase⟩
  · rw [hadded c (List.mem_of_getElem? hc)] at hphase
    cases hphase

/-! ## Where the bridges are -/

variable (s) in
/-- The pool with the number given will be given up by its disposal only. -/
def Keeps (p : ℕ) (pool : IsolatePool) : Prop :=
  s.innerPool = some p ∧ s.innerPoolNotTaken = true ∨ pool.awaitsReplenishments = true

variable (s) in
def InKeptPool (bridge : ℕ) : Prop :=
  ∃ p pool, s.pools[p]? = some pool ∧ bridge ∈ pool.bridges ∧ s.Keeps p pool

variable (s) in
def Placed (bridge : ℕ) : Prop :=
  bridge ∈ s.disposedBridges ∨ bridge ∈ s.held ∨ s.InKeptPool bridge

variable (s) in
/-- Whoever disposes of the pool waits for it. -/
def Tracks (p : ℕ) : Prop :=
  s.pendingScaleDown = some p ∨ s.pendingScaleUp = some { pool := p, phase := .disposes } ∨
    s.disposePromise = .disposes p

variable (s) in
def IsActive (p : ℕ) : Prop := ∃ pool, s.pools[p]? = some pool ∧ pool.disposal = .notCalled

variable (s) in
/-- A pool whose initialization has a call pending, or a bridge, is initializing. One that is
being disposed of belongs to the transition or the `dispose` that waits for it, and `dispose`
takes the inner pool when no transition is pending. The inner pool and that of the scale-up are
not disposed of. -/
structure Sound : Prop where
  placed : ∀ bridge, s.IsCreated bridge → s.Placed bridge
  arriving : ∀ c ∈ s.creations, c.phase = .ready ∨ c.attempt = none ∧ c.phase = .pending →
    ∃ pool, s.pools[c.pool]? = some pool ∧ pool.initializing = true
  tracked : ∀ p pool, s.pools[p]? = some pool →
    pool.awaitsReplenishments = true ∨ pool.disposal = .disposes → s.Tracks p
  taken : s.innerPoolNotTaken = false → s.pendingScaleUp = none ∧ s.pendingScaleDown = none
  inner : ∀ p, s.innerPool = some p → s.IsActive p
  scaleUp : ∀ p, s.pendingScaleUp = some { pool := p } → s.innerPool ≠ some p ∧ s.IsActive p

theorem sound_initial : Sound {} := by
  refine ⟨?_, ?_, ?_, ?_, ?_, ?_⟩
  · rintro k ⟨c, ⟨⟩, -⟩
  · rintro c ⟨⟩
  · rintro p pool ⟨⟩
  · rintro ⟨⟩
  · rintro p ⟨⟩
  · rintro p ⟨⟩

theorem Placed.mono (h : s.Placed k) (hdisposed : k ∈ s.disposedBridges → k ∈ s'.disposedBridges)
    (hheld : k ∈ s.held → k ∈ s'.disposedBridges ∨ k ∈ s'.held)
    (hpools : ∀ p pool, s.pools[p]? = some pool → k ∈ pool.bridges → s.Keeps p pool →
      s'.Placed k) : s'.Placed k := by
  rcases h with h | h | ⟨p, pool, hpool, hk, hkeeps⟩
  · exact Or.inl (hdisposed h)
  · rcases hheld h with h | h
    · exact Or.inl h
    · exact Or.inr (Or.inl h)
  · exact hpools p pool hpool hk hkeeps

variable {pool : IsolatePool}

theorem not_awaits_of_active (h : pool.disposal = .notCalled) :
    ¬(pool.awaitsReplenishments = true ∨ pool.disposal = .disposes) := by
  rw [IsolatePool.awaitsReplenishments, h]
  rintro (h | h) <;> cases h

/-! ## Changes of a pool -/

/-- A change of one pool that leaves its disposal alone, with bridges that are created or given
away, and calls of `createBridge` that are made or settle. -/
theorem Sound.change (h : s.Sound) (p : ℕ) (s' : IdleScalingPool)
    (f : IsolatePool → IsolatePool)
    (hdisposal : ∀ pool, (f pool).disposal = pool.disposal)
    (hs' : s'.innerPool = s.innerPool ∧ s'.pendingScaleUp = s.pendingScaleUp ∧
      s'.pendingScaleDown = s.pendingScaleDown ∧ s'.disposePromise = s.disposePromise ∧
      s'.pools = s.pools)
    (hdisposed : ∀ k ∈ s.disposedBridges, k ∈ s'.disposedBridges)
    (hheld : ∀ k ∈ s.held, k ∈ s'.disposedBridges ∨ k ∈ s'.held)
    (hbridges : ∀ pool k, s.pools[p]? = some pool → k ∈ pool.bridges →
      k ∈ (f pool).bridges ∨ k ∈ s'.held)
    (hcreated : ∀ k, s'.IsCreated k → s.IsCreated k ∨ (s'.updatePool p f).Placed k)
    (harriving : ∀ c ∈ s'.creations, c.phase = .ready ∨ c.attempt = none ∧ c.phase = .pending →
      ∃ pool, (s'.updatePool p f).pools[c.pool]? = some pool ∧ pool.initializing = true) :
    (s'.updatePool p f).Sound := by
  obtain ⟨hinnerPool, hscaleUp, hscaleDown, hpromise, hpools⟩ := hs'
  have hawaits : ∀ pool, (f pool).awaitsReplenishments = pool.awaitsReplenishments := by
    intro pool
    rw [IsolatePool.awaitsReplenishments, IsolatePool.awaitsReplenishments, hdisposal]
  have hnotTaken : (s'.updatePool p f).innerPoolNotTaken = s.innerPoolNotTaken := by
    rw [innerPoolNotTaken, innerPoolNotTaken, ← hpromise]
    rfl
  have hsame : ∀ q, (s'.updatePool p f).pools[q]? =
      s.pools[q]?.map fun pool => if p = q then f pool else pool := by
    intro q
    rw [getElem?_updatePool, hpools]
  have hactive : ∀ q, s.IsActive q → (s'.updatePool p f).IsActive q := by
    rintro q ⟨pool, hpool, hnotCalled⟩
    refine ⟨_, by rw [hsame, hpool, Option.map_some], ?_⟩
    split
    · rw [hdisposal, hnotCalled]
    · exact hnotCalled
  refine ⟨fun k hk => ?_, harriving, fun q pool hpool hdisposes => ?_, fun hnot => ?_,
    fun q hq => hactive q (h.inner q (hinnerPool ▸ hq)), fun q hq => ?_⟩
  · rcases hcreated k hk with hk | hk
    · refine (h.placed k hk).mono (hdisposed k) (hheld k) fun q pool hpool hmem hkept => ?_
      have hkept' : s'.innerPool = some q ∧ (s'.updatePool p f).innerPoolNotTaken = true ∨
          pool.awaitsReplenishments = true := by
        rwa [hinnerPool, hnotTaken]
      by_cases hq : p = q
      · subst hq
        rcases hbridges pool k hpool hmem with hmem | hmem
        · refine Or.inr (Or.inr ⟨p, f pool, ?_, hmem, hkept'.imp id (hawaits pool ▸ ·)⟩)
          rw [hsame, hpool, Option.map_some, if_pos rfl]
        · exact Or.inr (Or.inl hmem)
      · refine Or.inr (Or.inr ⟨q, pool, ?_, hmem, hkept'⟩)
        rw [hsame, hpool, Option.map_some, if_neg hq]
    · exact hk
  · rw [hsame] at hpool
    obtain ⟨old, hold, rfl⟩ := Option.map_eq_some_iff.mp hpool
    have htracks : s.Tracks q := by
      refine h.tracked q old hold ?_
      by_cases hq : p = q
      · rwa [if_pos hq, hawaits, hdisposal] at hdisposes
      · rwa [if_neg hq] at hdisposes
    rw [Tracks, ← hscaleDown, ← hscaleUp, ← hpromise] at htracks
    exact htracks
  · have htaken := h.taken (hnotTaken ▸ hnot)
    rwa [← hscaleUp, ← hscaleDown] at htaken
  · obtain ⟨hne, hact⟩ := h.scaleUp q (hscaleUp ▸ hq)
    rw [← hinnerPool] at hne
    exact ⟨hne, hactive q hact⟩

theorem initializing_updatePool {f : IsolatePool → IsolatePool}
    (hf : ∀ pool, (f pool).initializing = pool.initializing)
    (h : ∃ pool, s.pools[q]? = some pool ∧ pool.initializing = true) :
    ∃ pool, (s.updatePool p f).pools[q]? = some pool ∧ pool.initializing = true := by
  obtain ⟨pool, hpool, hinit⟩ := h
  refine ⟨_, by rw [getElem?_updatePool, hpool, Option.map_some], ?_⟩
  split
  · rw [hf, hinit]
  · exact hinit

/-- Calls of `createBridge` are made. Those of an initialization are made for a pool that is
initializing. -/
theorem Sound.appendPending (h : s.Sound) {added : List Creation}
    (hadded : ∀ c ∈ added, c.phase = .pending)
    (hpools : ∀ c ∈ added, c.attempt = none →
      ∃ pool, s.pools[c.pool]? = some pool ∧ pool.initializing = true) :
    Sound { s with creations := s.creations ++ added } := by
  refine ⟨fun k hk => h.placed k (isCreated_of_append hadded hk), fun c hc hphase => ?_,
    h.tracked, h.taken, h.inner, h.scaleUp⟩
  rcases List.mem_append.mp hc with hc | hc
  · exact h.arriving c hc hphase
  · rcases hphase with hphase | ⟨hattempt, -⟩
    · rw [hadded c hc] at hphase
      cases hphase
    · exact hpools c hc hattempt

theorem Sound.replenish (h : s.Sound) (attempt : ℕ) : (s.replenish config p attempt).Sound := by
  rw [IdleScalingPool.replenish]
  split
  · exact h
  · split
    · exact h
    · split
      · exact h
      · have hpool := h.change p s (fun pool => { pool with
          warming := pool.warming + 1
          replenishPromises := pool.replenishPromises ++ [s.creations.length] })
          (fun _ => rfl) ⟨rfl, rfl, rfl, rfl, rfl⟩ (fun _ => id) (fun _ => Or.inr)
          (fun _ _ _ => Or.inl) (fun _ => Or.inl)
          fun c hc hphase => initializing_updatePool (fun _ => rfl) (h.arriving c hc hphase)
        refine hpool.appendPending ?_ ?_
        · intro c hc
          rw [List.mem_singleton.mp hc]
        · intro c hc hattempt
          rw [List.mem_singleton.mp hc] at hattempt
          cases hattempt

/-- The bridges of the pool given have been moved elsewhere, or it is not the inner one and has
been told to dispose of them. -/
theorem Sound.setDisposal (h : s.Sound) (f : IsolatePool → IsolatePool)
    (hinitializing : ∀ pool, (f pool).initializing = pool.initializing)
    {inner : Option ℕ} {up : Option ScaleUp} {down : Option ℕ} {promise : DisposeProgress}
    (moved : List ℕ)
    (hs' : s' = { s with innerPool := inner, pendingScaleUp := up, pendingScaleDown := down,
                         disposePromise := promise,
                         disposedBridges := s.disposedBridges ++ moved })
    (hplaced : ∀ pool k, s.pools[p]? = some pool → k ∈ pool.bridges → s.Keeps p pool →
      k ∈ moved ∨ k ∈ (f pool).bridges ∧ (f pool).awaitsReplenishments = true)
    (hkeeps : ∀ q, s.innerPool = some q → s.innerPoolNotTaken = true →
      q = p ∨ s'.innerPool = some q ∧ s'.innerPoolNotTaken = true)
    (htracks : ∀ q, s.Tracks q → s'.Tracks q)
    (hself : ∀ pool, s.pools[p]? = some pool →
      (f pool).awaitsReplenishments = true ∨ (f pool).disposal = .disposes → s'.Tracks p)
    (htaken : s'.innerPoolNotTaken = false → up = none ∧ down = none)
    (hinner : ∀ q, inner = some q → q ≠ p ∧ s.IsActive q)
    (hup : ∀ q, up = some { pool := q } → q ≠ p ∧ inner ≠ some q ∧ s.IsActive q) :
    (s'.updatePool p f).Sound := by
  have hpools : s'.pools = s.pools := by rw [hs']
  have hother : ∀ q, q ≠ p → (s'.updatePool p f).pools[q]? = s.pools[q]? := by
    intro q hq
    rw [getElem?_updatePool, hpools]
    simp only [if_neg (Ne.symm hq), Option.map_id']
  have hactive : ∀ q, q ≠ p → s.IsActive q → (s'.updatePool p f).IsActive q := by
    rintro q hq ⟨pool, hpool, hnotCalled⟩
    exact ⟨pool, (hother q hq).trans hpool, hnotCalled⟩
  refine ⟨fun k hk => ?_, fun c hc hphase => ?_, fun q pool hpool hdisposes => ?_, ?_,
    fun q hq => ?_, fun q hq => ?_⟩
  · have hcreated : s.IsCreated k := by rwa [hs'] at hk
    refine (h.placed k hcreated).mono (fun hk => ?_) (fun hk => ?_)
      fun q pool hpool hmem hkept => ?_
    · rw [hs']
      exact List.mem_append_left _ hk
    · rw [hs']
      exact Or.inr hk
    · by_cases hq : q = p
      · subst hq
        rcases hplaced pool k hpool hmem hkept with hmoved | ⟨hmem', hawaits⟩
        · refine Or.inl ?_
          rw [hs']
          exact List.mem_append_right _ hmoved
        · refine Or.inr (Or.inr ⟨q, f pool, ?_, hmem', Or.inr hawaits⟩)
          rw [getElem?_updatePool_self, hpools, hpool, Option.map_some]
      · refine Or.inr (Or.inr ⟨q, pool, (hother q hq).trans hpool, hmem, ?_⟩)
        rcases hkept with ⟨hcurrent, hnotTaken⟩ | hawaits
        · exact Or.inl ((hkeeps q hcurrent hnotTaken).resolve_left hq)
        · exact Or.inr hawaits
  · have hcs : c ∈ s.creations := by rwa [hs'] at hc
    obtain ⟨pool, hpool, hinit⟩ := h.arriving c hcs hphase
    by_cases hq : c.pool = p
    · refine ⟨f pool, ?_, (hinitializing pool).trans hinit⟩
      rw [hq] at hpool ⊢
      rw [getElem?_updatePool_self, hpools, hpool, Option.map_some]
    · exact ⟨pool, (hother _ hq).trans hpool, hinit⟩
  · by_cases hq : q = p
    · subst hq
      rw [getElem?_updatePool_self, hpools] at hpool
      obtain ⟨old, hold, rfl⟩ := Option.map_eq_some_iff.mp hpool
      exact hself old hold hdisposes
    · rw [hother q hq] at hpool
      exact htracks q (h.tracked q pool hpool hdisposes)
  · rw [hs'] at htaken ⊢
    exact htaken
  · have hq' : inner = some q := by rwa [hs'] at hq
    exact hactive q (hinner q hq').1 (hinner q hq').2
  · have hq' : up = some { pool := q } := by rwa [hs'] at hq
    obtain ⟨hne, hinner', hact⟩ := hup q hq'
    exact ⟨by rw [hs']; exact hinner', hactive q hne hact⟩

/-! ## Transitions -/

theorem innerPoolNotTaken_of_not_disposed (h : s.disposed = false) :
    s.innerPoolNotTaken = true := by
  have hnotCalled : s.disposePromise = .notCalled := by simpa [disposed] using h
  rw [innerPoolNotTaken, hnotCalled]
  rfl

theorem awaitsReplenishments_eq (pool : IsolatePool) : ({ pool with
    disposal := .awaits pool.replenishPromises } : IsolatePool).awaitsReplenishments = true := rfl

theorem Sound.triggerScaleDown (h : s.Sound) : s.triggerScaleDown.Sound := by
  rw [IdleScalingPool.triggerScaleDown]
  split
  · exact h
  · rename_i oldInner hinner
    split
    · exact h
    · rename_i hnone
      simp only [Bool.or_eq_true, not_or, Bool.not_eq_true, Option.isSome_eq_false_iff,
        Option.isNone_iff_eq_none] at hnone
      obtain ⟨⟨hdown, hup⟩, hdisposed⟩ := hnone
      refine h.setDisposal _ (fun _ => rfl) [] (by rw [List.append_nil])
        (fun pool k _ hmem _ => Or.inr ⟨hmem, awaitsReplenishments_eq pool⟩) ?_ ?_
        (fun _ _ _ => Or.inl rfl) ?_ ?_ ?_
      · intro q hq _
        rw [hinner] at hq
        exact Or.inl (Option.some.inj hq).symm
      · rintro q (hq | hq)
        · rw [hdown] at hq
          cases hq
        · exact Or.inr hq
      · intro htaken
        have hnot : s.innerPoolNotTaken = false := htaken
        rw [innerPoolNotTaken_of_not_disposed hdisposed] at hnot
        cases hnot
      · rintro q ⟨⟩
      · intro q hq
        rw [hup] at hq
        cases hq

theorem Sound.disposeInnerPool (h : s.Sound) (hup : s.pendingScaleUp = none)
    (hdown : s.pendingScaleDown = none) (hdrains : s.disposePromise = .drainsPendingTransitions) :
    s.disposeInnerPool.Sound := by
  have htracks : ∀ q, ¬s.Tracks q := by
    rintro q (hq | hq | hq)
    · rw [hdown] at hq
      cases hq
    · rw [hup] at hq
      cases hq
    · rw [hdrains] at hq
      cases hq
  rw [IdleScalingPool.disposeInnerPool]
  split
  · rename_i hinner
    refine ⟨fun k hk => ?_, h.arriving, fun q pool hpool hq => ?_, fun _ => ⟨hup, hdown⟩,
      fun q hq => ?_, fun q hq => ?_⟩
    · refine (h.placed k hk).mono id Or.inr fun q pool hpool hmem hkept => ?_
      refine Or.inr (Or.inr ⟨q, pool, hpool, hmem, Or.inr (hkept.resolve_left fun hq => ?_)⟩)
      rw [hinner] at hq
      cases hq.1
    · exact absurd (h.tracked q pool hpool hq) (htracks q)
    · rw [hinner] at hq
      cases hq
    · rw [hup] at hq
      cases hq
  · rename_i toDispose hinner
    refine h.setDisposal _ (fun _ => rfl) [] (by rw [List.append_nil])
      (fun pool k _ hmem _ => Or.inr ⟨hmem, awaitsReplenishments_eq pool⟩) ?_
      (fun q hq => absurd hq (htracks q)) (fun _ _ _ => Or.inr (Or.inr rfl))
      (fun _ => ⟨hup, hdown⟩) ?_ ?_
    · intro q hq _
      rw [hinner] at hq
      exact Or.inl (Option.some.inj hq).symm
    · rintro q ⟨⟩
    · intro q hq
      rw [hup] at hq
      cases hq

/-- The pool that `p` refers to becomes the inner one. -/
theorem Sound.setInner (h : s.Sound) (hempty : s.innerPoolIsEmpty = true) (hactive : s.IsActive p)
    {up : Option ScaleUp}
    (htracks : ∀ q, s.pendingScaleUp = some { pool := q, phase := .disposes } →
      up = some { pool := q, phase := .disposes })
    (hup : ∀ q, up = some { pool := q } → q ≠ p ∧ s.IsActive q)
    (htaken : s.innerPoolNotTaken = false → up = none) :
    Sound { s with innerPool := some p, pendingScaleUp := up } := by
  refine ⟨fun k hk => ?_, h.arriving, fun q pool hpool hq => ?_, fun hnot =>
    ⟨htaken hnot, (h.taken hnot).2⟩, fun q hq => ?_, fun q hq => ?_⟩
  · refine (h.placed k hk).mono id Or.inr fun q pool hpool hmem hkept => ?_
    refine Or.inr (Or.inr ⟨q, pool, hpool, hmem, Or.inr (hkept.resolve_left fun hq => ?_)⟩)
    rw [innerPoolIsEmpty, hq.1, Option.all_some, hpool, Option.all_some,
      List.isEmpty_iff] at hempty
    rw [hempty] at hmem
    cases hmem
  · rcases h.tracked q pool hpool hq with hq | hq | hq
    · exact Or.inl hq
    · exact Or.inr (Or.inl (htracks q hq))
    · exact Or.inr (Or.inr hq)
  · obtain rfl := Option.some.inj hq
    exact hactive
  · obtain ⟨hne, hact⟩ := hup q hq
    exact ⟨fun heq => hne (Option.some.inj heq).symm, hact⟩

theorem Sound.createInnerPool (config : IdleScalingConfig) (h : s.Sound) :
    (s.createInnerPool config).Sound ∧
    (∀ q, s.IsActive q → q ≠ s.pools.length ∧ (s.createInnerPool config).IsActive q) ∧
    (s.createInnerPool config).IsActive s.pools.length ∧
    (s.innerPoolIsEmpty = true → (s.createInnerPool config).innerPoolIsEmpty = true) := by
  have hnew : (s.pools ++ [({} : IsolatePool)])[s.pools.length]? = some {} := by simp
  have hold : ∀ q pool, s.pools[q]? = some pool →
      (s.pools ++ [({} : IsolatePool)])[q]? = some pool := fun q pool hpool =>
    (List.getElem?_append_left (List.getElem?_eq_some_iff.mp hpool).1).trans hpool
  have hcases : ∀ (q : ℕ) (pool : IsolatePool),
      (s.pools ++ [({} : IsolatePool)])[q]? = some pool → s.pools[q]? = some pool ∨ pool = {} := by
    intro q pool hpool
    rw [List.getElem?_append] at hpool
    split at hpool
    · exact Or.inl hpool
    · exact Or.inr (List.mem_singleton.mp (List.mem_of_getElem? hpool))
  have hactive : ∀ q, s.IsActive q → ∃ pool, (s.pools ++ [({} : IsolatePool)])[q]? = some pool ∧
      pool.disposal = .notCalled := fun q ⟨pool, hpool, hnotCalled⟩ =>
    ⟨pool, hold q pool hpool, hnotCalled⟩
  have hpools : Sound { s with pools := s.pools ++ [{}] } := by
    refine ⟨fun k hk => ?_, fun c hc hphase => ?_, fun q pool hpool hdisposes => ?_, h.taken,
      fun q hq => hactive q (h.inner q hq), fun q hq => (h.scaleUp q hq).imp id (hactive q)⟩
    · refine (h.placed k hk).mono id Or.inr fun q pool hpool hmem hkeeps => ?_
      exact Or.inr (Or.inr ⟨q, pool, hold q pool hpool, hmem, hkeeps⟩)
    · obtain ⟨pool, hpool, hinit⟩ := h.arriving c hc hphase
      exact ⟨pool, hold _ pool hpool, hinit⟩
    · rcases hcases q pool hpool with hpool | rfl
      · exact h.tracked q pool hpool hdisposes
      · exact absurd hdisposes (not_awaits_of_active rfl)
  refine ⟨hpools.appendPending (fun c hc => ?_) fun c hc _ => ?_, fun q hq => ⟨?_, hactive q hq⟩,
    ⟨{}, hnew, rfl⟩, fun hempty => ?_⟩
  · rw [List.eq_of_mem_replicate hc]
  · rw [List.eq_of_mem_replicate hc]
    exact ⟨{}, hnew, rfl⟩
  · obtain ⟨pool, hpool, -⟩ := hq
    exact (List.getElem?_eq_some_iff.mp hpool).1.ne
  · rw [innerPoolIsEmpty] at hempty ⊢
    simp only [Option.all_eq_true] at hempty ⊢
    intro q hq pool hpool
    rcases hcases q pool hpool with hpool | rfl
    · exact hempty q hq pool hpool
    · rfl

theorem Sound.initializePool (h : s.Sound) (hempty : s.innerPoolIsEmpty = true) :
    (s.initializePool config).Sound := by
  obtain ⟨hsound, hothers, hnew, hempty'⟩ := h.createInnerPool config
  exact hsound.setInner (hempty' hempty) hnew (fun q hq => hq)
    (fun q hq => hothers q (h.scaleUp q hq).2) fun hnot => (h.taken hnot).1

theorem Sound.triggerScaleUp (h : s.Sound) : (s.triggerScaleUp config).Sound := by
  rw [IdleScalingPool.triggerScaleUp]
  split
  · exact h
  · rename_i hnone
    simp only [Bool.or_eq_true, not_or, Bool.not_eq_true, Option.isSome_eq_false_iff,
      Option.isNone_iff_eq_none] at hnone
    obtain ⟨⟨hup, hinner⟩, hdisposed⟩ := hnone
    obtain ⟨hsound, -, hnew, -⟩ := h.createInnerPool config
    refine ⟨hsound.placed, hsound.arriving, fun q pool hpool hq => ?_, fun hnot => ?_,
      hsound.inner, fun q hq => ?_⟩
    · refine (hsound.tracked q pool hpool hq).imp id (Or.imp_left fun hq => ?_)
      have hscaleUp : s.pendingScaleUp = some { pool := q, phase := .disposes } := hq
      rw [hup] at hscaleUp
      cases hscaleUp
    · have hnotTaken : s.innerPoolNotTaken = false := hnot
      rw [innerPoolNotTaken_of_not_disposed hdisposed] at hnotTaken
      cases hnotTaken
    · obtain rfl : s.pools.length = q := congrArg ScaleUp.pool (Option.some.inj hq)
      refine ⟨fun hq => ?_, hnew⟩
      have hinner' : s.innerPool = some s.pools.length := hq
      rw [hinner] at hinner'
      cases hinner'

theorem Sound.resetIdleTimer (h : s.Sound) : (s.resetIdleTimer config).Sound := by
  rw [IdleScalingPool.resetIdleTimer]
  split
  · exact h
  · exact ⟨h.placed, h.arriving, h.tracked, h.taken, h.inner, h.scaleUp⟩

/-! ## Bridges that leave and come -/

theorem Sound.acquireFrom (h : s.Sound) : (s.acquireFrom config p).1.Sound := by
  rw [IdleScalingPool.acquireFrom]
  split
  · exact h
  · rename_i pool hpool
    split
    · exact h
    · split
      · exact h
      · rename_i hdisposed bridge bridges hbridges
        refine Sound.replenish ?_ 0
        refine h.change p { s with held := s.held ++ [bridge] }
          (fun pool => { pool with bridges := bridges }) (fun _ => rfl)
          ⟨rfl, rfl, rfl, rfl, rfl⟩ (fun _ => id) (fun k hk => Or.inr (List.mem_append_left _ hk))
          (fun pool' k hpool' hk => ?_) (fun _ => Or.inl)
          fun c hc hphase => initializing_updatePool (fun _ => rfl) (h.arriving c hc hphase)
        rw [hpool] at hpool'
        obtain rfl := Option.some.inj hpool'
        rw [hbridges] at hk
        rcases List.mem_cons.mp hk with rfl | hk
        · exact Or.inr (List.mem_append_right _ (List.mem_singleton_self _))
        · exact Or.inl hk

theorem Sound.acquire (h : s.Sound) : (s.acquire config).1.Sound := by
  rw [IdleScalingPool.acquire]
  split
  · exact h
  · split
    · exact h.triggerScaleUp
    · exact h.resetIdleTimer.acquireFrom

theorem Sound.releaseToInnerPool (h : s.Sound) : s.releaseToInnerPool.Sound := by
  rw [IdleScalingPool.releaseToInnerPool]
  split
  · exact h
  · split
    · exact h
    · exact ⟨h.placed, h.arriving, h.tracked, h.taken, h.inner, h.scaleUp⟩

theorem Sound.release (h : s.Sound) (bridge : ℕ) : (s.release bridge).Sound := by
  have hsound := h.releaseToInnerPool
  refine ⟨fun k hk => ?_, hsound.arriving, hsound.tracked, hsound.taken, hsound.inner,
    hsound.scaleUp⟩
  refine (hsound.placed k hk).mono (fun hk => List.mem_append_left _ hk) (fun hk => ?_)
    fun q pool hpool hmem hkept => Or.inr (Or.inr ⟨q, pool, hpool, hmem, hkept⟩)
  by_cases hbridge : k = bridge
  · exact Or.inl (List.mem_append_right _ (List.mem_singleton.mpr hbridge))
  · exact Or.inr (List.mem_filter.mpr ⟨hk, by simpa using hbridge⟩)

theorem Sound.dispose (h : s.Sound) : s.dispose.Sound := by
  rw [IdleScalingPool.dispose]
  split
  · exact h
  · rename_i hdisposed
    have hnotCalled : s.disposePromise = .notCalled := by simpa [disposed] using hdisposed
    have hnotTaken := innerPoolNotTaken_of_not_disposed (Bool.not_eq_true _ ▸ hdisposed)
    refine ⟨fun k hk => ?_, h.arriving, fun q pool hpool hq => ?_, (fun hnot => by cases hnot),
      h.inner, h.scaleUp⟩
    · refine (h.placed k hk).mono id Or.inr fun q pool hpool hmem hkept => ?_
      exact Or.inr (Or.inr ⟨q, pool, hpool, hmem, hkept.imp_left fun hq => ⟨hq.1, rfl⟩⟩)
    · refine (h.tracked q pool hpool hq).imp id (Or.imp id fun hq => ?_)
      rw [hnotCalled] at hq
      cases hq

/-- A call of `createBridge` fails, or its bridge has to wait. -/
theorem Sound.setPhase (h : s.Sound) (creation : ℕ)
    (hphase : phase = .failed ∨ phase = .ready ∧ ∀ c, s.creations[creation]? = some c →
      c.attempt = none ∧ c.phase = .pending) : (s.setPhase creation phase).Sound := by
  refine ⟨fun k hk => ?_, fun c hc hcphase => ?_, h.tracked, h.taken, h.inner, h.scaleUp⟩
  · rcases isCreated_setPhase hk with hk | ⟨-, rfl⟩
    · exact h.placed k hk
    · rcases hphase with hphase | ⟨hphase, -⟩ <;> cases hphase
  · rcases mem_setPhase hc with hc | ⟨d, hd, rfl⟩
    · exact h.arriving c hc hcphase
    · rcases hphase with rfl | ⟨rfl, hpending⟩
      · rcases hcphase with hcphase | ⟨-, hcphase⟩ <;> cases hcphase
      · exact h.arriving d (List.mem_of_getElem? hd) (Or.inr (hpending d hd))

theorem arriving_setPhase_created {c : Creation}
    (hc : c ∈ (s.setPhase creation .created).creations)
    (hphase : c.phase = .ready ∨ c.attempt = none ∧ c.phase = .pending) : c ∈ s.creations := by
  rcases mem_setPhase hc with hc | ⟨d, -, rfl⟩
  · exact hc
  · rcases hphase with hphase | ⟨-, hphase⟩ <;> cases hphase

theorem isKeptInnerPool_iff : s.isKeptInnerPool p = true ↔
    s.innerPool = some p ∧ s.innerPoolNotTaken = true := by
  rw [isKeptInnerPool, Bool.and_eq_true, decide_eq_true_eq]

/-- A bridge is created for a pool that is disposed of or kept. -/
theorem Sound.bringBridge (h : s.Sound) (creation : ℕ) (hpool : s.pools[p]? = some pool)
    (hkept : pool.disposed = true ∨ s.isKeptInnerPool p = true) :
    (if pool.disposed then
      { s.setPhase creation .created with disposedBridges := s.disposedBridges ++ [creation] }
    else (s.setPhase creation .created).updatePool p fun pool =>
      { pool with bridges := pool.bridges ++ [creation] }).Sound := by
  split
  · refine ⟨fun k hk => ?_, fun d hd hphase => h.arriving d (arriving_setPhase_created hd hphase)
      hphase, h.tracked, h.taken, h.inner, h.scaleUp⟩
    rcases isCreated_setPhase hk with hk | ⟨rfl, -⟩
    · exact (h.placed k hk).mono (fun hk => List.mem_append_left _ hk) Or.inr
        fun q pool hpool hmem hkept => Or.inr (Or.inr ⟨q, pool, hpool, hmem, hkept⟩)
    · exact Or.inl (List.mem_append_right _ (List.mem_singleton_self _))
  · rename_i hdisposed
    refine h.change p (s.setPhase creation .created) _ (fun _ => rfl)
      ⟨rfl, rfl, rfl, rfl, rfl⟩ (fun _ => id) (fun _ => Or.inr)
      (fun _ _ _ hk => Or.inl (List.mem_append_left _ hk)) (fun k hk => ?_)
      fun d hd hphase => initializing_updatePool (fun _ => rfl)
        (h.arriving d (arriving_setPhase_created hd hphase) hphase)
    rcases isCreated_setPhase hk with hk | ⟨rfl, -⟩
    · exact Or.inl hk
    · have hkeeps := isKeptInnerPool_iff.mp (hkept.resolve_left hdisposed)
      refine Or.inr (Or.inr (Or.inr ⟨p, { pool with bridges := pool.bridges ++ [k] }, ?_,
        List.mem_append_right _ (List.mem_singleton_self _), Or.inl hkeeps⟩))
      rw [getElem?_updatePool_self, show (s.setPhase k .created).pools = s.pools from rfl, hpool,
        Option.map_some]

theorem Sound.replenished (h : s.Sound) {c : Creation} {attempt : ℕ} {succeeds : Bool}
    (hc : s.creations[creation]? = some c) (hattempt : c.attempt = some attempt)
    (hlose : s.losesNone (.creationSettled creation succeeds) = true) :
    (s.replenished creation c.pool attempt succeeds).Sound := by
  have hpool : (s.updatePool c.pool fun pool => { pool with
      warming := pool.warming - 1
      replenishPromises := pool.replenishPromises.erase creation }).Sound :=
    h.change c.pool s _ (fun _ => rfl) ⟨rfl, rfl, rfl, rfl, rfl⟩ (fun _ => id)
      (fun _ => Or.inr) (fun _ _ _ => Or.inl) (fun _ => Or.inl)
      fun c hc hphase => initializing_updatePool (fun _ => rfl) (h.arriving c hc hphase)
  rw [IdleScalingPool.replenished]
  cases succeeds with
  | false =>
    simp only [Bool.false_eq_true, if_false]
    have hfailed := hpool.setPhase creation (Or.inl rfl)
    split
    · exact ⟨hfailed.placed, hfailed.arriving, hfailed.tracked, hfailed.taken, hfailed.inner,
        hfailed.scaleUp⟩
    · exact hfailed
  | true =>
    simp only [losesNone, Bool.not_true, Bool.false_or, hc, Option.all_some, hattempt,
      reduceCtorEq, decide_false, Bool.or_eq_true] at hlose
    have hexists : ∃ pool, s.pools[c.pool]? = some pool := by
      rcases hlose with hlose | hlose
      · obtain ⟨pool, hpool, -⟩ := (Option.any_eq_true _ _).mp hlose
        exact ⟨pool, hpool⟩
      · obtain ⟨pool, hpool, -⟩ := h.inner c.pool (isKeptInnerPool_iff.mp hlose).1
        exact ⟨pool, hpool⟩
    obtain ⟨pool, hpool'⟩ := hexists
    have hupdated : (s.updatePool c.pool fun pool => { pool with
        warming := pool.warming - 1
        replenishPromises := pool.replenishPromises.erase creation }).pools[c.pool]? =
        some { pool with
          warming := pool.warming - 1
          replenishPromises := pool.replenishPromises.erase creation } := by
      rw [getElem?_updatePool_self, hpool', Option.map_some]
    have hkept : pool.disposed = true ∨ s.isKeptInnerPool c.pool = true := by
      rwa [hpool', Option.any_some] at hlose
    have hbrought := hpool.bringBridge creation hupdated hkept
    simp only [if_true]
    rw [show (IdleScalingPool.setPhase (s.updatePool c.pool fun pool => { pool with
        warming := pool.warming - 1
        replenishPromises := pool.replenishPromises.erase creation }) creation
        .created).pools[c.pool]? = _ from hupdated]
    exact hbrought

theorem Sound.creationSettled (h : s.Sound) {c : Creation} {succeeds : Bool}
    (hc : s.creations[creation]? = some c) (hphase : c.phase = .pending)
    (hlose : s.losesNone (.creationSettled creation succeeds) = true) :
    (s.creationSettled creation c succeeds).Sound := by
  rw [IdleScalingPool.creationSettled]
  split
  · rename_i hattempt
    refine ⟨fun k hk => ?_, fun d hd hdphase => ?_, h.tracked, h.taken, h.inner, h.scaleUp⟩
    · rcases isCreated_setPhase hk with hk | ⟨-, hcreated⟩
      · exact h.placed k hk
      · cases succeeds <;> cases hcreated
    · rcases mem_setPhase hd with hd | ⟨d', hd', rfl⟩
      · exact h.arriving d hd hdphase
      · rw [hc] at hd'
        obtain rfl := Option.some.inj hd'
        exact h.arriving c (List.mem_of_getElem? hc) (Or.inr ⟨hattempt, hphase⟩)
  · rename_i attempt hattempt
    exact h.replenished hc hattempt hlose

/-! ## Initializations -/

theorem mem_initialBridges {c : Creation} (hc : s.creations[k]? = some c) (hpool : c.pool = p)
    (hphase : c.phase = .ready) : k ∈ s.initialBridges p := by
  refine List.mem_filter.mpr ⟨List.mem_range.mpr (List.getElem?_eq_some_iff.mp hc).1, ?_⟩
  rw [hc, Option.any_some, decide_eq_true_eq]
  exact ⟨hpool, hphase⟩

/-- The pool that gets the bridges of its initialization is kept, or there are none. -/
theorem Sound.pushBridges (h : s.Sound) (hpool : s.pools[p]? = some pool)
    (hsettled : s.creationsSettled p = true) (hkept : s.initialBridges p = [] ∨ s.Keeps p pool) :
    (s.pushBridges p).Sound := by
  refine h.change p { s with creations := s.creations.map fun c =>
      if c.pool = p ∧ c.phase = .ready then { c with phase := .created } else c } _
    (fun _ => rfl) ⟨rfl, rfl, rfl, rfl, rfl⟩ (fun _ => id) (fun _ => Or.inr)
    (fun _ _ _ hk => Or.inl (List.mem_append_left _ hk)) (fun k hk => ?_) fun c hc hphase => ?_
  · obtain ⟨c, hc, hphase⟩ := hk
    rw [List.getElem?_map] at hc
    obtain ⟨d, hd, rfl⟩ := Option.map_eq_some_iff.mp hc
    split at hphase
    · rename_i hready
      have hk := mem_initialBridges hd hready.1 hready.2
      refine Or.inr (Or.inr (Or.inr ⟨p, _, by rw [getElem?_updatePool_self, hpool,
        Option.map_some], List.mem_append_right _ hk, ?_⟩))
      refine hkept.resolve_left fun hnone => ?_
      rw [hnone] at hk
      cases hk
    · exact Or.inl ⟨d, hd, hphase⟩
  · obtain ⟨d, hd, rfl⟩ := List.mem_map.mp hc
    by_cases hready : d.pool = p ∧ d.phase = .ready
    · rw [if_pos hready] at hphase
      rcases hphase with hphase | ⟨-, hphase⟩ <;> cases hphase
    · rw [if_neg hready] at hphase ⊢
      have hother : d.pool ≠ p := by
        intro hp
        rcases hphase with hphase | ⟨hattempt, hpending⟩
        · exact hready ⟨hp, hphase⟩
        · have hd := List.all_eq_true.mp hsettled d hd
          simp [hp, hattempt, hpending] at hd
      obtain ⟨pool, hpool, hinit⟩ := h.arriving d hd hphase
      refine ⟨pool, ?_, hinit⟩
      rw [getElem?_updatePool, hpool, Option.map_some, if_neg (Ne.symm hother)]

/-- It does not matter that the bridges are pushed first. -/
theorem scaleUpInitialized_pushBridges (succeeds : Bool) :
    (s.pushBridges p).scaleUpInitialized config p succeeds =
      (s.scaleUpInitialized config p succeeds).pushBridges p := by
  have hdisposed : (s.pushBridges p).disposed = s.disposed := rfl
  rw [IdleScalingPool.scaleUpInitialized, IdleScalingPool.scaleUpInitialized, hdisposed]
  split
  · rw [IdleScalingPool.pushBridges, IdleScalingPool.pushBridges, disposePool, disposePool,
      IdleScalingPool.updatePool, IdleScalingPool.updatePool, IdleScalingPool.updatePool,
      IdleScalingPool.updatePool]
    simp only [List.modify_modify_eq]
    rfl
  · rw [IdleScalingPool.resetIdleTimer, IdleScalingPool.resetIdleTimer]
    split <;> rfl

theorem Sound.scaleUpInitialized (config : IdleScalingConfig) (h : s.Sound)
    (hup : s.pendingScaleUp = some { pool := p }) {pool : IsolatePool}
    (hpool : s.pools[p]? = some pool) {succeeds : Bool}
    (hempty : succeeds = true → s.disposed = false → s.innerPoolIsEmpty = true) :
    (s.scaleUpInitialized config p succeeds).Sound ∧
    ∃ pool, (s.scaleUpInitialized config p succeeds).pools[p]? = some pool ∧
      (s.scaleUpInitialized config p succeeds).Keeps p pool := by
  obtain ⟨hinner, hactive⟩ := h.scaleUp p hup
  rw [IdleScalingPool.scaleUpInitialized]
  split
  · refine ⟨?_, _, by rw [disposePool, getElem?_updatePool_self, hpool, Option.map_some],
      Or.inr (awaitsReplenishments_eq pool)⟩
    refine h.setDisposal _ (fun _ => rfl) [] (by rw [List.append_nil])
      (fun pool k _ hmem _ => Or.inr ⟨hmem, awaitsReplenishments_eq pool⟩)
      (fun q hq hnot => Or.inr ⟨hq, hnot⟩) ?_ (fun _ _ _ => Or.inr (Or.inl rfl)) ?_ ?_ ?_
    · rintro q (hq | hq | hq)
      · exact Or.inl hq
      · rw [hup] at hq
        cases hq
      · exact Or.inr (Or.inr hq)
    · intro hnot
      have htaken := (h.taken hnot).1
      rw [hup] at htaken
      cases htaken
    · intro q hq
      refine ⟨?_, h.inner q hq⟩
      rintro rfl
      exact hinner hq
    · rintro q ⟨⟩
  · rename_i hcase
    simp only [Bool.or_eq_true, Bool.not_eq_true', not_or, Bool.not_eq_false,
      Bool.not_eq_true] at hcase
    have hnotTaken := innerPoolNotTaken_of_not_disposed hcase.2
    have hsound : Sound { s with innerPool := some p,
                                 pendingScaleUp := some { pool := p, phase := .ended } } := by
      refine h.setInner (hempty hcase.1 hcase.2) hactive (fun q hq => ?_) ?_ fun hnot => ?_
      · rw [hup] at hq
        cases hq
      · rintro q ⟨⟩
      · rw [hnotTaken] at hnot
        cases hnot
    refine ⟨hsound.resetIdleTimer, pool, ?_, Or.inl ⟨?_, ?_⟩⟩
    · rw [IdleScalingPool.resetIdleTimer]
      split <;> exact hpool
    · rw [IdleScalingPool.resetIdleTimer]
      split <;> rfl
    · rw [IdleScalingPool.resetIdleTimer]
      split <;> exact hnotTaken

theorem Sound.initialized (h : s.Sound) (hpool : s.pools[p]? = some pool)
    (hsettled : s.creationsSettled p = true) (hlose : s.losesNone (.initialized p) = true) :
    (s.initialized config p).Sound := by
  simp only [losesNone, Bool.and_eq_true, Bool.or_eq_true, decide_eq_true_eq,
    List.isEmpty_iff] at hlose
  obtain ⟨hkept, hempty⟩ := hlose
  rw [IdleScalingPool.initialized]
  by_cases hup : s.pendingScaleUp = some { pool := p }
  · have hempty' : s.initializationSucceeds p = true → s.disposed = false →
        s.innerPoolIsEmpty = true := by
      intro hsucceeds hdisposed
      simpa [hup, hsucceeds, hdisposed] using hempty
    obtain ⟨hsound, pool', hpool', hkeeps⟩ :=
      h.scaleUpInitialized config hup hpool hempty'
    rw [if_pos (show (s.pushBridges p).pendingScaleUp = _ from hup),
      scaleUpInitialized_pushBridges]
    refine hsound.pushBridges hpool' ?_ (Or.inr hkeeps)
    rw [IdleScalingPool.scaleUpInitialized]
    split
    · exact hsettled
    · rw [IdleScalingPool.resetIdleTimer]
      split <;> exact hsettled
  · have hsound : (s.pushBridges p).Sound := by
      refine h.pushBridges hpool hsettled (hkept.imp id fun hlooked => ?_)
      rw [isLookedAfter, hpool, Option.any_some] at hlooked
      simpa [hup, isKeptInnerPool, Keeps] using hlooked
    rw [if_neg (show ¬(s.pushBridges p).pendingScaleUp = _ from hup)]
    split
    · exact hsound.resetIdleTimer
    · exact hsound

/-! ## Steps -/

theorem Sound.poolReplenished (h : s.Sound) (hpool : s.pools[p]? = some pool)
    (hawaits : pool.awaitsReplenishments = true) :
    Sound { s.updatePool p fun pool => { pool with disposal := .disposes } with
      disposedBridges := s.disposedBridges ++ pool.bridges } := by
  have hnotInner : ∀ q, s.IsActive q → q ≠ p := by
    rintro q ⟨pool', hpool', hactive⟩ rfl
    rw [hpool] at hpool'
    obtain rfl := Option.some.inj hpool'
    exact not_awaits_of_active hactive (Or.inl hawaits)
  refine h.setDisposal (fun pool => { pool with disposal := .disposes }) (fun _ => rfl)
    pool.bridges rfl (fun pool' k hpool' hmem _ => ?_) (fun q hq hnot => Or.inr ⟨hq, hnot⟩)
    (fun _ => id) (fun pool' hpool' _ => h.tracked p pool hpool (Or.inl hawaits)) h.taken
    (fun q hq => ⟨hnotInner q (h.inner q hq), h.inner q hq⟩) fun q hq => ?_
  · rw [hpool] at hpool'
    obtain rfl := Option.some.inj hpool'
    exact Or.inl hmem
  · obtain ⟨hne, hactive⟩ := h.scaleUp q hq
    exact ⟨hnotInner q hactive, hne, hactive⟩

theorem Sound.poolDisposed (h : s.Sound) (hpool : s.pools[p]? = some pool)
    (hdisposes : pool.disposal = .disposes) :
    (s.updatePool p fun pool => { pool with bridges := [], disposal := .resolved }).Sound := by
  have hnotInner : ∀ q, s.IsActive q → q ≠ p := by
    rintro q ⟨pool', hpool', hactive⟩ rfl
    rw [hpool] at hpool'
    obtain rfl := Option.some.inj hpool'
    exact not_awaits_of_active hactive (Or.inr hdisposes)
  refine h.setDisposal _ (fun _ => rfl) [] (by rw [List.append_nil])
    (fun pool' k hpool' hmem hkept => ?_) (fun q hq hnot => Or.inr ⟨hq, hnot⟩) (fun _ => id)
    (fun pool' hpool' hself => ?_) h.taken
    (fun q hq => ⟨hnotInner q (h.inner q hq), h.inner q hq⟩) fun q hq => ?_
  · rw [hpool] at hpool'
    obtain rfl := Option.some.inj hpool'
    rcases hkept with ⟨hinner, -⟩ | hawaits
    · exact absurd rfl (hnotInner p (h.inner p hinner))
    · rw [IsolatePool.awaitsReplenishments, hdisposes] at hawaits
      cases hawaits
  · rcases hself with hself | hself <;> cases hself
  · obtain ⟨hne, hactive⟩ := h.scaleUp q hq
    exact ⟨hnotInner q hactive, hne, hactive⟩

theorem not_isPoolDisposed (hpool : s.pools[p]? = some pool)
    (h : pool.awaitsReplenishments = true ∨ pool.disposal = .disposes) :
    ¬s.isPoolDisposed p = true := by
  rw [isPoolDisposed, hpool, Option.any_some, decide_eq_true_eq]
  intro hresolved
  rw [IsolatePool.awaitsReplenishments, hresolved] at h
  rcases h with h | h <;> cases h

/-- A pool that is disposed of needs nobody to wait for it. -/
theorem Sound.scaleUpEnds (h : s.Sound) {scaleUp : ScaleUp}
    (hup : s.pendingScaleUp = some scaleUp)
    (hended : scaleUp.phase = .ended ∨
      scaleUp.phase = .disposes ∧ s.isPoolDisposed scaleUp.pool = true) :
    Sound { s with pendingScaleUp := none } := by
  refine ⟨h.placed, h.arriving, fun q pool hpool hq => ?_, fun hnot => ⟨rfl, (h.taken hnot).2⟩,
    h.inner, fun q hq => (by cases hq)⟩
  refine (h.tracked q pool hpool hq).imp id (Or.imp_left fun hup' => ?_)
  rw [hup] at hup'
  obtain rfl := Option.some.inj hup'
  rcases hended with hended | ⟨-, hdisposed⟩
  · cases hended
  · exact absurd hdisposed (not_isPoolDisposed hpool hq)

theorem Sound.scaleDownEnds (h : s.Sound) {oldInner : ℕ}
    (hdown : s.pendingScaleDown = some oldInner) (hdisposed : s.isPoolDisposed oldInner = true) :
    Sound { s with pendingScaleDown := none } := by
  refine ⟨h.placed, h.arriving, fun q pool hpool hq => ?_, fun hnot => ⟨(h.taken hnot).1, rfl⟩,
    h.inner, h.scaleUp⟩
  refine Or.inr ((h.tracked q pool hpool hq).resolve_left fun hdown' => ?_)
  rw [hdown] at hdown'
  obtain rfl := Option.some.inj hdown'
  exact not_isPoolDisposed hpool hq hdisposed

theorem Sound.innerPoolDisposed (h : s.Sound) {toDispose : ℕ}
    (hpromise : s.disposePromise = .disposes toDispose)
    (hdisposed : s.isPoolDisposed toDispose = true) :
    Sound { s with disposePromise := .resolved } := by
  have hnot : s.innerPoolNotTaken = false := by
    rw [innerPoolNotTaken, hpromise]
    rfl
  refine ⟨fun k hk => ?_, h.arriving, fun q pool hpool hq => ?_, fun _ => h.taken hnot, h.inner,
    h.scaleUp⟩
  · refine (h.placed k hk).mono id Or.inr fun q pool hpool hmem hkept => ?_
    refine Or.inr (Or.inr ⟨q, pool, hpool, hmem, Or.inr (hkept.resolve_left fun hq => ?_)⟩)
    rw [hnot] at hq
    cases hq.2
  · rcases h.tracked q pool hpool hq with hdown | hup | hpromise'
    · exact Or.inl hdown
    · exact Or.inr (Or.inl hup)
    · rw [hpromise] at hpromise'
      obtain rfl := DisposeProgress.disposes.inj hpromise'
      exact absurd hdisposed (not_isPoolDisposed hpool hq)

theorem Sound.step (h : s.Sound) {event : IdleScalingEvent} (hlose : s.losesNone event = true)
    (hs : s.step config event = .ok s') : s'.Sound := by
  cases event with
  | initializePool =>
    cases hs
    exact h.initializePool hlose
  | acquire =>
    cases hs
    exact h.acquire
  | release bridge =>
    simp only [IdleScalingPool.step] at hs
    split at hs
    · cases hs
      exact h.release bridge
    · cases hs
  | releaseOther =>
    cases hs
    exact h.releaseToInnerPool
  | dispose =>
    cases hs
    exact h.dispose
  | idleTimeout =>
    simp only [IdleScalingPool.step] at hs
    split at hs
    · cases hs
      exact Sound.triggerScaleDown
        ⟨h.placed, h.arriving, h.tracked, h.taken, h.inner, h.scaleUp⟩
    · cases hs
  | retry index =>
    simp only [IdleScalingPool.step] at hs
    split at hs
    · cases hs
    · rename_i attempt _
      cases hs
      refine Sound.replenish ?_ attempt
      exact ⟨h.placed, h.arriving, h.tracked, h.taken, h.inner, h.scaleUp⟩
  | released index =>
    simp only [IdleScalingPool.step] at hs
    split at hs
    · cases hs
    · cases hs
      refine Sound.replenish ?_ 0
      exact ⟨h.placed, h.arriving, h.tracked, h.taken, h.inner, h.scaleUp⟩
  | creationSettled creation succeeds =>
    simp only [IdleScalingPool.step] at hs
    split at hs
    · cases hs
    · rename_i c hc
      split at hs
      · rename_i hphase
        cases hs
        exact h.creationSettled hc hphase hlose
      · cases hs
  | initialized p =>
    simp only [IdleScalingPool.step] at hs
    split at hs
    · cases hs
    · rename_i pool hpool
      split at hs
      · rename_i hsettled
        cases hs
        exact h.initialized hpool (Bool.and_eq_true_iff.mp hsettled).2 hlose
      · cases hs
  | poolReplenished p =>
    simp only [IdleScalingPool.step] at hs
    split at hs
    · cases hs
    · rename_i pool hpool
      split at hs
      · rename_i promises hawaits
        split at hs
        · cases hs
          refine h.poolReplenished hpool ?_
          rw [IsolatePool.awaitsReplenishments, hawaits]
        · cases hs
      · cases hs
  | poolDisposed p =>
    simp only [IdleScalingPool.step] at hs
    split at hs
    · cases hs
    · rename_i pool hpool
      split at hs
      · rename_i hdisposes
        cases hs
        exact h.poolDisposed hpool hdisposes
      · cases hs
  | scaleUpEnds =>
    simp only [IdleScalingPool.step] at hs
    split at hs
    · cases hs
    · rename_i scaleUp hup
      split at hs
      · rename_i hended
        cases hs
        exact h.scaleUpEnds hup hended
      · cases hs
  | scaleDownEnds =>
    simp only [IdleScalingPool.step] at hs
    split at hs
    · cases hs
    · rename_i oldInner hdown
      split at hs
      · rename_i hdisposed
        cases hs
        exact h.scaleDownEnds hdown hdisposed
      · cases hs
  | transitionsDrained =>
    simp only [IdleScalingPool.step] at hs
    split at hs
    · rename_i hdrained
      obtain ⟨hdrains, hup, hdown⟩ := hdrained
      cases hs
      exact h.disposeInnerPool hup hdown hdrains
    · cases hs
  | innerPoolDisposed =>
    simp only [IdleScalingPool.step] at hs
    split at hs
    · rename_i toDispose hpromise
      split at hs
      · rename_i hdisposed
        cases hs
        exact h.innerPoolDisposed hpromise hdisposed
      · cases hs
    · cases hs

/-! ## Runs -/

theorem Sound.noneLeaked (h : s.Sound) : s.NoneLeaked := by
  refine ⟨fun k hk => ?_, fun c hc hphase => h.arriving c hc (Or.inl hphase),
    fun hresolved _ k hk => ?_⟩
  · rcases h.placed k hk with hk | hk | ⟨p, pool, hpool, hmem, ⟨hinner, -⟩ | hawaits⟩
    · exact Or.inl hk
    · exact Or.inr (Or.inl hk)
    · exact Or.inr (Or.inr (Or.inl ⟨p, pool, hinner, hpool, hmem⟩))
    · exact Or.inr (Or.inr (Or.inr ⟨pool, List.mem_of_getElem? hpool, hawaits, hmem⟩))
  · have hnot : s.innerPoolNotTaken = false := by
      rw [innerPoolNotTaken, hresolved]
      rfl
    obtain ⟨hup, hdown⟩ := h.taken hnot
    rcases h.placed k hk with hk | hk | ⟨p, pool, hpool, -, ⟨-, hnotTaken⟩ | hawaits⟩
    · exact Or.inl hk
    · exact Or.inr hk
    · rw [hnot] at hnotTaken
      cases hnotTaken
    · rcases h.tracked p pool hpool (Or.inl hawaits) with htracks | htracks | htracks
      · rw [hdown] at htracks
        cases htracks
      · rw [hup] at htracks
        cases htracks
      · rw [hresolved] at htracks
        cases htracks

variable {steps : List (IdleScalingPool × IdleScalingEvent)}

/-- In a run no step of which loses a bridge so, every bridge is disposed of or being so, held or
in the inner pool in every state, and once the pool is disposed of and nothing is being created,
disposed of or held. -/
theorem idleScaling_run (h : Run (step config) {} steps s)
    (hsteps : ∀ x ∈ steps, x.1.losesNone x.2 = true) :
    ∀ state ∈ steps.map Prod.fst ++ [s], state.NoneLeaked := fun state hstate =>
  (h.forall_states_of sound_initial (fun _ _ _ hs hC hstep => hs.step hC hstep) hsteps state
    hstate).noneLeaked

/-- A pool of two bridges, one of which is acquired and replaced, is dropped when idle while the
replenishment is in flight. The scale-up that follows has one bridge, and ends after `dispose` was
called. -/
theorem idleScaling_run_idle : ∃ steps, ∃ s : IdleScalingPool,
    Run (step { size := 2, idleTimeoutMs := some 1000 }) {} steps s ∧
    s.disposePromise = .resolved ∧ s.held = [0] ∧ s.disposedBridges = [2, 1, 3] ∧
    ∀ state ∈ steps.map Prod.fst ++ [s], state.NoneLeaked := by
  have hevents : (runSteps (step { size := 2, idleTimeoutMs := some 1000 })
      ({} : IdleScalingPool)
      [.initializePool, .creationSettled 1 true, .creationSettled 0 true, .initialized 0, .acquire,
        .idleTimeout, .creationSettled 2 true, .poolReplenished 0, .poolDisposed 0, .scaleDownEnds,
        .acquire, .creationSettled 3 true, .dispose, .creationSettled 4 false, .initialized 1,
        .poolReplenished 1, .poolDisposed 1, .scaleUpEnds, .transitionsDrained]).map
      (fun r => (r.2.disposePromise, r.2.held, r.2.disposedBridges,
        r.1.all fun x => x.1.losesNone x.2)) = .ok (.resolved, [0], [2, 1, 3], true) := by
    decide
  obtain ⟨steps, s, hrun, -, hresult⟩ := exists_run hevents
  obtain ⟨hresolved, hrest⟩ := Prod.mk.inj hresult
  obtain ⟨hheld, hrest⟩ := Prod.mk.inj hrest
  obtain ⟨hdisposed, hsteps⟩ := Prod.mk.inj hrest
  exact ⟨steps, s, hrun, hresolved, hheld, hdisposed,
    idleScaling_run hrun (List.all_eq_true.mp hsteps)⟩

/-- The pool is disposed of while its initialization has a bridge pending. -/
theorem idleScaling_run_initializing : ¬∀ steps, ∀ s : IdleScalingPool,
    Run (step { size := 1, idleTimeoutMs := none }) {} steps s → s.NoneLeaked := by
  intro h
  have hevents : (runSteps (step { size := 1, idleTimeoutMs := none }) ({} : IdleScalingPool)
      [.initializePool, .dispose, .transitionsDrained, .poolReplenished 0, .poolDisposed 0,
        .innerPoolDisposed, .creationSettled 0 true, .initialized 0]).map
      (fun r => (r.2.disposePromise, r.2.held, r.2.disposedBridges, r.2.creations)) =
      .ok (.resolved, [], [], [{ pool := 0, attempt := none, phase := .created }]) := by
    decide
  obtain ⟨steps, s, hrun, -, hresult⟩ := exists_run hevents
  obtain ⟨hresolved, hrest⟩ := Prod.mk.inj hresult
  obtain ⟨hheld, hrest⟩ := Prod.mk.inj hrest
  obtain ⟨hdisposed, hcreations⟩ := Prod.mk.inj hrest
  have hcreated : s.IsCreated 0 := ⟨_, by rw [hcreations]; rfl, rfl⟩
  have hsettled : ∀ c ∈ s.creations, c.phase = .created ∨ c.phase = .failed := by
    intro c hc
    rw [hcreations] at hc
    rw [List.mem_singleton.mp hc]
    exact Or.inl rfl
  have hleak := (h steps s hrun).disposed hresolved hsettled 0 hcreated
  rw [hdisposed, hheld] at hleak
  rcases hleak with hleak | hleak <;> cases hleak

end IdleScalingPool

end N8n
