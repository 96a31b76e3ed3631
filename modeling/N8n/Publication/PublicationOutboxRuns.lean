import N8n.Publication.PublicationOutbox

/-!
# Runs of the publication outbox
-/

open Lib

namespace N8n

variable {C W V : Type} {outbox outbox' : Outbox W V} {row old new : OutboxRow W V}
  {w : W} {id claim lease : ℕ}

/-! ## Changes of one row -/

namespace Outbox

variable {f : OutboxRow W V → OutboxRow W V} {p : OutboxRow W V → Bool}

theorem mem_update :
    row ∈ (outbox.update p f).rows ↔ ∃ old ∈ outbox.rows, (if p old then f old else old) = row := by
  rw [update, List.mem_map]

theorem mem_update_of_not (hrow : row ∈ outbox.rows) (hp : p row = false) :
    row ∈ (outbox.update p f).rows :=
  mem_update.mpr ⟨row, hrow, by rw [hp, if_neg Bool.false_ne_true]⟩

/-- No two rows have the same id, and new ones get a new one. -/
structure Numbered (outbox : Outbox W V) : Prop where
  nodup : (outbox.rows.map OutboxRow.id).Nodup
  lt : ∀ row ∈ outbox.rows, row.id < outbox.nextId

theorem Numbered.eq_of_id (h : Numbered outbox) (hrow : row ∈ outbox.rows) (hold : old ∈ outbox.rows)
    (hid : row.id = old.id) : row = old :=
  List.inj_on_of_nodup_map h.nodup hrow hold hid

/-- One row becomes another one of the same workflow. -/
structure Replaces (outbox outbox' : Outbox W V) (old new : OutboxRow W V) : Prop where
  mem : old ∈ outbox.rows
  id : new.id = old.id
  workflowId : new.workflowId = old.workflowId
  rows : ∀ row, row ∈ outbox'.rows ↔ row = new ∨ row ∈ outbox.rows ∧ row ≠ old
  ids : outbox'.rows.map OutboxRow.id = outbox.rows.map OutboxRow.id
  nextId : outbox'.nextId = outbox.nextId
  now : outbox'.now = outbox.now

theorem replaces_update (hold : old ∈ outbox.rows)
    (hp : ∀ row ∈ outbox.rows, p row = true ↔ row = old) (hid : (f old).id = old.id)
    (hworkflow : (f old).workflowId = old.workflowId) :
    Replaces outbox (outbox.update p f) old (f old) := by
  refine ⟨hold, hid, hworkflow, fun row => ?_, ?_, rfl, rfl⟩
  · rw [mem_update]
    constructor
    · rintro ⟨r, hr, hrow⟩
      split at hrow
      · rename_i hpr
        obtain rfl := (hp r hr).mp hpr
        exact .inl hrow.symm
      · rename_i hpr
        subst hrow
        exact .inr ⟨hr, fun heq => hpr ((hp r hr).mpr heq)⟩
    · rintro (rfl | ⟨hr, hne⟩)
      · exact ⟨old, hold, by rw [if_pos ((hp old hold).mpr rfl)]⟩
      · exact ⟨row, hr, by rw [if_neg (fun hpr => hne ((hp row hr).mp hpr))]⟩
  · rw [update, List.map_map]
    refine List.map_congr_left fun r hr => ?_
    simp only [Function.comp_apply]
    split
    · rename_i hpr
      rw [(hp r hr).mp hpr, hid]
    · rfl

theorem update_of_none (h : ∀ row ∈ outbox.rows, p row = false) : outbox.update p f = outbox := by
  have hrows : outbox.rows.map (fun row => if p row then f row else row) = outbox.rows := by
    conv_rhs => rw [← List.map_id outbox.rows]
    exact List.map_congr_left fun row hrow => by simp [h row hrow]
  rw [update, hrows]

theorem Replaces.numbered (h : Replaces outbox outbox' old new) (hn : Numbered outbox) :
    Numbered outbox' := by
  refine ⟨h.ids ▸ hn.nodup, fun row hrow => ?_⟩
  rw [h.nextId]
  rcases (h.rows row).mp hrow with rfl | ⟨hrow, -⟩
  · exact h.id ▸ hn.lt old h.mem
  · exact hn.lt row hrow

end Outbox

open Outbox

/-! ## The invariant -/

variable [DecidableEq W] {use use' : OutboxUse C W V} {c : OutboxClaim C W V}

namespace OutboxUse

/-- Where the version that was enqueued last for the workflow is. -/
structure Current (use : OutboxUse C W V) (w : W) : Prop where
  pending : ∀ row ∈ use.outbox.rows, row.workflowId = w → row.status = .pending →
    use.lastEnqueued w = some row.publishedVersionId
  inProgress : (∀ row ∈ use.outbox.rows, row.workflowId = w → row.status ≠ .pending) →
    ∀ row ∈ use.outbox.rows, row.workflowId = w → row.status = .inProgress →
      use.lastEnqueued w = some row.publishedVersionId
  closed : (∀ row ∈ use.outbox.rows, row.workflowId = w → row.isOpen = false) →
    (use.lastResolved w).map OutboxRow.publishedVersionId = use.lastEnqueued w

/-- A row that is about to be deleted is not pending, and another row of its workflow is. -/
def Superseded (use : OutboxUse C W V) (id : ℕ) : Prop :=
  ∀ row ∈ use.outbox.rows, row.id = id → row.status ≠ .pending ∧
    (row.status = .inProgress →
      ∃ p ∈ use.outbox.rows, p.workflowId = row.workflowId ∧ p.status = .pending)

/-- The claimed record is of the table. -/
def Claimed (use : OutboxUse C W V) (c : OutboxClaim C W V) : Prop :=
  c.record.id < use.outbox.nextId ∧
    ∀ row ∈ use.outbox.rows, row.id = c.record.id → row.workflowId = c.record.workflowId

structure Sound (use : OutboxUse C W V) : Prop where
  numbered : use.outbox.Numbered
  single : use.SingleRows
  current : ∀ w, use.Current w
  superseded : ∀ c ∈ use.claims, c.progress = .collided → use.Superseded c.record.id
  claimed : ∀ c ∈ use.claims, use.Claimed c
  resolved : ∀ row ∈ use.resolved, row ∈ use.outbox.rows ∧ row.isOpen = false

theorem sound_initial : Sound ({} : OutboxUse C W V) := by
  refine ⟨⟨List.nodup_nil, ?_⟩, ?_, fun w => ⟨?_, ?_, ?_⟩, ?_, ?_, ?_⟩
  · rintro row ⟨⟩
  · rintro row ⟨⟩
  · rintro row ⟨⟩
  · rintro - row ⟨⟩
  · exact fun _ => rfl
  · rintro c ⟨⟩
  · rintro c ⟨⟩
  · rintro row ⟨⟩

theorem Sound.publishesLast (h : Sound use) : use.PublishesLast := by
  intro w hclosed
  refine ⟨(h.current w).closed hclosed, fun row hrow => ?_⟩
  have hmem := List.mem_of_getLast? hrow
  exact (h.resolved row (List.mem_filter.mp hmem).1).1

omit [DecidableEq W] in
theorem isOpen_iff : row.isOpen = true ↔ row.status = .pending ∨ row.status = .inProgress := by
  simp [OutboxRow.isOpen]

/-- Another workflow has the same rows. -/
theorem Current.congr (h : Current use w)
    (hrows : ∀ row, row.workflowId = w → (row ∈ use'.outbox.rows ↔ row ∈ use.outbox.rows))
    (henqueued : use'.lastEnqueued w = use.lastEnqueued w)
    (hresolved : use'.lastResolved w = use.lastResolved w) : Current use' w := by
  refine ⟨fun row hrow hw => ?_, fun hnone row hrow hw => ?_, fun hclosed => ?_⟩
  · rw [henqueued]
    exact h.pending row ((hrows row hw).mp hrow) hw
  · rw [henqueued]
    exact h.inProgress (fun r hr hrw => hnone r ((hrows r hrw).mpr hr) hrw) row
      ((hrows row hw).mp hrow) hw
  · rw [henqueued, hresolved]
    exact h.closed fun r hr hrw => hclosed r ((hrows r hrw).mpr hr) hrw

/-- A row keeps to itself what the unique index covers. -/
theorem Sound.single_of_replaces (h : Sound use)
    (hr : Replaces use.outbox use'.outbox old new)
    (hfree : new.isOpen = true → ∀ row ∈ use.outbox.rows, row ≠ old →
      row.workflowId = old.workflowId → row.status ≠ new.status) : use'.SingleRows := by
  intro row hrow other hother hopen hw hstatus
  rcases (hr.rows row).mp hrow with rfl | ⟨hrow, hne⟩ <;>
    rcases (hr.rows other).mp hother with rfl | ⟨hother, hne'⟩
  · rfl
  · exact absurd hstatus.symm (hfree hopen other hother hne' (hw.symm.trans hr.workflowId))
  · have hopen' : other.isOpen = true := by
      rw [isOpen_iff, ← hstatus, ← isOpen_iff]
      exact hopen
    exact absurd hstatus (hfree hopen' row hrow hne (hw.trans hr.workflowId))
  · exact h.single row hrow other hother hopen hw hstatus

omit [DecidableEq W] in
theorem Claimed.replaces (h : use.Claimed c) (hr : Replaces use.outbox use'.outbox old new) :
    use'.Claimed c := by
  refine ⟨hr.nextId ▸ h.1, fun row hrow hid => ?_⟩
  rcases (hr.rows row).mp hrow with rfl | ⟨hrow, -⟩
  · rw [hr.workflowId]
    exact h.2 old hr.mem (hr.id.symm.trans hid)
  · exact h.2 row hrow hid

/-- Rows that are resolved are not changed. -/
theorem Sound.resolved_of_replaces (h : Sound use) (hr : Replaces use.outbox use'.outbox old new)
    (hopen : old.isOpen = true) :
    ∀ row ∈ use.resolved, row ∈ use'.outbox.rows ∧ row.isOpen = false := by
  intro row hrow
  obtain ⟨hmem, hclosed⟩ := h.resolved row hrow
  refine ⟨(hr.rows row).mpr (.inr ⟨hmem, ?_⟩), hclosed⟩
  rintro rfl
  rw [hclosed] at hopen
  cases hopen

/-- The row a collided claim is about to delete stays superseded. -/
theorem Superseded.replaces (h : use.Superseded id)
    (hr : Replaces use.outbox use'.outbox old new)
    (hpending : old.id = id → new.status ≠ .pending)
    (hprogress : old.id = id → new.status = .inProgress → old.status = .inProgress)
    (hleft : old.status = .pending → new.status = .pending ∨
      ∀ row ∈ use.outbox.rows, row.workflowId = old.workflowId → row.status ≠ .inProgress) :
    use'.Superseded id := by
  intro row hrow hid
  rcases (hr.rows row).mp hrow with rfl | ⟨hrow, hne⟩
  · have hid' : old.id = id := hr.id.symm.trans hid
    refine ⟨hpending hid', fun hstatus => ?_⟩
    have hold := hprogress hid' hstatus
    obtain ⟨p, hp, hpw, hps⟩ := (h old hr.mem hid').2 hold
    refine ⟨p, (hr.rows p).mpr (.inr ⟨hp, ?_⟩), hpw.trans hr.workflowId.symm, hps⟩
    rintro rfl
    rw [hold] at hps
    cases hps
  · obtain ⟨hnot, hother⟩ := h row hrow hid
    refine ⟨hnot, fun hstatus => ?_⟩
    obtain ⟨p, hp, hpw, hps⟩ := hother hstatus
    by_cases hpo : p = old
    · subst hpo
      rcases hleft hps with hnew | hnone
      · exact ⟨new, (hr.rows new).mpr (.inl rfl), hr.workflowId.trans hpw, hnew⟩
      · exact absurd hstatus (hnone row hrow hpw.symm)
    · exact ⟨p, (hr.rows p).mpr (.inr ⟨hp, hpo⟩), hpw, hps⟩

/-- One open row is changed, and with it the last version of its workflow. -/
theorem Sound.replaces (h : Sound use) (hr : Replaces use.outbox use'.outbox old new)
    (hopen : old.isOpen = true)
    (hfree : new.isOpen = true → ∀ row ∈ use.outbox.rows, row ≠ old →
      row.workflowId = old.workflowId → row.status ≠ new.status)
    (hcurrent : use'.Current old.workflowId)
    (hothers : ∀ v, v ≠ old.workflowId → use'.lastEnqueued v = use.lastEnqueued v ∧
      use'.lastResolved v = use.lastResolved v)
    (hresolved : ∀ row ∈ use'.resolved, row ∈ use.resolved ∨ row = new ∧ new.isOpen = false)
    (hclaims : ∀ c ∈ use'.claims, use'.Claimed c ∧
      (c.progress = .collided → use'.Superseded c.record.id)) : Sound use' := by
  refine ⟨hr.numbered h.numbered, h.single_of_replaces hr hfree, fun v => ?_,
    fun c hc => (hclaims c hc).2, fun c hc => (hclaims c hc).1, fun row hrow => ?_⟩
  · by_cases hv : v = old.workflowId
    · exact hv ▸ hcurrent
    · refine (h.current v).congr (fun row hw => ?_) (hothers v hv).1 (hothers v hv).2
      rw [hr.rows]
      constructor
      · rintro (rfl | ⟨hrow, -⟩)
        · exact absurd (hw.symm.trans hr.workflowId) hv
        · exact hrow
      · exact fun hrow => .inr ⟨hrow, fun heq => hv (hw ▸ heq ▸ rfl)⟩
  · rcases hresolved row hrow with hrow | ⟨rfl, hclosed⟩
    · exact h.resolved_of_replaces hr hopen row hrow
    · exact ⟨(hr.rows row).mpr (.inl rfl), hclosed⟩

/-! ## What was enqueued and resolved last -/

theorem lastEnqueued_append {v : V} {u : W}
    (h : use'.enqueued = use.enqueued ++ [(u, v)]) (w : W) :
    use'.lastEnqueued w = if u = w then some v else use.lastEnqueued w := by
  unfold lastEnqueued
  rw [h, List.filter_append]
  by_cases hu : u = w <;> simp [hu]

theorem lastResolved_append (h : use'.resolved = use.resolved ++ [row]) (w : W) :
    use'.lastResolved w = if row.workflowId = w then some row else use.lastResolved w := by
  unfold lastResolved
  rw [h, List.filter_append]
  by_cases hw : row.workflowId = w <;> simp [hw]

/-! ## Enqueueing -/

theorem pendingFor_iff : pendingFor w row = true ↔ row.workflowId = w ∧ row.status = .pending := by
  simp [pendingFor]

/-- The pending row of a workflow gets another version. -/
theorem Sound.supersede (h : Sound use) (hr : Replaces use.outbox use'.outbox old new)
    (hpending : old.status = .pending) (hnew : new.status = .pending)
    (henqueued : use'.enqueued = use.enqueued ++ [(old.workflowId, new.publishedVersionId)])
    (hclaims : use'.claims = use.claims) (hresolved : use'.resolved = use.resolved) :
    Sound use' := by
  have hopen : old.isOpen = true := isOpen_iff.mpr (.inl hpending)
  have hmem := (hr.rows new).mpr (.inl rfl)
  have hunique : ∀ row ∈ use.outbox.rows, row.workflowId = old.workflowId → row.status = .pending →
      row = old := fun row hrow hrw hrs =>
    (h.single old hr.mem row hrow hopen hrw.symm (hpending.trans hrs.symm)).symm
  have hlast := lastEnqueued_append henqueued
  refine h.replaces hr hopen (fun _ row hrow hne hrw hstatus => ?_)
    ⟨fun row hrow hrw hrs => ?_, fun hnone => ?_, fun hclosed => ?_⟩
    (fun u hu => ⟨?_, by rw [lastResolved, hresolved, lastResolved]⟩)
    (fun row hrow => .inl (hresolved ▸ hrow)) fun c hc => ?_
  · exact hne (hunique row hrow hrw (hstatus.trans hnew))
  · rw [hlast, if_pos rfl]
    rcases (hr.rows row).mp hrow with rfl | ⟨hrow, hne⟩
    · rfl
    · exact absurd (hunique row hrow hrw hrs) hne
  · exact absurd hnew (hnone new hmem hr.workflowId)
  · have := hclosed new hmem hr.workflowId
    rw [isOpen_iff.mpr (.inl hnew)] at this
    cases this
  · rw [hlast, if_neg (Ne.symm hu)]
  · rw [hclaims] at hc
    refine ⟨(h.claimed c hc).replaces hr, fun hcollided => ?_⟩
    have hsuperseded := h.superseded c hc hcollided
    refine hsuperseded.replaces hr (fun hid => ?_) (fun hid => ?_) fun _ => .inl hnew
    · exact absurd hpending (hsuperseded old hr.mem hid).1
    · exact absurd hpending (hsuperseded old hr.mem hid).1

/-- A workflow without a pending row gets one. -/
theorem Sound.insert (h : Sound use) (hrows : use'.outbox.rows = use.outbox.rows ++ [new])
    (hid : new.id = use.outbox.nextId) (hnext : use'.outbox.nextId = use.outbox.nextId + 1)
    (hnew : new.status = .pending)
    (hnone : ∀ row ∈ use.outbox.rows, row.workflowId = new.workflowId → row.status ≠ .pending)
    (henqueued : use'.enqueued = use.enqueued ++ [(new.workflowId, new.publishedVersionId)])
    (hclaims : use'.claims = use.claims) (hresolved : use'.resolved = use.resolved) :
    Sound use' := by
  have hmem : ∀ row, row ∈ use'.outbox.rows ↔ row ∈ use.outbox.rows ∨ row = new := by
    intro row
    rw [hrows, List.mem_append, List.mem_singleton]
  have hlast := lastEnqueued_append henqueued
  have hlastResolved : ∀ u, use'.lastResolved u = use.lastResolved u := by
    intro u
    rw [lastResolved, hresolved, lastResolved]
  refine ⟨⟨?_, fun row hrow => ?_⟩, fun row hrow other hother hopen hw hstatus => ?_, fun u => ?_,
    fun c hc hcollided row hrow hrid => ?_, fun c hc => ⟨?_, fun row hrow hrid => ?_⟩,
    fun row hrow => ?_⟩
  · rw [hrows, List.map_append, List.map_singleton, List.nodup_append]
    refine ⟨h.numbered.nodup, List.nodup_singleton _, fun i hi j hj => ?_⟩
    obtain ⟨row, hrow, rfl⟩ := List.mem_map.mp hi
    rw [List.mem_singleton.mp hj, hid]
    exact (h.numbered.lt row hrow).ne
  · rw [hnext]
    rcases (hmem row).mp hrow with hrow | rfl
    · exact (h.numbered.lt row hrow).trans (Nat.lt_succ_self _)
    · rw [hid]
      exact Nat.lt_succ_self _
  · rcases (hmem row).mp hrow with hrow | rfl <;> rcases (hmem other).mp hother with hother | rfl
    · exact h.single row hrow other hother hopen hw hstatus
    · exact absurd (hstatus.trans hnew) (hnone row hrow hw)
    · exact absurd (hstatus.symm.trans hnew) (hnone other hother hw.symm)
    · rfl
  · by_cases hu : new.workflowId = u
    · subst hu
      refine ⟨fun row hrow hrw hrs => ?_, fun hno => ?_, fun hclosed => ?_⟩
      · rw [hlast, if_pos rfl]
        rcases (hmem row).mp hrow with hrow | rfl
        · exact absurd hrs (hnone row hrow hrw)
        · rfl
      · exact absurd hnew (hno new ((hmem new).mpr (.inr rfl)) rfl)
      · have := hclosed new ((hmem new).mpr (.inr rfl)) rfl
        rw [isOpen_iff.mpr (.inl hnew)] at this
        cases this
    · refine (h.current u).congr (fun row hrw => ?_) (by rw [hlast, if_neg hu]) (hlastResolved u)
      rw [hmem, or_iff_left]
      rintro rfl
      exact hu hrw
  · rw [hclaims] at hc
    rcases (hmem row).mp hrow with hrow | rfl
    · obtain ⟨hnot, hother⟩ := h.superseded c hc hcollided row hrow hrid
      refine ⟨hnot, fun hstatus => ?_⟩
      obtain ⟨p, hp, hpw⟩ := hother hstatus
      exact ⟨p, (hmem p).mpr (.inl hp), hpw⟩
    · exact absurd (hid.symm.trans hrid) (h.claimed c hc).1.ne'
  · rw [hclaims] at hc
    rw [hnext]
    exact (h.claimed c hc).1.trans (Nat.lt_succ_self _)
  · rw [hclaims] at hc
    rcases (hmem row).mp hrow with hrow | rfl
    · exact (h.claimed c hc).2 row hrow hrid
    · exact absurd (hid.symm.trans hrid) (h.claimed c hc).1.ne'
  · rw [hresolved] at hrow
    obtain ⟨hrow, hclosed⟩ := h.resolved row hrow
    exact ⟨(hmem row).mpr (.inl hrow), hclosed⟩

theorem Sound.enqueue (h : Sound use) (w : W) (v : V) :
    Sound { use with outbox := use.outbox.enqueue w v, enqueued := use.enqueued ++ [(w, v)] } := by
  unfold Outbox.enqueue
  split
  · rename_i hany
    obtain ⟨old, hold, hp⟩ := List.any_eq_true.mp hany
    obtain ⟨rfl, hpending⟩ := pendingFor_iff.mp hp
    refine h.supersede (replaces_update hold (fun row hrow => ?_) rfl rfl) hpending hpending rfl rfl
      rfl
    rw [pendingFor_iff]
    constructor
    · rintro ⟨hrw, hrs⟩
      exact (h.single old hold row hrow (isOpen_iff.mpr (.inl hpending)) hrw.symm
        (hpending.trans hrs.symm)).symm
    · rintro rfl
      exact ⟨rfl, hpending⟩
  · rename_i hany
    refine h.insert rfl rfl rfl rfl (fun row hrow hrw hrs => ?_) rfl rfl rfl
    exact hany (List.any_eq_true.mpr ⟨row, hrow, pendingFor_iff.mpr ⟨hrw, hrs⟩⟩)

/-! ## Claiming -/

theorem isClaimable_iff : outbox.isClaimable lease row = true ↔
    (row.status = .pending ∧
      ∀ ip ∈ outbox.rows, ip.workflowId = row.workflowId → ip.status ≠ .inProgress) ∨
    (row.status = .inProgress ∧ row.updatedAt + lease < outbox.now) := by
  simp [isClaimable]

theorem lastEnqueued_congr (h : use'.enqueued = use.enqueued) (w : W) :
    use'.lastEnqueued w = use.lastEnqueued w := by
  rw [lastEnqueued, h, lastEnqueued]

theorem lastResolved_congr (h : use'.resolved = use.resolved) (w : W) :
    use'.lastResolved w = use.lastResolved w := by
  rw [lastResolved, h, lastResolved]

/-- A row is claimed that was pending, or in progress for too long. -/
theorem Sound.claimRow (h : Sound use) (hr : Replaces use.outbox use'.outbox old new)
    (hclaimable : use.outbox.isClaimable lease old = true) (hnew : new.status = .inProgress)
    (hversion : new.publishedVersionId = old.publishedVersionId) (hc : c.record = new)
    (hheld : c.progress = .held) (hclaims : use'.claims = use.claims ++ [c])
    (henqueued : use'.enqueued = use.enqueued) (hresolved : use'.resolved = use.resolved) :
    Sound use' := by
  rw [isClaimable_iff] at hclaimable
  have hopen : old.isOpen = true := isOpen_iff.mpr (hclaimable.imp And.left And.left)
  have hmem := (hr.rows new).mpr (.inl rfl)
  have hopen' : new.isOpen = true := isOpen_iff.mpr (.inr hnew)
  -- Nothing else of the workflow is in progress.
  have halone : ∀ row ∈ use.outbox.rows, row ≠ old → row.workflowId = old.workflowId →
      row.status ≠ .inProgress := by
    intro row hrow hne hrw hrs
    rcases hclaimable with ⟨-, hnone⟩ | ⟨hprogress, -⟩
    · exact hnone row hrow hrw hrs
    · exact hne (h.single old hr.mem row hrow hopen hrw.symm (hprogress.trans hrs.symm)).symm
  have hcurrent := h.current old.workflowId
  refine h.replaces hr hopen (fun _ row hrow hne hrw => hnew ▸ halone row hrow hne hrw)
    ⟨fun row hrow hrw hrs => ?_, fun hnone row hrow hrw hrs => ?_, fun hclosed => ?_⟩
    (fun u _ => ⟨lastEnqueued_congr henqueued u, lastResolved_congr hresolved u⟩)
    (fun row hrow => .inl (hresolved ▸ hrow)) fun d hd => ?_
  · rw [lastEnqueued_congr henqueued]
    rcases (hr.rows row).mp hrow with rfl | ⟨hrow, -⟩
    · rw [hnew] at hrs
      cases hrs
    · exact hcurrent.pending row hrow hrw hrs
  · rw [lastEnqueued_congr henqueued]
    rcases (hr.rows row).mp hrow with rfl | ⟨hrow, hne⟩
    · rw [hversion]
      rcases hclaimable with ⟨hpending, -⟩ | ⟨hprogress, -⟩
      · exact hcurrent.pending old hr.mem rfl hpending
      · refine hcurrent.inProgress (fun r hrm hrw => ?_) old hr.mem rfl hprogress
        by_cases hro : r = old
        · rw [hro, hprogress]
          simp
        · exact hnone r ((hr.rows r).mpr (.inr ⟨hrm, hro⟩)) hrw
    · exact absurd hrs (halone row hrow hne hrw)
  · have := hclosed new hmem hr.workflowId
    rw [hopen'] at this
    cases this
  · rw [hclaims, List.mem_append, List.mem_singleton] at hd
    rcases hd with hd | rfl
    · refine ⟨(h.claimed d hd).replaces hr, fun hcollided => ?_⟩
      have hsuperseded := h.superseded d hd hcollided
      refine hsuperseded.replaces hr (fun _ => by simp [hnew]) (fun hid _ => ?_) fun hpending => ?_
      · exact (isOpen_iff.mp hopen).resolve_left (hsuperseded old hr.mem hid).1
      · refine .inr fun row hrow hrw hrs => ?_
        by_cases hro : row = old
        · rw [hro, hpending] at hrs
          cases hrs
        · exact halone row hrow hro hrw hrs
    · refine ⟨⟨?_, fun row hrow hid => ?_⟩, fun hcollided => ?_⟩
      · rw [hc, hr.nextId, hr.id]
        exact h.numbered.lt old hr.mem
      · rw [hc] at hid ⊢
        rw [(hr.numbered h.numbered).eq_of_id hrow hmem hid]
      · rw [hheld] at hcollided
        cases hcollided

/-! ## Resolving and returning -/

omit [DecidableEq W] in
theorem inProgressAt_iff : inProgressAt id row = true ↔ row.id = id ∧ row.status = .inProgress := by
  simp [inProgressAt]

/-- A row in progress is resolved. -/
theorem Sound.resolve (h : Sound use) (hr : Replaces use.outbox use'.outbox old new)
    (hold : old.status = .inProgress) (hnew : new.isOpen = false)
    (hversion : new.publishedVersionId = old.publishedVersionId)
    (hclaims : ∀ c ∈ use'.claims, ∃ d ∈ use.claims, d.record = c.record ∧
      (c.progress = .collided → d.progress = .collided))
    (henqueued : use'.enqueued = use.enqueued) (hresolved : use'.resolved = use.resolved ++ [new]) :
    Sound use' := by
  have hopen : old.isOpen = true := isOpen_iff.mpr (.inr hold)
  have hcurrent := h.current old.workflowId
  have hlast := lastResolved_append hresolved
  refine h.replaces hr hopen (fun hopen' => by rw [hnew] at hopen'; cases hopen')
    ⟨fun row hrow hrw hrs => ?_, fun hnone row hrow hrw hrs => ?_, fun hclosed => ?_⟩
    (fun u hu => ⟨lastEnqueued_congr henqueued u, ?_⟩) (fun row hrow => ?_) fun c hc => ?_
  · rw [lastEnqueued_congr henqueued]
    rcases (hr.rows row).mp hrow with rfl | ⟨hrow, -⟩
    · rw [isOpen_iff.mpr (.inl hrs)] at hnew
      cases hnew
    · exact hcurrent.pending row hrow hrw hrs
  · rcases (hr.rows row).mp hrow with rfl | ⟨hrow, hne⟩
    · rw [isOpen_iff.mpr (.inr hrs)] at hnew
      cases hnew
    · exact absurd (h.single old hr.mem row hrow hopen hrw.symm (hold.trans hrs.symm)).symm hne
  · rw [hlast, if_pos hr.workflowId, lastEnqueued_congr henqueued, Option.map_some, hversion]
    refine (hcurrent.inProgress (fun r hrm hrw => ?_) old hr.mem rfl hold).symm
    by_cases hro : r = old
    · rw [hro, hold]
      simp
    · intro hpending
      have := hclosed r ((hr.rows r).mpr (.inr ⟨hrm, hro⟩)) hrw
      rw [isOpen_iff.mpr (.inl hpending)] at this
      cases this
  · rw [hlast, if_neg (fun heq => hu (heq.symm.trans hr.workflowId))]
  · rw [hresolved, List.mem_append, List.mem_singleton] at hrow
    exact hrow.imp_right fun heq => ⟨heq, hnew⟩
  · obtain ⟨d, hd, hrecord, hcollided⟩ := hclaims c hc
    have hnot : ∀ status, new.status = status → status ≠ .pending ∧ status ≠ .inProgress := by
      rintro status rfl
      constructor <;> intro hs
      · rw [isOpen_iff.mpr (.inl hs)] at hnew
        cases hnew
      · rw [isOpen_iff.mpr (.inr hs)] at hnew
        cases hnew
    refine ⟨?_, fun hprogress => ?_⟩
    · have hclaimed := (h.claimed d hd).replaces hr
      rwa [Claimed, hrecord] at hclaimed
    · rw [← hrecord]
      refine (h.superseded d hd (hcollided hprogress)).replaces hr (fun _ => (hnot _ rfl).1)
        (fun _ hs => absurd hs (hnot _ rfl).2) fun hs => ?_
      rw [hold] at hs
      cases hs

/-- A row in progress is pending again, and its workflow has no other. -/
theorem Sound.returnRow (h : Sound use) (hr : Replaces use.outbox use'.outbox old new)
    (hold : old.status = .inProgress) (hnew : new.status = .pending)
    (hversion : new.publishedVersionId = old.publishedVersionId)
    (hnone : ∀ row ∈ use.outbox.rows, row.workflowId = old.workflowId → row.status ≠ .pending)
    (hclaims : ∀ c ∈ use'.claims, ∃ d ∈ use.claims, d.record = c.record ∧
      (c.progress = .collided → d.progress = .collided))
    (henqueued : use'.enqueued = use.enqueued) (hresolved : use'.resolved = use.resolved) :
    Sound use' := by
  have hopen : old.isOpen = true := isOpen_iff.mpr (.inr hold)
  have hmem := (hr.rows new).mpr (.inl rfl)
  have hcurrent := h.current old.workflowId
  refine h.replaces hr hopen (fun _ row hrow _ hrw => hnew ▸ hnone row hrow hrw)
    ⟨fun row hrow hrw hrs => ?_, fun hno => ?_, fun hclosed => ?_⟩
    (fun u _ => ⟨lastEnqueued_congr henqueued u, lastResolved_congr hresolved u⟩)
    (fun row hrow => .inl (hresolved ▸ hrow)) fun c hc => ?_
  · rw [lastEnqueued_congr henqueued]
    rcases (hr.rows row).mp hrow with rfl | ⟨hrow, -⟩
    · rw [hversion]
      exact hcurrent.inProgress hnone old hr.mem rfl hold
    · exact absurd hrs (hnone row hrow hrw)
  · exact absurd hnew (hno new hmem hr.workflowId)
  · have := hclosed new hmem hr.workflowId
    rw [isOpen_iff.mpr (.inl hnew)] at this
    cases this
  · obtain ⟨d, hd, hrecord, hcollided⟩ := hclaims c hc
    refine ⟨?_, fun hprogress => ?_⟩
    · have hclaimed := (h.claimed d hd).replaces hr
      rwa [Claimed, hrecord] at hclaimed
    · rw [← hrecord]
      have hsuperseded := h.superseded d hd (hcollided hprogress)
      refine hsuperseded.replaces hr (fun hid => ?_) (fun _ _ => hold) fun hs => ?_
      · obtain ⟨p, hp, hpw, hps⟩ := (hsuperseded old hr.mem hid).2 hold
        exact absurd hps (hnone p hp hpw)
      · rw [hold] at hs
        cases hs

/-- A row in progress is deleted while another row of its workflow is pending. -/
theorem Sound.deleteRow (h : Sound use) (hold : old ∈ use.outbox.rows)
    (hprogress : old.status = .inProgress) (hsuperseded : use.Superseded old.id)
    (hrows : use'.outbox.rows = use.outbox.rows.filter fun row => !inProgressAt old.id row)
    (hnext : use'.outbox.nextId = use.outbox.nextId)
    (hclaims : ∀ c ∈ use'.claims, ∃ d ∈ use.claims, d.record = c.record ∧
      (c.progress = .collided → d.progress = .collided))
    (henqueued : use'.enqueued = use.enqueued) (hresolved : use'.resolved = use.resolved) :
    Sound use' := by
  have hmem : ∀ row, row ∈ use'.outbox.rows ↔ row ∈ use.outbox.rows ∧ row ≠ old := by
    intro row
    rw [hrows, List.mem_filter, Bool.not_eq_true', Bool.eq_false_iff, ne_eq, inProgressAt_iff]
    refine and_congr_right fun hrow => not_congr ?_
    constructor
    · exact fun hid => h.numbered.eq_of_id hrow hold hid.1
    · rintro rfl
      exact ⟨rfl, hprogress⟩
  have hstays : ∀ row ∈ use.outbox.rows, row.status = .pending → row ∈ use'.outbox.rows := by
    intro row hrow hs
    refine (hmem row).mpr ⟨hrow, ?_⟩
    rintro rfl
    rw [hprogress] at hs
    cases hs
  obtain ⟨p, hp, hpw, hps⟩ := (hsuperseded old hold rfl).2 hprogress
  have hp' := hstays p hp hps
  refine ⟨⟨?_, fun row hrow => ?_⟩, fun row hrow other hother => ?_, fun u => ?_,
    fun c hc hcollided row hrow hrid => ?_, fun c hc => ?_, fun row hrow => ?_⟩
  · rw [hrows]
    exact h.numbered.nodup.sublist (List.filter_sublist.map _)
  · rw [hnext]
    exact h.numbered.lt row ((hmem row).mp hrow).1
  · exact h.single row ((hmem row).mp hrow).1 other ((hmem other).mp hother).1
  · have hcurrent := h.current u
    by_cases hu : u = old.workflowId
    · subst hu
      refine ⟨fun row hrow hrw hrs => ?_, fun hno => absurd hps (hno p hp' hpw), fun hclosed => ?_⟩
      · rw [lastEnqueued_congr henqueued]
        exact hcurrent.pending row ((hmem row).mp hrow).1 hrw hrs
      · have := hclosed p hp' hpw
        rw [isOpen_iff.mpr (.inl hps)] at this
        cases this
    · refine hcurrent.congr (fun row hrw => ?_) (lastEnqueued_congr henqueued u)
        (lastResolved_congr hresolved u)
      rw [hmem, and_iff_left]
      rintro rfl
      exact hu hrw.symm
  · obtain ⟨d, hd, hrecord, hwas⟩ := hclaims c hc
    rw [← hrecord] at hrid
    obtain ⟨hnot, hother⟩ := h.superseded d hd (hwas hcollided) row ((hmem row).mp hrow).1 hrid
    refine ⟨hnot, fun hs => ?_⟩
    obtain ⟨q, hq, hqw, hqs⟩ := hother hs
    exact ⟨q, hstays q hq hqs, hqw, hqs⟩
  · obtain ⟨d, hd, hrecord, -⟩ := hclaims c hc
    refine ⟨by rw [hnext, ← hrecord]; exact (h.claimed d hd).1, fun row hrow hrid => ?_⟩
    rw [← hrecord] at hrid ⊢
    exact (h.claimed d hd).2 row ((hmem row).mp hrow).1 hrid
  · rw [hresolved] at hrow
    obtain ⟨hrow, hclosed⟩ := h.resolved row hrow
    refine ⟨(hmem row).mpr ⟨hrow, ?_⟩, hclosed⟩
    rintro rfl
    rw [isOpen_iff.mpr (.inr hprogress)] at hclosed
    cases hclosed

/-! ## Steps -/

/-- The table stays as it is. -/
theorem Sound.congr (h : Sound use) (hrows : use'.outbox.rows = use.outbox.rows)
    (hnext : use'.outbox.nextId = use.outbox.nextId)
    (hclaims : ∀ c ∈ use'.claims, ∃ d ∈ use.claims, d.record = c.record ∧
      (c.progress = .collided → d.progress = .collided ∨ use.Superseded c.record.id))
    (henqueued : use'.enqueued = use.enqueued) (hresolved : use'.resolved = use.resolved) :
    Sound use' := by
  refine ⟨⟨hrows ▸ h.numbered.nodup, ?_⟩, ?_, fun u => ?_, fun c hc hcollided => ?_, fun c hc => ?_,
    ?_⟩
  · rw [hrows, hnext]
    exact h.numbered.lt
  · unfold SingleRows
    rw [hrows]
    exact h.single
  · exact (h.current u).congr (fun row _ => by rw [hrows]) (lastEnqueued_congr henqueued u)
      (lastResolved_congr hresolved u)
  · obtain ⟨d, hd, hrecord, hwas⟩ := hclaims c hc
    unfold Superseded
    rw [hrows]
    rcases hwas hcollided with hwas | hwas
    · exact hrecord ▸ h.superseded d hd hwas
    · exact hwas
  · obtain ⟨d, hd, hrecord, -⟩ := hclaims c hc
    unfold Claimed
    rw [hrows, hnext, ← hrecord]
    exact h.claimed d hd
  · rw [hresolved, hrows]
    exact h.resolved

omit [DecidableEq W] in
theorem mem_setProgress {progress : ClaimProgress}
    (h : c ∈ (use.setProgress claim progress).claims) :
    c ∈ use.claims ∨ ∃ d, use.claims[claim]? = some d ∧ c = { d with progress } := by
  obtain ⟨i, hi⟩ := List.mem_iff_getElem?.mp h
  rw [setProgress, List.getElem?_modify] at hi
  by_cases hclaim : claim = i
  · subst hclaim
    obtain ⟨d, hd, hdc⟩ := Option.map_eq_some_iff.mp hi
    exact .inr ⟨d, hd, by simpa using hdc.symm⟩
  · simp only [hclaim, if_false, Option.map_eq_map, Option.map_id'] at hi
    exact .inl (List.mem_of_getElem? hi)

omit [DecidableEq W] in
/-- The record of a claim does not change, and a claim that is given up has not collided. -/
theorem exists_of_given (h : c ∈ (use.setProgress claim .given).claims) :
    ∃ d ∈ use.claims, d.record = c.record ∧ (c.progress = .collided → d.progress = .collided) := by
  rcases mem_setProgress h with hc | ⟨d, hd, rfl⟩
  · exact ⟨c, hc, rfl, id⟩
  · exact ⟨d, List.mem_of_getElem? hd, rfl, fun hcollided => by cases hcollided⟩

omit [DecidableEq W] in
theorem claimAt_eq_ok {progress : ClaimProgress} :
    use.claimAt claim progress = .ok c ↔ use.claims[claim]? = some c ∧ c.progress = progress := by
  unfold claimAt
  cases hc : use.claims[claim]? with
  | none => simp
  | some d =>
    by_cases hp : d.progress = progress
    · simp only [hp, if_true, Except.ok.injEq, Option.some.injEq]
      constructor
      · rintro rfl
        exact ⟨rfl, hp⟩
      · exact And.left
    · simp only [hp, if_false, reduceCtorEq, Option.some.injEq, false_iff]
      rintro ⟨rfl, hp'⟩
      exact hp hp'

/-- The row in progress with this id, if there is one, is the one that is updated. -/
theorem Sound.inProgress_or (h : Sound use) (id : ℕ) :
    (∀ row ∈ use.outbox.rows, inProgressAt id row = false) ∨
      ∃ old ∈ use.outbox.rows, old.id = id ∧ old.status = .inProgress ∧
        ∀ row ∈ use.outbox.rows, inProgressAt id row = true ↔ row = old := by
  by_cases hany : ∃ old ∈ use.outbox.rows, inProgressAt id old = true
  · obtain ⟨old, hold, hin⟩ := hany
    obtain ⟨rfl, hprogress⟩ := inProgressAt_iff.mp hin
    refine .inr ⟨old, hold, rfl, hprogress, fun row hrow => ?_⟩
    constructor
    · exact fun hrin => h.numbered.eq_of_id hrow hold (inProgressAt_iff.mp hrin).1
    · rintro rfl
      exact hin
  · refine .inl fun row hrow => ?_
    rw [Bool.eq_false_iff]
    exact fun hin => hany ⟨row, hrow, hin⟩

theorem find?_eq_some_of_unique {α : Type} {p : α → Bool} {l : List α} {a : α} (ha : a ∈ l)
    (hp : p a = true) (hunique : ∀ b ∈ l, p b = true → b = a) : l.find? p = some a := by
  cases hfind : l.find? p with
  | none => exact absurd hp (by simpa using List.find?_eq_none.mp hfind a ha)
  | some b => rw [hunique b (List.mem_of_find?_eq_some hfind) (List.find?_some hfind)]

theorem Sound.mark (h : Sound use) {target : OutboxStatus} {errorMessage : Option String}
    (htarget : target ≠ .pending ∧ target ≠ .inProgress) :
    Sound (use.mark claim (use.outbox.mark id target errorMessage)) := by
  rcases h.inProgress_or id with hnone | ⟨old, hold, hid, hprogress, hunique⟩
  · have hsame : (use.outbox.mark id target errorMessage).1 = use.outbox := update_of_none hnone
    have hfind : (use.outbox.mark id target errorMessage).1.rows.find? (fun row =>
        !row.isOpen && use.outbox.rows.any fun old => old.id = row.id && old.isOpen) = none := by
      rw [hsame, List.find?_eq_none]
      intro row hrow
      simp only [Bool.and_eq_true, Bool.not_eq_true', List.any_eq_true, decide_eq_true_eq, not_and]
      rintro hclosed ⟨r, hr, hrid, hopen⟩
      rw [h.numbered.eq_of_id hr hrow hrid, hclosed] at hopen
      cases hopen
    refine h.congr (by rw [OutboxUse.mark, hsame]) (by rw [OutboxUse.mark, hsame]) (fun c hc => ?_)
      rfl (by rw [OutboxUse.mark, hfind]; simp)
    obtain ⟨d, hd, hrecord, hcollided⟩ := exists_of_given hc
    exact ⟨d, hd, hrecord, fun hp => .inl (hcollided hp)⟩
  · have hr := replaces_update hold hunique
      (f := use.outbox.withStatus target errorMessage) rfl rfl
    have hclosed : (use.outbox.withStatus target errorMessage old).isOpen = false := by
      simp [withStatus, OutboxRow.isOpen, htarget]
    have hfind : (use.outbox.mark id target errorMessage).1.rows.find? (fun row =>
        !row.isOpen && use.outbox.rows.any fun old => old.id = row.id && old.isOpen) =
        some (use.outbox.withStatus target errorMessage old) := by
      refine find?_eq_some_of_unique ((hr.rows _).mpr (.inl rfl)) ?_ fun row hrow hrp => ?_
      · rw [hclosed]
        simp only [Bool.not_false, Bool.true_and, List.any_eq_true]
        exact ⟨old, hold, by simp [withStatus, isOpen_iff.mpr (.inr hprogress)]⟩
      · rcases (hr.rows row).mp hrow with heq | ⟨hrow, -⟩
        · exact heq
        · simp only [Bool.and_eq_true, Bool.not_eq_true', List.any_eq_true, decide_eq_true_eq]
            at hrp
          obtain ⟨hrow', r, hrm, hrid, hopen⟩ := hrp
          rw [h.numbered.eq_of_id hrm hrow hrid, hrow'] at hopen
          cases hopen
    have hresolved : (use.mark claim (use.outbox.mark id target errorMessage)).resolved =
        use.resolved ++ [use.outbox.withStatus target errorMessage old] := by
      rw [OutboxUse.mark, hfind]
      rfl
    exact h.resolve hr hprogress hclosed rfl (fun c hc => exists_of_given hc) rfl hresolved

/-- Nothing is claimed, or a claimable row becomes one in progress. -/
theorem Sound.claimNextPendingRecord_cases (h : Sound use) (lease : ℕ) :
    use.outbox.claimNextPendingRecord lease = (use.outbox, none) ∨
      ∃ outbox old new, use.outbox.claimNextPendingRecord lease = (outbox, some new) ∧
        use.outbox.isClaimable lease old = true ∧ Replaces use.outbox outbox old new ∧
        new = { old with status := .inProgress, updatedAt := use.outbox.now } := by
  unfold Outbox.claimNextPendingRecord
  cases hfind : use.outbox.rows.find? (use.outbox.isClaimable lease) with
  | none => exact .inl rfl
  | some record =>
    have hrecord := List.mem_of_find?_eq_some hfind
    refine .inr ⟨_, record, _, rfl, List.find?_some hfind, ?_, rfl⟩
    refine replaces_update hrecord
      (f := fun _ => { record with status := .inProgress, updatedAt := use.outbox.now })
      (fun row hrow => ?_) rfl rfl
    rw [decide_eq_true_eq]
    exact ⟨h.numbered.eq_of_id hrow hrecord, fun heq => heq ▸ rfl⟩

theorem Sound.claimNext (h : Sound use) (consumer : C) :
    Sound { use with
      outbox := (use.outbox.claimNextPendingRecord lease).1
      claims := use.claims ++ ((use.outbox.claimNextPendingRecord lease).2.map fun record =>
        { consumer, record, claimedAt := use.outbox.now }).toList } := by
  rcases h.claimNextPendingRecord_cases lease with hnone | ⟨outbox, old, new, hsome, hclaim, hr, hnew⟩
  · rw [hnone]
    exact h.congr rfl rfl (fun c hc => ⟨c, by simpa using hc, rfl, .inl⟩) rfl rfl
  · rw [hsome]
    exact h.claimRow hr hclaim (by rw [hnew]) (by rw [hnew]) rfl rfl rfl rfl rfl

theorem Sound.returnToPending (h : Sound use) (hc : use.claims[claim]? = some c) :
    Sound (use.returnToPending claim c) := by
  unfold OutboxUse.returnToPending Outbox.returnToPending
  split
  · rename_i outbox houtbox
    split at houtbox
    · cases houtbox
    · rename_i hcollides
      cases houtbox
      rcases h.inProgress_or c.record.id with hnone | ⟨old, hold, hid, hprogress, hunique⟩
      · rw [update_of_none hnone]
        refine h.congr rfl rfl (fun d hd => ?_) rfl rfl
        obtain ⟨e, he, hrecord, hcollided⟩ := exists_of_given hd
        exact ⟨e, he, hrecord, fun hp => .inl (hcollided hp)⟩
      · have hr := replaces_update hold hunique
          (f := use.outbox.withStatus .pending none) rfl rfl
        refine h.returnRow hr hprogress rfl rfl (fun row hrow hrw hrs => hcollides ?_)
          (fun d hd => exists_of_given hd) rfl rfl
        refine List.any_eq_true.mpr ⟨old, hold, ?_⟩
        rw [(hunique old hold).mpr rfl, Bool.true_and, List.any_eq_true]
        exact ⟨row, hrow, pendingFor_iff.mpr ⟨hrw, hrs⟩⟩
  · rename_i houtbox
    split at houtbox
    · rename_i hcollides
      obtain ⟨old, hold, hin⟩ := List.any_eq_true.mp hcollides
      obtain ⟨hprogress, hany⟩ := Bool.and_eq_true_iff.mp hin
      obtain ⟨hid, hstatus⟩ := inProgressAt_iff.mp hprogress
      obtain ⟨p, hp, hpending⟩ := List.any_eq_true.mp hany
      have hsuperseded : use.Superseded c.record.id := by
        intro row hrow hrid
        rw [h.numbered.eq_of_id hrow hold (hrid.trans hid.symm)]
        exact ⟨by simp [hstatus], fun _ => ⟨p, hp, pendingFor_iff.mp hpending⟩⟩
      refine h.congr rfl rfl (fun d hd => ?_) rfl rfl
      rcases mem_setProgress hd with hd | ⟨e, he, rfl⟩
      · exact ⟨d, hd, rfl, .inl⟩
      · obtain rfl := Option.some.inj (hc.symm.trans he)
        exact ⟨c, List.mem_of_getElem? hc, rfl, fun _ => .inr hsuperseded⟩
    · cases houtbox

theorem Sound.deleteInProgress (h : Sound use) (hc : use.claims[claim]? = some c)
    (hcollided : c.progress = .collided) :
    Sound { use.setProgress claim .given with
      outbox := use.outbox.deleteInProgress c.record.id } := by
  rcases h.inProgress_or c.record.id with hnone | ⟨old, hold, hid, hprogress, -⟩
  · have hrows : (use.outbox.deleteInProgress c.record.id).rows = use.outbox.rows :=
      List.filter_eq_self.mpr fun row hrow => by simp [hnone row hrow]
    refine h.congr hrows rfl (fun d hd => ?_) rfl rfl
    obtain ⟨e, he, hrecord, hwas⟩ := exists_of_given hd
    exact ⟨e, he, hrecord, fun hp => .inl (hwas hp)⟩
  · have hsuperseded := h.superseded c (List.mem_of_getElem? hc) hcollided
    rw [← hid] at hsuperseded ⊢
    exact h.deleteRow hold hprogress hsuperseded rfl rfl (fun d hd => exists_of_given hd) rfl rfl

theorem Sound.step (h : Sound use) {event : OutboxEvent C W V} {next : OutboxUse C W V}
    (hs : use.step lease event = .ok next) : Sound next := by
  cases event with
  | enqueue w v =>
    cases hs
    exact h.enqueue w v
  | claimNextPendingRecord consumer =>
    have hs' := Except.ok.inj hs
    subst hs'
    exact h.claimNext consumer
  | markCompleted claim =>
    obtain ⟨c, -, hs⟩ := bind_eq_ok.mp hs
    cases hs
    exact h.mark (by simp)
  | markFailed claim errorMessage =>
    obtain ⟨c, -, hs⟩ := bind_eq_ok.mp hs
    cases hs
    exact h.mark (by simp)
  | markPartialSuccess claim errorMessage =>
    obtain ⟨c, -, hs⟩ := bind_eq_ok.mp hs
    cases hs
    exact h.mark (by simp)
  | returnToPending claim =>
    obtain ⟨c, hc, hs⟩ := bind_eq_ok.mp hs
    cases hs
    exact h.returnToPending (claimAt_eq_ok.mp hc).1
  | deleteInProgress claim =>
    obtain ⟨c, hc, hs⟩ := bind_eq_ok.mp hs
    cases hs
    obtain ⟨hc, hcollided⟩ := claimAt_eq_ok.mp hc
    exact h.deleteInProgress hc hcollided
  | elapse milliseconds =>
    cases hs
    exact h.congr rfl rfl (fun c hc => ⟨c, hc, rfl, .inl⟩) rfl rfl

/-! ## Leases -/

/-- A claim whose lease has not expired still has its row, and no other claim is for the same
workflow. -/
structure Leased (lease : ℕ) (use : OutboxUse C W V) : Prop where
  row : ∀ c ∈ use.claims, use.isLive lease c = true → ∃ row ∈ use.outbox.rows,
    row.id = c.record.id ∧ row.status = .inProgress ∧ row.updatedAt = c.claimedAt
  alone : ∀ (i j : ℕ) (c d : OutboxClaim C W V), use.claims[i]? = some c →
    use.claims[j]? = some d → use.isLive lease c = true → use.isLive lease d = true →
      c.record.workflowId = d.record.workflowId → i = j

omit [DecidableEq W] in
theorem Leased.singleConsumer (h : Leased lease use) : use.SingleConsumer lease := by
  intro c hc d hd hlive hlive' hw
  obtain ⟨i, hi⟩ := List.mem_iff_getElem?.mp hc
  obtain ⟨j, hj⟩ := List.mem_iff_getElem?.mp hd
  obtain rfl := h.alone i j c d hi hj hlive hlive' hw
  rw [Option.some.inj (hi.symm.trans hj)]

omit [DecidableEq W] in
theorem leased_initial : Leased lease ({} : OutboxUse C W V) := by
  refine ⟨?_, ?_⟩
  · rintro c ⟨⟩
  · rintro i j c d ⟨⟩

omit [DecidableEq W] in
/-- No claim is made, and those whose leases have not expired keep their rows. -/
theorem Leased.congr (h : Leased lease use)
    (hlive : ∀ (i : ℕ) (c : OutboxClaim C W V), use'.claims[i]? = some c →
      use'.isLive lease c = true → use.claims[i]? = some c ∧ use.isLive lease c = true ∧
        ∀ row ∈ use.outbox.rows, row.id = c.record.id → row.status = .inProgress →
          row ∈ use'.outbox.rows) : Leased lease use' := by
  refine ⟨fun c hc hl => ?_, fun i j c d hi hj hc hd hw => ?_⟩
  · obtain ⟨i, hi⟩ := List.mem_iff_getElem?.mp hc
    obtain ⟨hi', hl', hstays⟩ := hlive i c hi hl
    obtain ⟨row, hrow, hid, hstatus, hat⟩ := h.row c (List.mem_of_getElem? hi') hl'
    exact ⟨row, hstays row hrow hid hstatus, hid, hstatus, hat⟩
  · obtain ⟨hi', hc', -⟩ := hlive i c hi hc
    obtain ⟨hj', hd', -⟩ := hlive j d hj hd
    exact h.alone i j c d hi' hj' hc' hd' hw

omit [DecidableEq W] in
theorem holdsAlone_iff : use.holdsAlone lease claim = true ↔
    ∀ c, use.claims[claim]? = some c → ∀ row ∈ use.outbox.rows, row.id = c.record.id →
      row.status = .inProgress → ∀ (other : ℕ) (d : OutboxClaim C W V),
        use.claims[other]? = some d → d.record.id = c.record.id → use.isLive lease d = true →
          other = claim := by
  unfold holdsAlone
  cases hc : use.claims[claim]? with
  | none => simp
  | some c =>
    simp only [Option.all_some, Bool.or_eq_true, Bool.not_eq_true', List.any_eq_false,
      inProgressAt_iff, List.all_eq_true, Prod.forall, List.mk_mem_zipIdx_iff_getElem?,
      decide_eq_true_eq, Option.some.injEq, forall_eq']
    constructor
    · rintro (hnone | hothers) row hrow hid hstatus other d hd hdid hlive
      · exact absurd ⟨hid, hstatus⟩ (hnone row hrow)
      · rcases hothers d other hd with (hother | hdid') | hlive'
        · exact hother
        · exact absurd hdid hdid'
        · rw [hlive] at hlive'
          cases hlive'
    · intro h
      by_cases hnone : ∀ row ∈ use.outbox.rows, ¬ (row.id = c.record.id ∧ row.status = .inProgress)
      · exact .inl hnone
      · push Not at hnone
        obtain ⟨row, hrow, hid, hstatus⟩ := hnone
        refine .inr fun d other hd => ?_
        by_cases hdid : d.record.id = c.record.id
        · cases hlive : use.isLive lease d with
          | false => exact .inr rfl
          | true => exact .inl (.inl (h row hrow hid hstatus other d hd hdid hlive))
        · exact .inl (.inr hdid)

omit [DecidableEq W] in
/-- A claim is given up, and its row with it if no other claim has an unexpired lease on it. -/
theorem Leased.give (h : Leased lease use) (hc : use.claims[claim]? = some c)
    (hspares : use.holdsAlone lease claim = true) {progress : ClaimProgress}
    (hprogress : progress ≠ .held) (hclaims : use'.claims = (use.setProgress claim progress).claims)
    (hnow : use'.outbox.now = use.outbox.now)
    (hrows : ∀ row ∈ use.outbox.rows, row.status = .inProgress → row.id ≠ c.record.id →
      row ∈ use'.outbox.rows) : Leased lease use' := by
  rw [holdsAlone_iff] at hspares
  refine h.congr fun i d hd hlive => ?_
  have hheld : d.progress = .held := by
    simp only [isLive, Bool.and_eq_true, decide_eq_true_eq] at hlive
    exact hlive.1
  rw [hclaims, setProgress, List.getElem?_modify] at hd
  by_cases hi : claim = i
  · obtain ⟨e, -, he⟩ := Option.map_eq_some_iff.mp hd
    rw [if_pos hi] at he
    rw [← he] at hheld
    exact absurd hheld hprogress
  · simp only [hi, if_false, Option.map_eq_map, Option.map_id'] at hd
    have hlive' : use.isLive lease d = true := by
      rw [isLive, hnow] at hlive
      exact hlive
    refine ⟨hd, hlive', fun row hrow hid hstatus => hrows row hrow hstatus fun hrid => hi ?_⟩
    exact (hspares c hc row hrow hrid hstatus i d hd (hid.symm.trans hrid) hlive').symm

theorem mem_enqueue {v : V} (hrow : row ∈ outbox.rows) (hstatus : row.status = .inProgress) :
    row ∈ (outbox.enqueue w v).rows := by
  unfold Outbox.enqueue
  split
  · exact mem_update_of_not hrow (by simp [pendingFor, hstatus])
  · exact List.mem_append_left _ hrow

omit [DecidableEq W] in
theorem mem_updateInProgress {f : OutboxRow W V → OutboxRow W V} (hrow : row ∈ outbox.rows)
    (hid : row.id ≠ id) : row ∈ (outbox.update (inProgressAt id) f).rows :=
  mem_update_of_not hrow (by simp [inProgressAt, hid])

/-- A workflow whose row can be claimed has no unexpired lease. -/
theorem Leased.not_live (h : Leased lease use) (hsound : Sound use) (hold : old ∈ use.outbox.rows)
    (hclaimable : use.outbox.isClaimable lease old = true) (hc : c ∈ use.claims)
    (hw : c.record.workflowId = old.workflowId) : use.isLive lease c = false := by
  rw [Bool.eq_false_iff]
  intro hlive
  obtain ⟨row, hrow, hid, hstatus, hat⟩ := h.row c hc hlive
  have hrw : row.workflowId = old.workflowId := ((hsound.claimed c hc).2 row hrow hid).trans hw
  rcases isClaimable_iff.mp hclaimable with ⟨-, hnone⟩ | ⟨hprogress, hexpired⟩
  · exact hnone row hrow hrw hstatus
  · obtain rfl := hsound.single row hrow old hold (isOpen_iff.mpr (.inr hstatus)) hrw
      (hstatus.trans hprogress.symm)
    simp only [isLive, Bool.and_eq_true, decide_eq_true_eq] at hlive
    omega

/-- A row nobody has an unexpired lease on is claimed. -/
theorem Leased.push (h : Leased lease use) (hsound : Sound use)
    (hr : Replaces use.outbox use'.outbox old new) (hnew : new.status = .inProgress)
    (hat : new.updatedAt = c.claimedAt) (hrecord : c.record = new)
    (hclaims : use'.claims = use.claims ++ [c])
    (hdead : ∀ d ∈ use.claims, use.isLive lease d = true → d.record.workflowId ≠ old.workflowId) :
    Leased lease use' := by
  have hlive : ∀ d, use'.isLive lease d = use.isLive lease d := by
    intro d
    rw [isLive, isLive, hr.now]
  have hw : c.record.workflowId = old.workflowId := by rw [hrecord, hr.workflowId]
  have hlast : ∀ (i : ℕ) (d : OutboxClaim C W V), use'.claims[i]? = some d →
      use.claims[i]? = some d ∨ i = use.claims.length ∧ d = c := by
    intro i d hd
    rw [hclaims, List.getElem?_append] at hd
    split at hd
    · exact .inl hd
    · rename_i hi
      obtain ⟨hi', hd⟩ := List.getElem?_eq_some_iff.mp hd
      rw [List.length_singleton] at hi'
      exact .inr ⟨by omega, by simpa using hd.symm⟩
  refine ⟨fun d hd hl => ?_, fun i j d e hi hj hd he hde => ?_⟩
  · rw [hlive] at hl
    rw [hclaims, List.mem_append, List.mem_singleton] at hd
    rcases hd with hd | rfl
    · obtain ⟨row, hrow, hid, hstatus, hrat⟩ := h.row d hd hl
      refine ⟨row, (hr.rows row).mpr (.inr ⟨hrow, ?_⟩), hid, hstatus, hrat⟩
      rintro rfl
      exact hdead d hd hl ((hsound.claimed d hd).2 row hrow hid).symm
    · exact ⟨new, (hr.rows new).mpr (.inl rfl), by rw [hrecord], hnew, hat⟩
  · rw [hlive] at hd he
    rcases hlast i d hi with hi | ⟨rfl, rfl⟩ <;> rcases hlast j e hj with hj | ⟨rfl, rfl⟩
    · exact h.alone i j d e hi hj hd he hde
    · exact absurd (hde.trans hw) (hdead d (List.mem_of_getElem? hi) hd)
    · exact absurd (hde.symm.trans hw) (hdead e (List.mem_of_getElem? hj) he)
    · rfl

theorem Leased.claimNext (h : Leased lease use) (hsound : Sound use) (consumer : C) :
    Leased lease { use with
      outbox := (use.outbox.claimNextPendingRecord lease).1
      claims := use.claims ++ ((use.outbox.claimNextPendingRecord lease).2.map fun record =>
        { consumer, record, claimedAt := use.outbox.now }).toList } := by
  rcases hsound.claimNextPendingRecord_cases lease with
    hnone | ⟨outbox, old, new, hsome, hclaimable, hr, hnew⟩
  · rw [hnone]
    exact h.congr fun i c hc hlive => ⟨by simpa using hc, hlive, fun row hrow _ _ => hrow⟩
  · rw [hsome]
    refine h.push hsound hr (by rw [hnew]) (by rw [hnew]) rfl rfl fun d hd hl hw => ?_
    rw [h.not_live hsound hr.mem hclaimable hd hw] at hl
    cases hl

/-- The step keeps the leases when it takes no row away from one who has an unexpired lease. -/
theorem Leased.step (h : Leased lease use) (hsound : Sound use) {event : OutboxEvent C W V}
    {next : OutboxUse C W V} (hspares : use.sparesLeases lease event = true)
    (hs : use.step lease event = .ok next) : Leased lease next := by
  cases event with
  | enqueue w v =>
    cases hs
    refine h.congr fun i c hc hlive => ⟨hc, ?_, fun row hrow _ hstatus => mem_enqueue hrow hstatus⟩
    have hnow : (use.outbox.enqueue w v).now = use.outbox.now := by
      unfold Outbox.enqueue
      split <;> rfl
    rw [isLive, hnow] at hlive
    exact hlive
  | claimNextPendingRecord consumer =>
    have hs' := Except.ok.inj hs
    subst hs'
    exact h.claimNext hsound consumer
  | markCompleted claim =>
    obtain ⟨c, hc, hs⟩ := bind_eq_ok.mp hs
    cases hs
    exact h.give (claimAt_eq_ok.mp hc).1 hspares (by simp) rfl rfl
      fun row hrow _ hid => mem_updateInProgress hrow hid
  | markFailed claim errorMessage =>
    obtain ⟨c, hc, hs⟩ := bind_eq_ok.mp hs
    cases hs
    exact h.give (claimAt_eq_ok.mp hc).1 hspares (by simp) rfl rfl
      fun row hrow _ hid => mem_updateInProgress hrow hid
  | markPartialSuccess claim errorMessage =>
    obtain ⟨c, hc, hs⟩ := bind_eq_ok.mp hs
    cases hs
    exact h.give (claimAt_eq_ok.mp hc).1 hspares (by simp) rfl rfl
      fun row hrow _ hid => mem_updateInProgress hrow hid
  | returnToPending claim =>
    obtain ⟨c, hc, hs⟩ := bind_eq_ok.mp hs
    cases hs
    unfold OutboxUse.returnToPending Outbox.returnToPending
    split
    · rename_i outbox houtbox
      split at houtbox
      · cases houtbox
      · cases houtbox
        exact h.give (claimAt_eq_ok.mp hc).1 hspares (by simp) rfl rfl
          fun row hrow _ hid => mem_updateInProgress hrow hid
    · exact h.give (claimAt_eq_ok.mp hc).1 hspares (by simp) rfl rfl fun row hrow _ _ => hrow
  | deleteInProgress claim =>
    obtain ⟨c, hc, hs⟩ := bind_eq_ok.mp hs
    cases hs
    exact h.give (claimAt_eq_ok.mp hc).1 hspares (by simp) rfl rfl fun row hrow _ hid =>
      List.mem_filter.mpr ⟨hrow, by simp [inProgressAt, hid]⟩
  | elapse milliseconds =>
    cases hs
    refine h.congr fun i c hc hlive => ⟨hc, ?_, fun row hrow _ _ => hrow⟩
    simp only [isLive, Bool.and_eq_true, decide_eq_true_eq] at hlive ⊢
    exact ⟨hlive.1, by omega⟩

variable {steps : List (OutboxUse C W V × OutboxEvent C W V)}

/-- Whoever holds the leases, the rows of a workflow are single and its last version is
published. -/
theorem publicationOutbox_run_rows (h : Run (step lease) {} steps use) :
    ∀ state ∈ steps.map Prod.fst ++ [use], state.SingleRows ∧ state.PublishesLast := by
  have hall : ∀ state ∈ steps.map Prod.fst ++ [use], Sound state :=
    h.forall_states sound_initial fun _ _ _ hstate hs => hstate.step hs
  exact fun state hstate => ⟨(hall state hstate).single, (hall state hstate).publishesLast⟩

/-- The second consumer takes the row back after the first one has returned it. -/
theorem publicationOutbox_run_rows_returned : ∃ steps, ∃ use : OutboxUse String String String,
    Run (step 10) {} steps use ∧ ¬(∀ x ∈ steps, x.1.sparesLeases 10 x.2 = true) ∧
    ∀ state ∈ steps.map Prod.fst ++ [use], state.SingleRows ∧ state.PublishesLast := by
  have hevents : (runSteps (step 10) ({} : OutboxUse String String String)
      [.enqueue "1" "a", .claimNextPendingRecord "A", .elapse 11, .claimNextPendingRecord "B",
        .returnToPending 0]).map (fun r => r.1.all fun x => x.1.sparesLeases 10 x.2) =
      .ok false := by
    decide
  obtain ⟨steps, use, hrun, -, hspares⟩ := exists_run hevents
  refine ⟨steps, use, hrun, fun h => ?_, publicationOutbox_run_rows hrun⟩
  rw [List.all_eq_true.mpr h] at hspares
  cases hspares

/-- When no step takes a row away from another claim with an unexpired lease, one consumer at
most has a lease on the rows of a workflow, in all states of the run. -/
theorem publicationOutbox_run (h : Run (step lease) {} steps use)
    (hspares : ∀ x ∈ steps, x.1.sparesLeases lease x.2 = true) :
    ∀ state ∈ steps.map Prod.fst ++ [use],
      state.SingleRows ∧ state.SingleConsumer lease ∧ state.PublishesLast := by
  have hall : ∀ state ∈ steps.map Prod.fst ++ [use], Sound state ∧ Leased lease state :=
    h.forall_states_of ⟨sound_initial, leased_initial⟩
      (fun s e s' hstate (hspare : s.sparesLeases lease e = true) hs =>
        ⟨hstate.1.step hs, hstate.2.step hstate.1 hspare hs⟩) hspares
  intro state hstate
  obtain ⟨hsound, hleased⟩ := hall state hstate
  exact ⟨hsound.single, hleased.singleConsumer, hsound.publishesLast⟩

/-- A consumer whose lease has expired is too late, and another one resolves the row. -/
theorem publicationOutbox_run_expired : ∃ steps, ∃ use : OutboxUse String String String,
    Run (step 10) {} steps use ∧ use.outbox.rows.map OutboxRow.status = [.completed, .inProgress] ∧
    ∀ state ∈ steps.map Prod.fst ++ [use],
      state.SingleRows ∧ state.SingleConsumer 10 ∧ state.PublishesLast := by
  have hevents : (runSteps (step 10) ({} : OutboxUse String String String)
      [.enqueue "1" "a", .claimNextPendingRecord "A", .elapse 11, .claimNextPendingRecord "B",
        .enqueue "1" "b", .markCompleted 1, .markCompleted 0, .claimNextPendingRecord "A"]).map
      (fun r => (r.2.outbox.rows.map OutboxRow.status,
        r.1.all fun x => x.1.sparesLeases 10 x.2)) =
      .ok ([.completed, .inProgress], true) := by
    decide
  obtain ⟨steps, use, hrun, -, hresult⟩ := exists_run hevents
  obtain ⟨hstatus, hspares⟩ := Prod.mk.inj hresult
  refine ⟨steps, use, hrun, hstatus, publicationOutbox_run hrun fun x hx => ?_⟩
  exact List.all_eq_true.mp hspares x hx

/-- The first consumer is late and returns the row the second one has claimed again, and a third
one claims it. -/
theorem publicationOutbox_run_two_consumers : ∃ steps, ∃ use : OutboxUse String String String,
    Run (step 10) {} steps use ∧ ¬ ∀ state ∈ steps.map Prod.fst ++ [use],
      state.SingleRows ∧ state.SingleConsumer 10 ∧ state.PublishesLast := by
  have hevents : (runSteps (step 10) ({} : OutboxUse String String String)
      [.enqueue "1" "a", .claimNextPendingRecord "A", .elapse 11, .claimNextPendingRecord "B",
        .returnToPending 0, .claimNextPendingRecord "C"]).map
      (fun r => (r.2.claims.filter fun c => r.2.isLive 10 c).map fun c =>
        (c.consumer, c.record.workflowId)) = .ok [("B", "1"), ("C", "1")] := by
    decide
  obtain ⟨steps, use, hrun, -, hlive⟩ := exists_run hevents
  refine ⟨steps, use, hrun, fun hall => ?_⟩
  obtain ⟨-, hsingle, -⟩ := hall use (by simp)
  have hholds : ∀ x ∈ [("B", "1"), ("C", "1")], ∃ c ∈ use.claims, use.isLive 10 c = true ∧
      (c.consumer, c.record.workflowId) = x := by
    intro x hx
    rw [← hlive] at hx
    obtain ⟨c, hc, hcx⟩ := List.mem_map.mp hx
    obtain ⟨hmem, hl⟩ := List.mem_filter.mp hc
    exact ⟨c, hmem, hl, hcx⟩
  obtain ⟨b, hb, hbl, hbx⟩ := hholds ("B", "1") (by simp)
  obtain ⟨c, hc, hcl, hcx⟩ := hholds ("C", "1") (by simp)
  obtain ⟨hbc, hbw⟩ := Prod.mk.inj hbx
  obtain ⟨hcc, hcw⟩ := Prod.mk.inj hcx
  have hsame := hsingle b hb c hc hbl hcl (hbw.trans hcw.symm)
  rw [hbc, hcc] at hsame
  exact absurd hsame (by decide)

end OutboxUse

end N8n
