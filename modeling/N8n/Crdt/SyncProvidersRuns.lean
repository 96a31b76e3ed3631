import N8n.Crdt.SyncProviders

/-!
# Runs of two sync providers

What a started provider has is with its peer or under way to it (`Sound`), as long as no step
drops an update that the receiver does not have. `syncProviders_run` : in a run of such steps the
documents are the same whenever all is settled.
-/

open Lib

namespace N8n

@[simp] theorem SyncSide.peer_peer (side : SyncSide) : side.peer.peer = side := by
  cases side <;> rfl

theorem SyncSide.peer_ne (side : SyncSide) : side.peer ≠ side := by
  cases side <;> simp [peer]

/-- The sides are the one and its peer. -/
theorem SyncSide.forall_iff {p : SyncSide → Prop} (side : SyncSide) :
    (∀ s, p s) ↔ p side ∧ p side.peer := by
  refine ⟨fun h => ⟨h _, h _⟩, fun h s => ?_⟩
  cases s <;> cases side
  · exact h.1
  · exact h.2
  · exact h.2
  · exact h.1

namespace SyncPair

variable {D U X : Type} [DecidableEq X] {docs : CRDTDoc D U X} {pair pair' : SyncPair D U}
  {side : SyncSide} {data : U}

/-! ## Messages under way -/

theorem mem_arriving {messages : List U} {x : X} :
    x ∈ arriving docs messages ↔ ∃ data ∈ messages, x ∈ docs.contents data := by
  induction messages with
  | nil => simp [arriving]
  | cons data messages ih =>
    rw [arriving, List.foldr_cons, Finset.mem_union, List.exists_mem_cons_iff]
    exact or_congr_right ih

theorem arriving_append (messages messages' : List U) :
    arriving docs (messages ++ messages') = arriving docs messages ∪ arriving docs messages' := by
  ext x
  simp only [Finset.mem_union, mem_arriving, List.mem_append, or_and_right, exists_or]

theorem arriving_singleton : arriving docs [data] = docs.contents data := by
  ext x
  simp [mem_arriving]

/-! ## Sending -/

omit [DecidableEq X] in
theorem sendUpdate_eq : pair.sendUpdate side data =
    if pair.isLinked side then { pair with
      inbox := Function.update pair.inbox side.peer (pair.inbox side.peer ++ [data]) }
    else pair := by
  unfold sendUpdate send isLinked
  cases (pair.provider side).connected <;> cases (pair.provider side.peer).connected <;> rfl

/-- Every handler at the document sends the update, if the ends are connected. -/
theorem iterate_sendUpdate (pair : SyncPair D U) (side : SyncSide) (data : U) (n : ℕ) :
    ((fun pair => pair.sendUpdate side data)^[n] pair).provider = pair.provider ∧
    ((fun pair => pair.sendUpdate side data)^[n] pair).inbox side = pair.inbox side ∧
    ((fun pair => pair.sendUpdate side data)^[n] pair).inbox side.peer =
      pair.inbox side.peer ++ if pair.isLinked side then List.replicate n data else [] := by
  induction n with
  | zero => simp
  | succ n ih =>
    rw [Function.iterate_succ_apply']
    generalize (fun pair => pair.sendUpdate side data)^[n] pair = sent at ih ⊢
    obtain ⟨hprovider, hinbox, hpeer⟩ := ih
    have hlinked : sent.isLinked side = pair.isLinked side := by rw [isLinked, isLinked, hprovider]
    rw [sendUpdate_eq, hlinked]
    split
    · rename_i hyes
      rw [if_pos hyes] at hpeer
      refine ⟨hprovider, ?_, ?_⟩
      · exact (Function.update_of_ne side.peer_ne.symm _ _).trans hinbox
      · dsimp only
        rw [Function.update_self, hpeer, List.replicate_succ', List.append_assoc]
    · rename_i hno
      rw [if_neg hno] at hpeer
      exact ⟨hprovider, hinbox, hpeer⟩

/-- What applying an update at the side does. -/
structure Applies (docs : CRDTDoc D U X) (side : SyncSide) (data : U) (pair pair' : SyncPair D U) :
    Prop where
  provider : ∃ doc, pair'.provider side = { pair.provider side with doc }
  peer : pair'.provider side.peer = pair.provider side.peer
  updates : pair'.updates docs side = pair.updates docs side ∪ docs.contents data
  inbox : pair'.inbox side = pair.inbox side
  kept : arriving docs (pair.inbox side.peer) ⊆ arriving docs (pair'.inbox side.peer)
  sent : arriving docs (pair'.inbox side.peer) ⊆
    arriving docs (pair.inbox side.peer) ∪ pair'.updates docs side
  told : pair.isLinked side = true → (pair.provider side).docHandlers ≠ 0 →
    docs.contents data ⊆ pair.updates docs side ∪ arriving docs (pair'.inbox side.peer)

theorem applies (docs : CRDTDoc D U X) (pair : SyncPair D U) (side : SyncSide) (data : U) :
    Applies docs side data pair (pair.applyUpdate docs side data) := by
  unfold applyUpdate
  dsimp only
  generalize hchanged : pair.setProvider side { pair.provider side with
    doc := docs.applyUpdate (pair.provider side).doc data } = changed
  have hown : changed.provider side = { pair.provider side with
      doc := docs.applyUpdate (pair.provider side).doc data } := by
    rw [← hchanged]
    exact Function.update_self ..
  have hpeer : changed.provider side.peer = pair.provider side.peer := by
    rw [← hchanged]
    exact Function.update_of_ne side.peer_ne _ _
  have hinbox : changed.inbox = pair.inbox := by rw [← hchanged]; rfl
  have hupdates : changed.updates docs side = pair.updates docs side ∪ docs.contents data := by
    rw [SyncPair.updates, hown]
    exact docs.updates_applyUpdate _ _
  have hlinked : changed.isLinked side = pair.isLinked side := by
    rw [isLinked, isLinked, hown, hpeer]
  cases htold : docs.onUpdate (pair.provider side).doc data with
  | none =>
    dsimp only
    have hcontents := docs.onUpdate_none _ _ htold
    refine ⟨⟨_, hown⟩, hpeer, hupdates, by rw [hinbox], by rw [hinbox], ?_, fun _ _ => ?_⟩
    · rw [hinbox]
      exact Finset.subset_union_left
    · exact hcontents.trans Finset.subset_union_left
  | some observed =>
    dsimp only
    obtain ⟨hobserved, hcontents⟩ := docs.onUpdate_some _ _ _ htold
    obtain ⟨hprovider, hsame, hsent⟩ := iterate_sendUpdate changed side observed
      (pair.provider side).docHandlers
    generalize (fun pair => pair.sendUpdate side observed)^[(pair.provider side).docHandlers]
      changed = sent at hprovider hsame hsent
    have hupdates' : sent.updates docs side = pair.updates docs side ∪ docs.contents data := by
      rw [SyncPair.updates, hprovider]
      exact hupdates
    rw [hinbox, hlinked] at hsent
    refine ⟨⟨_, by rw [hprovider, hown]⟩, by rw [hprovider, hpeer], hupdates', by rw [hsame, hinbox],
      ?_, ?_, fun hyes hhandlers => ?_⟩
    · rw [hsent, arriving_append]
      exact Finset.subset_union_left
    · rw [hsent, arriving_append, hupdates']
      refine Finset.union_subset_union_right fun x hx => ?_
      obtain ⟨message, hmessage, hx⟩ := mem_arriving.mp hx
      split at hmessage
      · rw [List.eq_of_mem_replicate hmessage] at hx
        exact hobserved hx
      · cases hmessage
    · rw [hsent, if_pos hyes, arriving_append]
      intro x hx
      rcases Finset.mem_union.mp (hcontents hx) with hx | hx
      · exact Finset.mem_union_left _ hx
      · refine Finset.mem_union_right _ (Finset.mem_union_right _ (mem_arriving.mpr ?_))
        exact ⟨observed, List.mem_replicate.mpr ⟨hhandlers, rfl⟩, hx⟩

/-- The side is started and has sent its state, if the peer is connected. -/
theorem startConnected_views (docs : CRDTDoc D U X) (pair : SyncPair D U) (side : SyncSide) :
    ((pair.startConnected docs side).provider side).doc = (pair.provider side).doc ∧
    ((pair.startConnected docs side).provider side).docHandlers =
      (pair.provider side).docHandlers + 1 ∧
    (pair.startConnected docs side).provider side.peer = pair.provider side.peer ∧
    (pair.startConnected docs side).inbox side = pair.inbox side ∧
    (pair.startConnected docs side).inbox side.peer = pair.inbox side.peer ++
      if (pair.provider side.peer).connected then [docs.encodeState (pair.provider side).doc]
      else [] := by
  by_cases hconnected : (pair.provider side.peer).connected = true
  · simp [startConnected, send, setProvider, hconnected, side.peer_ne, side.peer_ne.symm]
  · simp [startConnected, send, setProvider, hconnected, side.peer_ne]

omit [DecidableEq X] in
theorem stop_views (h : (pair.provider side).syncing = true) :
    (∀ s, (pair.stop side).inbox s = []) ∧
    ((pair.stop side).provider side).doc = (pair.provider side).doc ∧
    ((pair.stop side).provider side).syncing = false ∧
    (pair.stop side).provider side.peer = pair.provider side.peer := by
  have hpeer : (pair.lose side).provider side.peer = pair.provider side.peer :=
    Function.update_of_ne side.peer_ne _ _
  unfold SyncPair.stop
  dsimp only
  rw [if_neg (by simp [h])]
  refine ⟨fun _ => rfl, ?_, ?_, ?_⟩
  · simp only [setProvider, Function.update_self]
    split <;> rfl
  · simp only [setProvider, Function.update_self]
  · exact (Function.update_of_ne side.peer_ne _ _).trans hpeer

/-! ## What is with the peer -/

/-- What a started provider has is with its peer, or under way to it, or in the hands of its
handlers (`held`). -/
structure Sound (docs : CRDTDoc D U X) (held : SyncSide → Finset X) (pair : SyncPair D U) : Prop where
  sent : ∀ side, (pair.provider side).syncing = true →
    pair.updates docs side ⊆
      pair.updates docs side.peer ∪ arriving docs (pair.inbox side.peer) ∪ held side.peer
  known : ∀ side, arriving docs (pair.inbox side.peer) ⊆ pair.updates docs side
  handlers : ∀ side, (pair.provider side).syncing = true → (pair.provider side).docHandlers ≠ 0

namespace Sound

variable {held : SyncSide → Finset X}

theorem initial {pair : SyncPair D U} (hsyncing : ∀ side, (pair.provider side).syncing = false)
    (hinbox : ∀ side, pair.inbox side = []) : Sound docs (fun _ => ∅) pair := by
  refine ⟨fun side h => ?_, fun side => ?_, fun side h => ?_⟩
  · rw [hsyncing] at h
    cases h
  · rw [hinbox]
    exact Finset.empty_subset _
  · rw [hsyncing] at h
    cases h

theorem converged (h : Sound docs (fun _ => ∅) pair) : pair.Converged docs := by
  intro hsettled
  have hsides : ∀ side, (pair.provider side).syncing = true ∧ pair.inbox side = [] := by
    intro side
    have hside := List.all_eq_true.mp hsettled side (by cases side <;> simp)
    simp only [Bool.and_eq_true, List.isEmpty_iff] at hside
    exact ⟨hside.1.1, hside.2⟩
  have hsubset : ∀ side, pair.updates docs side ⊆ pair.updates docs side.peer := by
    intro side
    have hsent := h.sent side (hsides side).1
    rw [(hsides side.peer).2] at hsent
    simpa only [arriving, List.foldr_nil, Finset.union_empty] using hsent
  exact (hsubset .one).antisymm (hsubset .two)

/-- An update is applied that the peer gets or knows. -/
theorem applies {pair' : SyncPair D U} (h : Sound docs held pair)
    (happlies : Applies docs side data pair pair')
    (hknown : (pair.provider side).syncing = true → pair.isLinked side = true ∨
      docs.contents data ⊆ pair.updates docs side ∪ pair.updates docs side.peer) :
    Sound docs held pair' := by
  obtain ⟨doc, hprovider⟩ := happlies.provider
  have hpeer : pair'.updates docs side.peer = pair.updates docs side.peer := by
    rw [SyncPair.updates, SyncPair.updates, happlies.peer]
  refine ⟨(SyncSide.forall_iff side).mpr ⟨fun hsyncing => ?_, fun hsyncing => ?_⟩,
    (SyncSide.forall_iff side).mpr ⟨?_, ?_⟩,
    (SyncSide.forall_iff side).mpr ⟨fun hsyncing => ?_, fun hsyncing => ?_⟩⟩
  · rw [hprovider] at hsyncing
    have hold : pair.updates docs side ⊆ pair'.updates docs side.peer ∪
        arriving docs (pair'.inbox side.peer) ∪ held side.peer := by
      rw [hpeer]
      refine (h.sent side hsyncing).trans (Finset.union_subset_union_left ?_)
      exact Finset.union_subset_union_right happlies.kept
    rw [happlies.updates]
    refine Finset.union_subset hold ?_
    rcases hknown hsyncing with hlinked | hcontents
    · refine (happlies.told hlinked (h.handlers side hsyncing)).trans (Finset.union_subset hold ?_)
      exact Finset.subset_union_right.trans Finset.subset_union_left
    · refine hcontents.trans (Finset.union_subset hold ?_)
      rw [← hpeer]
      exact Finset.subset_union_left.trans Finset.subset_union_left
  · rw [happlies.peer] at hsyncing
    rw [hpeer, SyncSide.peer_peer, happlies.inbox, happlies.updates]
    have hsent := h.sent side.peer hsyncing
    rw [SyncSide.peer_peer] at hsent
    refine hsent.trans (Finset.union_subset_union_left (Finset.union_subset_union_left ?_))
    exact Finset.subset_union_left
  · refine happlies.sent.trans (Finset.union_subset ?_ subset_rfl)
    rw [happlies.updates]
    exact (h.known side).trans Finset.subset_union_left
  · rw [SyncSide.peer_peer, happlies.inbox, hpeer]
    have hknown := h.known side.peer
    rwa [SyncSide.peer_peer] at hknown
  · rw [hprovider] at hsyncing ⊢
    exact h.handlers side hsyncing
  · rw [happlies.peer] at hsyncing ⊢
    exact h.handlers side.peer hsyncing

/-- What the handlers had is known to the side, or on the way to it again. -/
theorem release (h : Sound docs held pair) (hheld : ∀ side, (pair.provider side.peer).syncing = true →
    held side ⊆ pair.updates docs side ∪ arriving docs (pair.inbox side)) :
    Sound docs (fun _ => ∅) pair := by
  refine ⟨fun side hsyncing => ?_, h.known, h.handlers⟩
  rw [Finset.union_empty]
  refine (h.sent side hsyncing).trans (Finset.union_subset subset_rfl (hheld side.peer ?_))
  rwa [SyncSide.peer_peer]

/-! ## Steps -/

/-- Every handler at the transport applies the message. -/
theorem iterate_applyUpdate (h : Sound docs held pair)
    (hknown : docs.contents data ⊆ pair.updates docs side.peer) (n : ℕ) :
    Sound docs held ((fun pair => pair.applyUpdate docs side data)^[n] pair) ∧
    ((fun pair => pair.applyUpdate docs side data)^[n] pair).provider side.peer =
      pair.provider side.peer ∧
    (n ≠ 0 → docs.contents data ⊆
      ((fun pair => pair.applyUpdate docs side data)^[n] pair).updates docs side) ∧
    ((fun pair => pair.applyUpdate docs side data)^[n] pair).inbox side = pair.inbox side := by
  induction n with
  | zero => exact ⟨h, rfl, fun hne => absurd rfl hne, rfl⟩
  | succ n ih =>
    rw [Function.iterate_succ_apply']
    generalize (fun pair => pair.applyUpdate docs side data)^[n] pair = before at ih ⊢
    obtain ⟨hsound, hpeer, -, hinbox⟩ := ih
    have happlies := SyncPair.applies docs before side data
    have hpeer' : before.updates docs side.peer = pair.updates docs side.peer := by
      rw [SyncPair.updates, hpeer]
      rfl
    refine ⟨hsound.applies happlies fun _ => .inr ?_, happlies.peer.trans hpeer, fun _ => ?_,
      happlies.inbox.trans hinbox⟩
    · rw [hpeer']
      exact hknown.trans Finset.subset_union_right
    · rw [happlies.updates]
      exact Finset.subset_union_right

/-- A message of the peer is handled by every handler at the transport. -/
theorem delivers (h : Sound docs (fun _ => ∅) pair) {rest : List U}
    (hinbox : pair.inbox side = data :: rest)
    (hevent : (pair.provider side).transportHandlers ≠ 0 ∨ (pair.provider side.peer).syncing = false ∨
      docs.contents data ⊆ pair.updates docs side ∪ arriving docs rest) :
    Sound docs (fun _ => ∅) ((fun pair => pair.applyUpdate docs side data)^[
      (pair.provider side).transportHandlers]
        { pair with inbox := Function.update pair.inbox side rest }) := by
  have harriving : arriving docs (pair.inbox side) = docs.contents data ∪ arriving docs rest := by
    rw [hinbox]
    rfl
  have hknown := h.known side.peer
  rw [SyncSide.peer_peer, harriving] at hknown
  have hpeer : Function.update pair.inbox side rest side.peer = pair.inbox side.peer :=
    Function.update_of_ne side.peer_ne _ _
  -- the message is with the handlers
  have htaken : Sound docs (Function.update (fun _ => ∅) side (docs.contents data))
      { pair with inbox := Function.update pair.inbox side rest } := by
    refine ⟨(SyncSide.forall_iff side).mpr ⟨fun hsyncing => ?_, fun hsyncing => ?_⟩,
      (SyncSide.forall_iff side).mpr ⟨?_, ?_⟩, h.handlers⟩
    · dsimp only
      rw [hpeer, Function.update_of_ne side.peer_ne]
      exact h.sent side hsyncing
    · dsimp only
      rw [SyncSide.peer_peer, Function.update_self, Function.update_self]
      have hsent := h.sent side.peer hsyncing
      rw [SyncSide.peer_peer, harriving, Finset.union_empty] at hsent
      intro x hx
      have hx := hsent hx
      simp only [Finset.mem_union] at hx ⊢
      tauto
    · dsimp only
      rw [hpeer]
      exact h.known side
    · dsimp only
      rw [SyncSide.peer_peer, Function.update_self]
      exact Finset.subset_union_right.trans hknown
  obtain ⟨hsound, hsame, hgot, hrest⟩ := htaken.iterate_applyUpdate
    (Finset.subset_union_left.trans hknown) (pair.provider side).transportHandlers
  refine hsound.release ((SyncSide.forall_iff side).mpr ⟨fun hsyncing => ?_, fun _ => ?_⟩)
  · rw [Function.update_self]
    rw [hsame] at hsyncing
    by_cases hn : (pair.provider side).transportHandlers = 0
    · rw [hn, Function.iterate_zero, id_eq]
      dsimp only
      rw [Function.update_self]
      exact (hevent.resolve_left fun hne => hne hn).resolve_left fun hnot => by
        rw [hnot] at hsyncing
        cases hsyncing
    · exact (hgot hn).trans Finset.subset_union_left
  · rw [Function.update_of_ne side.peer_ne]
    exact Finset.empty_subset _

theorem startConnected (h : Sound docs (fun _ => ∅) pair)
    (hevent : (pair.provider side.peer).connected = true ∨
      pair.updates docs side ⊆ pair.updates docs side.peer) :
    Sound docs (fun _ => ∅) (pair.startConnected docs side) := by
  obtain ⟨hown, hhandlers, hpeer, hinbox, hsent⟩ := startConnected_views docs pair side
  generalize pair.startConnected docs side = started at *
  have hupdates : ∀ s, started.updates docs s = pair.updates docs s :=
    (SyncSide.forall_iff side).mpr ⟨congrArg docs.updates hown, by
      rw [SyncPair.updates, hpeer]
      rfl⟩
  refine ⟨(SyncSide.forall_iff side).mpr ⟨fun _ => ?_, fun hsyncing => ?_⟩,
    (SyncSide.forall_iff side).mpr ⟨?_, ?_⟩,
    (SyncSide.forall_iff side).mpr ⟨fun _ => ?_, fun hsyncing => ?_⟩⟩
  · rw [hupdates, hupdates, hsent, Finset.union_empty, arriving_append]
    rcases hevent with hconnected | hknown
    · rw [if_pos hconnected, arriving_singleton, docs.contents_encodeState]
      exact Finset.subset_union_right.trans Finset.subset_union_right
    · exact hknown.trans Finset.subset_union_left
  · rw [hpeer] at hsyncing
    have hsent' := h.sent side.peer hsyncing
    rw [hupdates, hupdates]
    rw [SyncSide.peer_peer] at hsent' ⊢
    rwa [hinbox]
  · rw [hupdates, hsent, arriving_append]
    refine Finset.union_subset (h.known side) ?_
    split
    · rw [arriving_singleton, docs.contents_encodeState]
      exact subset_rfl
    · exact Finset.empty_subset _
  · have hknown := h.known side.peer
    rw [SyncSide.peer_peer] at hknown ⊢
    rwa [hinbox, hupdates]
  · rw [hhandlers]
    exact Nat.succ_ne_zero _
  · rw [hpeer] at hsyncing ⊢
    exact h.handlers side.peer hsyncing

/-- The messages under way are lost, but what a started provider has sent was known. -/
theorem clear (h : Sound docs (fun _ => ∅) pair) (hinbox : ∀ s, pair'.inbox s = [])
    (hupdates : ∀ s, pair'.updates docs s = pair.updates docs s)
    (hsyncing : ∀ s, (pair'.provider s).syncing = true →
      (pair'.provider s) = { pair.provider s with connected := (pair'.provider s).connected } ∧
        pair.hasAll docs s.peer = true) : Sound docs (fun _ => ∅) pair' := by
  have hbefore : ∀ s, (pair'.provider s).syncing = true → (pair.provider s).syncing = true := by
    intro s hs
    rw [(hsyncing s hs).1] at hs
    exact hs
  refine ⟨fun s hs => ?_, fun s => ?_, fun s hs => ?_⟩
  · have hall := (hsyncing s hs).2
    simp only [hasAll, SyncSide.peer_peer, hbefore s hs, Bool.not_true, Bool.false_or,
      decide_eq_true_iff] at hall
    rw [hupdates, hupdates, hinbox]
    refine (h.sent s (hbefore s hs)).trans (Finset.union_subset_union_left ?_)
    exact Finset.union_subset Finset.subset_union_left (hall.trans Finset.subset_union_left)
  · rw [hinbox]
    exact Finset.empty_subset _
  · rw [(hsyncing s hs).1]
    exact h.handlers s (hbefore s hs)

theorem lose (h : Sound docs (fun _ => ∅) pair)
    (hevent : ∀ side, pair.hasAll docs side = true) : Sound docs (fun _ => ∅) (pair.lose side) := by
  have hprovider : ∀ s, ∃ connected,
      (pair.lose side).provider s = { pair.provider s with connected } := by
    refine (SyncSide.forall_iff side).mpr ⟨⟨false, Function.update_self ..⟩,
      ⟨(pair.provider side.peer).connected, Function.update_of_ne side.peer_ne _ _⟩⟩
  refine h.clear (fun _ => rfl) (fun s => ?_) fun s _ => ⟨?_, hevent _⟩
  · obtain ⟨connected, hs⟩ := hprovider s
    rw [SyncPair.updates, hs]
    rfl
  · obtain ⟨connected, hs⟩ := hprovider s
    rw [hs]

theorem stop (h : Sound docs (fun _ => ∅) pair)
    (hevent : (pair.provider side).syncing = false ∨ pair.hasAll docs side = true) :
    Sound docs (fun _ => ∅) (pair.stop side) := by
  by_cases hsyncing : (pair.provider side).syncing = true
  · obtain ⟨hinbox, hdoc, hstopped, hpeer⟩ := stop_views hsyncing
    refine h.clear hinbox ((SyncSide.forall_iff side).mpr ⟨congrArg docs.updates hdoc, ?_⟩)
      ((SyncSide.forall_iff side).mpr ⟨fun hs => ?_, fun hs => ⟨by rw [hpeer], ?_⟩⟩)
    · rw [SyncPair.updates, hpeer]
      rfl
    · rw [hstopped] at hs
      cases hs
    · rw [SyncSide.peer_peer]
      exact hevent.resolve_left fun hnot => by
        rw [hnot] at hsyncing
        cases hsyncing
  · unfold SyncPair.stop
    dsimp only
    rw [if_pos (by simpa using hsyncing)]
    exact h

/-- A provider changes in nothing that the documents depend on. -/
theorem setProvider (h : Sound docs (fun _ => ∅) pair) {provider : SyncProvider D}
    (hdoc : provider.doc = (pair.provider side).doc)
    (hsyncing : provider.syncing = (pair.provider side).syncing)
    (hhandlers : provider.docHandlers = (pair.provider side).docHandlers) :
    Sound docs (fun _ => ∅) (pair.setProvider side provider) := by
  have hviews : ∀ s, ((pair.setProvider side provider).provider s).doc = (pair.provider s).doc ∧
      ((pair.setProvider side provider).provider s).syncing = (pair.provider s).syncing ∧
      ((pair.setProvider side provider).provider s).docHandlers =
        (pair.provider s).docHandlers := by
    intro s
    by_cases hs : s = side
    · subst hs
      simp [SyncPair.setProvider, hdoc, hsyncing, hhandlers]
    · simp [SyncPair.setProvider, hs]
  have hupdates : ∀ s, (pair.setProvider side provider).updates docs s = pair.updates docs s :=
    fun s => congrArg docs.updates (hviews s).1
  refine ⟨fun s hs => ?_, fun s => ?_, fun s hs => ?_⟩
  · rw [hupdates, hupdates]
    exact h.sent s ((hviews s).2.1 ▸ hs)
  · rw [hupdates]
    exact h.known s
  · rw [(hviews s).2.2]
    exact h.handlers s ((hviews s).2.1 ▸ hs)

theorem step (h : Sound docs (fun _ => ∅) pair) {event : SyncEvent U}
    (hevent : pair.losesNone docs event = true) (hstep : pair.step docs event = .ok pair') :
    Sound docs (fun _ => ∅) pair' := by
  cases event with
  | start side =>
    cases hstep
    unfold start
    dsimp only
    split
    · exact h
    · exact h.setProvider rfl rfl rfl
  | started side =>
    simp only [SyncPair.step] at hstep
    split at hstep
    · cases hstep
    · cases hstep
      exact h.startConnected (by simpa [losesNone] using hevent)
  | stop side =>
    cases hstep
    exact h.stop (by simpa [losesNone] using hevent)
  | update side update =>
    cases hstep
    refine h.applies (SyncPair.applies docs pair side update) fun hsyncing => ?_
    simpa [losesNone, hsyncing] using hevent
  | connects side =>
    simp only [SyncPair.step] at hstep
    split at hstep
    · cases hstep
    · cases hstep
      exact h.setProvider rfl rfl rfl
  | loses side =>
    simp only [SyncPair.step] at hstep
    split at hstep
    · cases hstep
    · cases hstep
      refine h.lose ((SyncSide.forall_iff side).mpr ?_)
      simpa [losesNone] using hevent
  | delivers side =>
    simp only [SyncPair.step] at hstep
    split at hstep
    · cases hstep
    · rename_i data rest hinbox
      cases hstep
      refine h.delivers hinbox ?_
      simpa [losesNone, hinbox, or_assoc] using hevent

end Sound

/-! ## Runs -/

variable {steps : List (SyncPair D U × SyncEvent U)}

theorem syncProviders_run {one two : D} (h : Run (step docs) (ofDocs one two) steps pair)
    (hsteps : ∀ x ∈ steps, x.1.losesNone docs x.2 = true) :
    ∀ state ∈ steps.map Prod.fst ++ [pair], state.Converged docs := by
  have hinit : Sound docs (fun _ => ∅) (ofDocs one two : SyncPair D U) :=
    .initial (fun side => by cases side <;> rfl) fun _ => rfl
  exact fun state hstate => Sound.converged (h.forall_states_of hinit
    (fun _ _ _ hs hC hstep => hs.step hC hstep) hsteps state hstate)

/-- The peer is started first, and a connection is lost when nothing is under way. -/
theorem syncProviders_run_synced : ∃ steps pair,
    Run (step (.ofFinset ℕ)) (ofDocs {1} {2}) steps pair ∧
    (pair.isSettled = true ∧ (pair.provider .one).doc = {1, 2, 3, 4}) ∧
    ∀ state ∈ steps.map Prod.fst ++ [pair], state.Converged (.ofFinset ℕ) := by
  have hevents : (runSteps (step (.ofFinset ℕ)) (ofDocs {1} {2} : SyncPair (Finset ℕ) (Finset ℕ))
      [.start .two, .connects .two, .start .one, .connects .one, .started .two, .started .one,
        .delivers .two, .delivers .one, .delivers .two, .update .one {3}, .delivers .two,
        .delivers .one, .loses .one, .connects .one, .update .two {4}, .delivers .one,
        .delivers .two]).map (fun r =>
          (decide (r.2.isSettled = true ∧ (r.2.provider .one).doc = {1, 2, 3, 4}),
            r.1.all fun x => x.1.losesNone (.ofFinset ℕ) x.2)) = .ok (true, true) := by
    decide
  obtain ⟨steps, pair, hrun, -, hresult⟩ := exists_run hevents
  obtain ⟨hsettled, hsteps⟩ := Prod.mk.inj hresult
  exact ⟨steps, pair, hrun, of_decide_eq_true hsettled,
    syncProviders_run hrun (List.all_eq_true.mp hsteps)⟩

/-- A provider with an update is started before its peer. -/
theorem syncProviders_run_startedFirst :
    ¬∀ steps pair, Run (step (.ofFinset ℕ)) (ofDocs {1} ∅) steps pair →
      pair.Converged (.ofFinset ℕ) := by
  intro h
  have hevents : (runSteps (step (.ofFinset ℕ)) (ofDocs {1} ∅ : SyncPair (Finset ℕ) (Finset ℕ))
      [.start .one, .connects .one, .started .one, .start .two, .connects .two, .started .two,
        .delivers .one]).map (fun r => (r.2.isSettled, decide (
          r.2.updates (.ofFinset ℕ) .one = r.2.updates (.ofFinset ℕ) .two))) = .ok (true, false) := by
    decide
  obtain ⟨steps, pair, hrun, -, hresult⟩ := exists_run hevents
  obtain ⟨hsettled, hdiffer⟩ := Prod.mk.inj hresult
  exact of_decide_eq_false hdiffer (h steps pair hrun hsettled)

end SyncPair

end N8n
