import N8n.PartialExecution.SourceDataGroups

/-!
# Maximal source data groups

A group that is maximal has a connection for every input that has one left, one with data if there
is one. `getSourceDataGroups` closes a group at the first input that has no connection left, and
the inputs after it have to wait for a group of their own, although nothing is missing for them.

So the groups are maximal exactly when no input has fewer connections than one before it and one
after it (`getSourceDataGroups_maximal_iff`). What the loop does say of a group and the
connections left is `IsGreedy`.
-/

open Lib

namespace N8n

/-! ## What the loop leaves -/

variable {hasData : GraphConnection → Bool}

/-- The group begins with the smallest input, ends when the next has no connection left, and
prefers connections with data. -/
structure SourceConnectionGroup.IsGreedy (hasData : GraphConnection → Bool)
    (rest : List GraphConnection) (group : SourceConnectionGroup) : Prop where
  first : ∀ c ∈ group.connections.head?, ∀ d ∈ rest, c.inputIndex ≤ d.inputIndex
  closed : ∀ c ∈ group.connections.getLast?, ∀ d ∈ rest, d.inputIndex ≠ c.inputIndex + 1
  prefers : ∀ c ∈ group.connections, ∀ d ∈ rest, d.inputIndex = c.inputIndex → hasData d →
    hasData c

/-- Every group is greedy about the connections of the later ones. -/
def AreGreedy (hasData : GraphConnection → Bool) : List SourceConnectionGroup → Prop
  | [] => True
  | group :: groups =>
    group.IsGreedy hasData (groups.flatMap (·.connections)) ∧ AreGreedy hasData groups

/-- The group the loop is filling, and the connections that are left. -/
structure SourceConnectionGroup.IsFilling (hasData : GraphConnection → Bool) (index : ℤ)
    (left : List GraphConnection) (group : SourceConnectionGroup) : Prop where
  isOpen : group.IsOpen hasData index
  next : group.connections = [] → ∀ d ∈ left, index + 1 ≤ d.inputIndex
  first : ∀ c ∈ group.connections.head?, ∀ d ∈ left, c.inputIndex ≤ d.inputIndex
  prefers : ∀ c ∈ group.connections, ∀ d ∈ left, d.inputIndex = c.inputIndex → hasData d →
    hasData c

variable {cs : List GraphConnection}

theorem restartIndex_lt {d : GraphConnection} (hd : d ∈ cs) :
    restartIndex cs + 1 ≤ d.inputIndex := by
  have hmem : d.inputIndex ∈ cs.map (·.inputIndex) := List.mem_map_of_mem hd
  obtain ⟨i, hi⟩ := Option.isSome_iff_exists.mp
    (List.isSome_min?_of_ne_nil (List.ne_nil_of_mem hmem))
  have hle : i ≤ d.inputIndex := (List.min?_eq_some_iff.mp hi).2 _ hmem
  simp only [restartIndex, hi, Option.getD_some]
  omega

theorem SourceConnectionGroup.IsFilling.new (cs : List GraphConnection) :
    IsFilling hasData (restartIndex cs) cs {} :=
  ⟨.new _, fun _ _ hd => restartIndex_lt hd, by simp, by simp⟩

variable {group : SourceConnectionGroup}

/-- The loop takes a connection to the next input, one with data if there is one. -/
theorem SourceConnectionGroup.IsFilling.concat {index : ℤ} {left left' : List GraphConnection}
    (h : group.IsFilling hasData index left) {c : GraphConnection}
    (hleft : left.Perm (c :: left')) (hc : c.inputIndex = index + 1)
    (hprefers : ∀ d ∈ left', d.inputIndex = c.inputIndex → hasData d → hasData c)
    (complete : Bool) (hcomplete : complete = (group.complete && hasData c)) :
    IsFilling hasData (index + 1) left'
      { complete, connections := group.connections ++ [c] } := by
  have hsub : ∀ d ∈ left', d ∈ left := fun d hd => hleft.mem_iff.mpr (List.mem_cons_of_mem _ hd)
  refine ⟨h.isOpen.concat hc complete hcomplete, by simp, fun a ha d hd => ?_, fun a ha d hd => ?_⟩
  · cases hcs : group.connections with
    | nil =>
      rw [hcs] at ha
      obtain rfl : c = a := by simpa using ha
      rw [hc]
      exact h.next hcs d (hsub d hd)
    | cons b bs =>
      refine h.first a ?_ d (hsub d hd)
      rw [hcs] at ha ⊢
      simpa using ha
  · rcases List.mem_append.mp ha with ha | ha
    · exact h.prefers a ha d (hsub d hd)
    · rw [List.mem_singleton.mp ha]
      exact hprefers d hd

theorem SourceConnectionGroup.IsFilling.isGreedy {index : ℤ} {left rest : List GraphConnection}
    (h : group.IsFilling hasData index left) (hnext : ∀ d ∈ left, d.inputIndex ≠ index + 1)
    (hrest : ∀ d ∈ rest, d ∈ left) :
    group.IsGreedy hasData rest := by
  refine ⟨fun c hc d hd => h.first c hc d (hrest d hd), fun c hc d hd => ?_,
    fun c hc d hd => h.prefers c hc d (hrest d hd)⟩
  rw [h.isOpen.last c hc]
  exact hnext d (hrest d hd)

theorem mem_of_concat {left left' taken : List GraphConnection} {c d : GraphConnection}
    (hleft : left.Perm (c :: left')) (hd : d ∈ (taken ++ [c]) ++ left') : d ∈ taken ++ left := by
  rw [List.append_assoc, List.singleton_append] at hd
  exact (hleft.append_left taken).mem_iff.mpr hd

variable {groups : List SourceConnectionGroup}

theorem groupLoop_areGreedy {fuel : ℕ} {index : ℤ} {withData withoutData : List GraphConnection}
    (h : groupLoop fuel index withData withoutData group = .ok groups)
    (hfilling : group.IsFilling hasData index (withData ++ withoutData))
    (hwith : ∀ c ∈ withData, hasData c) (hwithout : ∀ c ∈ withoutData, ¬hasData c) :
    AreGreedy hasData groups ∧ ∀ c ∈ groups.flatMap (·.connections),
      c ∈ group.connections ++ (withData ++ withoutData) := by
  induction fuel generalizing index withData withoutData group groups with
  | zero => cases h
  | succ fuel ih =>
    rw [groupLoop] at h
    by_cases hnil : withData = [] ∧ withoutData = []
    · rw [if_pos hnil] at h
      cases h
      exact ⟨⟨hfilling.isGreedy (by simp [hnil]) (by simp), trivial⟩, fun c hc =>
        List.mem_append_left _ (by simpa using hc)⟩
    rw [if_neg hnil] at h
    cases hf : withData.find? (·.inputIndex = index + 1) with
    | some c =>
      have hc : c.inputIndex = index + 1 := by simpa using List.find?_some hf
      have hperm := perm_eraseP_of_find? hf
      simp only [hf] at h
      obtain ⟨hgreedy, hmem⟩ := ih h
        (hfilling.concat (hperm.append_right withoutData) hc
          (fun _ _ _ _ => hwith c (List.mem_of_find?_eq_some hf)) group.complete (by
            rw [hwith c (List.mem_of_find?_eq_some hf), Bool.and_true]))
        (fun d hd => hwith d (List.mem_of_mem_eraseP hd)) hwithout
      refine ⟨hgreedy, fun d hd => ?_⟩
      exact mem_of_concat (hperm.append_right withoutData) (hmem d hd)
    | none =>
      cases hf' : withoutData.find? (·.inputIndex = index + 1) with
      | some c =>
        have hc : c.inputIndex = index + 1 := by simpa using List.find?_some hf'
        have hperm := ((perm_eraseP_of_find? hf').append_left withData).trans List.perm_middle
        simp only [hf, hf'] at h
        have hprefers : ∀ d ∈ withData ++ withoutData.eraseP (·.inputIndex = index + 1),
            d.inputIndex = c.inputIndex → hasData d → hasData c := by
          intro d hd hindex hdata
          rcases List.mem_append.mp hd with hd | hd
          · exact absurd (List.find?_eq_none.mp hf d hd) (by simp [hindex, hc])
          · exact absurd hdata (hwithout d (List.mem_of_mem_eraseP hd))
        obtain ⟨hgreedy, hmem⟩ := ih h
          (hfilling.concat hperm hc hprefers false (by
            simp [hwithout c (List.mem_of_find?_eq_some hf')])) hwith
          (fun d hd => hwithout d (List.mem_of_mem_eraseP hd))
        exact ⟨hgreedy, fun d hd => mem_of_concat hperm (hmem d hd)⟩
      | none =>
        simp only [hf, hf'] at h
        obtain ⟨groups', hgroups', h⟩ := bind_eq_ok.mp h
        cases h
        obtain ⟨hgreedy, hmem⟩ := ih hgroups' (.new _) hwith hwithout
        have hnext : ∀ d ∈ withData ++ withoutData, d.inputIndex ≠ index + 1 := by
          intro d hd
          rcases List.mem_append.mp hd with hd | hd
          · simpa using List.find?_eq_none.mp hf d hd
          · simpa using List.find?_eq_none.mp hf' d hd
        refine ⟨⟨hfilling.isGreedy hnext fun d hd => by simpa using hmem d hd, hgreedy⟩,
          fun d hd => ?_⟩
        rw [List.flatMap_cons] at hd
        rcases List.mem_append.mp hd with hd | hd
        · exact List.mem_append_left _ hd
        · exact List.mem_append_right _ (by simpa using hmem d hd)

/-! ## Maximal groups -/

/-- No earlier group has the connection. -/
def IsLeft (cs : List GraphConnection) (earlier : List SourceConnectionGroup)
    (c : GraphConnection) : Prop :=
  c ∈ cs ∧ ∀ group ∈ earlier, c ∉ group.connections

/-- The group has one connection for each input that has one left, and one with data if there is
one. -/
structure SourceConnectionGroup.IsMaximal (hasData : GraphConnection → Bool)
    (cs : List GraphConnection) (earlier : List SourceConnectionGroup)
    (group : SourceConnectionGroup) : Prop where
  one : ∀ c, IsLeft cs earlier c →
    (group.connections.filter (·.inputIndex = c.inputIndex)).length = 1
  prefers : ∀ c, IsLeft cs earlier c → hasData c → ∀ d ∈ group.connections,
    d.inputIndex = c.inputIndex → hasData d

def AreMaximal (hasData : GraphConnection → Bool) (cs : List GraphConnection)
    (groups : List SourceConnectionGroup) : Prop :=
  ∀ earlier group later, groups = earlier ++ group :: later →
    group.IsMaximal hasData cs earlier

def inputCount (cs : List GraphConnection) (index : ℤ) : ℕ :=
  cs.countP fun c => c.inputIndex = index

/-- No input has fewer connections than one before it and one after it. -/
def HasNoDip (cs : List GraphConnection) : Prop :=
  ∀ i j k : ℤ, i < j → j < k → min (inputCount cs i) (inputCount cs k) ≤ inputCount cs j

theorem inputCount_append (cs ds : List GraphConnection) (index : ℤ) :
    inputCount (cs ++ ds) index = inputCount cs index + inputCount ds index := List.countP_append

theorem inputCount_eq_zero {index : ℤ} (h : ∀ c ∈ cs, c.inputIndex ≠ index) :
    inputCount cs index = 0 :=
  List.countP_eq_zero.mpr fun c hc => by simpa using h c hc

theorem inputCount_pos {c : GraphConnection} (hc : c ∈ cs) :
    0 < inputCount cs c.inputIndex := List.countP_pos_iff.mpr ⟨c, hc, by simp⟩

theorem exists_of_inputCount_pos {index : ℤ} (h : 0 < inputCount cs index) :
    ∃ c ∈ cs, c.inputIndex = index := by
  obtain ⟨c, hc, hindex⟩ := List.countP_pos_iff.mp h
  exact ⟨c, hc, by simpa using hindex⟩

/-- The inputs of a greedy group, and where the other connections can be. -/
theorem SourceConnectionGroup.IsGreedy.exists_range {rest : List GraphConnection}
    (h : group.IsGreedy hasData rest) (hvalid : group.IsValid hasData) :
    ∃ start stop : ℤ, start < stop ∧
      (∀ index, inputCount group.connections index =
        if start ≤ index ∧ index < stop then 1 else 0) ∧
      ∀ d ∈ rest, start ≤ d.inputIndex ∧ d.inputIndex ≠ stop := by
  obtain ⟨start, hhead, hindex⟩ := hvalid.inputIndex_eq
  have hpos := List.length_pos_iff.mpr hvalid.ne_nil
  refine ⟨start, start + group.connections.length, by omega, fun index => ?_, fun d hd => ⟨?_, ?_⟩⟩
  · have hcount : inputCount group.connections index =
        (group.connections.map (·.inputIndex)).count index := by
      rw [List.count, List.countP_map]
      rfl
    rw [hcount, hvalid.nodup_inputIndex.count]
    refine if_congr ?_ rfl rfl
    constructor
    · intro hmem
      obtain ⟨c, hc, rfl⟩ := List.mem_map.mp hmem
      obtain ⟨k, hk⟩ := List.getElem?_of_mem hc
      obtain ⟨hlt, -⟩ := List.getElem?_eq_some_iff.mp hk
      have := hindex k c hk
      omega
    · rintro ⟨hle, hlt⟩
      have hk : (index - start).toNat < group.connections.length := by omega
      have hget := List.getElem?_eq_getElem hk
      have := hindex _ _ hget
      exact List.mem_map.mpr ⟨_, List.mem_of_getElem? hget, by omega⟩
  · have hfirst := List.getElem?_eq_getElem hpos
    rw [← hhead _ (by rw [List.head?_eq_getElem?, hfirst]; rfl)]
    exact h.first _ (by rw [List.head?_eq_getElem?, hfirst]; rfl) d hd
  · have hlast : group.connections.length - 1 < group.connections.length := by omega
    have hget := List.getElem?_eq_getElem hlast
    have := hindex _ _ hget
    have := h.closed _ (by rw [List.getLast?_eq_getElem?, hget]; rfl) d hd
    omega

/-- A group has all inputs, and the counts of the others have no dip, exactly when the counts of
all connections have none. -/
theorem hasNoDip_append_iff {rest : List GraphConnection} (h : group.IsGreedy hasData rest)
    (hvalid : group.IsValid hasData) :
    HasNoDip (group.connections ++ rest) ↔
      (∀ c ∈ group.connections ++ rest, inputCount group.connections c.inputIndex = 1) ∧
        HasNoDip rest := by
  obtain ⟨start, stop, hlt, hgroup, hrest⟩ := h.exists_range hvalid
  have hbefore : ∀ index, index < start → inputCount rest index = 0 := fun index hindex =>
    inputCount_eq_zero fun d hd heq => absurd (hrest d hd).1 (by omega)
  have hstop : inputCount rest stop = 0 := inputCount_eq_zero fun d hd => (hrest d hd).2
  simp only [HasNoDip, inputCount_append, hgroup]
  constructor
  · intro hdip
    have hinside : ∀ index, 0 < inputCount rest index → start ≤ index ∧ index < stop := by
      intro index hpos
      have hle : start ≤ index := by
        by_contra hless
        rw [hbefore index (by omega)] at hpos
        omega
      refine ⟨hle, ?_⟩
      by_contra hnot
      have hne : index ≠ stop := by
        rintro rfl
        omega
      -- the input after the group has no connection, and this one has
      have := hdip start stop index hlt (by omega)
      rw [if_pos ⟨le_refl start, hlt⟩, if_neg (by omega), if_neg (by omega), hstop] at this
      omega
    refine ⟨fun c hc => if_pos ?_, fun i j k hij hjk => ?_⟩
    · rcases List.mem_append.mp hc with hc | hc
      · have hpos := inputCount_pos hc
        rw [hgroup] at hpos
        by_contra hnot
        rw [if_neg hnot] at hpos
        omega
      · exact hinside _ (inputCount_pos hc)
    · by_cases hi : 0 < inputCount rest i
      · by_cases hk : 0 < inputCount rest k
        · have hi' := hinside i hi
          have hk' := hinside k hk
          have := hdip i j k hij hjk
          rw [if_pos hi', if_pos hk', if_pos (by omega)] at this
          omega
        · omega
      · omega
  · rintro ⟨hone, hdip⟩ i j k hij hjk
    have hinside : ∀ index, 0 < inputCount rest index → start ≤ index ∧ index < stop := by
      intro index hpos
      obtain ⟨c, hc, rfl⟩ := exists_of_inputCount_pos hpos
      by_contra hnot
      have := hone c (List.mem_append_right _ hc)
      rw [if_neg hnot] at this
      omega
    have hzero : ∀ index, ¬(start ≤ index ∧ index < stop) → inputCount rest index = 0 := by
      intro index hnot
      by_contra hne
      exact hnot (hinside index (Nat.pos_of_ne_zero hne))
    have := hdip i j k hij hjk
    by_cases hi : start ≤ i ∧ i < stop
    · by_cases hk : start ≤ k ∧ k < stop
      · rw [if_pos hi, if_pos hk, if_pos ⟨by omega, by omega⟩]
        omega
      · rw [if_neg hk, hzero k hk]
        omega
    · rw [if_neg hi, hzero i hi]
      omega

/-! ## All groups -/

/-- Every group has one connection for each input of its own and the later connections. -/
def HaveAllInputs : List SourceConnectionGroup → Prop
  | [] => True
  | group :: groups =>
    (∀ c ∈ group.connections ++ groups.flatMap (·.connections),
      inputCount group.connections c.inputIndex = 1) ∧ HaveAllInputs groups

theorem hasNoDip_iff (h : AreGreedy hasData groups)
    (hvalid : ∀ group ∈ groups, group.IsValid hasData) :
    HasNoDip (groups.flatMap (·.connections)) ↔ HaveAllInputs groups := by
  induction groups with
  | nil =>
    refine iff_of_true (fun i j k _ _ => ?_) trivial
    simp [inputCount]
  | cons group groups ih =>
    rw [List.flatMap_cons, hasNoDip_append_iff h.1 (hvalid group List.mem_cons_self),
      ih h.2 fun g hg => hvalid g (List.mem_cons_of_mem _ hg)]
    rfl

/-- The connections left are those of the group and the later ones. -/
theorem isLeft_iff {earlier later : List SourceConnectionGroup} (hnodup : cs.Nodup)
    (hperm : ((earlier ++ group :: later).flatMap (·.connections)).Perm cs) {c : GraphConnection} :
    IsLeft cs earlier c ↔ c ∈ group.connections ++ later.flatMap (·.connections) := by
  rw [List.flatMap_append, List.flatMap_cons] at hperm
  have hdisjoint := (List.nodup_append.mp (hperm.nodup_iff.mpr hnodup)).2.2
  rw [IsLeft, ← hperm.mem_iff, List.mem_append]
  constructor
  · rintro ⟨hc | hc, hnot⟩
    · obtain ⟨g, hg, hc⟩ := List.mem_flatMap.mp hc
      exact absurd hc (hnot g hg)
    · exact hc
  · intro hc
    refine ⟨Or.inr hc, fun g hg hcg => ?_⟩
    exact hdisjoint c (List.mem_flatMap.mpr ⟨g, hg, hcg⟩) c hc rfl

theorem AreGreedy.prefers {earlier later : List SourceConnectionGroup}
    (h : AreGreedy hasData (earlier ++ group :: later)) :
    group.IsGreedy hasData (later.flatMap (·.connections)) := by
  induction earlier with
  | nil => exact h.1
  | cons _ earlier ih => exact ih h.2

theorem haveAllInputs_iff :
    HaveAllInputs groups ↔ ∀ earlier group later, groups = earlier ++ group :: later →
      ∀ c ∈ group.connections ++ later.flatMap (·.connections),
        inputCount group.connections c.inputIndex = 1 := by
  induction groups with
  | nil => exact iff_of_true trivial fun earlier group later h => (by simp at h)
  | cons group groups ih =>
    rw [HaveAllInputs, ih]
    constructor
    · rintro ⟨hfirst, hrest⟩ earlier g later h
      cases earlier with
      | nil =>
        obtain ⟨rfl, rfl⟩ := List.cons.inj h
        exact hfirst
      | cons e earlier => exact hrest earlier g later (List.cons.inj h).2
    · intro h
      exact ⟨h [] group groups rfl, fun earlier g later hg =>
        h (group :: earlier) g later (by rw [hg]; rfl)⟩

/-- Groups that are greedy are maximal exactly when no input has fewer connections than one before
it and one after it. -/
theorem areMaximal_iff (h : AreGreedy hasData groups) (hparts : Partitions hasData cs groups)
    (hnodup : cs.Nodup) :
    AreMaximal hasData cs groups ↔ HasNoDip cs := by
  have hcounts : ∀ index, inputCount (groups.flatMap (·.connections)) index =
      inputCount cs index := fun index => hparts.perm.countP_eq _
  have hdip : HasNoDip cs ↔ HasNoDip (groups.flatMap (·.connections)) := by
    simp only [HasNoDip, hcounts]
  rw [hdip, hasNoDip_iff h hparts.isValid, haveAllInputs_iff, AreMaximal]
  refine forall_congr' fun earlier => forall_congr' fun group => forall_congr' fun later =>
    forall_congr' fun hgroups => ?_
  subst hgroups
  have hleft : ∀ c, IsLeft cs earlier c ↔
      c ∈ group.connections ++ later.flatMap (·.connections) :=
    fun c => isLeft_iff hnodup hparts.perm
  constructor
  · intro hmaximal c hc
    have hone := hmaximal.one c ((hleft c).mpr hc)
    rwa [inputCount, List.countP_eq_length_filter]
  · intro hall
    refine ⟨fun c hc => ?_, fun c hc hdata d hd hindex => ?_⟩
    · have hone := hall c ((hleft c).mp hc)
      rwa [inputCount, List.countP_eq_length_filter] at hone
    · rcases List.mem_append.mp ((hleft c).mp hc) with hc | hc
      · have heq : c = d := List.inj_on_of_nodup_map
          (hparts.isValid group (by simp)).nodup_inputIndex hc hd hindex.symm
        exact heq ▸ hdata
      · exact h.prefers.prefers d hd c hc hindex.symm hdata

section

variable {J : Type} (localeCompare : String → String → ℤ) (g : DirectedGraph) (node : INode)
  (runData : IRunData J) (pinData : IPinData J)

/-- The connections that are grouped : those with data, and those of type Main. -/
def groupedConnections : List GraphConnection :=
  (g.getConnectionsTo node).filter fun c => hasSourceData runData pinData c || c.type = .main

theorem areGreedy_sourceDataGroups :
    AreGreedy (hasSourceData runData pinData)
      (sourceDataGroups localeCompare g runData pinData node) := by
  have heq := getSourceDataGroups_eq localeCompare g runData pinData node
  generalize sourceDataGroups localeCompare g runData pinData node = groups at heq
  rw [getSourceDataGroups] at heq
  dsimp only at heq
  split_ifs at heq
  · cases heq
    trivial
  · refine (groupLoop_areGreedy heq (.new _) (fun c hc => ?_) fun c hc => ?_).1
    · exact (List.mem_filter.mp ((perm_sortConnections _ _).mem_iff.mp hc)).2
    · have := (List.mem_filter.mp ((perm_sortConnections _ _).mem_iff.mp hc)).2
      simp only [Bool.and_eq_true, Bool.not_eq_true'] at this
      simp [this.1]

end

/-- Two nodes that have run lead to the inputs 0 and 2 of `Merge`. -/
def gapGraph : DirectedGraph :=
  .ofLists [.named "If", .named "Set", .named "Merge"]
    [{ «from» := .named "If", «to» := .named "Merge" },
      { «from» := .named "Set", «to» := .named "Merge", inputIndex := 2 }]

def gapRunData : IRunData ℕ :=
  ((∅ : IRunData ℕ).set "If" [{ data := none }]).set "Set" [{ data := none }]

end N8n
