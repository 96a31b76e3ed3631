import N8n.Workflow.ParameterOrderRuns

/-!
# When parameters are resolved after their dependencies

`getParameterResolveOrder` always ends, and when it throws can be told from the properties
(`throws_iff`). What it returns is an order of all parameters exactly when the list was in order
before (`exists_isResolveOrder_iff`), so the dependencies are resolved as intended under the
conditions of `resolvesDependencies_iff` only.
-/

open Lib

namespace N8n

variable {nodePropertiesArray : List INodeProperties} {dependencies : IParameterDependencies}
  {state : ResolveState nodePropertiesArray.length} {index : Fin nodePropertiesArray.length}
  {order : List (Fin nodePropertiesArray.length)}

/-! ## What is read -/

theorem Resolves.unique {result result' : Except ResolveError (List (Fin nodePropertiesArray.length))}
    (h : Resolves nodePropertiesArray result) (h' : Resolves nodePropertiesArray result') :
    result = result' := by
  unfold Resolves at h h'
  cases hdependencies : getParameterDependencies nodePropertiesArray with
  | error e =>
    rw [hdependencies] at h h'
    exact Eq.trans h (Eq.symm h')
  | ok dependencies =>
    rw [hdependencies] at h h'
    obtain ⟨fuel, h⟩ := h
    obtain ⟨fuel', h'⟩ := h'
    exact resolveLoop_unique h h'

theorem resolves_of_ok {result : Except ResolveError (List (Fin nodePropertiesArray.length))}
    (hdependencies : getParameterDependencies nodePropertiesArray = .ok dependencies) {fuel : ℕ}
    (h : getParameterResolveOrder nodePropertiesArray dependencies fuel = some result) :
    Resolves nodePropertiesArray result := by
  unfold Resolves
  rw [hdependencies]
  exact ⟨fuel, h⟩

theorem dependencyNames_eq_nil {name : String}
    (h : ∀ property ∈ nodePropertiesArray, property.name = name → property.ruleKeys = []) :
    dependencyNames nodePropertiesArray name = [] := by
  refine List.flatMap_eq_nil_iff.mpr fun property hproperty => ?_
  obtain ⟨hmem, hname⟩ := List.mem_filter.mp hproperty
  rw [h property hmem (of_decide_eq_true hname), List.filter_nil]

theorem Collected.reads (h : Collected nodePropertiesArray dependencies)
    (hinherited : ¬ReadsInherited nodePropertiesArray) : Reads nodePropertiesArray dependencies := by
  intro index
  have hindex := List.get_mem nodePropertiesArray index
  by_cases hname : (nodePropertiesArray.get index).name ∈ objectPrototypeKeys
  · have hfree : (nodePropertiesArray.get index).name ∈ inheritedWithoutParameters :=
      by_contra fun hnot => hinherited ⟨_, hindex, hname, .inl hnot⟩
    have hnone : dependencyNames nodePropertiesArray (nodePropertiesArray.get index).name = [] :=
      dependencyNames_eq_nil fun property hproperty heq => by_contra fun hkeys =>
        hinherited ⟨property, hproperty, heq ▸ hname, .inr hkeys⟩
    refine ⟨[], ?_, List.nodup_nil, fun dependency => by rw [hnone]⟩
    rw [dependenciesOf, h.inherited _ hname]
    exact if_pos hfree
  · obtain ⟨known, hknown⟩ := OrderedMap.mem_keys_iff.mp (h.listed _ hindex hname)
    obtain ⟨hnodup, hmem⟩ := h.entry _ known hknown
    exact ⟨known, by rw [dependenciesOf, hknown], hnodup, hmem⟩

theorem throws_of_readsInherited (h : ReadsInherited nodePropertiesArray) :
    ∃ e, Resolves nodePropertiesArray (.error e) := by
  rcases getParameterDependencies_cases nodePropertiesArray with
    ⟨-, herror⟩ | ⟨hnot, dependencies, hok, hcollected⟩
  · refine ⟨.typeError, ?_⟩
    unfold Resolves
    rw [herror]
  · obtain ⟨property, hproperty, hname, hwhy⟩ := h
    have hlength := hwhy.resolve_right fun hkeys => hnot property hproperty ⟨hname, hkeys⟩
    obtain ⟨index, rfl⟩ := List.get_of_mem hproperty
    have herror : dependenciesOf dependencies (nodePropertiesArray.get index).name =
        .error .typeError := by
      rw [dependenciesOf, hcollected.inherited _ hname]
      exact if_neg hlength
    obtain ⟨before, after, hsplit⟩ := List.append_of_mem (List.mem_finRange index)
    have hqueue : ({} : ResolveState nodePropertiesArray.length).indexToResolve =
        before ++ index :: after := hsplit
    obtain ⟨fuel, e, hthrows⟩ := throws_of_error hqueue herror
    exact ⟨e, resolves_of_ok hok hthrows⟩

theorem exists_reads (h : ¬ReadsInherited nodePropertiesArray) :
    ∃ dependencies, getParameterDependencies nodePropertiesArray = .ok dependencies ∧
      Reads nodePropertiesArray dependencies := by
  rcases getParameterDependencies_cases nodePropertiesArray with
    ⟨⟨property, hproperty, hname, hkeys⟩, -⟩ | ⟨-, dependencies, hok, hcollected⟩
  · exact absurd ⟨property, hproperty, hname, .inr hkeys⟩ h
  · exact ⟨dependencies, hok, hcollected.reads h⟩

/-! ## What is returned -/

theorem mem_map_take_iff {name : String} :
    name ∈ (nodePropertiesArray.take index).map INodeProperties.name ↔
      ∃ earlier < index, (nodePropertiesArray.get earlier).name = name := by
  rw [List.mem_map]
  constructor
  · rintro ⟨property, hmem, rfl⟩
    obtain ⟨position, hposition, rfl⟩ := List.mem_take_iff_getElem.mp hmem
    exact ⟨⟨position, by omega⟩, Fin.lt_def.mpr (by simp only; omega), rfl⟩
  · rintro ⟨earlier, hlt, rfl⟩
    have hlt := Fin.lt_def.mp hlt
    have hbound := earlier.isLt
    exact ⟨_, List.mem_take_iff_getElem.mpr ⟨earlier, by omega, rfl⟩, rfl⟩

theorem missesBefore_eq_zero_iff :
    missesBefore nodePropertiesArray index = 0 ↔
      ∀ dependency, DependsOn nodePropertiesArray (nodePropertiesArray.get index).name dependency →
        ∃ earlier < index, (nodePropertiesArray.get earlier).name = dependency := by
  rw [missesBefore, List.length_eq_zero_iff, List.filter_eq_nil_iff]
  refine forall_congr' fun dependency => ?_
  rw [List.mem_dedup, DependsOn, ← mem_map_take_iff, decide_eq_true_iff]
  tauto

theorem inOrder_iff :
    InOrder nodePropertiesArray ↔ ∀ index, missesBefore nodePropertiesArray index = 0 :=
  forall_congr' fun _ => missesBefore_eq_zero_iff.symm

theorem requeued_eq_nil_iff :
    requeued nodePropertiesArray nodePropertiesArray.length = [] ↔ InOrder nodePropertiesArray := by
  rw [inOrder_iff, List.eq_nil_iff_forall_not_mem]
  simp only [mem_requeued_length, not_not]

/-- In a list in order, no round of the first pass makes a property wait. -/
theorem InOrder.not_stalls (h : InOrder nodePropertiesArray) : ¬Stalls nodePropertiesArray := by
  rintro ⟨⟨index, -, hne⟩, heach⟩
  have hlt := heach index hne
  rw [inOrder_iff.mp h index] at hlt
  exact Nat.not_lt_zero _ hlt

theorem InOrder.isResolveOrder (h : InOrder nodePropertiesArray) :
    IsResolveOrder nodePropertiesArray (List.finRange nodePropertiesArray.length) where
  perm := .refl _
  after before index after hsplit dependency hdepends := by
    obtain ⟨earlier, hlt, hname⟩ := h index dependency hdepends
    have hsorted := List.pairwise_lt_finRange nodePropertiesArray.length
    have hmem := List.mem_finRange earlier
    rw [hsplit] at hsorted hmem
    refine ⟨earlier, (List.mem_append.mp hmem).resolve_right fun hafter => ?_, hname⟩
    have htail := (List.pairwise_append.mp hsorted).2.1
    rcases List.mem_cons.mp hafter with rfl | hafter
    · exact lt_irrefl _ hlt
    · exact lt_asymm hlt (List.rel_of_pairwise_cons htail hafter)

theorem FirstPass.executionOrder_eq (h : FirstPass nodePropertiesArray.length state) :
    state.executionOrder = List.finRange nodePropertiesArray.length := by
  rw [h.executionOrder, List.take_of_length_le (by simp)]

theorem resolves_of_inOrder (hinherited : ¬ReadsInherited nodePropertiesArray)
    (h : InOrder nodePropertiesArray) :
    Resolves nodePropertiesArray (.ok (List.finRange nodePropertiesArray.length)) := by
  obtain ⟨dependencies, hok, hreads⟩ := exists_reads hinherited
  obtain ⟨state, hpass, hrun⟩ := firstPass_run hreads _ le_rfl fun _ => h.not_stalls
  have hqueue : state.indexToResolve = [] :=
    hpass.indexToResolve_eq.trans (requeued_eq_nil_iff.mpr h)
  have hreturns := (hrun 1).trans (resolveLoop_nil hqueue)
  rw [hpass.executionOrder_eq] at hreturns
  exact resolves_of_ok hok hreturns

/-- What is not in order is taken more than once. -/
theorem inOrder_of_resolves (hinherited : ¬ReadsInherited nodePropertiesArray)
    (h : Resolves nodePropertiesArray (.ok order))
    (hlength : order.length = nodePropertiesArray.length) : InOrder nodePropertiesArray := by
  obtain ⟨dependencies, hok, hreads⟩ := exists_reads hinherited
  have hnot : ¬Stalls nodePropertiesArray := fun hstalls => by
    obtain ⟨fuel, hthrows⟩ := throws_of_stalls hreads hstalls
    cases h.unique (resolves_of_ok hok hthrows)
  obtain ⟨state, hpass, hrun⟩ := firstPass_run hreads _ le_rfl fun _ => hnot
  unfold Resolves at h
  rw [hok] at h
  obtain ⟨fuel, hreturns⟩ := h
  have hmore : resolveLoop nodePropertiesArray dependencies (nodePropertiesArray.length + fuel) {} =
      some (.ok order) := by
    rw [Nat.add_comm]
    exact resolveLoop_mono hreturns _
  have hle := length_le_of_resolveLoop ((hrun fuel).symm.trans hmore)
  rw [hpass.executionOrder_eq, hpass.indexToResolve_eq, List.length_finRange, hlength] at hle
  exact requeued_eq_nil_iff.mp (List.length_eq_zero_iff.mp (by omega))

/-- An order is returned for the lists that are in order, and for no others. -/
theorem exists_isResolveOrder_iff :
    (∃ order, Resolves nodePropertiesArray (.ok order) ∧ IsResolveOrder nodePropertiesArray order) ↔
      ¬ReadsInherited nodePropertiesArray ∧ InOrder nodePropertiesArray := by
  constructor
  · rintro ⟨order, hresolves, horder⟩
    have hinherited : ¬ReadsInherited nodePropertiesArray := fun hreads => by
      obtain ⟨e, hthrows⟩ := throws_of_readsInherited hreads
      cases hresolves.unique hthrows
    refine ⟨hinherited, inOrder_of_resolves hinherited hresolves ?_⟩
    rw [horder.perm.length_eq, List.length_finRange]
  · rintro ⟨hinherited, h⟩
    exact ⟨_, resolves_of_inOrder hinherited h, h.isResolveOrder⟩

/-! ## What is thrown -/

/-- A dependency that is not listed stays in the queue after the first pass. -/
theorem exists_not_settled (hreads : Reads nodePropertiesArray dependencies)
    (h : ¬DependenciesListed nodePropertiesArray) :
    ∃ index ∈ requeued nodePropertiesArray nodePropertiesArray.length,
      isSettled dependencies index = false := by
  simp only [DependenciesListed, not_forall] at h
  obtain ⟨name, dependency, hdepends, hunlisted⟩ := h
  obtain ⟨property, hproperty, -⟩ := List.mem_flatMap.mp hdepends.1
  obtain ⟨hmem, hname⟩ := List.mem_filter.mp hproperty
  obtain rfl := of_decide_eq_true hname
  obtain ⟨index, rfl⟩ := List.get_of_mem hmem
  refine ⟨index, mem_requeued_length.mpr fun hzero => ?_, ?_⟩
  · obtain ⟨earlier, -, hearlier⟩ := missesBefore_eq_zero_iff.mp hzero dependency hdepends
    exact hunlisted ⟨_, List.get_mem _ earlier, hearlier⟩
  · obtain ⟨known, hknown, -, hmemKnown⟩ := hreads index
    rw [← Bool.not_eq_true, isSettled_iff hknown]
    refine List.ne_nil_of_mem (a := dependency) (List.mem_filter.mpr ⟨(hmemKnown _).mpr hdepends.1, ?_⟩)
    refine decide_eq_true ⟨fun hlisted => ?_, hdepends.2⟩
    obtain ⟨property, hproperty, hname⟩ := List.mem_map.mp hlisted
    exact hunlisted ⟨property, hproperty, hname⟩

/-- When the code throws, for any properties. -/
theorem throws_iff :
    (∃ e, Resolves nodePropertiesArray (.error e)) ↔
      ReadsInherited nodePropertiesArray ∨ ¬DependenciesListed nodePropertiesArray ∨
        Stalls nodePropertiesArray := by
  by_cases hinherited : ReadsInherited nodePropertiesArray
  · exact iff_of_true (throws_of_readsInherited hinherited) (.inl hinherited)
  rw [or_iff_right hinherited]
  obtain ⟨dependencies, hok, hreads⟩ := exists_reads hinherited
  by_cases hstalls : Stalls nodePropertiesArray
  · obtain ⟨fuel, hthrows⟩ := throws_of_stalls hreads hstalls
    exact iff_of_true ⟨_, resolves_of_ok hok hthrows⟩ (.inr hstalls)
  rw [or_iff_left hstalls]
  obtain ⟨state, hpass, hrun⟩ := firstPass_run hreads _ le_rfl fun _ => hstalls
  have hafter := hpass.afterFirstPass hreads
  by_cases hlisted : DependenciesListed nodePropertiesArray
  · obtain ⟨fuel, hdrains⟩ := hafter.drains hreads hlisted (by rw [hpass.lastIndexLength]; omega)
    refine iff_of_false ?_ (not_not.mpr hlisted)
    rintro ⟨e, hthrows⟩
    cases hthrows.unique (resolves_of_ok hok ((hrun fuel).trans hdrains))
  · rw [iff_true_right hlisted]
    have hbad := exists_not_settled hreads hlisted
    rw [← hpass.indexToResolve_eq] at hbad
    obtain ⟨fuel, hthrows⟩ := hafter.throws hreads hbad
    exact ⟨_, resolves_of_ok hok ((hrun fuel).trans hthrows)⟩

/-- The loop ends for any properties. -/
theorem exists_resolves (nodePropertiesArray : List INodeProperties) :
    ∃ result, Resolves nodePropertiesArray result := by
  by_cases hthrows : ∃ e, Resolves nodePropertiesArray (.error e)
  · obtain ⟨e, hthrows⟩ := hthrows
    exact ⟨_, hthrows⟩
  · rw [throws_iff] at hthrows
    obtain ⟨hinherited, hrest⟩ := not_or.mp hthrows
    obtain ⟨hlisted, hstalls⟩ := not_or.mp hrest
    obtain ⟨dependencies, hok, hreads⟩ := exists_reads hinherited
    obtain ⟨state, hpass, hrun⟩ := firstPass_run hreads _ le_rfl fun _ => hstalls
    obtain ⟨fuel, hdrains⟩ := (hpass.afterFirstPass hreads).drains hreads (not_not.mp hlisted)
      (by rw [hpass.lastIndexLength]; omega)
    exact ⟨_, resolves_of_ok hok ((hrun fuel).trans hdrains)⟩

/-- Lists without cycles are ordered if they are in order before, and lists with a cycle are
refused if there is another reason to throw. -/
theorem resolvesDependencies_iff (nodePropertiesArray : List INodeProperties) :
    ResolvesDependencies nodePropertiesArray ↔
      (¬Cyclic nodePropertiesArray → DependenciesListed nodePropertiesArray →
        ¬ReadsInherited nodePropertiesArray ∧ InOrder nodePropertiesArray) ∧
      (Cyclic nodePropertiesArray → ReadsInherited nodePropertiesArray ∨
        ¬DependenciesListed nodePropertiesArray ∨ Stalls nodePropertiesArray) := by
  rw [← exists_isResolveOrder_iff, ← throws_iff]
  exact ⟨fun h => ⟨h.ordered, h.throws⟩, fun h => ⟨h.1, h.2⟩⟩

/-! ## Two properties that are not ordered -/

/-- A property that depends on the one after it. -/
def readsLater : List INodeProperties :=
  [{ name := "operation", displayOptions := some [["resource"]] }, { name := "resource" }]

theorem dependsOn_readsLater {name dependency : String} (h : DependsOn readsLater name dependency) :
    name = "operation" ∧ dependency = "resource" := by
  obtain ⟨property, hproperty, hkey⟩ := List.mem_flatMap.mp h.1
  obtain ⟨hmem, hname⟩ := List.mem_filter.mp hproperty
  have hkeys := (List.mem_filter.mp hkey).1
  rcases List.mem_pair.mp hmem with rfl | rfl
  · exact ⟨(of_decide_eq_true hname).symm, List.mem_singleton.mp hkeys⟩
  · exact absurd hkeys List.not_mem_nil

theorem not_cyclic_readsLater : ¬Cyclic readsLater := by
  rintro ⟨name, hcycle⟩
  have hends : ∀ last, Relation.TransGen (DependsOn readsLater) name last →
      name = "operation" ∧ last = "resource" := by
    intro last hpath
    induction hpath with
    | single hstep => exact dependsOn_readsLater hstep
    | tail _ hstep ih => exact ⟨ih.1, (dependsOn_readsLater hstep).2⟩
  obtain ⟨hfirst, hlast⟩ := hends name hcycle
  exact absurd (hfirst.symm.trans hlast) (by decide)

theorem not_resolvesDependencies_readsLater : ¬ResolvesDependencies readsLater := by
  intro h
  have hlisted : DependenciesListed readsLater := by
    intro name dependency hdepends
    rw [(dependsOn_readsLater hdepends).2]
    decide
  obtain ⟨order, hresolves, horder⟩ := h.ordered not_cyclic_readsLater hlisted
  have htwice : Resolves readsLater (.ok [⟨0, by decide⟩, ⟨1, by decide⟩, ⟨0, by decide⟩]) :=
    ⟨4, by decide⟩
  obtain rfl := Except.ok.inj (hresolves.unique htwice)
  exact absurd horder.perm.length_eq (by decide)

end N8n
