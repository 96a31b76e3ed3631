import N8n.Agents.ObservationLog
import N8n.Lib.Ancestors
import N8n.Lib.OrderedSet
import N8n.Lib.Run

/-!
# What a reflection removes

A reflection drops entries of the observation log and merges others into new ones.
`normalizeObservationLogReflection` makes a plan of it : each removal takes all descendants with it,
an entry is claimed by the first merge that removes it, and what a merge has claimed is not dropped.

Whatever the reflection names, the plan removes each entry at most once, leaves no entry whose parent
it removes, and removes nothing that was not named nor below something named
(`normalizeObservationLogReflection_isConsistent`). The searches along the links to the parents end
if these have no cycle.
-/

open Lib Relation

namespace N8n

/-- `parentId` may be missing, or null, or a string. -/
structure ObservationLogMerge where
  supersedes : List String
  marker : ObservationLogMarker := .info
  text : String := ""
  parentId : Option (Option String) := none
  tokenCount : Option ℚ := none
  createdAt : Option ℤ := none
  deriving DecidableEq, Repr

structure ObservationLogReflection where
  drop : List String
  merge : List ObservationLogMerge
  deriving DecidableEq, Repr

/-! ## Searches -/

/-- `none` if the calls are nested deeper than `fuel`. -/
def descendantIds (childrenByParent : OrderedMap String (List ObservationLogEntry)) :
    ℕ → String → Option (List String)
  | 0, _ => none
  | fuel + 1, id =>
    (((childrenByParent.get? id).getD []).mapM fun child =>
      (descendantIds childrenByParent fuel child.id).map (child.id :: ·)).map List.flatten

/-- `none` if the loop runs longer than `fuel`. -/
def hasAncestorIn (ids : OrderedSet String) (activeById : OrderedMap String ObservationLogEntry) :
    ℕ → String → Option Bool
  | 0, _ => none
  | fuel + 1, id =>
    match (activeById.get? id).bind (·.parent) with
    | none => some false
    | some parentId =>
      if parentId ∈ ids then some true else hasAncestorIn ids activeById fuel parentId

def isChildOnlyRemoval (fuel : ℕ) (id : String)
    (ownActionIds allSameKindActionIds otherRemovalIds : OrderedSet String)
    (activeById : OrderedMap String ObservationLogEntry) : Option Bool :=
  if (activeById.get? id).bind (·.parent) = none then some false
  else
    (hasAncestorIn ownActionIds activeById fuel id).bind fun inOwn =>
      if inOwn then some false
      else
        (hasAncestorIn allSameKindActionIds activeById fuel id).bind fun inSameKind =>
          if inSameKind then some true
          else (hasAncestorIn otherRemovalIds activeById fuel id).map (!·)

def normalizeReplacementParentId (parentId : Option (Option String))
    (activeById : OrderedMap String ObservationLogEntry) (removedIds : OrderedSet String) :
    Option (Option String) :=
  match parentId with
  | some (some parentId) =>
    if activeById.has parentId ∧ parentId ∉ removedIds then some (some parentId) else some none
  | parentId => parentId

/-! ## The plan -/

section Normalizing

variable (fuel : ℕ) (activeById : OrderedMap String ObservationLogEntry)
  (childrenByParent : OrderedMap String (List ObservationLogEntry))

/-- `[id, ...descendantIds(id, childrenByParent)]` -/
def withDescendants (id : String) : Option (List String) :=
  (descendantIds childrenByParent fuel id).map (id :: ·)

/-- The claimed identifiers, and the merges there are so far. -/
structure MergePlan where
  claimedMergeIds : OrderedSet String := ∅
  merge : List ObservationLogMerge := []

def normalizeMerge (dropSeeds allMergeSeeds : OrderedSet String) (plan : MergePlan)
    (entry : ObservationLogMerge) : Option MergePlan :=
  let seeds := entry.supersedes.filter activeById.has
  let ownSeeds := OrderedSet.ofList seeds
  (seeds.mapM fun id =>
      (isChildOnlyRemoval fuel id ownSeeds allMergeSeeds dropSeeds activeById).bind fun childOnly =>
        if childOnly then some [] else withDescendants fuel childrenByParent id).map fun removed =>
    let supersedes := (OrderedSet.ofList removed.flatten).elems.filter (· ∉ plan.claimedMergeIds)
    { claimedMergeIds := supersedes.foldl .add plan.claimedMergeIds
      merge := if supersedes = [] then plan.merge else plan.merge ++ [{ entry with supersedes }] }

def normalizeDrop (dropSeeds claimedMergeIds droppedIds : OrderedSet String) (id : String) :
    Option (OrderedSet String) :=
  if ¬activeById.has id ∨ id ∈ claimedMergeIds then some droppedIds
  else
    (hasAncestorIn dropSeeds activeById fuel id).bind fun inDrop =>
      if inDrop then some droppedIds
      else
        (isChildOnlyRemoval fuel id dropSeeds dropSeeds claimedMergeIds activeById).bind
          fun childOnly =>
            if childOnly then some droppedIds
            else
              (withDescendants fuel childrenByParent id).map fun candidates =>
                (candidates.filter (· ∉ claimedMergeIds)).foldl .add droppedIds

end Normalizing

def normalizeObservationLogReflection (fuel : ℕ) (activeObservationLog : List ObservationLogEntry)
    (reflection : ObservationLogReflection) : Option ObservationLogReflection :=
  let activeEntries := activeEntries activeObservationLog
  let activeById := entriesById activeEntries
  let childrenByParent := childrenByParent activeEntries
  let dropSeeds := OrderedSet.ofList (reflection.drop.filter activeById.has)
  let allMergeSeeds := OrderedSet.ofList
    ((reflection.merge.flatMap (·.supersedes)).filter activeById.has)
  (reflection.merge.foldlM (normalizeMerge fuel activeById childrenByParent dropSeeds allMergeSeeds)
      {}).bind fun plan =>
    (reflection.drop.foldlM
        (normalizeDrop fuel activeById childrenByParent dropSeeds plan.claimedMergeIds) ∅).map
      fun droppedIds =>
        let removedIds := OrderedSet.ofList (droppedIds.elems ++ plan.claimedMergeIds.elems)
        { drop := droppedIds.elems
          merge := plan.merge.map fun entry =>
            { entry with
              parentId := normalizeReplacementParentId entry.parentId activeById removedIds } }

/-! ## Consistency -/

/-- An active entry with the first identifier names the second as its parent. -/
def LinksTo (entries : List ObservationLogEntry) (id parentId : String) : Prop :=
  ∃ entry ∈ entries, entry.id = id ∧ entry.parent = some parentId

/-- The identifiers that are removed, by dropping first. -/
def ObservationLogReflection.removed (plan : ObservationLogReflection) : List String :=
  plan.drop ++ plan.merge.flatMap (·.supersedes)

/-- The identifiers that the reflection names. -/
def ObservationLogReflection.named (reflection : ObservationLogReflection) : List String :=
  reflection.drop ++ reflection.merge.flatMap (·.supersedes)

/-- The plan removes active entries, each once, with all below them and for a reason, and its
replacements hang under entries that survive. -/
structure IsConsistentPlan (entries : List ObservationLogEntry)
    (reflection plan : ObservationLogReflection) : Prop where
  nodup : plan.removed.Nodup
  active : ∀ id ∈ plan.removed, ∃ entry ∈ entries, entry.id = id
  closed : ∀ id parentId, LinksTo entries id parentId → parentId ∈ plan.removed → id ∈ plan.removed
  named : ∀ id ∈ plan.removed, ∃ seed ∈ reflection.named,
    ReflTransGen (LinksTo entries) id seed
  parents : ∀ entry ∈ plan.merge, ∀ parentId, entry.parentId = some (some parentId) →
    (∃ parent ∈ entries, parent.id = parentId) ∧ parentId ∉ plan.removed

/-! ## The searches end -/

variable {entries : List ObservationLogEntry} {fuel : ℕ} {id parentId : String}
  {ids own sameKind other : OrderedSet String} {found : List String} {named : List String}

theorem linksTo_of_parent
    (h : ((entriesById entries).get? id).bind (·.parent) = some parentId) :
    LinksTo entries id parentId := by
  obtain ⟨entry, hentry, hparent⟩ := Option.bind_eq_some_iff.mp h
  obtain ⟨hmem, hid⟩ := entriesById_get? hentry
  exact ⟨entry, hmem, hid, hparent⟩

theorem mem_children : (∃ child ∈ ((childrenByParent entries).get? parentId).getD [],
    child.id = id) ↔ LinksTo entries id parentId := by
  rw [childrenByParent_get?]
  refine exists_congr fun child => ?_
  rw [List.mem_filter, decide_eq_true_iff, and_assoc, and_comm (a := child.id = id)]

theorem parent_of_linksTo (entries : List ObservationLogEntry) (id parentId : String)
    (h : LinksTo entries id parentId) :
    parentId ∈ entries.filterMap (·.parent) := by
  obtain ⟨entry, hmem, -, hparent⟩ := h
  exact List.mem_filterMap.mpr ⟨entry, hmem, hparent⟩

theorem id_of_linksTo (entries : List ObservationLogEntry) (parentId id : String)
    (h : Function.swap (LinksTo entries) parentId id) :
    id ∈ entries.map (·.id) := by
  obtain ⟨entry, hmem, hid, -⟩ := h
  exact List.mem_map.mpr ⟨entry, hmem, hid⟩

theorem exists_hasAncestorIn_of_lt (hacyclic : ∀ id, ¬TransGen (LinksTo entries) id id)
    (ids : OrderedSet String) (h : (ancestors (LinksTo entries) id).ncard < fuel) :
    ∃ found, hasAncestorIn ids (entriesById entries) fuel id = some found := by
  induction fuel generalizing id with
  | zero => exact absurd h (Nat.not_lt_zero _)
  | succ fuel ih =>
    rw [hasAncestorIn]
    cases hparent : ((entriesById entries).get? id).bind (·.parent) with
    | none => exact ⟨false, rfl⟩
    | some parentId =>
      dsimp only
      split
      · exact ⟨true, rfl⟩
      · have hlt := ncard_ancestors_lt hacyclic (parent_of_linksTo entries) (linksTo_of_parent hparent)
        exact ih (by omega)

theorem exists_descendantIds_of_lt (hacyclic : ∀ id, ¬TransGen (LinksTo entries) id id)
    (h : (ancestors (Function.swap (LinksTo entries)) id).ncard < fuel) :
    ∃ found, descendantIds (childrenByParent entries) fuel id = some found := by
  have hacyclic' : ∀ id, ¬TransGen (Function.swap (LinksTo entries)) id id :=
    fun id hcycle => hacyclic id (transGen_swap.mp hcycle)
  induction fuel generalizing id with
  | zero => exact absurd h (Nat.not_lt_zero _)
  | succ fuel ih =>
    have hcalls : ∀ child ∈ ((childrenByParent entries).get? id).getD [], ∃ list,
        (descendantIds (childrenByParent entries) fuel child.id).map (child.id :: ·) = some list := by
      intro child hchild
      have hlink : LinksTo entries child.id id := mem_children.mp ⟨child, hchild, rfl⟩
      have hlt := ncard_ancestors_lt hacyclic' (id_of_linksTo entries) hlink
      obtain ⟨found, hfound⟩ := ih (hlt.trans_le (Nat.le_of_lt_succ h))
      exact ⟨child.id :: found, by rw [hfound, Option.map_some]⟩
    obtain ⟨lists, hlists⟩ := exists_mapM_eq_some hcalls
    exact ⟨lists.flatten, by rw [descendantIds, hlists, Option.map_some]⟩

theorem exists_hasAncestorIn (hacyclic : ∀ id, ¬TransGen (LinksTo entries) id id)
    (hfuel : entries.length < fuel) (ids : OrderedSet String) (id : String) :
    ∃ found, hasAncestorIn ids (entriesById entries) fuel id = some found := by
  have hle := ncard_ancestors_le (parent_of_linksTo entries) id
  have hlength := List.length_filterMap_le (·.parent) entries
  exact exists_hasAncestorIn_of_lt hacyclic ids (by omega)

theorem exists_descendantIds (hacyclic : ∀ id, ¬TransGen (LinksTo entries) id id)
    (hfuel : entries.length < fuel) (id : String) :
    ∃ found, descendantIds (childrenByParent entries) fuel id = some found := by
  have hle := ncard_ancestors_le (id_of_linksTo entries) id
  rw [List.length_map] at hle
  exact exists_descendantIds_of_lt hacyclic (by omega)

theorem exists_isChildOnlyRemoval (hacyclic : ∀ id, ¬TransGen (LinksTo entries) id id)
    (hfuel : entries.length < fuel) (id : String) (own sameKind other : OrderedSet String) :
    ∃ childOnly, isChildOnlyRemoval fuel id own sameKind other (entriesById entries) =
      some childOnly := by
  obtain ⟨inOwn, hown⟩ := exists_hasAncestorIn hacyclic hfuel own id
  obtain ⟨inSameKind, hsameKind⟩ := exists_hasAncestorIn hacyclic hfuel sameKind id
  obtain ⟨inOther, hother⟩ := exists_hasAncestorIn hacyclic hfuel other id
  rw [isChildOnlyRemoval]
  split
  · exact ⟨false, rfl⟩
  · rw [hown, Option.bind_some]
    split
    · exact ⟨false, rfl⟩
    · rw [hsameKind, Option.bind_some]
      split
      · exact ⟨true, rfl⟩
      · exact ⟨!inOther, by rw [hother, Option.map_some]⟩

theorem mem_descendantIds (h : descendantIds (childrenByParent entries) fuel id = some found)
    (x : String) : x ∈ found ↔ TransGen (LinksTo entries) x id := by
  induction fuel generalizing id found x with
  | zero => cases h
  | succ fuel ih =>
    rw [descendantIds] at h
    obtain ⟨lists, hlists, rfl⟩ := Option.map_eq_some_iff.mp h
    have hall := mapM_eq_some.mp hlists
    rw [List.mem_flatten]
    constructor
    · rintro ⟨list, hlist, hx⟩
      obtain ⟨child, hchild, hlist⟩ := exists_of_forall₂_right hall hlist
      have hlink : LinksTo entries child.id id := mem_children.mp ⟨child, hchild, rfl⟩
      obtain ⟨below, hbelow, rfl⟩ := Option.map_eq_some_iff.mp hlist
      rcases List.mem_cons.mp hx with rfl | hx
      · exact .single hlink
      · exact .tail ((ih hbelow x).mp hx) hlink
    · intro hbelow
      obtain ⟨c, hxc, hlink⟩ := TransGen.tail'_iff.mp hbelow
      obtain ⟨child, hchild, rfl⟩ := mem_children.mpr hlink
      obtain ⟨list, hlist, hmap⟩ := exists_of_forall₂_right hall.flip hchild
      obtain ⟨below, hchildBelow, rfl⟩ := Option.map_eq_some_iff.mp hmap
      refine ⟨_, hlist, List.mem_cons.mpr ?_⟩
      rcases reflTransGen_iff_eq_or_transGen.mp hxc with heq | htrans
      · exact .inl heq.symm
      · exact .inr ((ih hchildBelow x).mpr htrans)

theorem mem_withDescendants (h : withDescendants fuel (childrenByParent entries) id = some found)
    (x : String) : x ∈ found ↔ ReflTransGen (LinksTo entries) x id := by
  obtain ⟨below, hbelow, rfl⟩ := Option.map_eq_some_iff.mp h
  rw [List.mem_cons, mem_descendantIds hbelow, reflTransGen_iff_eq_or_transGen, eq_comm]

theorem exists_withDescendants (hacyclic : ∀ id, ¬TransGen (LinksTo entries) id id)
    (hfuel : entries.length < fuel) (id : String) :
    ∃ found, withDescendants fuel (childrenByParent entries) id = some found := by
  obtain ⟨below, hbelow⟩ := exists_descendantIds hacyclic hfuel id
  exact ⟨id :: below, by rw [withDescendants, hbelow, Option.map_some]⟩

/-! ## What is removed -/

/-- A set of active entries with all below them, each named or below one that is. -/
structure IsRemoval (entries : List ObservationLogEntry) (named : List String)
    (removed : String → Prop) : Prop where
  active : ∀ id, removed id → ∃ entry ∈ entries, entry.id = id
  closed : ∀ id parentId, LinksTo entries id parentId → removed parentId → removed id
  named : ∀ id, removed id → ∃ seed ∈ named, ReflTransGen (LinksTo entries) id seed

variable {removed removed' : String → Prop}

theorem IsRemoval.congr (h : IsRemoval entries named removed) (hiff : ∀ id, removed' id ↔ removed id) :
    IsRemoval entries named removed' := by
  obtain rfl : removed' = removed := funext fun id => propext (hiff id)
  exact h

theorem isRemoval_empty : IsRemoval entries named fun _ => False := ⟨nofun, fun _ _ _ h => h, nofun⟩

theorem IsRemoval.or (h : IsRemoval entries named removed) (h' : IsRemoval entries named removed') :
    IsRemoval entries named fun id => removed id ∨ removed' id :=
  ⟨fun id hid => hid.elim (h.active id) (h'.active id),
    fun id parentId hlink hid => hid.imp (h.closed id parentId hlink) (h'.closed id parentId hlink),
    fun id hid => hid.elim (h.named id) (h'.named id)⟩

/-- Whole subtrees are removed. -/
theorem isRemoval_below {seeds : List String} (hnamed : ∀ seed ∈ seeds, seed ∈ named)
    (hactive : ∀ seed ∈ seeds, seed ∈ (entriesById entries).keys) :
    IsRemoval entries named fun id => ∃ seed ∈ seeds, ReflTransGen (LinksTo entries) id seed := by
  refine ⟨?_, ?_, ?_⟩
  · rintro id ⟨seed, hseed, hbelow⟩
    rcases hbelow.cases_head with rfl | ⟨parentId, ⟨entry, hmem, hid, -⟩, -⟩
    · exact mem_keys_entriesById.mp (hactive id hseed)
    · exact ⟨entry, hmem, hid⟩
  · rintro id parentId hlink ⟨seed, hseed, hbelow⟩
    exact ⟨seed, hseed, .head hlink hbelow⟩
  · rintro id ⟨seed, hseed, hbelow⟩
    exact ⟨seed, hnamed seed hseed, hbelow⟩

/-- What the merges have claimed so far. -/
structure MergePlan.Claims (entries : List ObservationLogEntry) (named : List String)
    (plan : MergePlan) : Prop where
  nodup : (plan.merge.flatMap (·.supersedes)).Nodup
  mem : ∀ id, id ∈ plan.claimedMergeIds ↔ id ∈ plan.merge.flatMap (·.supersedes)
  removal : IsRemoval entries named (· ∈ plan.claimedMergeIds)

/-- A seed brings what is below it, unless it is skipped. -/
theorem mem_of_unless_childOnly {childOnly : Option Bool}
    (h : (childOnly.bind fun childOnly =>
      if childOnly then some [] else withDescendants fuel (childrenByParent entries) id) = some found)
    (x : String) : x ∈ found ↔ childOnly = some false ∧ ReflTransGen (LinksTo entries) x id := by
  obtain ⟨skipped, rfl, h⟩ := Option.bind_eq_some_iff.mp h
  cases skipped with
  | true =>
    obtain rfl := Option.some.inj h
    simp
  | false => rw [mem_withDescendants h, and_iff_right rfl]

theorem MergePlan.Claims.normalizeMerge {plan plan' : MergePlan} {entry : ObservationLogMerge}
    {dropSeeds allMergeSeeds : OrderedSet String} (h : plan.Claims entries named)
    (hnamed : ∀ id ∈ entry.supersedes, id ∈ named)
    (hplan : normalizeMerge fuel (entriesById entries) (childrenByParent entries) dropSeeds
      allMergeSeeds plan entry = some plan') : plan'.Claims entries named := by
  obtain ⟨lists, hlists, rfl⟩ := Option.map_eq_some_iff.mp hplan
  have hall := mapM_eq_some.mp hlists
  -- the seeds that are not skipped
  let kept := (entry.supersedes.filter (entriesById entries).has).filter fun id =>
    isChildOnlyRemoval fuel id
      (OrderedSet.ofList (entry.supersedes.filter (entriesById entries).has)) allMergeSeeds
      dropSeeds (entriesById entries) = some false
  have hkept : ∀ id ∈ kept, id ∈ entry.supersedes ∧ id ∈ (entriesById entries).keys := by
    intro id hid
    obtain ⟨hmem, hhas⟩ := List.mem_filter.mp (List.mem_of_mem_filter hid)
    exact ⟨hmem, OrderedMap.has_iff.mp hhas⟩
  have hflatten : ∀ x, x ∈ lists.flatten ↔
      ∃ seed ∈ kept, ReflTransGen (LinksTo entries) x seed := by
    intro x
    rw [List.mem_flatten]
    constructor
    · rintro ⟨list, hlist, hx⟩
      obtain ⟨seed, hseed, hfound⟩ := exists_of_forall₂_right hall hlist
      obtain ⟨hskip, hbelow⟩ := (mem_of_unless_childOnly hfound x).mp hx
      exact ⟨seed, List.mem_filter.mpr ⟨hseed, decide_eq_true hskip⟩, hbelow⟩
    · rintro ⟨seed, hseed, hbelow⟩
      obtain ⟨hmem, hskip⟩ := List.mem_filter.mp hseed
      obtain ⟨list, hlist, hfound⟩ := exists_of_forall₂_right hall.flip hmem
      exact ⟨list, hlist, (mem_of_unless_childOnly hfound x).mpr ⟨of_decide_eq_true hskip, hbelow⟩⟩
  have hremoval := isRemoval_below (fun seed hseed => hnamed seed (hkept seed hseed).1)
    fun seed hseed => (hkept seed hseed).2
  let supersedes := (OrderedSet.ofList lists.flatten).elems.filter (· ∉ plan.claimedMergeIds)
  have hsupersedes : ∀ x, x ∈ supersedes ↔ x ∈ lists.flatten ∧ x ∉ plan.claimedMergeIds := by
    intro x
    rw [List.mem_filter, decide_eq_true_iff, ← OrderedSet.mem_def, OrderedSet.mem_ofList]
  have hflatMap : ∀ merge : List ObservationLogMerge,
      (if supersedes = [] then merge else merge ++ [{ entry with supersedes }]).flatMap
        (·.supersedes) = merge.flatMap (·.supersedes) ++ supersedes := by
    intro merge
    split
    · rename_i hempty
      rw [hempty, List.append_nil]
    · rw [List.flatMap_append, List.flatMap_singleton]
  refine ⟨?_, fun x => ?_, (h.removal.or hremoval).congr fun x => ?_⟩
  · rw [hflatMap]
    refine h.nodup.append ((OrderedSet.ofList lists.flatten).nodup.filter _) fun x hx hx' => ?_
    exact ((hsupersedes x).mp hx').2 ((h.mem x).mpr hx)
  · rw [hflatMap, OrderedSet.mem_foldl_add, List.mem_append, h.mem]
  · rw [OrderedSet.mem_foldl_add, hsupersedes, hflatten]
    by_cases hclaimed : x ∈ plan.claimedMergeIds
    · exact iff_of_true (.inl hclaimed) (.inl hclaimed)
    · rw [and_iff_left hclaimed]

theorem foldlM_normalizeMerge {merges : List ObservationLogMerge}
    {dropSeeds allMergeSeeds : OrderedSet String} {plan : MergePlan}
    (hnamed : ∀ entry ∈ merges, ∀ id ∈ entry.supersedes, id ∈ named)
    (hplan : merges.foldlM (normalizeMerge fuel (entriesById entries) (childrenByParent entries)
      dropSeeds allMergeSeeds) {} = some plan) : plan.Claims entries named :=
  foldlM_invariant_of_some (I := fun plan => plan.Claims entries named)
    (fun _ entry hentry _ h hstep => h.normalizeMerge (hnamed entry hentry) hstep)
    ⟨List.nodup_nil, fun id => by simp,
      isRemoval_empty.congr fun id => iff_of_false (OrderedSet.not_mem_empty id) not_false⟩ hplan

theorem normalizeDrop_spec {dropSeeds claimedMergeIds droppedIds droppedIds' : OrderedSet String}
    (h : IsRemoval entries named fun id => id ∈ droppedIds ∨ id ∈ claimedMergeIds)
    (hdisjoint : ∀ id ∈ droppedIds, id ∉ claimedMergeIds) (hnamed : id ∈ named)
    (hstep : normalizeDrop fuel (entriesById entries) (childrenByParent entries) dropSeeds
      claimedMergeIds droppedIds id = some droppedIds') :
    (IsRemoval entries named fun id => id ∈ droppedIds' ∨ id ∈ claimedMergeIds) ∧
      ∀ id ∈ droppedIds', id ∉ claimedMergeIds := by
  rw [normalizeDrop] at hstep
  split at hstep
  · obtain rfl := Option.some.inj hstep
    exact ⟨h, hdisjoint⟩
  rename_i hactive
  obtain ⟨inDrop, -, hstep⟩ := Option.bind_eq_some_iff.mp hstep
  split at hstep
  · obtain rfl := Option.some.inj hstep
    exact ⟨h, hdisjoint⟩
  obtain ⟨childOnly, -, hstep⟩ := Option.bind_eq_some_iff.mp hstep
  split at hstep
  · obtain rfl := Option.some.inj hstep
    exact ⟨h, hdisjoint⟩
  obtain ⟨candidates, hcandidates, rfl⟩ := Option.map_eq_some_iff.mp hstep
  have hkey : id ∈ (entriesById entries).keys := by
    by_contra hmissing
    exact hactive (.inl fun hhas => hmissing (OrderedMap.has_iff.mp hhas))
  have hbelow : IsRemoval entries named fun x =>
      ∃ seed ∈ [id], ReflTransGen (LinksTo entries) x seed :=
    isRemoval_below (by simpa using hnamed) (by simpa using hkey)
  have hmem : ∀ x, x ∈ (candidates.filter (· ∉ claimedMergeIds)).foldl .add droppedIds ↔
      x ∈ droppedIds ∨ ReflTransGen (LinksTo entries) x id ∧ x ∉ claimedMergeIds := by
    intro x
    rw [OrderedSet.mem_foldl_add, List.mem_filter, mem_withDescendants hcandidates,
      decide_eq_true_iff]
  refine ⟨(h.or hbelow).congr fun x => ?_, fun x hx => ?_⟩
  · rw [hmem]
    simp only [List.mem_singleton, exists_eq_left]
    tauto
  · rcases (hmem x).mp hx with hx | hx
    · exact hdisjoint x hx
    · exact hx.2

/-! ## The whole plan -/

theorem exists_normalizeMerge (hacyclic : ∀ id, ¬TransGen (LinksTo entries) id id)
    (hfuel : entries.length < fuel) (dropSeeds allMergeSeeds : OrderedSet String) (plan : MergePlan)
    (entry : ObservationLogMerge) :
    ∃ plan', normalizeMerge fuel (entriesById entries) (childrenByParent entries) dropSeeds
      allMergeSeeds plan entry = some plan' := by
  have hcalls : ∀ id ∈ entry.supersedes.filter (entriesById entries).has, ∃ list,
      ((isChildOnlyRemoval fuel id
        (OrderedSet.ofList (entry.supersedes.filter (entriesById entries).has)) allMergeSeeds
        dropSeeds (entriesById entries)).bind fun childOnly =>
          if childOnly then some [] else withDescendants fuel (childrenByParent entries) id) =
        some list := by
    intro id _
    obtain ⟨childOnly, hchildOnly⟩ := exists_isChildOnlyRemoval hacyclic hfuel id
      (OrderedSet.ofList (entry.supersedes.filter (entriesById entries).has)) allMergeSeeds dropSeeds
    obtain ⟨found, hfound⟩ := exists_withDescendants hacyclic hfuel id
    rw [hchildOnly, Option.bind_some]
    split
    · exact ⟨[], rfl⟩
    · exact ⟨found, hfound⟩
  obtain ⟨lists, hlists⟩ := exists_mapM_eq_some hcalls
  exact ⟨_, by rw [normalizeMerge]; dsimp only; rw [hlists, Option.map_some]⟩

theorem exists_normalizeDrop (hacyclic : ∀ id, ¬TransGen (LinksTo entries) id id)
    (hfuel : entries.length < fuel) (dropSeeds claimedMergeIds droppedIds : OrderedSet String)
    (id : String) :
    ∃ droppedIds', normalizeDrop fuel (entriesById entries) (childrenByParent entries) dropSeeds
      claimedMergeIds droppedIds id = some droppedIds' := by
  obtain ⟨inDrop, hinDrop⟩ := exists_hasAncestorIn hacyclic hfuel dropSeeds id
  obtain ⟨childOnly, hchildOnly⟩ := exists_isChildOnlyRemoval hacyclic hfuel id dropSeeds dropSeeds
    claimedMergeIds
  obtain ⟨found, hfound⟩ := exists_withDescendants hacyclic hfuel id
  rw [normalizeDrop, hinDrop, Option.bind_some, hchildOnly, Option.bind_some, hfound, Option.map_some]
  split
  · exact ⟨droppedIds, rfl⟩
  split
  · exact ⟨droppedIds, rfl⟩
  split
  · exact ⟨droppedIds, rfl⟩
  · exact ⟨_, rfl⟩

theorem foldlM_normalizeDrop {reflection : ObservationLogReflection} {plan : MergePlan}
    {dropSeeds droppedIds : OrderedSet String} (hplan : plan.Claims entries reflection.named)
    (hdrop : reflection.drop.foldlM (normalizeDrop fuel (entriesById entries)
      (childrenByParent entries) dropSeeds plan.claimedMergeIds) ∅ = some droppedIds) :
    (IsRemoval entries reflection.named fun id => id ∈ droppedIds ∨ id ∈ plan.claimedMergeIds) ∧
      ∀ id ∈ droppedIds, id ∉ plan.claimedMergeIds := by
  refine foldlM_invariant_of_some
    (I := fun droppedIds : OrderedSet String =>
      (IsRemoval entries reflection.named fun id =>
        id ∈ droppedIds ∨ id ∈ plan.claimedMergeIds) ∧
          ∀ id ∈ droppedIds, id ∉ plan.claimedMergeIds)
    (fun _ id hid _ h hstep => ?_) ⟨?_, fun id hid => absurd hid (OrderedSet.not_mem_empty id)⟩ hdrop
  · exact normalizeDrop_spec h.1 h.2 (List.mem_append_left _ hid) hstep
  · exact hplan.removal.congr fun id => or_iff_right (OrderedSet.not_mem_empty id)

theorem normalizeReplacementParentId_spec {parentId : Option (Option String)} {p : String}
    {activeById : OrderedMap String ObservationLogEntry} {removedIds : OrderedSet String}
    (h : normalizeReplacementParentId parentId activeById removedIds = some (some p)) :
    p ∈ activeById.keys ∧ p ∉ removedIds := by
  rcases parentId with _ | _ | parentId
  · cases h
  · cases h
  · rw [normalizeReplacementParentId] at h
    split at h
    · rename_i hand
      obtain rfl := Option.some.inj (Option.some.inj h)
      exact ⟨OrderedMap.has_iff.mp hand.1, hand.2⟩
    · cases h

/-- The plan of every reflection of a log without cycles is consistent, and there is one. -/
theorem normalizeObservationLogReflection_isConsistent
    (activeObservationLog : List ObservationLogEntry) (reflection : ObservationLogReflection)
    (hacyclic : ∀ id, ¬TransGen (LinksTo (activeEntries activeObservationLog)) id id) {fuel : ℕ}
    (hfuel : activeObservationLog.length < fuel) :
    ∃ plan, normalizeObservationLogReflection fuel activeObservationLog reflection = some plan ∧
      IsConsistentPlan (activeEntries activeObservationLog) reflection plan := by
  have hlength : (activeEntries activeObservationLog).length < fuel :=
    (List.length_filter_le _ _).trans_lt hfuel
  rw [normalizeObservationLogReflection]
  generalize activeEntries activeObservationLog = entries at hacyclic hlength ⊢
  dsimp only
  generalize OrderedSet.ofList (reflection.drop.filter (entriesById entries).has) = dropSeeds
  generalize OrderedSet.ofList ((reflection.merge.flatMap (·.supersedes)).filter
    (entriesById entries).has) = allMergeSeeds
  obtain ⟨plan, hplan⟩ := exists_foldlM_eq_some
    (fun plan entry (_ : entry ∈ reflection.merge) =>
      exists_normalizeMerge hacyclic hlength dropSeeds allMergeSeeds plan entry) {}
  obtain ⟨droppedIds, hdrop⟩ := exists_foldlM_eq_some
    (fun droppedIds id (_ : id ∈ reflection.drop) =>
      exists_normalizeDrop hacyclic hlength dropSeeds plan.claimedMergeIds droppedIds id) ∅
  have hclaims : plan.Claims entries reflection.named := foldlM_normalizeMerge
    (fun entry hentry id hid =>
      List.mem_append_right _ (List.mem_flatMap.mpr ⟨entry, hentry, hid⟩)) hplan
  obtain ⟨hremoval, hdisjoint⟩ := foldlM_normalizeDrop hclaims hdrop
  rw [hplan, Option.bind_some, hdrop, Option.map_some]
  refine ⟨_, rfl, ?_⟩
  have hremoved : ∀ id, id ∈ droppedIds.elems ++ plan.merge.flatMap (·.supersedes) ↔
      id ∈ droppedIds ∨ id ∈ plan.claimedMergeIds := by
    intro id
    rw [List.mem_append, ← hclaims.mem]
    rfl
  have hplanned := hremoval.congr hremoved
  have hflatMap : ∀ f : ObservationLogMerge → Option (Option String),
      (plan.merge.map fun entry => { entry with parentId := f entry }).flatMap (·.supersedes) =
        plan.merge.flatMap (·.supersedes) := fun f => by
    rw [List.flatMap_map]
  refine ⟨?_, ?_, ?_, ?_, ?_⟩
  all_goals rw [ObservationLogReflection.removed]; dsimp only; rw [hflatMap]
  · refine droppedIds.nodup.append hclaims.nodup fun id hid hid' => ?_
    exact hdisjoint id (OrderedSet.mem_def.mpr hid) ((hclaims.mem id).mpr hid')
  · exact hplanned.active
  · exact hplanned.closed
  · exact hplanned.named
  · intro merge hmerge parentId hparentId
    obtain ⟨entry, -, rfl⟩ := List.mem_map.mp hmerge
    obtain ⟨hkey, hnew⟩ := normalizeReplacementParentId_spec hparentId
    refine ⟨mem_keys_entriesById.mp hkey, fun hid => hnew (OrderedSet.mem_ofList.mpr ?_)⟩
    exact List.mem_append.mpr ((hremoved parentId).mp hid)

/-- An entry with a child and a grandchild. -/
def chainLog : List ObservationLogEntry :=
  [{ id := "trip" }, { id := "hotel", parentId := some "trip" },
    { id := "room", parentId := some "hotel" }]

def chainReflection : ObservationLogReflection where
  drop := ["hotel", "trip"]
  merge := [{ supersedes := ["room", "trip"], parentId := some (some "trip") }]

/-- Parents that stand before their children in some list make no cycle. -/
theorem not_transGen_of_idxOf_lt (order : List String)
    (h : ∀ entry ∈ entries, ∀ parentId ∈ entry.parent, order.idxOf parentId < order.idxOf entry.id)
    (id : String) : ¬TransGen (LinksTo entries) id id := by
  refine not_transGen_self_of_lt order.idxOf ?_ id
  rintro id parentId ⟨entry, hentry, rfl, hparent⟩
  exact h entry hentry parentId hparent

theorem normalizeObservationLogReflection_isConsistent_chainLog :
    ∃ plan, normalizeObservationLogReflection 4 chainLog chainReflection = some plan ∧
      IsConsistentPlan (activeEntries chainLog) chainReflection plan :=
  normalizeObservationLogReflection_isConsistent chainLog chainReflection
    (not_transGen_of_idxOf_lt ["trip", "hotel", "room"] (by decide)) (by decide)

end N8n
