import Mathlib.Algebra.Order.Ring.Rat
import Mathlib.Data.Rat.Floor
import N8n.Agents.ReflectionPlan
import N8n.Lib.Subsequence

/-!
# Rendering the observation log

Both renderers of the log list its roots in order, each followed by its children, as bullets of two
levels. So an entry under a child is in neither, and with a token budget an entry whose parent was
not selected is left out too (`not_rendersEach_nestedLog`).

The entries that hang under exactly one root are all rendered, once, below their parent and before
the next root. What the budget selects stays within it, and a selected entry is rendered if it is a
root or its parent is a selected root (`renders_placed`).
-/

open Lib Relation

namespace N8n

def MARKER_LABELS : ObservationLogMarker → String
  | .critical => "CRITICAL"
  | .important => "IMPORTANT"
  | .info => "INFO"
  | .completion => "COMPLETION"

def MEMORY_INTRO : String :=
  "The following is your memory of this conversation. It accumulates as observations are made. Older entries may have been merged or dropped during periodic restructuring."

def MARKER_LEGEND : String :=
  "Marker legend: CRITICAL = must retain, IMPORTANT = useful continuity, INFO = contextual detail, COMPLETION = completed/resolved."

def estimateObservationTokens (text : String) : ℚ := ⌈((codeUnits text).length / 4 : ℚ)⌉

def observationTokenCount (tokenCounter : String → ℚ) (entry : ObservationLogEntry) : ℚ :=
  match entry.tokenCount with
  | some tokenCount => if 0 < tokenCount then tokenCount else tokenCounter entry.text
  | none => tokenCounter entry.text

/-! ## Bullets -/

/-- The entries in the order they are rendered, with their indentation. -/
def bullets (roots : List ObservationLogEntry)
    (childrenByParent : OrderedMap String (List ObservationLogEntry)) :
    List (ObservationLogEntry × String) :=
  roots.flatMap fun root =>
    (root, "") :: ((childrenByParent.get? root.id).getD []).map fun child => (child, "  ")

section Reflector

variable (localeCompare : String → String → ℤ) (toISOString : ℤ → String)

def renderReflectionBullet (entry : ObservationLogEntry) (indent : String) : String :=
  indent ++ "* [" ++ entry.id ++ "] " ++ MARKER_LABELS entry.marker ++ " " ++
    toISOString entry.createdAt ++ " " ++ entry.text

/-- An entry whose parent is not active is rendered as a root. -/
def reflectionBullets (entries : List ObservationLogEntry) : List (ObservationLogEntry × String) :=
  let activeEntries := sortedActiveEntries localeCompare entries
  let activeIds := OrderedSet.ofList (activeEntries.map (·.id))
  let isChild (entry : ObservationLogEntry) : Bool := entry.parent.any (· ∈ activeIds)
  bullets (activeEntries.filter (!isChild ·)) (childrenByParent (activeEntries.filter isChild))

def renderObservationLogForReflection (entries : List ObservationLogEntry) : String :=
  "\n".intercalate ((reflectionBullets localeCompare entries).map fun bullet =>
    renderReflectionBullet toISOString bullet.1 bullet.2)

end Reflector

/-- The entries that fit into what the ones before have left of the budget. No budget is `none`. -/
def selectEntries (tokenCounter : String → ℚ) :
    Option ℚ → List ObservationLogEntry → List ObservationLogEntry
  | _, [] => []
  | remainingTokens, entry :: entries =>
    let tokenCount := observationTokenCount tokenCounter entry
    if remainingTokens.any (· < tokenCount) then selectEntries tokenCounter remainingTokens entries
    else entry :: selectEntries tokenCounter (remainingTokens.map (· - tokenCount)) entries

section Renderer

variable (localeCompare : String → String → ℤ) (getHours getMinutes : ℤ → ℕ)

def formatObservationTime (date : ℤ) : String :=
  let padStart (n : ℕ) : String := if n < 10 then "0" ++ toString n else toString n
  padStart (getHours date) ++ ":" ++ padStart (getMinutes date)

def renderBullet (entry : ObservationLogEntry) (indent : String) : String :=
  indent ++ "* " ++ MARKER_LABELS entry.marker ++ " (" ++
    formatObservationTime getHours getMinutes entry.createdAt ++ ") " ++ entry.text

/-- The roots and the children among the entries that are included. A child whose parent is not is
left out. -/
def observationRoots (activeEntries : List ObservationLogEntry) (included : OrderedSet String) :
    List ObservationLogEntry :=
  activeEntries.filter fun entry => entry.id ∈ included ∧ entry.parent = none

def observationBullets (activeEntries : List ObservationLogEntry) (included : OrderedSet String) :
    List (ObservationLogEntry × String) :=
  bullets (observationRoots activeEntries included)
    (childrenByParent (activeEntries.filter fun entry =>
      entry.id ∈ included ∧ entry.parent.any (· ∈ included)))

def includedIds (tokenCounter : String → ℚ) (renderTokenBudget : Option ℚ)
    (activeEntries : List ObservationLogEntry) : OrderedSet String :=
  OrderedSet.ofList ((selectEntries tokenCounter renderTokenBudget activeEntries).map (·.id))

def renderObservationLog (tokenCounter : String → ℚ) (renderTokenBudget : Option ℚ)
    (entries : List ObservationLogEntry) : Option String :=
  let activeEntries := sortedActiveEntries localeCompare entries
  let included := includedIds tokenCounter renderTokenBudget activeEntries
  if included.size = 0 then none
  else if observationRoots activeEntries included = [] then none
  else
    some ("\n".intercalate (["<observations>", MEMORY_INTRO, MARKER_LEGEND, ""] ++
      (observationBullets activeEntries included).map (fun bullet =>
        renderBullet getHours getMinutes bullet.1 bullet.2) ++ ["</observations>"]))

end Renderer

/-! ## Lists of two levels -/

/-- The roots, each followed by what hangs under it. -/
def twoLevels (entries : List ObservationLogEntry) : List ObservationLogEntry :=
  (entries.filter (·.parent = none)).flatMap fun root =>
    root :: entries.filter (·.parent = some root.id)

/-- The entry is a root, or hangs under exactly one. -/
def IsPlaced (entries : List ObservationLogEntry) (entry : ObservationLogEntry) : Prop :=
  ∀ parentId, entry.parent = some parentId →
    (entries.filter (·.parent = none)).countP (·.id = parentId) = 1

/-- The entry comes below its parent, which is a root, and before the next root. -/
def ComesBelow (lines : List ObservationLogEntry) (entry : ObservationLogEntry) : Prop :=
  ∀ parentId, entry.parent = some parentId → ∀ before after, lines = before ++ entry :: after →
    ∃ earlier root between, before = earlier ++ root :: between ∧ root.id = parentId ∧
      root.parent = none ∧ ∀ other ∈ between, other.parent ≠ none

variable {entries roots : List ObservationLogEntry} {entry root : ObservationLogEntry}
  {parentId : String}

theorem count_blocks (hroots : ∀ root ∈ roots, root.parent = none) (hparent : entry.parent = some parentId) :
    (roots.flatMap fun root => root :: entries.filter (·.parent = some root.id)).count entry =
      roots.countP (·.id = parentId) * entries.count entry := by
  induction roots with
  | nil => rw [List.flatMap_nil, List.count_nil, List.countP_nil, Nat.zero_mul]
  | cons root roots ih =>
    rw [List.forall_mem_cons] at hroots
    have hne : root ≠ entry := by
      rintro rfl
      rw [hroots.1] at hparent
      cases hparent
    rw [List.flatMap_cons, List.count_append, List.count_cons_of_ne hne, ih hroots.2,
      List.countP_cons, Nat.add_mul, Nat.add_comm]
    congr 1
    by_cases hid : root.id = parentId
    · rw [if_pos (decide_eq_true hid), Nat.one_mul]
      exact List.count_filter (by simp [hparent, hid])
    · rw [if_neg (by simpa using hid), Nat.zero_mul, List.count_eq_zero]
      intro hmem
      have hother := (List.mem_filter.mp hmem).2
      rw [hparent, decide_eq_true_iff] at hother
      exact hid (Option.some.inj hother).symm

theorem count_blocks_of_root (hparent : entry.parent = none) :
    (roots.flatMap fun root => root :: entries.filter (·.parent = some root.id)).count entry =
      roots.count entry := by
  induction roots with
  | nil => rfl
  | cons root roots ih =>
    have hnot : entry ∉ entries.filter (·.parent = some root.id) := by
      simp [hparent]
    rw [List.flatMap_cons, List.count_append, ih, List.count_cons, List.count_cons,
      List.count_eq_zero_of_not_mem hnot]
    omega

/-- A placed entry is listed as often as it is there. -/
theorem IsPlaced.count_twoLevels (h : IsPlaced entries entry) :
    (twoLevels entries).count entry = entries.count entry := by
  cases hparent : entry.parent with
  | none => rw [twoLevels, count_blocks_of_root hparent, List.count_filter (by simp [hparent])]
  | some parentId =>
    rw [twoLevels, count_blocks (fun root hroot => by simpa using (List.mem_filter.mp hroot).2)
      hparent, h parentId hparent, Nat.one_mul]

theorem comesBelow_blocks (hroots : ∀ root ∈ roots, root.parent = none) (entry : ObservationLogEntry) :
    ComesBelow (roots.flatMap fun root => root :: entries.filter (·.parent = some root.id)) entry := by
  intro parentId hparent
  induction roots with
  | nil => exact fun before after hsplit => absurd hsplit (by simp)
  | cons root roots ih =>
    rw [List.forall_mem_cons] at hroots
    intro before after hsplit
    rw [List.flatMap_cons] at hsplit
    rcases List.append_eq_append_iff.mp hsplit with ⟨gap, rfl, hrest⟩ | ⟨gap, hblock, hrest⟩
    · obtain ⟨earlier, root', between, rfl, hid, hroot, hbetween⟩ := ih hroots.2 gap after hrest
      exact ⟨_, root', between, (List.append_assoc ..).symm, hid, hroot, hbetween⟩
    · cases gap with
      | nil =>
        obtain ⟨earlier, root', between, hnil, -⟩ := ih hroots.2 [] after hrest.symm
        simp at hnil
      | cons first gap =>
        obtain ⟨rfl, -⟩ := List.cons.inj hrest
        cases before with
        | nil =>
          obtain ⟨rfl, -⟩ := List.cons.inj hblock
          rw [hroots.1] at hparent
          cases hparent
        | cons root' between =>
          obtain ⟨rfl, hchildren⟩ := List.cons.inj hblock
          have hchild : ∀ other ∈ between ++ entry :: gap, other.parent = some root.id := by
            intro other hother
            change other ∈ between.append (entry :: gap) at hother
            rw [← hchildren] at hother
            exact of_decide_eq_true (List.mem_filter.mp hother).2
          have hid := hchild entry (by simp)
          rw [hparent] at hid
          refine ⟨[], root, between, rfl, (Option.some.inj hid).symm, hroots.1, fun other hother => ?_⟩
          rw [hchild other (List.mem_append_left _ hother)]
          exact Option.some_ne_none _

theorem comesBelow_twoLevels (entries : List ObservationLogEntry) (entry : ObservationLogEntry) :
    ComesBelow (twoLevels entries) entry :=
  comesBelow_blocks (fun root hroot => by simpa using (List.mem_filter.mp hroot).2) entry

/-! ## What is rendered -/

variable {localeCompare : String → String → ℤ} {tokenCounter : String → ℚ}
  {included : OrderedSet String}

/-- The rendered entries in their order. -/
def lines (bullets : List (ObservationLogEntry × String)) : List ObservationLogEntry :=
  bullets.map Prod.fst

theorem lines_bullets (roots children : List ObservationLogEntry) :
    lines (bullets roots (childrenByParent children)) =
      roots.flatMap fun root => root :: children.filter (·.parent = some root.id) := by
  rw [lines, bullets, List.map_flatMap]
  refine List.flatMap_congr fun root _ => ?_
  rw [List.map_cons, List.map_map, childrenByParent_get?]
  exact congrArg _ (List.map_id _)

theorem mem_sortedActiveEntries :
    entry ∈ sortedActiveEntries localeCompare entries ↔ entry ∈ activeEntries entries :=
  (List.perm_insertionSort _ _).mem_iff

theorem count_sortedActiveEntries :
    (sortedActiveEntries localeCompare entries).count entry = (activeEntries entries).count entry :=
  (List.perm_insertionSort _ _).count_eq entry

theorem isPlaced_sortedActiveEntries :
    IsPlaced (sortedActiveEntries localeCompare entries) entry ↔
      IsPlaced (activeEntries entries) entry := by
  have hperm := List.perm_insertionSort (comesBefore localeCompare) (activeEntries entries)
  refine forall₂_congr fun parentId _ => ?_
  rw [sortedActiveEntries, (hperm.filter _).countP_eq]

/-- The parents of the active entries are active. -/
def HasActiveParents (entries : List ObservationLogEntry) : Prop :=
  ∀ entry ∈ activeEntries entries, ∀ parentId, entry.parent = some parentId →
    ∃ parent ∈ activeEntries entries, parent.id = parentId

theorem lines_reflectionBullets (h : HasActiveParents entries) :
    lines (reflectionBullets localeCompare entries) =
      twoLevels (sortedActiveEntries localeCompare entries) := by
  rw [reflectionBullets, lines_bullets, twoLevels]
  have hchild : ∀ entry ∈ sortedActiveEntries localeCompare entries,
      (entry.parent.any fun parentId => decide (parentId ∈ OrderedSet.ofList
        ((sortedActiveEntries localeCompare entries).map (·.id)))) = entry.parent.isSome := by
    intro entry hentry
    cases hparent : entry.parent with
    | none => rfl
    | some parentId =>
      obtain ⟨parent, hactive, hid⟩ := h entry (mem_sortedActiveEntries.mp hentry) parentId hparent
      rw [Option.any_some, Option.isSome_some, decide_eq_true_iff, OrderedSet.mem_ofList]
      exact List.mem_map.mpr ⟨parent, mem_sortedActiveEntries.mpr hactive, hid⟩
  have hroots : (sortedActiveEntries localeCompare entries).filter (fun entry =>
      !(entry.parent.any fun parentId => decide (parentId ∈ OrderedSet.ofList
        ((sortedActiveEntries localeCompare entries).map (·.id))))) =
      (sortedActiveEntries localeCompare entries).filter (·.parent = none) := by
    refine List.filter_congr fun entry hentry => ?_
    rw [hchild entry hentry]
    cases entry.parent <;> rfl
  rw [hroots]
  refine List.flatMap_congr fun root _ => ?_
  rw [List.filter_filter]
  congr 1
  refine List.filter_congr fun entry hentry => ?_
  rw [hchild entry hentry]
  cases entry.parent <;> simp

theorem lines_observationBullets (activeEntries : List ObservationLogEntry)
    (included : OrderedSet String) :
    lines (observationBullets activeEntries included) =
      twoLevels (activeEntries.filter (·.id ∈ included)) := by
  rw [observationBullets, observationRoots, lines_bullets, twoLevels, List.filter_filter]
  have hroots : (activeEntries.filter fun entry =>
      decide (entry.id ∈ included ∧ entry.parent = none)) =
      activeEntries.filter fun entry =>
        decide (entry.parent = none) && decide (entry.id ∈ included) := by
    refine List.filter_congr fun entry _ => ?_
    rw [Bool.decide_and, Bool.and_comm]
  rw [hroots]
  refine List.flatMap_congr fun root hroot => ?_
  have hincluded : root.id ∈ included := by
    have := (List.mem_filter.mp hroot).2
    simp only [Bool.and_eq_true, decide_eq_true_eq] at this
    exact this.2
  rw [List.filter_filter, List.filter_filter]
  congr 1
  refine List.filter_congr fun entry _ => ?_
  by_cases hparent : entry.parent = some root.id
  · simp [hparent, hincluded]
  · simp [hparent]

/-! ## Selecting -/

theorem selectEntries_none (entries : List ObservationLogEntry) :
    selectEntries tokenCounter none entries = entries := by
  induction entries with
  | nil => rfl
  | cons entry entries ih =>
    rw [selectEntries, Option.any_none, if_neg Bool.false_ne_true, Option.map_none, ih]

/-- What is selected stays within the budget. -/
theorem sum_selectEntries_le {budget : ℚ}
    (h : 0 ≤ budget ∨ selectEntries tokenCounter (some budget) entries ≠ []) :
    ((selectEntries tokenCounter (some budget) entries).map
      (observationTokenCount tokenCounter)).sum ≤ budget := by
  induction entries generalizing budget with
  | nil => exact h.resolve_right fun hne => hne rfl
  | cons entry entries ih =>
    rw [selectEntries] at h ⊢
    dsimp only [Option.any_some, Option.map_some] at h ⊢
    by_cases hfits : budget < observationTokenCount tokenCounter entry
    · rw [if_pos (decide_eq_true hfits)] at h ⊢
      exact ih h
    · rw [if_neg (by simpa using hfits), List.map_cons, List.sum_cons]
      have hrest := ih (.inl (sub_nonneg.mpr (not_lt.mp hfits)))
      linarith

theorem selectEntries_subset {budget : Option ℚ}
    (h : entry ∈ selectEntries tokenCounter budget entries) : entry ∈ entries := by
  induction entries generalizing budget with
  | nil => cases h
  | cons first entries ih =>
    rw [selectEntries] at h
    split at h
    · exact List.mem_cons_of_mem _ (ih h)
    · rcases List.mem_cons.mp h with rfl | h
      · exact List.mem_cons_self
      · exact List.mem_cons_of_mem _ (ih h)

/-! ## The renderers -/

/-- The entries that the renderer of the log shows under a budget, in their order. -/
def renderedEntries (localeCompare : String → String → ℤ) (tokenCounter : String → ℚ)
    (renderTokenBudget : Option ℚ) (entries : List ObservationLogEntry) :
    List ObservationLogEntry :=
  let activeEntries := sortedActiveEntries localeCompare entries
  lines (observationBullets activeEntries (includedIds tokenCounter renderTokenBudget activeEntries))

/-- Rendered exactly once, below its parent and before the next root. -/
def RenderedOnce (entries lines : List ObservationLogEntry) (entry : ObservationLogEntry) : Prop :=
  lines.count entry = (activeEntries entries).count entry ∧ ComesBelow lines entry

/-- Both renderers show the entry once, if there is no budget. -/
def RendersEntry (localeCompare : String → String → ℤ) (tokenCounter : String → ℚ)
    (entries : List ObservationLogEntry) (entry : ObservationLogEntry) : Prop :=
  RenderedOnce entries (lines (reflectionBullets localeCompare entries)) entry ∧
    RenderedOnce entries (renderedEntries localeCompare tokenCounter none entries) entry

/-- The log is rendered as nothing if no entry is. -/
theorem renderObservationLog_eq_none_iff {getHours getMinutes : ℤ → ℕ} {budget : Option ℚ} :
    renderObservationLog localeCompare getHours getMinutes tokenCounter budget entries = none ↔
      renderedEntries localeCompare tokenCounter budget entries = [] := by
  rw [renderObservationLog, renderedEntries, observationBullets, lines_bullets]
  generalize sortedActiveEntries localeCompare entries = active
  have hempty : (includedIds tokenCounter budget active).size = 0 →
      observationRoots active (includedIds tokenCounter budget active) = [] := by
    intro hsize
    refine List.filter_eq_nil_iff.mpr fun entry _ hmem => ?_
    exact OrderedSet.size_eq_zero_iff.mp hsize entry.id (of_decide_eq_true hmem).1
  split
  · rename_i hsize
    rw [hempty hsize]
    exact iff_of_true rfl rfl
  · split
    · rename_i hroots
      rw [hroots]
      exact iff_of_true rfl rfl
    · rename_i hroots
      obtain ⟨root, roots, hcons⟩ := List.exists_cons_of_ne_nil hroots
      rw [hcons]
      exact iff_of_false (by simp) (by simp)

theorem renderedEntries_none (entries : List ObservationLogEntry) :
    renderedEntries localeCompare tokenCounter none entries =
      twoLevels (sortedActiveEntries localeCompare entries) := by
  rw [renderedEntries, lines_observationBullets, includedIds, selectEntries_none]
  congr 1
  refine List.filter_eq_self.mpr fun entry hentry => ?_
  rw [decide_eq_true_iff, OrderedSet.mem_ofList]
  exact List.mem_map_of_mem hentry

/-- Without a budget each renderer shows each entry that hangs under no more than a root, once and
below its parent. With one, what is selected stays within it, and of the selected entries the roots
and the children of selected roots are shown. -/
theorem renders_placed (localeCompare : String → String → ℤ) (tokenCounter : String → ℚ)
    (entries : List ObservationLogEntry) (hparents : HasActiveParents entries) :
    (∀ entry ∈ activeEntries entries, IsPlaced (activeEntries entries) entry →
      RendersEntry localeCompare tokenCounter entries entry) ∧
    ∀ budget : ℚ,
      let selected := selectEntries tokenCounter (some budget)
        (sortedActiveEntries localeCompare entries)
      (0 ≤ budget ∨ selected ≠ [] →
        (selected.map (observationTokenCount tokenCounter)).sum ≤ budget) ∧
      ∀ entry ∈ selected,
        (∀ parentId, entry.parent = some parentId →
          ∃ root ∈ selected, root.parent = none ∧ root.id = parentId) →
        entry ∈ renderedEntries localeCompare tokenCounter (some budget) entries := by
  refine ⟨fun entry _ hplaced => ?_, fun budget => ⟨sum_selectEntries_le, fun entry hentry hroot => ?_⟩⟩
  · have honce : RenderedOnce entries (twoLevels (sortedActiveEntries localeCompare entries)) entry :=
      ⟨(isPlaced_sortedActiveEntries.mpr hplaced).count_twoLevels.trans count_sortedActiveEntries,
        comesBelow_twoLevels _ _⟩
    rw [RendersEntry, lines_reflectionBullets hparents, renderedEntries_none]
    exact ⟨honce, honce⟩
  · have hshown : ∀ shown ∈ selectEntries tokenCounter (some budget)
        (sortedActiveEntries localeCompare entries),
        shown ∈ (sortedActiveEntries localeCompare entries).filter fun entry =>
          decide (entry.id ∈ includedIds tokenCounter (some budget)
            (sortedActiveEntries localeCompare entries)) := by
      intro shown hmem
      refine List.mem_filter.mpr ⟨selectEntries_subset hmem, ?_⟩
      rw [decide_eq_true_iff, includedIds, OrderedSet.mem_ofList]
      exact List.mem_map_of_mem hmem
    rw [renderedEntries, lines_observationBullets, twoLevels, List.mem_flatMap]
    cases hparent : entry.parent with
    | none =>
      exact ⟨entry, List.mem_filter.mpr ⟨hshown entry hentry, decide_eq_true hparent⟩,
        List.mem_cons_self⟩
    | some parentId =>
      obtain ⟨root, hmem, hnone, rfl⟩ := hroot parentId hparent
      exact ⟨root, List.mem_filter.mpr ⟨hshown root hmem, decide_eq_true hnone⟩,
        List.mem_cons_of_mem _
          (List.mem_filter.mpr ⟨hshown entry hentry, decide_eq_true hparent⟩)⟩

/-- An entry under a child of a root, as a merge can put it. -/
def nestedLog : List ObservationLogEntry :=
  [{ id := "trip", createdAt := 1 }, { id := "hotel", parentId := some "trip", createdAt := 2 },
    { id := "room", parentId := some "hotel", createdAt := 3 }]

/-- The parent is too long for a budget of one token. -/
def longParentLog : List ObservationLogEntry :=
  [{ id := "trip", tokenCount := some 3, createdAt := 1 },
    { id := "hotel", parentId := some "trip", tokenCount := some 1, createdAt := 2 }]

theorem hasActiveParents_nestedLog : HasActiveParents nestedLog := by
  have hall : ∀ entry ∈ activeEntries nestedLog, ∀ parentId ∈ entry.parent,
      ∃ parent ∈ activeEntries nestedLog, parent.id = parentId := by
    decide
  exact hall

theorem renders_placed_nestedLog :
    (∀ entry ∈ activeEntries nestedLog, IsPlaced (activeEntries nestedLog) entry →
      RendersEntry (fun _ _ => 0) estimateObservationTokens nestedLog entry) ∧
    ∀ budget : ℚ,
      let selected := selectEntries estimateObservationTokens (some budget)
        (sortedActiveEntries (fun _ _ => 0) nestedLog)
      (0 ≤ budget ∨ selected ≠ [] →
        (selected.map (observationTokenCount estimateObservationTokens)).sum ≤ budget) ∧
      ∀ entry ∈ selected,
        (∀ parentId, entry.parent = some parentId →
          ∃ root ∈ selected, root.parent = none ∧ root.id = parentId) →
        entry ∈ renderedEntries (fun _ _ => 0) estimateObservationTokens (some budget) nestedLog :=
  renders_placed (fun _ _ => 0) estimateObservationTokens nestedLog hasActiveParents_nestedLog

/-- An entry under a child is in neither rendering, and an entry that the budget selects is not
rendered, though all parents are active and make no cycle. -/
theorem not_rendersEach_nestedLog :
    (HasActiveParents nestedLog ∧
      (∀ id, ¬TransGen (LinksTo (activeEntries nestedLog)) id id) ∧
        ¬∀ entry ∈ activeEntries nestedLog,
          RendersEntry (fun _ _ => 0) estimateObservationTokens nestedLog entry) ∧
    HasActiveParents longParentLog ∧
      (∀ id, ¬TransGen (LinksTo (activeEntries longParentLog)) id id) ∧
        ¬∀ entry ∈ selectEntries estimateObservationTokens (some 1)
            (sortedActiveEntries (fun _ _ => 0) longParentLog),
          entry ∈ renderedEntries (fun _ _ => 0) estimateObservationTokens (some 1)
            longParentLog := by
  refine ⟨⟨hasActiveParents_nestedLog,
    not_transGen_of_idxOf_lt ["trip", "hotel", "room"] (by decide), fun h => ?_⟩, ?_,
    not_transGen_of_idxOf_lt ["trip", "hotel"] (by decide), by decide⟩
  · have hcount := (h { id := "room", parentId := some "hotel", createdAt := 3 } (by decide)).1.1
    exact absurd hcount (by decide)
  · have hall : ∀ entry ∈ activeEntries longParentLog, ∀ parentId ∈ entry.parent,
        ∃ parent ∈ activeEntries longParentLog, parent.id = parentId := by
      decide
    exact hall

end N8n
