import N8n.Lib.DepthFirst
import N8n.Lib.Search
import N8n.Workflow.Workflow

/-!
# Highest nodes

`getHighestNode` goes depth first from a node to the nodes it gets its data from, and passes on
the nodes found at the ends. All branches share one list of checked nodes. Nodes without a
record of Main inputs are not noted in it, so they are looked at as often as they are met.

`highestNodes_rule` is the rule for the recursion : one case for a node without such a record,
and one for a node whose parents are gone through (`Visits`).
-/

open Lib Relation

namespace N8n

namespace Workflow

variable (workflow : Workflow)

/-- The nodes of the workflow the connections come from. -/
def connectedNodes (inputs : NodeInputConnections) : List String :=
  ((inputs.flatMap (Option.getD · [])).map (·.node)).filter (workflow.nodes.has ·)

/-- The nodes of the workflow with a Main connection to the node. -/
def mainParents (nodeName : String) : List String :=
  workflow.connectedNodes ((workflow.mainInputs? nodeName).getD [])

/-- The inputs that are looked at : one of them if its index is given. -/
def selectedInputs (nodeName : String) (nodeConnectionIndex : Option ℕ) : NodeInputConnections :=
  match nodeConnectionIndex with
  | none => (workflow.mainInputs? nodeName).getD []
  | some index => (((workflow.mainInputs? nodeName).getD [])[index]?).toList

/-- The node is not disabled. -/
def isEnabled (nodeName : String) : Bool :=
  (workflow.nodes.get? nodeName).any fun node => node.disabled ≠ some true

/-- There is a record of the Main inputs of the node. -/
def hasMainInputs (nodeName : String) : Bool := (workflow.mainInputs? nodeName).isSome

/-- What the search finds at a node without a record of Main inputs. -/
def currentHighest (nodeName : String) : List String :=
  if (workflow.nodes.get? nodeName).any (·.disabled = some false) then [nodeName] else []

/-- The node itself if nothing was found beyond it and it is enabled. -/
def orItself (nodeName : String) (found : List String) : List String :=
  if found = [] ∧ workflow.isEnabled nodeName then [nodeName] else found

/-- One parent : skipped if it was checked, and searched otherwise. -/
def visitParent (fuel : ℕ) (acc : List String × List String) (nodeName : String) :
    List String × List String :=
  if nodeName ∈ acc.2 then acc
  else
    let (found, checkedNodes) := workflow.highestNodes fuel nodeName none acc.2
    ((workflow.orItself nodeName found).foldl (fun found name => addTo name found) acc.1,
      checkedNodes)

variable {workflow}

theorem has_of_mem_connectedNodes {inputs : NodeInputConnections} {nodeName : String}
    (h : nodeName ∈ workflow.connectedNodes inputs) : workflow.nodes.has nodeName = true :=
  (List.mem_filter.mp h).2

theorem mem_foldl_addTo {name : String} {names found : List String} :
    name ∈ names.foldl (fun found name => addTo name found) found ↔ name ∈ found ∨ name ∈ names := by
  induction names generalizing found with
  | nil => simp
  | cons other names ih => rw [List.foldl_cons, ih, mem_addTo, List.mem_cons, or_assoc]

theorem highestNodes_leaf {fuel : ℕ} {nodeName : String} {checkedNodes : List String}
    (hnode : workflow.nodes.has nodeName = true) (hmain : workflow.mainInputs? nodeName = none) :
    workflow.highestNodes (fuel + 1) nodeName none checkedNodes =
      (workflow.currentHighest nodeName, checkedNodes) := by
  obtain ⟨node, hget⟩ := Option.isSome_iff_exists.mp hnode
  simp [highestNodes, currentHighest, hget, hmain]

/-- A node that is expanded goes through the parents at the inputs that are looked at. -/
theorem highestNodes_expand {fuel : ℕ} {nodeName : String} {nodeConnectionIndex : Option ℕ}
    {checkedNodes : List String} (hnode : workflow.nodes.has nodeName = true)
    (hmain : workflow.hasMainInputs nodeName = true) (hnot : nodeName ∉ checkedNodes) :
    workflow.highestNodes (fuel + 1) nodeName nodeConnectionIndex checkedNodes =
      (workflow.connectedNodes (workflow.selectedInputs nodeName nodeConnectionIndex)).foldl
        (workflow.visitParent fuel) ([], checkedNodes ++ [nodeName]) := by
  obtain ⟨node, hget⟩ := Option.isSome_iff_exists.mp hnode
  obtain ⟨main, hinputs⟩ := Option.isSome_iff_exists.mp hmain
  have hselected : workflow.selectedInputs nodeName nodeConnectionIndex =
      match nodeConnectionIndex with
      | none => main
      | some index => (main[index]?).toList := by
    unfold selectedInputs
    rw [hinputs]
    rfl
  rw [connectedNodes, List.foldl_filter, List.foldl_map, hselected]
  unfold highestNodes
  simp only [hget, hinputs, if_neg hnot]
  congr 1
  ext1 acc
  ext1 connection
  obtain ⟨found, checked⟩ := acc
  unfold visitParent
  cases hconnected : workflow.nodes.get? connection.node with
  | none => simp [OrderedMap.has, hconnected]
  | some connectionNode =>
    have henabled : workflow.isEnabled connection.node = (connectionNode.disabled ≠ some true : Bool) := by
      simp [isEnabled, hconnected]
    simp only [OrderedMap.has, hconnected, Option.isSome_some, if_true, orItself, henabled,
      decide_eq_true_eq]
    rfl

/-! ## The rule -/

/-- A property of a search : the node, the nodes entered before, what is found, and the nodes
entered after. -/
abbrev SearchProperty := String → List String → List String → List String → Prop

variable (workflow) in
/-- The loop over the parents, whose searches have the property. It starts and ends with what is
found and the nodes entered. -/
inductive Visits (Q : SearchProperty) :
    List String → List String → List String → List String → List String → Prop
  | nil {found entered : List String} : Visits Q [] found entered found entered
  | skip {c : String} {cs found entered found' entered' : List String} (hc : c ∈ entered)
      (hmain : workflow.hasMainInputs c = true) (h : Visits Q cs found entered found' entered') :
      Visits Q (c :: cs) found entered found' entered'
  | visit {c : String} {cs found entered below entered₁ found' entered' : List String}
      (hc : c ∈ entered → workflow.hasMainInputs c = false) (hcall : Q c entered below entered₁)
      (h : Visits Q cs ((workflow.orItself c below).foldl (fun found name => addTo name found) found)
        entered₁ found' entered') :
      Visits Q (c :: cs) found entered found' entered'

variable (workflow) in
/-- Nodes of the workflow, each of them once. -/
structure AreNodes (entered : List String) : Prop where
  nodup : entered.Nodup
  has : ∀ name ∈ entered, workflow.nodes.has name = true

theorem AreNodes.length_le {entered : List String} (h : workflow.AreNodes entered) :
    entered.length ≤ workflow.nodes.size := by
  rw [← OrderedMap.length_keys]
  exact (h.nodup.subperm fun name hname => OrderedMap.has_iff.mp (h.has name hname)).length_le

theorem AreNodes.concat {entered : List String} (h : workflow.AreNodes entered) {name : String}
    (hname : workflow.nodes.has name = true) (hnot : name ∉ entered) :
    workflow.AreNodes (entered ++ [name]) where
  nodup := List.Nodup.append h.nodup (List.nodup_singleton name) (by simpa using hnot)
  has := List.forall_mem_append.mpr ⟨h.has, List.forall_mem_singleton.mpr hname⟩

theorem AreNodes.addTo {entered : List String} (h : workflow.AreNodes entered) {name : String}
    (hname : workflow.nodes.has name = true) :
    workflow.AreNodes (Lib.addTo name entered) ∧ entered.length ≤ (Lib.addTo name entered).length := by
  unfold Lib.addTo
  split_ifs with hmem
  · exact ⟨h, le_rfl⟩
  · exact ⟨h.concat hname hmem, by rw [List.length_append]; omega⟩

variable (workflow) in
/-- The cases of a search : the node has no record of Main inputs, or its parents are gone
through. -/
structure SearchCases (Q : SearchProperty) : Prop where
  leaf : ∀ name entered, workflow.AreNodes entered → workflow.nodes.has name = true →
    workflow.hasMainInputs name = false →
    Q name entered (workflow.currentHighest name) (addTo name entered)
  expand : ∀ name entered found entered', workflow.AreNodes entered →
    workflow.nodes.has name = true → workflow.hasMainInputs name = true → name ∉ entered →
    Visits workflow Q (workflow.mainParents name) [] (entered ++ [name]) found entered' →
    Q name entered found entered'

variable (workflow) in
/-- What the list of checked nodes holds. -/
def checked (entered : List String) : List String := entered.filter (workflow.hasMainInputs ·)

theorem mem_checked {name : String} {entered : List String} :
    name ∈ workflow.checked entered ↔ name ∈ entered ∧ workflow.hasMainInputs name = true :=
  List.mem_filter

variable (workflow) in
/-- A search with this fuel has the property, if there is fuel for all nodes that are left. -/
def Searches (Q : SearchProperty) (fuel : ℕ) : Prop :=
  ∀ name entered, workflow.AreNodes entered → workflow.nodes.has name = true →
    (name ∈ entered → workflow.hasMainInputs name = false) →
    workflow.nodes.size < fuel + entered.length →
    ∃ found entered', workflow.highestNodes fuel name none (workflow.checked entered) =
        (found, workflow.checked entered') ∧
      Q name entered found entered' ∧ workflow.AreNodes entered' ∧ entered.length ≤ entered'.length

theorem checked_addTo {name : String} {entered : List String}
    (hmain : workflow.hasMainInputs name = false) :
    workflow.checked (addTo name entered) = workflow.checked entered := by
  unfold addTo
  split_ifs with hmem
  · rfl
  · simp [checked, List.filter_append, hmain]

variable {Q : SearchProperty}

theorem Searches.foldl {fuel : ℕ} (h : workflow.Searches Q fuel) (cs : List String)
    (hcs : ∀ c ∈ cs, workflow.nodes.has c = true) (found : List String) {entered : List String}
    (hentered : workflow.AreNodes entered) (hfuel : workflow.nodes.size < fuel + entered.length) :
    ∃ found' entered', cs.foldl (workflow.visitParent fuel) (found, workflow.checked entered) =
        (found', workflow.checked entered') ∧
      Visits workflow Q cs found entered found' entered' ∧ workflow.AreNodes entered' ∧
      entered.length ≤ entered'.length := by
  induction cs generalizing found entered with
  | nil => exact ⟨found, entered, rfl, .nil, hentered, le_rfl⟩
  | cons c cs ih =>
    have hrest : ∀ c ∈ cs, workflow.nodes.has c = true := fun d hd => hcs d (List.mem_cons_of_mem _ hd)
    rw [List.foldl_cons]
    by_cases hchecked : c ∈ workflow.checked entered
    · obtain ⟨hc, hmain⟩ := mem_checked.mp hchecked
      obtain ⟨found', entered', heq, hvisits, hnodes, hle⟩ := ih hrest found hentered hfuel
      exact ⟨found', entered', by rwa [visitParent, if_pos hchecked], .skip hc hmain hvisits, hnodes, hle⟩
    · have hc : c ∈ entered → workflow.hasMainInputs c = false := fun hc =>
        Bool.eq_false_iff.mpr fun hmain => hchecked (mem_checked.mpr ⟨hc, hmain⟩)
      obtain ⟨below, entered₁, hcall, hQ, hnodes₁, hle₁⟩ :=
        h c entered hentered (hcs c List.mem_cons_self) hc hfuel
      obtain ⟨found', entered', heq, hvisits, hnodes, hle⟩ := ih hrest
        ((workflow.orItself c below).foldl (fun found name => addTo name found) found) hnodes₁
        (by omega)
      refine ⟨found', entered', ?_, .visit hc hQ hvisits, hnodes, hle₁.trans hle⟩
      rw [visitParent, if_neg hchecked, hcall]
      exact heq

theorem searches (hQ : workflow.SearchCases Q) (fuel : ℕ) :
    workflow.Searches Q fuel := by
  induction fuel with
  | zero =>
    intro name entered hentered _ _ hfuel
    have := hentered.length_le
    omega
  | succ fuel ih =>
    intro name entered hentered hname hleaf hfuel
    by_cases hmain : workflow.hasMainInputs name = true
    · have hnot : name ∉ entered := fun hmem => by simp [hleaf hmem] at hmain
      have hconcat : workflow.checked (entered ++ [name]) = workflow.checked entered ++ [name] := by
        rw [checked, List.filter_append, List.filter_singleton, hmain]
        rfl
      obtain ⟨found, entered', heq, hvisits, hnodes, hle⟩ := ih.foldl
        (workflow.mainParents name) (fun c hc => has_of_mem_connectedNodes hc) [] (hentered.concat hname hnot)
        (by rw [List.length_append, List.length_singleton]; omega)
      refine ⟨found, entered', ?_, hQ.expand name entered found entered' hentered hname hmain hnot
        hvisits, hnodes, by rw [List.length_append] at hle; omega⟩
      rw [highestNodes_expand hname hmain fun h => hnot (mem_checked.mp h).1, ← hconcat]
      exact heq
    · have hnone : workflow.mainInputs? name = none := by simpa [hasMainInputs] using hmain
      rw [Bool.not_eq_true] at hmain
      obtain ⟨hnodes, hle⟩ := hentered.addTo hname
      refine ⟨_, addTo name entered, ?_, hQ.leaf name entered hentered hname hmain, hnodes, hle⟩
      rw [highestNodes_leaf hname hnone, checked_addTo hmain]

/-- The rule for `getHighestNode` : the parents at the inputs that are looked at are gone through,
with the node itself entered. -/
theorem highestNodes_rule (hQ : workflow.SearchCases Q) {nodeName : String}
    (hnode : workflow.nodes.has nodeName = true) (hmain : workflow.hasMainInputs nodeName = true)
    (nodeConnectionIndex : Option ℕ) :
    ∃ entered', Visits workflow Q
        (workflow.connectedNodes (workflow.selectedInputs nodeName nodeConnectionIndex)) []
        [nodeName] (workflow.getHighestNode nodeName nodeConnectionIndex) entered' ∧
      workflow.AreNodes entered' := by
  have hself : workflow.AreNodes [nodeName] :=
    ⟨List.nodup_singleton nodeName, List.forall_mem_singleton.mpr hnode⟩
  obtain ⟨found, entered', heq, hvisits, hnodes, -⟩ := (searches hQ workflow.nodes.size).foldl
    (workflow.connectedNodes (workflow.selectedInputs nodeName nodeConnectionIndex)) (fun c hc => has_of_mem_connectedNodes hc) [] hself (by simp)
  refine ⟨entered', ?_, hnodes⟩
  have hchecked : workflow.checked [nodeName] = [] ++ [nodeName] := by
    rw [checked, List.filter_singleton, hmain]
    rfl
  rw [getHighestNode, highestNodes_expand hnode hmain List.not_mem_nil, ← hchecked, heq]
  exact hvisits

/-! ## What is gathered -/

variable (workflow) in
/-- `y` gives its data to `x`, directly or through other nodes, without going through the node
`n`. -/
abbrev Feeds (n x y : String) : Prop :=
  ReflTransGen (fun a b => b ∈ workflow.mainParents a ∧ b ≠ n) x y

variable (workflow) in
/-- What going through the nodes `cs` adds to the nodes found and to the nodes entered, in a search
that starts at `n`. -/
structure Gathered (n : String) (cs found entered found' entered' : List String) : Prop where
  isPrefix : entered <+: entered'
  covers : ∀ c ∈ cs, c ∈ entered'
  closed : ∀ y ∈ entered', y ∉ entered → ∀ p ∈ workflow.mainParents y, p ∈ entered'
  reached : ∀ y ∈ entered', y ∈ entered ∨ ∃ c ∈ cs, c ≠ n ∧ workflow.Feeds n c y
  keeps : found ⊆ found'
  sound : ∀ r ∈ found', r ∈ found ∨
    workflow.isEnabled r = true ∧ ∃ c ∈ cs, c ≠ n ∧ workflow.Feeds n c r
  some : ∀ y ∈ entered', y ∉ entered → workflow.isEnabled y = true → found' ≠ []

variable {n c name : String} {cs found below entered entered₁ found' entered' : List String}

theorem Gathered.nil (n : String) (found entered : List String) :
    workflow.Gathered n [] found entered found entered where
  isPrefix := List.prefix_rfl
  covers _ hc := absurd hc List.not_mem_nil
  closed _ hy hnot := absurd hy hnot
  reached _ hy := Or.inl hy
  keeps := List.Subset.refl found
  sound _ hr := Or.inl hr
  some _ hy hnot := absurd hy hnot

theorem Gathered.skip (hc : c ∈ entered) (h : workflow.Gathered n cs found entered found' entered') :
    workflow.Gathered n (c :: cs) found entered found' entered' where
  isPrefix := h.isPrefix
  covers := List.forall_mem_cons.mpr ⟨h.isPrefix.subset hc, h.covers⟩
  closed := h.closed
  reached y hy := (h.reached y hy).imp_right fun ⟨d, hd, hfeeds⟩ =>
    ⟨d, List.mem_cons_of_mem c hd, hfeeds⟩
  keeps := h.keeps
  sound r hr := (h.sound r hr).imp_right fun ⟨hr, d, hd, hfeeds⟩ =>
    ⟨hr, d, List.mem_cons_of_mem c hd, hfeeds⟩
  some := h.some

/-- What the search at `c` gathers, and then what is gathered at the nodes after it. -/
theorem Gathered.visit (hcall : workflow.Gathered n [c] [] entered below entered₁)
    (h : workflow.Gathered n cs (below.foldl (fun found name => addTo name found) found)
      entered₁ found' entered') :
    workflow.Gathered n (c :: cs) found entered found' entered' where
  isPrefix := hcall.isPrefix.trans h.isPrefix
  covers := List.forall_mem_cons.mpr ⟨h.isPrefix.subset (hcall.covers c List.mem_cons_self), h.covers⟩
  closed y hy hnot p hp := by
    by_cases hy₁ : y ∈ entered₁
    · exact h.isPrefix.subset (hcall.closed y hy₁ hnot p hp)
    · exact h.closed y hy hy₁ p hp
  reached y hy := by
    rcases h.reached y hy with hy₁ | ⟨d, hd, hfeeds⟩
    · refine (hcall.reached y hy₁).imp_right fun ⟨d, hd, hfeeds⟩ => ⟨c, List.mem_cons_self, ?_⟩
      rwa [← List.mem_singleton.mp hd]
    · exact Or.inr ⟨d, List.mem_cons_of_mem c hd, hfeeds⟩
  keeps r hr := h.keeps (mem_foldl_addTo.mpr (Or.inl hr))
  sound r hr := by
    rcases h.sound r hr with hr | ⟨hr, d, hd, hfeeds⟩
    · refine (mem_foldl_addTo.mp hr).imp_right fun hr => ?_
      obtain ⟨hr, d, hd, hfeeds⟩ := (hcall.sound r hr).resolve_left List.not_mem_nil
      exact ⟨hr, c, List.mem_cons_self, by rwa [← List.mem_singleton.mp hd]⟩
    · exact Or.inr ⟨hr, d, List.mem_cons_of_mem c hd, hfeeds⟩
  some y hy hnot henabled := by
    by_cases hy₁ : y ∈ entered₁
    · obtain ⟨r, hr⟩ := List.exists_mem_of_ne_nil below (hcall.some y hy₁ hnot henabled)
      exact List.ne_nil_of_mem (h.keeps (mem_foldl_addTo.mpr (Or.inr hr)))
    · exact h.some y hy hy₁ henabled

variable (workflow) in
/-- What a search at one node gathers, once the search has entered `n`. -/
def Gathers (n : String) : SearchProperty := fun name entered below entered' =>
  n ∈ entered → workflow.Gathered n [name] [] entered (workflow.orItself name below) entered'

theorem Visits.gathered (h : Visits workflow (workflow.Gathers n) cs found entered found' entered')
    (hn : n ∈ entered) : workflow.Gathered n cs found entered found' entered' := by
  induction h with
  | nil => exact .nil n _ _
  | skip hc _ _ ih => exact (ih hn).skip hc
  | visit _ hcall _ ih =>
    have hgathered := hcall hn
    exact hgathered.visit (ih (hgathered.isPrefix.subset hn))

theorem mem_orItself {r : String} (hr : r ∈ workflow.orItself name below) :
    r ∈ below ∨ r = name ∧ workflow.isEnabled name = true ∧ below = [] := by
  unfold orItself at hr
  split_ifs at hr with h
  · exact Or.inr ⟨List.mem_singleton.mp hr, h.2, h.1⟩
  · exact Or.inl hr

theorem orItself_ne_nil (h : below ≠ [] ∨ workflow.isEnabled name = true) :
    workflow.orItself name below ≠ [] := by
  unfold orItself
  split_ifs with hnil
  · exact List.cons_ne_nil name []
  · intro hbelow
    exact hnil ⟨hbelow, h.resolve_left fun hne => hne hbelow⟩

theorem orItself_currentHighest (name : String) :
    workflow.orItself name (workflow.currentHighest name) =
      if workflow.isEnabled name then [name] else [] := by
  unfold orItself currentHighest isEnabled
  cases hget : workflow.nodes.get? name with
  | none => simp
  | some node => cases hdisabled : node.disabled with
    | none => simp [hdisabled]
    | some disabled => cases disabled <;> simp [hdisabled]

theorem mainParents_eq_nil (hmain : workflow.hasMainInputs name = false) :
    workflow.mainParents name = [] := by
  have hnone : workflow.mainInputs? name = none := by simpa [hasMainInputs] using hmain
  rw [mainParents, hnone]
  rfl

theorem prefix_addTo (name : String) (entered : List String) : entered <+: addTo name entered := by
  unfold addTo
  split_ifs
  · exact List.prefix_rfl
  · exact List.prefix_append entered [name]

theorem searchCases_gathers (hmain : workflow.hasMainInputs n = true) :
    workflow.SearchCases (workflow.Gathers n) where
  leaf name entered _ _ hleaf _ := by
    have hne : name ≠ n := fun heq => by simp [heq, hmain] at hleaf
    rw [orItself_currentHighest]
    refine ⟨prefix_addTo name entered, by simp, fun y hy hnot => ?_, fun y hy => ?_,
      List.nil_subset _, fun r hr => ?_, fun y hy hnot henabled => ?_⟩
    · obtain rfl := (mem_addTo.mp hy).resolve_left hnot
      simp [mainParents_eq_nil hleaf]
    · refine (mem_addTo.mp hy).imp_right ?_
      rintro rfl
      exact ⟨y, List.mem_singleton_self y, hne, .refl⟩
    · split_ifs at hr with henabled
      · obtain rfl := List.mem_singleton.mp hr
        exact Or.inr ⟨henabled, r, hr, hne, .refl⟩
      · exact absurd hr List.not_mem_nil
    · obtain rfl := (mem_addTo.mp hy).resolve_left hnot
      simp [henabled]
  expand name entered found entered' _ _ _ hnot hvisits hn := by
    have hne : name ≠ n := fun heq => hnot (heq ▸ hn)
    have h := hvisits.gathered (List.mem_append_left [name] hn)
    have hself : name ∈ entered' := h.isPrefix.subset List.mem_concat_self
    refine ⟨(List.prefix_append entered [name]).trans h.isPrefix, by simpa using hself,
      fun y hy hy' => ?_, fun y hy => ?_, List.nil_subset _, fun r hr => ?_,
      fun y hy hy' henabled => orItself_ne_nil ?_⟩
    · by_cases hy₁ : y = name
      · rw [hy₁]
        exact h.covers
      · exact h.closed y hy (by simp [hy', hy₁])
    · rcases h.reached y hy with hy | ⟨c, hc, hcn, hfeeds⟩
      · rcases List.mem_append.mp hy with hy | hy
        · exact Or.inl hy
        · rw [List.mem_singleton.mp hy]
          exact Or.inr ⟨name, List.mem_singleton_self name, hne, .refl⟩
      · exact Or.inr ⟨name, List.mem_singleton_self name, hne, .head ⟨hc, hcn⟩ hfeeds⟩
    · rcases mem_orItself hr with hr | ⟨rfl, henabled, -⟩
      · obtain ⟨henabled, c, hc, hcn, hfeeds⟩ := (h.sound r hr).resolve_left List.not_mem_nil
        exact Or.inr ⟨henabled, name, List.mem_singleton_self name, hne, .head ⟨hc, hcn⟩ hfeeds⟩
      · exact Or.inr ⟨henabled, r, List.mem_singleton_self r, hne, .refl⟩
    · by_cases hy₁ : y = name
      · exact Or.inr (hy₁ ▸ henabled)
      · exact Or.inl (h.some y hy (by simp [hy', hy₁]) henabled)

/-- Something is found behind an input if and only if an enabled node gives its data to it without
going through the node itself. -/
theorem getHighestNode_ne_nil_iff (hnode : workflow.nodes.has n = true)
    (hmain : workflow.hasMainInputs n = true) (nodeConnectionIndex : Option ℕ) :
    workflow.getHighestNode n nodeConnectionIndex ≠ [] ↔
      ∃ c ∈ workflow.connectedNodes (workflow.selectedInputs n nodeConnectionIndex), c ≠ n ∧
        ∃ r, workflow.Feeds n c r ∧ workflow.isEnabled r = true := by
  obtain ⟨entered', hvisits, -⟩ :=
    highestNodes_rule (searchCases_gathers hmain) hnode hmain nodeConnectionIndex
  have h := hvisits.gathered (List.mem_singleton_self n)
  constructor
  · intro hne
    obtain ⟨r, hr⟩ := List.exists_mem_of_ne_nil _ hne
    obtain ⟨henabled, c, hc, hcn, hfeeds⟩ := (h.sound r hr).resolve_left List.not_mem_nil
    exact ⟨c, hc, hcn, r, hfeeds, henabled⟩
  · rintro ⟨c, hc, hcn, r, hfeeds, henabled⟩
    -- what feeds `c` without going through `n` is entered, and it is not `n`
    have hentered : r ∈ entered' ∧ r ≠ n := by
      clear henabled
      induction hfeeds with
      | refl => exact ⟨h.covers c hc, hcn⟩
      | @tail y p _ hstep ih => exact ⟨h.closed y ih.1 (by simpa using ih.2) p hstep.1, hstep.2⟩
    exact h.some r hentered.1 (by simpa using hentered.2) henabled

/-! ## Tips -/

variable (workflow) in
/-- When the node was entered, all nodes it gets its data from were checked already. -/
def Tip (entered : List String) (r : String) : Prop :=
  ∀ p ∈ workflow.mainParents r,
    workflow.hasMainInputs p = true ∧ entered.idxOf p ≤ entered.idxOf r

theorem idxOf_le_iff_of_isPrefix {x y : String} (h : entered <+: entered') (hx : x ∈ entered) :
    entered'.idxOf y ≤ entered'.idxOf x ↔ entered.idxOf y ≤ entered.idxOf x := by
  obtain ⟨rest, rfl⟩ := h
  have hlt := List.idxOf_lt_length_iff.mpr hx
  rw [List.idxOf_append_of_mem hx]
  by_cases hy : y ∈ entered
  · rw [List.idxOf_append_of_mem hy]
  · rw [List.idxOf_append_of_notMem hy, List.idxOf_of_notMem hy]
    omega

theorem tip_iff_of_isPrefix {r : String} (h : entered <+: entered') (hr : r ∈ entered) :
    workflow.Tip entered' r ↔ workflow.Tip entered r := by
  unfold Tip
  refine forall₂_congr fun p _ => ?_
  rw [idxOf_le_iff_of_isPrefix h hr]

/-- For the node entered last, these are the nodes entered. -/
theorem tip_concat_iff (hnot : name ∉ entered) :
    workflow.Tip (entered ++ [name]) name ↔
      ∀ p ∈ workflow.mainParents name,
        p ∈ entered ++ [name] ∧ workflow.hasMainInputs p = true := by
  unfold Tip
  refine forall₂_congr fun p _ => ?_
  have hidx : (entered ++ [name]).idxOf name = entered.length := by
    rw [List.idxOf_append_of_notMem hnot, List.idxOf_cons_self, Nat.add_zero]
  rw [and_comm, hidx, ← List.idxOf_lt_length_iff, List.length_append, List.length_singleton,
    Nat.lt_succ_iff]

variable (workflow) in
/-- Going on from the nodes entered, exactly the tips among the new ones are found. -/
structure FindsTips (found entered found' entered' : List String) : Prop where
  sound : ∀ r ∈ found', r ∈ found ∨ r ∈ entered' ∧ workflow.Tip entered' r
  complete : ∀ r ∈ entered', r ∉ entered → workflow.Tip entered' r → r ∈ found'

variable (workflow) in
/-- What a search at one node finds, if all nodes are enabled. -/
structure Tips (n name : String) (entered below entered' : List String) : Prop where
  gathers : workflow.Gathers n name entered below entered'
  ne_nil : workflow.orItself name below ≠ []
  finds : n ∈ entered → workflow.FindsTips [] entered (workflow.orItself name below) entered'

theorem Visits.mono {Q' : SearchProperty}
    (hQ : ∀ name entered found entered', Q name entered found entered' →
      Q' name entered found entered')
    (h : Visits workflow Q cs found entered found' entered') :
    Visits workflow Q' cs found entered found' entered' := by
  induction h with
  | nil => exact .nil
  | skip hc hmain _ ih => exact .skip hc hmain ih
  | visit hc hcall _ ih => exact .visit hc (hQ _ _ _ _ hcall) ih

theorem Visits.findsTips (h : Visits workflow (workflow.Tips n) cs found entered found' entered')
    (hn : n ∈ entered) : workflow.FindsTips found entered found' entered' := by
  induction h with
  | nil => exact ⟨fun r hr => Or.inl hr, fun r hr hnot => absurd hr hnot⟩
  | skip _ _ _ ih => exact ih hn
  | @visit c cs found entered below entered₁ found' entered' _ hcall hrest ih =>
    have hgathered := hcall.gathers hn
    have hn₁ := hgathered.isPrefix.subset hn
    have hrest := (hrest.mono fun _ _ _ _ hQ => hQ.gathers).gathered hn₁
    have hfinds := hcall.finds hn
    refine ⟨fun r hr => ?_, fun r hr hnot htip => ?_⟩
    · rcases (ih hn₁).sound r hr with hr | hr
      · refine (mem_foldl_addTo.mp hr).imp_right fun hr => ?_
        obtain ⟨hr, htip⟩ := (hfinds.sound r hr).resolve_left List.not_mem_nil
        exact ⟨hrest.isPrefix.subset hr, (tip_iff_of_isPrefix hrest.isPrefix hr).mpr htip⟩
      · exact Or.inr hr
    · by_cases hr₁ : r ∈ entered₁
      · rw [tip_iff_of_isPrefix hrest.isPrefix hr₁] at htip
        exact hrest.keeps (mem_foldl_addTo.mpr (Or.inr (hfinds.complete r hr₁ hnot htip)))
      · exact (ih hn₁).complete r hr hr₁ htip

/-- Nothing is found if and only if all the nodes are skipped. -/
theorem Visits.eq_nil_iff (h : Visits workflow (workflow.Tips n) cs found entered found' entered')
    (hn : n ∈ entered) :
    found' = [] ↔ found = [] ∧ ∀ c ∈ cs, c ∈ entered ∧ workflow.hasMainInputs c = true := by
  induction h with
  | nil => simp
  | skip hc hmain _ ih => rw [ih hn, List.forall_mem_cons, and_iff_right (And.intro hc hmain)]
  | @visit c cs found entered below entered₁ found' entered' hc hcall hrest ih =>
    have hn₁ := (hcall.gathers hn).isPrefix.subset hn
    obtain ⟨r, hr⟩ := List.exists_mem_of_ne_nil _ hcall.ne_nil
    have hmem : r ∈ (workflow.orItself c below).foldl (fun found name => addTo name found) found :=
      mem_foldl_addTo.mpr (Or.inr hr)
    refine iff_of_false (fun hnil => ?_) fun ⟨_, hall⟩ => ?_
    · exact List.ne_nil_of_mem hmem ((ih hn₁).mp hnil).1
    · obtain ⟨hmemc, hmain⟩ := hall c List.mem_cons_self
      simp [hc hmemc] at hmain

theorem orItself_of_ne_nil (h : below ≠ []) : workflow.orItself name below = below :=
  if_neg fun hnil => h hnil.1

theorem searchCases_tips (hmain : workflow.hasMainInputs n = true)
    (hall : ∀ name, workflow.nodes.has name = true → workflow.isEnabled name = true) :
    workflow.SearchCases (workflow.Tips n) where
  leaf name entered hentered hname hleaf := by
    have htip : ∀ entered, workflow.Tip entered name := fun entered p hp => by
      simp [mainParents_eq_nil hleaf] at hp
    have hfound : workflow.orItself name (workflow.currentHighest name) = [name] := by
      rw [orItself_currentHighest, if_pos (hall name hname)]
    refine ⟨(searchCases_gathers hmain).leaf name entered hentered hname hleaf, ?_, fun _ => ?_⟩
    · rw [hfound]
      exact List.cons_ne_nil name []
    · rw [hfound]
      refine ⟨fun r hr => Or.inr ?_, fun r hr hnot _ => ?_⟩
      · rw [List.mem_singleton.mp hr]
        exact ⟨mem_addTo.mpr (Or.inr rfl), htip _⟩
      · exact List.mem_singleton.mpr ((mem_addTo.mp hr).resolve_left hnot)
  expand name entered found entered' hentered hname hname' hnot hvisits := by
    have hgathers := (searchCases_gathers hmain).expand name entered found entered' hentered hname
      hname' hnot (hvisits.mono fun _ _ _ _ hQ => hQ.gathers)
    refine ⟨hgathers, orItself_ne_nil (Or.inr (hall name hname)), fun hn => ?_⟩
    have hn₁ : n ∈ entered ++ [name] := List.mem_append_left [name] hn
    have hfinds := hvisits.findsTips hn₁
    have hgathered := ((hvisits.mono fun _ _ _ _ hQ => hQ.gathers).gathered hn₁).isPrefix
    have hself : name ∈ entered ++ [name] := List.mem_concat_self
    -- the node is a tip if and only if all its parents are skipped
    have hnil : found = [] ↔ workflow.Tip entered' name := by
      rw [hvisits.eq_nil_iff hn₁, tip_iff_of_isPrefix hgathered hself, tip_concat_iff hnot,
        and_iff_right rfl]
    by_cases hfound : found = []
    · rw [orItself, if_pos ⟨hfound, hall name hname⟩]
      refine ⟨fun r hr => Or.inr ?_, fun r hr hnot' htip => List.mem_singleton.mpr ?_⟩
      · rw [List.mem_singleton.mp hr]
        exact ⟨hgathered.subset hself, hnil.mp hfound⟩
      · by_contra hne
        have := hfinds.complete r hr (by simp [hnot', hne]) htip
        simp [hfound] at this
    · rw [orItself_of_ne_nil hfound]
      refine ⟨hfinds.sound, fun r hr hnot' htip => ?_⟩
      have hne : r ≠ name := fun heq => hfound (hnil.mpr (heq ▸ htip))
      exact hfinds.complete r hr (by simp [hnot', hne]) htip

/-! ## The order in which the nodes are entered -/

variable (workflow) in
/-- The nodes a node gets its data from, and the node itself, in the order a depth-first traversal
along the connections enters them. -/
def ancestorOrder (nodeName : String) : List String :=
  (explore workflow.mainParents (workflow.nodes.size + 1) nodeName {}).entered

variable (workflow) in
/-- The search enters the nodes a depth-first traversal enters. -/
structure Explores (name : String) (entered below entered' : List String) : Prop where
  le : entered.length ≤ entered'.length
  explore : ∀ fuel (t : Trace String), t.entered = entered →
    workflow.nodes.size < fuel + entered.length →
    (explore workflow.mainParents fuel name t).entered = entered'

theorem Visits.explores (h : Visits workflow workflow.Explores cs found entered found' entered') :
    entered.length ≤ entered'.length ∧
    ∀ fuel v (t : Trace String), t.entered = entered →
      workflow.nodes.size < fuel + entered.length →
      (cs.foldl (fun t c => (explore workflow.mainParents fuel c t).traverse v c) t).entered =
        entered' := by
  induction h with
  | nil => exact ⟨le_rfl, fun _ _ _ ht _ => ht⟩
  | @skip c cs found entered found' entered' hc _ _ ih =>
    refine ⟨ih.1, fun fuel v t ht hfuel => ih.2 fuel v _ ?_ hfuel⟩
    rw [Trace.entered_traverse]
    cases fuel with
    | zero => exact ht
    | succ fuel => rw [explore, if_pos (ht ▸ hc), ht]
  | visit _ hcall _ ih =>
    refine ⟨hcall.le.trans ih.1, fun fuel v t ht hfuel => ih.2 fuel v _ ?_ ?_⟩
    · exact hcall.explore fuel t ht hfuel
    · have := hcall.le
      omega

theorem searchCases_explores : workflow.SearchCases workflow.Explores where
  leaf name entered hentered hname hleaf := by
    refine ⟨(hentered.addTo hname).2, fun fuel t ht hfuel => ?_⟩
    obtain ⟨fuel, rfl⟩ : ∃ k, fuel = k + 1 :=
      Nat.exists_eq_add_one.mpr (by have := hentered.length_le; omega)
    rw [explore, mainParents_eq_nil hleaf, ht, addTo]
    split_ifs
    · exact ht
    · rw [List.foldl_nil, Trace.enter, ht]
  expand name entered found entered' hentered hname hname' hnot hvisits := by
    obtain ⟨hle, hexplore⟩ := hvisits.explores
    rw [List.length_append, List.length_singleton] at hle
    refine ⟨by omega, fun fuel t ht hfuel => ?_⟩
    obtain ⟨fuel, rfl⟩ : ∃ k, fuel = k + 1 :=
      Nat.exists_eq_add_one.mpr (by have := hentered.length_le; omega)
    rw [explore, if_neg (ht ▸ hnot)]
    refine hexplore fuel name _ (by rw [Trace.enter, ht]) ?_
    rw [List.length_append, List.length_singleton]
    omega

theorem SearchCases.and {Q' : SearchProperty} (h : workflow.SearchCases Q)
    (h' : workflow.SearchCases Q') :
    workflow.SearchCases fun name entered found entered' =>
      Q name entered found entered' ∧ Q' name entered found entered' where
  leaf name entered hentered hname hleaf :=
    ⟨h.leaf name entered hentered hname hleaf, h'.leaf name entered hentered hname hleaf⟩
  expand name entered found entered' hentered hname hname' hnot hvisits :=
    ⟨h.expand name entered found entered' hentered hname hname' hnot
        (hvisits.mono fun _ _ _ _ hQ => hQ.1),
      h'.expand name entered found entered' hentered hname hname' hnot
        (hvisits.mono fun _ _ _ _ hQ => hQ.2)⟩

/-! ## Roots -/

variable (workflow) in
/-- `x` gets its data from `y`, directly or through other nodes. -/
def GetsDataFrom : String → String → Prop := TransGen fun a b => b ∈ workflow.mainParents a

variable (workflow) in
/-- The node gets no data from any node of the workflow. -/
def IsRoot (nodeName : String) : Prop := workflow.mainParents nodeName = []

theorem hasMainInputs_of_mainParents (h : workflow.mainParents name ≠ []) :
    workflow.hasMainInputs name = true := by
  by_contra hmain
  exact h (mainParents_eq_nil (by simpa using hmain))

/-- The nodes entered are those the first one gets its data from. -/
theorem Gathered.mem_iff {r : String}
    (h : workflow.Gathered n (workflow.mainParents n) found [n] found' entered') (hne : r ≠ n) :
    r ∈ entered' ↔ workflow.GetsDataFrom n r := by
  constructor
  · intro hr
    obtain ⟨c, hc, -, hfeeds⟩ := (h.reached r hr).resolve_left (by simpa using hne)
    exact TransGen.head' hc (hfeeds.lift id fun _ _ hstep => hstep.1)
  · intro hr
    clear hne
    induction hr with
    | single hp => exact h.covers _ hp
    | @tail y p _ hp ih =>
      by_cases hy : y = n
      · exact h.covers p (hy ▸ hp)
      · exact h.closed y ih (by simpa using hy) p hp

theorem Feeds.ne {r : String} (h : workflow.Feeds n c r) (hc : c ≠ n) : r ≠ n := by
  rcases ReflTransGen.cases_tail h with rfl | ⟨_, _, hstep⟩
  · exact hc
  · exact hstep.2

theorem IsRoot.tip {r : String} (h : workflow.IsRoot r) (entered : List String) :
    workflow.Tip entered r := by
  intro p hp
  rw [IsRoot] at h
  rw [h] at hp
  exact absurd hp List.not_mem_nil

theorem not_tip_iff {r : String} :
    ¬workflow.Tip entered r ↔ ∃ p ∈ workflow.mainParents r,
      workflow.hasMainInputs p = false ∨ entered.idxOf r < entered.idxOf p := by
  unfold Tip
  push Not
  simp only [← Bool.not_eq_true, imp_iff_not_or]

/-- `Start` leads to `Shared`, and `Shared` to `Merge` by way of `Left` and of `Right`. -/
def sharedWorkflow : Workflow where
  nodes := setNodes [.named "Start", .named "Shared", .named "Left", .named "Right", .named "Merge"]
  connectionsByDestinationNode :=
    ((((∅ : IConnections).set "Shared" ((∅ : INodeConnections).set .main
      [some [⟨"Start", .main, 0⟩]])).set "Left" ((∅ : INodeConnections).set .main
        [some [⟨"Shared", .main, 0⟩]])).set "Right" ((∅ : INodeConnections).set .main
          [some [⟨"Shared", .main, 0⟩]])).set "Merge" ((∅ : INodeConnections).set .main
            [some [⟨"Left", .main, 0⟩], some [⟨"Right", .main, 0⟩]])
  name_of_get? := name_of_setNodes

theorem enabled_sharedWorkflow (name : String) (node : INode)
    (h : sharedWorkflow.nodes.get? name = some node) : node.disabled ≠ some true := by
  have hall : ∀ node ∈ sharedWorkflow.nodes.values, node.disabled ≠ some true := by
    decide
  exact hall node (OrderedMap.mem_values_iff.mpr ⟨name, h⟩)

theorem GetsDataFrom.rank_lt (rank : String → ℕ)
    (hrank : ∀ x ∈ workflow.connectionsByDestinationNode.keys, ∀ p ∈ workflow.mainParents x,
      rank p < rank x) {x y : String} (h : workflow.GetsDataFrom x y) : rank y < rank x := by
  have hstep : ∀ a b, b ∈ workflow.mainParents a → rank b < rank a := by
    intro a b hb
    have hmain := hasMainInputs_of_mainParents (List.ne_nil_of_mem hb)
    obtain ⟨main, hmain⟩ := Option.isSome_iff_exists.mp hmain
    obtain ⟨inputs, hinputs, -⟩ := Option.bind_eq_some_iff.mp hmain
    exact hrank a (OrderedMap.mem_keys_iff.mpr ⟨inputs, hinputs⟩) b hb
  induction h with
  | single hp => exact hstep _ _ hp
  | tail _ hp ih => exact (hstep _ _ hp).trans ih

end Workflow

end N8n
