import N8n.Expressions.ChainAgreement

/-!
# Expressions without extensions

Where no property has the name of an extended function and `$if` is not called, the second
part of `extendTransform` changes nothing (`extendCalls_polyfill`). What the polyfill builds
has the names of what it was built from, so a property of nodes that looks only at the names
of properties and callees (`SeesNames`) carries over to it.
-/

namespace N8n.Polyfill

variable {defaultComputed : NodeType → Bool} {isExpressionExtension : String → Bool} {k : ℕ}
  {p : Expr → Bool}

/-- Looks at the names of properties and callees only. -/
structure SeesNames (p : Expr → Bool) : Prop where
  other : ∀ node, isLink node = false → p node
  member : ∀ object object' property property' computed computed' optional optional',
    identifierName property = identifierName property' →
      p (.member object property computed optional) = p (.member object' property' computed' optional')
  call : ∀ callee callee' arguments arguments' optional optional',
    identifierName callee' = identifierName callee ∨ identifierName callee' = none →
      p (.call callee arguments optional) → p (.call callee' arguments' optional')
  calleeless : ∀ callee arguments optional, identifierName callee = none →
    p (.call callee arguments optional)

theorem seesNames_hasNoExtensionName : SeesNames (hasNoExtensionName isExpressionExtension) where
  other node h := by cases node <;> first | rfl | cases h
  member object object' property property' _ _ _ _ h := by
    rw [hasNoExtensionName, hasNoExtensionName, h]
  call _ _ _ _ _ _ _ _ := rfl
  calleeless _ _ _ _ := rfl

theorem seesNames_isNoIfCall : SeesNames isNoIfCall where
  other node h := by cases node <;> first | rfl | cases h
  member _ _ _ _ _ _ _ _ _ := rfl
  call callee callee' _ _ _ _ h hcall := by
    simp only [isNoIfCall, decide_eq_true_eq] at hcall ⊢
    rcases h with h | h
    · rwa [h]
    · simp [h]
  calleeless callee _ _ h := by simp [isNoIfCall, h]

/-! ## The polyfill -/

theorem identifierName_polyfill (node : Expr) (n : ℕ) :
    identifierName (polyfill defaultComputed isExpressionExtension node n).1 =
      identifierName node := by
  cases node <;> rfl

def Patch.everyNode (p : Expr → Bool) : Patch → Prop
  | .member property => N8n.Polyfill.everyNode p property ∧
      ∀ object computed optional, p (.member object property computed optional)
  | .call arguments => everyNodes p arguments

/-- A call can be made on the node, if it is the first patch. -/
def CanCall (p : Expr → Bool) (node : Expr) (patches : List Patch) : Prop :=
  ∀ arguments rest optional, patches = .call arguments :: rest → p (.call node arguments optional)

theorem everyNode_applyPatches (hp : SeesNames p) {node : Expr} {patches : List Patch}
    (hnode : everyNode p node) (hpatches : ∀ patch ∈ patches, patch.everyNode p)
    (hcall : CanCall p node patches) :
    everyNode p (applyPatches defaultComputed node patches) := by
  induction patches generalizing node with
  | nil => exact hnode
  | cons patch patches ih =>
    have hhead := hpatches patch List.mem_cons_self
    have htail := fun patch h => hpatches patch (List.mem_cons_of_mem _ h)
    rw [applyPatches, List.foldl_cons, ← applyPatches]
    cases patch with
    | member property =>
      refine ih ?_ htail fun _ _ _ _ => hp.calleeless _ _ _ rfl
      simp only [Patch.apply, everyNode, Bool.and_eq_true]
      exact ⟨⟨hhead.2 _ _ _, hnode⟩, hhead.1⟩
    | call arguments =>
      refine ih ?_ htail fun _ _ _ _ => hp.calleeless _ _ _ rfl
      simp only [Patch.apply, everyNode, Bool.and_eq_true]
      exact ⟨⟨hcall _ _ _ rfl, hnode⟩, hhead⟩

theorem everyNode_patchedStack (hp : SeesNames p) {node : Expr} {patches : List Patch}
    (hextension : noOptionalExtension isExpressionExtension node) (hnode : everyNode p node)
    (hpatches : ∀ patch ∈ patches, patch.everyNode p) (hcall : CanCall p node patches) :
    ∀ part ∈ patchedStack defaultComputed isExpressionExtension k node patches false,
      everyNode p part := by
  have hslot : everyNode p (.slot .value k) := hp.other _ rfl
  have hslotCall : ∀ patches, CanCall p (.slot .value k) patches :=
    fun _ _ _ _ _ => hp.calleeless _ _ _ rfl
  induction node using evalCut.induct generalizing patches with
  | case1 object property computed optional ih =>
    simp only [everyNode, Bool.and_eq_true] at hnode
    have hpatch : ∀ patch ∈ Patch.member property :: patches, patch.everyNode p := by
      refine List.forall_mem_cons.mpr ⟨⟨hnode.2, fun object computed optional => ?_⟩, hpatches⟩
      rw [hp.member _ _ _ property _ _ _ _ rfl] at hnode
      exact hnode.1.1
    rw [patchedStack]
    split_ifs
    · refine List.forall_mem_append.mpr ⟨?_, List.forall_mem_singleton.mpr ?_⟩
      · exact ih hextension hnode.1.2 (fun _ h => absurd h List.not_mem_nil)
          fun _ _ _ h => absurd h.symm (List.cons_ne_nil _ _)
      · exact everyNode_applyPatches hp hslot hpatch (hslotCall _)
    · exact ih hextension hnode.1.2 hpatch fun _ _ _ h => by cases h
  | case2 callee arguments optional ih =>
    simp only [noOptionalExtension, Bool.and_eq_true] at hextension
    simp only [everyNode, Bool.and_eq_true] at hnode
    have hpatch : ∀ patch ∈ Patch.call arguments :: patches, patch.everyNode p :=
      List.forall_mem_cons.mpr ⟨hnode.2, hpatches⟩
    rw [patchedStack]
    split_ifs with hoptional
    · have hwrap : isExtensionMember isExpressionExtension callee = false := by
        simpa [hoptional] using hextension.1
      rw [hwrap]
      refine List.forall_mem_append.mpr ⟨?_, List.forall_mem_singleton.mpr ?_⟩
      · exact ih hextension.2 hnode.1.2 (fun _ h => absurd h List.not_mem_nil)
          fun _ _ _ h => absurd h.symm (List.cons_ne_nil _ _)
      · exact everyNode_applyPatches hp hslot hpatch (hslotCall _)
    · exact ih hextension.2 hnode.1.2 hpatch fun _ _ _ _ =>
        hp.call _ _ _ _ _ _ (.inl rfl) hnode.1.1
  | case3 node hmember hcallee =>
    rw [patchedStack]
    · exact List.forall_mem_singleton.mpr (everyNode_applyPatches hp hnode hpatches hcall)
    · exact hmember
    · exact hcallee

theorem everyNodes_iff (nodes : List Expr) :
    everyNodes p nodes ↔ ∀ node ∈ nodes, everyNode p node := by
  induction nodes with
  | nil => simp [everyNodes]
  | cons node nodes ih => simp [everyNodes, ih]

theorem everyNode_replaceChain (hp : SeesNames p) {node : Expr}
    (hextension : noOptionalExtension isExpressionExtension node) (hnode : everyNode p node) :
    everyNode p (replaceChain defaultComputed isExpressionExtension k node) := by
  have hparts : ∀ part ∈ patchedStack defaultComputed isExpressionExtension k node [] false, _ :=
    everyNode_patchedStack hp hextension hnode (fun _ h => absurd h List.not_mem_nil)
      fun _ _ _ h => absurd h.symm (List.cons_ne_nil _ _)
  have hcheck : ∀ node, everyNode p node → everyNode p (buildCancelCheckWrapper k node) := by
    intro node h
    simp only [buildCancelCheckWrapper, undefinedIdentifier, everyNode, Bool.and_eq_true]
    exact ⟨⟨⟨hp.other _ rfl, ⟨hp.other _ rfl, hp.other _ rfl⟩, hp.other _ rfl⟩, hp.other _ rfl⟩, h⟩
  have hassign : ∀ node, everyNode p node →
      everyNode p (buildCancelAssignWrapper k (buildOptionalWrapper k node)) := by
    intro node h
    simp only [buildCancelAssignWrapper, buildOptionalWrapper, buildValueAssignWrapper,
      undefinedIdentifier, everyNode, Bool.and_eq_true]
    exact ⟨hp.other _ rfl, ⟨hp.other _ rfl, ⟨hp.other _ rfl, hp.other _ rfl, h⟩, hp.other _ rfl⟩,
      hp.other _ rfl⟩
  have hwrap : ∀ length part, everyNode p part.1 → everyNode p (wrapPart k length part) := by
    intro length part h
    rw [wrapPart]
    split_ifs
    · exact hcheck _ (hassign _ h)
    · exact hcheck _ h
    · exact hassign _ h
    · exact h
  rw [replaceChain, everyNode, Bool.and_eq_true, everyNodes_iff]
  refine ⟨hp.other _ rfl, fun node hnode => ?_⟩
  obtain ⟨part, hpart, rfl⟩ := List.mem_map.mp hnode
  exact hwrap _ _ (hparts _ (List.fst_mem_of_mem_zipIdx hpart))

theorem noOptionalExtension_of_everyNode {node : Expr}
    (h : everyNode (hasNoExtensionName isExpressionExtension) node) (n : ℕ) :
    noOptionalExtension isExpressionExtension
      (polyfill defaultComputed isExpressionExtension node n).1 := by
  induction node using evalCut.induct generalizing n with
  | case1 object property computed optional ih =>
    simp only [everyNode, Bool.and_eq_true] at h
    exact ih h.1.2 n
  | case2 callee arguments optional ih =>
    simp only [everyNode, Bool.and_eq_true] at h
    have hcallee : isExtensionMember isExpressionExtension
        (polyfill defaultComputed isExpressionExtension callee n).1 = false := by
      have hnode := h.1.2
      cases callee with
      | member object property computed optional =>
        simp only [everyNode, Bool.and_eq_true, hasNoExtensionName, Bool.not_eq_true'] at hnode
        cases property <;> first | rfl | exact hnode.1.1
      | _ => rfl
    rw [polyfill, noOptionalExtension, hcallee, ih h.1.2 n, Bool.and_false]
    rfl
  | case3 node hmember hcall =>
    cases node with
    | member object property computed optional => exact (hmember _ _ _ _ rfl).elim
    | call callee arguments optional => exact (hcall _ _ _ rfl).elim
    | _ => rfl

mutual

/-- What the polyfill builds has the names of what it was built from. -/
theorem everyNode_polyfill (hp : SeesNames p) (node : Expr) (n : ℕ)
    (hextension : everyNode (hasNoExtensionName isExpressionExtension) node)
    (h : everyNode p node) :
    everyNode p (polyfill defaultComputed isExpressionExtension node n).1 := by
  cases node with
  | member object property computed optional =>
    simp only [everyNode, Bool.and_eq_true] at h hextension
    simp only [polyfill, everyNode, Bool.and_eq_true]
    refine ⟨⟨?_, everyNode_polyfill hp object n hextension.1.2 h.1.2⟩,
      everyNode_polyfill hp property _ hextension.2 h.2⟩
    rw [hp.member _ object _ property _ computed _ optional (identifierName_polyfill property _)]
    exact h.1.1
  | call callee arguments optional =>
    simp only [everyNode, Bool.and_eq_true] at h hextension
    simp only [polyfill, everyNode, Bool.and_eq_true]
    exact ⟨⟨hp.call _ _ _ _ _ _ (.inl (identifierName_polyfill callee _)) h.1.1,
      everyNode_polyfill hp callee n hextension.1.2 h.1.2⟩,
      everyNodes_polyfillAll hp arguments _ hextension.2 h.2⟩
  | chain expression =>
    simp only [everyNode, Bool.and_eq_true] at h hextension
    exact everyNode_replaceChain hp (noOptionalExtension_of_everyNode hextension.2 n)
      (everyNode_polyfill hp expression n hextension.2 h.2)
  | binary operator left right =>
    simp only [everyNode, Bool.and_eq_true] at h hextension
    simp only [polyfill, everyNode, Bool.and_eq_true]
    exact ⟨⟨hp.other _ rfl, everyNode_polyfill hp left n hextension.1.2 h.1.2⟩,
      everyNode_polyfill hp right _ hextension.2 h.2⟩
  | coalesce left right =>
    simp only [everyNode, Bool.and_eq_true] at h hextension
    simp only [polyfill, everyNode, Bool.and_eq_true]
    exact ⟨⟨hp.other _ rfl, everyNode_polyfill hp left n hextension.1.2 h.1.2⟩,
      everyNode_polyfill hp right _ hextension.2 h.2⟩
  | conditional test consequent alternate =>
    simp only [everyNode, Bool.and_eq_true] at h hextension
    simp only [polyfill, everyNode, Bool.and_eq_true]
    exact ⟨⟨⟨hp.other _ rfl, everyNode_polyfill hp test n hextension.1.1.2 h.1.1.2⟩,
      everyNode_polyfill hp consequent _ hextension.1.2 h.1.2⟩,
      everyNode_polyfill hp alternate _ hextension.2 h.2⟩
  | sequence expressions =>
    simp only [everyNode, Bool.and_eq_true] at h hextension
    simp only [polyfill, everyNode, Bool.and_eq_true]
    exact ⟨hp.other _ rfl, everyNodes_polyfillAll hp expressions n hextension.2 h.2⟩
  | array elements =>
    simp only [everyNode, Bool.and_eq_true] at h hextension
    simp only [polyfill, everyNode, Bool.and_eq_true]
    exact ⟨hp.other _ rfl, everyNodes_polyfillAll hp elements n hextension.2 h.2⟩
  | assignSlot kind k right =>
    simp only [everyNode, Bool.and_eq_true] at h hextension
    simp only [polyfill, everyNode, Bool.and_eq_true]
    exact ⟨hp.other _ rfl, everyNode_polyfill hp right n hextension.2 h.2⟩
  | identifier name => exact h
  | literal value => exact h
  | slot kind k => exact h

theorem everyNodes_polyfillAll (hp : SeesNames p) (nodes : List Expr) (n : ℕ)
    (hextension : everyNodes (hasNoExtensionName isExpressionExtension) nodes)
    (h : everyNodes p nodes) :
    everyNodes p (polyfillAll defaultComputed isExpressionExtension nodes n).1 := by
  cases nodes with
  | nil => rfl
  | cons node nodes =>
    simp only [everyNodes, Bool.and_eq_true] at h hextension
    simp only [polyfillAll, everyNodes, Bool.and_eq_true]
    exact ⟨everyNode_polyfill hp node n hextension.1 h.1,
      everyNodes_polyfillAll hp nodes _ hextension.2 h.2⟩

end

/-! ## Calls of extended functions -/

theorem extendCall_eq_some {callee : Expr} {arguments : List Expr} {optional : Bool}
    (hextension : everyNode (hasNoExtensionName isExpressionExtension) callee)
    (h : isNoIfCall (.call callee arguments optional)) :
    extendCall isExpressionExtension callee arguments optional =
      some (.call callee arguments optional) := by
  cases callee with
  | member object property computed optional' =>
    simp only [everyNode, Bool.and_eq_true, hasNoExtensionName, Bool.not_eq_true'] at hextension
    cases property with
    | identifier name =>
      have hname : isExpressionExtension name = false := hextension.1.1
      simp [extendCall, hname]
    | _ => rfl
  | identifier name =>
    have hname : name ≠ "$if" := by simpa [isNoIfCall, identifierName] using h
    simp [extendCall, hname]
  | _ => rfl

mutual

theorem extendCalls_eq_some (node : Expr)
    (hextension : everyNode (hasNoExtensionName isExpressionExtension) node)
    (h : everyNode isNoIfCall node) : extendCalls isExpressionExtension node = some node := by
  cases node with
  | member object property computed optional =>
    simp only [everyNode, Bool.and_eq_true] at h hextension
    rw [extendCalls, extendCalls_eq_some object hextension.1.2 h.1.2,
      extendCalls_eq_some property hextension.2 h.2]
    rfl
  | call callee arguments optional =>
    simp only [everyNode, Bool.and_eq_true] at h hextension
    rw [extendCalls, extendCalls_eq_some callee hextension.1.2 h.1.2,
      extendCallsAll_eq_some arguments hextension.2 h.2]
    exact extendCall_eq_some hextension.1.2 h.1.1
  | chain expression =>
    simp only [everyNode, Bool.and_eq_true] at h hextension
    rw [extendCalls, extendCalls_eq_some expression hextension.2 h.2]
    rfl
  | binary operator left right =>
    simp only [everyNode, Bool.and_eq_true] at h hextension
    rw [extendCalls, extendCalls_eq_some left hextension.1.2 h.1.2,
      extendCalls_eq_some right hextension.2 h.2]
    rfl
  | coalesce left right =>
    simp only [everyNode, Bool.and_eq_true] at h hextension
    rw [extendCalls, extendCalls_eq_some left hextension.1.2 h.1.2,
      extendCalls_eq_some right hextension.2 h.2]
    rfl
  | conditional test consequent alternate =>
    simp only [everyNode, Bool.and_eq_true] at h hextension
    rw [extendCalls, extendCalls_eq_some test hextension.1.1.2 h.1.1.2,
      extendCalls_eq_some consequent hextension.1.2 h.1.2,
      extendCalls_eq_some alternate hextension.2 h.2]
    rfl
  | sequence expressions =>
    simp only [everyNode, Bool.and_eq_true] at h hextension
    rw [extendCalls, extendCallsAll_eq_some expressions hextension.2 h.2]
    rfl
  | array elements =>
    simp only [everyNode, Bool.and_eq_true] at h hextension
    rw [extendCalls, extendCallsAll_eq_some elements hextension.2 h.2]
    rfl
  | assignSlot kind k right =>
    simp only [everyNode, Bool.and_eq_true] at h hextension
    rw [extendCalls, extendCalls_eq_some right hextension.2 h.2]
    rfl
  | identifier name => rfl
  | literal value => rfl
  | slot kind k => rfl

theorem extendCallsAll_eq_some (nodes : List Expr)
    (hextension : everyNodes (hasNoExtensionName isExpressionExtension) nodes)
    (h : everyNodes isNoIfCall nodes) : extendCallsAll isExpressionExtension nodes = some nodes := by
  cases nodes with
  | nil => rfl
  | cons node nodes =>
    simp only [everyNodes, Bool.and_eq_true] at h hextension
    rw [extendCallsAll, extendCalls_eq_some node hextension.1 h.1,
      extendCallsAll_eq_some nodes hextension.2 h.2]
    rfl

end

/-- The second part of the transform leaves what the polyfill made. -/
theorem extendCalls_polyfill {node : Expr}
    (hextension : everyNode (hasNoExtensionName isExpressionExtension) node)
    (h : everyNode isNoIfCall node) (n : ℕ) :
    extendCalls isExpressionExtension (polyfill defaultComputed isExpressionExtension node n).1 =
      some (polyfill defaultComputed isExpressionExtension node n).1 :=
  extendCalls_eq_some _ (everyNode_polyfill seesNames_hasNoExtensionName node n hextension hextension)
    (everyNode_polyfill seesNames_isNoIfCall node n hextension h)

end N8n.Polyfill
