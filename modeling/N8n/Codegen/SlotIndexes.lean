import N8n.Codegen.SemanticRegistry

/-!
# Indexes of slots

The code for a merge reads the index of an output or an input back from its name. All names are
read back as the index they were given for, but for one : `getOutputIndex` does not know the
`fallback` of a Switch and takes it for the first output (`slotsDecode_iff`).
-/

open Lib

namespace N8n.Codegen

/-- The name of an output. A type that names a property every object inherits finds that one in
the registry, and the code throws. -/
def getOutputName? (type : String) (index : ℕ) (node : NodeJSON) : Option String :=
  if type ∈ objectPrototypeKeys then none else some (getOutputName type index node)

/-- The name of an input, with the same exception. -/
def getInputName? (type : String) (index : ℕ) (node : NodeJSON) : Option String :=
  if type ∈ objectPrototypeKeys then none else some (getInputName type index node)

def extractInputIndex (slotName : String) : ℕ := (trailingNumber? slotName).getD 0

def getOutputIndex (outputName : String) : ℕ :=
  if outputName = "trueBranch" then 0
  else if outputName = "falseBranch" then 1
  else if outputName = "done" then 0
  else if outputName = "loop" then 1
  else if outputName = "error" then 0
  else ((numberAfter? "output" outputName).or (numberAfter? "case" outputName)).getD 0

/-- The names of the output and the input at an index are read back as that index, where the
output is not the error output. -/
structure SlotsDecode (type : String) (index : ℕ) (node : NodeJSON) : Prop where
  output : ∃ name, getOutputName? type index node = some name ∧
    (name ≠ "error" → getOutputIndex name = index)
  input : ∃ name, getInputName? type index node = some name ∧ extractInputIndex name = index

def switchType : String := "n8n-nodes-base.switch"

/-- The output of a Switch after those of its cases. -/
def IsFallback (type : String) (index : ℕ) (node : NodeJSON) : Prop :=
  type = switchType ∧ index = switchCases node

/-! ## Reading names -/

/-- The names that have an index of their own have no numbers. -/
theorem getOutputIndex_of_numbered {stem : String} (hstem : letters stem = stem.toList)
    (hnames : ∀ name ∈ ["trueBranch", "falseBranch", "done", "loop", "error"],
      letters name ≠ stem.toList) (n : ℕ) :
    getOutputIndex (numbered stem n) =
      ((numberAfter? "output" (numbered stem n)).or
        (numberAfter? "case" (numbered stem n))).getD 0 := by
  have hne : ∀ name ∈ ["trueBranch", "falseBranch", "done", "loop", "error"],
      numbered stem n ≠ name :=
    fun name hname => (ne_numbered hstem (.inr (hnames name hname)) n).symm
  rw [getOutputIndex, if_neg (hne _ (by decide)), if_neg (hne _ (by decide)),
    if_neg (hne _ (by decide)), if_neg (hne _ (by decide)), if_neg (hne _ (by decide))]

theorem getOutputIndex_output (n : ℕ) : getOutputIndex (numbered "output" n) = n := by
  rw [getOutputIndex_of_numbered (by decide) (by decide), numberAfter?_numbered]
  rfl

theorem getOutputIndex_case (n : ℕ) : getOutputIndex (numbered "case" n) = n := by
  have houtput : ¬"output".toList <+: (numbered "case" n).toList := by
    rw [numbered, String.toList_append]
    intro h
    exact absurd (List.cons_prefix_cons.mp h).1 (by decide)
  rw [getOutputIndex_of_numbered (by decide) (by decide), numberAfter?_eq_none houtput,
    numberAfter?_numbered]
  rfl

theorem extractInputIndex_numbered {stem : String}
    (h : stem.toList.rtakeWhile Char.isDigit = []) (n : ℕ) :
    extractInputIndex (numbered stem n) = n := by
  rw [extractInputIndex, trailingNumber?_numbered h]
  rfl

/-- Names that are read back, one after the other, and the numbered ones after them. -/
theorem decode_nameAt {decode : String → ℕ} {names : List String} {stem : String}
    (hstem : ∀ n, decode (numbered stem n) = n)
    (hnames : ∀ i (h : i < names.length), decode names[i] = i) (index : ℕ) :
    decode (nameAt names stem index) = index := by
  by_cases h : index < names.length
  · rw [nameAt, List.getD_eq_getElem _ _ h, hnames index h]
  · rw [nameAt, List.getD_eq_default _ _ (not_lt.mp h), hstem]

/-! ## The names of the registry -/

theorem decode_inputName (type : String) (index : ℕ) (node : NodeJSON) :
    extractInputIndex (getInputName type index node) = index := by
  have hstem : ∀ n, extractInputIndex (numbered "input" n) = n :=
    extractInputIndex_numbered (by decide)
  have hinput : ∀ i (h : i < ["input"].length), extractInputIndex ["input"][i] = i := by decide
  unfold getInputName
  cases h : semanticsOf type with
  | none => exact hstem index
  | some semantics =>
    rcases semanticsOf_cases h with rfl | rfl | rfl | rfl
    · exact decode_nameAt hstem hinput index
    · exact decode_nameAt hstem hinput index
    · refine decode_nameAt hstem (fun i hi => ?_) index
      simp only [mergeSemantics, List.getElem_map, List.getElem_range]
      exact extractInputIndex_numbered (by decide) i
    · exact decode_nameAt hstem hinput index

/-- Of the outputs of a Switch, the `fallback` is taken for the first. -/
theorem decode_switchOutput_iff (index : ℕ) (node : NodeJSON) :
    getOutputIndex (nameAt (switchSemantics.outputs node) "output" index) = index ↔
      (index = switchCases node → index = 0) := by
  have hlength : (switchSemantics.outputs node).length = switchCases node + 1 := by
    simp [switchSemantics]
  rcases lt_trichotomy index (switchCases node) with hlt | rfl | hgt
  · have hname : nameAt (switchSemantics.outputs node) "output" index = numbered "case" index := by
      rw [nameAt, List.getD_eq_getElem _ _ (by omega)]
      simp [switchSemantics, hlt]
    rw [hname, getOutputIndex_case]
    exact iff_of_true rfl fun h => absurd h hlt.ne
  · have hname : nameAt (switchSemantics.outputs node) "output" (switchCases node) = "fallback" := by
      rw [nameAt, List.getD_eq_getElem _ _ (by omega)]
      simp [switchSemantics]
    have hfallback : getOutputIndex "fallback" = 0 := by decide
    rw [hname, hfallback, forall_prop_of_true rfl]
    exact eq_comm
  · rw [nameAt, List.getD_eq_default _ _ (by omega), getOutputIndex_output]
    exact iff_of_true rfl fun h => absurd h hgt.ne'

/-- Of the other types, all outputs are read back. -/
theorem decode_naturalOutputName {type : String} (index : ℕ) (node : NodeJSON)
    (h : type ≠ switchType) : getOutputIndex (naturalOutputName type index node) = index := by
  unfold naturalOutputName
  cases hsemantics : semanticsOf type with
  | none => exact getOutputIndex_output index
  | some semantics =>
    have hmem := mem_of_semanticsOf hsemantics
    simp only [NODE_SEMANTICS, List.mem_cons, Prod.mk.injEq, List.not_mem_nil, or_false] at hmem
    rcases hmem with ⟨-, rfl⟩ | ⟨htype, -⟩ | ⟨-, rfl⟩ | ⟨-, rfl⟩
    · have hnames : ∀ i (hi : i < ["trueBranch", "falseBranch"].length),
          getOutputIndex ["trueBranch", "falseBranch"][i] = i := by decide
      exact decode_nameAt getOutputIndex_output hnames index
    · exact absurd htype h
    · have hnames : ∀ i (hi : i < ["output"].length), getOutputIndex ["output"][i] = i := by decide
      exact decode_nameAt getOutputIndex_output hnames index
    · have hnames : ∀ i (hi : i < ["done", "loop"].length),
          getOutputIndex ["done", "loop"][i] = i := by decide
      exact decode_nameAt getOutputIndex_output hnames index

theorem naturalOutputName_switch (index : ℕ) (node : NodeJSON) :
    naturalOutputName switchType index node =
      nameAt (switchSemantics.outputs node) "output" index := by
  have hsemantics : semanticsOf switchType = some switchSemantics := rfl
  simp only [naturalOutputName, hsemantics]

theorem getErrorOutputIndex_switch (node : NodeJSON) :
    getErrorOutputIndex switchType node = switchCases node + 1 := by
  have hsemantics : semanticsOf switchType = some switchSemantics := rfl
  simp [getErrorOutputIndex, hsemantics, switchSemantics]

/-- The outputs but for the error output are read back, except the `fallback`. -/
theorem decode_outputName_iff (type : String) (index : ℕ) (node : NodeJSON) :
    (getOutputName type index node ≠ "error" →
        getOutputIndex (getOutputName type index node) = index) ↔
      (IsFallback type index node → index = 0) := by
  by_cases herror : hasErrorOutput node ∧ index = getErrorOutputIndex type node
  · refine iff_of_true (fun h => absurd (getOutputName_eq_error_iff.mpr herror) h) ?_
    rintro ⟨rfl, hindex⟩
    rw [getErrorOutputIndex_switch] at herror
    omega
  · rw [forall_prop_of_true fun h => herror (getOutputName_eq_error_iff.mp h), getOutputName,
      if_neg herror]
    by_cases hswitch : type = switchType
    · subst hswitch
      rw [naturalOutputName_switch, decode_switchOutput_iff, IsFallback, and_iff_right rfl]
    · exact iff_of_true (decode_naturalOutputName index node hswitch)
        fun h => absurd h.1 hswitch

/-- The names at an index are read back exactly when the type names nothing that every object
inherits, and the output is not the `fallback` of a Switch, or is its first. -/
theorem slotsDecode_iff (type : String) (index : ℕ) (node : NodeJSON) :
    SlotsDecode type index node ↔
      type ∉ objectPrototypeKeys ∧ (IsFallback type index node → index = 0) := by
  by_cases hinherited : type ∈ objectPrototypeKeys
  · refine iff_of_false (fun h => ?_) fun h => h.1 hinherited
    obtain ⟨name, hname, -⟩ := h.output
    rw [getOutputName?, if_pos hinherited] at hname
    cases hname
  · rw [and_iff_right hinherited, ← decode_outputName_iff]
    have houtput : getOutputName? type index node = some (getOutputName type index node) :=
      if_neg hinherited
    have hinput : getInputName? type index node = some (getInputName type index node) :=
      if_neg hinherited
    constructor
    · rintro ⟨⟨name, hname, hdecode⟩, -⟩
      obtain rfl := Option.some.inj (houtput.symm.trans hname)
      exact hdecode
    · exact fun h => ⟨⟨_, houtput, h⟩, ⟨_, hinput, decode_inputName type index node⟩⟩

/-- The `fallback` after two cases is taken for the first output. -/
theorem slotsDecode_fails_at_fallback : ¬∀ type index node, SlotsDecode type index node := by
  intro h
  let node : NodeJSON :=
    { id := "1", name := some "Switch", type := switchType,
      parameters := some { rules := some { values := some [.null, .null] } } }
  obtain ⟨name, hname, hdecode⟩ := (h switchType 2 node).output
  have hfallback : getOutputName? switchType 2 node = some "fallback" := by decide
  obtain rfl := Option.some.inj (hfallback.symm.trans hname)
  exact absurd (hdecode (by decide)) (by decide)

end N8n.Codegen
