import N8n.Interfaces
import N8n.Lib.Json
import N8n.Lib.NumberedNames

/-!
# The semantic registry

The code generator gives the inputs and outputs of a node names in place of indexes. IF,
Switch, Merge and SplitInBatches nodes name theirs; an index without a name of its own is
numbered. With `onError` set to `continueErrorOutput` the output after the natural ones is
named `error`.

Both naming functions are injective in the index (`getOutputName_injective`,
`getInputName_injective`), and the error output is the only one named `error`
(`getOutputName_eq_error_iff`).
-/

open Lib

namespace N8n.Codegen

/-- The parameters the registry reads. -/
structure Rules where
  rules : Option (List Json) := none
  values : Option (List Json) := none

structure NodeParameters where
  rules : Option Rules := none
  numberInputs : Option ℕ := none

structure NodeJSON where
  id : String
  name : Option String
  type : String
  parameters : Option NodeParameters := none
  onError : Option OnError := none

inductive CompositeType where
  | ifElse | switchCase | merge | splitInBatches
  deriving DecidableEq, Repr

structure NodeSemantics where
  outputs : NodeJSON → List String
  inputs : NodeJSON → List String
  cycleOutput : Option String := none
  composite : Option CompositeType := none

def switchCases (node : NodeJSON) : ℕ :=
  let rules := node.parameters.bind NodeParameters.rules
  let rulesArray := (rules.bind Rules.rules).or (rules.bind Rules.values)
  (rulesArray.map List.length).getD 4

def mergeInputs (node : NodeJSON) : ℕ :=
  (node.parameters.bind NodeParameters.numberInputs).getD 2

def ifSemantics : NodeSemantics where
  outputs _ := ["trueBranch", "falseBranch"]
  inputs _ := ["input"]
  composite := some .ifElse

def switchSemantics : NodeSemantics where
  outputs node := (List.range (switchCases node)).map (numbered "case") ++ ["fallback"]
  inputs _ := ["input"]
  composite := some .switchCase

def mergeSemantics : NodeSemantics where
  outputs _ := ["output"]
  inputs node := (List.range (mergeInputs node)).map (numbered "branch")
  composite := some .merge

def splitInBatchesSemantics : NodeSemantics where
  outputs _ := ["done", "loop"]
  inputs _ := ["input"]
  cycleOutput := some "loop"
  composite := some .splitInBatches

def NODE_SEMANTICS : List (String × NodeSemantics) :=
  [("n8n-nodes-base.if", ifSemantics),
    ("n8n-nodes-base.switch", switchSemantics),
    ("n8n-nodes-base.merge", mergeSemantics),
    ("n8n-nodes-base.splitInBatches", splitInBatchesSemantics)]

def semanticsOf (type : String) : Option NodeSemantics := NODE_SEMANTICS.lookup type

def hasErrorOutput (node : NodeJSON) : Bool := node.onError = some .continueErrorOutput

def getErrorOutputIndex (type : String) (node : NodeJSON) : ℕ :=
  match semanticsOf type with
  | some semantics => (semantics.outputs node).length
  | none => 1

/-- The name of an output that is not the error output. -/
def naturalOutputName (type : String) (index : ℕ) (node : NodeJSON) : String :=
  match semanticsOf type with
  | none => numbered "output" index
  | some semantics => nameAt (semantics.outputs node) "output" index

def getOutputName (type : String) (index : ℕ) (node : NodeJSON) : String :=
  if hasErrorOutput node ∧ index = getErrorOutputIndex type node then "error"
  else naturalOutputName type index node

def getInputName (type : String) (index : ℕ) (node : NodeJSON) : String :=
  match semanticsOf type with
  | none => numbered "input" index
  | some semantics => nameAt (semantics.inputs node) "input" index

def getCompositeType (type : String) : Option CompositeType :=
  (semanticsOf type).bind NodeSemantics.composite

/-! ## Names determine indexes -/

/-- The names a node type gives are different, are not numbered ones and not `error`. -/
structure GoodNames (names : List String) (stem : String) : Prop where
  nodup : names.Nodup
  not_numbered : ∀ x ∈ names, ∀ n, x ≠ numbered stem n
  ne_error : "error" ∉ names

/-- Names without digits. -/
theorem GoodNames.of_letters {stem : String} (names : List String)
    (hstem : letters stem = stem.toList) (hn : names.Nodup)
    (hnames : ∀ x ∈ names, (x = stem ∨ letters x ≠ stem.toList) ∧ x ≠ "error") :
    GoodNames names stem :=
  ⟨hn, fun x hx => ne_numbered hstem (hnames x hx).1, fun h => (hnames _ h).2 rfl⟩

/-- Names numbered from a stem of their own, and names without digits after them. -/
theorem GoodNames.of_range {stem stem' : String} (n : ℕ) {rest : List String}
    (hstem : letters stem = stem.toList) (hstem' : letters stem' = stem'.toList)
    (hne : stem' ≠ stem) (herror : stem' ≠ "error") (hrest : rest.Nodup)
    (hnames : ∀ x ∈ rest, (x = stem ∨ letters x ≠ stem.toList) ∧ letters x ≠ stem'.toList ∧
      x ≠ "error") :
    GoodNames ((List.range n).map (numbered stem') ++ rest) stem := by
  refine ⟨List.nodup_append.mpr ⟨nodup_map_numbered stem' n, hrest, ?_⟩, ?_, ?_⟩
  · rintro a ha b hb rfl
    obtain ⟨i, -, hi⟩ := List.mem_map.mp ha
    exact ne_numbered hstem' (Or.inr (hnames a hb).2.1) i hi.symm
  · intro x hx m
    rcases List.mem_append.mp hx with hx | hx
    · obtain ⟨i, -, rfl⟩ := List.mem_map.mp hx
      exact numbered_ne_numbered hstem' hstem hne i m
    · exact ne_numbered hstem (hnames x hx).1 m
  · rw [List.mem_append, not_or]
    refine ⟨fun h => ?_, fun h => (hnames _ h).2.2 rfl⟩
    obtain ⟨i, -, hi⟩ := List.mem_map.mp h
    refine ne_numbered hstem' (Or.inr fun hletters => ?_) i hi.symm
    exact herror (String.toList_injective (hletters.symm.trans (by decide)))

theorem mem_of_semanticsOf {type : String} {semantics : NodeSemantics}
    (h : semanticsOf type = some semantics) : (type, semantics) ∈ NODE_SEMANTICS := by
  obtain ⟨before, after, hl, -⟩ := List.lookup_eq_some_iff.mp h
  rw [hl]
  simp

theorem semanticsOf_cases {type : String} {semantics : NodeSemantics}
    (h : semanticsOf type = some semantics) :
    semantics = ifSemantics ∨ semantics = switchSemantics ∨ semantics = mergeSemantics ∨
      semantics = splitInBatchesSemantics := by
  have hmem := mem_of_semanticsOf h
  simp only [NODE_SEMANTICS, List.mem_cons, Prod.mk.injEq, List.not_mem_nil, or_false] at hmem
  exact hmem.imp And.right (Or.imp And.right (Or.imp And.right And.right))

theorem goodNames_outputs {type : String} {semantics : NodeSemantics}
    (h : semanticsOf type = some semantics) (node : NodeJSON) :
    GoodNames (semantics.outputs node) "output" := by
  rcases semanticsOf_cases h with rfl | rfl | rfl | rfl
  · exact .of_letters ["trueBranch", "falseBranch"] (by decide) (by decide) (by decide)
  · exact .of_range _ (by decide) (by decide) (by decide) (by decide) (by decide) (by decide)
  · exact .of_letters ["output"] (by decide) (by decide) (by decide)
  · exact .of_letters ["done", "loop"] (by decide) (by decide) (by decide)

theorem goodNames_input : GoodNames ["input"] "input" :=
  .of_letters _ (by decide) (by decide) (by decide)

theorem goodNames_inputs {type : String} {semantics : NodeSemantics}
    (h : semanticsOf type = some semantics) (node : NodeJSON) :
    GoodNames (semantics.inputs node) "input" := by
  rcases semanticsOf_cases h with rfl | rfl | rfl | rfl
  · exact goodNames_input
  · exact goodNames_input
  · have hbranches : GoodNames ((List.range (mergeInputs node)).map (numbered "branch") ++ [])
        "input" :=
      .of_range _ (by decide) (by decide) (by decide) (by decide) (by decide) (by simp)
    simpa [mergeSemantics] using hbranches
  · exact goodNames_input

theorem naturalOutputName_injective (type : String) (node : NodeJSON) :
    Function.Injective fun index => naturalOutputName type index node := by
  unfold naturalOutputName
  cases h : semanticsOf type with
  | none => exact numbered_injective "output"
  | some semantics =>
    have hgood := goodNames_outputs h node
    exact nameAt_injective hgood.nodup hgood.not_numbered

theorem naturalOutputName_ne_error (type : String) (index : ℕ) (node : NodeJSON) :
    naturalOutputName type index node ≠ "error" := by
  have hnumbered : ∀ n, "error" ≠ numbered "output" n :=
    ne_numbered (by decide) (Or.inr (by decide))
  unfold naturalOutputName
  cases h : semanticsOf type with
  | none => exact (hnumbered index).symm
  | some semantics =>
    rcases nameAt_mem_or (semantics.outputs node) "output" index with hm | hm
    · exact fun he => (goodNames_outputs h node).ne_error (he ▸ hm)
    · exact fun he => hnumbered index (he.symm.trans hm)

/-- The error output is the only one named `error`. -/
theorem getOutputName_eq_error_iff {type : String} {index : ℕ} {node : NodeJSON} :
    getOutputName type index node = "error" ↔
      hasErrorOutput node ∧ index = getErrorOutputIndex type node := by
  unfold getOutputName
  split_ifs with h
  · exact ⟨fun _ => h, fun _ => rfl⟩
  · exact ⟨fun he => absurd he (naturalOutputName_ne_error type index node), fun he => absurd he h⟩

theorem getOutputName_injective (type : String) (node : NodeJSON) :
    Function.Injective fun index => getOutputName type index node := by
  intro i j hij
  by_cases herror : getOutputName type i node = "error"
  · obtain ⟨-, hi⟩ := getOutputName_eq_error_iff.mp herror
    obtain ⟨-, hj⟩ := getOutputName_eq_error_iff.mp (hij.symm.trans herror)
    rw [hi, hj]
  · have hi := fun h => herror (getOutputName_eq_error_iff.mpr h)
    have hj := fun h => herror (hij.trans (getOutputName_eq_error_iff.mpr h))
    simp only [getOutputName, if_neg hi, if_neg hj] at hij
    exact naturalOutputName_injective type node hij

theorem getInputName_injective (type : String) (node : NodeJSON) :
    Function.Injective fun index => getInputName type index node := by
  unfold getInputName
  cases h : semanticsOf type with
  | none => exact numbered_injective "input"
  | some semantics =>
    have hgood := goodNames_inputs h node
    exact nameAt_injective hgood.nodup hgood.not_numbered

end N8n.Codegen
