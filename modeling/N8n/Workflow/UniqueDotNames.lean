import N8n.Interfaces
import N8n.Lib.FreshNames
import N8n.Lib.LiteralReader
import N8n.Lib.NumberedNames

/-!
# Identifiers for node names

When references to nodes are moved into a sub-workflow, the names of the nodes become parts of
identifiers. `convertToUniqueJsDotName` drops the characters an identifier cannot have, and while
the result is the name of a node it appends the index of its own node.

The loop compares with the names of nodes, not with other names that were reduced. So the results
are different exactly if no reduced name that is free is what another node's loop arrives at
(`convertsUniquely_iff`).
-/

open Lib

namespace N8n

/-- `nodeName.replaceAll(' ', '_')`, without the units that `INVALID_JS_DOT_NAME` finds. -/
def jsLegalName (nodeName : JsString) : JsString :=
  (nodeName.map fun u => if u = codeUnit ' ' then codeUnit '_' else u).filter isNamePart

/-- The suffix with the index of the node. The callers take the node from the list. -/
def indexSuffix (nodeName : JsString) (allNodeNames : List JsString) : JsString :=
  codeUnit '_' :: units (toString (allNodeNames.idxOf nodeName))

/-- The loop, `none` where it needs more rounds. -/
def appendWhileTaken (allNodeNames : List JsString) (suffix : JsString) :
    ℕ → JsString → Option JsString
  | 0, _ => none
  | rounds + 1, jsLegal =>
    if jsLegal ∈ allNodeNames then appendWhileTaken allNodeNames suffix rounds (jsLegal ++ suffix)
    else some jsLegal

def convertToUniqueJsDotName (rounds : ℕ) (nodeName : JsString) (allNodeNames : List JsString) :
    Option JsString :=
  let jsLegal := jsLegalName nodeName
  if nodeName = jsLegal then some jsLegal
  else appendWhileTaken allNodeNames (indexSuffix nodeName allNodeNames) rounds jsLegal

/-- The conversion ends for each name, with different results, and a result that is not the name is
no node's name. -/
structure ConvertsUniquely (allNodeNames : List JsString) : Prop where
  terminates : ∀ nodeName ∈ allNodeNames, ∃ rounds,
    (convertToUniqueJsDotName rounds nodeName allNodeNames).isSome = true
  injective : ∀ nodeName ∈ allNodeNames, ∀ nodeName' ∈ allNodeNames, ∀ rounds rounds' result,
    convertToUniqueJsDotName rounds nodeName allNodeNames = some result →
      convertToUniqueJsDotName rounds' nodeName' allNodeNames = some result → nodeName = nodeName'
  fresh : ∀ nodeName ∈ allNodeNames, ∀ rounds result,
    convertToUniqueJsDotName rounds nodeName allNodeNames = some result → result ≠ nodeName →
      result ∉ allNodeNames

/-- The name, with its index as often as all shorter ones are taken, is `jsLegal`. -/
def Reaches (allNodeNames : List JsString) (nodeName jsLegal : JsString) : Prop :=
  ∃ k, jsLegal = jsLegalName nodeName ++ repeated (indexSuffix nodeName allNodeNames) k ∧
    ∀ j < k, jsLegalName nodeName ++ repeated (indexSuffix nodeName allNodeNames) j ∈ allNodeNames

/-- Of two names that are changed, none is reduced to a free one that the other reaches. -/
def ReducedApart (allNodeNames : List JsString) : Prop :=
  ∀ nodeName ∈ allNodeNames, ∀ nodeName' ∈ allNodeNames, nodeName ≠ nodeName' →
    jsLegalName nodeName ≠ nodeName → jsLegalName nodeName' ≠ nodeName' →
      jsLegalName nodeName ∉ allNodeNames →
        ¬ Reaches allNodeNames nodeName' (jsLegalName nodeName)

variable {allNodeNames : List JsString} {nodeName nodeName' suffix jsLegal result : JsString}
  {rounds : ℕ}

/-- The loop ends at the first name that is free. -/
theorem appendWhileTaken_eq_some_iff :
    appendWhileTaken allNodeNames suffix rounds jsLegal = some result ↔
      ∃ k < rounds, result = jsLegal ++ repeated suffix k ∧ result ∉ allNodeNames ∧
        ∀ j < k, jsLegal ++ repeated suffix j ∈ allNodeNames := by
  induction rounds generalizing jsLegal with
  | zero => simp [appendWhileTaken]
  | succ rounds ih =>
    have hsucc : ∀ k, jsLegal ++ suffix ++ repeated suffix k = jsLegal ++ repeated suffix (k + 1) :=
      fun k => by rw [List.append_assoc, repeated_succ]
    rw [appendWhileTaken]
    by_cases htaken : jsLegal ∈ allNodeNames
    · rw [if_pos htaken, ih]
      simp only [hsucc]
      constructor
      · rintro ⟨k, hk, hresult, hfree, hbefore⟩
        refine ⟨k + 1, Nat.succ_lt_succ hk, hresult, hfree, fun j hj => ?_⟩
        cases j with
        | zero => rwa [repeated_zero, List.append_nil]
        | succ j => exact hbefore j (Nat.lt_of_succ_lt_succ hj)
      · rintro ⟨k, hk, rfl, hfree, hbefore⟩
        cases k with
        | zero =>
          rw [repeated_zero, List.append_nil] at hfree
          exact absurd htaken hfree
        | succ k =>
          exact ⟨k, Nat.lt_of_succ_lt_succ hk, rfl, hfree,
            fun j hj => hbefore (j + 1) (Nat.succ_lt_succ hj)⟩
    · rw [if_neg htaken]
      constructor
      · intro h
        obtain rfl := Option.some.inj h
        exact ⟨0, Nat.succ_pos _, (List.append_nil _).symm, htaken, nofun⟩
      · rintro ⟨k, hk, rfl, hfree, hbefore⟩
        cases k with
        | zero => rw [repeated_zero, List.append_nil]
        | succ k =>
          have hfirst := hbefore 0 (Nat.succ_pos k)
          rw [repeated_zero, List.append_nil] at hfirst
          exact absurd hfirst htaken

theorem convertToUniqueJsDotName_of_eq (h : jsLegalName nodeName = nodeName) :
    convertToUniqueJsDotName rounds nodeName allNodeNames = some nodeName := by
  rw [convertToUniqueJsDotName, if_pos h.symm, h]

theorem convertToUniqueJsDotName_eq_some_iff (h : jsLegalName nodeName ≠ nodeName) :
    convertToUniqueJsDotName rounds nodeName allNodeNames = some result ↔
      ∃ k < rounds, result =
          jsLegalName nodeName ++ repeated (indexSuffix nodeName allNodeNames) k ∧
        result ∉ allNodeNames ∧
          ∀ j < k, jsLegalName nodeName ++ repeated (indexSuffix nodeName allNodeNames) j ∈
            allNodeNames := by
  rw [convertToUniqueJsDotName, if_neg (Ne.symm h), appendWhileTaken_eq_some_iff]

/-- A free name that is reached is the result. -/
theorem exists_rounds_iff_reaches (h : jsLegalName nodeName ≠ nodeName) :
    (∃ rounds, convertToUniqueJsDotName rounds nodeName allNodeNames = some result) ↔
      result ∉ allNodeNames ∧ Reaches allNodeNames nodeName result := by
  constructor
  · rintro ⟨rounds, hresult⟩
    obtain ⟨k, -, hresult, hfree, hbefore⟩ := (convertToUniqueJsDotName_eq_some_iff h).mp hresult
    exact ⟨hfree, k, hresult, hbefore⟩
  · rintro ⟨hfree, k, hresult, hbefore⟩
    exact ⟨k + 1, (convertToUniqueJsDotName_eq_some_iff h).mpr
      ⟨k, Nat.lt_succ_self k, hresult, hfree, hbefore⟩⟩

/-- One round more than there are names is enough. -/
theorem convertToUniqueJsDotName_isSome (allNodeNames : List JsString) (nodeName : JsString) :
    (convertToUniqueJsDotName (allNodeNames.length + 1) nodeName allNodeNames).isSome = true := by
  by_cases hchanged : jsLegalName nodeName = nodeName
  · exact Option.isSome_of_eq_some (convertToUniqueJsDotName_of_eq hchanged)
  · let candidate := fun k => jsLegalName nodeName ++ repeated (indexSuffix nodeName allNodeNames) k
    have hinj : Function.Injective candidate :=
      append_repeated_injective _ (List.cons_ne_nil _ _)
    obtain ⟨k, hk, hfree⟩ := exists_free hinj allNodeNames 0
    rw [Nat.zero_add] at hfree
    have hfirst : ∃ k, candidate k ∉ allNodeNames := ⟨k, hfree⟩
    have hle : Nat.find hfirst ≤ allNodeNames.length := (Nat.find_min' hfirst hfree).trans hk
    refine Option.isSome_of_eq_some ((convertToUniqueJsDotName_eq_some_iff hchanged).mpr
      ⟨Nat.find hfirst, Nat.lt_succ_of_le hle, rfl, Nat.find_spec hfirst, fun j hj => ?_⟩)
    exact not_not.mp (Nat.find_min hfirst hj)

/-- The index behind the last underscore tells the node. -/
theorem nodeName_eq_of_suffix {j k : ℕ} {base base' : JsString} (h : nodeName ∈ allNodeNames)
    (heq : base ++ repeated (indexSuffix nodeName allNodeNames) (j + 1) =
      base' ++ repeated (indexSuffix nodeName' allNodeNames) (k + 1)) : nodeName = nodeName' := by
  have hunderscore : ∀ n : ℕ, codeUnit '_' ∉ units (toString n) := by
    intro n hmem
    have hdigit := digitOf?_isSome_of_mem_units_toString _ hmem
    revert hdigit
    decide
  have hindex :=
    units_toString_injective (eq_of_append_repeated (hunderscore _) (hunderscore _) heq)
  exact (List.idxOf_inj h).mp hindex

/-- Two nodes reach one free name only if it is what one of them is reduced to. -/
theorem eq_jsLegalName_of_reaches (h : nodeName ∈ allNodeNames) (hne : nodeName ≠ nodeName')
    (hreaches : Reaches allNodeNames nodeName result)
    (hreaches' : Reaches allNodeNames nodeName' result) :
    result = jsLegalName nodeName ∨ result = jsLegalName nodeName' := by
  obtain ⟨j, rfl, -⟩ := hreaches
  obtain ⟨k, heq, -⟩ := hreaches'
  rcases j with _ | j
  · exact .inl (List.append_nil _)
  · rcases k with _ | k
    · rw [heq]
      exact .inr (List.append_nil _)
    · exact absurd (nodeName_eq_of_suffix h heq) hne

theorem eq_of_convert_of_eq (h : jsLegalName nodeName = nodeName)
    (hresult : convertToUniqueJsDotName rounds nodeName allNodeNames = some result) :
    result = nodeName := by
  rw [convertToUniqueJsDotName_of_eq h] at hresult
  exact (Option.some.inj hresult).symm

theorem not_mem_of_convert (h : jsLegalName nodeName ≠ nodeName)
    (hresult : convertToUniqueJsDotName rounds nodeName allNodeNames = some result) :
    result ∉ allNodeNames ∧ Reaches allNodeNames nodeName result :=
  (exists_rounds_iff_reaches h).mp ⟨rounds, hresult⟩

/-- Where reduced names are apart, a result tells the node. -/
theorem ReducedApart.injective (hapart : ReducedApart allNodeNames) (h : nodeName ∈ allNodeNames)
    (h' : nodeName' ∈ allNodeNames) {rounds' : ℕ}
    (hresult : convertToUniqueJsDotName rounds nodeName allNodeNames = some result)
    (hresult' : convertToUniqueJsDotName rounds' nodeName' allNodeNames = some result) :
    nodeName = nodeName' := by
  by_contra hne
  by_cases hchanged : jsLegalName nodeName = nodeName
  · have heq := eq_of_convert_of_eq hchanged hresult
    by_cases hchanged' : jsLegalName nodeName' = nodeName'
    · exact hne (heq.symm.trans (eq_of_convert_of_eq hchanged' hresult'))
    · exact (not_mem_of_convert hchanged' hresult').1 (heq ▸ h)
  · obtain ⟨hfree, hreaches⟩ := not_mem_of_convert hchanged hresult
    by_cases hchanged' : jsLegalName nodeName' = nodeName'
    · exact hfree (eq_of_convert_of_eq hchanged' hresult' ▸ h')
    · obtain ⟨-, hreaches'⟩ := not_mem_of_convert hchanged' hresult'
      rcases eq_jsLegalName_of_reaches h hne hreaches hreaches' with rfl | rfl
      · exact hapart nodeName h nodeName' h' hne hchanged hchanged' hfree hreaches'
      · exact hapart nodeName' h' nodeName h (Ne.symm hne) hchanged' hchanged hfree hreaches

/-- The names of the list are converted to identifiers of their own exactly if no reduced name that
is free is reached from another node. -/
theorem convertsUniquely_iff (allNodeNames : List JsString) :
    ConvertsUniquely allNodeNames ↔ ReducedApart allNodeNames := by
  constructor
  · intro hunique nodeName h nodeName' h' hne hchanged hchanged' hfree hreaches
    have hself : Reaches allNodeNames nodeName (jsLegalName nodeName) :=
      ⟨0, (List.append_nil _).symm, nofun⟩
    obtain ⟨rounds, hresult⟩ := (exists_rounds_iff_reaches hchanged).mpr ⟨hfree, hself⟩
    obtain ⟨rounds', hresult'⟩ := (exists_rounds_iff_reaches hchanged').mpr ⟨hfree, hreaches⟩
    exact hne (hunique.injective nodeName h nodeName' h' rounds rounds' _ hresult hresult')
  · intro hapart
    refine ⟨fun nodeName _ => ⟨_, convertToUniqueJsDotName_isSome allNodeNames nodeName⟩,
      fun nodeName h nodeName' h' rounds rounds' result => hapart.injective h h',
      fun nodeName h rounds result hresult hne => ?_⟩
    refine (not_mem_of_convert (fun hchanged => ?_) hresult).1
    exact hne (eq_of_convert_of_eq hchanged hresult)

/-- Two names are reduced to one, and a reduced name is another one with its index. -/
theorem not_convertsUniquely_reduced :
    ¬ ConvertsUniquely [units "a b", units "a_b!"] ∧
      ¬ ConvertsUniquely [units "a_2!", units "a", units "a?"] := by
  refine ⟨fun h => ?_, fun h => ?_⟩
  · have heq := h.injective (units "a b") (by decide) (units "a_b!") (by decide) 1 1 (units "a_b")
      (by decide) (by decide)
    exact absurd heq (by decide)
  · have heq := h.injective (units "a_2!") (by decide) (units "a?") (by decide) 1 2 (units "a_2")
      (by decide) (by decide)
    exact absurd heq (by decide)

end N8n
