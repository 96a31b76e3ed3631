import N8n.Codegen.VariableNames
import N8n.Lib.Segments

/-!
# Variables that clash

`RESERVED_KEYWORDS` leaves out words a module reserves, and names the generated program declares
or calls itself. A run clashes with one of them exactly when the name of a node spells such a word
between characters that are no letters or digits (`clashFree_registerNames_iff`).
-/

open Lib

namespace N8n.Codegen

variable {name word : JsString}

/-- `AI_CONNECTION_TO_BUILDER` -/
def AiConnectionType.builder : AiConnectionType → JsString
  | languageModel => units "languageModel"
  | memory => units "memory"
  | tool => units "tool"
  | outputParser => units "outputParser"
  | embedding => units "embedding"
  | vectorStore => units "vectorStore"
  | retriever => units "retriever"
  | document => units "documentLoader"
  | textSplitter => units "textSplitter"
  | reranker => units "reranker"

/-- What the generated program declares besides the variables of the nodes, and what it calls. -/
def otherIdentifiers : List JsString :=
  ["wf", "workflow", "trigger", "node", "sticky", "merge", "splitInBatches", "nextBatch",
    "newCredential", "placeholder", "expr", "fromAi"].map units ++
    AI_CONNECTION_TYPES.map fun entry => entry.2.builder

/-- The variable names are different from each other and from all that the program names otherwise,
and can be declared. -/
structure ClashFree (varNames : List JsString) : Prop where
  nodup : varNames.Nodup
  identifier : ∀ varName ∈ varNames, IsBindingName varName
  not_reserved : ∀ varName ∈ varNames, varName ∉ RESERVED_KEYWORDS
  not_other : ∀ varName ∈ varNames, varName ∉ otherIdentifiers

/-- What `RESERVED_KEYWORDS` leaves out. -/
def missingKeywords : List JsString :=
  ["await", "enum", "implements", "interface", "package", "private", "protected", "public",
    "arguments", "wf", "nextBatch", "newCredential", "placeholder", "expr", "fromAi", "embedding",
    "documentLoader", "reranker"].map units

def isOther (u : UInt16) : Bool := !isAlphanumeric u

/-- A word that begins with a capital. -/
def capitalize : JsString → JsString
  | [] => []
  | u :: word => (if isLower u then u - 32 else u) :: word

/-- The name is the word between others, or the word with a capital before others. -/
def Spells (name word : JsString) : Prop :=
  trimBy isOther name = word ∨ name.rdropWhile isOther = capitalize word

instance (name word : JsString) : Decidable (Spells name word) :=
  inferInstanceAs (Decidable (_ ∨ _))

/-! ## What is left out -/

/-- A word of letters and digits that begins with a small letter and is not reserved. -/
structure IsPlainWord (word : JsString) : Prop where
  start : ∃ u tail, word = u :: tail ∧ isLower u = true
  parts : ∀ u ∈ word, isAlphanumeric u = true
  not_reserved : word ∉ RESERVED_KEYWORDS

theorem isPlainWord_of_mem (h : word ∈ missingKeywords) : IsPlainWord word := by
  have hstart : ∀ word ∈ missingKeywords, word.head?.any isLower = true := by decide
  have hparts : ∀ word ∈ missingKeywords, ∀ u ∈ word, isAlphanumeric u = true := by
    decide
  have hreserved : ∀ word ∈ missingKeywords, word ∉ RESERVED_KEYWORDS := by decide
  refine ⟨?_, hparts word h, hreserved word h⟩
  have hlower := hstart word h
  cases word with
  | nil => cases hlower
  | cons u tail => exact ⟨u, tail, rfl, hlower⟩

/-- No missing word ends with a digit, and none that is reserved. -/
theorem not_isDigit_getLast? : ∀ word ∈ RESERVED_KEYWORDS ++ missingKeywords,
    ∀ u ∈ word.getLast?, isDigit u = false := by decide

theorem underscore_not_mem_reserved : ∀ word ∈ RESERVED_KEYWORDS, underscore ∉ word := by
  decide

theorem mem_missingKeywords (h : word ∉ RESERVED_KEYWORDS)
    (hmem : word ∈ unbindableWords ++ otherIdentifiers) : word ∈ missingKeywords := by
  have hall : ∀ word ∈ unbindableWords ++ otherIdentifiers,
      word ∈ RESERVED_KEYWORDS ∨ word ∈ missingKeywords := by decide
  exact (hall word hmem).resolve_left h

theorem missing_subset : ∀ word ∈ missingKeywords,
    word ∈ unbindableWords ∨ word ∈ otherIdentifiers := by decide

/-! ## Names as words -/

/-- `nodeName.replace(/[^a-zA-Z0-9]/g, '_').replace(/_+/g, '_')` -/
def underscored (name : JsString) : JsString := collapseUnderscores (replaceOthers name)

theorem ne_underscore {u : UInt16} (h : isAlphanumeric u = true) : u ≠ underscore := by
  rintro rfl
  exact absurd h (by decide)

theorem underscored_cons_alphanumeric {u : UInt16} (h : isAlphanumeric u = true) :
    underscored (u :: name) = u :: underscored name := by
  rw [underscored, replaceOthers, List.map_cons, if_pos h, collapseUnderscores,
    if_neg fun hand => ne_underscore h hand.1]
  rfl

theorem head?_replaceOthers :
    (replaceOthers name).head? = some underscore ↔ ∃ u ∈ name.head?, isOther u = true := by
  cases name with
  | nil => simp [replaceOthers]
  | cons u name =>
    by_cases h : isAlphanumeric u = true
    · simp [replaceOthers, isOther, h, ne_underscore h]
    · simp [replaceOthers, isOther, h]

theorem underscored_cons_other {u : UInt16} (h : isOther u = true)
    (hnext : ∃ u' ∈ name.head?, isOther u' = true) :
    underscored (u :: name) = underscored name := by
  have hu : ¬isAlphanumeric u = true := by simpa [isOther] using h
  rw [underscored, replaceOthers, List.map_cons, if_neg hu, collapseUnderscores,
    if_pos ⟨rfl, head?_replaceOthers.mpr hnext⟩]
  rfl

theorem underscored_cons_last {u : UInt16} (h : isOther u = true)
    (hnext : ¬∃ u' ∈ name.head?, isOther u' = true) :
    underscored (u :: name) = underscore :: underscored name := by
  have hu : ¬isAlphanumeric u = true := by simpa [isOther] using h
  rw [underscored, replaceOthers, List.map_cons, if_neg hu, collapseUnderscores,
    if_neg fun hand => hnext (head?_replaceOthers.mp hand.2)]
  rfl

/-- The cases of a name for `underscored`. -/
@[elab_as_elim]
theorem name_induction {motive : JsString → Prop} (nil : motive [])
    (alphanumeric : ∀ u name, isAlphanumeric u = true → motive name → motive (u :: name))
    (other : ∀ u name, isOther u = true → (∃ u' ∈ name.head?, isOther u' = true) → motive name →
      motive (u :: name))
    (last : ∀ u name, isOther u = true → (¬∃ u' ∈ name.head?, isOther u' = true) → motive name →
      motive (u :: name)) (name : JsString) : motive name := by
  induction name with
  | nil => exact nil
  | cons u name ih =>
    by_cases h : isAlphanumeric u = true
    · exact alphanumeric u name h ih
    · have hother : isOther u = true := by simpa [isOther] using h
      by_cases hnext : ∃ u' ∈ name.head?, isOther u' = true
      · exact other u name hother hnext ih
      · exact last u name hother hnext ih

theorem underscored_of_alphanumeric (hword : ∀ u ∈ word, isAlphanumeric u = true) (name : JsString) :
    underscored (word ++ name) = word ++ underscored name := by
  induction word with
  | nil => rfl
  | cons u word ih =>
    obtain ⟨hu, hword⟩ := List.forall_mem_cons.mp hword
    rw [List.cons_append, underscored_cons_alphanumeric hu, ih hword, List.cons_append]

theorem underscored_eq_iff (hword : ∀ u ∈ word, isAlphanumeric u = true) :
    underscored name = word ↔ name = word := by
  constructor
  · intro h
    induction name using name_induction generalizing word with
    | nil => exact h
    | alphanumeric u name hu ih =>
      rw [underscored_cons_alphanumeric hu] at h
      obtain ⟨_, tail, rfl⟩ := List.exists_cons_of_ne_nil (h ▸ List.cons_ne_nil _ _)
      obtain ⟨rfl, htail⟩ := List.cons.inj h
      rw [ih (fun u hu => hword u (List.mem_cons_of_mem _ hu)) htail]
    | other u name hu hnext ih =>
      rw [underscored_cons_other hu hnext] at h
      obtain ⟨u', hu', hother⟩ := hnext
      rw [ih hword h] at hu'
      rw [isOther, hword u' (List.mem_of_mem_head? hu')] at hother
      cases hother
    | last u name hu hnext ih =>
      rw [underscored_cons_last hu hnext] at h
      exact absurd rfl (ne_underscore (hword underscore (h ▸ List.mem_cons_self)))
  · rintro rfl
    have hself : underscored (name ++ []) = name ++ [] := underscored_of_alphanumeric hword []
    rwa [List.append_nil] at hself

/-- Others before a word become one underscore. -/
theorem underscored_eq_underscore_iff (hword : ∀ u ∈ word, isAlphanumeric u = true) :
    underscored name = underscore :: word ↔
      ∃ others, others ≠ [] ∧ (∀ u ∈ others, isOther u = true) ∧ name = others ++ word := by
  have hstart : ¬∃ u ∈ word.head?, isOther u = true := by
    rintro ⟨u, hu, hother⟩
    rw [isOther, hword u (List.mem_of_mem_head? hu)] at hother
    cases hother
  constructor
  · intro h
    induction name using name_induction with
    | nil => cases h
    | alphanumeric u name hu ih =>
      rw [underscored_cons_alphanumeric hu] at h
      exact absurd (List.cons.inj h).1 (ne_underscore hu)
    | other u name hu hnext ih =>
      rw [underscored_cons_other hu hnext] at h
      obtain ⟨others, -, hothers, rfl⟩ := ih h
      exact ⟨u :: others, List.cons_ne_nil _ _, List.forall_mem_cons.mpr ⟨hu, hothers⟩, rfl⟩
    | last u name hu hnext ih =>
      rw [underscored_cons_last hu hnext] at h
      obtain rfl := (underscored_eq_iff hword).mp (List.cons.inj h).2
      exact ⟨[u], List.cons_ne_nil _ _, by simpa using hu, rfl⟩
  · rintro ⟨others, hne, hothers, rfl⟩
    induction others with
    | nil => exact absurd rfl hne
    | cons u others ih =>
      obtain ⟨hu, hothers⟩ := List.forall_mem_cons.mp hothers
      cases others with
      | nil =>
        rw [List.singleton_append, underscored_cons_last hu hstart,
          (underscored_eq_iff hword).mpr rfl]
      | cons u' others =>
        rw [List.cons_append, underscored_cons_other hu ⟨u', rfl, hothers u' List.mem_cons_self⟩]
        exact ih (List.cons_ne_nil _ _) hothers

/-- The name ends with another character than a letter or digit. -/
def EndsOther (name : JsString) : Prop := ∃ u ∈ name.getLast?, isOther u = true

theorem endsOther_cons_iff {u : UInt16} (hne : name ≠ []) : EndsOther (u :: name) ↔ EndsOther name := by
  obtain ⟨u', name, rfl⟩ := List.exists_cons_of_ne_nil hne
  rw [EndsOther, List.getLast?_cons_cons]
  rfl

theorem endsOther_of_cons {u : UInt16} (h : EndsOther name) : EndsOther (u :: name) := by
  refine (endsOther_cons_iff ?_).mpr h
  rintro rfl
  obtain ⟨u', hu', -⟩ := h
  cases hu'

theorem underscored_eq_nil_iff : underscored name = [] ↔ name = [] :=
  underscored_eq_iff (fun _ h => absurd h List.not_mem_nil)

theorem getLast?_underscored :
    (underscored name).getLast? = some underscore ↔ EndsOther name := by
  have hcons : ∀ (u : UInt16) {name : JsString}, name ≠ [] →
      (u :: underscored name).getLast? = (underscored name).getLast? := by
    intro u name hne
    obtain ⟨u', tail, htail⟩ := List.exists_cons_of_ne_nil (underscored_eq_nil_iff.not.mpr hne)
    rw [htail, List.getLast?_cons_cons]
  induction name using name_induction with
  | nil => simp [EndsOther, underscored, replaceOthers, collapseUnderscores]
  | alphanumeric u name hu ih =>
    rw [underscored_cons_alphanumeric hu]
    by_cases hname : name = []
    · subst hname
      refine iff_of_false (fun h => ne_underscore hu (Option.some.inj h)) ?_
      simp [EndsOther, isOther, hu]
    · rw [hcons u hname, endsOther_cons_iff hname]
      exact ih
  | other u name hu hnext ih =>
    have hname : name ≠ [] := by
      rintro rfl
      obtain ⟨u', hu', -⟩ := hnext
      cases hu'
    rw [underscored_cons_other hu hnext, endsOther_cons_iff hname]
    exact ih
  | last u name hu hnext ih =>
    rw [underscored_cons_last hu hnext]
    by_cases hname : name = []
    · subst hname
      exact iff_of_true rfl ⟨u, rfl, hu⟩
    · rw [hcons underscore hname, endsOther_cons_iff hname]
      exact ih

/-- Others after a name become one underscore. -/
theorem underscored_append_others {others : JsString} (hname : ¬EndsOther name) (hne : others ≠ [])
    (hothers : ∀ u ∈ others, isOther u = true) :
    underscored (name ++ others) = underscored name ++ [underscore] := by
  induction name using name_induction with
  | nil =>
    exact (underscored_eq_underscore_iff fun _ h => absurd h List.not_mem_nil).mpr
      ⟨others, hne, hothers, (List.append_nil others).symm⟩
  | alphanumeric u name hu ih =>
    rw [List.cons_append, underscored_cons_alphanumeric hu, underscored_cons_alphanumeric hu,
      ih fun h => hname (endsOther_of_cons h), List.cons_append]
  | other u name hu hnext ih =>
    have hnext' : ∃ u' ∈ (name ++ others).head?, isOther u' = true := by
      obtain ⟨u', hu', hother⟩ := hnext
      exact ⟨u', List.mem_head?_append_of_mem_head? hu', hother⟩
    rw [List.cons_append, underscored_cons_other hu hnext', underscored_cons_other hu hnext,
      ih fun h => hname (endsOther_of_cons h)]
  | last u name hu hnext ih =>
    have hne' : name ≠ [] := by
      rintro rfl
      exact hname ⟨u, rfl, hu⟩
    have hnext' : ¬∃ u' ∈ (name ++ others).head?, isOther u' = true := by
      rwa [List.head?_append_of_ne_nil _ hne']
    rw [List.cons_append, underscored_cons_last hu hnext', underscored_cons_last hu hnext,
      ih fun h => hname (endsOther_of_cons h), List.cons_append]

theorem not_endsOther_rdropWhile (name : JsString) : ¬EndsOther (name.rdropWhile isOther) := by
  rintro ⟨u, hu, hother⟩
  have hne : name.rdropWhile isOther ≠ [] := by
    intro hnil
    rw [hnil] at hu
    cases hu
  rw [List.getLast?_eq_some_getLast hne] at hu
  obtain rfl := Option.some.inj hu
  exact List.rdropWhile_last_not isOther name hne hother

theorem removeTrailing_underscored (name : JsString) :
    removeTrailing (underscored name) = underscored (name.rdropWhile isOther) := by
  have hlast := not_endsOther_rdropWhile name
  have happend : name.rdropWhile isOther ++ name.rtakeWhile isOther = name :=
    List.rdropWhile_append_rtakeWhile
  by_cases hnil : name.rtakeWhile isOther = []
  · rw [hnil, List.append_nil] at happend
    rw [happend] at hlast ⊢
    exact if_neg (getLast?_underscored.not.mpr hlast)
  · have hothers : ∀ u ∈ name.rtakeWhile isOther, isOther u = true :=
      fun u hu => List.mem_rtakeWhile_imp hu
    conv_lhs => rw [← happend, underscored_append_others hlast hnil hothers]
    rw [removeTrailing, if_pos List.getLast?_concat, List.dropLast_concat]

/-! ## Which names become a word -/

theorem rewritten_eq (name : JsString) :
    rewritten name = lowerFirst (underscored (name.rdropWhile isOther)) := by
  rw [rewritten, ← removeTrailing_underscored]
  rfl

theorem IsPlainWord.ne_nil (h : IsPlainWord word) : word ≠ [] := by
  obtain ⟨u, tail, rfl, -⟩ := h.start
  exact List.cons_ne_nil u tail

theorem IsPlainWord.underscore_not_mem (h : IsPlainWord word) : underscore ∉ word :=
  fun hmem => ne_underscore (h.parts underscore hmem) rfl

theorem isLetter_of_isLower {u : UInt16} (h : isLower u = true) : isLetter u = true := by
  rw [isLetter, h, Bool.true_or]

/-- The capital of a small letter. -/
theorem isUpper_sub {c : UInt16} (hc : isLower c = true) : isUpper (c - 32) = true := by
  simp only [isLower, isUpper, Bool.and_eq_true, decide_eq_true_eq] at hc ⊢
  have hle : 32 ≤ c := UInt16.le_iff_toNat_le.mpr (hc.1.trans' (by decide))
  have htoNat : (c - 32).toNat = c.toNat - 32 := UInt16.toNat_sub_of_le c 32 hle
  omega

/-- A unit is a small letter after its case was changed if it is the letter or its capital. -/
theorem lowerUnit_eq_iff {u c : UInt16} (hc : isLower c = true) :
    lowerUnit u = c ↔ u = c ∨ u = c - 32 := by
  have hdisjoint : ∀ {u : UInt16}, isUpper u = true → isLower u = false := by
    intro u hu
    simp only [isUpper, isLower, Bool.and_eq_true, decide_eq_true_eq, Bool.and_eq_false_iff,
      decide_eq_false_iff_not] at hu ⊢
    omega
  by_cases hu : isUpper u = true
  · have hne : u ≠ c := by
      rintro rfl
      rw [hdisjoint hu] at hc
      cases hc
    rw [lowerUnit, if_pos hu, or_iff_right hne]
    constructor
    · rintro rfl
      exact (UInt16.add_sub_cancel u 32).symm
    · rintro rfl
      exact UInt16.sub_add_cancel c 32
  · rw [lowerUnit, if_neg hu]
    refine (or_iff_left ?_).symm
    rintro rfl
    exact hu (isUpper_sub hc)

theorem lowerFirst_eq_iff {str : JsString} (h : IsPlainWord word) :
    lowerFirst str = word ↔ str = word ∨ str = capitalize word := by
  obtain ⟨c, tail, rfl, hc⟩ := h.start
  cases str with
  | nil => simp [lowerFirst, capitalize]
  | cons u str =>
    simp only [lowerFirst, capitalize, if_pos hc, List.cons.injEq, lowerUnit_eq_iff hc]
    tauto

theorem lowerFirst_eq_underscore_iff {str : JsString} :
    lowerFirst str = underscore :: word ↔ str = underscore :: word := by
  cases str with
  | nil => simp [lowerFirst]
  | cons u str =>
    have hunit : lowerUnit u = underscore ↔ u = underscore := by
      by_cases hu : isUpper u = true
      · refine iff_of_false (fun h => ?_) ?_
        · have hlower := isLower_lowerUnit hu
          rw [h] at hlower
          exact absurd hlower (by decide)
        · rintro rfl
          exact absurd hu (by decide)
      · rw [lowerUnit, if_neg hu]
    simp only [lowerFirst, List.cons.injEq, hunit]

theorem avoidReserved_eq_iff {str : JsString} (h : IsPlainWord word) :
    avoidReserved str = word ↔ str = word := by
  unfold avoidReserved
  split
  · rename_i hreserved
    refine iff_of_false ?_ ?_
    · rintro rfl
      exact h.underscore_not_mem (List.mem_append_right _ (by decide))
    · rintro rfl
      exact h.not_reserved hreserved
  · rfl

theorem dropUnderscore_prefixDigit_eq_iff {str : JsString} (h : IsPlainWord word) :
    dropUnderscore (prefixDigit str) = word ↔ str = word ∨ str = underscore :: word := by
  obtain ⟨c, tail, hword, hc⟩ := h.start
  have hletter : isLetter c = true := isLetter_of_isLower hc
  by_cases hdigit : startsWithDigit str = true
  · obtain ⟨d, str, rfl⟩ := List.exists_cons_of_ne_nil (l := str) (by rintro rfl; cases hdigit)
    have hd : isDigit d = true := hdigit
    have hkeep : startsWithUnderscoreLetter (underscore :: d :: str) = false := by
      simp [startsWithUnderscoreLetter, not_isLetter_of_isDigit hd]
    rw [prefixDigit, if_pos hdigit, dropUnderscore, hkeep]
    refine iff_of_false ?_ ?_
    · rintro rfl
      exact h.underscore_not_mem List.mem_cons_self
    · rintro (rfl | heq)
      · obtain ⟨rfl, -⟩ := List.cons.inj hword
        rw [not_isLetter_of_isDigit hd] at hletter
        cases hletter
      · obtain ⟨rfl, -⟩ := List.cons.inj heq
        exact absurd hd (by decide)
  · rw [prefixDigit, if_neg hdigit, dropUnderscore]
    split
    · rename_i hunderscore
      rw [startsWithUnderscoreLetter, Bool.and_eq_true, decide_eq_true_iff] at hunderscore
      obtain ⟨u, str, rfl⟩ := List.exists_cons_of_ne_nil (l := str) (by
        rintro rfl
        cases hunderscore.1)
      obtain rfl := Option.some.inj hunderscore.1
      have hne : underscore :: str ≠ word := by
        rintro rfl
        exact h.underscore_not_mem List.mem_cons_self
      rw [or_iff_right hne, List.cons.injEq, and_iff_right rfl]
      rfl
    · rename_i hunderscore
      refine (or_iff_left ?_).symm
      rintro rfl
      refine hunderscore ?_
      rw [hword]
      simp [startsWithUnderscoreLetter, hletter]

theorem underscore_mem_hashFallbackName (name : JsString) : underscore ∈ hashFallbackName name :=
  List.mem_append_left _ (by decide)

/-- After the rewrites, only an underscore at the front is left to be dropped. -/
theorem toVarName_eq_iff (h : IsPlainWord word) :
    toVarName name = word ↔ rewritten name = word ∨ rewritten name = underscore :: word := by
  unfold toVarName
  split
  · rename_i hempty
    refine iff_of_false ?_ ?_
    · rintro rfl
      exact h.underscore_not_mem (underscore_mem_hashFallbackName name)
    · rintro (heq | heq) <;> rw [heq] at hempty
      · refine hempty.elim h.ne_nil ?_
        rintro rfl
        exact h.underscore_not_mem List.mem_cons_self
      · exact hempty.elim (List.cons_ne_nil _ _) fun hnil => h.ne_nil (List.cons.inj hnil).2
  · rw [avoidReserved_eq_iff h, dropUnderscore_prefixDigit_eq_iff h]

theorem isAlphanumeric_of_mem_capitalize (h : IsPlainWord word) :
    ∀ u ∈ capitalize word, isAlphanumeric u = true := by
  obtain ⟨c, tail, rfl, hc⟩ := h.start
  rw [capitalize, if_pos hc]
  refine List.forall_mem_cons.mpr ⟨?_, fun u hu => h.parts u (List.mem_cons_of_mem c hu)⟩
  rw [isAlphanumeric, isLetter, isUpper_sub hc, Bool.or_true, Bool.true_or]

theorem rewritten_eq_iff (h : IsPlainWord word) :
    rewritten name = word ∨ rewritten name = underscore :: word ↔ Spells name word := by
  have hother : ∀ u ∈ word, isOther u = false := fun u hu => by rw [isOther, h.parts u hu]; rfl
  have htrim : trimBy isOther name = word ↔
      ∃ before, (∀ u ∈ before, isOther u = true) ∧ name.rdropWhile isOther = before ++ word :=
    trimBy_eq_iff h.ne_nil (fun u hu => hother u (List.mem_of_mem_head? hu))
      fun u hu => hother u (List.mem_of_mem_getLast? hu)
  rw [rewritten_eq, lowerFirst_eq_iff h, lowerFirst_eq_underscore_iff, underscored_eq_iff h.parts,
    underscored_eq_iff (isAlphanumeric_of_mem_capitalize h), underscored_eq_underscore_iff h.parts,
    Spells, htrim]
  constructor
  · rintro ((heq | heq) | ⟨others, -, hothers, heq⟩)
    · exact .inl ⟨[], fun _ hu => absurd hu List.not_mem_nil, heq⟩
    · exact .inr heq
    · exact .inl ⟨others, hothers, heq⟩
  · rintro (⟨others, hothers, heq⟩ | heq)
    · by_cases hnil : others = []
      · subst hnil
        exact .inl (.inl heq)
      · exact .inr ⟨others, hnil, hothers, heq⟩
    · exact .inl (.inr heq)

/-! ## Clashes -/

/-- A word that a name is numbered to has no number. -/
theorem toVarName_eq_of_numbered {i : ℕ} (h : numberedVarName (toVarName name) i = word)
    (hword : word ∈ RESERVED_KEYWORDS ++ missingKeywords) : toVarName name = word := by
  unfold numberedVarName at h
  split at h
  · exact h
  · have hne := units_toString_ne_nil i
    have hlast := not_isDigit_getLast? word hword
    rw [← h, List.getLast?_append_of_ne_nil _ hne] at hlast
    have hdigit : isDigit ((units (toString i)).getLast hne) = true :=
      digitOf?_isSome_of_mem_units_toString _ (List.getLast_mem hne)
    rw [hlast _ (List.getLast?_eq_some_getLast hne)] at hdigit
    cases hdigit

theorem toVarName_not_mem (name : JsString) : toVarName name ∉ RESERVED_KEYWORDS := by
  unfold toVarName
  split
  · exact fun hmem =>
      underscore_not_mem_reserved _ hmem (underscore_mem_hashFallbackName name)
  · unfold avoidReserved
    split
    · exact fun hmem =>
        underscore_not_mem_reserved _ hmem (List.mem_append_right _ (by decide))
    · assumption

/-- The variable names of a run from nothing. -/
def varNamesOf (nodeNames : List JsString) : List JsString := (registerNames nodeNames {}).1

/-- A run is free of clashes exactly when no name spells a word that was left out. -/
theorem clashFree_registerNames_iff {nodeNames : List JsString} (hnodup : nodeNames.Nodup) :
    ClashFree (varNamesOf nodeNames) ↔
      ∀ name ∈ nodeNames, ∀ word ∈ missingKeywords, ¬Spells name word := by
  have hrun : Registers nodeNames {} (varNamesOf nodeNames) :=
    registers_registerNames hnodup fun _ _ => List.not_mem_nil
  constructor
  · intro h name hname word hword hspells
    have hplain := isPlainWord_of_mem hword
    have heq := (toVarName_eq_iff hplain).mpr ((rewritten_eq_iff hplain).mpr hspells)
    have hmem : word ∈ varNamesOf nodeNames :=
      heq ▸ (hrun.covers name hname).resolve_left List.not_mem_nil
    rcases missing_subset word hword with hunbindable | hother
    · exact (h.identifier word hmem).bindable hunbindable
    · exact h.not_other word hmem hother
  · intro h
    have hreserved : ∀ varName ∈ varNamesOf nodeNames, varName ∉ RESERVED_KEYWORDS := by
      intro varName hmem hreserved
      obtain ⟨name, -, i, hi⟩ := hrun.source varName hmem
      have heq := toVarName_eq_of_numbered hi.symm (List.mem_append_left _ hreserved)
      exact toVarName_not_mem name (heq ▸ hreserved)
    have hmissing : ∀ varName ∈ varNamesOf nodeNames,
        varName ∉ unbindableWords ++ otherIdentifiers := by
      intro varName hmem hword
      obtain ⟨name, hname, i, hi⟩ := hrun.source varName hmem
      have hword' := mem_missingKeywords (hreserved varName hmem) hword
      have heq := toVarName_eq_of_numbered hi.symm (List.mem_append_right _ hword')
      have hplain := isPlainWord_of_mem hword'
      exact h name hname varName hword'
        ((rewritten_eq_iff hplain).mp ((toVarName_eq_iff hplain).mp heq))
    refine ⟨hrun.nodup, fun varName hmem => ⟨?_, ?_⟩, hreserved, fun varName hmem hother => ?_⟩
    · obtain ⟨name, -, i, rfl⟩ := hrun.source varName hmem
      exact isName_numberedVarName name i
    · exact fun hword => hmissing varName hmem (List.mem_append_left _ hword)
    · exact hmissing varName hmem (List.mem_append_right _ hother)

/-- Two nodes whose names become the same identifier. -/
theorem clashFree_getAnalysis :
    ClashFree (varNamesOf [units "Get Analysis", units "Get_Analysis"]) :=
  (clashFree_registerNames_iff (by decide)).mpr (by decide)

/-- The program declares `wf` twice. -/
theorem not_clashFree_wf :
    ¬∀ nodeNames : List JsString, nodeNames.Nodup → ClashFree (varNamesOf nodeNames) := by
  intro h
  have hclash := h [units "wf"] (List.nodup_singleton _)
  exact hclash.not_other (units "wf") (by decide) (by decide)

end N8n.Codegen
