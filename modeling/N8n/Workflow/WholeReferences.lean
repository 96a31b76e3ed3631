import N8n.Workflow.NodeReferences

/-!
# References are rewritten as a whole

The references that are mapped cut an expression into tokens, the leftmost and longest first, and
`expand` puts variables in the places of some of them. So the expression should be rewritten token by
token, which is not what a sequence of `replaceAll` does : one replaces text within a longer name, one
rewrites what another has put in, and a dollar sign in a name has a meaning in the replacement.

Where each original expression occurs only as its own references when its turn comes, every step
puts its variable in the place of exactly these (`rewritesWholeReferences`).
-/

open Lib

namespace N8n

variable {nodeNames allNodeNames : List JsString} {startNodeName expression : JsString}
  {mapping : ExpressionMapping}

/-! ## Canonical mappings -/

/-- A key that an original expression has belongs to a mapping of it. -/
def ResolvedDuplicates.Consistent (resolved : ResolvedDuplicates) : Prop :=
  ∀ originalExpression key, resolved.originalExpressionMap.get? originalExpression = some key →
    ∃ value, resolved.triggerArgumentMap.get? key = some value ∧
      value.originalExpression = originalExpression

theorem appendWhileCollides_eq (collides : JsString → Bool) (rounds : ℕ) (name : JsString) :
    ∃ k ≤ rounds, appendWhileCollides collides rounds name = name ++ repeated (units "_1") k ∧
      (k < rounds → collides (appendWhileCollides collides rounds name) = false) ∧
        ∀ j < k, collides (name ++ repeated (units "_1") j) = true := by
  induction rounds generalizing name with
  | zero => exact ⟨0, Nat.le_refl _, (List.append_nil _).symm, nofun, nofun⟩
  | succ rounds ih =>
    rw [appendWhileCollides]
    by_cases hcollides : collides name = true
    · rw [if_pos hcollides]
      obtain ⟨k, hk, heq, hfree, hbefore⟩ := ih (name ++ units "_1")
      simp only [List.append_assoc, ← repeated_succ] at heq hbefore
      refine ⟨k + 1, Nat.succ_le_succ hk, heq, fun hlt => hfree (Nat.lt_of_succ_lt_succ hlt),
        fun j hj => ?_⟩
      cases j with
      | zero => rwa [repeated_zero, List.append_nil]
      | succ j => exact hbefore j (Nat.lt_of_succ_lt_succ hj)
    · rw [if_neg hcollides]
      exact ⟨0, Nat.zero_le _, (List.append_nil _).symm, fun _ => Bool.eq_false_iff.mpr hcollides,
        nofun⟩

theorem hasKeyAndCollides_of_not_mem {triggerArgumentMap : OrderedMap JsString ExpressionMapping}
    {key : JsString} (h : key ∉ triggerArgumentMap.keys) :
    hasKeyAndCollides triggerArgumentMap mapping key = false := by
  rw [hasKeyAndCollides, OrderedMap.get?_eq_none_iff.mpr h, Option.any_none]

theorem eq_of_not_hasKeyAndCollides
    {triggerArgumentMap : OrderedMap JsString ExpressionMapping} {key : JsString}
    {value : ExpressionMapping} (h : hasKeyAndCollides triggerArgumentMap mapping key = false)
    (hvalue : triggerArgumentMap.get? key = some value) : value = mapping := by
  rw [hasKeyAndCollides, hvalue, Option.any_some, decide_eq_false_iff_not, not_not] at h
  exact h

/-- The loop ends at a name that does not collide. -/
theorem not_collides_variableName (allNodeNames : List JsString)
    (triggerArgumentMap : OrderedMap JsString ExpressionMapping) (mapping : ExpressionMapping) :
    hasKeyAndCollides triggerArgumentMap mapping (mappingKey mapping.replacementPrefix
      (variableName allNodeNames triggerArgumentMap mapping)) = false := by
  unfold variableName
  extract_lets collides name
  obtain ⟨k, hk, heq, hfree, hbefore⟩ := appendWhileCollides_eq collides triggerArgumentMap.size name
  have hinj : Function.Injective fun j =>
      mappingKey mapping.replacementPrefix (name ++ repeated (units "_1") j) := fun i j h =>
    append_repeated_injective name (by decide) (List.append_cancel_left h)
  obtain ⟨j, hj, hkey⟩ := exists_free hinj triggerArgumentMap.keys 0
  rw [Nat.zero_add] at hkey
  rw [OrderedMap.length_keys] at hj
  have hnot : collides (name ++ repeated (units "_1") j) = false :=
    hasKeyAndCollides_of_not_mem hkey
  have hle : k ≤ j := by
    by_contra hlt
    rw [hbefore j (not_le.mp hlt)] at hnot
    cases hnot
  rcases hk.lt_or_eq with hlt | rfl
  · exact hfree hlt
  · obtain rfl : j = triggerArgumentMap.size := le_antisymm hj hle
    rw [heq]
    exact hnot

theorem consistent_resolveMapping {resolved : ResolvedDuplicates} (h : resolved.Consistent)
    (mapping : ExpressionMapping) : (resolveMapping allNodeNames resolved mapping).Consistent := by
  have hcollides := not_collides_variableName allNodeNames resolved.triggerArgumentMap mapping
  unfold resolveMapping
  extract_lets replacementName key
  change hasKeyAndCollides resolved.triggerArgumentMap mapping key = false at hcollides
  intro originalExpression key' hkey'
  dsimp only at hkey' ⊢
  rw [OrderedMap.get?_set] at hkey'
  rw [OrderedMap.get?_set]
  split at hkey'
  · rename_i horiginal
    obtain rfl := Option.some.inj hkey'
    exact ⟨_, if_pos rfl, horiginal⟩
  · obtain ⟨value, hvalue, horiginal⟩ := h originalExpression key' hkey'
    by_cases hkeys : key = key'
    · subst hkeys
      obtain rfl := eq_of_not_hasKeyAndCollides hcollides hvalue
      exact ⟨_, if_pos rfl, horiginal⟩
    · exact ⟨value, (if_neg hkeys).trans hvalue, horiginal⟩

theorem consistent_resolveDuplicates (data : List ExpressionMapping) :
    (resolveDuplicates data allNodeNames).Consistent := by
  have hfold : ∀ resolved : ResolvedDuplicates, resolved.Consistent →
      (data.foldl (resolveMapping allNodeNames) resolved).Consistent := by
    induction data with
    | nil => exact fun _ h => h
    | cons mapping data ih => exact fun resolved h => ih _ (consistent_resolveMapping h mapping)
  exact hfold {} nofun

theorem originalExpression_of_getCanonicalData {resolved : ResolvedDuplicates}
    (h : resolved.Consistent) {canonical : ExpressionMapping}
    (hcanonical : getCanonicalData resolved mapping = some canonical) :
    canonical.originalExpression = mapping.originalExpression := by
  obtain ⟨key, hkey, hvalue⟩ := Option.bind_eq_some_iff.mp hcanonical
  obtain ⟨value, hvalue', horiginal⟩ := h _ key hkey
  obtain rfl := Option.some.inj (hvalue'.symm.trans hvalue)
  exact horiginal

/-- An original expression has a point. -/
theorem originalExpression_ne_nil {isolatedExpression : JsString}
    {nodeNameInExpression nodeNamePlainJs : Option JsString}
    (h : parseExpressionMapping isolatedExpression nodeNameInExpression nodeNamePlainJs
      startNodeName = some mapping) : mapping.originalExpression ≠ [] := by
  unfold parseExpressionMapping at h
  extract_lets splitExpr dotsInName offset exprStart parts plainJs start at h
  clear_value exprStart parts
  have hne : ∀ rest : JsString, exprStart ++ dot :: rest ≠ [] := fun rest =>
    List.append_ne_nil_of_right_ne_nil _ (List.cons_ne_nil _ _)
  split at h
  · obtain rfl := Option.some.inj h
    exact hne _
  · split at h
    · cases h
    · rename_i part rest _
      dsimp only at h
      split at h
      · split at h
        · obtain rfl := Option.some.inj h
          exact hne _
        · split at h
          · obtain rfl := Option.some.inj h
            exact hne _
          · obtain rfl := Option.some.inj h
            exact hne _
      · split at h
        · obtain rfl := Option.some.inj h
          exact hne _
        · cases h

theorem originalExpression_ne_nil_of_mem {parse_json : Bool} {placed : ℕ × ExpressionMapping}
    (h : placed ∈ placedMappings nodeNames startNodeName expression parse_json) :
    placed.2.originalExpression ≠ [] := by
  rcases List.mem_append.mp h with h | h
  · obtain ⟨pattern, -, h⟩ := List.mem_flatMap.mp h
    split at h
    · obtain ⟨found, -, h⟩ := List.mem_filterMap.mp h
      obtain ⟨mapping, hmapping, rfl⟩ := Option.map_eq_some_iff.mp h
      unfold parseCandidateMatch at hmapping
      dsimp only at hmapping
      split at hmapping
      · cases hmapping
      · obtain ⟨candidate, -, hmapping⟩ := Option.bind_eq_some_iff.mp hmapping
        exact originalExpression_ne_nil hmapping
    · cases h
  · split at h
    · obtain ⟨found, -, h⟩ := List.mem_filterMap.mp h
      obtain ⟨mapping, hmapping, rfl⟩ := Option.map_eq_some_iff.mp h
      obtain ⟨candidate, -, hmapping⟩ := Option.bind_eq_some_iff.mp hmapping
      exact originalExpression_ne_nil hmapping
    · cases h

/-! ## Tokens -/

inductive Token where
  | unit (u : UInt16)
  | reference (mapping : ExpressionMapping)
  deriving DecidableEq

/-- The longest reference at a place, where `text` begins. -/
def referenceAt (references : List (ℕ × ExpressionMapping)) (place : ℕ) (text : JsString) :
    Option ExpressionMapping :=
  (sortByLength ((references.filter fun placed =>
    placed.1 = place ∧ placed.2.originalExpression <+: text).map Prod.snd)).head?

/-- The references, and the units between them, after `skip` units that belong to a reference. -/
def tokensFrom (references : List (ℕ × ExpressionMapping)) : ℕ → ℕ → JsString → List Token
  | _, _, [] => []
  | skip + 1, place, _ :: text => tokensFrom references skip (place + 1) text
  | 0, place, u :: text =>
    match referenceAt references place (u :: text) with
    | none => .unit u :: tokensFrom references 0 (place + 1) text
    | some mapping =>
      .reference mapping ::
        tokensFrom references (mapping.originalExpression.length - 1) (place + 1) text

/-- The text of a token where the references to some original expressions are rewritten. -/
def Token.expand (rewritten : List JsString) : Token → JsString
  | unit u => [u]
  | reference mapping =>
    if mapping.originalExpression ∈ rewritten then mapping.replacement
    else mapping.originalExpression

def expandTokens (rewritten : List JsString) (tokens : List Token) : JsString :=
  tokens.flatMap (Token.expand rewritten)

/-- Wherever the original expression of the mapping occurs, the replacement is put in as it is, and it
is the same text, or there is a reference of the mapping that is not rewritten yet. -/
def KeepsReferences (tokens : List Token) (rewritten : List JsString)
    (mapper : ExpressionMapping) : Prop :=
  ∀ before after, expandTokens rewritten tokens = before ++ mapper.originalExpression ++ after →
    Lib.isPlain mapper.replacement = true ∧
      (mapper.replacement = mapper.originalExpression ∨
        mapper.originalExpression ∉ rewritten ∧
          ∃ tokens₁ tokens₂, tokens = tokens₁ ++ .reference mapper :: tokens₂ ∧
            before = expandTokens rewritten tokens₁)

/-- What a list of mappings has to do with the references of an expression. -/
structure MapsReferences (references : List (ℕ × ExpressionMapping))
    (mappings : List ExpressionMapping) : Prop where
  ne_nil : ∀ mapping ∈ mappings, mapping.originalExpression ≠ []
  eq_of_eq : ∀ mapping ∈ mappings, ∀ mapping' ∈ mappings,
    mapping.originalExpression = mapping'.originalExpression → mapping = mapping'
  mem : ∀ placed ∈ references, placed.2 ∈ mappings

section Steps

variable {references : List (ℕ × ExpressionMapping)} {mappings : List ExpressionMapping}
  {tokens : List Token} {rewritten : List JsString} {mapper : ExpressionMapping}

theorem mem_sortByLength : mapping ∈ sortByLength mappings ↔ mapping ∈ mappings :=
  (List.perm_insertionSort _ _).mem_iff

theorem of_referenceAt {place : ℕ} {text : JsString}
    (h : referenceAt references place text = some mapping) :
    (∃ placed ∈ references, placed.2 = mapping) ∧ mapping.originalExpression <+: text := by
  have hmem := mem_sortByLength.mp (List.mem_of_head? h)
  obtain ⟨placed, hplaced, rfl⟩ := List.mem_map.mp hmem
  obtain ⟨hplaced, hprefix⟩ := List.mem_filter.mp hplaced
  exact ⟨⟨placed, hplaced, rfl⟩, (of_decide_eq_true hprefix).2⟩

/-- The references of the tokens are mapped. -/
theorem mem_of_mem_tokensFrom (hmaps : MapsReferences references mappings) {skip place : ℕ}
    {text : JsString} (h : .reference mapping ∈ tokensFrom references skip place text) :
    mapping ∈ mappings := by
  induction text generalizing skip place with
  | nil => simp [tokensFrom] at h
  | cons u text ih =>
    cases skip with
    | succ skip => exact ih h
    | zero =>
      rw [tokensFrom] at h
      split at h
      · rcases List.mem_cons.mp h with h | h
        · cases h
        · exact ih h
      · rename_i found hfound
        rcases List.mem_cons.mp h with h | h
        · obtain rfl := Token.reference.inj h
          obtain ⟨⟨placed, hplaced, rfl⟩, -⟩ := of_referenceAt hfound
          exact hmaps.mem placed hplaced
        · exact ih h

/-- Where nothing is rewritten, the tokens make up the expression. -/
theorem expandTokens_tokensFrom (hmaps : MapsReferences references mappings) (skip place : ℕ)
    (text : JsString) : expandTokens [] (tokensFrom references skip place text) = text.drop skip := by
  induction text generalizing skip place with
  | nil => rw [tokensFrom, List.drop_nil]; rfl
  | cons u text ih =>
    cases skip with
    | succ skip => exact ih skip (place + 1)
    | zero =>
      rw [tokensFrom]
      split
      · exact congrArg (u :: ·) (ih 0 (place + 1))
      · rename_i found hfound
        obtain ⟨⟨placed, hplaced, rfl⟩, rest, hrest⟩ := of_referenceAt hfound
        have hne := hmaps.ne_nil _ (hmaps.mem placed hplaced)
        obtain ⟨v, original, horiginal⟩ := List.exists_cons_of_ne_nil hne
        rw [horiginal, List.cons_append] at hrest
        obtain ⟨rfl, rfl⟩ := List.cons.inj hrest
        have ih := ih (placed.2.originalExpression.length - 1) (place + 1)
        rw [expandTokens, List.flatMap_cons, ← expandTokens, ih, horiginal, Token.expand,
          if_neg List.not_mem_nil, horiginal, List.length_cons, Nat.add_sub_cancel, List.drop_left]
        rfl

theorem Token.expand_ne_nil (hne : ∀ mapping, .reference mapping ∈ tokens →
    mapping.originalExpression ≠ []) {token : Token} (h : token ∈ tokens) :
    token.expand rewritten ≠ [] := by
  cases token with
  | unit u => exact List.cons_ne_nil _ _
  | reference mapping =>
    rw [expand]
    split
    · simp [ExpressionMapping.replacement, units]
    · exact hne mapping h

/-! ## Steps -/

/-- The tokens as pieces, with the references marked that are rewritten next. -/
def tokenPieces (rewritten : List JsString) (original : JsString) (tokens : List Token) :
    Pieces UInt16 :=
  tokens.map fun token =>
    (token.expand rewritten,
      match token with
      | .unit _ => false
      | .reference mapping =>
        mapping.originalExpression = original && mapping.originalExpression ∉ rewritten)

theorem text_tokenPieces (rewritten : List JsString) (original : JsString) (tokens : List Token) :
    (tokenPieces rewritten original tokens).text = expandTokens rewritten tokens := by
  rw [Pieces.text, tokenPieces, List.map_map, expandTokens, List.flatMap_def]
  rfl

/-- A token is as it was, if it is no reference that the mapping rewrites to another text. -/
theorem expand_append_of_eq {token : Token}
    (h : ∀ mapping, token = .reference mapping →
      mapping.originalExpression = mapper.originalExpression →
        mapping.originalExpression ∉ rewritten →
          mapping.replacement = mapping.originalExpression) :
    token.expand rewritten = token.expand (rewritten ++ [mapper.originalExpression]) := by
  cases token with
  | unit u => rfl
  | reference mapping =>
    simp only [Token.expand, List.mem_append, List.mem_singleton]
    by_cases hmem : mapping.originalExpression ∈ rewritten
    · rw [if_pos hmem, if_pos (.inl hmem)]
    · rw [if_neg hmem]
      split
      · rename_i heq
        exact (h mapping rfl (heq.resolve_left hmem) hmem).symm
      · rfl

/-- If the original expression occurs only as references, these are the pieces to be replaced. -/
theorem occursAtMarks_tokenPieces (h : ∀ before after,
    expandTokens rewritten tokens = before ++ mapper.originalExpression ++ after →
      mapper.originalExpression ∉ rewritten ∧
        ∃ tokens₁ tokens₂, tokens = tokens₁ ++ .reference mapper :: tokens₂ ∧
          before = expandTokens rewritten tokens₁) :
    OccursAtMarks mapper.originalExpression
      (tokenPieces rewritten mapper.originalExpression tokens) := by
  intro before after htext
  rw [text_tokenPieces] at htext
  obtain ⟨hnew, tokens₁, tokens₂, htokens, hbefore⟩ := h before after htext
  refine ⟨tokenPieces rewritten mapper.originalExpression tokens₁,
    tokenPieces rewritten mapper.originalExpression tokens₂, ?_, ?_⟩
  · rw [htokens, tokenPieces, List.map_append, List.map_cons]
    simp [tokenPieces, Token.expand, hnew]
  · rw [hbefore, text_tokenPieces]

/-- Replacing the marked pieces rewrites the references. -/
theorem replace_tokenPieces (hnew : mapper.originalExpression ∉ rewritten)
    (hmapper : ∀ mapping, .reference mapping ∈ tokens →
      mapping.originalExpression = mapper.originalExpression → mapping = mapper) :
    (tokenPieces rewritten mapper.originalExpression tokens).replace mapper.replacement =
      expandTokens (rewritten ++ [mapper.originalExpression]) tokens := by
  rw [Pieces.replace, tokenPieces, List.map_map, expandTokens, List.flatMap_def]
  refine congrArg List.flatten (List.map_congr_left fun token htoken => ?_)
  cases token with
  | unit u => rfl
  | reference mapping =>
    by_cases horiginal : mapping.originalExpression = mapper.originalExpression
    · obtain rfl := hmapper mapping htoken horiginal
      simp [Token.expand, hnew]
    · simp [Token.expand, horiginal]

/-- Where the references are kept, a step rewrites those of its mapping. -/
theorem applyMapper_expandTokens
    (hne : ∀ mapping, .reference mapping ∈ tokens → mapping.originalExpression ≠ [])
    (hmapper : ∀ mapping, .reference mapping ∈ tokens →
      mapping.originalExpression = mapper.originalExpression → mapping = mapper)
    (horiginal : mapper.originalExpression ≠ []) (h : KeepsReferences tokens rewritten mapper) :
    applyMapper (expandTokens rewritten tokens) mapper =
      expandTokens (rewritten ++ [mapper.originalExpression]) tokens := by
  rw [applyMapper]
  split
  · rename_i hinfix
    obtain ⟨before, after, htext⟩ := hinfix
    obtain ⟨hplain, halone⟩ := h before after htext.symm
    by_cases hsame : mapper.replacement = mapper.originalExpression
    · rw [hsame, replaceText_self horiginal (hsame ▸ hplain)]
      refine List.flatMap_congr fun token htoken => expand_append_of_eq ?_
      rintro mapping rfl heq -
      rwa [hmapper mapping htoken heq]
    · obtain ⟨hnew, -⟩ := halone.resolve_left hsame
      rw [← text_tokenPieces rewritten mapper.originalExpression,
        replaceText_pieces horiginal hplain, replace_tokenPieces hnew hmapper]
      · intro piece hpiece
        obtain ⟨token, htoken, rfl⟩ := List.mem_map.mp hpiece
        exact Token.expand_ne_nil hne htoken
      · intro piece hpiece hmarked
        obtain ⟨token, htoken, rfl⟩ := List.mem_map.mp hpiece
        cases token with
        | unit u => cases hmarked
        | reference mapping =>
          obtain ⟨heq, hnot⟩ : mapping.originalExpression = mapper.originalExpression ∧
            mapping.originalExpression ∉ rewritten := by simpa using hmarked
          rw [Token.expand, if_neg hnot, heq]
      · exact occursAtMarks_tokenPieces fun before after htext =>
          (h before after htext).2.resolve_left hsame
  · rename_i hinfix
    refine List.flatMap_congr fun token htoken => expand_append_of_eq ?_
    rintro mapping rfl heq hnot
    obtain ⟨tokens₁, tokens₂, rfl⟩ := List.append_of_mem htoken
    refine absurd ⟨expandTokens rewritten tokens₁, expandTokens rewritten tokens₂, ?_⟩ hinfix
    simp [expandTokens, Token.expand, hnot, ← heq]

end Steps

/-! ## Runs -/

/-- An expression of a node that is extracted, with the mappings of all expressions. `parse_json`
holds for the nodes that get the input of the sub-workflow. -/
structure Extraction where
  nodeNames : List JsString
  startNodeName : JsString
  dataFromOutsideSubgraph : List ExpressionMapping
  expression : JsString
  parse_json : Bool

namespace Extraction

variable (x : Extraction)

def resolved : ResolvedDuplicates := resolveDuplicates x.dataFromOutsideSubgraph x.nodeNames

def mappings : List ExpressionMapping :=
  applyCanonicalMapping x.resolved
    (parseReferencingExpressions x.nodeNames x.startNodeName x.expression x.parse_json)

/-- The references to nodes outside, with their places. -/
def references : List (ℕ × ExpressionMapping) :=
  (placedMappings x.nodeNames x.startNodeName x.expression x.parse_json).filterMap fun placed =>
    (getCanonicalData x.resolved placed.2).map (placed.1, ·)

def tokens : List Token := tokensFrom x.references 0 0 x.expression

/-- The expression with the variable in the place of each reference. -/
def rewrittenExpression : JsString :=
  x.tokens.flatMap fun
    | .unit u => [u]
    | .reference mapping => mapping.replacement

/-- Each step rewrites the references of its mapping and nothing else, so that in the end all are
rewritten. -/
structure RewritesWholeReferences : Prop where
  rewrites : applyMapping x.expression x.mappings = x.rewrittenExpression
  steps : ∀ done later, x.mappings = done ++ later →
    applyMapping x.expression done =
      expandTokens (done.map ExpressionMapping.originalExpression) x.tokens

/-- The references are kept by each mapping when its turn comes. -/
def KeepsAllReferences : Prop :=
  ∀ done mapper later, x.mappings = done ++ mapper :: later →
    KeepsReferences x.tokens (done.map ExpressionMapping.originalExpression) mapper

theorem mapsReferences : MapsReferences x.references x.mappings := by
  have hconsistent : x.resolved.Consistent := consistent_resolveDuplicates _
  have hmem : ∀ mapping ∈ x.mappings, ∃ placed ∈
      placedMappings x.nodeNames x.startNodeName x.expression x.parse_json,
        getCanonicalData x.resolved placed.2 = some mapping := by
    intro mapping hmapping
    obtain ⟨found, hfound, hcanonical⟩ := List.mem_filterMap.mp (mem_sortByLength.mp hmapping)
    obtain ⟨placed, hplaced, rfl⟩ := List.mem_map.mp hfound
    exact ⟨placed, hplaced, hcanonical⟩
  refine ⟨fun mapping hmapping => ?_, fun mapping hmapping mapping' hmapping' heq => ?_,
    fun placed hplaced => ?_⟩
  · obtain ⟨placed, hplaced, hcanonical⟩ := hmem mapping hmapping
    rw [originalExpression_of_getCanonicalData hconsistent hcanonical]
    exact originalExpression_ne_nil_of_mem hplaced
  · obtain ⟨placed, -, hcanonical⟩ := hmem mapping hmapping
    obtain ⟨placed', -, hcanonical'⟩ := hmem mapping' hmapping'
    rw [originalExpression_of_getCanonicalData hconsistent hcanonical,
      originalExpression_of_getCanonicalData hconsistent hcanonical'] at heq
    rw [getCanonicalData, heq] at hcanonical
    exact Option.some.inj (hcanonical.symm.trans hcanonical')
  · obtain ⟨found, hfound, hplaced⟩ := List.mem_filterMap.mp hplaced
    obtain ⟨canonical, hcanonical, rfl⟩ := Option.map_eq_some_iff.mp hplaced
    exact mem_sortByLength.mpr (List.mem_filterMap.mpr
      ⟨found.2, List.mem_map_of_mem hfound, hcanonical⟩)

end Extraction

/-- Where each original expression occurs only as its own references when its turn comes, the
references are rewritten as a whole. -/
theorem rewritesWholeReferences (x : Extraction) (h : x.KeepsAllReferences) :
    x.RewritesWholeReferences := by
  have hmaps := x.mapsReferences
  have hreference : ∀ mapping, .reference mapping ∈ x.tokens → mapping ∈ x.mappings :=
    fun mapping hmem => mem_of_mem_tokensFrom hmaps hmem
  have hsteps : ∀ done later, x.mappings = done ++ later →
      applyMapping x.expression done =
        expandTokens (done.map ExpressionMapping.originalExpression) x.tokens := by
    intro done
    induction done using List.reverseRecOn with
    | nil => exact fun _ _ => (expandTokens_tokensFrom hmaps 0 0 x.expression).symm
    | append_singleton done mapper ih =>
      intro later hsplit
      rw [List.append_assoc, List.singleton_append] at hsplit
      have hmapper : mapper ∈ x.mappings := by
        rw [hsplit]
        exact List.mem_append_right _ List.mem_cons_self
      have hlast : applyMapping x.expression (done ++ [mapper]) =
          applyMapper (applyMapping x.expression done) mapper := by
        rw [applyMapping, List.foldl_append]
        rfl
      rw [hlast, ih _ hsplit, List.map_append]
      exact applyMapper_expandTokens (fun mapping hmem => hmaps.ne_nil _ (hreference mapping hmem))
        (fun mapping hmem => hmaps.eq_of_eq _ (hreference mapping hmem) _ hmapper)
        (hmaps.ne_nil _ hmapper) (h done mapper later hsplit)
  refine ⟨?_, hsteps⟩
  rw [hsteps x.mappings [] (List.append_nil _).symm]
  refine List.flatMap_congr fun token htoken => ?_
  cases token with
  | unit u => rfl
  | reference mapping => exact if_pos (List.mem_map_of_mem (hreference mapping htoken))

/-- The extraction of one expression, of which all references are to nodes outside. -/
def extractionOf (expression : String) : Extraction where
  nodeNames := [units "A"]
  startNodeName := units "Start"
  dataFromOutsideSubgraph :=
    parseReferencingExpressions [units "A"] (units "Start") (units expression) true
  expression := units expression
  parse_json := true

/-- `$('A').item.json.x` as `$('Start').item.json.x` -/
def itemMapping : ExpressionMapping where
  nodeNameInExpression := some (units "A")
  originalExpression := units "$('A').item.json.x"
  replacementPrefix := units "$('Start').item.json"
  replacementName := units "x"

/-- A reference that occurs once is rewritten. -/
theorem rewritesWholeReferences_item :
    (extractionOf "=\x7b\x7b $('A').item.json.x \x7d\x7d").RewritesWholeReferences := by
  have hmappings : (extractionOf "=\x7b\x7b $('A').item.json.x \x7d\x7d").mappings = [itemMapping] := by
    decide
  have htokens : (extractionOf "=\x7b\x7b $('A').item.json.x \x7d\x7d").tokens =
      (units "=\x7b\x7b ").map .unit ++ .reference itemMapping :: (units " \x7d\x7d").map .unit := by
    decide
  have hplaces : ∀ place < (units "=\x7b\x7b $('A').item.json.x \x7d\x7d").length + 1,
      itemMapping.originalExpression <+: (units "=\x7b\x7b $('A').item.json.x \x7d\x7d").drop place →
        place = 4 := by
    decide
  refine rewritesWholeReferences _ fun done mapper later hsplit before after htext => ?_
  rw [hmappings] at hsplit
  rcases done with _ | ⟨mapping, done⟩
  · obtain ⟨rfl, rfl⟩ := List.cons.inj hsplit
    have htext : units "=\x7b\x7b $('A').item.json.x \x7d\x7d" =
        before ++ itemMapping.originalExpression ++ after := by
      rw [← htext, htokens]
      decide
    have hplace : before.length = 4 := by
      refine hplaces _ ?_ ⟨after, ?_⟩
      · rw [htext, List.length_append, List.length_append]
        omega
      · rw [htext, List.append_assoc, List.drop_left]
    refine ⟨by decide, .inr ⟨List.not_mem_nil, _, _, htokens, ?_⟩⟩
    have hbefore : before = (units "=\x7b\x7b $('A').item.json.x \x7d\x7d").take 4 := by
      rw [htext, ← hplace, List.append_assoc, List.take_left]
    rw [hbefore]
    decide
  · simp at hsplit

/-- What was put in is rewritten again, a longer name is rewritten in part, and a dollar sign is
lost. -/
theorem not_rewritesWholeReferences :
    ¬ (extractionOf "=\x7b\x7b $json.a.b + $json.a_b \x7d\x7d").RewritesWholeReferences ∧
      ¬ (extractionOf "=\x7b\x7b $('A').params + $('A').paramsFoo \x7d\x7d").RewritesWholeReferences ∧
        ¬ (extractionOf "=\x7b\x7b $('A').item.json.a$$b \x7d\x7d").RewritesWholeReferences := by
  refine ⟨fun h => ?_, fun h => ?_, fun h => ?_⟩
  · exact absurd h.rewrites (by decide)
  · exact absurd h.rewrites (by decide)
  · exact absurd h.rewrites (by decide)

end N8n
