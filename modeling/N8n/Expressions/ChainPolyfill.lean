import N8n.Expressions.ExpressionSemantics
import N8n.Expressions.SourceChains

/-!
# The polyfill of optional chaining

What the sequence that replaces a chain does (`eval_replaceChain`) : it follows the links of
the chain (`evalCut`), and at an optional one it stores what it has so far in the slot of the
chain and goes on from there, unless the other slot says that the chain is cut short. What is
read back from the slot has the global object as its receiver.
-/

open Lib

namespace N8n.Polyfill

variable {σ : Type} {host : Host σ} {defaultComputed : NodeType → Bool} {k : ℕ}

/-! ## Equations of the evaluator -/

@[simp] theorem referenceValue_none : referenceValue none = .undefined := rfl

@[simp] theorem referenceValue_some (v receiver : Value) :
    referenceValue (some (v, receiver)) = v := rfl

@[simp] theorem referenceValue_noReceiver (v : Value) : referenceValue (noReceiver v) = v := rfl

@[simp] theorem truthy_boolean (b : Bool) : (Value.boolean b).truthy = b := rfl

theorem eval_eq (expression : Expr) :
    eval host expression = referenceValue <$> evalReference host expression := by
  rw [eval, map_eq_pure_bind]

/-- The key of a member access. -/
def memberKey (host : Host σ) (computed : Bool) (property : Expr) : Eval σ Value :=
  if computed then eval host property
  else
    match staticKey property with
    | some key => pure key
    | none => throw syntaxError

theorem evalReference_member (object property : Expr) (computed optional : Bool) :
    evalReference host (.member object property computed optional) =
      evalReference host object >>= getMember host (memberKey host computed property) optional := by
  rw [evalReference]
  rfl

theorem evalReference_call (callee : Expr) (arguments : List Expr) (optional : Bool) :
    evalReference host (.call callee arguments optional) =
      evalReference host callee >>= callFunction host (evalAll host arguments) optional := by
  rw [evalReference]

theorem evalReference_binary (operator : String) (left right : Expr) :
    evalReference host (.binary operator left right) = (do
      let l ← eval host left
      let r ← eval host right
      let v ← applyOperator host operator l r
      pure (noReceiver v)) := by
  simp only [evalReference, eval, bind_assoc, pure_bind]

theorem evalReference_coalesce (left right : Expr) :
    evalReference host (.coalesce left right) = (do
      let l ← eval host left
      if l.isNullish then do
        let r ← eval host right
        pure (noReceiver r)
      else pure (noReceiver l)) := by
  simp only [evalReference, eval, bind_assoc, pure_bind]

theorem evalReference_conditional (test consequent alternate : Expr) :
    evalReference host (.conditional test consequent alternate) = (do
      let t ← eval host test
      let v ← eval host (if t.truthy then consequent else alternate)
      pure (noReceiver v)) := by
  simp only [evalReference, eval, bind_assoc, pure_bind]
  exact congrArg _ (funext fun t => by split_ifs <;> rfl)

theorem evalAll_cons (node : Expr) (nodes : List Expr) :
    evalAll host (node :: nodes) = (do
      let v ← eval host node
      let values ← evalAll host nodes
      pure (v :: values)) := by
  simp only [evalAll, eval, bind_assoc, pure_bind]

theorem eval_check (node : Expr) :
    eval host (buildCancelCheckWrapper k node) = (do
      let cancelled ← readSlot .cancel k
      if cancelled = .boolean true then pure .undefined else eval host node) := by
  simp only [eval, buildCancelCheckWrapper, undefinedIdentifier, evalReference, applyOperator,
    if_true, bind_assoc, pure_bind, referenceValue_some, referenceValue_noReceiver, truthy_boolean]
  refine congrArg (readSlot .cancel k >>= ·) (funext fun cancelled => ?_)
  by_cases h : cancelled = .boolean true <;> simp [h]

/-- Storing the value of a part, and whether it cuts the chain short. -/
def storePart (k : ℕ) (v : Value) (machine : Machine σ) : Value × Machine σ :=
  (.boolean v.isNullish, { machine with
    slots := (machine.slots.write .value k v).write .cancel k (.boolean v.isNullish) })

/-- A part that is not the last one. -/
def buildPart (k : ℕ) (node : Expr) : Expr :=
  buildCancelAssignWrapper k (buildOptionalWrapper k node)

theorem eval_buildPart (node : Expr) :
    eval host (buildPart k node) = eval host node >>= fun v => Exec.step (storePart k v) := by
  have hstore : ∀ v, (Exec.step (storePart k v) : Eval σ Value) =
      writeSlot .value k v >>= fun _ => writeSlot .cancel k (.boolean v.isNullish) :=
    fun v => Exec.ext fun machine => by rw [writeSlot, Exec.runFrom_bind]; rfl
  simp only [hstore, eval, buildPart, buildCancelAssignWrapper, buildOptionalWrapper,
    buildValueAssignWrapper, undefinedIdentifier, evalReference, applyOperator, if_true, bind_assoc,
    pure_bind, referenceValue_noReceiver]
  refine congrArg (evalReference host node >>= ·) (funext fun r => Exec.ext fun machine => ?_)
  simp only [writeSlot, Exec.runFrom_bind, Exec.runFrom_step]
  by_cases h : (referenceValue r).isNullish
  · simp [h]
  · have hne : referenceValue r ≠ .undefined := fun he => h (by rw [he]; rfl)
    simp [h, hne]

/-! ## Applying patches -/

/-- Applying one patch to what a reference stands for. -/
def runPatch (host : Host σ) (defaultComputed : NodeType → Bool) (r : Option Reference) :
    Patch → Eval σ (Option Reference)
  | .member property =>
    getMember host (memberKey host (defaultComputed property.nodeType) property) false r
  | .call arguments => callFunction host (evalAll host arguments) false r

def runPatches (host : Host σ) (defaultComputed : NodeType → Bool) (patches : List Patch)
    (r : Option Reference) : Eval σ (Option Reference) :=
  patches.foldlM (runPatch host defaultComputed) r

theorem evalReference_applyPatches (node : Expr) (patches : List Patch) :
    evalReference host (applyPatches defaultComputed node patches) =
      evalReference host node >>= runPatches host defaultComputed patches := by
  induction patches generalizing node with
  | nil => exact (bind_pure _).symm
  | cons patch patches ih =>
    have hpatch : evalReference host (patch.apply defaultComputed node) =
        evalReference host node >>= fun r => runPatch host defaultComputed r patch := by
      cases patch with
      | member property => exact evalReference_member _ _ _ _
      | call arguments => exact evalReference_call _ _ _
    rw [applyPatches, List.foldl_cons, ← applyPatches, ih, hpatch, bind_assoc]
    rfl

/-! ## The links of a chain -/

/-- Storing what a part gives, unless the chain was cut before. -/
def storeReference (k : ℕ) : Option Reference → Eval σ Value
  | none => pure .undefined
  | some r => Exec.step (storePart k r.1)

/-- One link of a chain, after what is before it. -/
def runLink (host : Host σ) (defaultComputed : NodeType → Bool) (k : ℕ) (optional : Bool)
    (patch : Patch) (r : Option Reference) : Eval σ (Option Reference) :=
  if optional then do
    let _ ← storeReference k r
    let cancelled ← readSlot .cancel k
    if cancelled = .boolean true then pure none
    else do
      let value ← readSlot .value k
      runPatch host defaultComputed (some (value, host.globalObject)) patch
  else runPatch host defaultComputed r patch

/-- Following a chain as its parts do. `none` when it was cut. -/
def evalCut (host : Host σ) (defaultComputed : NodeType → Bool) (k : ℕ) :
    Expr → Eval σ (Option Reference)
  | .member object property _ optional => do
    let r ← evalCut host defaultComputed k object
    runLink host defaultComputed k optional (.member property) r
  | .call callee arguments optional => do
    let r ← evalCut host defaultComputed k callee
    runLink host defaultComputed k optional (.call arguments) r
  | node => evalReference host node

/-- The rest of the last part, after the links that were followed. -/
def finishParts (host : Host σ) (defaultComputed : NodeType → Bool) (patches : List Patch)
    (post : Value → Machine σ → Value × Machine σ) : Option Reference → Eval σ Value
  | none => pure .undefined
  | some r => do
    let r' ← runPatches host defaultComputed patches (some r)
    Exec.step (post (referenceValue r'))

theorem finishParts_storePart (r : Option Reference) :
    finishParts host defaultComputed [] (storePart k) r = storeReference k r := by
  cases r <;> rfl

/-! ## References -/

/-- The computation never gives `none`. -/
def GivesReference (m : Eval σ (Option Reference)) : Prop :=
  ∃ m' : Eval σ Reference, m = m' >>= fun r => pure (some r)

theorem GivesReference.pure (r : Reference) : GivesReference (Pure.pure (some r) : Eval σ _) :=
  ⟨Pure.pure r, (pure_bind _ _).symm⟩

theorem GivesReference.bind {α : Type} {m : Eval σ α} {f : α → Eval σ (Option Reference)}
    (h : ∀ a, GivesReference (f a)) : GivesReference (m >>= f) := by
  choose f' hf using h
  refine ⟨m >>= f', ?_⟩
  rw [bind_assoc]
  exact congrArg (m >>= ·) (funext hf)

/-- What follows such a computation need only be compared on references. -/
theorem GivesReference.bind_congr {β : Type} {m : Eval σ (Option Reference)}
    (h : GivesReference m) {f f' : Option Reference → Eval σ β}
    (hf : ∀ r, f (some r) = f' (some r)) : m >>= f = m >>= f' := by
  obtain ⟨m', rfl⟩ := h
  simp only [bind_assoc, pure_bind, hf]


theorem givesReference_of_not_isLink {node : Expr} (h : isLink node = false) :
    GivesReference (evalReference host node) := by
  cases node with
  | member => simp [isLink] at h
  | call => simp [isLink] at h
  | identifier name =>
    rw [evalReference]
    split_ifs
    · exact .pure _
    · exact .bind fun _ => .pure _
  | literal => exact .pure _
  | chain => exact .bind fun r => .pure _
  | binary => exact .bind fun _ => .bind fun _ => .bind fun _ => .pure _
  | coalesce left right =>
    rw [evalReference]
    refine .bind fun l => ?_
    split_ifs
    · exact .bind fun _ => .pure _
    · exact .pure _
  | conditional test consequent alternate =>
    rw [evalReference]
    refine .bind fun t => ?_
    split_ifs
    · exact .bind fun _ => .pure _
    · exact .bind fun _ => .pure _
  | sequence => exact .bind fun _ => .pure _
  | array => exact .bind fun _ => .bind fun _ => .pure _
  | slot => exact .bind fun _ => .pure _
  | assignSlot => exact .bind fun _ => .bind fun _ => .pure _

theorem givesReference_getMember (key : Eval σ Value) (r : Reference) :
    GivesReference (getMember host key false (some r)) := by
  rw [getMember, if_neg fun h => Bool.false_ne_true h.1]
  exact .bind fun _ => .bind fun _ => .pure _

theorem givesReference_callFunction (arguments : Eval σ (List Value)) (r : Reference) :
    GivesReference (callFunction host arguments false (some r)) := by
  rw [callFunction, if_neg fun h => Bool.false_ne_true h.1]
  exact .bind fun _ => .bind fun _ => .pure _

theorem givesReference_runPatch (r : Reference) (patch : Patch) :
    GivesReference (runPatch host defaultComputed (some r) patch) := by
  cases patch with
  | member property => exact givesReference_getMember _ r
  | call arguments => exact givesReference_callFunction _ r

theorem runPatch_none (patch : Patch) : runPatch host defaultComputed none patch = pure none := by
  cases patch <;> rfl

theorem runPatch_finishParts {post : Value → Machine σ → Value × Machine σ} (patch : Patch)
    (patches : List Patch) (r : Option Reference) :
    runPatch host defaultComputed r patch >>= finishParts host defaultComputed patches post =
      finishParts host defaultComputed (patch :: patches) post r := by
  cases r with
  | none => rw [runPatch_none, pure_bind, finishParts, finishParts]
  | some r =>
    rw [finishParts, runPatches, List.foldlM_cons, bind_assoc]
    exact (givesReference_runPatch r patch).bind_congr fun _ => rfl

/-! ## The parts of a chain -/

/-- The wrapped parts of a chain, the last one in a context. -/
def wrapParts (k : ℕ) (context : Expr → Expr) (stack : List Expr) : List Expr :=
  stack.zipIdx.map fun part =>
    let node := if part.2 ≠ stack.length - 1 then buildPart k part.1 else context part.1
    if part.2 ≠ 0 then buildCancelCheckWrapper k node else node

theorem wrapParts_singleton (context : Expr → Expr) (node : Expr) :
    wrapParts k context [node] = [context node] := rfl

theorem wrapParts_append {context : Expr → Expr} {stack : List Expr} (h : stack ≠ [])
    (node : Expr) : wrapParts k context (stack ++ [node]) =
      wrapParts k (buildPart k) stack ++ [buildCancelCheckWrapper k (context node)] := by
  have hlength : stack.length ≠ 0 := fun h0 => h (List.length_eq_zero_iff.mp h0)
  simp only [wrapParts, List.zipIdx_append, List.map_append, List.length_append]
  congr 1
  · refine List.map_congr_left fun part hpart => ?_
    have hlt : part.2 < stack.length := by
      have := List.snd_lt_of_mem_zipIdx hpart
      simpa using this
    have hne : part.2 ≠ stack.length + [node].length - 1 := by
      rw [List.length_singleton]
      omega
    rw [if_pos hne, ite_self]
  · simp [hlength]

theorem evalAll_append (nodes nodes' : List Expr) :
    evalAll host (nodes ++ nodes') = (do
      let values ← evalAll host nodes
      let values' ← evalAll host nodes'
      pure (values ++ values')) := by
  induction nodes with
  | nil => simp [evalAll]
  | cons node nodes ih => simp [evalAll, ih]

/-- The value of the last one of some expressions. -/
def evalLast (host : Host σ) (nodes : List Expr) : Eval σ Value := do
  let values ← evalAll host nodes
  pure (values.getLast?.getD .undefined)

theorem evalLast_singleton (node : Expr) : evalLast host [node] = eval host node := by
  simp [evalLast, evalAll, eval]

theorem evalLast_append (nodes : List Expr) (node : Expr) :
    evalLast host (nodes ++ [node]) = (do
      let _ ← evalLast host nodes
      eval host node) := by
  simp [evalLast, evalAll_append, evalAll, eval]

section Stack

variable {isExpressionExtension : String → Bool}
  {post : Value → Machine σ → Value × Machine σ} {context : Expr → Expr}

theorem patchedStack_ne_nil (node : Expr) (patches : List Patch) (wrapNext : Bool) :
    patchedStack defaultComputed isExpressionExtension k node patches wrapNext ≠ [] := by
  fun_induction patchedStack defaultComputed isExpressionExtension k node patches wrapNext with
  | case1 => exact List.append_ne_nil_of_right_ne_nil _ (List.cons_ne_nil _ _)
  | case2 _ _ _ _ _ _ _ ih => exact ih
  | case3 => exact List.append_ne_nil_of_right_ne_nil _ (List.cons_ne_nil _ _)
  | case4 _ _ _ _ _ _ ih => exact ih
  | case5 => exact List.cons_ne_nil _ _

theorem eval_context_applyPatches
    (hcontext : ∀ node, eval host (context node) = eval host node >>= fun v => Exec.step (post v))
    (node : Expr) (patches : List Patch) :
    eval host (context (applyPatches defaultComputed node patches)) = (do
      let r ← evalReference host node
      let r' ← runPatches host defaultComputed patches r
      Exec.step (post (referenceValue r'))) := by
  rw [hcontext, eval_eq, evalReference_applyPatches]
  simp only [map_eq_pure_bind, bind_assoc, pure_bind]

/-- No call of an extended function is optional in the chain. -/
def noOptionalExtension (isExpressionExtension : String → Bool) : Expr → Bool
  | .member object _ _ _ => noOptionalExtension isExpressionExtension object
  | .call callee _ optional =>
    !(optional && isExtensionMember isExpressionExtension callee) &&
      noOptionalExtension isExpressionExtension callee
  | _ => true

/-- A part after an optional link. -/
theorem evalLast_nextPart
    (hcontext : ∀ node, eval host (context node) = eval host node >>= fun v => Exec.step (post v))
    {stack : List Expr} (hstack : stack ≠ []) {node : Expr}
    (h : evalLast host (wrapParts k (buildPart k) stack) =
      evalCut host defaultComputed k node >>= storeReference k)
    (patch : Patch) (patches : List Patch) :
    evalLast host (wrapParts k context
        (stack ++ [applyPatches defaultComputed (.slot .value k) (patch :: patches)])) = (do
      let r ← evalCut host defaultComputed k node
      let r' ← runLink host defaultComputed k true patch r
      finishParts host defaultComputed patches post r') := by
  have hslot : evalReference host (.slot .value k) =
      readSlot .value k >>= fun v => pure (some (v, host.globalObject)) := by
    rw [evalReference]
  rw [wrapParts_append hstack, evalLast_append, h, eval_check,
    eval_context_applyPatches hcontext, hslot]
  simp only [runLink, if_true, bind_assoc, pure_bind]
  refine congrArg _ (funext fun r => congrArg _ (funext fun _ => congrArg _ (funext fun cancelled =>
    ?_)))
  by_cases hcancel : cancelled = .boolean true
  · rw [if_pos hcancel, if_pos hcancel, pure_bind, finishParts]
  · rw [if_neg hcancel, if_neg hcancel, bind_assoc]
    exact congrArg _ (funext fun value => (runPatch_finishParts _ _ (some _)).symm)

theorem evalLast_wrapParts {node : Expr} (h : noOptionalExtension isExpressionExtension node)
    (hcontext : ∀ node, eval host (context node) = eval host node >>= fun v => Exec.step (post v))
    (patches : List Patch) :
    evalLast host (wrapParts k context
        (patchedStack defaultComputed isExpressionExtension k node patches false)) =
      evalCut host defaultComputed k node >>= finishParts host defaultComputed patches post := by
  have hstore : ∀ node, evalCut host defaultComputed k node >>=
      finishParts host defaultComputed [] (storePart k) =
        evalCut host defaultComputed k node >>= storeReference k :=
    fun node => congrArg _ (funext finishParts_storePart)
  induction node using evalCut.induct generalizing patches context post with
  | case1 object property computed optional ih =>
    rw [patchedStack, evalCut, bind_assoc]
    cases optional with
    | false =>
      rw [if_neg Bool.false_ne_true, ih h hcontext]
      simp only [runLink, Bool.false_eq_true, if_false, runPatch_finishParts]
    | true =>
      rw [if_pos rfl]
      exact evalLast_nextPart hcontext (patchedStack_ne_nil _ _ _)
        ((ih h eval_buildPart []).trans (hstore _)) _ _
  | case2 callee arguments optional ih =>
    simp only [noOptionalExtension, Bool.and_eq_true] at h
    rw [patchedStack, evalCut, bind_assoc]
    cases optional with
    | false =>
      rw [if_neg Bool.false_ne_true, ih h.2 hcontext]
      simp only [runLink, Bool.false_eq_true, if_false, runPatch_finishParts]
    | true =>
      have hwrap : isExtensionMember isExpressionExtension callee = false := by simpa using h.1
      rw [if_pos rfl, hwrap]
      exact evalLast_nextPart hcontext (patchedStack_ne_nil _ _ _)
        ((ih h.2 eval_buildPart []).trans (hstore _)) _ _
  | case3 node hmember hcall =>
    have hbase : isLink node = false := by
      cases node with
      | member object property computed optional => exact (hmember _ _ _ _ rfl).elim
      | call callee arguments optional => exact (hcall _ _ _ rfl).elim
      | _ => rfl
    have hstack : patchedStack defaultComputed isExpressionExtension k node patches false =
        [applyPatches defaultComputed node patches] := by
      rw [patchedStack]
      · rfl
      · exact hmember
      · exact hcall
    have hcut : evalCut host defaultComputed k node = evalReference host node := by
      rw [evalCut]
      · exact hmember
      · exact hcall
    rw [hstack, wrapParts_singleton, evalLast_singleton, eval_context_applyPatches hcontext, hcut]
    exact (givesReference_of_not_isLink hbase).bind_congr fun r => rfl

/-- What the sequence that replaces a chain evaluates to. -/
theorem eval_replaceChain {node : Expr} (h : noOptionalExtension isExpressionExtension node) :
    eval host (replaceChain defaultComputed isExpressionExtension k node) =
      referenceValue <$> evalCut host defaultComputed k node := by
  have hid : ∀ node, eval host (id node) = eval host node >>= fun v => Exec.step (Prod.mk v) :=
    fun node => (bind_pure _).symm
  have hlast : evalLast host (wrapParts k id
      (patchedStack defaultComputed isExpressionExtension k node [] false)) = _ :=
    evalLast_wrapParts h hid []
  have hfinish : finishParts host defaultComputed [] Prod.mk =
      fun r : Option Reference => (pure (referenceValue r) : Eval σ Value) := by
    funext r
    cases r <;> rfl
  rw [map_eq_pure_bind, ← hfinish, ← hlast, eval, replaceChain, evalReference]
  simp only [evalLast, bind_assoc, pure_bind, referenceValue_noReceiver]
  rfl

end Stack

end N8n.Polyfill
