import N8n.Expressions.ChainPolyfill

/-!
# What the polyfill keeps

Two evaluations agree (`Agree`) when they give the same result and leave the same heap,
whatever is in the slots of the chains. A chain agrees link by link with what replaces it
(`AgreeCut`) : both go on with the same reference, or the chain is cut and its slot says so.
An expression that is kept agrees with what the polyfill makes of it (`agree_polyfill`),
whatever the number of the first chain.
-/

open Lib

namespace N8n.Polyfill

variable {σ : Type} {host : Host σ} {defaultComputed : NodeType → Bool}
  {isExpressionExtension : String → Bool} {k : ℕ}

/-! ## Two evaluations -/

def SameHeap (s t : Machine σ) : Prop := s.heap = t.heap

/-- The same result and the same heap, whatever is in the slots. -/
def Agree {α : Type} (m m' : Eval σ α) : Prop :=
  Rel SameHeap SameHeap m m' fun a b s t => a = b ∧ SameHeap s t

/-- References to the same value, with the same receiver if `receiver` says so. -/
def SameReference (receiver : Bool) (a b : Option Reference) : Prop :=
  ∃ v r r', a = some (v, r) ∧ b = some (v, r') ∧ (receiver → r = r')

theorem SameReference.refl {receiver : Bool} (r : Reference) :
    SameReference receiver (some r) (some r) :=
  ⟨r.1, r.2, r.2, rfl, rfl, fun _ => rfl⟩

theorem SameReference.value {receiver : Bool} {a b : Option Reference}
    (h : SameReference receiver a b) : referenceValue a = referenceValue b := by
  obtain ⟨v, r, r', rfl, rfl, -⟩ := h
  rfl

def AgreeReference (receiver : Bool) (m m' : Eval σ (Option Reference)) : Prop :=
  Rel SameHeap SameHeap m m' fun a b s t => SameReference receiver a b ∧ SameHeap s t

section Agree

variable {α β : Type} {receiver : Bool}

theorem Agree.pure (a : α) : Agree (Pure.pure a : Eval σ α) (Pure.pure a) :=
  Rel.pure fun _ _ h => ⟨rfl, h⟩

theorem Agree.throw (e : Value) : Agree (MonadExcept.throw e : Eval σ α) (MonadExcept.throw e) :=
  Rel.throw fun _ _ h => h

theorem Agree.perform (action : Action) :
    Agree (host.perform action) (host.perform action) := by
  intro s t hst
  have hrun : ∀ machine : Machine σ, (host.perform action).runFrom machine =
      ((host.act action machine.heap).1, ⟨(host.act action machine.heap).2,
        host.slotsAfter action machine.heap machine.slots⟩) := fun _ => rfl
  rw [hrun, hrun, show s.heap = t.heap from hst]
  cases (host.act action t.heap).1 with
  | ok value => exact .ok ⟨rfl, rfl⟩
  | error e => exact .error rfl

theorem Agree.bind {m m' : Eval σ α} {f f' : α → Eval σ β} (h : Agree m m')
    (hf : ∀ a, Agree (f a) (f' a)) : Agree (m >>= f) (m' >>= f') := by
  refine Rel.bind h fun a b s t hst => ?_
  obtain ⟨rfl, hheap⟩ := hst
  exact hf a s t hheap

theorem AgreeReference.pure (r : Reference) :
    AgreeReference receiver (Pure.pure (some r) : Eval σ _) (Pure.pure (some r)) :=
  Rel.pure fun _ _ h => ⟨.refl r, h⟩

theorem Agree.bind_reference {m m' : Eval σ α} {f f' : α → Eval σ (Option Reference)}
    (h : Agree m m') (hf : ∀ a, AgreeReference receiver (f a) (f' a)) :
    AgreeReference receiver (m >>= f) (m' >>= f') := by
  refine Rel.bind h fun a b s t hst => ?_
  obtain ⟨rfl, hheap⟩ := hst
  exact hf a s t hheap

theorem AgreeReference.bind {m m' : Eval σ (Option Reference)}
    {f f' : Option Reference → Eval σ (Option Reference)} {receiver' : Bool}
    (h : AgreeReference receiver m m')
    (hf : ∀ v r r', (receiver → r = r') →
      AgreeReference receiver' (f (some (v, r))) (f' (some (v, r')))) :
    AgreeReference receiver' (m >>= f) (m' >>= f') := by
  refine Rel.bind h fun a b s t hst => ?_
  obtain ⟨⟨v, r, r', rfl, rfl, hr⟩, hheap⟩ := hst
  exact hf v r r' hr s t hheap

/-- Where only the value of a reference is used. -/
theorem AgreeReference.bind_value {m m' : Eval σ (Option Reference)} {f f' : Value → Eval σ β}
    (h : AgreeReference receiver m m') (hf : ∀ v, Agree (f v) (f' v)) :
    Agree (m >>= fun r => f (referenceValue r)) (m' >>= fun r => f' (referenceValue r)) := by
  refine Rel.bind h fun _ _ s t hst => ?_
  obtain ⟨hsame, hheap⟩ := hst
  rw [hsame.value]
  exact hf _ s t hheap

theorem Agree.applyOperator (operator : String) (left right : Value) :
    Agree (applyOperator host operator left right) (applyOperator host operator left right) := by
  rw [N8n.Polyfill.applyOperator]
  split_ifs
  · exact .pure _
  · exact .perform _

theorem AgreeReference.eval {e e' : Expr}
    (h : AgreeReference receiver (evalReference host e) (evalReference host e')) :
    Agree (eval host e) (eval host e') :=
  h.bind_value fun _ => .pure _

/-- The value of an expression, as the reference of an operator that ignores the receiver. -/
theorem Agree.reference {m m' : Eval σ Value} (h : Agree m m') :
    AgreeReference receiver (m >>= fun v => Pure.pure (noReceiver v))
      (m' >>= fun v => Pure.pure (noReceiver v)) :=
  h.bind_reference fun _ => .pure _

end Agree

/-! ## Links -/

/-- An optional link, where something was stored. -/
theorem runFrom_runLink_some (patch : Patch) (v receiver : Value) (t : Machine σ) :
    (runLink host defaultComputed k true patch (some (v, receiver))).runFrom t =
      if v.isNullish then (.ok none, (storePart k v t).2)
      else (runPatch host defaultComputed (some (v, host.globalObject)) patch).runFrom
        (storePart k v t).2 := by
  have hcancel : (storePart k v t).2.slots.read .cancel k = .boolean v.isNullish := by
    simp [storePart, Slots.write, Slots.read]
  have hvalue : (storePart k v t).2.slots.read .value k = v := by
    simp [storePart, Slots.write, Slots.read]
  simp only [runLink, if_true, storeReference, readSlot, Exec.runFrom_bind, Exec.runFrom_step,
    hcancel]
  by_cases hv : v.isNullish
  · simp only [hv, if_true, Exec.runFrom_pure]
  · rw [if_neg (by simpa using hv), if_neg hv]
    simp only [Exec.runFrom_bind, Exec.runFrom_step, hvalue]

/-- An optional link, where the chain was cut before. -/
theorem runFrom_runLink_none (patch : Patch) {t : Machine σ}
    (h : t.slots.cancel k = .boolean true) :
    (runLink host defaultComputed k true patch none).runFrom t = (.ok none, t) := by
  have hcancel : t.slots.read .cancel k = .boolean true := h
  simp only [runLink, if_true, storeReference, readSlot, Exec.runFrom_bind, Exec.runFrom_step,
    Exec.runFrom_pure, hcancel]

/-- Both go on with the same reference, or the chain is cut and its slot says so. -/
def Together (k : ℕ) (receiver : Bool) (a b : Option Reference) (s t : Machine σ) : Prop :=
  SameHeap s t ∧
    (SameReference receiver a b ∨ a = none ∧ b = none ∧ t.slots.cancel k = .boolean true)

def AgreeCut (k : ℕ) (receiver : Bool) (m m' : Eval σ (Option Reference)) : Prop :=
  Rel SameHeap SameHeap m m' (Together k receiver)

theorem AgreeReference.agreeCut {receiver : Bool} {m m' : Eval σ (Option Reference)}
    (h : AgreeReference receiver m m') : AgreeCut k receiver m m' :=
  h.mono (fun _ _ h => h) fun _ _ _ _ h => ⟨h.2, .inl h.1⟩

/-- An optional link agrees if what it does where the chain goes on agrees. -/
theorem agreeCut_optional {receiver : Bool} {m m' : Eval σ (Option Reference)}
    (h : AgreeCut k receiver m m') {link : Option Reference → Eval σ (Option Reference)}
    {patch : Patch} (hnone : link none = pure none)
    (hcut : ∀ v r, v.isNullish → link (some (v, r)) = pure none)
    (hlink : ∀ v r, ¬v.isNullish → AgreeReference true (link (some (v, r)))
      (runPatch host defaultComputed (some (v, host.globalObject)) patch)) :
    AgreeCut k true (m >>= link) (m' >>= runLink host defaultComputed k true patch) := by
  refine Rel.bind h fun a b s t hst => ?_
  obtain ⟨hheap, ⟨v, r, r', rfl, rfl, -⟩ | ⟨rfl, rfl, hcancel⟩⟩ := hst
  · rw [runFrom_runLink_some]
    by_cases hv : v.isNullish
    · rw [if_pos hv, hcut v r hv]
      exact .ok ⟨hheap, .inr ⟨rfl, rfl, by simp [storePart, Slots.write, hv]⟩⟩
    · rw [if_neg hv]
      exact (hlink v r hv).agreeCut s _ hheap
  · rw [runFrom_runLink_none patch hcancel, hnone]
    exact .ok ⟨hheap, .inr ⟨rfl, rfl, hcancel⟩⟩

/-- A link that is not optional. -/
theorem agreeCut_link {receiver : Bool} {m m' : Eval σ (Option Reference)}
    (h : AgreeCut k receiver m m') {link : Option Reference → Eval σ (Option Reference)}
    {patch : Patch} (hnone : link none = pure none)
    (hlink : ∀ v r r', (receiver → r = r') → AgreeReference true (link (some (v, r)))
      (runPatch host defaultComputed (some (v, r')) patch)) :
    AgreeCut k true (m >>= link) (m' >>= runLink host defaultComputed k false patch) := by
  have hpatch : runLink host defaultComputed k false patch =
      fun r => runPatch host defaultComputed r patch :=
    funext fun r => if_neg Bool.false_ne_true
  rw [hpatch]
  refine Rel.bind h fun a b s t hst => ?_
  obtain ⟨hheap, ⟨v, r, r', rfl, rfl, hr⟩ | ⟨rfl, rfl, hcancel⟩⟩ := hst
  · exact (hlink v r r' hr).agreeCut s t hheap
  · rw [runPatch_none, hnone]
    exact .ok ⟨hheap, .inr ⟨rfl, rfl, hcancel⟩⟩

/-- Reading a property where the chain is not cut. The receiver of the object plays no role. -/
theorem agreeReference_getMember {key key' : Eval σ Value} (hkey : Agree key key')
    {optional optional' : Bool} {v r r' : Value} (h : ¬(optional ∧ v.isNullish))
    (h' : ¬(optional' ∧ v.isNullish)) :
    AgreeReference true (getMember host key optional (some (v, r)))
      (getMember host key' optional' (some (v, r'))) := by
  rw [getMember, if_neg h, getMember, if_neg h']
  exact hkey.bind_reference fun _ => (Agree.perform _).bind_reference fun _ => .pure _

theorem agreeReference_callFunction {arguments arguments' : Eval σ (List Value)}
    (h : Agree arguments arguments') (r : Reference) :
    AgreeReference true (callFunction host arguments false (some r))
      (callFunction host arguments' false (some r)) := by
  have hcut : ¬(false = true ∧ r.1.isNullish = true) := fun h => Bool.false_ne_true h.1
  rw [callFunction, if_neg hcut, callFunction, if_neg hcut]
  exact h.bind_reference fun _ => (Agree.perform _).bind_reference fun _ => .pure _

theorem agreeCut_member {object object' property property' : Expr} {computed receiver : Bool}
    (h : AgreeCut k receiver (evalReference host object)
      (evalCut host defaultComputed k object'))
    (hkey : Agree (memberKey host computed property) (memberKey host computed property'))
    (hcomputed : defaultComputed property'.nodeType = computed) (optional : Bool) :
    AgreeCut k true (evalReference host (.member object property computed optional))
      (evalCut host defaultComputed k (.member object' property' computed optional)) := by
  have hstays : ∀ v : Value, ¬(false = true ∧ v.isNullish = true) :=
    fun _ h => Bool.false_ne_true h.1
  rw [evalReference_member, evalCut]
  cases optional with
  | false =>
    refine agreeCut_link h rfl fun v r r' _ => ?_
    rw [runPatch, hcomputed]
    exact agreeReference_getMember hkey (hstays v) (hstays v)
  | true =>
    refine agreeCut_optional h rfl (fun v r hv => if_pos ⟨rfl, hv⟩) fun v r hv => ?_
    rw [runPatch, hcomputed]
    exact agreeReference_getMember hkey (fun h => hv h.2) (hstays v)

theorem agreeCut_call {callee callee' : Expr} {arguments arguments' : List Expr}
    (h : AgreeCut k true (evalReference host callee) (evalCut host defaultComputed k callee'))
    (harguments : Agree (evalAll host arguments) (evalAll host arguments')) :
    AgreeCut k true (evalReference host (.call callee arguments false))
      (evalCut host defaultComputed k (.call callee' arguments' false)) := by
  rw [evalReference_call, evalCut]
  refine agreeCut_link h rfl fun v r r' hr => ?_
  rw [← hr rfl]
  exact agreeReference_callFunction harguments (v, r)

/-- A chain and the sequence that replaces it. -/
theorem AgreeCut.agree_value {receiver : Bool} {m m' : Eval σ (Option Reference)}
    (h : AgreeCut k receiver m m') :
    Agree (referenceValue <$> m) (referenceValue <$> m') := by
  rw [map_eq_pure_bind, map_eq_pure_bind]
  refine Rel.bind h fun a b s t hst => ?_
  obtain ⟨hheap, hsame | ⟨rfl, rfl, -⟩⟩ := hst
  · rw [hsame.value]
    exact .ok ⟨rfl, hheap⟩
  · exact .ok ⟨rfl, hheap⟩

/-! ## What the polyfill makes of a node -/

theorem nodeType_polyfill (node : Expr) (n : ℕ) :
    (polyfill defaultComputed isExpressionExtension node n).1.nodeType = polyfilledType node := by
  cases node <;> rfl

variable {node : Expr}

theorem polyfill_identifier (h : isIdentifier node) (n : ℕ) :
    polyfill defaultComputed isExpressionExtension node n = (node, n) := by
  cases node <;> first | rfl | cases h

theorem evalCut_of_not_isLink (h : isLink node = false) :
    evalCut host defaultComputed k node = evalReference host node := by
  cases node <;> first | rfl | cases h

theorem noOptionalExtension_polyfill (h : linksKept defaultComputed node) (n : ℕ) :
    noOptionalExtension isExpressionExtension
      (polyfill defaultComputed isExpressionExtension node n).1 := by
  induction node using linksKept.induct generalizing n with
  | case1 object property computed optional ih =>
    simp only [linksKept, Bool.and_eq_true] at h
    exact ih h.1 n
  | case2 callee arguments optional ih =>
    simp only [linksKept, Bool.and_eq_true, Bool.not_eq_true'] at h
    rw [polyfill, noOptionalExtension, h.2, ih h.1 n]
    rfl
  | case3 node hmember hcall =>
    cases node with
    | member object property computed optional => exact (hmember _ _ _ _ rfl).elim
    | call callee arguments optional => exact (hcall _ _ _ rfl).elim
    | _ => rfl

theorem evalReference_replaceChain (h : noOptionalExtension isExpressionExtension node) :
    evalReference host (replaceChain defaultComputed isExpressionExtension k node) = (do
      let r ← evalCut host defaultComputed k node
      pure (noReceiver (referenceValue r))) := by
  have hsequence : ∀ nodes, evalReference host (.sequence nodes) =
      eval host (.sequence nodes) >>= fun v => pure (noReceiver v) := fun nodes => by
    simp only [eval, evalReference, bind_assoc, pure_bind, referenceValue_noReceiver]
  have heval : eval host (replaceChain defaultComputed isExpressionExtension k node) = _ :=
    eval_replaceChain h
  rw [replaceChain] at heval ⊢
  rw [hsequence, heval, map_eq_pure_bind, bind_assoc]
  simp only [pure_bind]

/-- The reference of a chain expression. -/
theorem AgreeCut.chain {node' : Expr} {receiver : Bool}
    (h : AgreeCut k receiver (evalReference host node) (evalCut host defaultComputed k node'))
    (hextension : noOptionalExtension isExpressionExtension node') :
    AgreeReference false (evalReference host (.chain node)) (evalReference host
      (replaceChain defaultComputed isExpressionExtension k node')) := by
  rw [evalReference_replaceChain hextension, evalReference]
  refine Rel.bind h fun a b s t hst => ?_
  obtain ⟨hheap, ⟨v, r, r', rfl, rfl, -⟩ | ⟨rfl, rfl, -⟩⟩ := hst
  · exact .ok ⟨⟨v, r, .undefined, rfl, rfl, fun h => absurd h Bool.false_ne_true⟩, hheap⟩
  · exact .ok ⟨⟨.undefined, .undefined, .undefined, rfl, rfl, fun _ => rfl⟩, hheap⟩

/-! ## Kept expressions -/

/-- What it is that a kept expression and its polyfill agree on, outside a chain or in one. -/
def AgreesWith (host : Host σ) (defaultComputed : NodeType → Bool) (inChain : Bool)
    (node node' : Expr) : Prop :=
  if inChain then
    ∀ k, AgreeCut k (!isChain node) (evalReference host node) (evalCut host defaultComputed k node')
  else AgreeReference (!isChain node) (evalReference host node) (evalReference host node')

theorem AgreesWith.base {inChain : Bool} {node' : Expr} (h' : isLink node' = false)
    (h : AgreeReference (!isChain node) (evalReference host node) (evalReference host node')) :
    AgreesWith host defaultComputed inChain node node' := by
  cases inChain with
  | false => exact h
  | true =>
    intro k
    rw [evalCut_of_not_isLink h']
    exact h.agreeCut

theorem AgreesWith.member {inChain computed optional : Bool}
    {object object' property property' : Expr}
    (h : AgreesWith host defaultComputed inChain object object')
    (hkey : Agree (memberKey host computed property) (memberKey host computed property'))
    (hcomputed : inChain → defaultComputed property'.nodeType = computed)
    (hoptional : inChain ∨ optional = false) :
    AgreesWith host defaultComputed inChain (.member object property computed optional)
      (.member object' property' computed optional) := by
  cases inChain with
  | true => exact fun k => agreeCut_member (h k) hkey (hcomputed rfl) optional
  | false =>
    obtain rfl := hoptional.resolve_left Bool.false_ne_true
    have hstays : ∀ v : Value, ¬(false = true ∧ v.isNullish = true) :=
      fun _ h => Bool.false_ne_true h.1
    change AgreeReference true _ _
    rw [evalReference_member, evalReference_member]
    exact AgreeReference.bind h fun v r r' _ =>
      agreeReference_getMember hkey (hstays v) (hstays v)

theorem AgreesWith.call {inChain : Bool} {callee callee' : Expr} {arguments arguments' : List Expr}
    (h : AgreesWith host defaultComputed inChain callee callee') (hchain : isChain callee = false)
    (harguments : Agree (evalAll host arguments) (evalAll host arguments')) :
    AgreesWith host defaultComputed inChain (.call callee arguments false)
      (.call callee' arguments' false) := by
  cases inChain with
  | true =>
    intro k
    have hcallee := h k
    rw [hchain] at hcallee
    exact agreeCut_call hcallee harguments
  | false =>
    have hcallee : AgreeReference (!isChain callee) _ _ := h
    rw [hchain] at hcallee
    change AgreeReference true _ _
    rw [evalReference_call, evalReference_call]
    refine hcallee.bind fun v r r' hr => ?_
    rw [← hr rfl]
    exact agreeReference_callFunction harguments (v, r)

theorem AgreesWith.eval {node' : Expr} (h : AgreesWith host defaultComputed false node node') :
    Agree (eval host node) (eval host node') :=
  AgreeReference.eval h

theorem agree_memberKey {computed : Bool} {property : Expr} (n : ℕ)
    (hsource : if computed then isSource false property else isIdentifier property)
    (h : computed → AgreesWith host defaultComputed false property
      (polyfill defaultComputed isExpressionExtension property n).1) :
    Agree (memberKey host computed property) (memberKey host computed
      (polyfill defaultComputed isExpressionExtension property n).1) := by
  cases computed with
  | true => exact (h rfl).eval
  | false =>
    rw [polyfill_identifier hsource]
    cases property with
    | identifier name => exact .pure _
    | _ => cases hsource

mutual

/-- An expression that is kept agrees with its polyfill. -/
theorem agree_polyfill (inChain : Bool) (node : Expr) (n : ℕ)
    (hsource : isSource inChain node) (hkept : isKept defaultComputed inChain node) :
    AgreesWith host defaultComputed inChain node
      (polyfill defaultComputed isExpressionExtension node n).1 := by
  cases node with
  | identifier name =>
    refine .base rfl ?_
    change AgreeReference true (evalReference host _) (evalReference host (.identifier name))
    rw [evalReference]
    split_ifs
    · exact .pure _
    · exact (Agree.perform _).reference
  | literal value => exact .base rfl (.pure _)
  | member object property computed optional =>
    simp only [isSource, Bool.and_eq_true, Bool.or_eq_true, Bool.not_eq_true'] at hsource
    simp only [isKept, Bool.and_eq_true, Bool.or_eq_true, Bool.not_eq_true',
      decide_eq_true_eq] at hkept
    refine (agree_polyfill inChain object n hsource.1.2 hkept.1.1).member
      (agree_memberKey _ ?_ fun hcomputed => agree_polyfill false property _ ?_ hkept.1.2) ?_ ?_
    · simpa using hsource.2
    · simpa [hcomputed] using hsource.2
    · rintro rfl
      rw [nodeType_polyfill]
      exact hkept.2.resolve_left Bool.noConfusion
    · exact hsource.1.1
  | call callee arguments optional =>
    simp only [isSource, Bool.and_eq_true, Bool.or_eq_true, Bool.not_eq_true'] at hsource
    simp only [isKept, Bool.and_eq_true, Bool.or_eq_true, Bool.not_eq_true'] at hkept
    obtain rfl : optional = false := by
      rcases hsource.1.1 with rfl | h
      · exact hkept.2.resolve_left Bool.noConfusion
      · exact h
    exact (agree_polyfill inChain callee n hsource.1.2 hkept.1.1.1).call hkept.1.2
      (agree_polyfillAll arguments _ hsource.2 hkept.1.1.2)
  | chain expression =>
    simp only [isSource, Bool.and_eq_true] at hsource
    rw [isKept] at hkept
    have hlinks : linksKept defaultComputed expression := by
      rw [isKept_chain, Bool.and_eq_true] at hkept
      exact hkept.1
    refine .base rfl ?_
    exact AgreeCut.chain (agree_polyfill true expression n hsource.2 hkept _)
      (noOptionalExtension_polyfill hlinks n)
  | binary operator left right =>
    simp only [isSource, Bool.and_eq_true] at hsource
    simp only [isKept, Bool.and_eq_true] at hkept
    have hleft := (agree_polyfill false left n hsource.1 hkept.1).eval
    have hright := fun n => (agree_polyfill false right n hsource.2 hkept.2).eval
    refine .base rfl ?_
    rw [polyfill, evalReference_binary, evalReference_binary]
    exact hleft.bind_reference fun l => (hright _).bind_reference fun r =>
      (Agree.applyOperator _ _ _).reference
  | coalesce left right =>
    simp only [isSource, Bool.and_eq_true] at hsource
    simp only [isKept, Bool.and_eq_true] at hkept
    have hleft := (agree_polyfill false left n hsource.1 hkept.1).eval
    have hright := fun n => (agree_polyfill false right n hsource.2 hkept.2).eval
    refine .base rfl ?_
    rw [polyfill, evalReference_coalesce, evalReference_coalesce]
    refine hleft.bind_reference fun l => ?_
    split_ifs
    · exact (hright _).reference
    · exact .pure _
  | conditional test consequent alternate =>
    simp only [isSource, Bool.and_eq_true] at hsource
    simp only [isKept, Bool.and_eq_true] at hkept
    have htest := (agree_polyfill false test n hsource.1.1 hkept.1.1).eval
    have hconsequent := fun n => (agree_polyfill false consequent n hsource.1.2 hkept.1.2).eval
    have halternate := fun n => (agree_polyfill false alternate n hsource.2 hkept.2).eval
    refine .base rfl ?_
    rw [polyfill, evalReference_conditional, evalReference_conditional]
    refine htest.bind_reference fun t => Agree.reference ?_
    split_ifs
    · exact hconsequent _
    · exact halternate _
  | sequence expressions =>
    have hall := agree_polyfillAll expressions n hsource hkept
    refine .base rfl ?_
    rw [polyfill, evalReference, evalReference]
    exact hall.bind_reference fun values => .pure _
  | array elements =>
    have hall := agree_polyfillAll elements n hsource hkept
    refine .base rfl ?_
    rw [polyfill, evalReference, evalReference]
    exact hall.bind_reference fun values => (Agree.perform _).reference
  | slot kind k => cases hsource
  | assignSlot kind k right => cases hsource

theorem agree_polyfillAll (nodes : List Expr) (n : ℕ) (hsource : areSource nodes)
    (hkept : areKept defaultComputed nodes) :
    Agree (evalAll host nodes)
      (evalAll host (polyfillAll defaultComputed isExpressionExtension nodes n).1) := by
  cases nodes with
  | nil => exact .pure _
  | cons node nodes =>
    simp only [areSource, Bool.and_eq_true] at hsource
    simp only [areKept, Bool.and_eq_true] at hkept
    have hnode := (agree_polyfill false node n hsource.1 hkept.1).eval
    have hnodes := fun n => agree_polyfillAll nodes n hsource.2 hkept.2
    rw [polyfillAll, evalAll_cons, evalAll_cons]
    exact hnode.bind fun v => (hnodes _).bind fun values => .pure _

end

end N8n.Polyfill
