import N8n.Expressions.ChainAgreement

/-!
# What the polyfill does not keep

On a host that follows a script (`scriptHost`), an expression runs to its end on the script of
its own actions (`follows_evalReference`). A chain with a link that is not kept departs there
from what replaces it (`departs_polyfill`) : up to the link both act alike, and at the link
the second one does not do what the script says. The exception is a chain that is always cut,
before anything happens (`startsCut`).
-/

open Lib

namespace N8n.Polyfill

variable {σ : Type} {host : Host σ} {defaultComputed : NodeType → Bool}
  {isExpressionExtension : String → Bool} {k : ℕ}

/-! ## Chains that are always cut -/

def isUndefined : Expr → Bool
  | .identifier name => name = "undefined"
  | _ => false

/-- The chain is cut at its first link, which is optional. -/
def startsCut : Expr → Bool
  | .member object _ _ optional => startsCut object || (optional && isUndefined object)
  | .call callee _ optional => startsCut callee || (optional && isUndefined callee)
  | _ => false

/-- The chain was cut, and nothing happened. -/
def Cut (k : ℕ) (a b : Option Reference) (s t : Machine σ) : Prop :=
  SameHeap s t ∧ a = none ∧ b = none ∧ t.slots.cancel k = .boolean true

variable {a : Option Reference}

theorem Cut.together {receiver : Bool} {b : Option Reference} {s t : Machine σ}
    (h : Cut k a b s t) : Together k receiver a b s t :=
  ⟨h.1, .inr h.2⟩

variable {optional : Bool} {node : Expr}

/-- A link that is reached after the cut, or that cuts. -/
theorem rel_cutLink {node' : Expr}
    (link : Bool → Option Reference → Eval σ (Option Reference)) {patch : Patch}
    (hnone : link optional none = pure none)
    (hcut : link true (noReceiver .undefined) = pure none)
    (h : Rel SameHeap SameHeap (evalReference host node) (evalCut host defaultComputed k node')
      (Cut k) ∨ optional = true ∧ isUndefined node ∧ node' = node) :
    Rel SameHeap SameHeap (evalReference host node >>= link optional)
      (evalCut host defaultComputed k node' >>=
        runLink host defaultComputed k optional patch) (Cut k) := by
  rcases h with h | ⟨rfl, hundefined, rfl⟩
  · refine Rel.bind h fun a b s t hst => ?_
    obtain ⟨hheap, rfl, rfl, hcancel⟩ := hst
    rw [hnone]
    cases optional with
    | false =>
      rw [runLink, if_neg Bool.false_ne_true, runPatch_none]
      exact .ok ⟨hheap, rfl, rfl, hcancel⟩
    | true =>
      rw [runFrom_runLink_none patch hcancel]
      exact .ok ⟨hheap, rfl, rfl, hcancel⟩
  · obtain ⟨name, rfl, rfl⟩ : ∃ name, node' = .identifier name ∧ name = "undefined" := by
      cases node' <;> first | exact ⟨_, rfl, by simpa [isUndefined] using hundefined⟩ |
        cases hundefined
    intro s t hst
    rw [evalCut_of_not_isLink rfl, evalReference, if_pos rfl, pure_bind, pure_bind, hcut,
      noReceiver, runFrom_runLink_some, if_pos (show Value.undefined.isNullish from rfl)]
    exact .ok ⟨hst, rfl, rfl, by simp [storePart, Slots.write, Value.isNullish]⟩

theorem rel_startsCut (h : startsCut node) (n : ℕ) :
    Rel SameHeap SameHeap (evalReference host node) (evalCut host defaultComputed k
      (polyfill defaultComputed isExpressionExtension node n).1) (Cut k) := by
  have hundefined : ∀ node n, isUndefined node →
      (polyfill defaultComputed isExpressionExtension node n).1 = node := fun node n h => by
    cases node <;> first | rfl | cases h
  induction node using startsCut.induct generalizing n with
  | case1 object property computed optional ih =>
    simp only [startsCut, Bool.or_eq_true, Bool.and_eq_true] at h
    rw [evalReference_member, polyfill, evalCut]
    refine rel_cutLink (getMember host (memberKey host computed property)) rfl rfl ?_
    exact h.imp (fun h => ih h n) fun h => ⟨h.1, h.2, hundefined object n h.2⟩
  | case2 callee arguments optional ih =>
    simp only [startsCut, Bool.or_eq_true, Bool.and_eq_true] at h
    rw [evalReference_call, polyfill, evalCut]
    refine rel_cutLink (callFunction host (evalAll host arguments)) rfl rfl ?_
    exact h.imp (fun h => ih h n) fun h => ⟨h.1, h.2, hundefined callee n h.2⟩
  | case3 node hmember hcall =>
    rw [startsCut] at h
    · cases h
    · exact hmember
    · exact hcall

/-- A chain that is always cut agrees with what replaces it. -/
theorem agreeCut_startsCut (h : startsCut node) (n : ℕ) :
    AgreeCut k true (evalReference host node) (evalCut host defaultComputed k
      (polyfill defaultComputed isExpressionExtension node n).1) :=
  (rel_startsCut h n).mono (fun _ _ h => h) fun _ _ _ _ h => h.together

/-! ## The script -/

/-- Expects the actions of a script, and gives a number for each. -/
def scriptHost : Host (List Action) where
  act action script :=
    match script with
    | expected :: script =>
      (if action = expected then .ok (.number 1) else .error (.string "unexpected"), script)
    | [] => (.error (.string "unexpected"), [])
  slotsAfter _ _ slots := slots
  globalObject := .object 0

/-- The computation runs to its end on a script of its own. -/
def Follows {α : Type} (m : Eval (List Action) α) : Prop :=
  ∃ script a, ∀ rest slots, m.runFrom ⟨script ++ rest, slots⟩ = (.ok a, ⟨rest, slots⟩)

theorem Follows.pure {α : Type} (a : α) : Follows (Pure.pure a) :=
  ⟨[], a, fun _ _ => rfl⟩

theorem Follows.perform (action : Action) : Follows (scriptHost.perform action) := by
  refine ⟨[action], .number 1, fun rest slots => ?_⟩
  change (((if action = action then Except.ok (Value.number 1) else Except.error _) :
    Except Value Value), (⟨rest, slots⟩ : Machine (List Action))) = _
  rw [if_pos rfl]

theorem Follows.bind {α β : Type} {m : Eval (List Action) α} {f : α → Eval (List Action) β}
    (h : Follows m) (hf : ∀ a, Follows (f a)) : Follows (m >>= f) := by
  obtain ⟨script, a, hm⟩ := h
  obtain ⟨script', b, hrun⟩ := hf a
  refine ⟨script ++ script', b, fun rest slots => ?_⟩
  rw [Exec.runFrom_bind, List.append_assoc, hm]
  exact hrun rest slots

theorem follows_getMember {key : Eval (List Action) Value} (h : Follows key) (optional : Bool)
    (r : Option Reference) : Follows (getMember scriptHost key optional r) := by
  cases r with
  | none => exact .pure _
  | some r =>
    rw [getMember]
    split_ifs
    · exact .pure _
    · exact h.bind fun _ => (Follows.perform _).bind fun _ => .pure _

theorem follows_callFunction {arguments : Eval (List Action) (List Value)} (h : Follows arguments)
    (optional : Bool) (r : Option Reference) :
    Follows (callFunction scriptHost arguments optional r) := by
  cases r with
  | none => exact .pure _
  | some r =>
    rw [callFunction]
    split_ifs
    · exact .pure _
    · exact h.bind fun _ => (Follows.perform _).bind fun _ => .pure _

theorem follows_applyOperator (operator : String) (left right : Value) :
    Follows (applyOperator scriptHost operator left right) := by
  rw [applyOperator]
  split_ifs
  · exact .pure _
  · exact .perform _

mutual

theorem follows_evalReference (inChain : Bool) (node : Expr) (h : isSource inChain node) :
    Follows (evalReference scriptHost node) := by
  cases node with
  | identifier name =>
    rw [evalReference]
    split_ifs
    · exact .pure _
    · exact (Follows.perform _).bind fun _ => .pure _
  | literal value => exact .pure _
  | member object property computed optional =>
    simp only [isSource, Bool.and_eq_true] at h
    rw [evalReference_member]
    refine (follows_evalReference inChain object h.1.2).bind fun r => follows_getMember ?_ _ r
    cases computed with
    | true => exact (follows_evalReference false property h.2).bind fun _ => .pure _
    | false =>
      cases property with
      | identifier name => exact .pure _
      | _ => cases h.2
  | call callee arguments optional =>
    simp only [isSource, Bool.and_eq_true] at h
    rw [evalReference_call]
    exact (follows_evalReference inChain callee h.1.2).bind fun r =>
      follows_callFunction (follows_evalAll arguments h.2) _ r
  | chain expression =>
    simp only [isSource, Bool.and_eq_true] at h
    exact (follows_evalReference true expression h.2).bind fun _ => .pure _
  | binary operator left right =>
    simp only [isSource, Bool.and_eq_true] at h
    exact (follows_evalReference false left h.1).bind fun _ =>
      (follows_evalReference false right h.2).bind fun _ =>
        (follows_applyOperator _ _ _).bind fun _ => .pure _
  | coalesce left right =>
    simp only [isSource, Bool.and_eq_true] at h
    rw [evalReference]
    refine (follows_evalReference false left h.1).bind fun _ => ?_
    split_ifs
    · exact (follows_evalReference false right h.2).bind fun _ => .pure _
    · exact .pure _
  | conditional test consequent alternate =>
    simp only [isSource, Bool.and_eq_true] at h
    rw [evalReference]
    refine (follows_evalReference false test h.1.1).bind fun _ => ?_
    split_ifs
    · exact (follows_evalReference false consequent h.1.2).bind fun _ => .pure _
    · exact (follows_evalReference false alternate h.2).bind fun _ => .pure _
  | sequence expressions => exact (follows_evalAll expressions h).bind fun _ => .pure _
  | array elements =>
    exact (follows_evalAll elements h).bind fun _ => (Follows.perform _).bind fun _ => .pure _
  | slot kind k => cases h
  | assignSlot kind k right => cases h

theorem follows_evalAll (nodes : List Expr) (h : areSource nodes) :
    Follows (evalAll scriptHost nodes) := by
  cases nodes with
  | nil => exact .pure _
  | cons node nodes =>
    simp only [areSource, Bool.and_eq_true] at h
    exact (follows_evalReference false node h.1).bind fun _ =>
      (follows_evalAll nodes h.2).bind fun _ => .pure _

end

/-! ## Departures -/

/-- Where the first computation returns, the second one raises an exception. -/
def Departs {α β : Type} (m : Eval σ α) (m' : Eval σ β) : Prop :=
  ∀ s t, SameHeap s t → ∀ a s', m.runFrom s = (.ok a, s') → ∃ e t', m'.runFrom t = (.error e, t')

/-- A computation that returns returned after its first step. -/
theorem runFrom_bind_ok {α β : Type} {m : Eval σ α} {f : α → Eval σ β} {s s' : Machine σ} {b : β}
    (h : (m >>= f).runFrom s = (.ok b, s')) :
    ∃ a s₁, m.runFrom s = (.ok a, s₁) ∧ (f a).runFrom s₁ = (.ok b, s') := by
  rw [Exec.runFrom_bind] at h
  rcases hm : m.runFrom s with ⟨_ | a, s₁⟩
  · rw [hm] at h
    cases h
  · rw [hm] at h
    exact ⟨a, s₁, rfl, h⟩

theorem Departs.bind {α α' β β' : Type} {m : Eval σ α} {m' : Eval σ β} (h : Departs m m')
    (f : α → Eval σ α') (f' : β → Eval σ β') : Departs (m >>= f) (m' >>= f') := by
  intro s t hst a s' hrun
  obtain ⟨a₁, s₁, hm, -⟩ := runFrom_bind_ok hrun
  obtain ⟨e, t', hm'⟩ := h s t hst a₁ s₁ hm
  exact ⟨e, t', by rw [Exec.runFrom_bind, hm']⟩

theorem Agree.bind_departs {α β β' : Type} {m m' : Eval σ α} (h : Agree m m')
    {f : α → Eval σ β} {f' : α → Eval σ β'} (hf : ∀ a, Departs (f a) (f' a)) :
    Departs (m >>= f) (m' >>= f') := by
  intro s t hst b s' hrun
  obtain ⟨a, s₁, hm, hfa⟩ := runFrom_bind_ok hrun
  have hboth := h s t hst
  rw [hm] at hboth
  rw [Exec.runFrom_bind]
  generalize m'.runFrom t = y at hboth
  cases hboth with
  | ok hq =>
    obtain ⟨rfl, hheap⟩ := hq
    exact hf a _ _ hheap _ _ hfa

/-- Two different actions : the script expects at most one of them. -/
theorem departs_perform {α β : Type} {action action' : Action} (h : action ≠ action')
    (f : Value → Eval (List Action) α) (f' : Value → Eval (List Action) β) :
    Departs (scriptHost.perform action >>= f) (scriptHost.perform action' >>= f') := by
  intro s t hst b s' hrun
  obtain ⟨v, s₁, hperform, -⟩ := runFrom_bind_ok hrun
  have hact : ∀ (action : Action) (machine : Machine (List Action)),
      (scriptHost.perform action).runFrom machine = ((scriptHost.act action machine.heap).1,
        ⟨(scriptHost.act action machine.heap).2, machine.slots⟩) := fun _ _ => rfl
  have hok : (scriptHost.act action s.heap).1 = .ok v := by
    rw [hact] at hperform
    exact congrArg Prod.fst hperform
  obtain ⟨script, hscript⟩ : ∃ script, s.heap = action :: script := by
    rcases hheap : s.heap with _ | ⟨expected, script⟩
    · rw [hheap] at hok
      cases hok
    · rw [hheap] at hok
      by_cases hexpected : action = expected
      · exact ⟨script, by rw [hexpected]⟩
      · simp [scriptHost, hexpected] at hok
  have hmismatch : (scriptHost.act action' t.heap).1 = .error (.string "unexpected") := by
    rw [← show s.heap = t.heap from hst, hscript]
    exact if_neg (Ne.symm h)
  refine ⟨.string "unexpected", ⟨(scriptHost.act action' t.heap).2, t.slots⟩, ?_⟩
  rw [Exec.runFrom_bind, hact, hmismatch]

theorem eval_identifier (name : String) :
    eval host (.identifier name) =
      if name = "undefined" then pure .undefined else host.perform (.lookup name) := by
  rw [eval, evalReference]
  split_ifs
  · rfl
  · simp only [bind_assoc, pure_bind, referenceValue_noReceiver, bind_pure]

/-- An identifier in brackets, and without. -/
theorem departs_key {α : Type} (v : Value) (name : String) (f : Value → Eval (List Action) α) :
    Departs (eval scriptHost (.identifier name) >>= fun p => scriptHost.perform (.get v p) >>= f)
        (scriptHost.perform (.get v (.string name)) >>= f) ∧
      Departs (scriptHost.perform (.get v (.string name)) >>= f)
        (eval scriptHost (.identifier name) >>= fun p => scriptHost.perform (.get v p) >>= f) := by
  rw [eval_identifier]
  by_cases hname : name = "undefined"
  · have hne : Action.get v .undefined ≠ .get v (.string name) := by simp
    rw [if_pos hname, pure_bind]
    exact ⟨departs_perform hne _ _, departs_perform hne.symm _ _⟩
  · have hne : Action.lookup name ≠ .get v (.string name) := Action.noConfusion
    rw [if_neg hname]
    exact ⟨departs_perform hne _ _, departs_perform hne.symm _ _⟩

/-- The builder does not compute a property as the chain does. -/
theorem departs_getMember {computed computed' : Bool} {property property' : Expr}
    {v r r' : Value} (hcut : ¬(optional ∧ v.isNullish)) (hcomputed : computed' ≠ computed)
    (hproperty : property' = property ∨
      isIdentifier property = false ∧ isIdentifier property' = false)
    (hsource : computed = false → isIdentifier property) :
    Departs (getMember scriptHost (memberKey scriptHost computed property) optional (some (v, r)))
      (getMember scriptHost (memberKey scriptHost computed' property') false (some (v, r'))) := by
  have hstays : ¬(false = true ∧ v.isNullish = true) := fun h => Bool.false_ne_true h.1
  have hother : ∀ name : String, memberKey scriptHost false (.identifier name) =
      pure (.string name) := fun _ => rfl
  rw [getMember, if_neg hcut, getMember, if_neg hstays]
  cases computed with
  | false =>
    obtain rfl : computed' = true := by simpa using hcomputed
    obtain rfl : property' = property := hproperty.resolve_right fun h => by
      rw [hsource rfl] at h
      exact Bool.noConfusion h.1
    obtain ⟨name, rfl⟩ : ∃ name, property' = .identifier name := by
      cases property' <;> first | exact ⟨_, rfl⟩ | cases hsource rfl
    rw [hother, pure_bind]
    exact (departs_key v name _).2
  | true =>
    obtain rfl : computed' = false := by simpa using hcomputed
    by_cases hidentifier : isIdentifier property'
    · obtain rfl : property' = property := hproperty.resolve_right fun h => by
        rw [hidentifier] at h
        exact Bool.noConfusion h.2
      obtain ⟨name, rfl⟩ : ∃ name, property' = .identifier name := by
        cases property' <;> first | exact ⟨_, rfl⟩ | cases hidentifier
      rw [hother, pure_bind]
      exact (departs_key v name _).1
    · have hthrow : memberKey scriptHost false property' = throw syntaxError := by
        cases property' <;> first | rfl | exact (hidentifier rfl).elim
      intro s t _ _ _ _
      rw [hthrow]
      exact ⟨syntaxError, t, rfl⟩

/-- An optional call is not made on the receiver of the chain. -/
theorem departs_callFunction {arguments arguments' : List Expr} {v r r' : Value}
    (harguments : Agree (evalAll scriptHost arguments) (evalAll scriptHost arguments'))
    (hv : ¬v.isNullish) (hr : r ≠ r') :
    Departs (callFunction scriptHost (evalAll scriptHost arguments) true (some (v, r)))
      (callFunction scriptHost (evalAll scriptHost arguments') false (some (v, r'))) := by
  have hstays : ¬(false = true ∧ v.isNullish = true) := fun h => Bool.false_ne_true h.1
  rw [callFunction, if_neg fun h => hv h.2, callFunction, if_neg hstays]
  refine harguments.bind_departs fun values => departs_perform (fun h => hr ?_) _ _
  injection h

/-! ## A link that is not kept -/

/-- A reference the script gives : its value is a number, and the global object is not its
receiver. -/
def FromScript (node : Expr) (a : Option Reference) : Prop :=
  ∃ v r, a = some (v, r) ∧ (v.isNullish → isUndefined node) ∧
    (v = .number 1 ∨ v = .undefined) ∧ r ≠ .object 0

theorem runFrom_perform_ok {action : Action} {s s' : Machine (List Action)} {v : Value}
    (h : (scriptHost.perform action).runFrom s = (.ok v, s')) : v = .number 1 := by
  have hok : (scriptHost.act action s.heap).1 = .ok v := congrArg Prod.fst h
  rcases hheap : s.heap with _ | ⟨expected, script⟩
  · rw [hheap] at hok
    cases hok
  · rw [hheap] at hok
    by_cases hexpected : action = expected
    · have hone : Except.ok (Value.number 1) = Except.ok v := (if_pos hexpected).symm.trans hok
      exact (Except.ok.inj hone).symm
    · simp [scriptHost, hexpected] at hok

theorem fromScript_identifier {name : String} {s s' : Machine (List Action)}
    (h : (evalReference scriptHost (.identifier name)).runFrom s = (.ok a, s')) :
    FromScript (.identifier name) a := by
  rw [evalReference] at h
  by_cases hname : name = "undefined"
  · rw [if_pos hname] at h
    obtain rfl : noReceiver .undefined = a := Except.ok.inj (congrArg Prod.fst h)
    exact ⟨.undefined, .undefined, rfl, fun _ => by simp [isUndefined, hname], .inr rfl,
      Value.noConfusion⟩
  · rw [if_neg hname] at h
    obtain ⟨v, s₁, hperform, hrest⟩ := runFrom_bind_ok h
    obtain rfl := runFrom_perform_ok hperform
    obtain rfl : noReceiver (.number 1) = a := Except.ok.inj (congrArg Prod.fst hrest)
    exact ⟨.number 1, .undefined, rfl, fun h => absurd h Bool.false_ne_true, .inl rfl,
      Value.noConfusion⟩

theorem fromScript_getMember {key : Eval (List Action) Value} {v r : Value}
    (hv : v = .number 1 ∨ v = .undefined) (hcut : ¬(optional ∧ v.isNullish))
    {s s' : Machine (List Action)} (node : Expr)
    (h : (getMember scriptHost key optional (some (v, r))).runFrom s = (.ok a, s')) :
    FromScript node a := by
  rw [getMember, if_neg hcut] at h
  obtain ⟨p, s₁, -, hget⟩ := runFrom_bind_ok h
  obtain ⟨w, s₂, hperform, hrest⟩ := runFrom_bind_ok hget
  obtain rfl := runFrom_perform_ok hperform
  obtain rfl : some (Value.number 1, v) = a := Except.ok.inj (congrArg Prod.fst hrest)
  refine ⟨.number 1, v, rfl, fun h => absurd h Bool.false_ne_true, .inl rfl, ?_⟩
  rcases hv with rfl | rfl <;> exact Value.noConfusion

theorem fromScript_callFunction {arguments : Eval (List Action) (List Value)} {v r : Value}
    (hcut : ¬(optional ∧ v.isNullish)) {s s' : Machine (List Action)} (node : Expr)
    (h : (callFunction scriptHost arguments optional (some (v, r))).runFrom s = (.ok a, s')) :
    FromScript node a := by
  rw [callFunction, if_neg hcut] at h
  obtain ⟨values, s₁, -, hcall⟩ := runFrom_bind_ok h
  obtain ⟨w, s₂, hperform, hrest⟩ := runFrom_bind_ok hcall
  obtain rfl := runFrom_perform_ok hperform
  obtain rfl : noReceiver (Value.number 1) = a := Except.ok.inj (congrArg Prod.fst hrest)
  exact ⟨.number 1, .undefined, rfl, fun h => absurd h Bool.false_ne_true, .inl rfl,
    Value.noConfusion⟩

/-- A chain that does not start cut is not cut by the script. -/
theorem fromScript_of_not_startsCut (hbase : isIdentifier node ∨ isIdentifierChain node)
    (h : startsCut node = false) {s s' : Machine (List Action)}
    (hrun : (evalReference scriptHost node).runFrom s = (.ok a, s')) : FromScript node a := by
  induction node using startsCut.induct generalizing s s' a with
  | case1 object property computed optional ih =>
    simp only [startsCut, Bool.or_eq_false_iff] at h
    have hobject : isIdentifier object ∨ isIdentifierChain object := by
      simpa [isIdentifier, isIdentifierChain] using hbase
    rw [evalReference_member] at hrun
    obtain ⟨b, s₁, hleft, hget⟩ := runFrom_bind_ok hrun
    obtain ⟨v, r, rfl, hnullish, hv, -⟩ := ih hobject h.1 hleft
    refine fromScript_getMember hv (fun hcut => ?_) _ hget
    simp [hcut.1, hnullish hcut.2] at h
  | case2 callee arguments optional ih =>
    simp only [startsCut, Bool.or_eq_false_iff] at h
    have hcallee : isIdentifier callee ∨ isIdentifierChain callee := by
      simpa [isIdentifier, isIdentifierChain] using hbase
    rw [evalReference_call] at hrun
    obtain ⟨b, s₁, hleft, hcall⟩ := runFrom_bind_ok hrun
    obtain ⟨v, r, rfl, hnullish, hv, -⟩ := ih hcallee h.1 hleft
    refine fromScript_callFunction (fun hcut => ?_) _ hcall
    simp [hcut.1, hnullish hcut.2] at h
  | case3 node hmember hcall =>
    cases node with
    | identifier name => exact fromScript_identifier hrun
    | member object property computed optional => exact (hmember _ _ _ _ rfl).elim
    | call callee arguments optional => exact (hcall _ _ _ rfl).elim
    | _ => simp [isIdentifier, isIdentifierChain] at hbase

/-- The first link that is not kept, what is before it being kept. -/
theorem departs_link {node' : Expr} {patch : Patch}
    {link : Option Reference → Eval (List Action) (Option Reference)} {receiver : Bool}
    (h : AgreeCut k receiver (evalReference scriptHost node)
      (evalCut scriptHost defaultComputed k node'))
    (hbase : isIdentifier node ∨ isIdentifierChain node) (hcut : startsCut node = false)
    (hfirst : optional → isUndefined node = false)
    (hlink : ∀ v r r', ¬(optional ∧ v.isNullish) → r ≠ .object 0 →
      (optional → r' = .object 0) →
      Departs (link (some (v, r))) (runPatch scriptHost defaultComputed (some (v, r')) patch)) :
    Departs (evalReference scriptHost node >>= link)
      (evalCut scriptHost defaultComputed k node' >>=
        runLink scriptHost defaultComputed k optional patch) := by
  intro s t hst b s' hrun
  obtain ⟨a, s₁, hnode, hrest⟩ := runFrom_bind_ok hrun
  obtain ⟨v, r, rfl, hnullish, -, hr⟩ := fromScript_of_not_startsCut hbase hcut hnode
  have hstays : ¬(optional ∧ v.isNullish) := fun hv => by
    rw [hnullish hv.2] at hfirst
    exact Bool.noConfusion (hfirst hv.1)
  have hboth := h s t hst
  rw [hnode] at hboth
  rw [Exec.runFrom_bind]
  generalize (evalCut scriptHost defaultComputed k node').runFrom t = y at hboth
  cases hboth with
  | ok htogether =>
    obtain ⟨hheap, ⟨w, r₁, r₂, hleft, rfl, -⟩ | ⟨hnone, -, -⟩⟩ := htogether
    · obtain ⟨rfl, rfl⟩ : v = w ∧ r = r₁ := by simpa using hleft
      cases optional with
      | false =>
        have hpatch : runLink scriptHost defaultComputed k false patch (some (v, r₂)) =
            runPatch scriptHost defaultComputed (some (v, r₂)) patch := if_neg Bool.false_ne_true
        simp only [hpatch]
        exact hlink v r r₂ hstays hr (fun h => absurd h Bool.false_ne_true) _ _ hheap _ _ hrest
      | true =>
        simp only [runFrom_runLink_some, if_neg fun hv => hstays ⟨rfl, hv⟩]
        exact hlink v r (.object 0) hstays hr (fun _ => rfl) _ _ hheap _ _ hrest
    · cases hnone

/-- A chain with a link that is not kept departs from what replaces it. -/
theorem departs_polyfill (hbase : isIdentifier node ∨ isIdentifierChain node)
    (hsource : isSource true node) (hparts : partsKept defaultComputed node)
    (hlinks : linksKept defaultComputed node = false) (hcut : startsCut node = false) (n : ℕ) :
    Departs (evalReference scriptHost node) (evalCut scriptHost defaultComputed k
      (polyfill defaultComputed isExpressionExtension node n).1) := by
  have hkept : ∀ node n, isSource true node → linksKept defaultComputed node →
      partsKept defaultComputed node → AgreeCut k (!isChain node) (evalReference scriptHost node)
        (evalCut scriptHost defaultComputed k
          (polyfill defaultComputed isExpressionExtension node n).1) :=
    fun node n hsource hlinks hparts =>
      agree_polyfill true node n hsource (by rw [isKept_chain, hlinks, hparts]; rfl) k
  induction node using linksKept.induct generalizing n with
  | case1 object property computed optional ih =>
    have hobject : isIdentifier object ∨ isIdentifierChain object := by
      simpa [isIdentifier, isIdentifierChain] using hbase
    simp only [isSource, Bool.true_or, Bool.true_and, Bool.and_eq_true] at hsource
    simp only [partsKept, Bool.and_eq_true] at hparts
    simp only [startsCut, Bool.or_eq_false_iff, Bool.and_eq_false_iff] at hcut
    rw [evalReference_member, polyfill, evalCut]
    by_cases hbefore : linksKept defaultComputed object
    · refine departs_link (hkept object n hsource.1 hbefore hparts.1) hobject hcut.1 ?_ ?_
      · rintro rfl
        exact hcut.2.resolve_left Bool.noConfusion
      · intro v r r' hstays hr hr'
        rw [runPatch]
        refine departs_getMember hstays ?_ ?_ ?_
        · rw [nodeType_polyfill]
          simpa [linksKept, hbefore] using hlinks
        · cases property <;> first | exact .inl rfl | exact .inr ⟨rfl, rfl⟩
        · rintro rfl
          exact hsource.2
    · exact (ih hobject hsource.1 hparts.1 (by simpa using hbefore) hcut.1 n).bind _ _
  | case2 callee arguments optional ih =>
    have hcallee : isIdentifier callee ∨ isIdentifierChain callee := by
      simpa [isIdentifier, isIdentifierChain] using hbase
    simp only [isSource, Bool.true_or, Bool.true_and, Bool.and_eq_true] at hsource
    simp only [partsKept, Bool.and_eq_true] at hparts
    simp only [startsCut, Bool.or_eq_false_iff, Bool.and_eq_false_iff] at hcut
    rw [evalReference_call, polyfill, evalCut]
    by_cases hbefore : linksKept defaultComputed callee
    · obtain rfl : optional = true := by simpa [linksKept, hbefore] using hlinks
      refine departs_link (hkept callee n hsource.1 hbefore hparts.1.1) hcallee hcut.1 ?_ ?_
      · exact fun _ => hcut.2.resolve_left Bool.noConfusion
      · intro v r r' hstays hr hr'
        obtain rfl := hr' rfl
        exact departs_callFunction (agree_polyfillAll arguments _ hsource.2 hparts.1.2)
          (fun hv => hstays ⟨rfl, hv⟩) hr
    · exact (ih hcallee hsource.1 hparts.1.1 (by simpa using hbefore) hcut.1 n).bind _ _
  | case3 node hmember hcall =>
    rw [linksKept] at hlinks
    · cases hlinks
    · exact hmember
    · exact hcall

end N8n.Polyfill
