import N8n.Expressions.ChainDeparture
import N8n.Expressions.ExtensionFree

/-!
# The meaning of a chain and of its polyfill

Two expressions have the same meaning (`SameMeaning`) when on every host and every heap they
give the same value or exception and leave the same heap, whatever earlier evaluations left in
the slots. A host sees every call with its receiver, so the receivers and the order of what
happens are the same too.

The polyfill keeps the meaning of a chain that is kept, or that is always cut
(`polyfill_sameMeaning_iff`). It loses the receiver of an optional call and the brackets of a
property that is an identifier (`polyfill_not_sameMeaning`).
-/

open Lib

namespace N8n.Polyfill

def SameMeaning (node node' : Expr) : Prop :=
  ∀ (σ : Type) (host : Host σ) (heap : σ) (slots slots' : Slots),
    ((eval host node).runFrom ⟨heap, slots⟩).1 = ((eval host node').runFrom ⟨heap, slots'⟩).1 ∧
      ((eval host node).runFrom ⟨heap, slots⟩).2.heap =
        ((eval host node').runFrom ⟨heap, slots'⟩).2.heap

variable {defaultComputed : NodeType → Bool} {isExpressionExtension : String → Bool}

theorem sameMeaning_of_agree {node node' : Expr}
    (h : ∀ (σ : Type) (host : Host σ), Agree (eval host node) (eval host node')) :
    SameMeaning node node' := by
  intro σ host heap slots slots'
  have hboth := h σ host ⟨heap, slots⟩ ⟨heap, slots'⟩ rfl
  generalize (eval host node).runFrom ⟨heap, slots⟩ = x at hboth ⊢
  generalize (eval host node').runFrom ⟨heap, slots'⟩ = y at hboth ⊢
  cases hboth with
  | ok hq =>
    obtain ⟨rfl, hheap⟩ := hq
    exact ⟨rfl, hheap⟩
  | error he => exact ⟨rfl, he⟩

/-- A chain that is always cut, or that the polyfill keeps. -/
def meaningKept (defaultComputed : NodeType → Bool) (node : Expr) : Bool :=
  startsCut node || (linksKept defaultComputed node && partsKept defaultComputed node)

theorem eval_chain {σ : Type} (host : Host σ) (node : Expr) :
    eval host (.chain node) = referenceValue <$> evalReference host node := by
  rw [eval, evalReference, bind_assoc, map_eq_pure_bind]
  refine congrArg _ (funext fun r => ?_)
  cases r <;> rfl

theorem eval_polyfill_chain (defaultComputed : NodeType → Bool) {σ : Type} (host : Host σ)
    {node : Expr}
    (h : everyNode (hasNoExtensionName isExpressionExtension) node) (n : ℕ) :
    ∃ k, eval host (polyfill defaultComputed isExpressionExtension (.chain node) n).1 =
      referenceValue <$> evalCut host defaultComputed k
        (polyfill defaultComputed isExpressionExtension node n).1 :=
  ⟨_, eval_replaceChain (noOptionalExtension_of_everyNode h n)⟩

theorem sameMeaning_of_meaningKept {node : Expr} (hsource : isSource true node)
    (hextension : everyNode (hasNoExtensionName isExpressionExtension) node)
    (h : meaningKept defaultComputed node) (n : ℕ) :
    SameMeaning (.chain node)
      (polyfill defaultComputed isExpressionExtension (.chain node) n).1 := by
  refine sameMeaning_of_agree fun σ host => ?_
  obtain ⟨k, hpolyfill⟩ := eval_polyfill_chain defaultComputed host hextension n
  rw [eval_chain, hpolyfill]
  simp only [meaningKept, Bool.or_eq_true] at h
  rcases h with hcut | hkept
  · exact (agreeCut_startsCut hcut n).agree_value
  · rw [← isKept_chain] at hkept
    exact (agree_polyfill true node n hsource hkept k).agree_value

theorem meaningKept_of_sameMeaning {node : Expr} (hchain : isIdentifierChain node)
    (hsource : isSource true node)
    (hextension : everyNode (hasNoExtensionName isExpressionExtension) node)
    (hparts : partsKept defaultComputed node) (n : ℕ)
    (h : SameMeaning (.chain node)
      (polyfill defaultComputed isExpressionExtension (.chain node) n).1) :
    meaningKept defaultComputed node := by
  by_contra hkept
  rw [meaningKept, hparts, Bool.and_true, Bool.or_eq_true, not_or, Bool.not_eq_true,
    Bool.not_eq_true] at hkept
  obtain ⟨script, a, hrun⟩ := follows_evalReference true node hsource
  obtain ⟨k, hpolyfill⟩ := eval_polyfill_chain defaultComputed scriptHost hextension n
  have hsame := (h _ scriptHost (script ++ []) {} {}).1
  obtain ⟨e, t, hdeparts⟩ := departs_polyfill (.inr hchain) hsource hparts hkept.2 hkept.1 n
    ⟨script ++ [], {}⟩ ⟨script ++ [], {}⟩ rfl a _ (hrun [] {})
  rw [eval_chain, hpolyfill, map_eq_pure_bind, map_eq_pure_bind, Exec.runFrom_bind,
    Exec.runFrom_bind, hrun, hdeparts] at hsame
  cases hsame

/-- The sequence that replaces a chain is left by the rest of the transform, and has the meaning
of a chain that is kept. Where what is inside the arguments and the properties is kept, it has
the meaning of no other chain. -/
theorem polyfill_sameMeaning_iff {node : Expr} (hchain : isIdentifierChain node)
    (hsource : isSource true node)
    (hextension : everyNode (hasNoExtensionName isExpressionExtension) node) (n : ℕ) :
    (everyNode isNoIfCall node →
        extendCalls isExpressionExtension
          (polyfill defaultComputed isExpressionExtension (.chain node) n).1 =
            some (polyfill defaultComputed isExpressionExtension (.chain node) n).1) ∧
      (meaningKept defaultComputed node → SameMeaning (.chain node)
        (polyfill defaultComputed isExpressionExtension (.chain node) n).1) ∧
      (partsKept defaultComputed node → SameMeaning (.chain node)
        (polyfill defaultComputed isExpressionExtension (.chain node) n).1 →
          meaningKept defaultComputed node) :=
  ⟨fun hif => extendCalls_polyfill (show everyNode _ (.chain node) from hextension) hif n,
    fun hkept => sameMeaning_of_meaningKept hsource hextension hkept n,
    fun hparts hsame => meaningKept_of_sameMeaning hchain hsource hextension hparts n hsame⟩

/-- `a.b?.c[0](x)` -/
def keptExample : Expr :=
  .call (.member (.member (.member (.identifier "a") (.identifier "b") false false)
    (.identifier "c") false true) (.literal (.number 0)) true false) [.identifier "x"] false

theorem polyfill_sameMeaning_keptExample :
    SameMeaning (.chain keptExample)
      (polyfill memberExpressionComputed (· = "isEmpty") (.chain keptExample) 1).1 :=
  (polyfill_sameMeaning_iff (by decide) (by decide) (by decide) 1).2.1 (by decide)

/-- `a.b?.(x)` -/
def optionalCallExample : Expr :=
  .call (.member (.identifier "a") (.identifier "b") false false) [.identifier "x"] true

/-- `a?.[k]` -/
def bracketsExample : Expr := .member (.identifier "a") (.identifier "k") true true

/-- Records the receiver of a call, and the key of a property. -/
def recordingHost : Host Value where
  act action heap :=
    match action with
    | .get _ key => (.ok (.object 2), key)
    | .call _ receiver _ => (.ok (.object 3), receiver)
    | _ => (.ok (.object 1), heap)
  slotsAfter _ _ slots := slots
  globalObject := .object 0

/-- The receiver of the optional call is lost, and so are the brackets of an identifier. -/
theorem polyfill_not_sameMeaning :
    (isIdentifierChain optionalCallExample ∧ isSource true optionalCallExample ∧
        everyNode (hasNoExtensionName (· = "isEmpty")) optionalCallExample ∧
        ¬SameMeaning (.chain optionalCallExample)
          (polyfill memberExpressionComputed (· = "isEmpty") (.chain optionalCallExample) 1).1) ∧
      isIdentifierChain bracketsExample ∧ isSource true bracketsExample ∧
        everyNode (hasNoExtensionName (· = "isEmpty")) bracketsExample ∧
        ¬SameMeaning (.chain bracketsExample)
          (polyfill memberExpressionComputed (· = "isEmpty") (.chain bracketsExample) 1).1 := by
  refine ⟨⟨by decide, by decide, by decide, fun h => ?_⟩, by decide, by decide, by decide,
    fun h => ?_⟩
  · have hreceiver : Value.object 1 = .object 0 := (h _ recordingHost .undefined {} {}).2
    exact absurd hreceiver (by decide)
  · have hkey : Value.object 1 = .string "k" := (h _ recordingHost .undefined {} {}).2
    exact absurd hkey (by decide)

end N8n.Polyfill
