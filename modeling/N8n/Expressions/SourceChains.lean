import N8n.Expressions.ExtendTransform

/-!
# The expressions of a user

What a parsed expression is (`isSource`) : a link is optional only within a chain, a property
without brackets is an identifier, and the slots of the chains do not occur in it. A chain is
built from an identifier (`isIdentifierChain`) by at least one link.

The polyfill keeps a chain (`linksKept`, `partsKept`) when none of its calls is optional, when
the builder computes exactly the properties that the chain computes, and when it keeps what
is inside the arguments and the properties. A parenthesized chain that is called loses its
receiver.
-/

namespace N8n.Polyfill

/-- A member access or a call. -/
def isLink : Expr → Bool
  | .member .. | .call .. => true
  | _ => false

def isIdentifier : Expr → Bool
  | .identifier _ => true
  | _ => false

def isChain : Expr → Bool
  | .chain _ => true
  | _ => false

mutual

/-- An expression as it is parsed, or what is inside a chain expression. -/
def isSource (inChain : Bool) : Expr → Bool
  | .identifier _ | .literal _ => true
  | .member object property computed optional =>
    (inChain || !optional) && isSource inChain object &&
      (if computed then isSource false property else isIdentifier property)
  | .call callee arguments optional =>
    (inChain || !optional) && isSource inChain callee && areSource arguments
  | .chain expression => isLink expression && isSource true expression
  | .binary _ left right | .coalesce left right => isSource false left && isSource false right
  | .conditional test consequent alternate =>
    isSource false test && isSource false consequent && isSource false alternate
  | .sequence expressions | .array expressions => areSource expressions
  | .slot .. | .assignSlot .. => false

def areSource : List Expr → Bool
  | [] => true
  | node :: nodes => isSource false node && areSource nodes

end

/-- Links on an identifier. -/
def isIdentifierChain : Expr → Bool
  | .member object _ _ _ => isIdentifier object || isIdentifierChain object
  | .call callee _ _ => isIdentifier callee || isIdentifierChain callee
  | _ => false

/-! ## Extensions -/

def identifierName : Expr → Option String
  | .identifier name => some name
  | _ => none

mutual

/-- A property of every node. -/
def everyNode (p : Expr → Bool) : Expr → Bool
  | .member object property computed optional =>
    p (.member object property computed optional) && everyNode p object && everyNode p property
  | .call callee arguments optional =>
    p (.call callee arguments optional) && everyNode p callee && everyNodes p arguments
  | .chain expression => p (.chain expression) && everyNode p expression
  | .binary operator left right =>
    p (.binary operator left right) && everyNode p left && everyNode p right
  | .coalesce left right => p (.coalesce left right) && everyNode p left && everyNode p right
  | .conditional test consequent alternate =>
    p (.conditional test consequent alternate) && everyNode p test && everyNode p consequent &&
      everyNode p alternate
  | .sequence expressions => p (.sequence expressions) && everyNodes p expressions
  | .array elements => p (.array elements) && everyNodes p elements
  | .assignSlot kind k right => p (.assignSlot kind k right) && everyNode p right
  | .identifier name => p (.identifier name)
  | .literal value => p (.literal value)
  | .slot kind k => p (.slot kind k)

def everyNodes (p : Expr → Bool) : List Expr → Bool
  | [] => true
  | node :: nodes => everyNode p node && everyNodes p nodes

end

/-- The property does not have the name of an extended function. -/
def hasNoExtensionName (isExpressionExtension : String → Bool) : Expr → Bool
  | .member _ property _ _ => !(identifierName property).any isExpressionExtension
  | _ => true

/-- The call is not one of `$if`. -/
def isNoIfCall : Expr → Bool
  | .call callee _ _ => identifierName callee ≠ some "$if"
  | _ => true

/-! ## What the polyfill keeps -/

section Kept

variable (defaultComputed : NodeType → Bool)

/-- The type of what the polyfill makes of an expression. -/
def polyfilledType : Expr → NodeType
  | .chain _ => .SequenceExpression
  | node => node.nodeType

mutual

def isKept (inChain : Bool) : Expr → Bool
  | .member object property computed _ =>
    isKept inChain object && isKept false property &&
      (!inChain || defaultComputed (polyfilledType property) = computed)
  | .call callee arguments optional =>
    isKept inChain callee && areKept arguments && !isChain callee && (!inChain || !optional)
  | .chain expression => isKept true expression
  | .binary _ left right | .coalesce left right => isKept false left && isKept false right
  | .conditional test consequent alternate =>
    isKept false test && isKept false consequent && isKept false alternate
  | .sequence expressions | .array expressions => areKept expressions
  | .assignSlot _ _ right => isKept false right
  | .identifier _ | .literal _ | .slot .. => true

def areKept : List Expr → Bool
  | [] => true
  | node :: nodes => isKept false node && areKept nodes

end

/-- No call of the chain is optional, and the builder computes the properties it computes. -/
def linksKept : Expr → Bool
  | .member object property computed _ =>
    linksKept object && defaultComputed (polyfilledType property) = computed
  | .call callee _ optional => linksKept callee && !optional
  | _ => true

/-- What is inside the arguments and the properties of a chain is kept. -/
def partsKept : Expr → Bool
  | .member object property _ _ => partsKept object && isKept defaultComputed false property
  | .call callee arguments _ =>
    partsKept callee && areKept defaultComputed arguments && !isChain callee
  | node => isKept defaultComputed false node

theorem isKept_chain (node : Expr) :
    isKept defaultComputed true node =
      (linksKept defaultComputed node && partsKept defaultComputed node) := by
  induction node using linksKept.induct with
  | case1 object property computed optional ih =>
    rw [isKept, ih, linksKept, partsKept, Bool.not_true, Bool.false_or]
    ac_rfl
  | case2 callee arguments optional ih =>
    rw [isKept, ih, linksKept, partsKept, Bool.not_true, Bool.false_or]
    ac_rfl
  | case3 node hmember hcall =>
    cases node with
    | member object property computed optional => exact (hmember _ _ _ _ rfl).elim
    | call callee arguments optional => exact (hcall _ _ _ rfl).elim
    | _ => simp [isKept, linksKept, partsKept]

end Kept

end N8n.Polyfill
