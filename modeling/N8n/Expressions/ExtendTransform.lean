import Mathlib.Data.Int.Notation
import Mathlib.Data.List.Basic

/-!
# Optional chaining and extended functions

`extendTransform` rewrites the syntax tree of an expression. It replaces each optional chain
by a sequence : the chain is cut at its optional points, each part but the last is stored in
a slot of the global object, and a second slot says whether the chain has been cut short.
Then it turns calls of extended functions into calls of `extend`.

The builder of member expressions is given no `computed` flag; `defaultComputed` is the one
it chooses by the type of the property.
-/

namespace N8n.Polyfill

inductive Value where
  | undefined
  | null
  | boolean (b : Bool)
  | number (n : ℤ)
  | string (s : String)
  | object (address : ℕ)
  deriving DecidableEq, Repr

/-- The properties of the global object that belong to a chain : `chainCancelToken` and
`chainValue`, followed by its number. -/
inductive SlotKind where
  | cancel | value
  deriving DecidableEq, Repr

inductive NodeType where
  | Identifier | Literal | MemberExpression | CallExpression | ChainExpression
  | BinaryExpression | LogicalExpression | ConditionalExpression | AssignmentExpression
  | SequenceExpression | ArrayExpression
  deriving DecidableEq, Repr

inductive Expr where
  | identifier (name : String)
  | literal (value : Value)
  | member (object property : Expr) (computed optional : Bool)
  | call (callee : Expr) (arguments : List Expr) (optional : Bool)
  | chain (expression : Expr)
  | binary (operator : String) (left right : Expr)
  /-- `left ?? right` -/
  | coalesce (left right : Expr)
  | conditional (test consequent alternate : Expr)
  | sequence (expressions : List Expr)
  | array (elements : List Expr)
  /-- `global.chainValue1` and the like -/
  | slot (kind : SlotKind) (chainNumber : ℕ)
  | assignSlot (kind : SlotKind) (chainNumber : ℕ) (right : Expr)

def Expr.nodeType : Expr → NodeType
  | .identifier _ => .Identifier
  | .literal _ => .Literal
  | .member .. => .MemberExpression
  | .call .. => .CallExpression
  | .chain _ => .ChainExpression
  | .binary .. => .BinaryExpression
  | .coalesce .. => .LogicalExpression
  | .conditional .. => .ConditionalExpression
  | .sequence _ => .SequenceExpression
  | .array _ => .ArrayExpression
  | .slot .. => .MemberExpression
  | .assignSlot .. => .AssignmentExpression

def undefinedIdentifier : Expr := .identifier "undefined"

/-! ## Wrappers -/

section Chain

variable (defaultComputed : NodeType → Bool) (isExpressionExtension : String → Bool)
  (chainNumber : ℕ)

def buildCancelCheckWrapper (node : Expr) : Expr :=
  .conditional (.binary "===" (.slot .cancel chainNumber) (.literal (.boolean true)))
    undefinedIdentifier node

def buildValueAssignWrapper (node : Expr) : Expr := .assignSlot .value chainNumber node

def buildOptionalWrapper (node : Expr) : Expr :=
  .binary "===" (.coalesce (buildValueAssignWrapper chainNumber node) undefinedIdentifier)
    undefinedIdentifier

def buildCancelAssignWrapper (node : Expr) : Expr := .assignSlot .cancel chainNumber node

/-! ## Cutting a chain -/

/-- A member access or a call, without what it is applied to. -/
inductive Patch where
  | member (property : Expr)
  | call (arguments : List Expr)

def Patch.apply (node : Expr) : Patch → Expr
  | .member property => .member node property (defaultComputed property.nodeType) false
  | .call arguments => .call node arguments false

/-- The patches, the first one applied to the node, each other one to what is before it. -/
def applyPatches (node : Expr) (patches : List Patch) : Expr :=
  patches.foldl (Patch.apply defaultComputed) node

/-- The top of a part, when the next part calls an extended function optionally. -/
def wrapInOptionalExtend : Expr → Expr
  | .member object (.identifier name) _ _ =>
    .call (.identifier "extendOptional") [object, .literal (.string name)] false
  | node => node

def patchTop (wrapNextTopInOptionalExtend : Bool) (node : Expr) : Expr :=
  if wrapNextTopInOptionalExtend then wrapInOptionalExtend node else node

/-- The callee is a member access with the name of an extended function. -/
def isExtensionMember : Expr → Bool
  | .member _ (.identifier name) _ _ => isExpressionExtension name
  | _ => false

/-- Walks a chain from right to left. `patches` are those of the part that is being built,
and the parts come out in the order in which they are evaluated. -/
def patchedStack : Expr → List Patch → Bool → List Expr
  | .member object property _ optional, patches, wrapNext =>
    if optional then
      patchedStack object [] false ++ [patchTop wrapNext
        (applyPatches defaultComputed (.slot .value chainNumber) (.member property :: patches))]
    else patchedStack object (.member property :: patches) wrapNext
  | .call callee arguments optional, patches, wrapNext =>
    if optional then
      patchedStack callee [] (isExtensionMember isExpressionExtension callee) ++
        [patchTop wrapNext
          (applyPatches defaultComputed (.slot .value chainNumber) (.call arguments :: patches))]
    else patchedStack callee (.call arguments :: patches) wrapNext
  | node, patches, wrapNext => [patchTop wrapNext (applyPatches defaultComputed node patches)]

/-- Wraps the part at an index of a stack of this length. -/
def wrapPart (length : ℕ) (part : Expr × ℕ) : Expr :=
  let node :=
    if part.2 ≠ length - 1 then
      buildCancelAssignWrapper chainNumber (buildOptionalWrapper chainNumber part.1)
    else part.1
  if part.2 ≠ 0 then buildCancelCheckWrapper chainNumber node else node

def replaceChain (expression : Expr) : Expr :=
  let stack := patchedStack defaultComputed isExpressionExtension chainNumber expression [] false
  .sequence (stack.zipIdx.map (wrapPart chainNumber stack.length))

end Chain

/-! ## Visiting the tree -/

section Visit

variable (defaultComputed : NodeType → Bool) (isExpressionExtension : String → Bool)

mutual

/-- Replaces the chains, those inside first. Takes the next chain number and returns the
one after those that were used. -/
def polyfill : Expr → ℕ → Expr × ℕ
  | .member object property computed optional, currentChain =>
    let object' := polyfill object currentChain
    let property' := polyfill property object'.2
    (.member object'.1 property'.1 computed optional, property'.2)
  | .call callee arguments optional, currentChain =>
    let callee' := polyfill callee currentChain
    let arguments' := polyfillAll arguments callee'.2
    (.call callee'.1 arguments'.1 optional, arguments'.2)
  | .chain expression, currentChain =>
    let expression' := polyfill expression currentChain
    (replaceChain defaultComputed isExpressionExtension expression'.2 expression'.1,
      expression'.2 + 1)
  | .binary operator left right, currentChain =>
    let left' := polyfill left currentChain
    let right' := polyfill right left'.2
    (.binary operator left'.1 right'.1, right'.2)
  | .coalesce left right, currentChain =>
    let left' := polyfill left currentChain
    let right' := polyfill right left'.2
    (.coalesce left'.1 right'.1, right'.2)
  | .conditional test consequent alternate, currentChain =>
    let test' := polyfill test currentChain
    let consequent' := polyfill consequent test'.2
    let alternate' := polyfill alternate consequent'.2
    (.conditional test'.1 consequent'.1 alternate'.1, alternate'.2)
  | .sequence expressions, currentChain =>
    let expressions' := polyfillAll expressions currentChain
    (.sequence expressions'.1, expressions'.2)
  | .array elements, currentChain =>
    let elements' := polyfillAll elements currentChain
    (.array elements'.1, elements'.2)
  | .assignSlot kind chainNumber right, currentChain =>
    let right' := polyfill right currentChain
    (.assignSlot kind chainNumber right'.1, right'.2)
  | node, currentChain => (node, currentChain)

def polyfillAll : List Expr → ℕ → List Expr × ℕ
  | [], currentChain => ([], currentChain)
  | node :: nodes, currentChain =>
    let node' := polyfill node currentChain
    let nodes' := polyfillAll nodes node'.2
    (node'.1 :: nodes'.1, nodes'.2)

end

/-- What becomes of a call, its parts visited. `none` is the error that `$if` needs at least
two parameters. -/
def extendCall (callee : Expr) (arguments : List Expr) (optional : Bool) : Option Expr :=
  match callee with
  | .member object (.identifier name) computed optional' =>
    if isExpressionExtension name then
      some (.call (.identifier "extend") [object, .literal (.string name), .array arguments] false)
    else some (.call (.member object (.identifier name) computed optional') arguments optional)
  | .identifier name =>
    if name = "$if" then
      match arguments with
      | test :: consequent :: rest =>
        some (.conditional test consequent (rest.headD (.literal (.boolean false))))
      | _ => none
    else some (.call callee arguments optional)
  | _ => some (.call callee arguments optional)

mutual

/-- Turns the calls of extended functions into calls of `extend`, those inside first. -/
def extendCalls : Expr → Option Expr
  | .member object property computed optional => do
    some (.member (← extendCalls object) (← extendCalls property) computed optional)
  | .call callee arguments optional => do
    extendCall isExpressionExtension (← extendCalls callee) (← extendCallsAll arguments) optional
  | .chain expression => do some (.chain (← extendCalls expression))
  | .binary operator left right => do
    some (.binary operator (← extendCalls left) (← extendCalls right))
  | .coalesce left right => do some (.coalesce (← extendCalls left) (← extendCalls right))
  | .conditional test consequent alternate => do
    some (.conditional (← extendCalls test) (← extendCalls consequent) (← extendCalls alternate))
  | .sequence expressions => do some (.sequence (← extendCallsAll expressions))
  | .array elements => do some (.array (← extendCallsAll elements))
  | .assignSlot kind chainNumber right => do
    some (.assignSlot kind chainNumber (← extendCalls right))
  | node => some node

def extendCallsAll : List Expr → Option (List Expr)
  | [] => some []
  | node :: nodes => do some ((← extendCalls node) :: (← extendCallsAll nodes))

end

def extendTransform (expression : Expr) : Option Expr :=
  extendCalls isExpressionExtension
    (polyfill defaultComputed isExpressionExtension expression 1).1

end Visit

/-- The flag the builder chooses. -/
def memberExpressionComputed : NodeType → Bool
  | .Literal | .MemberExpression | .BinaryExpression => true
  | _ => false

end N8n.Polyfill
