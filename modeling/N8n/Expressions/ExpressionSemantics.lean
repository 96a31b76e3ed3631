import N8n.Expressions.ExtendTransform
import N8n.Lib.Relational

/-!
# What an expression evaluates to

An evaluator for the expressions `extendTransform` reads and writes. What a program does
beyond the evaluation order is up to a `Host` : resolving a name, reading a property, calling
a function, and every other operator is an action on a heap, which may raise an exception.
Code that an action runs may evaluate expressions of its own, so an action may leave anything
in the slots of the chains; it does not read them.

Each expression gives a value and the receiver it has when it is called; a chain that is cut
short at an optional point gives neither.
-/

open Lib

namespace N8n.Polyfill

def Value.isNullish : Value → Bool
  | .undefined | .null => true
  | _ => false

def Value.truthy : Value → Bool
  | .undefined | .null => false
  | .boolean b => b
  | .number n => n ≠ 0
  | .string s => s ≠ ""
  | .object _ => true

/-- What the evaluation asks of the host. -/
inductive Action where
  | lookup (name : String)
  | get (object key : Value)
  | call (callee receiver : Value) (arguments : List Value)
  | operator (operator : String) (left right : Value)
  | array (elements : List Value)
  deriving DecidableEq, Repr

structure Slots where
  cancel : ℕ → Value := fun _ => .undefined
  value : ℕ → Value := fun _ => .undefined

def Slots.read (slots : Slots) : SlotKind → ℕ → Value
  | .cancel => slots.cancel
  | .value => slots.value

def Slots.write (slots : Slots) (kind : SlotKind) (k : ℕ) (v : Value) : Slots :=
  match kind with
  | .cancel => { slots with cancel := Function.update slots.cancel k v }
  | .value => { slots with value := Function.update slots.value k v }

structure Machine (σ : Type) where
  heap : σ
  slots : Slots

structure Host (σ : Type) where
  act : Action → σ → Except Value Value × σ
  slotsAfter : Action → σ → Slots → Slots
  /-- What `global` stands for. -/
  globalObject : Value

abbrev Eval (σ : Type) := Exec Value (Machine σ)

/-- A value and its receiver. -/
abbrev Reference := Value × Value

variable {σ : Type} (host : Host σ)

def Host.perform (action : Action) : Eval σ Value := ExceptT.mk fun machine =>
  let result := host.act action machine.heap
  (result.1, ⟨result.2, host.slotsAfter action machine.heap machine.slots⟩)

def readSlot (kind : SlotKind) (k : ℕ) : Eval σ Value :=
  Exec.step fun machine => (machine.slots.read kind k, machine)

def writeSlot (kind : SlotKind) (k : ℕ) (v : Value) : Eval σ Value :=
  Exec.step fun machine => (v, { machine with slots := machine.slots.write kind k v })

/-- The value of an expression that may have been cut short. -/
def referenceValue (r : Option Reference) : Value := (r.map Prod.fst).getD .undefined

/-- A value that has no receiver. -/
def noReceiver (v : Value) : Option Reference := some (v, .undefined)

/-- Reading a property of a value, unless an optional point cuts the chain. -/
def getMember (key : Eval σ Value) (optional : Bool) (r : Option Reference) :
    Eval σ (Option Reference) :=
  match r with
  | none => pure none
  | some (object, _) =>
    if optional ∧ object.isNullish then pure none
    else do
      let property ← key
      let value ← host.perform (.get object property)
      pure (some (value, object))

def callFunction (arguments : Eval σ (List Value)) (optional : Bool) (r : Option Reference) :
    Eval σ (Option Reference) :=
  match r with
  | none => pure none
  | some (callee, receiver) =>
    if optional ∧ callee.isNullish then pure none
    else do
      let values ← arguments
      let value ← host.perform (.call callee receiver values)
      pure (noReceiver value)

def applyOperator (operator : String) (left right : Value) : Eval σ Value :=
  if operator = "===" then pure (.boolean (left = right))
  else host.perform (.operator operator left right)

/-- A property that is no identifier needs brackets. -/
def staticKey : Expr → Option Value
  | .identifier name => some (.string name)
  | _ => none

def syntaxError : Value := .string "SyntaxError"

mutual

def evalReference : Expr → Eval σ (Option Reference)
  | .identifier name =>
    if name = "undefined" then pure (noReceiver .undefined)
    else do pure (noReceiver (← host.perform (.lookup name)))
  | .literal value => pure (noReceiver value)
  | .member object property computed optional => do
    let r ← evalReference object
    let key := if computed then do pure (referenceValue (← evalReference property))
      else
        match staticKey property with
        | some key => pure key
        | none => throw syntaxError
    getMember host key optional r
  | .call callee arguments optional => do
    let r ← evalReference callee
    callFunction host (evalAll arguments) optional r
  | .chain expression => do
    let r ← evalReference expression
    pure (some (r.getD (.undefined, .undefined)))
  | .binary operator left right => do
    let l ← evalReference left
    let r ← evalReference right
    pure (noReceiver (← applyOperator host operator (referenceValue l) (referenceValue r)))
  | .coalesce left right => do
    let l ← evalReference left
    if (referenceValue l).isNullish then do
      pure (noReceiver (referenceValue (← evalReference right)))
    else pure (noReceiver (referenceValue l))
  | .conditional test consequent alternate => do
    let t ← evalReference test
    if (referenceValue t).truthy then do
      pure (noReceiver (referenceValue (← evalReference consequent)))
    else do pure (noReceiver (referenceValue (← evalReference alternate)))
  | .sequence expressions => do
    let values ← evalAll expressions
    pure (noReceiver (values.getLast?.getD .undefined))
  | .array elements => do
    let values ← evalAll elements
    pure (noReceiver (← host.perform (.array values)))
  | .slot kind k => do pure (some (← readSlot kind k, host.globalObject))
  | .assignSlot kind k right => do
    let r ← evalReference right
    pure (noReceiver (← writeSlot kind k (referenceValue r)))

def evalAll : List Expr → Eval σ (List Value)
  | [] => pure []
  | expression :: expressions => do
    let r ← evalReference expression
    let values ← evalAll expressions
    pure (referenceValue r :: values)

end

attribute [grind =] evalReference evalAll

/-- The value of an expression. -/
def eval (expression : Expr) : Eval σ Value := do
  pure (referenceValue (← evalReference host expression))

end N8n.Polyfill
