import N8n.Lib.Json

/-!
# Augmented objects

`augmentObject` and `augmentArray` give a proxy of a value that is read and written like a
copy of it. The proxy of an object keeps the properties that were written or read as objects
in `newData` and those that were deleted in `deletedProperties`; the proxy of an array copies
its items when it is first written, or when it first gives out an object. What is read as an
object is wrapped in a proxy of its own.

The heap holds the objects of JSON values, addressed by the number of the value and the path
in it. Own properties are modelled; what arrays inherit is the same for a proxy and a copy.
-/

open Lib

namespace N8n.AugmentObject

/-! ## Objects -/

inductive Primitive where
  | undefined
  | null
  | boolean (b : Bool)
  | number (x : ℚ)
  | string (s : String)
  deriving DecidableEq

/-- An object of a JSON value : the number of the value and the keys that lead to it. -/
structure Address where
  json : ℕ
  path : List String
  deriving DecidableEq

def Address.child (a : Address) (key : String) : Address := { a with path := a.path ++ [key] }

inductive Value where
  | primitive (p : Primitive)
  | object (address : Address)
  | proxy (index : ℕ)
  deriving DecidableEq

abbrev Value.undefined : Value := .primitive .undefined

/-- An object or an array; `length` is that of an array. -/
structure Plain where
  isArray : Bool
  properties : String → Option Value
  length : ℕ

namespace Plain

/-- An own property. -/
def getOwn (o : Plain) (key : String) : Option Value :=
  if o.isArray ∧ key = "length" then some (.primitive (.number o.length)) else o.properties key

def get (o : Plain) (key : String) : Value := (o.getOwn key).getD .undefined

def has (o : Plain) (key : String) : Bool := (o.getOwn key).isSome

def put (o : Plain) (key : String) (value : Option Value) : Plain :=
  { o with properties := Function.update o.properties key value }

/-- `false` when the property cannot be deleted. -/
def deleteProperty (o : Plain) (key : String) : Bool × Plain :=
  if o.isArray ∧ key = "length" then (false, o) else (true, o.put key none)

/-- The key is not that of an item from the length on. -/
def isBelow (length : ℕ) (key : String) : Bool := (arrayIndex? key).all (· < length)

def setLength (o : Plain) (length : ℕ) : Plain :=
  { o with
    length := length
    properties := fun key => if isBelow length key then o.properties key else none }

/-- The length of an array with an item at this key. -/
def lengthWith (length : ℕ) (key : String) : ℕ :=
  match arrayIndex? key with
  | some i => max length (i + 1)
  | none => length

/-- The length a value stands for. `toLength` converts a primitive value. -/
def lengthOf (toLength : Primitive → Option ℕ) : Value → Option ℕ
  | .primitive p => toLength p
  | _ => none

/-- `none` is the RangeError for an invalid length. -/
def set (toLength : Primitive → Option ℕ) (o : Plain) (key : String) (value : Value) :
    Option Plain :=
  if o.isArray then
    if key = "length" then (lengthOf toLength value).map o.setLength
    else some { o.put key (some value) with length := lengthWith o.length key }
  else some (o.put key (some value))

end Plain

/-! ## JSON values in the heap -/

def primitive? : Json → Option Primitive
  | .null => some .null
  | .bool b => some (.boolean b)
  | .number x => some (.number x)
  | .string s => some (.string s)
  | _ => none

def jsonLength : Json → ℕ
  | .array length _ => length
  | _ => 0

/-- The value stored for a part of a JSON value. -/
def valueAt (a : Address) (j : Json) : Value :=
  match primitive? j with
  | some p => .primitive p
  | none => .object a

def plainOf (a : Address) (j : Json) : Plain where
  isArray := j.isArray
  properties key := (j.get? key).map (valueAt (a.child key))
  length := jsonLength j

/-- What a path leads to. -/
def walk : Json → List String → Option Json
  | j, [] => some j
  | j, key :: path => (j.get? key).bind (walk · path)

abbrev Heap := Address → Plain

/-- Puts the objects of a JSON value in the heap. -/
def Heap.create (heap : Heap) (n : ℕ) (j : Json) : Heap := fun a =>
  if a.json = n then plainOf a ((walk j a.path).getD .null) else heap a

/-! ## Proxies -/

/-- A proxy, with the object it was made of. -/
inductive Proxy where
  | array (data : Address) (newData : Option Plain)
  | object (data : Address) (newData : String → Option Value) (deletedProperties : String → Bool)

def Proxy.data : Proxy → Address
  | .array data _ => data
  | .object data _ _ => data

structure State where
  heap : Heap
  proxies : List Proxy
  /-- How many JSON values were made. -/
  jsons : ℕ

def State.setProxy (s : State) (p : ℕ) (proxy : Proxy) : State :=
  { s with proxies := s.proxies.set p proxy }

def augmentArray (data : Address) : Proxy := .array data none

def augmentObject (data : Address) : Proxy := .object data (fun _ => none) fun _ => false

/-- Wraps an object in a new proxy; a proxy stays as it is. -/
def augment (value : Value) (s : State) : Value × State :=
  match value with
  | .object a =>
    (.proxy s.proxies.length, { s with
      proxies := s.proxies ++ [if (s.heap a).isArray then augmentArray a else augmentObject a] })
  | value => (value, s)

/-- The items of an array, copied when it is first written. -/
def getData (heap : Heap) (data : Address) (newData : Option Plain) : Plain :=
  newData.getD (heap data)

/-! ## The handlers -/

section Handlers

variable (toLength : Primitive → Option ℕ) (p : ℕ) (key : String) (s : State)

def get : Value × State :=
  match s.proxies[p]? with
  | some (.array data newData) =>
    let value := (getData s.heap data newData).get key
    let (newValue, s') := augment value s
    if newValue ≠ value then
      (newValue, s'.setProxy p
        (.array data (some ((getData s.heap data newData).put key (some newValue)))))
    else (value, s)
  | some (.object data newData deletedProperties) =>
    if deletedProperties key then (.undefined, s)
    else
      match newData key with
      | some value => (value, s)
      | none =>
        let value := (s.heap data).get key
        let (newValue, s') := augment value s
        if newValue ≠ value then
          (newValue, s'.setProxy p
            (.object data (Function.update newData key (some newValue)) deletedProperties))
        else (value, s)
  | none => (.undefined, s)

/-- The result says whether the key may be deleted. -/
def deleteProperty : Bool × State :=
  match s.proxies[p]? with
  | some (.array data newData) =>
    let (deleted, o) := (getData s.heap data newData).deleteProperty key
    (deleted, s.setProxy p (.array data (some o)))
  | some (.object data newData deletedProperties) =>
    (true, s.setProxy p (.object data (Function.update newData key none)
      (if (s.heap data).has key then Function.update deletedProperties key true
        else deletedProperties)))
  | none => (true, s)

/-- The result is `false` for a RangeError. -/
def set (newValue : Value) : Bool × State :=
  match s.proxies[p]? with
  | some (.array data newData) =>
    let o := getData s.heap data newData
    let (value, s') := augment newValue s
    match o.set toLength key value with
    | some o' => (true, s'.setProxy p (.array data (some o')))
    | none => (false, s'.setProxy p (.array data (some o)))
  | some (.object data newData deletedProperties) =>
    if newValue = .undefined then
      (true, s.setProxy p (.object data (Function.update newData key none)
        (if (s.heap data).has key then Function.update deletedProperties key true
          else deletedProperties)))
    else
      (true, s.setProxy p (.object data (Function.update newData key (some newValue))
        (Function.update deletedProperties key false)))
  | none => (true, s)

def has : Bool :=
  match s.proxies[p]? with
  | some (.array data newData) => (getData s.heap data newData).has key
  | some (.object data newData deletedProperties) =>
    if deletedProperties key then false
    else (newData key).isSome || (s.heap data).has key
  | none => false

/-- Whether `getOwnPropertyDescriptor` gives a descriptor. Where an array was copied, it gives
the default one for any key. -/
def hasOwnProperty : Bool :=
  match s.proxies[p]? with
  | some (.array data none) => (s.heap data).has key
  | some (.array _ (some _)) => true
  | some (.object data newData deletedProperties) =>
    if deletedProperties key then false
    else (newData key).isSome || (s.heap data).has key
  | none => false

/-- Whether the key is one of the own keys. -/
def ownKeys : Bool :=
  match s.proxies[p]? with
  | some (.array data newData) => (getData s.heap data newData).has key
  | some (.object data newData deletedProperties) =>
    ((s.heap data).has key || (newData key).isSome) && !deletedProperties key
  | none => false

end Handlers

/-! ## A deep copy -/

structure Copy where
  heap : Heap
  jsons : ℕ

namespace Copy

variable (toLength : Primitive → Option ℕ) (a : Address) (key : String) (c : Copy)

def setPlain (o : Plain) : Copy := { c with heap := Function.update c.heap a o }

def deleteProperty : Bool × Copy :=
  let (deleted, o) := (c.heap a).deleteProperty key
  (deleted, c.setPlain a o)

/-- Setting a property of an object to `undefined` counts as deleting it. -/
def set (value : Value) : Bool × Copy :=
  if (c.heap a).isArray = false ∧ value = .undefined then c.deleteProperty a key
  else
    match (c.heap a).set toLength key value with
    | some o => (true, c.setPlain a o)
    | none => (false, c)

end Copy

/-! ## Sequences of operations -/

/-- What is written : a primitive value, an object that an earlier operation gave, or a new
JSON value. -/
inductive Operand where
  | primitive (p : Primitive)
  | handle (i : ℕ)
  | json (j : Json)

inductive Action where
  | get (key : String)
  | set (key : String) (operand : Operand)
  | deleteProperty (key : String)
  | has (key : String)
  | hasOwnProperty (key : String)
  | ownKeys

/-- An operation on one of the objects that were given so far. -/
structure Operation where
  handle : ℕ
  action : Action

/-- What an operation shows. An object is shown by its handle, the same one for the same
object; own keys are shown as a set. -/
inductive Observation where
  | primitive (p : Primitive)
  | object (handle : ℕ)
  | boolean (b : Bool)
  | keys (ks : String → Bool)

/-- What a program can do with the objects it has. -/
structure Interface (S : Type) where
  create : Json → S → Value × S
  get : Value → String → S → Value × S
  set : Value → String → Value → S → Bool × S
  deleteProperty : Value → String → S → Bool × S
  has : Value → String → S → Bool
  hasOwnProperty : Value → String → S → Bool
  ownKeys : Value → S → String → Bool

structure World (S : Type) where
  state : S
  /-- The objects that were given so far. -/
  handles : List Value

section Run

variable {S : Type} (I : Interface S)

/-- Shows a value. -/
def observe (value : Value) (handles : List Value) : Observation × List Value :=
  match value with
  | .primitive p => (.primitive p, handles)
  | value =>
    if value ∈ handles then (.object (handles.idxOf value), handles)
    else (.object handles.length, handles ++ [value])

def evalOperand (w : World S) : Operand → Value × S
  | .primitive p => (.primitive p, w.state)
  | .handle i => ((w.handles[i]?).getD .undefined, w.state)
  | .json j =>
    match primitive? j with
    | some p => (.primitive p, w.state)
    | none => I.create j w.state

/-- One operation on an object. -/
def perform (target : Value) (w : World S) : Action → Observation × World S
  | .get key =>
    let (value, state) := I.get target key w.state
    let (observation, handles) := observe value w.handles
    (observation, ⟨state, handles⟩)
  | .set key operand =>
    let (value, state) := evalOperand I w operand
    let (done, state') := I.set target key value state
    (.boolean done, ⟨state', w.handles⟩)
  | .deleteProperty key =>
    let (deleted, state) := I.deleteProperty target key w.state
    (.boolean deleted, ⟨state, w.handles⟩)
  | .has key => (.boolean (I.has target key w.state), w)
  | .hasOwnProperty key => (.boolean (I.hasOwnProperty target key w.state), w)
  | .ownKeys => (.keys (I.ownKeys target w.state), w)

def step (w : World S) (operation : Operation) : Observation × World S :=
  match w.handles[operation.handle]? with
  | some target => perform I target w operation.action
  | none => (.primitive .undefined, w)

def run (w : World S) : List Operation → List Observation × World S
  | [] => ([], w)
  | operation :: operations =>
    let (observation, w') := step I w operation
    let (observations, w'') := run w' operations
    (observation :: observations, w'')

end Run

section Interfaces

variable (toLength : Primitive → Option ℕ)

/-- Operations are performed on proxies. -/
def augmented : Interface State where
  create j s := (.object ⟨s.jsons, []⟩,
    { s with heap := s.heap.create s.jsons j, jsons := s.jsons + 1 })
  get target key s := match target with
    | .proxy p => get p key s
    | _ => (.undefined, s)
  set target key value s := match target with
    | .proxy p => set toLength p key s value
    | _ => (true, s)
  deleteProperty target key s := match target with
    | .proxy p => deleteProperty p key s
    | _ => (true, s)
  has target key s := match target with
    | .proxy p => has p key s
    | _ => false
  hasOwnProperty target key s := match target with
    | .proxy p => hasOwnProperty p key s
    | _ => false
  ownKeys target s key := match target with
    | .proxy p => ownKeys p key s
    | _ => false

def copied : Interface Copy where
  create j c := (.object ⟨c.jsons, []⟩,
    { c with heap := c.heap.create c.jsons j, jsons := c.jsons + 1 })
  get target key c := match target with
    | .object a => ((c.heap a).get key, c)
    | _ => (.undefined, c)
  set target key value c := match target with
    | .object a => c.set toLength a key value
    | _ => (true, c)
  deleteProperty target key c := match target with
    | .object a => c.deleteProperty a key
    | _ => (true, c)
  has target key c := match target with
    | .object a => (c.heap a).has key
    | _ => false
  hasOwnProperty target key c := match target with
    | .object a => (c.heap a).has key
    | _ => false
  ownKeys target c key := match target with
    | .object a => (c.heap a).has key
    | _ => false

end Interfaces

/-- A JSON value and the proxy of it. -/
def augmentedWorld (j : Json) : World State :=
  let s : State := ⟨Heap.create (fun _ => plainOf ⟨0, []⟩ .null) 0 j, [], 1⟩
  let (root, s') := augment (.object ⟨0, []⟩) s
  ⟨s', [root]⟩

/-- A deep copy of a JSON value. -/
def copiedWorld (j : Json) : World Copy :=
  ⟨⟨Heap.create (fun _ => plainOf ⟨0, []⟩ .null) 0 j, 1⟩, [.object ⟨0, []⟩]⟩

end N8n.AugmentObject
