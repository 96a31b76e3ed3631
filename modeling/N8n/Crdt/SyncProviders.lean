import Mathlib.Data.Finset.Lattice.Lemmas
import Mathlib.Data.Finset.SDiff
import Mathlib.Logic.Function.Iterate
import N8n.Lib.Run

/-!
# Sync providers

A provider sends the state of its document to its peer when it starts, and the updates of the
document after that as long as its transport is connected. What the peer sends is applied to the
document.

The transports of two providers are linked : messages arrive in order, those under way are lost
with a connection, and one that arrives where nobody receives is dropped. A document is known by
what `CRDTDoc` promises. Each wait for `connect` ends at a moment when the transport is
connected.
-/

namespace N8n

/-- A document as a merge of the updates it has got. -/
structure CRDTDoc (D U X : Type) [DecidableEq X] where
  updates : D → Finset X
  /-- The updates a message is made of. -/
  contents : U → Finset X
  applyUpdate : D → U → D
  encodeState : D → U
  /-- What the handlers of the document are told about an update, if it changes something. -/
  onUpdate : D → U → Option U
  updates_applyUpdate : ∀ d u, updates (applyUpdate d u) = updates d ∪ contents u
  contents_encodeState : ∀ d, contents (encodeState d) = updates d
  onUpdate_some : ∀ d u v, onUpdate d u = some v →
    contents v ⊆ updates d ∪ contents u ∧ contents u ⊆ updates d ∪ contents v
  onUpdate_none : ∀ d u, onUpdate d u = none → contents u ⊆ updates d

/-- A document that is the set of its updates. -/
def CRDTDoc.ofFinset (X : Type) [DecidableEq X] : CRDTDoc (Finset X) (Finset X) X where
  updates := id
  contents := id
  applyUpdate d u := d ∪ u
  encodeState := id
  onUpdate d u := if u ⊆ d then none else some (u \ d)
  updates_applyUpdate _ _ := rfl
  contents_encodeState _ := rfl
  onUpdate_some d u v h := by
    split at h
    · cases h
    · cases h
      exact ⟨Finset.sdiff_subset.trans Finset.subset_union_right,
        fun x hx => by simpa using Classical.or_iff_not_imp_left.mpr fun _ => hx⟩
  onUpdate_none d u h := by
    split at h
    · assumption
    · cases h

inductive SyncSide where
  | one
  | two
  deriving DecidableEq, Repr

def SyncSide.peer : SyncSide → SyncSide
  | .one => .two
  | .two => .one

/-- A provider with its document and transport. -/
structure SyncProvider (D : Type) where
  doc : D
  syncing : Bool := false
  /-- Calls of `start` that wait for the transport. -/
  starting : ℕ := 0
  /-- The handlers at the document and at the transport, one of which `stop` can take off. -/
  docHandlers : ℕ := 0
  transportHandlers : ℕ := 0
  subscribed : Bool := false
  connected : Bool := false
  /-- The transport was told to connect, and connects again by itself. -/
  connects : Bool := false
  stateChanges : List Bool := []

structure SyncPair (D U : Type) where
  provider : SyncSide → SyncProvider D
  /-- The messages under way to a side. -/
  inbox : SyncSide → List U := fun _ => []

/-- Two providers that were not started. -/
def SyncPair.ofDocs {D U : Type} (one two : D) : SyncPair D U where
  provider
    | .one => { doc := one }
    | .two => { doc := two }

inductive SyncEvent (U : Type) where
  | start (side : SyncSide)
  /-- A call of `start` goes on after `connect`. -/
  | started (side : SyncSide)
  | stop (side : SyncSide)
  | update (side : SyncSide) (update : U)
  | connects (side : SyncSide)
  | loses (side : SyncSide)
  /-- The next message arrives. -/
  | delivers (side : SyncSide)

namespace SyncPair

variable {D U X : Type} [DecidableEq X] (docs : CRDTDoc D U X) (pair : SyncPair D U)
  (side : SyncSide)

/-! ## Transports -/

def setProvider (provider : SyncProvider D) : SyncPair D U :=
  { pair with provider := Function.update pair.provider side provider }

/-- Nothing is under way when an end is disconnected. -/
def isLinked : Bool := (pair.provider side).connected && (pair.provider side.peer).connected

def send (data : U) : SyncPair D U :=
  if (pair.provider side.peer).connected then
    { pair with inbox := Function.update pair.inbox side.peer (pair.inbox side.peer ++ [data]) }
  else pair

def setConnected (connected : Bool) : SyncPair D U :=
  pair.setProvider side { pair.provider side with connected }

def lose : SyncPair D U := { pair.setConnected side false with inbox := fun _ => [] }

/-! ## Documents -/

/-- The handler of the provider at its document. -/
def sendUpdate (update : U) : SyncPair D U :=
  if (pair.provider side).connected then pair.send side update else pair

def applyUpdate (update : U) : SyncPair D U :=
  let provider := pair.provider side
  let changed := pair.setProvider side
    { provider with doc := docs.applyUpdate provider.doc update }
  match docs.onUpdate provider.doc update with
  | none => changed
  | some observed => (fun pair => pair.sendUpdate side observed)^[provider.docHandlers] changed

/-! ## Providers -/

def start : SyncPair D U :=
  let provider := pair.provider side
  if provider.syncing then pair
  else pair.setProvider side
    { provider with starting := provider.starting + 1, connects := true }

/-- The rest of `start`, after the transport has connected. -/
def startConnected : SyncPair D U :=
  let provider := pair.provider side
  let pair := pair.setProvider side
    { provider with
      starting := provider.starting - 1
      docHandlers := provider.docHandlers + 1
      transportHandlers := provider.transportHandlers + 1
      subscribed := true }
  let pair := pair.send side (docs.encodeState provider.doc)
  pair.setProvider side
    { pair.provider side with syncing := true, stateChanges := provider.stateChanges ++ [true] }

def stop : SyncPair D U :=
  let provider := pair.provider side
  if !provider.syncing then pair
  else
    let provider := if provider.subscribed then { provider with
        docHandlers := provider.docHandlers - 1
        transportHandlers := provider.transportHandlers - 1
        subscribed := false }
      else provider
    (pair.lose side).setProvider side { provider with
      connected := false
      connects := false
      syncing := false
      stateChanges := provider.stateChanges ++ [false] }

def step : SyncEvent U → Except Unit (SyncPair D U)
  | .start side => .ok (pair.start side)
  | .started side =>
    if (pair.provider side).starting = 0 || !(pair.provider side).connected then .error ()
    else .ok (pair.startConnected docs side)
  | .stop side => .ok (pair.stop side)
  | .update side update => .ok (pair.applyUpdate docs side update)
  | .connects side =>
    if !(pair.provider side).connects then .error () else .ok (pair.setConnected side true)
  | .loses side =>
    if !(pair.provider side).connected then .error () else .ok (pair.lose side)
  | .delivers side =>
    match pair.inbox side with
    | [] => .error ()
    | data :: rest =>
      let pair := { pair with inbox := Function.update pair.inbox side rest }
      .ok ((fun pair => pair.applyUpdate docs side data)^[(pair.provider side).transportHandlers]
        pair)

/-! ## Convergence -/

def updates : Finset X := docs.updates (pair.provider side).doc

/-- The updates under way to the side. -/
def arriving (messages : List U) : Finset X := messages.foldr (fun data s => docs.contents data ∪ s) ∅

/-- Both providers are started and connected, and no message is in flight. -/
def isSettled : Bool := [SyncSide.one, .two].all fun side =>
  (pair.provider side).syncing && (pair.provider side).connected && (pair.inbox side).isEmpty

/-- When all is settled both documents contain the same updates. -/
def Converged : Prop :=
  pair.isSettled = true → pair.updates docs .one = pair.updates docs .two

/-- What the peer has sent to the side once it synchronises is there. -/
def hasAll : Bool := !(pair.provider side.peer).syncing ||
  arriving docs (pair.inbox side) ⊆ pair.updates docs side

/-- What the step drops is known to the receiver : the state of a provider that starts, an update
made without a connection, the messages under way when a connection is lost, and a message that
arrives where nobody receives. -/
def losesNone : SyncEvent U → Bool
  | .started side =>
    (pair.provider side.peer).connected || pair.updates docs side ⊆ pair.updates docs side.peer
  | .update side update =>
    !(pair.provider side).syncing || pair.isLinked side ||
      docs.contents update ⊆ pair.updates docs side ∪ pair.updates docs side.peer
  | .loses side => pair.hasAll docs side && pair.hasAll docs side.peer
  | .stop side => !(pair.provider side).syncing || pair.hasAll docs side
  | .delivers side =>
    match pair.inbox side with
    | [] => true
    | data :: rest => (pair.provider side).transportHandlers ≠ 0 ||
        !(pair.provider side.peer).syncing ||
        docs.contents data ⊆ pair.updates docs side ∪ arriving docs rest
  | _ => true

end SyncPair

end N8n
