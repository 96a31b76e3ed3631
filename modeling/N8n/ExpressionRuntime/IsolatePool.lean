import Mathlib.Data.List.Basic

/-!
# The pools of isolates

An isolate pool keeps bridges that were created in advance. `acquire` hands one out and has it
replaced, `release` disposes of it. The idle scaling pool has one isolate pool at a time, its
inner pool : it drops it after a time without calls, and makes a new one when a bridge is asked
for.

Bridges are created asynchronously, by the initialization of an isolate pool and by its
replenishments, and the pool may be disposed of meanwhile. Both take bridges from `createBridge`,
whose calls are numbered as they come; a bridge has the number of its call. The bridges of an
initialization reach the pool together, when the last of its calls has settled.

Isolate pools are numbered as well, and each is initialized as soon as it is made. The disposal
of a bridge does not fail.
-/

namespace N8n

/-! ## Isolate pools -/

inductive CreationPhase where
  | pending
  /-- The bridge exists, and its pool waits for others. -/
  | ready
  | created
  | failed
  deriving DecidableEq, Repr

/-- A call of `createBridge` for a pool, by its initialization or by the attempt given of a
replenishment. -/
structure Creation where
  pool : ℕ
  attempt : Option ℕ
  phase : CreationPhase := .pending
  deriving DecidableEq, Repr

inductive PoolDisposal where
  | notCalled
  /-- It waits for the replenishments in flight when it was called. -/
  | awaits (replenishPromises : List ℕ)
  /-- The bridges are being disposed of. -/
  | disposes
  | resolved
  deriving DecidableEq, Repr

structure IsolatePool where
  bridges : List ℕ := []
  warming : ℕ := 0
  replenishPromises : List ℕ := []
  initializing : Bool := true
  disposal : PoolDisposal := .notCalled
  deriving DecidableEq, Repr

def IsolatePool.disposed (pool : IsolatePool) : Bool := pool.disposal ≠ .notCalled

def IsolatePool.awaitsReplenishments (pool : IsolatePool) : Bool :=
  match pool.disposal with
  | .awaits _ => true
  | _ => false

/-! ## The idle scaling pool -/

inductive ScaleUpPhase where
  | initializes
  /-- The new pool is not needed or has no bridge, and is being disposed of. -/
  | disposes
  | ended
  deriving DecidableEq, Repr

structure ScaleUp where
  pool : ℕ
  phase : ScaleUpPhase := .initializes
  deriving DecidableEq, Repr

inductive DisposeProgress where
  | notCalled
  | drainsPendingTransitions
  | disposes (pool : ℕ)
  | resolved
  deriving DecidableEq, Repr

/-- `timers` are those that start a replenishment again, each with its pool and attempt, and
`releases` the pools of the calls of `release` whose bridge is being disposed of. A bridge is
`held` from its `acquire` to its `release`. -/
structure IdleScalingPool where
  innerPool : Option ℕ := none
  pendingScaleUp : Option ScaleUp := none
  pendingScaleDown : Option ℕ := none
  idleTimer : Bool := false
  disposePromise : DisposeProgress := .notCalled
  pools : List IsolatePool := []
  creations : List Creation := []
  timers : List (ℕ × ℕ) := []
  releases : List ℕ := []
  held : List ℕ := []
  disposedBridges : List ℕ := []

structure IdleScalingConfig where
  size : ℕ
  idleTimeoutMs : Option ℕ

inductive IdleScalingEvent where
  | initializePool
  | acquire
  | release (bridge : ℕ)
  /-- The bridge released was created by the caller. -/
  | releaseOther
  | dispose
  /-- The timer of the idle pool. -/
  | idleTimeout
  /-- The timer of a replenishment that failed. -/
  | retry (index : ℕ)
  /-- The bridge of a release has been disposed of. -/
  | released (index : ℕ)
  | creationSettled (creation : ℕ) (succeeds : Bool)
  | initialized (pool : ℕ)
  /-- The replenishments that a disposal waits for have settled. -/
  | poolReplenished (pool : ℕ)
  | poolDisposed (pool : ℕ)
  | scaleUpEnds
  | scaleDownEnds
  | transitionsDrained
  | innerPoolDisposed
  deriving DecidableEq, Repr

namespace IdleScalingPool

variable (config : IdleScalingConfig) (s : IdleScalingPool)

def disposed : Bool := s.disposePromise ≠ .notCalled

def updatePool (p : ℕ) (f : IsolatePool → IsolatePool) : IdleScalingPool :=
  { s with pools := s.pools.modify p f }

def setPhase (creation : ℕ) (phase : CreationPhase) : IdleScalingPool :=
  { s with creations := s.creations.modify creation fun c => { c with phase := phase } }

/-! ### What an isolate pool does -/

def maxReplenishRetries : ℕ := 3

/-- `replenish` of an isolate pool. -/
def replenish (p attempt : ℕ) : IdleScalingPool :=
  match s.pools[p]? with
  | none => s
  | some pool =>
    if pool.disposed then s
    else if config.size ≤ pool.bridges.length + pool.warming then s
    else
      { s.updatePool p fun pool => { pool with
          warming := pool.warming + 1
          replenishPromises := pool.replenishPromises ++ [s.creations.length] } with
        creations := s.creations ++ [{ pool := p, attempt := some attempt }] }

/-- The callbacks of a replenishment whose bridge is created, or not. -/
def replenished (creation p attempt : ℕ) (succeeds : Bool) : IdleScalingPool :=
  let s := s.updatePool p fun pool => { pool with
    warming := pool.warming - 1
    replenishPromises := pool.replenishPromises.erase creation }
  if succeeds then
    let s := s.setPhase creation .created
    match s.pools[p]? with
    | none => s
    | some pool =>
      if pool.disposed then { s with disposedBridges := s.disposedBridges ++ [creation] }
      else s.updatePool p fun pool => { pool with bridges := pool.bridges ++ [creation] }
  else
    let s := s.setPhase creation .failed
    if attempt < maxReplenishRetries then { s with timers := s.timers ++ [(p, attempt + 1)] } else s

/-- `acquire` of an isolate pool, with the bridge unless it throws. -/
def acquireFrom (p : ℕ) : IdleScalingPool × Option ℕ :=
  match s.pools[p]? with
  | none => (s, none)
  | some pool =>
    if pool.disposed then (s, none)
    else
      match pool.bridges with
      | [] => (s, none)
      | bridge :: bridges =>
        let s := s.updatePool p fun pool => { pool with bridges := bridges }
        ({ s with held := s.held ++ [bridge] }.replenish config p 0, some bridge)

/-- `dispose` of an isolate pool, up to its first `await`. -/
def disposePool (p : ℕ) : IdleScalingPool :=
  s.updatePool p fun pool => { pool with disposal := .awaits pool.replenishPromises }

/-- The bridges that the initialization of a pool has brought. -/
def initialBridges (p : ℕ) : List ℕ :=
  (List.range s.creations.length).filter fun k =>
    s.creations[k]?.any fun c => c.pool = p ∧ c.phase = .ready

/-- Its calls of `createBridge` have settled. -/
def creationsSettled (p : ℕ) : Bool :=
  s.creations.all fun c => c.pool = p → c.attempt = none → c.phase ≠ .pending

/-- The bridges of an initialization are pushed. -/
def pushBridges (p : ℕ) : IdleScalingPool :=
  let s' := s.updatePool p fun pool => { pool with
    bridges := pool.bridges ++ s.initialBridges p
    initializing := false }
  { s' with creations := s.creations.map fun c =>
      if c.pool = p ∧ c.phase = .ready then { c with phase := .created } else c }

/-! ### What the idle scaling pool does -/

def resetIdleTimer : IdleScalingPool :=
  if config.idleTimeoutMs = none then s else { s with idleTimer := true }

/-- With the calls of `createBridge` that its initialization begins with. -/
def createInnerPool : IdleScalingPool :=
  { s with
    pools := s.pools ++ [{}]
    creations := s.creations ++
      List.replicate config.size { pool := s.pools.length, attempt := none } }

def initializePool : IdleScalingPool :=
  { s.createInnerPool config with innerPool := some s.pools.length }

def triggerScaleUp : IdleScalingPool :=
  if s.pendingScaleUp.isSome || s.innerPool.isSome || s.disposed then s
  else { s.createInnerPool config with pendingScaleUp := some { pool := s.pools.length } }

def triggerScaleDown : IdleScalingPool :=
  match s.innerPool with
  | none => s
  | some oldInner =>
    if s.pendingScaleDown.isSome || s.pendingScaleUp.isSome || s.disposed then s
    else { s with innerPool := none, pendingScaleDown := some oldInner }.disposePool oldInner

def acquire : IdleScalingPool × Option ℕ :=
  if s.disposed then (s, none)
  else
    match s.innerPool with
    | none => (s.triggerScaleUp config, none)
    | some p => (s.resetIdleTimer config).acquireFrom config p

/-- `release` up to the disposal of the bridge. -/
def releaseToInnerPool : IdleScalingPool :=
  match s.innerPool with
  | none => s
  | some p => if s.disposed then s else { s with releases := s.releases ++ [p] }

def release (bridge : ℕ) : IdleScalingPool :=
  let s := s.releaseToInnerPool
  { s with
    held := s.held.filter (· ≠ bridge)
    disposedBridges := s.disposedBridges ++ [bridge] }

/-- `doDispose` up to its first `await`. -/
def dispose : IdleScalingPool :=
  if s.disposed then s
  else { s with disposePromise := .drainsPendingTransitions, idleTimer := false }

/-- The scale-up goes on after the initialization of its pool. -/
def scaleUpInitialized (newInner : ℕ) (succeeds : Bool) : IdleScalingPool :=
  if !succeeds || s.disposed then
    { s with pendingScaleUp := some { pool := newInner, phase := .disposes } }.disposePool newInner
  else
    { s with
      innerPool := some newInner
      pendingScaleUp := some { pool := newInner, phase := .ended } }.resetIdleTimer config

/-- The pool has a bridge after its initialization. -/
def initializationSucceeds (p : ℕ) : Bool :=
  s.pools[p]?.any fun pool => !(pool.bridges ++ s.initialBridges p).isEmpty

/-- An initialization has its results, and whoever waits for it goes on. It throws when the pool
has no bridge. -/
def initialized (p : ℕ) : IdleScalingPool :=
  let succeeds := s.initializationSucceeds p
  let s := s.pushBridges p
  if s.pendingScaleUp = some { pool := p } then s.scaleUpInitialized config p succeeds
  else if succeeds then s.resetIdleTimer config
  else s

/-- `doDispose` goes on after the transitions : it takes the inner pool and disposes of it. -/
def disposeInnerPool : IdleScalingPool :=
  match s.innerPool with
  | none => { s with disposePromise := .resolved }
  | some toDispose =>
    { s with innerPool := none, disposePromise := .disposes toDispose }.disposePool toDispose

/-! ### Steps -/

def isPoolDisposed (p : ℕ) : Bool := s.pools[p]?.any fun pool => pool.disposal = .resolved

/-- A call of `createBridge` settles. The results of an initialization are kept until it has all
of them. -/
def creationSettled (creation : ℕ) (c : Creation) (succeeds : Bool) : IdleScalingPool :=
  match c.attempt with
  | none => s.setPhase creation (if succeeds then .ready else .failed)
  | some attempt => s.replenished creation c.pool attempt succeeds

/-- An event that cannot happen is an error. -/
def step : IdleScalingEvent → Except Unit IdleScalingPool
  | .initializePool => .ok (s.initializePool config)
  | .acquire => .ok (s.acquire config).1
  | .release bridge => if bridge ∈ s.held then .ok (s.release bridge) else .error ()
  | .releaseOther => .ok s.releaseToInnerPool
  | .dispose => .ok s.dispose
  | .idleTimeout =>
    if s.idleTimer then .ok { s with idleTimer := false }.triggerScaleDown else .error ()
  | .retry index =>
    match s.timers[index]? with
    | none => .error ()
    | some (p, attempt) =>
      .ok ({ s with timers := s.timers.eraseIdx index }.replenish config p attempt)
  | .released index =>
    match s.releases[index]? with
    | none => .error ()
    | some p => .ok ({ s with releases := s.releases.eraseIdx index }.replenish config p 0)
  | .creationSettled creation succeeds =>
    match s.creations[creation]? with
    | none => .error ()
    | some c =>
      if c.phase = .pending then .ok (s.creationSettled creation c succeeds) else .error ()
  | .initialized p =>
    match s.pools[p]? with
    | none => .error ()
    | some pool =>
      if pool.initializing && s.creationsSettled p then .ok (s.initialized config p)
      else .error ()
  | .poolReplenished p =>
    match s.pools[p]? with
    | none => .error ()
    | some pool =>
      match pool.disposal with
      | .awaits promises =>
        if promises.all fun k => s.creations[k]?.all (·.phase ≠ .pending) then
          .ok { s.updatePool p fun pool => { pool with disposal := .disposes } with
            disposedBridges := s.disposedBridges ++ pool.bridges }
        else .error ()
      | _ => .error ()
  | .poolDisposed p =>
    match s.pools[p]? with
    | none => .error ()
    | some pool =>
      if pool.disposal = .disposes then
        .ok (s.updatePool p fun pool => { pool with bridges := [], disposal := .resolved })
      else .error ()
  | .scaleUpEnds =>
    match s.pendingScaleUp with
    | none => .error ()
    | some scaleUp =>
      if scaleUp.phase = .ended ∨ scaleUp.phase = .disposes ∧ s.isPoolDisposed scaleUp.pool then
        .ok { s with pendingScaleUp := none }
      else .error ()
  | .scaleDownEnds =>
    match s.pendingScaleDown with
    | none => .error ()
    | some oldInner =>
      if s.isPoolDisposed oldInner then .ok { s with pendingScaleDown := none } else .error ()
  -- No transition starts once `dispose` was called, so those it waits for are the pending ones.
  | .transitionsDrained =>
    if s.disposePromise = .drainsPendingTransitions ∧ s.pendingScaleUp = none ∧
        s.pendingScaleDown = none then
      .ok s.disposeInnerPool
    else .error ()
  | .innerPoolDisposed =>
    match s.disposePromise with
    | .disposes toDispose =>
      if s.isPoolDisposed toDispose then .ok { s with disposePromise := .resolved } else .error ()
    | _ => .error ()

/-! ## Where bridges are -/

def IsCreated (bridge : ℕ) : Prop := ∃ c, s.creations[bridge]? = some c ∧ c.phase = .created

/-- A bridge is in the pool that is the inner one. -/
def InInnerPool (bridge : ℕ) : Prop :=
  ∃ p pool, s.innerPool = some p ∧ s.pools[p]? = some pool ∧ bridge ∈ pool.bridges

/-- The pool has been told to dispose of its bridges, and waits for replenishments first. -/
def InPoolBeingDisposed (bridge : ℕ) : Prop :=
  ∃ pool ∈ s.pools, pool.awaitsReplenishments = true ∧ bridge ∈ pool.bridges

/-- A bridge whose pool does not have it yet will be brought to it by an initialization in
progress, and every other is disposed of or being so, held or in the inner pool. When the pool
is disposed of and nothing is being created, every bridge is disposed of or held. -/
structure NoneLeaked : Prop where
  kept : ∀ bridge, s.IsCreated bridge → bridge ∈ s.disposedBridges ∨ bridge ∈ s.held ∨
    s.InInnerPool bridge ∨ s.InPoolBeingDisposed bridge
  arriving : ∀ c ∈ s.creations, c.phase = .ready →
    ∃ pool, s.pools[c.pool]? = some pool ∧ pool.initializing = true
  disposed : s.disposePromise = .resolved →
    (∀ c ∈ s.creations, c.phase = .created ∨ c.phase = .failed) →
    ∀ bridge, s.IsCreated bridge → bridge ∈ s.disposedBridges ∨ bridge ∈ s.held

/-! ## Steps that lose no bridge -/

/-- `dispose` has not taken the inner pool yet. -/
def innerPoolNotTaken : Bool :=
  s.disposePromise = .notCalled ∨ s.disposePromise = .drainsPendingTransitions

def isKeptInnerPool (p : ℕ) : Bool := s.innerPool = some p && s.innerPoolNotTaken

/-- The pool will be given up by its disposal only, which has not looked at its bridges yet. -/
def isLookedAfter (p : ℕ) : Bool :=
  s.isKeptInnerPool p || s.pendingScaleUp = some { pool := p } ||
    s.pools[p]?.any IsolatePool.awaitsReplenishments

def innerPoolIsEmpty : Bool :=
  s.innerPool.all fun p => s.pools[p]?.all fun pool => pool.bridges.isEmpty

/-- No inner pool that has bridges is replaced, and no bridge is brought to a pool that was
given up, or by an initialization after the bridges of its pool were disposed of. -/
def losesNone : IdleScalingEvent → Bool
  | .initializePool => s.innerPoolIsEmpty
  | .creationSettled creation succeeds =>
    !succeeds || s.creations[creation]?.all fun c => c.attempt = none ||
      s.pools[c.pool]?.any IsolatePool.disposed || s.isKeptInnerPool c.pool
  | .initialized p =>
    ((s.initialBridges p).isEmpty || s.isLookedAfter p) &&
      (s.pendingScaleUp ≠ some { pool := p } || !s.initializationSucceeds p || s.disposed ||
        s.innerPoolIsEmpty)
  | _ => true

end IdleScalingPool

end N8n
