import Mathlib.Algebra.Order.Ring.Rat
import N8n.Lib.Run

/-!
# WebSocket transport

`connect` starts an attempt : a socket with a timeout of its own and a promise. The handlers of
the socket and the timeout share the fields of the transport, `ws` first of all. When a socket is
closed, a timer is set that starts the next attempt.

Attempts, reconnect timers and calls of `connect` are numbered as they come, and an attempt's
socket and promise have its number. What goes on when a promise settles is in the same step, and
what the users' handlers do comes in later steps. A failed socket is closing until its close
event.
-/

namespace N8n

structure WebSocketTransportConfig where
  reconnect : Bool := true
  /-- `none` is infinity. -/
  maxReconnectAttempts : Option ℚ := none
  reconnectDelay : ℚ := 1000
  maxReconnectDelay : ℚ := 30000
  reconnectBackoff : ℚ := 2
  connectionTimeout : ℚ := 10000

inductive ReadyState where
  | connecting
  | open
  | closing
  | closed
  deriving DecidableEq, Repr

structure Socket where
  readyState : ReadyState := .connecting
  /-- The transport's handlers are there. -/
  attached : Bool := true
  /-- A connection timeout closed it when it was open. -/
  closedByTimeout : Bool := false
  deriving DecidableEq, Repr

namespace Socket

/-- It is open or opening. -/
def isLive (socket : Socket) : Bool :=
  socket.readyState = .connecting || socket.readyState = .open

/-- Its close event is still to be handled. -/
def isWatched (socket : Socket) : Bool := socket.attached && socket.readyState ≠ .closed

def close (socket : Socket) : Socket :=
  if socket.isLive then { socket with readyState := .closing } else socket

end Socket

inductive ConnectPromise where
  | pending
  | resolved
  | rejected (message : String)
  deriving DecidableEq, Repr

structure ConnectAttempt where
  /-- Its connection timeout runs, of this many milliseconds. -/
  timeout : Option ℚ
  promise : ConnectPromise := .pending
  /-- `none` if the constructor of the socket has thrown. -/
  socket : Option Socket
  /-- It was started by a reconnect timer. -/
  reconnects : Bool
  deriving DecidableEq, Repr

inductive ConnectCall where
  | waits (attempt : ℕ)
  /-- It has resolved, at a moment when the transport was `connected` or not. -/
  | resolved (connected : Bool)
  | rejected (message : String)
  deriving DecidableEq, Repr

structure WebSocketTransport where
  ws : Option ℕ := none
  connected : Bool := false
  reconnectAttempts : ℕ := 0
  reconnectTimeout : Option ℕ := none
  shouldReconnect : Bool := false
  isConnecting : Bool := false
  connectionPromise : Option ℕ := none
  attempts : List ConnectAttempt := []
  /-- The delays of the reconnect timers, `none` for one that has fired or was cleared. -/
  reconnectTimers : List (Option ℚ) := []
  calls : List ConnectCall := []
  /-- What the handlers were told. -/
  connectionChanges : List Bool := []
  errors : List String := []
  deriving DecidableEq, Repr

inductive WebSocketEvent where
  /-- The constructor of the socket may throw, if it gets there. -/
  | connect (throws : Option String)
  | disconnect
  | opens (attempt : ℕ)
  | closes (attempt : ℕ)
  | fails (attempt : ℕ)
  | timesOut (attempt : ℕ)
  | reconnectFires (timer : ℕ) (throws : Option String)
  deriving DecidableEq, Repr

namespace WebSocketTransport

variable (transport : WebSocketTransport)

/-! ## Sockets and promises -/

def socketAt (attempt : ℕ) : Option Socket :=
  (transport.attempts[attempt]?).bind ConnectAttempt.socket

def updateSocket (attempt : ℕ) (f : Socket → Socket) : WebSocketTransport :=
  { transport with attempts :=
      transport.attempts.modify attempt fun a => { a with socket := a.socket.map f } }

def clearTimeout (attempt : ℕ) : WebSocketTransport :=
  { transport with attempts :=
      transport.attempts.modify attempt fun a => { a with timeout := none } }

def notifyConnectionChange (connected : Bool) : WebSocketTransport :=
  { transport with connectionChanges := transport.connectionChanges ++ [connected] }

def notifyError (message : String) : WebSocketTransport :=
  { transport with errors := transport.errors ++ [message] }

/-- The promise of the attempt, as far as it was created. -/
def promiseOf (attempt : ℕ) : ConnectPromise :=
  (transport.attempts[attempt]?).elim .pending ConnectAttempt.promise

/-- The calls that wait for the attempt go on. -/
def settleCalls (attempt : ℕ) (outcome : ConnectCall) : WebSocketTransport :=
  { transport with calls :=
      transport.calls.map fun call => if call = .waits attempt then outcome else call }

def setPromise (attempt : ℕ) (promise : ConnectPromise) : WebSocketTransport :=
  { transport with attempts := transport.attempts.modify attempt fun a => { a with promise } }

/-- A promise that has settled does not change. -/
def resolve (attempt : ℕ) : WebSocketTransport :=
  if transport.promiseOf attempt = .pending then
    (transport.setPromise attempt .resolved).settleCalls attempt (.resolved transport.connected)
  else transport

/-- The failure of an attempt by a reconnect timer is told to the error handlers. -/
def reject (attempt : ℕ) (message : String) : WebSocketTransport :=
  if transport.promiseOf attempt = .pending then
    let settled := (transport.setPromise attempt (.rejected message)).settleCalls attempt
      (.rejected message)
    if (transport.attempts[attempt]?).any ConnectAttempt.reconnects then settled.notifyError message
    else settled
  else transport

/-- A call of `connect` waits for the promise. -/
def await (attempt : ℕ) : WebSocketTransport :=
  { transport with calls := transport.calls ++ [match transport.promiseOf attempt with
      | .pending => .waits attempt
      | .resolved => .resolved transport.connected
      | .rejected message => .rejected message] }

/-! ## Timers -/

/-- The timer has fired or is cleared. -/
def endTimer (timer : ℕ) : WebSocketTransport :=
  { transport with
    reconnectTimers := transport.reconnectTimers.set timer none
    reconnectTimeout := none }

def clearReconnectTimeout : WebSocketTransport :=
  match transport.reconnectTimeout with
  | some timer => transport.endTimer timer
  | none => transport

def scheduleReconnect (config : WebSocketTransportConfig) : WebSocketTransport :=
  if !transport.shouldReconnect then transport
  else if config.maxReconnectAttempts.any (· ≤ (transport.reconnectAttempts : ℚ)) then
    transport.notifyError "Max reconnection attempts reached"
  else
    let delay := min (config.reconnectDelay * config.reconnectBackoff ^ transport.reconnectAttempts)
      config.maxReconnectDelay
    { transport with
      reconnectAttempts := transport.reconnectAttempts + 1
      reconnectTimers := transport.reconnectTimers ++ [some delay]
      reconnectTimeout := some transport.reconnectTimers.length }

/-! ## Attempts -/

/-- The attempt gets the next number. -/
def doConnect (config : WebSocketTransportConfig) (reconnects : Bool) (throws : Option String) :
    WebSocketTransport :=
  let attempt := transport.attempts.length
  match throws with
  | some message =>
    ({ transport with
        isConnecting := false
        attempts := transport.attempts ++ [{ timeout := none, socket := none, reconnects }] } :
      WebSocketTransport).reject attempt message
  | none =>
    { transport with
      isConnecting := true
      ws := some attempt
      attempts := transport.attempts ++
        [{ timeout := some config.connectionTimeout, socket := some {}, reconnects }] }

def connect (config : WebSocketTransportConfig) (throws : Option String) : WebSocketTransport :=
  let transport := transport.clearReconnectTimeout
  if transport.connected then
    { transport with calls := transport.calls ++ [.resolved transport.connected] }
  else
    match transport.isConnecting, transport.connectionPromise with
    | true, some attempt => transport.await attempt
    | _, _ =>
      let attempt := transport.attempts.length
      let transport := { transport with shouldReconnect := config.reconnect }
      let transport := transport.doConnect config false throws
      { transport with connectionPromise := some attempt }.await attempt

def disconnect : WebSocketTransport :=
  let transport := { transport with shouldReconnect := false }.clearReconnectTimeout
  let transport := match transport.ws with
    | some attempt => { transport.updateSocket attempt fun socket =>
        { socket with attached := false }.close with ws := none }
    | none => transport
  let transport := if transport.connected then
      { transport with connected := false }.notifyConnectionChange false
    else transport
  { transport with isConnecting := false, connectionPromise := none }

/-! ## Handlers -/

def onopen (attempt : ℕ) : WebSocketTransport :=
  let transport := { transport.clearTimeout attempt with
    connected := true
    isConnecting := false
    reconnectAttempts := 0 }
  (transport.notifyConnectionChange true).resolve attempt

def onclose (config : WebSocketTransportConfig) (attempt : ℕ) : WebSocketTransport :=
  let wasConnected := transport.connected
  let transport := { transport.clearTimeout attempt with connected := false, isConnecting := false }
  let transport := if wasConnected then transport.notifyConnectionChange false else transport
  if transport.shouldReconnect then transport.scheduleReconnect config else transport

def onerror (attempt : ℕ) : WebSocketTransport :=
  let transport := (transport.clearTimeout attempt).notifyError "WebSocket error"
  if transport.isConnecting then
    { transport with isConnecting := false }.reject attempt "WebSocket error"
  else transport

/-- The connection timeout of the attempt closes the socket that the transport has now. -/
def onTimeout (attempt : ℕ) : WebSocketTransport :=
  let transport := transport.clearTimeout attempt
  let transport := match transport.ws with
    | some current => transport.updateSocket current fun socket =>
        { socket with closedByTimeout :=
            socket.closedByTimeout || socket.readyState = ReadyState.open }.close
    | none => transport
  transport.reject attempt "Connection timeout"

/-! ## Steps -/

/-- An event of a socket comes to its handler, if it is there. -/
def socketEvent (attempt : ℕ) (possible : ReadyState → Bool) (readyState : ReadyState)
    (handler : WebSocketTransport → WebSocketTransport) : Except Unit WebSocketTransport :=
  match transport.socketAt attempt with
  | none => .error ()
  | some socket =>
    if !possible socket.readyState then .error ()
    else
      let transport := transport.updateSocket attempt fun socket => { socket with readyState }
      .ok (if socket.attached then handler transport else transport)

def step (config : WebSocketTransportConfig) (transport : WebSocketTransport) :
    WebSocketEvent → Except Unit WebSocketTransport
  | .connect throws => .ok (transport.connect config throws)
  | .disconnect => .ok transport.disconnect
  | .opens attempt =>
    transport.socketEvent attempt (· = .connecting) .open (·.onopen attempt)
  | .closes attempt =>
    transport.socketEvent attempt (· ≠ .closed) .closed (·.onclose config attempt)
  | .fails attempt =>
    transport.socketEvent attempt (· ≠ .closed) .closing (·.onerror attempt)
  | .timesOut attempt =>
    if ((transport.attempts[attempt]?).bind ConnectAttempt.timeout).isNone then .error ()
    else .ok (transport.onTimeout attempt)
  | .reconnectFires timer throws =>
    if (transport.reconnectTimers[timer]?).join.isNone then .error ()
    else .ok ((transport.endTimer timer).doConnect config true throws)

/-! ## One healthy connection -/

/-- At most one socket is open or opening. -/
def OneLive : Prop := ∀ i j socket socket', transport.socketAt i = some socket →
  transport.socketAt j = some socket' → socket.isLive = true → socket'.isLive = true → i = j

/-- No open socket was closed by a timeout. -/
def ClosedByDisconnect : Prop :=
  ∀ i socket, transport.socketAt i = some socket → socket.closedByTimeout = false

/-- Calls of `connect` have resolved only when the transport was connected. -/
def ResolvesConnected : Prop :=
  ∀ connected, ConnectCall.resolved connected ∈ transport.calls → connected = true

/-- A call that joins an attempt does not get the promise of an earlier one, a call that starts
an attempt does not come before the close event of the current socket, and a timeout finds its
own socket or none that is open. -/
def keepsHealthy : WebSocketEvent → Bool
  | .connect _ => transport.connected ||
    match transport.isConnecting, transport.connectionPromise with
    | true, some attempt => transport.promiseOf attempt ≠ .resolved
    | _, _ => !(transport.ws.bind transport.socketAt).any Socket.isWatched
  | .timesOut attempt => match transport.ws with
    | some current => current = attempt ||
        !(transport.socketAt current).any (·.readyState = .open)
    | none => true
  | _ => true

end WebSocketTransport

end N8n
