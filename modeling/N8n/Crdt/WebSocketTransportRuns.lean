import N8n.Crdt.WebSocketTransport

/-!
# Runs of the WebSocket transport

While each step keeps the connection healthy, the only socket whose close event the transport
waits for is its current one, and a reconnect timer runs only when there is none (`Sound`).

`webSocketTransport_run` : in a run of such steps at most one socket is open or opening, no
timeout closes an open socket, and calls of `connect` resolve only when the transport is
connected.
-/

open Lib

namespace N8n

theorem Socket.isWatched_of_isLive {socket : Socket} (h : socket.isLive = true)
    (hattached : socket.attached = true) : socket.isWatched = true := by
  unfold isLive at h
  unfold isWatched
  rw [hattached, Bool.true_and, decide_eq_true_iff]
  intro hclosed
  simp [hclosed] at h

@[simp] theorem Socket.isLive_close {socket : Socket} : socket.close.isLive = false := by
  unfold close
  split
  · rfl
  · exact Bool.eq_false_iff.mpr ‹_›

theorem Socket.isWatched_of_close {socket : Socket} (h : socket.close.isWatched = true) :
    socket.isWatched = true := by
  unfold close at h
  split at h
  · rename_i hlive
    have hattached : socket.attached = true := by simpa [isWatched] using h
    exact isWatched_of_isLive hlive hattached
  · exact h

@[simp] theorem Socket.closedByTimeout_close {socket : Socket} :
    socket.close.closedByTimeout = socket.closedByTimeout := by
  unfold close
  split <;> rfl

@[simp] theorem Socket.attached_close {socket : Socket} :
    socket.close.attached = socket.attached := by
  unfold close
  split <;> rfl

namespace WebSocketTransport

variable {config : WebSocketTransportConfig} {t t' : WebSocketTransport} {i j : ℕ} {socket : Socket}

/-! ## Views -/

def timeoutAt (t : WebSocketTransport) (attempt : ℕ) : Option ℚ :=
  (t.attempts[attempt]?).bind ConnectAttempt.timeout

def timerAt (t : WebSocketTransport) (timer : ℕ) : Option ℚ := (t.reconnectTimers[timer]?).join

/-- The fields that connections are made of are the same. -/
structure Same (t t' : WebSocketTransport) : Prop where
  ws : t'.ws = t.ws
  connected : t'.connected = t.connected
  isConnecting : t'.isConnecting = t.isConnecting
  connectionPromise : t'.connectionPromise = t.connectionPromise
  reconnectTimeout : t'.reconnectTimeout = t.reconnectTimeout
  reconnectTimers : t'.reconnectTimers = t.reconnectTimers
  length : t'.attempts.length = t.attempts.length
  socketAt : ∀ i, t'.socketAt i = t.socketAt i
  timeoutAt : ∀ i, t'.timeoutAt i = t.timeoutAt i

namespace Same

theorem refl (t : WebSocketTransport) : Same t t :=
  ⟨rfl, rfl, rfl, rfl, rfl, rfl, rfl, fun _ => rfl, fun _ => rfl⟩

theorem trans {t'' : WebSocketTransport} (h : Same t t') (h' : Same t' t'') : Same t t'' :=
  ⟨h'.ws.trans h.ws, h'.connected.trans h.connected, h'.isConnecting.trans h.isConnecting,
    h'.connectionPromise.trans h.connectionPromise,
    h'.reconnectTimeout.trans h.reconnectTimeout, h'.reconnectTimers.trans h.reconnectTimers,
    h'.length.trans h.length, fun i => (h'.socketAt i).trans (h.socketAt i),
    fun i => (h'.timeoutAt i).trans (h.timeoutAt i)⟩

theorem setPromise {promise : ConnectPromise} : Same t (t.setPromise i promise) := by
  refine ⟨rfl, rfl, rfl, rfl, rfl, rfl, List.length_modify .., fun j => ?_, fun j => ?_⟩
  · simp only [WebSocketTransport.socketAt, WebSocketTransport.setPromise, List.getElem?_modify]
    cases t.attempts[j]? with
    | none => rfl
    | some a => by_cases hij : i = j <;> simp [hij]
  · simp only [WebSocketTransport.timeoutAt, WebSocketTransport.setPromise, List.getElem?_modify]
    cases t.attempts[j]? with
    | none => rfl
    | some a => by_cases hij : i = j <;> simp [hij]

theorem notifyConnectionChange {connected : Bool} : Same t (t.notifyConnectionChange connected) :=
  ⟨rfl, rfl, rfl, rfl, rfl, rfl, rfl, fun _ => rfl, fun _ => rfl⟩

theorem notifyError {message : String} : Same t (t.notifyError message) :=
  ⟨rfl, rfl, rfl, rfl, rfl, rfl, rfl, fun _ => rfl, fun _ => rfl⟩

theorem settleCalls {outcome : ConnectCall} : Same t (t.settleCalls i outcome) :=
  ⟨rfl, rfl, rfl, rfl, rfl, rfl, rfl, fun _ => rfl, fun _ => rfl⟩

theorem await : Same t (t.await i) :=
  ⟨rfl, rfl, rfl, rfl, rfl, rfl, rfl, fun _ => rfl, fun _ => rfl⟩

theorem resolve : Same t (t.resolve i) := by
  unfold WebSocketTransport.resolve
  split
  · exact setPromise.trans settleCalls
  · exact refl t

theorem reject {message : String} : Same t (t.reject i message) := by
  unfold WebSocketTransport.reject
  split
  · dsimp only
    split
    · exact setPromise.trans (settleCalls.trans notifyError)
    · exact setPromise.trans settleCalls
  · exact refl t

theorem setConnectionPromise (h : Same t t') (promise : Option ℕ) :
    Same { t with connectionPromise := promise } { t' with connectionPromise := promise } :=
  ⟨h.ws, h.connected, h.isConnecting, rfl, h.reconnectTimeout, h.reconnectTimers, h.length,
    h.socketAt, h.timeoutAt⟩

end Same

variable {f : Socket → Socket}

@[simp] theorem socketAt_updateSocket :
    (t.updateSocket i f).socketAt j = if i = j then (t.socketAt j).map f else t.socketAt j := by
  simp only [socketAt, updateSocket, List.getElem?_modify]
  cases t.attempts[j]? with
  | none => simp
  | some a => by_cases hij : i = j <;> simp [hij]

@[simp] theorem timeoutAt_updateSocket :
    (t.updateSocket i f).timeoutAt j = t.timeoutAt j := by
  simp only [timeoutAt, updateSocket, List.getElem?_modify]
  cases t.attempts[j]? with
  | none => rfl
  | some a => by_cases hij : i = j <;> simp [hij]

@[simp] theorem socketAt_clearTimeout : (t.clearTimeout i).socketAt j = t.socketAt j := by
  simp only [socketAt, clearTimeout, List.getElem?_modify]
  cases t.attempts[j]? with
  | none => rfl
  | some a => by_cases hij : i = j <;> simp [hij]

@[simp] theorem timeoutAt_clearTimeout :
    (t.clearTimeout i).timeoutAt j = if i = j then none else t.timeoutAt j := by
  simp only [timeoutAt, clearTimeout, List.getElem?_modify]
  cases t.attempts[j]? with
  | none => simp
  | some a => by_cases hij : i = j <;> simp [hij]

theorem socketAt_of_append {a : ConnectAttempt} (h : t'.attempts = t.attempts ++ [a])
    (hj : t'.socketAt j = some socket) :
    (t.socketAt j = some socket ∧ t'.timeoutAt j = t.timeoutAt j) ∨
      j = t.attempts.length ∧ a.socket = some socket := by
  rw [socketAt, h] at hj
  rw [timeoutAt, h]
  by_cases hlt : j < t.attempts.length
  · rw [List.getElem?_append_left hlt] at hj ⊢
    exact .inl ⟨hj, rfl⟩
  · rw [List.getElem?_append_right (not_lt.mp hlt), List.getElem?_singleton] at hj
    split at hj
    · exact .inr ⟨by omega, hj⟩
    · cases hj

variable {throws : Option String}

theorem connectionPromise_doConnect {reconnects : Bool} :
    (t.doConnect config reconnects throws).connectionPromise = t.connectionPromise := by
  unfold doConnect
  cases throws with
  | none => rfl
  | some message => exact Same.reject.connectionPromise

theorem clearReconnectTimeout_eq (t : WebSocketTransport) : ∃ timers,
    t.clearReconnectTimeout = { t with reconnectTimers := timers, reconnectTimeout := none } := by
  unfold clearReconnectTimeout
  split
  · exact ⟨_, rfl⟩
  · rename_i hnone
    exact ⟨t.reconnectTimers, by rw [← hnone]⟩

theorem socketEvent_eq_ok {possible : ReadyState → Bool} {readyState : ReadyState}
    {handler : WebSocketTransport → WebSocketTransport}
    (h : t.socketEvent i possible readyState handler = .ok t') : ∃ socket,
      t.socketAt i = some socket ∧ possible socket.readyState = true ∧
        t' = if socket.attached then
          handler (t.updateSocket i fun socket => { socket with readyState })
        else t.updateSocket i fun socket => { socket with readyState } := by
  unfold socketEvent at h
  split at h
  · cases h
  · rename_i socket hsocket
    split at h
    · cases h
    · rename_i hpossible
      cases h
      exact ⟨socket, hsocket, by simpa using hpossible, rfl⟩

/-! ## One current socket -/

structure Sound (t : WebSocketTransport) : Prop where
  watched : ∀ i socket, t.socketAt i = some socket → socket.isWatched = true →
    t.ws = some i ∧ t.connectionPromise ≠ none
  live : ∀ i socket, t.socketAt i = some socket → socket.isLive = true → socket.attached = true
  opened : ∀ i socket, t.socketAt i = some socket → socket.readyState = .open →
    t.connected = true ∧ t.timeoutAt i = none
  connecting : ∀ i socket, t.socketAt i = some socket → socket.readyState = .connecting →
    t.isConnecting = true
  timers : ∀ timer, t.timerAt timer ≠ none → t.reconnectTimeout = some timer ∧
    t.connectionPromise ≠ none ∧
      ∀ i socket, t.socketAt i = some socket → socket.isWatched = false
  closed : t.ClosedByDisconnect

namespace Sound

theorem initial : Sound {} := by
  refine ⟨fun i socket h => ?_, fun i socket h => ?_, fun i socket h => ?_, fun i socket h => ?_,
    fun timer h => absurd rfl h, fun i socket h => ?_⟩
  all_goals cases h

theorem same (h : Sound t) (hsame : Same t t') : Sound t' := by
  refine ⟨fun i socket hi hwatched => ?_, fun i socket hi => ?_, fun i socket hi hopen => ?_,
    fun i socket hi hconnecting => ?_, fun timer htimer => ?_, fun i socket hi => ?_⟩
  · rw [hsame.ws, hsame.connectionPromise]
    exact h.watched i socket (hsame.socketAt i ▸ hi) hwatched
  · exact h.live i socket (hsame.socketAt i ▸ hi)
  · rw [hsame.connected, hsame.timeoutAt]
    exact h.opened i socket (hsame.socketAt i ▸ hi) hopen
  · rw [hsame.isConnecting]
    exact h.connecting i socket (hsame.socketAt i ▸ hi) hconnecting
  · rw [timerAt, hsame.reconnectTimers] at htimer
    obtain ⟨htimeout, hpromise, hnone⟩ := h.timers timer htimer
    rw [hsame.reconnectTimeout, hsame.connectionPromise]
    exact ⟨htimeout, hpromise, fun i socket hi => hnone i socket (hsame.socketAt i ▸ hi)⟩
  · exact h.closed i socket (hsame.socketAt i ▸ hi)

theorem oneLive (h : Sound t) : t.OneLive := by
  intro i j socket socket' hi hj hlive hlive'
  have hwatched := h.watched i socket hi
    (Socket.isWatched_of_isLive hlive (h.live i socket hi hlive))
  have hwatched' := h.watched j socket' hj
    (Socket.isWatched_of_isLive hlive' (h.live j socket' hj hlive'))
  exact Option.some.inj (hwatched.1.symm.trans hwatched'.1)

/-- A live socket is the one the transport waits for. -/
theorem eq_of_isLive (h : Sound t) (hi : t.socketAt i = some socket)
    (hwatched : socket.isWatched = true) {socket' : Socket} (hj : t.socketAt j = some socket')
    (hlive : socket'.isLive = true) : j = i := by
  have hwatched' := Socket.isWatched_of_isLive hlive (h.live j socket' hj hlive)
  exact Option.some.inj ((h.watched j socket' hj hwatched').1.symm.trans
    (h.watched i socket hi hwatched).1)

theorem timerAt_eq_none (h : Sound t) (hi : t.socketAt i = some socket)
    (hwatched : socket.isWatched = true) (timer : ℕ) : t.timerAt timer = none := by
  by_contra htimer
  have hnot := (h.timers timer htimer).2.2 i socket hi
  rw [hwatched] at hnot
  cases hnot

/-- A socket stops being open or opening. -/
theorem updateSocket (h : Sound t)
    (hlive : ∀ socket, t.socketAt i = some socket → (f socket).isLive = false)
    (hwatched : ∀ socket, t.socketAt i = some socket → (f socket).isWatched = true →
      socket.isWatched = true)
    (hclosed : ∀ socket, t.socketAt i = some socket → (f socket).closedByTimeout = false) :
    Sound (t.updateSocket i f) := by
  -- what the socket at `j` was before
  have hbefore : ∀ j socket, (t.updateSocket i f).socketAt j = some socket →
      (i = j ∧ ∃ before, t.socketAt i = some before ∧ f before = socket) ∨
        t.socketAt j = some socket := by
    intro j socket hj
    rw [socketAt_updateSocket] at hj
    split at hj
    · rename_i hij
      subst hij
      exact .inl ⟨rfl, Option.map_eq_some_iff.mp hj⟩
    · exact .inr hj
  have hdead : ∀ socket, t.socketAt i = some socket → (f socket).readyState ≠ .open ∧
      (f socket).readyState ≠ .connecting := by
    intro socket hi
    have hlive := hlive socket hi
    simp only [Socket.isLive, Bool.or_eq_false_iff, decide_eq_false_iff_not] at hlive
    exact hlive.symm
  refine ⟨fun j socket hj hwatched' => ?_, fun j socket hj hlive' => ?_, fun j socket hj hopen => ?_,
    fun j socket hj hconnecting => ?_, fun timer htimer => ?_, fun j socket hj => ?_⟩
  · rcases hbefore j socket hj with ⟨rfl, before, hi, rfl⟩ | hj
    · exact h.watched i before hi (hwatched before hi hwatched')
    · exact h.watched j socket hj hwatched'
  · rcases hbefore j socket hj with ⟨rfl, before, hi, rfl⟩ | hj
    · rw [hlive before hi] at hlive'
      cases hlive'
    · exact h.live j socket hj hlive'
  · rw [timeoutAt_updateSocket]
    rcases hbefore j socket hj with ⟨rfl, before, hi, rfl⟩ | hj
    · exact absurd hopen (hdead before hi).1
    · exact h.opened j socket hj hopen
  · rcases hbefore j socket hj with ⟨rfl, before, hi, rfl⟩ | hj
    · exact absurd hconnecting (hdead before hi).2
    · exact h.connecting j socket hj hconnecting
  · obtain ⟨htimeout, hpromise, hnone⟩ := h.timers timer htimer
    refine ⟨htimeout, hpromise, fun j socket hj => ?_⟩
    rcases hbefore j socket hj with ⟨rfl, before, hi, rfl⟩ | hj
    · exact Bool.eq_false_iff.mpr fun hw =>
        Bool.eq_false_iff.mp (hnone i before hi) (hwatched before hi hw)
    · exact hnone j socket hj
  · rcases hbefore j socket hj with ⟨rfl, before, hi, rfl⟩ | hj
    · exact hclosed before hi
    · exact h.closed j socket hj

/-- The flags have no part in it when no socket is open or opening. -/
theorem setFlags (h : Sound t) (hdead : ∀ j socket, t.socketAt j = some socket →
    socket.isLive = false) (connected isConnecting : Bool) :
    Sound { t with connected, isConnecting } := by
  refine ⟨h.watched, h.live, fun j socket hj hopen => ?_, fun j socket hj hconnecting => ?_, h.timers,
    h.closed⟩
  · have hlive := hdead j socket hj
    simp [Socket.isLive, hopen] at hlive
  · have hlive := hdead j socket hj
    simp [Socket.isLive, hconnecting] at hlive

theorem clearTimeout (h : Sound t) : Sound (t.clearTimeout i) := by
  refine ⟨fun j socket hj => ?_, fun j socket hj => ?_, fun j socket hj hopen => ?_,
    fun j socket hj => ?_, fun timer htimer => ?_, fun j socket hj => ?_⟩
  · exact h.watched j socket (socketAt_clearTimeout ▸ hj)
  · exact h.live j socket (socketAt_clearTimeout ▸ hj)
  · obtain ⟨hconnected, htimeout⟩ := h.opened j socket (socketAt_clearTimeout ▸ hj) hopen
    refine ⟨hconnected, ?_⟩
    rw [timeoutAt_clearTimeout, htimeout, ite_self]
  · exact h.connecting j socket (socketAt_clearTimeout ▸ hj)
  · obtain ⟨htimeout, hpromise, hnone⟩ := h.timers timer htimer
    exact ⟨htimeout, hpromise, fun j socket hj => hnone j socket (socketAt_clearTimeout ▸ hj)⟩
  · exact h.closed j socket (socketAt_clearTimeout ▸ hj)

/-- Nothing is waited for, and no reconnect timer runs. -/
theorem idle (h : Sound t) (hattempts : t'.attempts = t.attempts)
    (hnone : ∀ i socket, t.socketAt i = some socket → socket.isWatched = false)
    (hidle : ∀ timer, t'.timerAt timer = none) : Sound t' := by
  have hsocket : ∀ i, t'.socketAt i = t.socketAt i := fun i => by rw [socketAt, hattempts]; rfl
  have hdead : ∀ i socket, t'.socketAt i = some socket → socket.isLive = false := by
    intro i socket hi
    rw [hsocket] at hi
    refine Bool.eq_false_iff.mpr fun hlive => ?_
    have hwatched := Socket.isWatched_of_isLive hlive (h.live i socket hi hlive)
    rw [hnone i socket hi] at hwatched
    cases hwatched
  refine ⟨fun i socket hi hwatched => ?_, fun i socket hi hlive => ?_, fun i socket hi hopen => ?_,
    fun i socket hi hconnecting => ?_, fun timer htimer => absurd (hidle timer) htimer,
    fun i socket hi => h.closed i socket (hsocket i ▸ hi)⟩
  · rw [hnone i socket (hsocket i ▸ hi)] at hwatched
    cases hwatched
  · rw [hdead i socket hi] at hlive
    cases hlive
  · have hlive := hdead i socket hi
    simp [Socket.isLive, hopen] at hlive
  · have hlive := hdead i socket hi
    simp [Socket.isLive, hconnecting] at hlive

/-! ## Reconnect timers -/

theorem timerAt_endTimer (h : Sound t) {timer : ℕ} (htimeout : t.reconnectTimeout = some timer)
    (k : ℕ) : (t.endTimer timer).timerAt k = none := by
  by_contra hk
  simp only [timerAt, endTimer, List.getElem?_set] at hk
  split at hk
  · split at hk <;> exact hk rfl
  · exact ‹¬timer = k› (Option.some.inj (htimeout.symm.trans (h.timers k hk).1))

theorem timerAt_clearReconnectTimeout (h : Sound t) (timer : ℕ) :
    t.clearReconnectTimeout.timerAt timer = none := by
  unfold WebSocketTransport.clearReconnectTimeout
  split
  · exact h.timerAt_endTimer ‹_› timer
  · rename_i hnone
    by_contra htimer
    cases hnone.symm.trans (h.timers timer htimer).1

theorem clearReconnectTimeout (h : Sound t) : Sound t.clearReconnectTimeout := by
  have hnone := h.timerAt_clearReconnectTimeout
  unfold WebSocketTransport.clearReconnectTimeout at hnone ⊢
  split
  · rename_i current hcurrent
    simp only [hcurrent] at hnone
    exact ⟨h.watched, h.live, h.opened, h.connecting,
      fun timer htimer => absurd (hnone timer) htimer, h.closed⟩
  · exact h

theorem scheduleReconnect (h : Sound t) (hidle : ∀ timer, t.timerAt timer = none)
    (hpromise : t.connectionPromise ≠ none)
    (hnone : ∀ i socket, t.socketAt i = some socket → socket.isWatched = false) :
    Sound (t.scheduleReconnect config) := by
  unfold WebSocketTransport.scheduleReconnect
  split
  · exact h
  · split
    · exact h.same .notifyError
    · refine ⟨h.watched, h.live, h.opened, h.connecting, fun timer htimer => ?_, h.closed⟩
      simp only [timerAt, List.getElem?_append] at htimer
      split at htimer
      · exact absurd (hidle timer) htimer
      · rw [List.getElem?_singleton] at htimer
        split at htimer
        · exact ⟨congrArg some (by omega), hpromise, hnone⟩
        · exact absurd rfl htimer

/-! ## Attempts -/

/-- An attempt starts when no socket is waited for and no reconnect timer runs. -/
theorem doConnect (h : Sound t) (config : WebSocketTransportConfig)
    (hidle : ∀ timer, t.timerAt timer = none)
    (hnone : ∀ i socket, t.socketAt i = some socket → socket.isWatched = false)
    (reconnects : Bool) (throws : Option String) (attempt : ℕ) :
    Sound { t.doConnect config reconnects throws with connectionPromise := some attempt } := by
  have hdead : ∀ i socket, t.socketAt i = some socket → socket.isLive = false := by
    intro i socket hi
    refine Bool.eq_false_iff.mpr fun hlive => ?_
    have hwatched := Socket.isWatched_of_isLive hlive (h.live i socket hi hlive)
    rw [hnone i socket hi] at hwatched
    cases hwatched
  cases throws with
  | some message =>
    have hstart : Sound { t with
        isConnecting := false
        attempts := t.attempts ++ [{ timeout := none, socket := none, reconnects }]
        connectionPromise := some attempt } := by
      have hold : ∀ {t' : WebSocketTransport} {j socket},
          t'.attempts = t.attempts ++ [{ timeout := none, socket := none, reconnects }] →
          t'.socketAt j = some socket → t.socketAt j = some socket := by
        intro t' j socket hattempts hj
        rcases socketAt_of_append hattempts hj with ⟨hj, -⟩ | ⟨-, hj⟩
        · exact hj
        · cases hj
      refine ⟨fun j socket hj hwatched => ?_, fun j socket hj => h.live j socket (hold rfl hj),
        fun j socket hj hopen => ?_, fun j socket hj hconnecting => ?_,
        fun timer htimer => absurd (hidle timer) htimer, fun j socket hj => h.closed j socket (hold rfl hj)⟩
      · rw [hnone j socket (hold rfl hj)] at hwatched
        cases hwatched
      · have hlive := hdead j socket (hold rfl hj)
        simp [Socket.isLive, hopen] at hlive
      · have hlive := hdead j socket (hold rfl hj)
        simp [Socket.isLive, hconnecting] at hlive
    have hreject : Same { t with
        isConnecting := false
        attempts := t.attempts ++ [{ timeout := none, socket := none, reconnects }] }
        (t.doConnect config reconnects (some message)) := .reject
    exact hstart.same (hreject.setConnectionPromise _)
  | none =>
    have hcases : ∀ j socket, ({ t.doConnect config reconnects none with
        connectionPromise := some attempt } : WebSocketTransport).socketAt j = some socket →
        t.socketAt j = some socket ∨ j = t.attempts.length ∧ socket = {} := by
      intro j socket hj
      rcases socketAt_of_append rfl hj with ⟨hj, -⟩ | ⟨hlength, heq⟩
      · exact .inl hj
      · exact .inr ⟨hlength, (Option.some.inj heq).symm⟩
    refine ⟨fun j socket hj hwatched => ?_, fun j socket hj hlive => ?_, fun j socket hj hopen => ?_,
      fun j socket hj _ => rfl, fun timer htimer => absurd (hidle timer) htimer, fun j socket hj => ?_⟩
    · rcases hcases j socket hj with hj | ⟨rfl, -⟩
      · rw [hnone j socket hj] at hwatched
        cases hwatched
      · exact ⟨rfl, Option.some_ne_none _⟩
    · rcases hcases j socket hj with hj | ⟨-, rfl⟩
      · exact h.live j socket hj hlive
      · rfl
    · rcases hcases j socket hj with hj | ⟨-, rfl⟩
      · have hlive := hdead j socket hj
        simp [Socket.isLive, hopen] at hlive
      · cases hopen
    · rcases hcases j socket hj with hj | ⟨-, rfl⟩
      · exact h.closed j socket hj
      · rfl

/-! ## Events -/

theorem onopen (h : Sound t) (hi : t.socketAt i = some socket)
    (hconnecting : socket.readyState = .connecting) :
    Sound ((t.updateSocket i fun socket => { socket with readyState := .open }).onopen i) := by
  have hlive : socket.isLive = true := by simp [Socket.isLive, hconnecting]
  have hattached := h.live i socket hi hlive
  have hwatched := Socket.isWatched_of_isLive hlive hattached
  have hstart : Sound { (t.updateSocket i fun socket =>
        { socket with readyState := .open }).clearTimeout i with
      connected := true
      isConnecting := false
      reconnectAttempts := 0 } := by
    have hcases : ∀ j socket', ((t.updateSocket i fun socket =>
        { socket with readyState := .open }).clearTimeout i).socketAt j = some socket' →
        i = j ∧ { socket with readyState := .open } = socket' ∨
          i ≠ j ∧ t.socketAt j = some socket' := by
      intro j socket' hj
      rw [socketAt_clearTimeout, socketAt_updateSocket] at hj
      split at hj
      · rename_i hij
        subst hij
        rw [hi] at hj
        exact .inl ⟨rfl, Option.some.inj hj⟩
      · exact .inr ⟨‹_›, hj⟩
    refine ⟨fun j socket' hj hwatched' => ?_, fun j socket' hj hlive' => ?_,
      fun j socket' hj hopen => ⟨rfl, ?_⟩, fun j socket' hj hconnecting' => ?_,
      fun timer htimer => absurd (h.timerAt_eq_none hi hwatched timer) htimer, fun j socket' hj => ?_⟩
    · rcases hcases j socket' hj with ⟨rfl, -⟩ | ⟨-, hj⟩
      · exact h.watched i socket hi hwatched
      · exact h.watched j socket' hj hwatched'
    · rcases hcases j socket' hj with ⟨-, rfl⟩ | ⟨-, hj⟩
      · exact hattached
      · exact h.live j socket' hj hlive'
    · change (WebSocketTransport.clearTimeout _ i).timeoutAt j = none
      rw [timeoutAt_clearTimeout]
      rcases hcases j socket' hj with ⟨hij, -⟩ | ⟨hij, hj⟩
      · rw [if_pos hij]
      · rw [if_neg hij, timeoutAt_updateSocket]
        exact (h.opened j socket' hj hopen).2
    · rcases hcases j socket' hj with ⟨-, rfl⟩ | ⟨hij, hj⟩
      · cases hconnecting'
      · exact absurd (h.eq_of_isLive hi hwatched hj (by simp [Socket.isLive, hconnecting'])).symm hij
    · rcases hcases j socket' hj with ⟨-, rfl⟩ | ⟨-, hj⟩
      · exact h.closed i socket hi
      · exact h.closed j socket' hj
  have hsame : Same { (t.updateSocket i fun socket =>
        { socket with readyState := .open }).clearTimeout i with
      connected := true
      isConnecting := false
      reconnectAttempts := 0 }
      ((t.updateSocket i fun socket => { socket with readyState := .open }).onopen i) :=
    Same.notifyConnectionChange.trans .resolve
  exact hstart.same hsame

/-- The socket was the one the transport waited for, and is not open or opening any more. -/
theorem isLive_updateSocket (h : Sound t) (hi : t.socketAt i = some socket)
    (hwatched : socket.isWatched = true) (hdead : (f socket).isLive = false) {socket' : Socket}
    (hj : (t.updateSocket i f).socketAt j = some socket') :
    socket'.isLive = false := by
  rw [socketAt_updateSocket] at hj
  split at hj
  · rename_i hij
    subst hij
    rw [hi] at hj
    rwa [← Option.some.inj hj]
  · exact Bool.eq_false_iff.mpr fun hlive => ‹¬i = j› (h.eq_of_isLive hi hwatched hj hlive).symm

theorem closes (h : Sound t) (i : ℕ) :
    Sound (t.updateSocket i fun socket => { socket with readyState := .closed }) :=
  h.updateSocket (fun _ _ => rfl) (fun _ _ hwatched => by simp [Socket.isWatched] at hwatched)
    fun socket hi => h.closed i socket hi

theorem onclose (h : Sound t) (hi : t.socketAt i = some socket)
    (hwatched : socket.isWatched = true) : Sound ((t.updateSocket i fun socket =>
      { socket with readyState := .closed }).onclose config i) := by
  have hnone : ∀ j socket', ((t.updateSocket i fun socket =>
      { socket with readyState := .closed }).clearTimeout i).socketAt j = some socket' →
      socket'.isWatched = false := by
    intro j socket' hj
    rw [socketAt_clearTimeout, socketAt_updateSocket] at hj
    split at hj
    · obtain ⟨before, -, rfl⟩ := Option.map_eq_some_iff.mp hj
      simp [Socket.isWatched]
    · refine Bool.eq_false_iff.mpr fun hwatched' => ‹¬i = j› ?_
      exact Option.some.inj ((h.watched i socket hi hwatched).1.symm.trans
        (h.watched j socket' hj hwatched').1)
  have hcleared : Sound ((t.updateSocket i fun socket =>
    { socket with readyState := .closed }).clearTimeout i) := (h.closes i).clearTimeout
  have hflags := hcleared.setFlags (fun j socket' hj => by
    rw [socketAt_clearTimeout] at hj
    exact h.isLive_updateSocket hi hwatched rfl hj) false false
  have hidle := h.timerAt_eq_none hi hwatched
  have hpromise := (h.watched i socket hi hwatched).2
  unfold WebSocketTransport.onclose
  dsimp only
  split
  · split
    · exact (hflags.same .notifyConnectionChange).scheduleReconnect hidle hpromise hnone
    · exact hflags.same .notifyConnectionChange
  · split
    · exact hflags.scheduleReconnect hidle hpromise hnone
    · exact hflags

theorem fails (h : Sound t) (hi : t.socketAt i = some socket)
    (hnot : socket.readyState ≠ .closed) :
    Sound (t.updateSocket i fun socket => { socket with readyState := .closing }) := by
  refine h.updateSocket (fun _ _ => rfl) (fun socket' hi' hwatched => ?_)
    fun socket hi => h.closed i socket hi
  obtain rfl := Option.some.inj (hi.symm.trans hi')
  simpa [Socket.isWatched, hnot] using hwatched

theorem onerror (h : Sound t) (hi : t.socketAt i = some socket)
    (hwatched : socket.isWatched = true) : Sound ((t.updateSocket i fun socket =>
      { socket with readyState := .closing }).onerror i) := by
  have hnot : socket.readyState ≠ .closed := by
    rintro hclosed
    simp [Socket.isWatched, hclosed] at hwatched
  have hcleared : Sound ((t.updateSocket i fun socket =>
    { socket with readyState := .closing }).clearTimeout i) := (h.fails hi hnot).clearTimeout
  unfold WebSocketTransport.onerror
  dsimp only
  split
  · refine Sound.same (Sound.setFlags (hcleared.same .notifyError) (fun j socket' hj => ?_) _ false)
      .reject
    exact h.isLive_updateSocket hi hwatched rfl (socketAt_clearTimeout.symm.trans hj)
  · exact hcleared.same .notifyError

/-- The timeout of an attempt has no effect on an open socket, its own or another. -/
theorem onTimeout (h : Sound t) (hi : t.timeoutAt i ≠ none)
    (hevent : t.keepsHealthy (.timesOut i) = true) : Sound (t.onTimeout i) := by
  unfold WebSocketTransport.onTimeout
  dsimp only
  have hws : (t.clearTimeout i).ws = t.ws := rfl
  split
  · rename_i current hcurrent
    rw [hws] at hcurrent
    refine Sound.same ?_ .reject
    refine h.clearTimeout.updateSocket (fun socket hc => ?_) (fun socket hc hw => ?_)
      fun socket hc => ?_
    · exact Socket.isLive_close
    · have hbefore := Socket.isWatched_of_close hw
      exact hbefore
    · rw [socketAt_clearTimeout] at hc
      rw [Socket.closedByTimeout_close]
      have hnot : socket.readyState ≠ .open := by
        intro hopen
        simp only [keepsHealthy, hcurrent, hc, hopen, Option.any_some, decide_true, Bool.not_true,
          Bool.or_false, decide_eq_true_iff] at hevent
        subst hevent
        exact hi (h.opened current socket hc hopen).2
      simp [h.closed current socket hc, hnot]
  · exact h.clearTimeout.same .reject

theorem disconnect (h : Sound t) : Sound t.disconnect := by
  have hstart : Same t { t with shouldReconnect := false } :=
    ⟨rfl, rfl, rfl, rfl, rfl, rfl, rfl, fun _ => rfl, fun _ => rfl⟩
  have hcleared := (h.same hstart).clearReconnectTimeout
  have hidle := (h.same hstart).timerAt_clearReconnectTimeout
  unfold WebSocketTransport.disconnect
  dsimp only
  generalize { t with shouldReconnect := false }.clearReconnectTimeout = t₁ at *
  split
  · rename_i current hcurrent
    -- the current socket is detached and closed
    have hclosed : Sound (t₁.updateSocket current fun socket =>
        { socket with attached := false }.close) := by
      refine hcleared.updateSocket (fun _ _ => Socket.isLive_close) (fun socket hc hw => ?_)
        fun socket hc => ?_
      · simp [Socket.isWatched] at hw
      · rw [Socket.closedByTimeout_close]
        exact hcleared.closed current socket hc
    refine hclosed.idle (by split <;> rfl) (fun i socket hi => ?_) (fun timer => by
      split <;> exact hidle timer)
    rw [socketAt_updateSocket] at hi
    split at hi
    · obtain ⟨before, -, rfl⟩ := Option.map_eq_some_iff.mp hi
      simp [Socket.isWatched]
    · refine Bool.eq_false_iff.mpr fun hw => ‹¬current = i› ?_
      exact Option.some.inj (hcurrent.symm.trans (hcleared.watched i socket hi hw).1)
  · rename_i hnone
    refine hcleared.idle (by split <;> rfl) (fun i socket hi => Bool.eq_false_iff.mpr fun hw => ?_)
      (fun timer => by split <;> exact hidle timer)
    cases hnone.symm.trans (hcleared.watched i socket hi hw).1

theorem connect (h : Sound t) (hevent : t.keepsHealthy (.connect throws) = true) :
    Sound (t.connect config throws) := by
  have hcleared := h.clearReconnectTimeout
  have hidle := h.timerAt_clearReconnectTimeout
  obtain ⟨timers, heq⟩ := clearReconnectTimeout_eq t
  rw [heq] at hcleared hidle
  unfold WebSocketTransport.connect
  rw [heq]
  dsimp only
  unfold keepsHealthy at hevent
  split
  · exact hcleared.same ⟨rfl, rfl, rfl, rfl, rfl, rfl, rfl, fun _ => rfl, fun _ => rfl⟩
  · rename_i hconnected
    simp only [hconnected, Bool.false_or] at hevent
    split
    · exact hcleared.same .await
    · rename_i hnot
      have hnone : ∀ i socket, t.socketAt i = some socket → socket.isWatched = false := by
        intro i socket hi
        refine Bool.eq_false_iff.mpr fun hw => ?_
        split at hevent
        · exact hnot _ ‹_› ‹_›
        · rw [(h.watched i socket hi hw).1, Option.bind_some, hi, Option.any_some, hw] at hevent
          cases hevent
      have hstart : Sound { t with
          reconnectTimers := timers
          reconnectTimeout := none
          shouldReconnect := config.reconnect } :=
        hcleared.same ⟨rfl, rfl, rfl, rfl, rfl, rfl, rfl, fun _ => rfl, fun _ => rfl⟩
      exact (hstart.doConnect config hidle hnone false throws t.attempts.length).same .await

theorem reconnectFires (h : Sound t) {timer : ℕ} (htimer : t.timerAt timer ≠ none)
    (throws : Option String) : Sound ((t.endTimer timer).doConnect config true throws) := by
  obtain ⟨htimeout, hpromise, hnone⟩ := h.timers timer htimer
  have hidle : ∀ k, (t.endTimer timer).timerAt k = none := h.timerAt_endTimer htimeout
  have hended : Sound (t.endTimer timer) := h.idle rfl hnone hidle
  obtain ⟨attempt, hattempt⟩ := Option.ne_none_iff_exists'.mp hpromise
  have hsame : Same { (t.endTimer timer).doConnect config true throws with
      connectionPromise := some attempt } ((t.endTimer timer).doConnect config true throws) := by
    refine ⟨rfl, rfl, rfl, ?_, rfl, rfl, rfl, fun _ => rfl, fun _ => rfl⟩
    rw [connectionPromise_doConnect]
    exact hattempt
  exact (hended.doConnect config hidle hnone true throws attempt).same hsame

end Sound

theorem Sound.step (h : Sound t) {event : WebSocketEvent} (hevent : t.keepsHealthy event = true)
    (hstep : t.step config event = .ok t') : Sound t' := by
  have hattached : ∀ {socket : Socket}, socket.readyState ≠ .closed → socket.attached = true →
      socket.isWatched = true := by
    intro socket hnot hattached
    rw [Socket.isWatched, hattached, Bool.true_and, decide_eq_true_iff]
    exact hnot
  cases event with
  | connect throws =>
    cases hstep
    exact h.connect hevent
  | disconnect =>
    cases hstep
    exact h.disconnect
  | opens attempt =>
    simp only [WebSocketTransport.step] at hstep
    obtain ⟨socket, hsocket, hpossible, rfl⟩ := socketEvent_eq_ok hstep
    have hconnecting : socket.readyState = .connecting := of_decide_eq_true hpossible
    rw [if_pos (h.live attempt socket hsocket (by simp [Socket.isLive, hconnecting]))]
    exact h.onopen hsocket hconnecting
  | closes attempt =>
    simp only [WebSocketTransport.step] at hstep
    obtain ⟨socket, hsocket, hpossible, rfl⟩ := socketEvent_eq_ok hstep
    split
    · exact h.onclose hsocket (hattached (of_decide_eq_true hpossible) ‹_›)
    · exact h.closes attempt
  | fails attempt =>
    simp only [WebSocketTransport.step] at hstep
    obtain ⟨socket, hsocket, hpossible, rfl⟩ := socketEvent_eq_ok hstep
    split
    · exact h.onerror hsocket (hattached (of_decide_eq_true hpossible) ‹_›)
    · exact h.fails hsocket (of_decide_eq_true hpossible)
  | timesOut attempt =>
    simp only [WebSocketTransport.step] at hstep
    split at hstep
    · cases hstep
    · rename_i htimeout
      cases hstep
      exact h.onTimeout (fun hnone => htimeout (Option.isNone_iff_eq_none.mpr hnone)) hevent
  | reconnectFires timer throws =>
    simp only [WebSocketTransport.step] at hstep
    split at hstep
    · cases hstep
    · rename_i htimer
      cases hstep
      exact h.reconnectFires (fun hnone => htimer (Option.isNone_iff_eq_none.mpr hnone)) throws

/-! ## Calls -/

namespace ResolvesConnected

theorem settleCalls (h : t.ResolvesConnected) {outcome : ConnectCall}
    (houtcome : ∀ connected, outcome = .resolved connected → connected = true) :
    (t.settleCalls i outcome).ResolvesConnected := by
  intro connected hmem
  obtain ⟨call, hcall, heq⟩ := List.mem_map.mp hmem
  split at heq
  · exact houtcome connected heq
  · exact h connected (heq ▸ hcall)

theorem resolve (h : t.ResolvesConnected) (hconnected : t.connected = true) :
    (t.resolve i).ResolvesConnected := by
  unfold WebSocketTransport.resolve
  split
  · have hstart : (t.setPromise i .resolved).ResolvesConnected := h
    exact hstart.settleCalls fun connected heq => by
      rw [← ConnectCall.resolved.inj heq, hconnected]
  · exact h

theorem reject (h : t.ResolvesConnected) {message : String} :
    (t.reject i message).ResolvesConnected := by
  have hstart : (t.setPromise i (.rejected message)).ResolvesConnected := h
  have hsettled : ((t.setPromise i (.rejected message)).settleCalls i
      (.rejected message)).ResolvesConnected :=
    hstart.settleCalls fun connected heq => by cases heq
  unfold WebSocketTransport.reject
  split
  · dsimp only
    split
    · exact hsettled
    · exact hsettled
  · exact h

theorem push (h : t.ResolvesConnected) {call : ConnectCall} (hcalls : t'.calls = t.calls ++ [call])
    (hcall : ∀ connected, call = .resolved connected → connected = true) :
    t'.ResolvesConnected := by
  intro connected hmem
  rw [hcalls] at hmem
  rcases List.mem_append.mp hmem with hmem | hmem
  · exact h connected hmem
  · exact hcall connected (List.mem_singleton.mp hmem).symm

theorem await (h : t.ResolvesConnected) (hnot : t.promiseOf i ≠ .resolved) :
    (t.await i).ResolvesConnected := by
  refine h.push rfl fun connected heq => ?_
  split at heq
  · cases heq
  · exact absurd ‹_› hnot
  · cases heq

theorem doConnect (h : t.ResolvesConnected) {reconnects : Bool} :
    (t.doConnect config reconnects throws).ResolvesConnected := by
  cases throws with
  | some message =>
    have hstart : ({ t with
        isConnecting := false
        attempts := t.attempts ++ [{ timeout := none, socket := none, reconnects }] } :
      WebSocketTransport).ResolvesConnected := h
    exact hstart.reject
  | none => exact h

theorem promiseOf_reject {a : ConnectAttempt} (ha : t.attempts[i]? = some a)
    (hpending : a.promise = .pending) {message : String} :
    (t.reject i message).promiseOf i = .rejected message := by
  have hpromise : t.promiseOf i = .pending := by rw [promiseOf, ha, Option.elim_some, hpending]
  have hset : (t.setPromise i (.rejected message)).promiseOf i = .rejected message := by
    simp [promiseOf, setPromise, ha]
  unfold WebSocketTransport.reject
  rw [if_pos hpromise]
  dsimp only
  split
  · exact hset
  · exact hset

/-- The promise of a new attempt has not resolved. -/
theorem promiseOf_doConnect {reconnects : Bool} :
    (t.doConnect config reconnects throws).promiseOf t.attempts.length ≠ .resolved := by
  cases throws with
  | some message =>
    have hrejected : (t.doConnect config reconnects (some message)).promiseOf t.attempts.length =
        .rejected message := promiseOf_reject List.getElem?_concat_length rfl
    rw [hrejected]
    exact fun heq => by cases heq
  | none => simp [WebSocketTransport.doConnect, promiseOf]

theorem connect (h : t.ResolvesConnected) (hevent : t.keepsHealthy (.connect throws) = true) :
    (t.connect config throws).ResolvesConnected := by
  obtain ⟨timers, heq⟩ := clearReconnectTimeout_eq t
  unfold WebSocketTransport.connect
  rw [heq]
  dsimp only
  unfold keepsHealthy at hevent
  split
  · rename_i hconnected
    exact h.push rfl fun connected heq => (ConnectCall.resolved.inj heq) ▸ hconnected
  · rename_i hconnected
    simp only [hconnected, Bool.false_or] at hevent
    split
    · rename_i attempt hconnecting hpromise
      simp only [hconnecting, hpromise] at hevent
      exact await (t := { t with reconnectTimers := timers, reconnectTimeout := none }) h
        (of_decide_eq_true hevent)
    · have hstart : ({ t with
          reconnectTimers := timers
          reconnectTimeout := none
          shouldReconnect := config.reconnect } : WebSocketTransport).ResolvesConnected := h
      have hdone : ({ ({ t with
          reconnectTimers := timers
          reconnectTimeout := none
          shouldReconnect := config.reconnect } : WebSocketTransport).doConnect config false throws
          with connectionPromise := some t.attempts.length } :
        WebSocketTransport).ResolvesConnected := hstart.doConnect
      exact hdone.await promiseOf_doConnect

theorem scheduleReconnect (h : t.ResolvesConnected) :
    (t.scheduleReconnect config).ResolvesConnected := by
  unfold WebSocketTransport.scheduleReconnect
  split
  · exact h
  · split
    · exact h
    · exact h

theorem onclose (h : t.ResolvesConnected) : (t.onclose config i).ResolvesConnected := by
  unfold WebSocketTransport.onclose
  dsimp only
  split
  · split
    · exact scheduleReconnect h
    · exact h
  · split
    · exact scheduleReconnect h
    · exact h

theorem onTimeout (h : t.ResolvesConnected) : (t.onTimeout i).ResolvesConnected := by
  unfold WebSocketTransport.onTimeout
  dsimp only
  split
  · refine reject ?_
    exact h
  · refine reject ?_
    exact h

theorem onerror (h : t.ResolvesConnected) : (t.onerror i).ResolvesConnected := by
  unfold WebSocketTransport.onerror
  dsimp only
  split
  · refine reject ?_
    exact h
  · exact h

theorem disconnect (h : t.ResolvesConnected) : t.disconnect.ResolvesConnected := by
  obtain ⟨timers, heq⟩ := clearReconnectTimeout_eq { t with shouldReconnect := false }
  unfold WebSocketTransport.disconnect
  rw [heq]
  dsimp only
  split
  · split
    · exact h
    · exact h
  · split
    · exact h
    · exact h

theorem step (h : t.ResolvesConnected) {event : WebSocketEvent}
    (hevent : t.keepsHealthy event = true) (hstep : t.step config event = .ok t') :
    t'.ResolvesConnected := by
  cases event with
  | connect throws =>
    cases hstep
    exact h.connect hevent
  | disconnect =>
    cases hstep
    exact h.disconnect
  | opens attempt =>
    simp only [WebSocketTransport.step] at hstep
    obtain ⟨socket, -, -, rfl⟩ := socketEvent_eq_ok hstep
    split
    · exact resolve h rfl
    · exact h
  | closes attempt =>
    simp only [WebSocketTransport.step] at hstep
    obtain ⟨socket, -, -, rfl⟩ := socketEvent_eq_ok hstep
    split
    · exact onclose h
    · exact h
  | fails attempt =>
    simp only [WebSocketTransport.step] at hstep
    obtain ⟨socket, -, -, rfl⟩ := socketEvent_eq_ok hstep
    split
    · exact onerror h
    · exact h
  | timesOut attempt =>
    simp only [WebSocketTransport.step] at hstep
    split at hstep
    · cases hstep
    · cases hstep
      exact h.onTimeout
  | reconnectFires timer throws =>
    simp only [WebSocketTransport.step] at hstep
    split at hstep
    · cases hstep
    · cases hstep
      refine doConnect ?_
      exact h

end ResolvesConnected

/-! ## Runs -/

variable {steps : List (WebSocketTransport × WebSocketEvent)}

end WebSocketTransport

end N8n
