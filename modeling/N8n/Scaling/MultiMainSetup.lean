import Mathlib.Logic.Function.Basic
import N8n.Lib.Run

/-!
# Leader election in a multi-main setup

The leader is the instance whose id the leader key in Redis has. A leader renews the key's time
to live, a follower tries to set it when it is absent, and an instance that shuts down as leader
deletes it. Each command takes effect in one step, any time after it was sent : its sender may
have got its reply, may have given it up, and a connection may send it again. What an instance
does from one reply to the next is one step as well.

Commands and the functions that wait for them are numbered as they come. `lastClaim` and
`cleared` record when an instance set or renewed the key last and whether it has deleted it
since.
-/

open Lib

namespace N8n

/-! ## The leader key -/

inductive TtlRenewalResult (I : Type) where
  | keyMissing
  | otherHostIsLeader (currentLeaderId : I)
  | success
  deriving DecidableEq, Repr

/-- The commands of the client. -/
inductive LeaderCommand where
  | getLeader
  | setLeaderIfNotExists
  | tryRenewLeaderTtl
  | clearLeader
  deriving DecidableEq, Repr

inductive LeaderReply (I : Type) where
  | leader (leaderId : Option I)
  | set (ok : Bool)
  | renewal (result : TtlRenewalResult I)
  | cleared
  deriving DecidableEq, Repr

/-- The key has the id of an instance and the time it expires. -/
structure LeaderElection (I : Type) where
  now : ℕ := 0
  leaderKey : Option (I × ℕ) := none
  lastClaim : I → Option ℕ := fun _ => none
  cleared : I → Bool := fun _ => false

namespace LeaderElection

variable {I : Type} [DecidableEq I] (ttl : ℕ) (election : LeaderElection I)

omit [DecidableEq I] in
/-- The key, unless it has expired. -/
def get : Option I :=
  match election.leaderKey with
  | some (leaderId, expiresAt) => if election.now < expiresAt then some leaderId else none
  | none => none

/-- The key is set, or its time to live extended. -/
def claim (hostId : I) : LeaderElection I :=
  { election with
    leaderKey := some (hostId, election.now + ttl)
    lastClaim := Function.update election.lastClaim hostId (some election.now)
    cleared := Function.update election.cleared hostId false }

def clear (hostId : I) : LeaderElection I :=
  { election with leaderKey := none, cleared := Function.update election.cleared hostId true }

def execute (hostId : I) : LeaderCommand → LeaderElection I × LeaderReply I
  | .getLeader => (election, .leader election.get)
  | .setLeaderIfNotExists =>
    match election.get with
    | some _ => (election, .set false)
    | none => (election.claim ttl hostId, .set true)
  | .tryRenewLeaderTtl =>
    match election.get with
    | none => (election, .renewal .keyMissing)
    | some currentValue =>
      if currentValue ≠ hostId then (election, .renewal (.otherHostIsLeader currentValue))
      else (election.claim ttl hostId, .renewal .success)
  | .clearLeader => (election.clear hostId, .cleared)

/-- The last claim or renewal is younger than the time to live. -/
def Fresh (hostId : I) : Prop := ∃ t, election.lastClaim hostId = some t ∧ election.now < t + ttl

end LeaderElection

/-! ## Instances -/

structure MainInstance where
  isLeader : Bool := false
  started : Bool := false
  leaderCheckInterval : Bool := false
  leaderCheckInProgress : Bool := false
  deriving DecidableEq, Repr

/-- A command that was sent, with the reply of its last execution. -/
structure SentCommand (I : Type) where
  hostId : I
  command : LeaderCommand
  reply : Option (LeaderReply I) := none
  deriving DecidableEq, Repr

/-- What waits for the reply of a command. -/
inductive LeaderTask where
  | init
  | checkAreWeStillLeader
  /-- The key was missing, and is set again. -/
  | reclaim
  | checkCanBecomeLeader
  /-- The leadership was vacant. -/
  | claim
  | shutdown
  | returned
  deriving DecidableEq, Repr

structure WaitingTask (I : Type) where
  hostId : I
  task : LeaderTask
  command : ℕ
  deriving DecidableEq, Repr

structure MultiMainSetup (I : Type) where
  election : LeaderElection I := {}
  instances : I → MainInstance := fun _ => {}
  commands : List (SentCommand I) := []
  tasks : List (WaitingTask I) := []

inductive MultiMainEvent (I : Type) where
  | init (hostId : I)
  | checkLeader (hostId : I)
  | shutdown (hostId : I)
  | elapse (time : ℕ)
  /-- The command takes effect, maybe not for the first time. -/
  | execute (command : ℕ)
  /-- The task goes on with the reply of its command, or with its failure. -/
  | settle (task : ℕ) (fails : Bool)
  deriving DecidableEq, Repr

namespace MultiMainSetup

variable {I : Type} [DecidableEq I] (ttl : ℕ) (s : MultiMainSetup I)

def updateInstance (hostId : I) (f : MainInstance → MainInstance) : MultiMainSetup I :=
  { s with instances := Function.update s.instances hostId (f (s.instances hostId)) }

omit [DecidableEq I] in
/-- A command is sent, for a new task. -/
def send (hostId : I) (command : LeaderCommand) (task : LeaderTask) : MultiMainSetup I :=
  { s with
    commands := s.commands ++ [{ hostId, command }]
    tasks := s.tasks ++ [{ hostId, task, command := s.commands.length }] }

omit [DecidableEq I] in
/-- The task sends a command and waits for it. -/
def resend (index : ℕ) (hostId : I) (command : LeaderCommand) (task : LeaderTask) :
    MultiMainSetup I :=
  { s with
    commands := s.commands ++ [{ hostId, command }]
    tasks := s.tasks.set index { hostId, task, command := s.commands.length } }

omit [DecidableEq I] in
def endTask (index : ℕ) : MultiMainSetup I :=
  { s with tasks := s.tasks.modify index fun t => { t with task := .returned } }

/-- It throws when the instance is leader already. -/
def takeOverAsLeader (hostId : I) : MultiMainSetup I :=
  s.updateInstance hostId fun i => { i with isLeader := true }

/-- It throws when the instance is a follower already. -/
def stepDownToFollower (hostId : I) : MultiMainSetup I :=
  s.updateInstance hostId fun i => { i with isLeader := false }

/-- The `finally` of `checkLeader`. -/
def endCheck (index : ℕ) (hostId : I) : MultiMainSetup I :=
  (s.updateInstance hostId fun i => { i with leaderCheckInProgress := false }).endTask index

/-- The rest of `init` after the leader key was set or not. An assertion that fails leaves out the
interval. -/
def continueInit (index : ℕ) (hostId : I) (reply : Option (LeaderReply I)) : MultiMainSetup I :=
  match reply with
  | some (.set true) =>
    if (s.instances hostId).isLeader then s.endTask index
    else ((s.takeOverAsLeader hostId).updateInstance hostId
      fun i => { i with leaderCheckInterval := true }).endTask index
  | _ =>
    (s.updateInstance hostId
      fun i => { i with isLeader := false, leaderCheckInterval := true }).endTask index

/-- What a task does with its reply, if it gets one. -/
def continueTask (index : ℕ) (t : WaitingTask I) (reply : Option (LeaderReply I)) :
    MultiMainSetup I :=
  match t.task, reply with
  | .init, reply => s.continueInit index t.hostId reply
  | .checkAreWeStillLeader, some (.renewal (.otherHostIsLeader _)) =>
    (s.stepDownToFollower t.hostId).endCheck index t.hostId
  | .checkAreWeStillLeader, some (.renewal .keyMissing) =>
    s.resend index t.hostId .setLeaderIfNotExists .reclaim
  | .checkAreWeStillLeader, _ => s.endCheck index t.hostId
  | .reclaim, some (.set true) => s.endCheck index t.hostId
  | .reclaim, _ => (s.stepDownToFollower t.hostId).endCheck index t.hostId
  | .checkCanBecomeLeader, some (.leader (some leaderId)) =>
    if leaderId = t.hostId then (s.takeOverAsLeader t.hostId).endCheck index t.hostId
    else s.endCheck index t.hostId
  | .checkCanBecomeLeader, some (.leader none) =>
    s.resend index t.hostId .setLeaderIfNotExists .claim
  | .checkCanBecomeLeader, _ => s.endCheck index t.hostId
  | .claim, some (.set true) => (s.takeOverAsLeader t.hostId).endCheck index t.hostId
  | .claim, _ => s.endCheck index t.hostId
  | .shutdown, _ => s.endTask index
  | .returned, _ => s

/-- An event that cannot happen is an error. -/
def step : MultiMainEvent I → Except Unit (MultiMainSetup I)
  | .init hostId =>
    if (s.instances hostId).started then .error ()
    else .ok ((s.updateInstance hostId fun i => { i with started := true }).send hostId
      .setLeaderIfNotExists .init)
  | .checkLeader hostId =>
    if !(s.instances hostId).leaderCheckInterval then .error ()
    else if (s.instances hostId).leaderCheckInProgress then .ok s
    else
      let checking := s.updateInstance hostId fun i => { i with leaderCheckInProgress := true }
      .ok (if (s.instances hostId).isLeader then
        checking.send hostId .tryRenewLeaderTtl .checkAreWeStillLeader
      else checking.send hostId .getLeader .checkCanBecomeLeader)
  | .shutdown hostId =>
    let stopped := s.updateInstance hostId fun i => { i with leaderCheckInterval := false }
    .ok (if (s.instances hostId).isLeader then stopped.send hostId .clearLeader .shutdown
      else stopped)
  | .elapse time => .ok { s with election := { s.election with now := s.election.now + time } }
  | .execute command =>
    match s.commands[command]? with
    | none => .error ()
    | some c =>
      let (election, reply) := s.election.execute ttl c.hostId c.command
      .ok { s with election, commands := s.commands.set command { c with reply := some reply } }
  | .settle index fails =>
    match s.tasks[index]? with
    | none => .error ()
    | some t =>
      if t.task = .returned then .error ()
      else if fails then .ok (s.continueTask index t none)
      else
        match (s.commands[t.command]?).bind SentCommand.reply with
        | none => .error ()
        | some reply => .ok (s.continueTask index t (some reply))

/-! ## Leadership -/

omit [DecidableEq I] in
/-- The command that takes effect in the step is sent by the instance. -/
def ExecutedBy (event : MultiMainEvent I) (hostId : I) : Prop :=
  ∃ index c, event = .execute index ∧ s.commands[index]? = some c ∧ c.hostId = hostId

omit [DecidableEq I] in
/-- A key that has not expired changes only by commands of the instance that holds it. -/
def KeepsLeaderKey (event : MultiMainEvent I) (next : MultiMainSetup I) : Prop :=
  ∀ leaderId, s.election.get = some leaderId → ¬s.ExecutedBy event leaderId →
    next.election.leaderKey = s.election.leaderKey

omit [DecidableEq I] in
/-- At most one of the instances with a fresh claim considers itself leader. -/
def ExclusiveLeader : Prop :=
  ∀ i j, (s.instances i).isLeader = true → (s.instances j).isLeader = true →
    s.election.Fresh ttl i → s.election.Fresh ttl j → i = j

omit [DecidableEq I] in
/-- The same among the instances that have not deleted the key since. -/
def ExclusiveHolder : Prop :=
  ∀ i j, (s.instances i).isLeader = true → (s.instances j).isLeader = true →
    s.election.Fresh ttl i → s.election.Fresh ttl j →
    s.election.cleared i = false → s.election.cleared j = false → i = j

/-- The key is not deleted while it holds the id of another instance. -/
def clearsOwn (event : MultiMainEvent I) : Bool :=
  match event with
  | .execute index =>
    match s.commands[index]? with
    | some c => c.command ≠ .clearLeader || s.election.get = none || s.election.get = some c.hostId
    | none => true
  | _ => true

omit [DecidableEq I] in
/-- The absent key is set when the claims of the other instances that have deleted it are as old
as the time to live. -/
def SetsLate (event : MultiMainEvent I) : Prop :=
  ∀ index c, event = .execute index → s.commands[index]? = some c →
    c.command = .setLeaderIfNotExists → s.election.get = none →
      ∀ i, i ≠ c.hostId → s.election.cleared i = true → ¬s.election.Fresh ttl i

end MultiMainSetup

end N8n
