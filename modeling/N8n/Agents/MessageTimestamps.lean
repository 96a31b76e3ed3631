import Mathlib.Data.Int.ConditionallyCompleteOrder
import Mathlib.Data.List.Induction
import Mathlib.Data.List.Sort
import Mathlib.Data.Rat.Floor
import Mathlib.Order.WithBot

/-!
# The times of the messages of an agent

The message list gives each live message a `createdAt` after those of all messages it has, by a
clock that every message moves on. `seedLastCreatedAt` moves the clock too, but after each batch the
list sets it to the latest time of its messages. A batch that adds no live message so turns the clock
back to before the seed, and the next live message may be dated before it (`not_datesLater_turnedBackCalls`).

If no batch turns the clock back and no time leaves the range of dates, each live message comes later
than all that was there and all that was seeded (`datesLater_of_keepsClock`). The list is sorted in
any case.
-/

namespace N8n

inductive MessageSource where
  | history | input | response
  deriving DecidableEq, Repr

/-- A message to be added. `id` is its own, or a random one, `createdAt` what `getCreatedAt` finds
and `now` the time when it is added. -/
structure NewMessage where
  id : String
  createdAt : Option ℤ := none
  now : ℤ
  deriving DecidableEq, Repr

/-- A message of the list, and the set it is in. An invalid date is `none`. -/
structure TimedMessage where
  id : String
  createdAt : Option ℤ
  source : MessageSource
  deriving DecidableEq, Repr

structure TimedMessageList where
  all : List TimedMessage := []
  lastCreatedAt : ℚ := 0
  deriving DecidableEq, Repr

/-- The last time that a date can have. -/
def MAX_TIME : ℤ := 8640000000000000

/-- `new Date(ts)`, of which the fraction is cut off. -/
def newDate (ts : ℚ) : Option ℤ :=
  if |ts| ≤ MAX_TIME then some (if 0 ≤ ts then ⌊ts⌋ else ⌈ts⌉) else none

/-- The time a live message asks for. -/
def NewMessage.hint (message : NewMessage) : ℤ := message.createdAt.getD message.now

/-- The message gets its time from the clock. -/
def NewMessage.isLive (source : MessageSource) (message : NewMessage) : Bool :=
  ¬(message.createdAt.isSome ∧ source = .history)

namespace TimedMessageList

def addMessage (source : MessageSource) (list : TimedMessageList) (message : NewMessage) :
    TimedMessageList :=
  if message.isLive source then
    let ts := max (message.hint : ℚ) (list.lastCreatedAt + 1)
    { all := list.all ++ [⟨message.id, newDate ts, source⟩], lastCreatedAt := ts }
  else
    { all := list.all ++ [⟨message.id, message.createdAt, source⟩]
      lastCreatedAt := max list.lastCreatedAt message.hint }

def createdAtSortKey (m : TimedMessage) : WithTop ℤ := m.createdAt

/-- The comparison gives no positive number. -/
def sortsBefore (localeCompare : String → String → ℤ) (a b : TimedMessage) : Prop :=
  if createdAtSortKey a ≠ createdAtSortKey b then createdAtSortKey a < createdAtSortKey b
  else localeCompare a.id b.id ≤ 0

instance (localeCompare : String → String → ℤ) :
    DecidableRel (sortsBefore localeCompare) := fun a b =>
  have : Decidable (createdAtSortKey a < createdAtSortKey b) :=
    @WithTop.decidableLT ℤ Int.instLTInt Int.decLt _ _
  inferInstanceAs (Decidable (ite _ _ _))

/-- The latest time of the messages. -/
def latest (messages : List TimedMessage) : ℤ :=
  (messages.filterMap (·.createdAt)).foldl max 0

def sortAllByCreatedAt (localeCompare : String → String → ℤ) (list : TimedMessageList) :
    TimedMessageList :=
  let all := list.all.insertionSort (sortsBefore localeCompare)
  { all, lastCreatedAt := latest all }

/-- The seed is a finite number. -/
def seedLastCreatedAt (list : TimedMessageList) (timestamp : ℚ) : TimedMessageList :=
  if timestamp > list.lastCreatedAt then { list with lastCreatedAt := timestamp } else list

section Batches

variable (localeCompare : String → String → ℤ)

def addBatch (source : MessageSource) (list : TimedMessageList) (messages : List NewMessage) :
    TimedMessageList :=
  (messages.foldl (addMessage source) list).sortAllByCreatedAt localeCompare

def addHistory := addBatch localeCompare .history

def addInput := addBatch localeCompare .input

def addResponse := addBatch localeCompare .response

end Batches
end TimedMessageList

/-- A call on the list. -/
inductive MessageCall where
  | addHistory (messages : List NewMessage)
  | addInput (messages : List NewMessage)
  | addResponse (messages : List NewMessage)
  | seedLastCreatedAt (timestamp : ℚ)

namespace MessageCall

variable (localeCompare : String → String → ℤ)

def apply (list : TimedMessageList) : MessageCall → TimedMessageList
  | addHistory messages => list.addHistory localeCompare messages
  | addInput messages => list.addInput localeCompare messages
  | addResponse messages => list.addResponse localeCompare messages
  | seedLastCreatedAt timestamp => list.seedLastCreatedAt timestamp

def applyAll (calls : List MessageCall) : TimedMessageList := calls.foldl (apply localeCompare) {}

/-- The messages that the call adds, with their source. -/
def batch : MessageCall → Option (MessageSource × List NewMessage)
  | addHistory messages => some (.history, messages)
  | addInput messages => some (.input, messages)
  | addResponse messages => some (.response, messages)
  | seedLastCreatedAt _ => none

def seed : MessageCall → Option ℚ
  | seedLastCreatedAt timestamp => some timestamp
  | _ => none

end MessageCall

/-! ## Later than all before -/

/-- The message gets a date after those of all messages of the list and after all seeds. -/
def AddsLater (seeds : List ℚ) (source : MessageSource) (list : TimedMessageList)
    (message : NewMessage) : Prop :=
  ∃ t : ℤ, (list.addMessage source message).all = list.all ++ [⟨message.id, some t, source⟩] ∧
    (∀ m ∈ list.all, ∃ t', m.createdAt = some t' ∧ t' < t) ∧ ∀ seed ∈ seeds, seed < t

/-- In a sequence of calls each live message is added later than all before it, and the list is
sorted after each call. -/
def DatesLater (localeCompare : String → String → ℤ) (calls : List MessageCall) : Prop :=
  ∀ before call after, calls = before ++ call :: after →
    (∀ source messages, call.batch = some (source, messages) → source ≠ .history →
      ∀ done message rest, messages = done ++ message :: rest →
        AddsLater (before.filterMap (·.seed)) source
          (done.foldl (TimedMessageList.addMessage source)
            (MessageCall.applyAll localeCompare before)) message) ∧
      (call.apply localeCompare (MessageCall.applyAll localeCompare before)).all.Pairwise
        fun a b => TimedMessageList.createdAtSortKey a ≤ TimedMessageList.createdAtSortKey b

/-- The batch does not turn the clock back, and leaves the range of dates with no message. -/
structure KeepsClock (source : MessageSource) (list : TimedMessageList)
    (messages : List NewMessage) : Prop where
  clock : (∀ message ∈ messages, message.isLive source = false) →
    list.lastCreatedAt ≤ 0 ∨ (∃ m ∈ list.all, ∃ t, m.createdAt = some t ∧ list.lastCreatedAt ≤ t) ∨
      ∃ message ∈ messages, list.lastCreatedAt ≤ message.hint
  last : (∃ message ∈ messages, message.isLive source = true) →
    list.lastCreatedAt + messages.countP (·.isLive source) ≤ MAX_TIME
  hints : ∀ done message rest, messages = done ++ message :: rest →
    (∃ live ∈ message :: rest, live.isLive source = true) →
      message.hint + rest.countP (·.isLive source) ≤ MAX_TIME

/-! ## The clock -/

namespace TimedMessageList

/-- The clock is not behind the messages and the seeds. -/
structure Clock (seeds : List ℚ) (list : TimedMessageList) : Prop where
  nonneg : 0 ≤ list.lastCreatedAt
  dated : ∀ m ∈ list.all, ∃ t : ℤ, m.createdAt = some t ∧ (t : ℚ) ≤ list.lastCreatedAt
  seeds : ∀ seed ∈ seeds, seed ≤ list.lastCreatedAt

variable {seeds : List ℚ} {source : MessageSource} {list : TimedMessageList} {message : NewMessage}
  {messages : List NewMessage} {localeCompare : String → String → ℤ}

theorem newDate_of_nonneg {ts : ℚ} (hts : 0 ≤ ts) (hmax : ts ≤ MAX_TIME) :
    newDate ts = some ⌊ts⌋ := by
  rw [newDate, abs_of_nonneg hts, if_pos hmax, if_pos hts]

theorem addMessage_of_isLive (h : message.isLive source = true) :
    list.addMessage source message =
      { all := list.all ++
          [⟨message.id, newDate (max (message.hint : ℚ) (list.lastCreatedAt + 1)), source⟩]
        lastCreatedAt := max (message.hint : ℚ) (list.lastCreatedAt + 1) } := by
  rw [addMessage, if_pos h]

theorem addMessage_of_not_isLive (h : ¬message.isLive source = true) :
    list.addMessage source message =
      { all := list.all ++ [⟨message.id, some message.hint, source⟩]
        lastCreatedAt := max list.lastCreatedAt message.hint } := by
  have hsome : message.createdAt.isSome = true := by
    rw [NewMessage.isLive, decide_eq_true_iff, not_not] at h
    exact h.1
  obtain ⟨t, ht⟩ := Option.isSome_iff_exists.mp hsome
  rw [addMessage, if_neg h, NewMessage.hint, ht, Option.getD_some]

/-- A message that stays in the range of dates keeps the clock, and a live one is dated after it. -/
theorem Clock.addMessage (source : MessageSource) (message : NewMessage) (h : list.Clock seeds)
    (hmax : message.isLive source = true →
      (message.hint : ℚ) ≤ MAX_TIME ∧ list.lastCreatedAt + 1 ≤ MAX_TIME) :
    (list.addMessage source message).Clock seeds ∧
      (message.isLive source = true → AddsLater seeds source list message) := by
  by_cases hlive : message.isLive source = true
  · obtain ⟨hhint, hlast⟩ := hmax hlive
    have hpos : (0 : ℚ) ≤ max (message.hint : ℚ) (list.lastCreatedAt + 1) :=
      le_max_of_le_right (add_nonneg h.nonneg zero_le_one)
    have hdate := newDate_of_nonneg hpos (max_le hhint hlast)
    have hlater : list.lastCreatedAt < ⌊max (message.hint : ℚ) (list.lastCreatedAt + 1)⌋ := by
      have hfloor := Int.floor_le_floor (le_max_right (message.hint : ℚ) (list.lastCreatedAt + 1))
      rw [Int.floor_add_one] at hfloor
      exact (Int.lt_floor_add_one _).trans_le (by exact_mod_cast hfloor)
    have hle : list.lastCreatedAt ≤ max (message.hint : ℚ) (list.lastCreatedAt + 1) :=
      le_max_of_le_right (le_add_of_nonneg_right zero_le_one)
    rw [addMessage_of_isLive hlive, hdate]
    refine ⟨⟨hpos, ?_, fun seed hseed => (h.seeds seed hseed).trans hle⟩, fun _ => ?_⟩
    · intro m hm
      rcases List.mem_append.mp hm with hm | hm
      · obtain ⟨t, ht, hlt⟩ := h.dated m hm
        exact ⟨t, ht, hlt.trans hle⟩
      · rw [List.mem_singleton.mp hm]
        exact ⟨_, rfl, Int.floor_le _⟩
    · refine ⟨_, by rw [addMessage_of_isLive hlive, hdate], fun m hm => ?_, fun seed hseed => ?_⟩
      · obtain ⟨t, ht, hlt⟩ := h.dated m hm
        exact ⟨t, ht, by exact_mod_cast hlt.trans_lt hlater⟩
      · exact (h.seeds seed hseed).trans_lt hlater
  · rw [addMessage_of_not_isLive hlive]
    have hle := le_max_left list.lastCreatedAt (message.hint : ℚ)
    refine ⟨⟨h.nonneg.trans hle, ?_, fun seed hseed => (h.seeds seed hseed).trans hle⟩,
      fun h => absurd h hlive⟩
    intro m hm
    rcases List.mem_append.mp hm with hm | hm
    · obtain ⟨t, ht, hlt⟩ := h.dated m hm
      exact ⟨t, ht, hlt.trans hle⟩
    · rw [List.mem_singleton.mp hm]
      exact ⟨message.hint, rfl, le_max_right _ _⟩

theorem lastCreatedAt_addMessage_le {n : ℕ}
    (hhint : (message.hint : ℚ) + n ≤ MAX_TIME)
    (hlast : list.lastCreatedAt + (if message.isLive source then 1 else 0) + n ≤ MAX_TIME) :
    (list.addMessage source message).lastCreatedAt + n ≤ MAX_TIME := by
  by_cases hlive : message.isLive source = true
  · rw [if_pos hlive] at hlast
    rw [addMessage_of_isLive hlive]
    dsimp only
    rw [max_add]
    exact max_le hhint hlast
  · rw [if_neg hlive, add_zero] at hlast
    rw [addMessage_of_not_isLive hlive]
    dsimp only
    rw [max_add]
    exact max_le hlast hhint

/-- The loop over a batch that stays in the range of dates. -/
theorem Clock.foldl (h : list.Clock seeds)
    (hlast : (∃ message ∈ messages, message.isLive source = true) →
      list.lastCreatedAt + messages.countP (·.isLive source) ≤ MAX_TIME)
    (hhints : ∀ done message rest, messages = done ++ message :: rest →
      (∃ live ∈ message :: rest, live.isLive source = true) →
        message.hint + rest.countP (·.isLive source) ≤ MAX_TIME) :
    (messages.foldl (TimedMessageList.addMessage source) list).Clock seeds ∧
      ∀ done message rest, messages = done ++ message :: rest → message.isLive source = true →
        AddsLater seeds source (done.foldl (TimedMessageList.addMessage source) list) message := by
  induction messages generalizing list with
  | nil => exact ⟨h, fun done message rest hnil => absurd hnil (by simp)⟩
  | cons message messages ih =>
    have hfirst : message.isLive source = true ∨ (∃ live ∈ messages, live.isLive source = true) →
        (message.hint : ℚ) + messages.countP (·.isLive source) ≤ MAX_TIME := fun hlive => by
      exact_mod_cast hhints [] message messages rfl ((List.exists_mem_cons_iff ..).mpr hlive)
    rw [List.exists_mem_cons_iff, List.countP_cons] at hlast
    push_cast at hlast
    have hcount : (0 : ℚ) ≤ messages.countP (·.isLive source) := Nat.cast_nonneg _
    obtain ⟨hclock, hlater⟩ := h.addMessage source message fun hlive => by
      have hsum := hlast (.inl hlive)
      rw [if_pos hlive] at hsum
      exact ⟨by linarith [hfirst (.inl hlive)], by linarith⟩
    obtain ⟨hclock', hlater'⟩ := ih hclock
      (fun hlive => lastCreatedAt_addMessage_le (hfirst (.inr hlive))
        (by linarith [hlast (.inr hlive)]))
      fun done next rest hsplit => hhints (message :: done) next rest (by rw [hsplit]; rfl)
    refine ⟨hclock', fun done next rest hsplit hlive => ?_⟩
    cases done with
    | nil =>
      obtain ⟨rfl, rfl⟩ := List.cons.inj hsplit
      exact hlater hlive
    | cons first done =>
      obtain ⟨rfl, hrest⟩ := List.cons.inj hsplit
      exact hlater' done next rest hrest hlive

/-! ## Sorting -/

theorem le_foldl_max {ts : List ℤ} {a : ℤ} : a ≤ ts.foldl max a ∧ ∀ t ∈ ts, t ≤ ts.foldl max a := by
  induction ts generalizing a with
  | nil => exact ⟨le_rfl, nofun⟩
  | cons t ts ih =>
    obtain ⟨hstart, hmem⟩ := ih (a := max a t)
    refine ⟨(le_max_left a t).trans hstart, List.forall_mem_cons.mpr ⟨?_, hmem⟩⟩
    exact (le_max_right a t).trans hstart

theorem le_latest {all : List TimedMessage} {m : TimedMessage} {t : ℤ} (hm : m ∈ all)
    (ht : m.createdAt = some t) : t ≤ latest all :=
  le_foldl_max.2 t (List.mem_filterMap.mpr ⟨m, hm, ht⟩)

theorem sortsBefore_le {a b : TimedMessage} :
    (sortsBefore localeCompare a b → createdAtSortKey a ≤ createdAtSortKey b) ∧
      (¬sortsBefore localeCompare a b → createdAtSortKey b ≤ createdAtSortKey a) := by
  rw [sortsBefore]
  by_cases hne : createdAtSortKey a ≠ createdAtSortKey b
  · rw [if_pos hne]
    exact ⟨le_of_lt, le_of_not_gt⟩
  · rw [not_not.mp hne]
    exact ⟨fun _ => le_rfl, fun _ => le_rfl⟩

/-- Sorting by a comparison puts the keys in order, whatever it does about equal keys. -/
theorem pairwise_orderedInsert (m : TimedMessage) {all : List TimedMessage}
    (h : all.Pairwise fun a b => createdAtSortKey a ≤ createdAtSortKey b) :
    (all.orderedInsert (sortsBefore localeCompare) m).Pairwise
      fun a b => createdAtSortKey a ≤ createdAtSortKey b := by
  induction h with
  | nil => exact List.pairwise_singleton _ _
  | @cons first rest hfirst hrest ih =>
    rw [List.orderedInsert_cons]
    by_cases hbefore : sortsBefore localeCompare m first
    · rw [if_pos hbefore]
      have hle := sortsBefore_le.1 hbefore
      refine List.pairwise_cons.mpr ⟨List.forall_mem_cons.mpr ⟨hle, fun b hb => ?_⟩,
        List.pairwise_cons.mpr ⟨hfirst, hrest⟩⟩
      exact hle.trans (hfirst b hb)
    · rw [if_neg hbefore]
      refine List.pairwise_cons.mpr ⟨fun b hb => ?_, ih⟩
      rcases (List.mem_orderedInsert _).mp hb with rfl | hb
      · exact sortsBefore_le.2 hbefore
      · exact hfirst b hb

theorem sorted_insertionSort (all : List TimedMessage) :
    (all.insertionSort (sortsBefore localeCompare)).Pairwise
      fun a b => createdAtSortKey a ≤ createdAtSortKey b := by
  induction all with
  | nil => exact .nil
  | cons m all ih =>
    rw [List.insertionSort_cons]
    exact pairwise_orderedInsert m ih

/-- Sorting keeps the clock if no seed is after all messages. -/
theorem Clock.sort (h : list.Clock seeds)
    (hseeds : ∀ seed ∈ seeds, seed ≤ 0 ∨ ∃ m ∈ list.all, ∃ t, m.createdAt = some t ∧ seed ≤ t) :
    (list.sortAllByCreatedAt localeCompare).Clock seeds := by
  have hmem : ∀ m, m ∈ list.all.insertionSort (sortsBefore localeCompare) ↔ m ∈ list.all :=
    fun m => (List.perm_insertionSort _ _).mem_iff
  have hle : ∀ {m t}, m ∈ list.all → m.createdAt = some t →
      (t : ℚ) ≤ (list.sortAllByCreatedAt localeCompare).lastCreatedAt := fun {m t} hm ht =>
    Int.cast_le.mpr (le_latest ((hmem m).mpr hm) ht)
  have hnonneg : 0 ≤ (list.sortAllByCreatedAt localeCompare).lastCreatedAt :=
    Int.cast_nonneg le_foldl_max.1
  refine ⟨hnonneg, fun m hm => ?_, fun seed hseed => ?_⟩
  · obtain ⟨t, ht, -⟩ := h.dated m ((hmem m).mp hm)
    exact ⟨t, ht, hle ((hmem m).mp hm) ht⟩
  · rcases hseeds seed hseed with hzero | ⟨m, hm, t, ht, hlt⟩
    · exact hzero.trans hnonneg
    · exact hlt.trans (hle hm ht)

/-! ## Calls -/

theorem all_prefix_foldl (messages : List NewMessage) (list : TimedMessageList) :
    list.all <+: (messages.foldl (TimedMessageList.addMessage source) list).all := by
  induction messages generalizing list with
  | nil => exact List.prefix_rfl
  | cons message messages ih =>
    refine List.IsPrefix.trans ?_ (ih (list.addMessage source message))
    rw [TimedMessageList.addMessage]
    split <;> exact List.prefix_append _ _

theorem addMessage_all_prefix (source : MessageSource) (list : TimedMessageList)
    {done rest : List NewMessage} (h : messages = done ++ message :: rest) :
    ((done.foldl (TimedMessageList.addMessage source) list).addMessage source message).all <+:
      (messages.foldl (TimedMessageList.addMessage source) list).all := by
  rw [h, List.foldl_append, List.foldl_cons]
  exact all_prefix_foldl rest _

/-- A batch that keeps the clock keeps it after sorting, and adds its live messages later. -/
theorem Clock.addBatch (localeCompare : String → String → ℤ) (h : list.Clock seeds)
    (hkeeps : KeepsClock source list messages) :
    (list.addBatch localeCompare source messages).Clock seeds ∧
      ∀ done message rest, messages = done ++ message :: rest → message.isLive source = true →
        AddsLater seeds source (done.foldl (TimedMessageList.addMessage source) list) message := by
  obtain ⟨hclock, hlater⟩ := h.foldl hkeeps.last hkeeps.hints
  refine ⟨hclock.sort fun seed hseed => ?_, hlater⟩
  by_cases hlive : ∃ message ∈ messages, message.isLive source = true
  · obtain ⟨message, hmessage, hlive⟩ := hlive
    obtain ⟨done, rest, hsplit⟩ := List.append_of_mem hmessage
    obtain ⟨t, hall, -, hseeds⟩ := hlater done message rest hsplit hlive
    have hprefix := addMessage_all_prefix source list hsplit
    rw [hall] at hprefix
    exact .inr ⟨_, hprefix.subset (List.mem_append_right _ (List.mem_singleton_self _)), t, rfl,
      (hseeds seed hseed).le⟩
  · have hle := h.seeds seed hseed
    have hnone : ∀ message ∈ messages, message.isLive source = false := fun message hmessage =>
      Bool.eq_false_iff.mpr fun hmem => hlive ⟨message, hmessage, hmem⟩
    rcases hkeeps.clock hnone with hzero | ⟨m, hm, t, ht, hlt⟩ | ⟨message, hmessage, hlt⟩
    · exact .inl (hle.trans hzero)
    · exact .inr ⟨m, (all_prefix_foldl messages list).subset hm, t, ht, hle.trans hlt⟩
    · obtain ⟨done, rest, hsplit⟩ := List.append_of_mem hmessage
      have hprefix := addMessage_all_prefix source list hsplit
      rw [addMessage_of_not_isLive (by simp [hnone message hmessage])] at hprefix
      exact .inr ⟨_, hprefix.subset (List.mem_append_right _ (List.mem_singleton_self _)),
        message.hint, rfl, hle.trans hlt⟩

end TimedMessageList

namespace MessageCall

variable {localeCompare : String → String → ℤ} {list : TimedMessageList} {seeds : List ℚ}
  {calls : List MessageCall}

theorem apply_eq_addBatch {call : MessageCall} {source : MessageSource} {messages : List NewMessage}
    (h : call.batch = some (source, messages)) :
    call.apply localeCompare list = list.addBatch localeCompare source messages := by
  cases call <;> simp only [batch, Option.some.injEq, Prod.mk.injEq, reduceCtorEq] at h <;>
    obtain ⟨rfl, rfl⟩ := h <;> rfl

/-- A call has a batch or a seed. -/
theorem batch_or_seed (call : MessageCall) :
    (∃ source messages, call.batch = some (source, messages) ∧ call.seed = none) ∨
      ∃ timestamp, call = .seedLastCreatedAt timestamp := by
  cases call with
  | seedLastCreatedAt timestamp => exact .inr ⟨timestamp, rfl⟩
  | addHistory messages => exact .inl ⟨_, _, rfl, rfl⟩
  | addInput messages => exact .inl ⟨_, _, rfl, rfl⟩
  | addResponse messages => exact .inl ⟨_, _, rfl, rfl⟩

theorem applyAll_concat (calls : List MessageCall) (call : MessageCall) :
    applyAll localeCompare (calls ++ [call]) =
      call.apply localeCompare (applyAll localeCompare calls) := by
  rw [applyAll, List.foldl_append, ← applyAll]
  rfl

theorem clock_seedLastCreatedAt (h : list.Clock seeds) (timestamp : ℚ) :
    (list.seedLastCreatedAt timestamp).Clock (seeds ++ [timestamp]) := by
  rw [TimedMessageList.seedLastCreatedAt]
  split
  · rename_i hlater
    have hle := hlater.le
    refine ⟨h.nonneg.trans hle, fun m hm => ?_, ?_⟩
    · obtain ⟨t, ht, hlt⟩ := h.dated m hm
      exact ⟨t, ht, hlt.trans hle⟩
    · rw [List.forall_mem_append, List.forall_mem_singleton]
      exact ⟨fun seed hseed => (h.seeds seed hseed).trans hle, le_rfl⟩
  · rename_i hearlier
    refine ⟨h.nonneg, h.dated, ?_⟩
    rw [List.forall_mem_append, List.forall_mem_singleton]
    exact ⟨h.seeds, not_lt.mp hearlier⟩

/-- The list is sorted after each call. -/
theorem sorted_apply {call : MessageCall}
    (h : list.all.Pairwise
      fun a b => TimedMessageList.createdAtSortKey a ≤ TimedMessageList.createdAtSortKey b) :
    (call.apply localeCompare list).all.Pairwise
      fun a b => TimedMessageList.createdAtSortKey a ≤ TimedMessageList.createdAtSortKey b := by
  rcases call.batch_or_seed with ⟨source, messages, hbatch, -⟩ | ⟨timestamp, rfl⟩
  · rw [apply_eq_addBatch hbatch]
    exact TimedMessageList.sorted_insertionSort _
  · have hall : (list.seedLastCreatedAt timestamp).all = list.all := by
      rw [TimedMessageList.seedLastCreatedAt]
      split <;> rfl
    rw [apply, hall]
    exact h

theorem sorted_applyAll (calls : List MessageCall) :
    (applyAll localeCompare calls).all.Pairwise
      fun a b => TimedMessageList.createdAtSortKey a ≤ TimedMessageList.createdAtSortKey b := by
  induction calls using List.reverseRecOn with
  | nil => exact .nil
  | append_singleton calls call ih =>
    rw [applyAll_concat]
    exact sorted_apply ih

theorem clock_applyAll
    (h : ∀ before call after, calls = before ++ call :: after → ∀ source messages,
      call.batch = some (source, messages) →
        KeepsClock source (applyAll localeCompare before) messages) :
    (applyAll localeCompare calls).Clock (calls.filterMap (·.seed)) := by
  induction calls using List.reverseRecOn with
  | nil => exact ⟨le_rfl, nofun, nofun⟩
  | append_singleton calls call ih =>
    have hclock := ih fun before call' after hsplit =>
      h before call' (after ++ [call]) (by rw [hsplit, List.append_assoc, List.cons_append])
    rw [applyAll_concat, List.filterMap_append]
    rcases call.batch_or_seed with ⟨source, messages, hbatch, hseed⟩ | ⟨timestamp, rfl⟩
    · rw [apply_eq_addBatch hbatch, List.filterMap_cons_none hseed, List.filterMap_nil,
        List.append_nil]
      exact (hclock.addBatch localeCompare (h calls call [] rfl source messages hbatch)).1
    · exact clock_seedLastCreatedAt hclock timestamp

end MessageCall

/-- In a sequence of calls that keep the clock each live message is added later than all messages and
seeds before it. -/
theorem datesLater_of_keepsClock (localeCompare : String → String → ℤ) (calls : List MessageCall)
    (h : ∀ before call after, calls = before ++ call :: after → ∀ source messages,
      call.batch = some (source, messages) →
        KeepsClock source (MessageCall.applyAll localeCompare before) messages) :
    DatesLater localeCompare calls := by
  intro before call after hcalls
  refine ⟨?_, MessageCall.sorted_apply (MessageCall.sorted_applyAll before)⟩
  intro source messages hbatch hsource done message rest hsplit
  have hclock : (MessageCall.applyAll localeCompare before).Clock (before.filterMap (·.seed)) :=
    MessageCall.clock_applyAll fun before' call' after' hbefore =>
      h before' call' (after' ++ call :: after)
        (by rw [hcalls, hbefore, List.append_assoc, List.cons_append])
  have hlive : message.isLive source = true := by
    rw [NewMessage.isLive, decide_eq_true_iff]
    exact fun hand => hsource hand.2
  exact (hclock.addBatch localeCompare
    (h before call after hcalls source messages hbatch)).2 done message rest hsplit hlive

/-- The messages come after the seed. -/
def keptCalls : List MessageCall :=
  [.seedLastCreatedAt 1000, .addInput [{ id := "question", createdAt := some 600, now := 600 }]]

theorem datesLater_keptCalls : DatesLater (fun _ _ => 0) keptCalls := by
  refine datesLater_of_keepsClock _ _ fun before call after hcalls source messages hbatch => ?_
  rcases before with _ | ⟨first, _ | ⟨second, before⟩⟩
  · obtain ⟨rfl, -⟩ := List.cons.inj hcalls
    cases hbatch
  · obtain ⟨rfl, hrest⟩ := List.cons.inj hcalls
    obtain ⟨rfl, -⟩ := List.cons.inj hrest
    obtain ⟨rfl, rfl⟩ := Prod.mk.inj (Option.some.inj hbatch)
    refine ⟨fun hlive => absurd (hlive _ (List.mem_singleton_self _)) (by decide), fun _ => ?_, ?_⟩
    · decide +kernel
    · intro done message rest hsplit _
      obtain ⟨-, rfl, rfl⟩ | ⟨-, hnil⟩ := List.singleton_eq_append_iff.mp hsplit
      · decide
      · simp at hnil
  · simp [keptCalls] at hcalls

/-- A message of the history is added between the seed and the input. -/
def turnedBackCalls : List MessageCall :=
  [.seedLastCreatedAt 1000,
    .addHistory [{ id := "greeting", createdAt := some 500, now := 600 }],
    .addInput [{ id := "question", now := 600 }]]

theorem not_datesLater_turnedBackCalls : ¬DatesLater (fun _ _ => 0) turnedBackCalls := by
  intro h
  obtain ⟨t, hall, -, hseeds⟩ :=
    (h (turnedBackCalls.take 2) _ [] rfl).1 .input [{ id := "question", now := 600 }] rfl
      (by decide) [] _ [] rfl
  have hdate : ((MessageCall.applyAll (fun _ _ => 0) (turnedBackCalls.take 2)).addMessage .input
      { id := "question", now := 600 }).all.getLast?.bind (·.createdAt) = some 600 := by
    decide +kernel
  rw [List.foldl_nil] at hall
  rw [hall, List.getLast?_concat] at hdate
  obtain rfl : t = 600 := Option.some.inj hdate
  exact absurd (hseeds 1000 (by decide)) (by norm_num)

end N8n
