import N8n.Agents.RenderObservationLog
import Mathlib.Tactic.IntervalCases

/-!
# The observer of a conversation

`runObservationLogObserver` reads the messages since the cursor, has them observed, appends the
observations to the log one after another, as a child needs the identifier of its parent, and moves
the cursor last. Any call of the memory may fail, and what was appended before stays in the log, where
the next run appends it again.

So a run that fails leaves the log as it was exactly if it fails before or at the first append
(`leavesLog_iff`).
-/

open Lib

namespace N8n

/-! ## Parsing -/

structure ParsedObservationLogEntry where
  marker : ObservationLogMarker
  text : String
  parentIndex : Option ℕ
  deriving DecidableEq, Repr

structure ParseObservationLogMarkdownResult where
  entries : List ParsedObservationLogEntry := []
  skippedLines : List String := []
  deriving DecidableEq, Repr

/-- What the bullet pattern finds in a line : whether it is indented, its marker and its text. -/
structure BulletMatch where
  isChild : Bool
  marker : ObservationLogMarker
  text : String

/-- The loop body, with the index of the last parent. -/
def parseLine (isBlank : String → Bool) (bulletPattern : String → Option BulletMatch)
    (state : ParseObservationLogMarkdownResult × Option ℕ) (rawLine : String) :
    ParseObservationLogMarkdownResult × Option ℕ :=
  let (result, currentParentIndex) := state
  let skipped := { result with skippedLines := result.skippedLines ++ [rawLine] }
  if isBlank rawLine then state
  else
    match bulletPattern rawLine with
    | none => (skipped, currentParentIndex)
    | some found =>
      if found.isChild ∧ currentParentIndex = none then (skipped, currentParentIndex)
      else
        let parentIndex := if found.isChild then currentParentIndex else none
        ({ result with entries := result.entries ++ [⟨found.marker, found.text, parentIndex⟩] },
          if found.isChild then currentParentIndex else some result.entries.length)

def parseObservationLogMarkdown (isBlank : String → Bool)
    (bulletPattern : String → Option BulletMatch) (lines : List String) :
    ParseObservationLogMarkdownResult :=
  (lines.foldl (parseLine isBlank bulletPattern) ({}, none)).1

/-! ## The memory -/

structure ObservedMessage (M : Type) where
  id : String
  createdAt : ℤ
  content : M

structure ObservationCursor where
  lastObservedMessageId : String
  lastObservedAt : ℤ
  updatedAt : ℤ
  deriving DecidableEq, Repr

/-- What the memory holds of a conversation, and how often it was called. -/
structure ObserverMemory where
  observations : List ObservationLogEntry := []
  cursor : Option ObservationCursor := none
  calls : ℕ := 0
  deriving DecidableEq, Repr

/-- An operation that may throw. What it has done to the memory stays. -/
abbrev Observing (E α : Type) : Type := ExceptT E (StateM ObserverMemory) α

structure NewObservationLogEntry where
  marker : ObservationLogMarker
  text : String
  parentId : Option String
  createdAt : ℤ

inductive ObserverResult where
  | noDelta
  | belowThreshold (tokenCount : ℚ)
  | ran (observationsWritten : ℕ) (cursorAdvanced : Bool) (tokenCount : ℚ)
      (skippedLines : List String)
  deriving DecidableEq, Repr

/-- The memory and the other code an observer is run with. `observe` gets what it needs to find the
rest of its input, and gives the lines of its output. -/
structure ObserverOptions (M E : Type) where
  /-- The call with this number fails. -/
  failure : ℕ → Option E
  /-- The messages after a cursor. -/
  messages : Option ObservationCursor → List (ObservedMessage M)
  newId : ℕ → String
  observationLogTail : List ObservationLogEntry → List ObservationLogEntry
  observerThresholdTokens : ℚ
  now : ℤ
  renderObserverTranscript : List (ObservedMessage M) → Except E String
  tokenCounter : String → Except E ℚ
  observe : List (ObservedMessage M) → String → ℚ → List ObservationLogEntry → Except E (List String)
  isBlank : String → Bool
  bulletPattern : String → Option BulletMatch
  onMalformedLine : String → Except E Unit

section Observer

variable {M E : Type} (opts : ObserverOptions M E)

/-- A call of the memory fails without an effect, or has one. -/
def memoryCall {α : Type} (effect : ObserverMemory → α × ObserverMemory) : Observing E α :=
  fun memory =>
    match opts.failure memory.calls with
    | some error => (.error error, { memory with calls := memory.calls + 1 })
    | none =>
      let (value, changed) := effect memory
      (.ok value, { changed with calls := memory.calls + 1 })

def appendObservationLogEntry (row : NewObservationLogEntry) : Observing E ObservationLogEntry :=
  memoryCall opts fun memory =>
    let entry : ObservationLogEntry :=
      { id := opts.newId memory.observations.length
        marker := row.marker
        text := row.text
        parentId := row.parentId
        tokenCount := some (estimateObservationTokens row.text)
        createdAt := row.createdAt }
    (entry, { memory with observations := memory.observations ++ [entry] })

/-- The loop over the parsed entries, with the rows it has inserted. -/
def appendEntries : List ObservationLogEntry → List ParsedObservationLogEntry →
    Observing E (List ObservationLogEntry)
  | inserted, [] => pure inserted
  | inserted, entry :: entries => do
    let parentId := entry.parentIndex.bind fun index => (inserted[index]?).map (·.id)
    let row ← appendObservationLogEntry opts
      { marker := entry.marker
        text := entry.text
        parentId
        createdAt := opts.now + inserted.length }
    appendEntries (inserted ++ [row]) entries

def advanceObserverCursor (lastMessage : ObservedMessage M) : Observing E Unit :=
  memoryCall opts fun memory =>
    ((), { memory with
      cursor := some
        { lastObservedMessageId := lastMessage.id
          lastObservedAt := lastMessage.createdAt
          updatedAt := opts.now } })

/-- What a run that is not skipped has before it writes. -/
structure ObserverOutput (M : Type) where
  lastMessage : ObservedMessage M
  tokenCount : ℚ
  parsed : ParseObservationLogMarkdownResult

/-- The run up to the first append. -/
def readAndObserve : Observing E (ObserverResult ⊕ ObserverOutput M) := do
  let cursor ← memoryCall opts fun memory => (memory.cursor, memory)
  let deltaMessages ← memoryCall opts fun memory => (opts.messages cursor, memory)
  match deltaMessages.getLast? with
  | none => return .inl .noDelta
  | some lastMessage =>
    let transcript ← ExceptT.mk (pure (opts.renderObserverTranscript deltaMessages))
    let tokenCount ← ExceptT.mk (pure (opts.tokenCounter transcript))
    if tokenCount < opts.observerThresholdTokens then return .inl (.belowThreshold tokenCount)
    else
      let observationLogTail ← memoryCall opts fun memory =>
        (opts.observationLogTail memory.observations, memory)
      let lines ← ExceptT.mk
        (pure (opts.observe deltaMessages transcript tokenCount observationLogTail))
      let parsed := parseObservationLogMarkdown opts.isBlank opts.bulletPattern lines
      ExceptT.mk (pure (parsed.skippedLines.forM opts.onMalformedLine))
      return .inr { lastMessage, tokenCount, parsed }

def writeObservations (output : ObserverOutput M) : Observing E ObserverResult := do
  let inserted ← appendEntries opts [] output.parsed.entries
  let cursorAdvanced : Bool := inserted.length > 0
  if cursorAdvanced then advanceObserverCursor opts output.lastMessage
  return .ran inserted.length cursorAdvanced output.tokenCount output.parsed.skippedLines

def runObservationLogObserver : Observing E ObserverResult := do
  match ← readAndObserve opts with
  | .inl skipped => return skipped
  | .inr output => writeObservations opts output

end Observer

/-! ## A run that fails -/

/-- If the run rejects, the log and the cursor are as they were. -/
def LeavesLog {M E : Type} (opts : ObserverOptions M E) (memory : ObserverMemory) : Prop :=
  ∀ error memory', runObservationLogObserver opts memory = (.error error, memory') →
    memory'.observations = memory.observations ∧ memory'.cursor = memory.cursor

/-- Nothing fails before the messages since the cursor are observed with these lines. -/
def Observes {M E : Type} (opts : ObserverOptions M E) (memory : ObserverMemory)
    (lines : List String) : Prop :=
  (∀ k < 3, opts.failure (memory.calls + k) = none) ∧
    opts.messages memory.cursor ≠ [] ∧
      ∃ transcript tokenCount,
        opts.renderObserverTranscript (opts.messages memory.cursor) = .ok transcript ∧
          opts.tokenCounter transcript = .ok tokenCount ∧
          opts.observerThresholdTokens ≤ tokenCount ∧
          opts.observe (opts.messages memory.cursor) transcript tokenCount
            (opts.observationLogTail memory.observations) = .ok lines ∧
          (parseObservationLogMarkdown opts.isBlank opts.bulletPattern lines).skippedLines.forM
            opts.onMalformedLine = .ok ()

/-- Of the calls that append what was observed and move the cursor, which are one more than there are
entries, none fails but the first. -/
def FailsBeforeWriting {M E : Type} (opts : ObserverOptions M E) (memory : ObserverMemory) : Prop :=
  ∀ lines, Observes opts memory lines →
    let entries := (parseObservationLogMarkdown opts.isBlank opts.bulletPattern lines).entries
    entries = [] ∨ (opts.failure (memory.calls + 3)).isSome = true ∨
      ∀ k < entries.length, opts.failure (memory.calls + 4 + k) = none

variable {M E α β : Type} {opts : ObserverOptions M E} {memory memory' : ObserverMemory}

theorem observing_bind (x : Observing E α) (f : α → Observing E β) (memory : ObserverMemory) :
    (x >>= f : Observing E β) memory =
      match x memory with
      | (.ok a, memory') => f a memory'
      | (.error error, memory') => (.error error, memory') := by
  change (match x memory with
    | (a, memory') => ExceptT.bindCont f a memory') = _
  rcases x memory with ⟨_ | a, memory'⟩ <;> rfl

theorem bind_of_ok {x : Observing E α} {f : α → Observing E β} {a : α}
    (h : x memory = (.ok a, memory')) : (x >>= f : Observing E β) memory = f a memory' := by
  rw [observing_bind, h]

theorem observing_mk_ok {result : Except E α} {a : α} (h : result = .ok a) :
    (ExceptT.mk (pure result) : Observing E α) memory = (.ok a, memory) :=
  congrArg (·, memory) h

variable {effect : ObserverMemory → α × ObserverMemory}

theorem memoryCall_of_none (h : opts.failure memory.calls = none) : memoryCall opts effect memory =
      (.ok (effect memory).1, { (effect memory).2 with calls := memory.calls + 1 }) := by
  rw [memoryCall, h]

theorem memoryCall_of_some {error : E} (h : opts.failure memory.calls = some error) :
    memoryCall opts effect memory =
      (.error error, { memory with calls := memory.calls + 1 }) := by
  rw [memoryCall, h]

/-- An operation that succeeds does so in each of its parts. -/
theorem exists_of_bind_eq_ok {x : Observing E α} {f : α → Observing E β} {b : β}
    (h : (x >>= f : Observing E β) memory = (.ok b, memory')) :
    ∃ a between, x memory = (.ok a, between) ∧ f a between = (.ok b, memory') := by
  rw [observing_bind] at h
  cases hrun : x memory with
  | mk first between =>
    rw [hrun] at h
    cases first with
    | error error => cases h
    | ok a => exact ⟨a, between, rfl, h⟩

theorem of_memoryCall_eq_ok {a : α} (h : memoryCall opts effect memory = (.ok a, memory')) :
    opts.failure memory.calls = none ∧ a = (effect memory).1 ∧
      memory' = { (effect memory).2 with calls := memory.calls + 1 } := by
  cases hfailure : opts.failure memory.calls with
  | some error =>
    rw [memoryCall_of_some hfailure] at h
    cases h
  | none =>
    rw [memoryCall_of_none hfailure] at h
    obtain ⟨ha, rfl⟩ := Prod.mk.inj h
    exact ⟨rfl, (Except.ok.inj ha).symm, rfl⟩

theorem of_observing_mk_eq_ok {result : Except E α} {a : α}
    (h : (ExceptT.mk (pure result) : Observing E α) memory = (.ok a, memory')) :
    result = .ok a ∧ memory' = memory := by
  obtain ⟨rfl, rfl⟩ : (result, memory) = (.ok a, memory') := h
  exact ⟨rfl, rfl⟩

/-! ## Reading -/

/-- After so many calls the operation changes nothing but their number, of which `post` says what it
is with the value returned. -/
def OnlyReads (calls : ℕ) (x : Observing E α) (post : ℕ → α → Prop) : Prop :=
  ∀ memory result memory', memory.calls = calls → x memory = (result, memory') →
    (memory'.observations = memory.observations ∧ memory'.cursor = memory.cursor) ∧
      ∀ a, result = .ok a → post memory'.calls a

variable {calls : ℕ} {post : ℕ → β → Prop}

theorem OnlyReads.bind {x : Observing E α} {f : α → Observing E β} {mid : ℕ → α → Prop}
    (hx : OnlyReads calls x mid) (hf : ∀ calls a, mid calls a → OnlyReads calls (f a) post) :
    OnlyReads calls (x >>= f) post := by
  intro memory result memory' hcalls h
  rw [observing_bind] at h
  cases hrun : x memory with
  | mk first between =>
    obtain ⟨⟨hobservations, hcursor⟩, hmid⟩ := hx memory first between hcalls hrun
    rw [hrun] at h
    cases first with
    | error error =>
      obtain ⟨rfl, rfl⟩ := Prod.mk.inj h
      exact ⟨⟨hobservations, hcursor⟩, nofun⟩
    | ok a =>
      obtain ⟨⟨hobservations', hcursor'⟩, hpost⟩ :=
        hf between.calls a (hmid a rfl) between result memory' rfl h
      exact ⟨⟨hobservations'.trans hobservations, hcursor'.trans hcursor⟩, hpost⟩

theorem onlyReads_pure {a : β} (h : post calls a) : OnlyReads calls (pure a : Observing E β) post := by
  intro memory result memory' hcalls hrun
  obtain ⟨rfl, rfl⟩ := Prod.mk.inj hrun
  refine ⟨⟨rfl, rfl⟩, fun b hb => ?_⟩
  obtain rfl := Except.ok.inj hb
  rwa [hcalls]

theorem onlyReads_mk (result : Except E β) (calls : ℕ) :
    OnlyReads calls (ExceptT.mk (pure result)) fun calls' _ => calls' = calls := by
  intro memory result' memory' hcalls hrun
  obtain ⟨rfl, rfl⟩ := Prod.mk.inj hrun
  exact ⟨⟨rfl, rfl⟩, fun _ _ => hcalls⟩

theorem onlyReads_memoryCall (value : ObserverMemory → β) (calls : ℕ) :
    OnlyReads calls (memoryCall opts fun memory => (value memory, memory))
      fun calls' _ => calls' = calls + 1 := by
  intro memory result memory' hcalls hrun
  cases hfailure : opts.failure memory.calls with
  | some error =>
    rw [memoryCall_of_some hfailure] at hrun
    obtain ⟨rfl, rfl⟩ := Prod.mk.inj hrun
    exact ⟨⟨rfl, rfl⟩, nofun⟩
  | none =>
    rw [memoryCall_of_none hfailure] at hrun
    obtain ⟨rfl, rfl⟩ := Prod.mk.inj hrun
    exact ⟨⟨rfl, rfl⟩, fun _ _ => congrArg (· + 1) hcalls⟩

/-- There are three calls before the first append. -/
theorem onlyReads_readAndObserve (calls : ℕ) :
    OnlyReads calls (readAndObserve opts) fun calls' result =>
      ∀ output, result = .inr output → calls' = calls + 3 := by
  refine (onlyReads_memoryCall _ calls).bind fun calls₁ cursor h₁ => ?_
  refine (onlyReads_memoryCall _ calls₁).bind fun calls₂ deltaMessages h₂ => ?_
  cases deltaMessages.getLast? with
  | none => exact onlyReads_pure nofun
  | some lastMessage =>
    refine (onlyReads_mk _ calls₂).bind fun calls₃ transcript h₃ => ?_
    refine (onlyReads_mk _ calls₃).bind fun calls₄ tokenCount h₄ => ?_
    dsimp only
    split
    · exact onlyReads_pure nofun
    · refine (onlyReads_memoryCall _ calls₄).bind fun calls₅ observationLogTail h₅ => ?_
      refine (onlyReads_mk _ calls₅).bind fun calls₆ lines h₆ => ?_
      refine (onlyReads_mk _ calls₆).bind fun calls₇ _ h₇ => ?_
      exact onlyReads_pure fun _ _ => by omega

/-- The run has something to write exactly if the messages are observed. -/
theorem readAndObserve_of_observes {lines : List String} (h : Observes opts memory lines) :
    ∃ output, readAndObserve opts memory =
        (.ok (.inr output), { memory with calls := memory.calls + 3 }) ∧
      output.parsed = parseObservationLogMarkdown opts.isBlank opts.bulletPattern lines := by
  obtain ⟨hnone, hne, transcript, tokenCount, htranscript, htokens, hthreshold, hobserve, hskipped⟩ :=
    h
  have hlast := List.getLast?_eq_some_getLast hne
  refine ⟨⟨(opts.messages memory.cursor).getLast hne, tokenCount, _⟩, ?_, rfl⟩
  rw [readAndObserve, bind_of_ok (memoryCall_of_none (hnone 0 (by decide))),
    bind_of_ok (memoryCall_of_none (hnone 1 (by decide)))]
  simp only [hlast]
  rw [bind_of_ok (observing_mk_ok htranscript), bind_of_ok (observing_mk_ok htokens),
    if_neg hthreshold.not_gt, bind_of_ok (memoryCall_of_none (hnone 2 (by decide))),
    bind_of_ok (observing_mk_ok hobserve), bind_of_ok (observing_mk_ok hskipped)]
  rfl

theorem observes_of_readAndObserve {output : ObserverOutput M}
    (h : readAndObserve opts memory = (.ok (.inr output), memory')) :
    ∃ lines, Observes opts memory lines ∧
      output.parsed = parseObservationLogMarkdown opts.isBlank opts.bulletPattern lines := by
  obtain ⟨cursor, memory₁, hcall₁, h⟩ := exists_of_bind_eq_ok h
  obtain ⟨hnone₁, rfl, rfl⟩ := of_memoryCall_eq_ok hcall₁
  obtain ⟨deltaMessages, memory₂, hcall₂, h⟩ := exists_of_bind_eq_ok h
  obtain ⟨hnone₂, rfl, rfl⟩ := of_memoryCall_eq_ok hcall₂
  cases hlast : (opts.messages memory.cursor).getLast? with
  | none =>
    rw [hlast] at h
    obtain ⟨hskipped, -⟩ := Prod.mk.inj h
    cases hskipped
  | some lastMessage =>
    rw [hlast] at h
    obtain ⟨transcript, memory₃, hrun, h⟩ := exists_of_bind_eq_ok h
    obtain ⟨htranscript, rfl⟩ := of_observing_mk_eq_ok hrun
    obtain ⟨tokenCount, memory₄, hrun, h⟩ := exists_of_bind_eq_ok h
    obtain ⟨htokens, rfl⟩ := of_observing_mk_eq_ok hrun
    dsimp only at h
    split at h
    · obtain ⟨hskipped, -⟩ := Prod.mk.inj h
      cases hskipped
    · obtain ⟨observationLogTail, memory₅, hcall₃, h⟩ := exists_of_bind_eq_ok h
      obtain ⟨hnone₃, rfl, rfl⟩ := of_memoryCall_eq_ok hcall₃
      obtain ⟨lines, memory₆, hrun, h⟩ := exists_of_bind_eq_ok h
      obtain ⟨hobserve, rfl⟩ := of_observing_mk_eq_ok hrun
      obtain ⟨_, memory₇, hrun, h⟩ := exists_of_bind_eq_ok h
      obtain ⟨hskipped, rfl⟩ := of_observing_mk_eq_ok hrun
      obtain ⟨houtput, -⟩ := Prod.mk.inj h
      obtain rfl := Sum.inr.inj (Except.ok.inj houtput)
      refine ⟨lines, ⟨fun k hk => ?_, ?_, transcript, tokenCount, htranscript, htokens,
        not_lt.mp ‹_›, hobserve, hskipped⟩, rfl⟩
      · interval_cases k
        exacts [hnone₁, hnone₂, hnone₃]
      · rintro hnil
        rw [hnil] at hlast
        cases hlast

/-! ## Writing -/

/-- The loop appends a row for each entry, or those before the call that fails. -/
theorem appendEntries_cases (opts : ObserverOptions M E) (inserted : List ObservationLogEntry)
    (entries : List ParsedObservationLogEntry) (memory : ObserverMemory) :
    (∃ rows : List ObservationLogEntry, rows.length = entries.length ∧
      (∀ k < entries.length, opts.failure (memory.calls + k) = none) ∧
        appendEntries opts inserted entries memory =
          (.ok (inserted ++ rows),
            { memory with
              observations := memory.observations ++ rows
              calls := memory.calls + entries.length })) ∨
    ∃ (rows : List ObservationLogEntry) (error : E), rows.length < entries.length ∧
      (∀ k < rows.length, opts.failure (memory.calls + k) = none) ∧
        opts.failure (memory.calls + rows.length) = some error ∧
        appendEntries opts inserted entries memory =
          (.error error,
            { memory with
              observations := memory.observations ++ rows
              calls := memory.calls + rows.length + 1 }) := by
  induction entries generalizing inserted memory with
  | nil => exact .inl ⟨[], rfl, nofun, by simp [appendEntries]; rfl⟩
  | cons entry entries ih =>
    rw [appendEntries, observing_bind, appendObservationLogEntry]
    cases hfailure : opts.failure memory.calls with
    | some error =>
      rw [memoryCall_of_some hfailure]
      exact .inr ⟨[], error, by simp, nofun, hfailure, by simp⟩
    | none =>
      rw [memoryCall_of_none hfailure]
      dsimp only
      generalize hrow : ObservationLogEntry.mk _ _ _ _ _ _ _ = row
      have hbefore : ∀ {n : ℕ}, (∀ k < n, opts.failure (memory.calls + 1 + k) = none) →
          ∀ k < n + 1, opts.failure (memory.calls + k) = none := by
        intro n hnone k hk
        cases k with
        | zero => exact hfailure
        | succ k =>
          have := hnone k (Nat.lt_of_succ_lt_succ hk)
          rwa [Nat.add_assoc, Nat.add_comm 1] at this
      rcases ih (inserted ++ [row])
        { memory with
          observations := memory.observations ++ [row]
          calls := memory.calls + 1 } with
        ⟨rows, hlength, hnone, hrun⟩ | ⟨rows, error, hlength, hnone, hsome, hrun⟩
      · refine .inl ⟨row :: rows, congrArg (· + 1) hlength, hbefore hnone, ?_⟩
        rw [hrun, List.append_assoc, List.append_assoc, List.singleton_append, List.length_cons,
          Nat.add_assoc, Nat.add_comm 1]
      · refine .inr ⟨row :: rows, error, Nat.succ_lt_succ hlength, hbefore hnone, ?_, ?_⟩
        · rwa [Nat.add_assoc, Nat.add_comm 1] at hsome
        · rw [hrun, List.append_assoc, List.singleton_append, List.length_cons,
            Nat.add_assoc memory.calls 1, Nat.add_comm 1]

/-- Writing ends with all rows and the cursor, or with what was appended before a call that fails. -/
theorem writeObservations_cases (opts : ObserverOptions M E) (output : ObserverOutput M)
    (memory : ObserverMemory) :
    let n := output.parsed.entries.length
    (∃ result memory', writeObservations opts output memory = (.ok result, memory') ∧
      ∀ k < n + 1, 0 < n → opts.failure (memory.calls + k) = none) ∨
    ∃ (rows : List ObservationLogEntry) (error : E) (memory' : ObserverMemory), rows.length ≤ n ∧
      0 < n ∧ (∀ k < rows.length, opts.failure (memory.calls + k) = none) ∧
        opts.failure (memory.calls + rows.length) = some error ∧
          writeObservations opts output memory = (.error error, memory') ∧
            memory'.observations = memory.observations ++ rows ∧ memory'.cursor = memory.cursor := by
  intro n
  rw [writeObservations, observing_bind]
  rcases appendEntries_cases opts [] output.parsed.entries memory with
    ⟨rows, hlength, hnone, hrun⟩ | ⟨rows, error, hlength, hnone, hsome, hrun⟩
  · rw [hrun, List.nil_append]
    dsimp only
    by_cases hpos : rows.length > 0
    · rw [if_pos (decide_eq_true hpos), observing_bind, advanceObserverCursor]
      cases hfailure : opts.failure (memory.calls + output.parsed.entries.length) with
      | some error =>
        rw [memoryCall_of_some hfailure]
        have hn : 0 < n := hpos.trans_le hlength.le
        refine .inr ⟨rows, error, _, hlength.le, hn, ?_, ?_, rfl, rfl, rfl⟩
        · rwa [hlength]
        · rwa [hlength]
      | none =>
        rw [memoryCall_of_none hfailure]
        refine .inl ⟨_, _, rfl, fun k hk _ => ?_⟩
        rcases Nat.lt_succ_iff_lt_or_eq.mp hk with hk | rfl
        · exact hnone k hk
        · exact hfailure
    · rw [if_neg (by simpa using hpos)]
      exact .inl ⟨_, _, rfl, fun k _ hn => absurd (hlength ▸ hn) hpos⟩
  · rw [hrun]
    exact .inr ⟨rows, error, _, hlength.le, Nat.zero_lt_of_lt hlength, hnone, hsome, rfl, rfl, rfl⟩

/-- Writing that fails changes nothing exactly if only its first call may fail. -/
theorem writeObservations_leaves_iff (opts : ObserverOptions M E) (output : ObserverOutput M)
    (memory : ObserverMemory) :
    (∀ error memory', writeObservations opts output memory = (.error error, memory') →
      memory'.observations = memory.observations ∧ memory'.cursor = memory.cursor) ↔
      output.parsed.entries = [] ∨ (opts.failure memory.calls).isSome = true ∨
        ∀ k < output.parsed.entries.length, opts.failure (memory.calls + 1 + k) = none := by
  rcases writeObservations_cases opts output memory with
    ⟨result, memory', hrun, hnone⟩ |
      ⟨rows, error, memory', hrows, hpos, hnone, hsome, hrun, hobservations, hcursor⟩
  · refine iff_of_true (fun error memory'' h => ?_) ?_
    · rw [hrun] at h
      cases h
    · rcases Nat.eq_zero_or_pos output.parsed.entries.length with hzero | hpos
      · exact .inl (List.eq_nil_of_length_eq_zero hzero)
      · refine .inr (.inr fun k hk => ?_)
        rw [Nat.add_assoc, Nat.add_comm 1]
        exact hnone (k + 1) (Nat.succ_lt_succ hk) hpos
  · rcases rows with _ | ⟨row, rows⟩
    · refine iff_of_true (fun error memory'' h => ?_) (.inr (.inl ?_))
      · rw [hrun] at h
        obtain ⟨-, rfl⟩ := Prod.mk.inj h
        exact ⟨hobservations.trans (List.append_nil _), hcursor⟩
      · exact Option.isSome_of_eq_some hsome
    · refine iff_of_false (fun h => ?_) (fun h => ?_)
      · obtain ⟨hsame, -⟩ := h error memory' hrun
        rw [hobservations] at hsame
        simp at hsame
      · rcases h with hnil | hfirst | hlater
        · simp [hnil] at hpos
        · rw [show opts.failure memory.calls = none from hnone 0 (Nat.succ_pos _)] at hfirst
          cases hfirst
        · have hk := hlater rows.length hrows
          rw [Nat.add_assoc, Nat.add_comm 1, ← List.length_cons, hsome] at hk
          cases hk

theorem failsBeforeWriting_of_readAndObserve {output : ObserverOutput M}
    (h : readAndObserve opts memory = (.ok (.inr output), memory')) :
    FailsBeforeWriting opts memory ↔
      output.parsed.entries = [] ∨ (opts.failure (memory.calls + 3)).isSome = true ∨
        ∀ k < output.parsed.entries.length, opts.failure (memory.calls + 4 + k) = none := by
  constructor
  · intro hfails
    obtain ⟨lines, hlines, hparsed⟩ := observes_of_readAndObserve h
    rw [hparsed]
    exact hfails lines hlines
  · intro hfails lines hlines
    obtain ⟨output', hok, hparsed⟩ := readAndObserve_of_observes hlines
    obtain ⟨houtput, -⟩ := Prod.mk.inj (h.symm.trans hok)
    obtain rfl := Sum.inr.inj (Except.ok.inj houtput)
    rwa [hparsed] at hfails

/-- A run that fails leaves the log and the cursor exactly if no call after the first append fails. -/
theorem leavesLog_iff (opts : ObserverOptions M E) (memory : ObserverMemory) :
    LeavesLog opts memory ↔ FailsBeforeWriting opts memory := by
  rw [LeavesLog, runObservationLogObserver]
  simp only [observing_bind]
  cases hread : readAndObserve opts memory with
  | mk first between =>
    obtain ⟨⟨hobservations, hcursor⟩, hcalls⟩ :=
      onlyReads_readAndObserve memory.calls memory first between rfl hread
    have hunobserved : (∀ output, first ≠ .ok (.inr output)) → FailsBeforeWriting opts memory := by
      intro hne lines hlines
      obtain ⟨output, hok, -⟩ := readAndObserve_of_observes hlines
      obtain ⟨rfl, -⟩ := Prod.mk.inj (hread.symm.trans hok)
      exact absurd rfl (hne output)
    rcases first with error | skipped | output
    · refine iff_of_true (fun error' memory' h => ?_) (hunobserved nofun)
      obtain ⟨-, rfl⟩ := Prod.mk.inj h
      exact ⟨hobservations, hcursor⟩
    · refine iff_of_true (fun error memory' h => ?_) (hunobserved nofun)
      obtain ⟨hok, -⟩ := Prod.mk.inj h
      cases hok
    · have hcalls : between.calls = memory.calls + 3 := hcalls _ rfl output rfl
      rw [failsBeforeWriting_of_readAndObserve hread, ← hobservations, ← hcursor,
        show memory.calls + 4 = memory.calls + 3 + 1 from rfl, ← hcalls]
      exact writeObservations_leaves_iff opts output between

/-- The append of the second of two entries fails. -/
def secondAppendFails : ObserverOptions Unit String where
  failure call := if call = 4 then some "connection lost" else none
  messages
    | none => [⟨"m1", 1000, ()⟩]
    | some _ => []
  newId index := "obs-" ++ toString index
  observationLogTail observations := observations
  observerThresholdTokens := 10
  now := 5000
  renderObserverTranscript _ := .ok "[1970-01-01T00:00:01.000Z] user: my name is Ada, I like tea"
  tokenCounter _ := .ok 15
  observe _ _ _ _ := .ok ["* CRITICAL name is Ada", "* INFO likes tea"]
  isBlank line := line = ""
  bulletPattern line :=
    if line = "* CRITICAL name is Ada" then some ⟨false, .critical, "name is Ada"⟩
    else if line = "* INFO likes tea" then some ⟨false, .info, "likes tea"⟩
    else none
  onMalformedLine _ := .ok ()

/-- What the first run appended stays, and the next run appends it again. -/
theorem not_leavesLog_secondAppendFails :
    ¬ LeavesLog secondAppendFails {} ∧
      (runObservationLogObserver secondAppendFails
        (runObservationLogObserver secondAppendFails {}).2).2.observations.map (·.text) =
          ["name is Ada", "name is Ada", "likes tea"] := by
  refine ⟨fun h => ?_, by decide⟩
  obtain ⟨hobservations, -⟩ := h "connection lost" _ rfl
  revert hobservations
  decide

end N8n
