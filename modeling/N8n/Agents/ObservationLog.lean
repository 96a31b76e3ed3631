import Mathlib.Data.List.Induction
import Mathlib.Data.List.Sort
import Mathlib.Data.Rat.Defs
import N8n.Lib.OrderedMap

/-!
# The observation log of an agent

The entries in which an agent remembers a conversation. An entry may hang under another, its parent;
the empty string is no parent. What is read of the log are the active entries, in the order of their
times.
-/

open Lib

namespace N8n

inductive ObservationLogMarker where
  | critical | important | info | completion
  deriving DecidableEq, Repr

inductive ObservationLogStatus where
  | active | superseded | dropped
  deriving DecidableEq, Repr

/-- `createdAt` is in milliseconds. A token count that is not finite is `none`. -/
structure ObservationLogEntry where
  id : String
  marker : ObservationLogMarker := .info
  text : String := ""
  parentId : Option String := none
  tokenCount : Option ℚ := none
  status : ObservationLogStatus := .active
  createdAt : ℤ := 0
  deriving DecidableEq, Repr

/-- The parent that the entry names, if it names one. -/
def ObservationLogEntry.parent (entry : ObservationLogEntry) : Option String :=
  entry.parentId.filter (· ≠ "")

def activeEntries (entries : List ObservationLogEntry) : List ObservationLogEntry :=
  entries.filter (·.status = .active)

/-- `new Map` of the entries by their identifiers. -/
def entriesById (entries : List ObservationLogEntry) : OrderedMap String ObservationLogEntry :=
  entries.foldl (fun byId entry => byId.set entry.id entry) ∅

/-- The entries that name a parent, by the parent. -/
def childrenByParent (entries : List ObservationLogEntry) :
    OrderedMap String (List ObservationLogEntry) :=
  entries.foldl (fun children entry =>
    match entry.parent with
    | some parentId => children.set parentId ((children.get? parentId).getD [] ++ [entry])
    | none => children) ∅

/-- `compareEntries` gives no positive number. -/
def comesBefore (localeCompare : String → String → ℤ) (a b : ObservationLogEntry) : Prop :=
  if a.createdAt - b.createdAt ≠ 0 then a.createdAt - b.createdAt ≤ 0
  else localeCompare a.id b.id ≤ 0

instance (localeCompare : String → String → ℤ) : DecidableRel (comesBefore localeCompare) :=
  fun a b => by
    unfold comesBefore
    infer_instance

/-- The active entries in the order of `compareEntries`. -/
def sortedActiveEntries (localeCompare : String → String → ℤ) (entries : List ObservationLogEntry) :
    List ObservationLogEntry :=
  (activeEntries entries).insertionSort (comesBefore localeCompare)

variable {entries : List ObservationLogEntry} {entry : ObservationLogEntry} {id : String}

theorem entriesById_concat (entries : List ObservationLogEntry) (entry : ObservationLogEntry) :
    entriesById (entries ++ [entry]) = (entriesById entries).set entry.id entry := by
  rw [entriesById, List.foldl_append, ← entriesById]
  rfl

/-- What is found under an identifier is an entry with it. -/
theorem entriesById_get? (h : (entriesById entries).get? id = some entry) :
    entry ∈ entries ∧ entry.id = id := by
  induction entries using List.reverseRecOn with
  | nil => cases h
  | append_singleton entries last ih =>
    rw [entriesById_concat, OrderedMap.get?_set] at h
    split at h
    · rename_i hid
      obtain rfl := Option.some.inj h
      exact ⟨by simp, hid⟩
    · obtain ⟨hmem, hid⟩ := ih h
      exact ⟨List.mem_append_left _ hmem, hid⟩

theorem mem_keys_entriesById : id ∈ (entriesById entries).keys ↔ ∃ entry ∈ entries, entry.id = id := by
  induction entries using List.reverseRecOn with
  | nil => simp [entriesById]
  | append_singleton entries last ih =>
    rw [entriesById_concat, OrderedMap.mem_keys_set, ih]
    simp only [List.mem_append, List.mem_singleton, or_and_right, exists_or, exists_eq_left]
    rw [or_comm, eq_comm]

theorem childrenByParent_concat (entries : List ObservationLogEntry) (entry : ObservationLogEntry) :
    childrenByParent (entries ++ [entry]) =
      match entry.parent with
      | some parentId => (childrenByParent entries).set parentId
          (((childrenByParent entries).get? parentId).getD [] ++ [entry])
      | none => childrenByParent entries := by
  rw [childrenByParent, List.foldl_append, ← childrenByParent]
  rfl

/-- The children of a parent, in the order of the entries. -/
theorem childrenByParent_get? (entries : List ObservationLogEntry) (parentId : String) :
    ((childrenByParent entries).get? parentId).getD [] =
      entries.filter (·.parent = some parentId) := by
  induction entries using List.reverseRecOn with
  | nil => rfl
  | append_singleton entries last ih =>
    rw [childrenByParent_concat, List.filter_append]
    cases hparent : last.parent with
    | none => simp [hparent, ih]
    | some other =>
      dsimp only
      rw [OrderedMap.get?_set]
      by_cases hsame : other = parentId
      · subst hsame
        simp [hparent, ih]
      · simp [hparent, hsame, ih]

end N8n
