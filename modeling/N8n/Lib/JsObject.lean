import N8n.Lib.OrderedMap
import Mathlib.Data.List.Sort
import Mathlib.Algebra.Order.Ring.Nat

/-!
# Plain objects and arrays

A plain object enumerates the keys that are array indexes first, in ascending order, and
then the others in insertion order (`objectKeys`). An array slot that was never written
is a hole; reading it, or reading outside the array, gives `undefined`. `map` and
`filter` skip holes, and comparing with `null` tells neither holes nor `undefined` apart
from data.
-/

namespace Lib

/-! ## Enumeration order -/

/-- The properties every plain object inherits. Looking one of them up that was never set
gives the inherited value. -/
def objectPrototypeKeys : List String :=
  ["constructor", "__defineGetter__", "__defineSetter__", "hasOwnProperty",
    "__lookupGetter__", "__lookupSetter__", "isPrototypeOf", "propertyIsEnumerable",
    "toString", "valueOf", "__proto__", "toLocaleString"]

/-- The array index a key is the canonical spelling of. -/
def arrayIndex? (key : String) : Option ℕ :=
  if key.toList ≠ [] ∧ key.toList.all Char.isDigit then
    let n := key.toList.foldl (fun n c => 10 * n + (c.toNat - '0'.toNat)) 0
    if toString n = key ∧ n < 2 ^ 32 - 1 then some n else none
  else none

/-- `Object.keys` : array indexes in ascending order, then the other keys as inserted. -/
def objectKeys {β : Type*} (m : OrderedMap String β) : List String :=
  ((m.keys.filter fun k => (arrayIndex? k).isSome).insertionSort fun a b =>
      (arrayIndex? a).getD 0 ≤ (arrayIndex? b).getD 0) ++
    m.keys.filter fun k => (arrayIndex? k).isNone

theorem perm_objectKeys {β : Type*} (m : OrderedMap String β) :
    (objectKeys m).Perm m.keys := by
  have hnone : (fun k => (arrayIndex? k).isNone) = fun k => !(arrayIndex? k).isSome := by
    funext k
    cases arrayIndex? k <;> rfl
  refine ((List.perm_insertionSort _ _).append_right _).trans ?_
  rw [hnone]
  exact List.filter_append_perm _ _

theorem mem_objectKeys {β : Type*} {m : OrderedMap String β} {k : String} :
    k ∈ objectKeys m ↔ k ∈ m.keys :=
  (perm_objectKeys m).mem_iff

/-- `Object.entries` -/
def objectEntries {β : Type*} (m : OrderedMap String β) : List (String × β) :=
  (objectKeys m).filterMap fun k => (m.get? k).map (k, ·)

theorem mem_objectEntries {β : Type*} {m : OrderedMap String β} {k : String} {v : β} :
    (k, v) ∈ objectEntries m ↔ m.get? k = some v := by
  simp only [objectEntries, List.mem_filterMap, mem_objectKeys, Option.map_eq_some_iff,
    Prod.mk.injEq]
  constructor
  · rintro ⟨k', -, v', hv, rfl, rfl⟩
    exact hv
  · intro h
    exact ⟨k, OrderedMap.mem_keys_iff.mpr ⟨v, h⟩, v, h, rfl, rfl⟩

theorem nodup_keys_objectEntries {β : Type*} (m : OrderedMap String β) :
    ((objectEntries m).map Prod.fst).Nodup :=
  ((perm_objectKeys m).nodup_iff.mpr m.nodup_keys').sublist
    (OrderedMap.sublist_map_fst_filterMap m.get? _)

/-- The keys of an object keyed by numbers, in ascending order. -/
def numericKeys {β : Type*} (m : OrderedMap ℕ β) : List ℕ :=
  m.keys.insertionSort (· ≤ ·)

theorem mem_numericKeys {β : Type*} {m : OrderedMap ℕ β} {k : ℕ} :
    k ∈ numericKeys m ↔ k ∈ m.keys :=
  (List.perm_insertionSort _ _).mem_iff

/-! ## Arrays with holes -/

/-- A slot of an array of values that may be `null`. -/
inductive Slot (β : Type*) where
  | hole
  | undefined
  | null
  | val (x : β)
  deriving DecidableEq, Repr

namespace Slot

variable {β : Type*}

/-- What reading the slot gives : a hole reads as `undefined`. -/
def read : Slot β → Slot β
  | hole => undefined
  | s => s

/-- Whether the slot holds a value, all of which are truthy here. -/
def truthy : Slot β → Bool
  | val _ => true
  | _ => false

/-- `slot === null` -/
def isNull : Slot β → Bool
  | null => true
  | _ => false

/-- `slot ?? null`, with `none` for `null`. -/
def toOption : Slot β → Option β
  | val x => some x
  | _ => none

@[simp] theorem toOption_eq_some {s : Slot β} {x : β} : s.toOption = some x ↔ s = val x := by
  cases s <;> simp [toOption]

end Slot

/-- `arr.at(i)` : a negative index counts from the end. -/
def arrayAt {γ : Type*} (l : List γ) (i : ℤ) : Option γ :=
  if 0 ≤ i then l[i.toNat]? else if 0 ≤ l.length + i then l[(l.length + i).toNat]? else none

@[simp] theorem arrayAt_natCast {γ : Type*} (l : List γ) (i : ℕ) : arrayAt l i = l[i]? := by
  simp [arrayAt]

@[simp] theorem arrayAt_neg_one {γ : Type*} (l : List γ) : arrayAt l (-1) = l.getLast? := by
  cases l with
  | nil => rfl
  | cons x l =>
    have hlast : ((x :: l).length : ℤ) + -1 = l.length := by
      rw [List.length_cons]
      omega
    rw [arrayAt, if_neg (by decide), hlast, if_pos (Int.natCast_nonneg _), Int.toNat_natCast,
      List.getLast?_eq_getElem?]
    rfl

/-- `arr[i]` -/
def readAt {β : Type*} (arr : List (Slot β)) (i : ℤ) : Slot β :=
  if 0 ≤ i then (arr.getD i.toNat .hole).read else .undefined

/-- Write position `i` of a list, which grows with `d` as far as needed. -/
def growSet {γ : Type*} (d : γ) (l : List γ) (i : ℕ) (x : γ) : List γ :=
  if i < l.length then l.set i x else l ++ List.replicate (i - l.length) d ++ [x]

/-- `arr[i] = s` . The array grows with holes; a negative index would only set a property
of the array object, which no element access sees. -/
def writeAt {β : Type*} (arr : List (Slot β)) (i : ℤ) (s : Slot β) : List (Slot β) :=
  if i < 0 then arr else growSet .hole arr i.toNat s

variable {β γ : Type*}

/-- Writing one position changes it, fills the gap and leaves the others alone. -/
theorem getD_growSet (d : γ) (l : List γ) (i j : ℕ) (x : γ) :
    (growSet d l i x).getD j d = if i = j then x else l.getD j d := by
  unfold growSet
  simp only [List.getD_eq_getElem?_getD]
  split_ifs with hlt hij hij
  · subst hij
    simp [List.getElem?_set_self hlt]
  · simp [List.getElem?_set_ne hij]
  · subst hij
    have hi : i = (l ++ List.replicate (i - l.length) d).length := by simp; omega
    conv_lhs => rw [hi]
    simp
  · rw [List.append_assoc]
    rcases Nat.lt_or_ge j l.length with hj | hj
    · rw [List.getElem?_append_left hj]
    · rw [List.getElem?_append_right hj, List.getElem?_eq_none hj]
      rcases Nat.lt_or_ge (j - l.length) (i - l.length) with hj' | hj'
      · rw [List.getElem?_append_left (by simpa using hj'), List.getElem?_replicate, if_pos hj']
        rfl
      · rw [List.getElem?_eq_none (by simp; omega)]

/-- Data that is read is a member. -/
theorem mem_of_getD {arr : List (Slot β)} {i : ℕ} {x : β} (h : arr.getD i .hole = .val x) :
    .val x ∈ arr := by
  rw [List.getD_eq_getElem?_getD] at h
  cases hget : arr[i]? with
  | none => simp [hget] at h
  | some s =>
    rw [hget, Option.getD_some] at h
    exact h ▸ List.mem_of_getElem? hget

theorem getD_writeAt (arr : List (Slot β)) (i : ℤ) (j : ℕ) (s : Slot β) :
    (writeAt arr i s).getD j .hole = if i = j then s else arr.getD j .hole := by
  unfold writeAt
  split_ifs with hneg hij hij
  · omega
  · rfl
  · subst hij
    rw [getD_growSet, if_pos (by simp)]
  · rw [getD_growSet, if_neg (by omega)]

theorem readAt_natCast (arr : List (Slot β)) (i : ℕ) :
    readAt arr i = (arr.getD i .hole).read := by
  simp [readAt]

/-- Data is only read inside the array. -/
theorem bounds_of_readAt {arr : List (Slot β)} {i : ℤ} {x : β} (h : readAt arr i = .val x) :
    0 ≤ i ∧ i < arr.length := by
  unfold readAt at h
  split_ifs at h with hi
  refine ⟨hi, ?_⟩
  by_contra hlt
  rw [List.getD_eq_getElem?_getD, List.getElem?_eq_none (by omega)] at h
  cases h

theorem readAt_map_val (f : γ → β) (l : List γ) {k : ℕ} {x : γ} (h : l[k]? = some x) :
    readAt (l.map fun y => .val (f y)) k = .val (f x) := by
  rw [readAt_natCast, List.getD_eq_getElem?_getD, List.getElem?_map, h]
  rfl

end Lib
