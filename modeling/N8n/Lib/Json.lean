import N8n.Lib.JsObject
import Mathlib.Data.List.Perm.Subperm
import Mathlib.Data.Option.Basic
import Mathlib.Data.Rat.Defs

/-!
# JSON values

Arrays and objects are families of values, indexed by position; an object carries the
distinctness of its keys. `Json.Related R` compares two values : the same shape, the same
keys in whatever order, equal values apart from strings, and strings related by `R`. With
equality of strings it is deep equality.

`Json.ofEntries` makes an object of a map, and `related_ofEntries_iff` compares two such
objects key by key. `Json.isEqual` decides deep equality (`isEqual_iff`).
-/

namespace Lib

inductive Json where
  | null
  | bool (b : Bool)
  | number (x : ℚ)
  | string (s : String)
  | array (length : ℕ) (items : Fin length → Json)
  | object (keys : List String) (nodup : keys.Nodup) (values : Fin keys.length → Json)

namespace Json

/-- An array from its items. -/
def ofList (l : List Json) : Json := .array l.length l.get

/-- An object from its properties. -/
def ofEntries (m : OrderedMap String Json) : Json :=
  .object m.keys m.nodup_keys' fun i =>
    (m.entries.get (i.cast (List.length_map Prod.fst))).2

/-- `Object.keys`, of an array its indexes. -/
def keys : Json → List String
  | .array length _ => (List.range length).map toString
  | .object keys _ _ => keys
  | _ => []

/-- `value[key]`, of own properties. -/
def get? : Json → String → Option Json
  | .array length items, key =>
    match arrayIndex? key with
    | some i => if h : i < length then some (items ⟨i, h⟩) else none
    | none => none
  | .object keys _ values, key =>
    if h : key ∈ keys then some (values ⟨keys.idxOf key, List.idxOf_lt_length_iff.mpr h⟩) else none
  | _, _ => none

/-- `Array.isArray` -/
def isArray : Json → Bool
  | .array _ _ => true
  | _ => false

/-- The same shape and the same values, but for strings, which are related by `R`. -/
inductive Related (R : String → String → Prop) : Json → Json → Prop
  | null : Related R .null .null
  | bool (b : Bool) : Related R (.bool b) (.bool b)
  | number (x : ℚ) : Related R (.number x) (.number x)
  | string {s t : String} (h : R s t) : Related R (.string s) (.string t)
  | array {length : ℕ} {items items' : Fin length → Json}
      (h : ∀ i, Related R (items i) (items' i)) :
      Related R (.array length items) (.array length items')
  | object {keys keys' : List String} {nodup : keys.Nodup} {nodup' : keys'.Nodup}
      {values : Fin keys.length → Json} {values' : Fin keys'.length → Json}
      (hkeys : ∀ k, k ∈ keys ↔ k ∈ keys')
      (h : ∀ i j, keys.get i = keys'.get j → Related R (values i) (values' j)) :
      Related R (.object keys nodup values) (.object keys' nodup' values')

variable {R R' : String → String → Prop}

theorem Related.refl (hR : ∀ s, R s s) : ∀ a, Related R a a
  | .null => .null
  | .bool b => .bool b
  | .number x => .number x
  | .string s => .string (hR s)
  | .array _ items => .array fun i => Related.refl hR (items i)
  | .object _ nodup values => .object (fun _ => Iff.rfl) fun i j hij => by
      rw [nodup.injective_get hij]
      exact Related.refl hR (values j)

theorem Related.mono (hR : ∀ s t, R s t → R' s t) {a b : Json} (h : Related R a b) :
    Related R' a b := by
  induction h with
  | null => exact .null
  | bool b => exact .bool b
  | number x => exact .number x
  | string h => exact .string (hR _ _ h)
  | array _ ih => exact .array ih
  | object hkeys _ ih => exact .object hkeys ih

/-! ## Properties -/

section

variable {ks ks' : List String} {nodup : ks.Nodup} {nodup' : ks'.Nodup}
  {values : Fin ks.length → Json} {values' : Fin ks'.length → Json}

theorem get?_object (k : String) : (object ks nodup values).get? k =
    if h : k ∈ ks then some (values ⟨ks.idxOf k, List.idxOf_lt_length_iff.mpr h⟩) else none :=
  rfl

theorem get?_object_eq_some_iff {k : String} {v : Json} :
    (object ks nodup values).get? k = some v ↔ ∃ i, ks.get i = k ∧ values i = v := by
  rw [get?_object]
  constructor
  · intro h
    split at h
    · rename_i hk
      exact ⟨⟨ks.idxOf k, List.idxOf_lt_length_iff.mpr hk⟩, List.getElem_idxOf _,
        Option.some.inj h⟩
    · cases h
  · rintro ⟨i, rfl, rfl⟩
    have hidx : ks.idxOf (ks.get i) = i := nodup.idxOf_getElem i.1 i.2
    rw [dif_pos (List.get_mem ks i)]
    exact congrArg (fun j => some (values j)) (Fin.ext hidx)

theorem get?_object_eq_none_iff {k : String} :
    (object ks nodup values).get? k = none ↔ k ∉ ks := by
  rw [get?_object]
  split <;> simp_all

/-- Objects are compared property by property. -/
theorem related_object_iff :
    Related R (.object ks nodup values) (.object ks' nodup' values') ↔
      ∀ k, Option.Rel (Related R) ((object ks nodup values).get? k)
        ((object ks' nodup' values').get? k) := by
  constructor
  · intro h k
    cases h with
    | object hkeys hvalues =>
      cases hv : (object ks nodup values).get? k with
      | none =>
        have hk := mt (hkeys k).mpr (get?_object_eq_none_iff.mp hv)
        rw [get?_object_eq_none_iff.mpr hk]
        exact .none
      | some v =>
        obtain ⟨i, rfl, rfl⟩ := get?_object_eq_some_iff.mp hv
        obtain ⟨j, hj⟩ := List.mem_iff_get.mp ((hkeys _).mp (List.get_mem ks i))
        rw [get?_object_eq_some_iff.mpr ⟨j, hj, rfl⟩]
        exact .some (hvalues i j hj.symm)
  · intro h
    refine .object (fun k => ?_) fun i j hij => ?_
    · have hk := h k
      have hnone : k ∉ ks ↔ k ∉ ks' := by
        rw [← @get?_object_eq_none_iff ks nodup values, ← @get?_object_eq_none_iff ks' nodup' values']
        generalize (object ks nodup values).get? k = v at hk ⊢
        generalize (object ks' nodup' values').get? k = w at hk ⊢
        cases hk <;> simp
      exact not_iff_not.mp hnone
    · have hk := h (ks.get i)
      rw [get?_object_eq_some_iff.mpr ⟨i, rfl, rfl⟩,
        get?_object_eq_some_iff.mpr ⟨j, hij.symm, rfl⟩] at hk
      cases hk with
      | some hk => exact hk

end

@[simp] theorem get?_ofEntries (m : OrderedMap String Json) (k : String) :
    (ofEntries m).get? k = m.get? k := by
  refine Option.ext fun v => ?_
  rw [ofEntries, get?_object_eq_some_iff, ← OrderedMap.mem_entries_iff]
  have hkey : ∀ i : Fin m.keys.length,
      m.keys.get i = (m.entries.get (i.cast (List.length_map Prod.fst))).1 :=
    fun i => List.getElem_map Prod.fst
  constructor
  · rintro ⟨i, rfl, rfl⟩
    rw [hkey]
    exact List.get_mem m.entries _
  · intro hmem
    obtain ⟨i, hi⟩ := List.mem_iff_get.mp hmem
    refine ⟨i.cast (List.length_map Prod.fst).symm, ?_, ?_⟩
    · rw [hkey]
      exact congrArg Prod.fst hi
    · exact congrArg Prod.snd hi

theorem related_ofEntries_iff {m m' : OrderedMap String Json} :
    Related R (ofEntries m) (ofEntries m') ↔
      ∀ k, Option.Rel (Related R) (m.get? k) (m'.get? k) := by
  rw [ofEntries, ofEntries, related_object_iff]
  exact forall_congr' fun k => by
    rw [← ofEntries, ← ofEntries, get?_ofEntries, get?_ofEntries]

/-! ## Deep equality -/

/-- Equality that ignores the order of keys. -/
def isEqual : Json → Json → Bool
  | .null, .null => true
  | .bool b, .bool b' => b == b'
  | .number x, .number x' => x == x'
  | .string s, .string s' => s == s'
  | .array length items, .array length' items' =>
    if h : length = length' then
      (List.finRange length).all fun i => isEqual (items i) (items' (i.cast h))
    else false
  | .object keys _ values, .object keys' nodup' values' =>
    keys.length == keys'.length && (List.finRange keys.length).all fun i =>
      match (object keys' nodup' values').get? (keys.get i) with
      | some value => isEqual (values i) value
      | none => false
  | _, _ => false

theorem isEqual_of_related {a b : Json} (h : Related Eq a b) : isEqual a b = true := by
  induction h with
  | null => rfl
  | bool b => simp [isEqual]
  | number x => simp [isEqual]
  | string h => simp [isEqual, h]
  | array _ ih =>
    rw [isEqual, dif_pos rfl]
    exact List.all_eq_true.mpr fun i _ => ih i
  | @object ks ks' nodup nodup' values values' hkeys _ ih =>
    have hperm : ks.Perm ks' := (List.perm_ext_iff_of_nodup nodup nodup').mpr hkeys
    rw [isEqual, Bool.and_eq_true_iff]
    refine ⟨by simpa using hperm.length_eq, List.all_eq_true.mpr fun i _ => ?_⟩
    obtain ⟨j, hj⟩ := List.mem_iff_get.mp ((hkeys _).mp (List.get_mem ks i))
    rw [get?_object_eq_some_iff.mpr ⟨j, hj, rfl⟩]
    exact ih i j hj.symm

theorem related_of_isEqual {a b : Json} (h : isEqual a b = true) : Related Eq a b := by
  induction a generalizing b with
  | null => cases b <;> first | exact .null | simp [isEqual] at h
  | bool x =>
    cases b with
    | bool y =>
      obtain rfl : x = y := by simpa [isEqual] using h
      exact .bool x
    | _ => simp [isEqual] at h
  | number x =>
    cases b with
    | number y =>
      obtain rfl : x = y := by simpa [isEqual] using h
      exact .number x
    | _ => simp [isEqual] at h
  | string s =>
    cases b with
    | string t => exact .string (by simpa [isEqual] using h)
    | _ => simp [isEqual] at h
  | array length items ih =>
    cases b with
    | array length' items' =>
      rw [isEqual] at h
      split at h
      · rename_i hlen
        subst hlen
        exact .array fun i => ih i (List.all_eq_true.mp h i (List.mem_finRange i))
      · cases h
    | _ => simp [isEqual] at h
  | object ks nodup values ih =>
    cases b with
    | object ks' nodup' values' =>
      rw [isEqual, Bool.and_eq_true_iff] at h
      obtain ⟨hlen, hall⟩ := h
      have hvalue : ∀ i, ∃ j, ks'.get j = ks.get i ∧ isEqual (values i) (values' j) = true := by
        intro i
        have hi := List.all_eq_true.mp hall i (List.mem_finRange i)
        split at hi
        · rename_i value hget
          obtain ⟨j, hj, rfl⟩ := get?_object_eq_some_iff.mp hget
          exact ⟨j, hj, hi⟩
        · cases hi
      have hsub : ks ⊆ ks' := fun k hk => by
        obtain ⟨i, rfl⟩ := List.mem_iff_get.mp hk
        obtain ⟨j, hj, -⟩ := hvalue i
        exact hj ▸ List.get_mem ks' j
      have hperm : ks.Perm ks' :=
        (List.subperm_of_subset nodup hsub).perm_of_length_le (by simpa using (beq_iff_eq.mp hlen).ge)
      refine .object (fun k => hperm.mem_iff) fun i j hij => ?_
      obtain ⟨j', hj', hequal⟩ := hvalue i
      obtain rfl : j' = j := nodup'.injective_get (hj'.trans hij)
      exact ih i hequal
    | _ => simp [isEqual] at h

theorem isEqual_iff (a b : Json) : isEqual a b = true ↔ Related Eq a b :=
  ⟨related_of_isEqual, isEqual_of_related⟩

end Json

end Lib
