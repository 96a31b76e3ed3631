import Mathlib.Data.List.Basic
import Mathlib.Data.List.Nodup

/-!
# Insertion-ordered maps

A JavaScript `Map`, or a plain object used as a dictionary, is a finite map whose
entries are enumerated in insertion order. Setting a key that is there keeps its place;
a new key goes to the end; deleting a key removes its entry.

`OrderedMap` carries the distinctness of its keys, so an entry is in the map exactly
when a lookup finds it (`mem_entries_iff`). The `countP` lemmas say how the number of
entries with a property changes under `set` and `delete`; they are what an accounting
argument over a map needs.
-/

namespace Lib

variable {κ β : Type*}

/-- A finite map with its entries in insertion order. -/
structure OrderedMap (κ β : Type*) where
  entries : List (κ × β)
  nodup_keys : (entries.map Prod.fst).Nodup

namespace OrderedMap

/-- The map with no entry. -/
def empty : OrderedMap κ β := ⟨[], List.nodup_nil⟩

instance : EmptyCollection (OrderedMap κ β) := ⟨empty⟩

instance : Inhabited (OrderedMap κ β) := ⟨empty⟩

def keys (m : OrderedMap κ β) : List κ := m.entries.map Prod.fst

def values (m : OrderedMap κ β) : List β := m.entries.map Prod.snd

def size (m : OrderedMap κ β) : ℕ := m.entries.length

theorem nodup_keys' (m : OrderedMap κ β) : m.keys.Nodup := m.nodup_keys

theorem nodup_entries (m : OrderedMap κ β) : m.entries.Nodup := m.nodup_keys.of_map

variable {m : OrderedMap κ β}

@[ext] theorem ext {m' : OrderedMap κ β} (h : m.entries = m'.entries) : m = m' := by
  cases m
  cases m'
  simpa using h

@[simp] theorem entries_empty : (∅ : OrderedMap κ β).entries = [] := rfl

@[simp] theorem size_empty : (∅ : OrderedMap κ β).size = 0 := rfl

@[simp] theorem keys_empty : (∅ : OrderedMap κ β).keys = [] := rfl

theorem length_keys (m : OrderedMap κ β) : m.keys.length = m.size := List.length_map _

variable [DecidableEq κ]

/-! ## Entry lists -/

/-- The value of the first entry for `k`. -/
def find (k : κ) : List (κ × β) → Option β
  | [] => none
  | (k', v) :: es => if k' = k then some v else find k es

/-- Overwrite the first entry for `k`, or append one. -/
def put (k : κ) (v : β) : List (κ × β) → List (κ × β)
  | [] => [(k, v)]
  | (k', v') :: es => if k' = k then (k, v) :: es else (k', v') :: put k v es

variable {k : κ} {es : List (κ × β)}

theorem find_eq_none_iff :
    find k es = none ↔ k ∉ es.map Prod.fst := by
  induction es with
  | nil => simp [find]
  | cons e es ih =>
    obtain ⟨k', v⟩ := e
    by_cases h : k' = k
    · simp [find, h]
    · have h' : k ≠ k' := fun he => h he.symm
      simp [find, h, h', ih]

variable {v : β}

theorem mem_of_find (h : find k es = some v) :
    (k, v) ∈ es := by
  induction es with
  | nil => simp [find] at h
  | cons e es ih =>
    obtain ⟨k', v'⟩ := e
    by_cases hk : k' = k
    · simp only [find, if_pos hk, Option.some.injEq] at h
      simp [hk, h]
    · simp only [find, if_neg hk] at h
      exact List.mem_cons_of_mem _ (ih h)

theorem find_of_mem (hn : (es.map Prod.fst).Nodup) (h : (k, v) ∈ es) : find k es = some v := by
  induction es with
  | nil => simp at h
  | cons e es ih =>
    obtain ⟨k', v'⟩ := e
    rw [List.map_cons, List.nodup_cons] at hn
    rcases List.mem_cons.mp h with he | he
    · obtain ⟨rfl, rfl⟩ := Prod.mk.inj he
      simp [find]
    · have hne : k' ≠ k := by
        rintro rfl
        exact hn.1 (List.mem_map.mpr ⟨_, he, rfl⟩)
      simp only [find, if_neg hne]
      exact ih hn.2 he

theorem find_put (k k' : κ) (v : β) (es : List (κ × β)) :
    find k' (put k v es) = if k = k' then some v else find k' es := by
  induction es with
  | nil => simp [find, put]
  | cons e es ih =>
    obtain ⟨j, w⟩ := e
    by_cases hj : j = k
    · subst hj
      by_cases hk : j = k' <;> simp [find, put, hk]
    · by_cases hk : j = k'
      · subst hk
        have : k ≠ j := fun he => hj he.symm
        simp [find, put, hj, this]
      · simp [find, put, hj, hk, ih]

theorem map_fst_put (k : κ) (v : β) (es : List (κ × β)) :
    (put k v es).map Prod.fst =
      if k ∈ es.map Prod.fst then es.map Prod.fst else es.map Prod.fst ++ [k] := by
  induction es with
  | nil => simp [put]
  | cons e es ih =>
    obtain ⟨j, w⟩ := e
    by_cases hj : j = k
    · simp [put, hj]
    · have hj' : k ≠ j := fun he => hj he.symm
      by_cases hk : k ∈ es.map Prod.fst
      · rw [if_pos hk] at ih
        rw [if_pos (by simp only [List.map_cons, List.mem_cons]; exact Or.inr hk)]
        simp only [put, if_neg hj, List.map_cons, ih]
      · rw [if_neg hk] at ih
        rw [if_neg (by simp only [List.map_cons, List.mem_cons, not_or]; exact ⟨hj', hk⟩)]
        simp only [put, if_neg hj, List.map_cons, ih, List.cons_append]

theorem nodup_map_fst_put (hn : (es.map Prod.fst).Nodup) :
    ((put k v es).map Prod.fst).Nodup := by
  rw [map_fst_put]
  split_ifs with hk
  · exact hn
  · exact List.nodup_append.mpr ⟨hn, List.nodup_singleton k, by
      intro a ha b hb
      rw [List.mem_singleton.mp hb]
      exact fun he => hk (he ▸ ha)⟩

theorem put_of_find_eq_none (h : find k es = none) :
    put k v es = es ++ [(k, v)] := by
  induction es with
  | nil => rfl
  | cons e es ih =>
    obtain ⟨j, w⟩ := e
    by_cases hj : j = k
    · simp [find, hj] at h
    · simp only [find, if_neg hj] at h
      simp only [put, if_neg hj, ih h, List.cons_append]

theorem put_put (k : κ) (w v : β) (es : List (κ × β)) : put k v (put k w es) = put k v es := by
  induction es with
  | nil => simp [put]
  | cons e es ih =>
    obtain ⟨j, u⟩ := e
    by_cases hj : j = k
    · simp only [put, if_pos hj, if_true]
    · simp only [put, if_neg hj, ih]

theorem put_of_find_eq_some (h : find k es = some v) :
    put k v es = es := by
  induction es with
  | nil => cases h
  | cons e es ih =>
    obtain ⟨j, w⟩ := e
    by_cases hj : j = k
    · subst hj
      simp only [find, if_true, Option.some.injEq] at h
      simp only [put, if_true, h]
    · simp only [find, if_neg hj] at h
      simp only [put, if_neg hj, ih h]

/-- Entry lists without a key twice have the same entries when the lookups are the same. -/
theorem perm_iff_find {es' : List (κ × β)} (hn : (es.map Prod.fst).Nodup)
    (hn' : (es'.map Prod.fst).Nodup) :
    es.Perm es' ↔ ∀ k, find k es = find k es' := by
  have hfind : ∀ {es : List (κ × β)}, (es.map Prod.fst).Nodup → ∀ k v,
      (k, v) ∈ es ↔ find k es = some v :=
    fun hn k v => ⟨find_of_mem hn, mem_of_find⟩
  rw [List.perm_ext_iff_of_nodup hn.of_map hn'.of_map]
  constructor
  · intro h k
    refine Option.ext fun v => ?_
    rw [← hfind hn, ← hfind hn']
    exact h (k, v)
  · rintro h ⟨k, v⟩
    rw [hfind hn, hfind hn', h]

theorem find_filter (p : κ → Bool) (k : κ) (es : List (κ × β)) :
    find k (es.filter fun e => p e.1) = if p k then find k es else none := by
  induction es with
  | nil => simp [find]
  | cons e es ih =>
    obtain ⟨k', v⟩ := e
    by_cases hk : k' = k
    · subst hk
      by_cases hp : p k' = true <;> simp [find, hp, ih]
    · by_cases hp : p k' = true <;> simp [find, hp, hk, ih]

omit [DecidableEq κ] in
theorem sublist_map_fst_filterMap (g : κ → Option β) (ks : List κ) :
    ((ks.filterMap fun k => (g k).map (k, ·)).map Prod.fst).Sublist ks := by
  induction ks with
  | nil => exact .slnil
  | cons k ks ih =>
    cases h : g k with
    | none =>
      rw [List.filterMap_cons_none (by rw [h]; rfl)]
      exact ih.cons k
    | some v =>
      rw [List.filterMap_cons_some (by rw [h]; rfl)]
      exact ih.cons_cons k

theorem find_filterMap (g : κ → Option β) (k : κ) (ks : List κ) :
    find k (ks.filterMap fun k => (g k).map (k, ·)) = if k ∈ ks then g k else none := by
  induction ks with
  | nil => rfl
  | cons k' ks ih =>
    by_cases hk : k' = k
    · subst hk
      cases h : g k' with
      | none => simp [h, ih]
      | some v => simp [h, find]
    · have hne : k ≠ k' := fun he => hk he.symm
      cases h : g k' with
      | none => simp [h, ih, hne]
      | some v => simp [h, ih, hne, hk, find]

/-! ## Operations -/

/-- The value stored under `k`. -/
def get? (m : OrderedMap κ β) (k : κ) : Option β := find k m.entries

def has (m : OrderedMap κ β) (k : κ) : Bool := (m.get? k).isSome

/-- Store `v` under `k`, in the place `k` has or at the end. -/
def set (m : OrderedMap κ β) (k : κ) (v : β) : OrderedMap κ β :=
  ⟨put k v m.entries, nodup_map_fst_put m.nodup_keys⟩

/-- Remove the entry of `k`. -/
def delete (m : OrderedMap κ β) (k : κ) : OrderedMap κ β :=
  ⟨m.entries.filter fun e => e.1 ≠ k, m.nodup_keys.sublist (List.filter_sublist.map Prod.fst)⟩

@[simp] theorem get?_empty (k : κ) : (∅ : OrderedMap κ β).get? k = none := rfl

theorem mem_entries_iff :
    (k, v) ∈ m.entries ↔ m.get? k = some v :=
  ⟨find_of_mem m.nodup_keys, mem_of_find⟩

theorem get?_eq_none_iff : m.get? k = none ↔ k ∉ m.keys :=
  find_eq_none_iff

theorem mem_keys_iff : k ∈ m.keys ↔ ∃ v, m.get? k = some v := by
  rw [← Option.isSome_iff_exists, Option.isSome_iff_ne_none, ne_eq, get?_eq_none_iff, not_not]

theorem mem_values_iff :
    v ∈ m.values ↔ ∃ k, m.get? k = some v := by
  simp only [values, List.mem_map, Prod.exists, exists_eq_right, mem_entries_iff]

theorem has_iff : m.has k = true ↔ k ∈ m.keys := by
  rw [has, Option.isSome_iff_exists, mem_keys_iff]

theorem get?_set (m : OrderedMap κ β) (k k' : κ) (v : β) :
    (m.set k v).get? k' = if k = k' then some v else m.get? k' :=
  find_put k k' v m.entries

@[simp] theorem get?_set_self (m : OrderedMap κ β) (k : κ) (v : β) :
    (m.set k v).get? k = some v := by
  rw [get?_set, if_pos rfl]

theorem get?_set_of_ne (m : OrderedMap κ β) {k' : κ} (v : β) (h : k ≠ k') :
    (m.set k v).get? k' = m.get? k' := by
  rw [get?_set, if_neg h]

theorem mem_keys_set {k' : κ} :
    k' ∈ (m.set k v).keys ↔ k' = k ∨ k' ∈ m.keys := by
  simp only [mem_keys_iff, get?_set]
  by_cases h : k = k'
  · simp [h]
  · simp [h, show k' ≠ k from fun he => h he.symm]

theorem get?_delete (m : OrderedMap κ β) (k k' : κ) :
    (m.delete k).get? k' = if k = k' then none else m.get? k' := by
  refine Option.ext fun v => ?_
  rw [← mem_entries_iff, delete, List.mem_filter, mem_entries_iff]
  by_cases h : k = k'
  · simp [h]
  · simp [h, show k' ≠ k from fun he => h he.symm]

@[simp] theorem get?_delete_self (m : OrderedMap κ β) (k : κ) : (m.delete k).get? k = none := by
  rw [get?_delete, if_pos rfl]

theorem get?_delete_of_ne (m : OrderedMap κ β) {k' : κ} (h : k ≠ k') :
    (m.delete k).get? k' = m.get? k' := by
  rw [get?_delete, if_neg h]

theorem mem_keys_delete {k' : κ} :
    k' ∈ (m.delete k).keys ↔ k' ≠ k ∧ k' ∈ m.keys := by
  simp only [mem_keys_iff, get?_delete]
  by_cases h : k = k'
  · simp [h]
  · simp [h, show k' ≠ k from fun he => h he.symm]

/-- Deleting a list of keys, one after another. -/
def deleteAll (m : OrderedMap κ β) (ks : List κ) : OrderedMap κ β := ks.foldl delete m

theorem get?_deleteAll (m : OrderedMap κ β) (ks : List κ) (k : κ) :
    (m.deleteAll ks).get? k = if k ∈ ks then none else m.get? k := by
  induction ks generalizing m with
  | nil => simp [deleteAll]
  | cons j ks ih =>
    rw [deleteAll, List.foldl_cons, ← deleteAll, ih, get?_delete]
    by_cases hk : k ∈ ks
    · simp [hk]
    · by_cases hj : j = k
      · simp [hj]
      · simp [hk, hj, show k ≠ j from fun he => hj he.symm]

theorem deleteAll_append (m : OrderedMap κ β) (ks ks' : List κ) :
    m.deleteAll (ks ++ ks') = (m.deleteAll ks).deleteAll ks' :=
  List.foldl_append

/-- Steps that each delete a set of keys together delete the union of the sets. -/
theorem foldlM_deleteAll {α ε : Type*} {step : OrderedMap κ β → α → Except ε (OrderedMap κ β)}
    {P : α → κ → Prop} (as : List α)
    (h : ∀ a ∈ as, ∃ ks, (∀ m, step m a = .ok (m.deleteAll ks)) ∧ ∀ k, k ∈ ks ↔ P a k) :
    ∃ ks, (∀ m, as.foldlM step m = .ok (m.deleteAll ks)) ∧ ∀ k, k ∈ ks ↔ ∃ a ∈ as, P a k := by
  induction as with
  | nil => exact ⟨[], fun _ => rfl, by simp⟩
  | cons a as ih =>
    obtain ⟨ks, hks, hP⟩ := h a (by simp)
    obtain ⟨ks', hks', hP'⟩ := ih fun b hb => h b (by simp [hb])
    refine ⟨ks ++ ks', fun m => ?_, fun k => ?_⟩
    · rw [List.foldlM_cons, hks, deleteAll_append, ← hks']
      rfl
    · simp [hP, hP']

theorem entries_set_of_get?_eq_none (h : m.get? k = none) :
    (m.set k v).entries = m.entries ++ [(k, v)] :=
  put_of_find_eq_none h

/-- Setting fresh entries one after another appends them. -/
theorem entries_foldl_set (h : ((m.entries ++ es).map Prod.fst).Nodup) :
    (es.foldl (fun m e => m.set e.1 e.2) m).entries = m.entries ++ es := by
  induction es generalizing m with
  | nil => simp
  | cons e es ih =>
    have hnew : m.get? e.1 = none := by
      rw [get?_eq_none_iff]
      intro hmem
      rw [List.map_append, List.nodup_append] at h
      exact h.2.2 _ hmem e.1 (by simp) rfl
    have hset := entries_set_of_get?_eq_none (v := e.2) hnew
    rw [List.foldl_cons, ih (by rw [hset]; simpa using h), hset]
    simp

theorem entries_foldl_set_map {α : Type*} {f : α → κ} {g : α → β} {l : List α}
    (h : (m.keys ++ l.map f).Nodup) :
    (l.foldl (fun m a => m.set (f a) (g a)) m).entries =
      m.entries ++ l.map fun a => (f a, g a) := by
  have hset : ((l.map fun a => (f a, g a)).foldl (fun m e => m.set e.1 e.2) m).entries =
      m.entries ++ l.map fun a => (f a, g a) :=
    entries_foldl_set (by simpa [keys, Function.comp_def] using h)
  rwa [List.foldl_map] at hset

/-- Setting entries with different keys one after another gives a map of these. -/
theorem get?_foldl_set (h : (es.map Prod.fst).Nodup) :
    (es.foldl (fun (m : OrderedMap κ β) e => m.set e.1 e.2) ∅).get? k = some v ↔ (k, v) ∈ es := by
  rw [← mem_entries_iff, entries_foldl_set (by simpa using h), entries_empty, List.nil_append]

/-- Setting entries one after another, where equal keys come with equal values. -/
theorem get?_foldl_set_of_functional (m : OrderedMap κ β)
    (h : ∀ e ∈ es, ∀ e' ∈ es, e.1 = e'.1 → e.2 = e'.2) :
    (es.foldl (fun m e => m.set e.1 e.2) m).get? k = some v ↔
      (k, v) ∈ es ∨ k ∉ es.map Prod.fst ∧ m.get? k = some v := by
  induction es generalizing m with
  | nil => simp
  | cons e es ih =>
    obtain ⟨j, w⟩ := e
    rw [List.foldl_cons, ih _ fun e he e' he' =>
      h e (List.mem_cons_of_mem _ he) e' (List.mem_cons_of_mem _ he'), get?_set]
    by_cases hj : j = k
    · subst hj
      have hhead : ∀ u, (j, u) ∈ es → w = u := fun u hu =>
        h (j, w) List.mem_cons_self (j, u) (List.mem_cons_of_mem _ hu) rfl
      rw [if_pos rfl]
      constructor
      · rintro (hmem | ⟨-, hw⟩)
        · exact Or.inl (List.mem_cons_of_mem _ hmem)
        · exact Or.inl (Option.some.inj hw ▸ List.mem_cons_self)
      · rintro (hmem | ⟨hnot, -⟩)
        · by_cases hk : j ∈ es.map Prod.fst
          · obtain ⟨⟨j', u⟩, hu, rfl⟩ := List.mem_map.mp hk
            rcases List.mem_cons.mp hmem with heq | hmem
            · obtain ⟨-, rfl⟩ := Prod.mk.inj heq
              exact Or.inl (hhead u hu ▸ hu)
            · exact Or.inl hmem
          · rcases List.mem_cons.mp hmem with heq | hmem
            · exact Or.inr ⟨hk, congrArg some (Prod.mk.inj heq).2.symm⟩
            · exact Or.inl hmem
        · exact absurd List.mem_cons_self hnot
    · simp [hj, show k ≠ j from fun he => hj he.symm]

/-- Setting its own entries one after another rebuilds a map. -/
theorem foldl_set_entries (m : OrderedMap κ β) :
    m.entries.foldl (fun m e => m.set e.1 e.2) ∅ = m :=
  OrderedMap.ext (by simpa using entries_foldl_set (m := ∅) (by simpa using m.nodup_keys))

/-- Setting the entries of a map in another. -/
theorem get?_foldl_set_entries {m' : OrderedMap κ β} :
    (m'.entries.foldl (fun m e => m.set e.1 e.2) m).get? k = some v ↔
      m'.get? k = some v ∨ k ∉ m'.keys ∧ m.get? k = some v := by
  rw [get?_foldl_set_of_functional, mem_entries_iff, keys]
  intro e he e' he' heq
  exact congrArg Prod.snd (List.inj_on_of_nodup_map m'.nodup_keys he he' heq)

theorem mem_keys_foldl_set_entries {m' : OrderedMap κ β} :
    k ∈ (m'.entries.foldl (fun m e => m.set e.1 e.2) m).keys ↔ k ∈ m.keys ∨ k ∈ m'.keys := by
  by_cases hk : k ∈ m'.keys
  · obtain ⟨v, hv⟩ := mem_keys_iff.mp hk
    exact iff_of_true (mem_keys_iff.mpr ⟨v, get?_foldl_set_entries.mpr (Or.inl hv)⟩) (Or.inr hk)
  · have hnone : m'.get? k = none := get?_eq_none_iff.mpr hk
    simp only [mem_keys_iff, get?_foldl_set_entries, hnone]
    simp

/-! ## Counting entries -/

/-- An entry and the entries without it. -/
theorem perm_delete (h : m.get? k = some v) :
    m.entries.Perm ((k, v) :: (m.delete k).entries) := by
  have hfresh : (k, v) ∉ (m.delete k).entries := by simp [mem_entries_iff]
  refine (List.perm_ext_iff_of_nodup m.nodup_entries
    (List.nodup_cons.mpr ⟨hfresh, (m.delete k).nodup_entries⟩)).mpr fun ⟨k', v'⟩ => ?_
  rw [List.mem_cons, mem_entries_iff, mem_entries_iff, get?_delete, Prod.mk.injEq]
  by_cases hk : k = k'
  · subst hk
    simp [h, eq_comm]
  · simp [hk, show k' ≠ k from fun he => hk he.symm]

/-- The entry that is set and the other entries. -/
theorem perm_set (m : OrderedMap κ β) (k : κ) (v : β) :
    (m.set k v).entries.Perm ((k, v) :: (m.delete k).entries) := by
  refine (perm_delete (get?_set_self m k v)).trans (.cons _ ?_)
  refine (List.perm_ext_iff_of_nodup (nodup_entries _) (nodup_entries _)).mpr fun ⟨k', v'⟩ => ?_
  rw [mem_entries_iff, mem_entries_iff, get?_delete, get?_delete, get?_set]
  split_ifs <;> rfl

/-- What the values hold together is what one of them holds and what the others do. -/
theorem perm_flatMap_values {γ : Type*} (f : β → List γ) (h : m.get? k = some v) :
    (m.values.flatMap f).Perm (f v ++ (m.delete k).values.flatMap f) :=
  ((perm_delete h).map Prod.snd).flatMap_right f

theorem perm_flatMap_values_set {γ : Type*} (f : β → List γ) (m : OrderedMap κ β) (k : κ) (v : β) :
    ((m.set k v).values.flatMap f).Perm (f v ++ (m.delete k).values.flatMap f) :=
  ((perm_set m k v).map Prod.snd).flatMap_right f

theorem values_set_of_get?_eq_none (h : m.get? k = none) :
    (m.set k v).values = m.values ++ [v] := by
  rw [values, entries_set_of_get?_eq_none h, List.map_append]
  rfl

/-- Overwriting an entry moves the count by what the old and the new entry contribute. -/
theorem countP_set_of_get? {v' : β} (h : m.get? k = some v') (p : κ × β → Bool) :
    (m.set k v).entries.countP p + (if p (k, v') then 1 else 0) =
      m.entries.countP p + (if p (k, v) then 1 else 0) := by
  rw [(perm_set m k v).countP_eq, (perm_delete h).countP_eq, List.countP_cons, List.countP_cons]
  omega

theorem countP_set_of_get?_eq_none (h : m.get? k = none) (p : κ × β → Bool) :
    (m.set k v).entries.countP p = m.entries.countP p + (if p (k, v) then 1 else 0) := by
  rw [entries_set_of_get?_eq_none h, List.countP_append, List.countP_singleton]

theorem countP_delete_of_get? (h : m.get? k = some v) (p : κ × β → Bool) :
    (m.delete k).entries.countP p + (if p (k, v) then 1 else 0) = m.entries.countP p := by
  rw [(perm_delete h).countP_eq, List.countP_cons]

theorem size_delete_of_get? (h : m.get? k = some v) :
    (m.delete k).size + 1 = m.size :=
  (perm_delete h).length_eq.symm

theorem size_delete_le (m : OrderedMap κ β) (k : κ) : (m.delete k).size ≤ m.size :=
  List.length_filter_le ..

theorem size_deleteAll_le (m : OrderedMap κ β) (ks : List κ) : (m.deleteAll ks).size ≤ m.size := by
  induction ks generalizing m with
  | nil => exact Nat.le_refl _
  | cons k ks ih => exact Nat.le_trans (ih (m.delete k)) (m.size_delete_le k)

/-- The number of entries grows when the key is new. -/
theorem size_set (m : OrderedMap κ β) (k : κ) (v : β) :
    (m.set k v).size = if (m.get? k).isSome then m.size else m.size + 1 := by
  have hset : (m.set k v).size = (m.delete k).size + 1 := (perm_set m k v).length_eq
  cases hk : m.get? k with
  | none => simp [size, entries_set_of_get?_eq_none hk]
  | some v' => rw [hset, size_delete_of_get? hk, Option.isSome_some, if_pos rfl]

end OrderedMap

end Lib
