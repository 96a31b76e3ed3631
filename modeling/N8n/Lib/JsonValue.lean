import N8n.Lib.JsNumber
import N8n.Lib.OrderedMap
import Mathlib.Data.Option.Basic

/-!
# JSON values as texts tell them

A JSON value is text, a number, a truth value, `null`, an array or an object, the strings being
sequences of UTF-16 code units and the numbers the decimals they are written as. `Equal` compares
two values own key by own key.
-/

namespace Lib

inductive JsonValue where
  | null
  | boolean (b : Bool)
  | number (x : JsNumber)
  | string (s : List UInt16)
  | array (items : List JsonValue)
  | object (entries : List (List UInt16 × JsonValue))

namespace JsonValue

mutual

/-- No object has a key twice. -/
def WellFormed : JsonValue → Prop
  | .array items => ItemsWellFormed items
  | .object entries => (entries.map Prod.fst).Nodup ∧ EntriesWellFormed entries
  | _ => True

def ItemsWellFormed : List JsonValue → Prop
  | [] => True
  | item :: items => WellFormed item ∧ ItemsWellFormed items

def EntriesWellFormed : List (List UInt16 × JsonValue) → Prop
  | [] => True
  | (_, value) :: entries => WellFormed value ∧ EntriesWellFormed entries

end

mutual

/-- The same value, own key by own key. -/
def Equal : JsonValue → JsonValue → Prop
  | .null, .null => True
  | .boolean b, .boolean b' => b = b'
  | .number x, .number x' => x = x'
  | .string s, .string s' => s = s'
  | .array items, .array items' => ItemsEqual items items'
  | .object entries, .object entries' =>
    (∀ key ∈ entries'.map Prod.fst, key ∈ entries.map Prod.fst) ∧ EntriesEqual entries entries'
  | _, _ => False

def ItemsEqual : List JsonValue → List JsonValue → Prop
  | [], [] => True
  | item :: items, item' :: items' => Equal item item' ∧ ItemsEqual items items'
  | _, _ => False

/-- Each of the entries is among those of the other object. -/
def EntriesEqual : List (List UInt16 × JsonValue) → List (List UInt16 × JsonValue) → Prop
  | [], _ => True
  | (key, value) :: entries, entries' =>
    (∃ value', OrderedMap.find key entries' = some value' ∧ Equal value value') ∧
      EntriesEqual entries entries'

end

mutual

theorem equal_refl : ∀ v : JsonValue, v.WellFormed → v.Equal v
  | .null, _ => by simp only [Equal]
  | .boolean b, _ => by simp only [Equal]
  | .number x, _ => by simp only [Equal]
  | .string s, _ => by simp only [Equal]
  | .array items, h => by
    rw [WellFormed] at h
    rw [Equal]
    exact itemsEqual_refl items h
  | .object entries, h => by
    rw [WellFormed] at h
    rw [Equal]
    exact ⟨fun _ hkey => hkey, entriesEqual_of_find entries entries h.2
      fun entry hentry => OrderedMap.find_of_mem h.1 hentry⟩

theorem itemsEqual_refl : ∀ items : List JsonValue, ItemsWellFormed items → ItemsEqual items items
  | [], _ => by simp only [ItemsEqual]
  | item :: items, h => by
    rw [ItemsWellFormed] at h
    rw [ItemsEqual]
    exact ⟨equal_refl item h.1, itemsEqual_refl items h.2⟩

theorem entriesEqual_of_find : ∀ entries whole : List (List UInt16 × JsonValue),
    EntriesWellFormed entries → (∀ entry ∈ entries, OrderedMap.find entry.1 whole = some entry.2) →
    EntriesEqual entries whole
  | [], _, _, _ => by simp only [EntriesEqual]
  | (key, value) :: entries, whole, h, hfind => by
    rw [EntriesWellFormed] at h
    rw [List.forall_mem_cons] at hfind
    rw [EntriesEqual]
    exact ⟨⟨value, hfind.1, equal_refl value h.1⟩, entriesEqual_of_find entries whole h.2 hfind.2⟩

end

theorem entriesWellFormed_iff {entries : List (List UInt16 × JsonValue)} :
    EntriesWellFormed entries ↔ ∀ entry ∈ entries, entry.2.WellFormed := by
  induction entries with
  | nil => simp [EntriesWellFormed]
  | cons entry entries ih => rw [EntriesWellFormed, ih, List.forall_mem_cons]

theorem wellFormed_of_mem {entries : List (List UInt16 × JsonValue)} (h : EntriesWellFormed entries)
    {key : List UInt16} {value : JsonValue} (hmem : (key, value) ∈ entries) : value.WellFormed :=
  entriesWellFormed_iff.mp h _ hmem

/-- Objects are the same when the lookups are. -/
theorem equal_object_iff {properties properties' : List (List UInt16 × JsonValue)}
    (hnodup : (properties.map Prod.fst).Nodup) :
    (object properties).Equal (.object properties') ↔
      ∀ key, Option.Rel Equal (OrderedMap.find key properties)
        (OrderedMap.find key properties') := by
  have hentries : ∀ entries : List (List UInt16 × JsonValue),
      EntriesEqual entries properties' ↔ ∀ entry ∈ entries, ∃ value',
        OrderedMap.find entry.1 properties' = some value' ∧ entry.2.Equal value' := by
    intro entries
    induction entries with
    | nil => simp [EntriesEqual]
    | cons entry entries ih =>
      rw [EntriesEqual, ih, List.forall_mem_cons]
  rw [Equal, hentries]
  constructor
  · rintro ⟨hkeys, hvalues⟩ key
    cases hfind : OrderedMap.find key properties with
    | none =>
      have hnone : OrderedMap.find key properties' = none :=
        OrderedMap.find_eq_none_iff.mpr fun h =>
          OrderedMap.find_eq_none_iff.mp hfind (hkeys key h)
      rw [hnone]
      exact .none
    | some value =>
      obtain ⟨value', hfind', hequal⟩ := hvalues _ (OrderedMap.mem_of_find hfind)
      rw [hfind']
      exact .some hequal
  · intro h
    refine ⟨fun key hkey => ?_, fun entry hentry => ?_⟩
    · by_contra hnone
      have hrel := h key
      rw [OrderedMap.find_eq_none_iff.mpr hnone] at hrel
      cases hfind : OrderedMap.find key properties' with
      | none => exact OrderedMap.find_eq_none_iff.mp hfind hkey
      | some value' =>
        rw [hfind] at hrel
        cases hrel
    · have hrel := h entry.1
      rw [OrderedMap.find_of_mem hnodup hentry] at hrel
      cases hfind : OrderedMap.find entry.1 properties' with
      | none =>
        rw [hfind] at hrel
        cases hrel
      | some value' =>
        rw [hfind] at hrel
        cases hrel with
        | some hequal => exact ⟨value', rfl, hequal⟩

/-- Of two properties with one key, the last one stays. -/
def lastProperties (properties : List (List UInt16 × JsonValue)) : List (List UInt16 × JsonValue) :=
  properties.foldl (fun entries property => OrderedMap.put property.1 property.2 entries) []

theorem lastProperties_of_nodup {properties : List (List UInt16 × JsonValue)}
    (h : (properties.map Prod.fst).Nodup) : lastProperties properties = properties := by
  have hfold : ∀ entries : List (List UInt16 × JsonValue),
      ((entries ++ properties).map Prod.fst).Nodup →
      properties.foldl (fun entries property => OrderedMap.put property.1 property.2 entries) entries =
        entries ++ properties := by
    clear h
    induction properties with
    | nil => simp
    | cons property properties ih =>
      intro entries hnodup
      have hfresh : OrderedMap.find property.1 entries = none := by
        rw [OrderedMap.find_eq_none_iff]
        rw [List.map_append, List.map_cons] at hnodup
        exact fun hmem => (List.nodup_append.mp hnodup).2.2 _ hmem _ List.mem_cons_self rfl
      rw [List.foldl_cons, OrderedMap.put_of_find_eq_none hfresh,
        ih (entries ++ [(property.1, property.2)]) (by rwa [List.append_assoc]), List.append_assoc]
      rfl
  exact hfold [] h

end JsonValue

end Lib
