import N8n.Interfaces
import N8n.Lib.JsonText

/-!
# What the checksum of a workflow is made of

`calculateWorkflowChecksum` hashes a text of the fields of a workflow, in which the keys of every
object are sorted. The keys are sorted by assigning them in order to a new object, and assigning to
`__proto__` makes no own property: what stands under that key is not in the text.

Two workflows have the same text exactly when they agree up to the order of keys and up to what
stands under `__proto__` (`serializedPayload_eq_iff`).
-/

open Lib

namespace N8n

variable {properties properties' : List (JsString × JsonValue)}

def protoKey : JsString := units "__proto__"

/-- `sortedObject[key] = value` . Assigning to `__proto__` sets the prototype, if anything. -/
def assign (sortedObject : List (JsString × JsonValue)) (property : JsString × JsonValue) :
    List (JsString × JsonValue) :=
  if property.1 = protoKey then sortedObject
  else OrderedMap.put property.1 property.2 sortedObject

/-- The array index a key is the numeral of. -/
def indexOfKey? (key : JsString) : Option ℕ :=
  let index := key.foldl (fun index u => 10 * index + (u.toNat - 48)) 0
  if units (toString index) = key ∧ index < 2 ^ 32 - 1 then some index else none

/-- The own properties of an object as they are enumerated, array indexes first. -/
def enumerated (properties : List (JsString × JsonValue)) : List (JsString × JsonValue) :=
  ((properties.filter fun p => (indexOfKey? p.1).isSome).insertionSort fun p q =>
      (indexOfKey? p.1).getD 0 ≤ (indexOfKey? q.1).getD 0) ++
    properties.filter fun p => !(indexOfKey? p.1).isSome

/-- The keys are sorted by their code units. -/
def keysSorted (properties : List (JsString × JsonValue)) : List (JsString × JsonValue) :=
  properties.insertionSort fun p q => p.1 ≤ q.1

/-- The loop over the sorted keys. -/
def sortedObject (properties : List (JsString × JsonValue)) : List (JsString × JsonValue) :=
  enumerated ((keysSorted properties).foldl assign [])

mutual

def sortObjectKeys : JsonValue → JsonValue
  | .array items => .array (sortItems items)
  | .object properties => .object (sortedObject (sortProperties properties))
  | .null => .null
  | .boolean b => .boolean b
  | .number x => .number x
  | .string s => .string s

def sortItems : List JsonValue → List JsonValue
  | [] => []
  | item :: items => sortObjectKeys item :: sortItems items

def sortProperties : List (JsString × JsonValue) → List (JsString × JsonValue)
  | [] => []
  | (key, value) :: properties => (key, sortObjectKeys value) :: sortProperties properties

end

/-! ## The payload -/

/-- The own properties of a workflow, which has JSON values. -/
structure WorkflowSnapshot where
  properties : List (JsString × JsonValue)
  wellFormed : (JsonValue.object properties).WellFormed

namespace WorkflowSnapshot

def get? (workflow : WorkflowSnapshot) (field : JsString) : Option JsonValue :=
  OrderedMap.find field workflow.properties

end WorkflowSnapshot

def WORKFLOW_CHECKSUM_FIELDS : List JsString :=
  ["name", "description", "nodes", "connections", "settings", "meta", "pinData", "isArchived",
    "activeVersionId", "nodeGroups"].map units

def checksumPayload (workflow : WorkflowSnapshot) : List (JsString × JsonValue) :=
  WORKFLOW_CHECKSUM_FIELDS.foldl (fun checksumPayload field =>
    match workflow.get? field with
    | some value => OrderedMap.put field value checksumPayload
    | none => checksumPayload) []

/-- The text `calculateWorkflowChecksum` hashes. -/
def serializedPayload (workflow : WorkflowSnapshot) : List UInt16 :=
  JsonText.stringify (sortObjectKeys (.object (checksumPayload workflow)))

/-- The workflows have the same checksum fields, with values that are the same own key by own
key. -/
def AgreeOnFields (a b : WorkflowSnapshot) : Prop :=
  ∀ field ∈ WORKFLOW_CHECKSUM_FIELDS, Option.Rel JsonValue.Equal (a.get? field) (b.get? field)

/-- The workflows have the same text exactly if they agree on the checksum fields. -/
def PayloadIsCanonical (a b : WorkflowSnapshot) : Prop :=
  serializedPayload a = serializedPayload b ↔ AgreeOnFields a b

mutual

/-- The value without what stands under `__proto__`, at any depth. -/
def withoutProto : JsonValue → JsonValue
  | .array items => .array (itemsWithoutProto items)
  | .object properties => .object (propertiesWithoutProto properties)
  | .null => .null
  | .boolean b => .boolean b
  | .number x => .number x
  | .string s => .string s

def itemsWithoutProto : List JsonValue → List JsonValue
  | [] => []
  | item :: items => withoutProto item :: itemsWithoutProto items

def propertiesWithoutProto : List (JsString × JsonValue) → List (JsString × JsonValue)
  | [] => []
  | (key, value) :: properties =>
    if key = protoKey then propertiesWithoutProto properties
    else (key, withoutProto value) :: propertiesWithoutProto properties

end

/-- The workflows agree but for what stands under `__proto__`. -/
def AgreeWithoutProto (a b : WorkflowSnapshot) : Prop :=
  ∀ field ∈ WORKFLOW_CHECKSUM_FIELDS,
    Option.Rel JsonValue.Equal ((a.get? field).map withoutProto) ((b.get? field).map withoutProto)

/-! ## Sorted objects -/

theorem perm_enumerated (properties : List (JsString × JsonValue)) :
    (enumerated properties).Perm properties :=
  ((List.perm_insertionSort _ _).append_right _).trans (List.filter_append_perm _ _)

theorem nodup_keysSorted (hnodup : (properties.map Prod.fst).Nodup) :
    ((keysSorted properties).map Prod.fst).Nodup :=
  ((List.perm_insertionSort _ properties).map Prod.fst).nodup_iff.mpr hnodup

/-- The loop makes all own properties but `__proto__`. -/
theorem foldl_assign (hnodup : (properties.map Prod.fst).Nodup) :
    properties.foldl assign [] = properties.filter fun p => p.1 ≠ protoKey := by
  have hkept : ((properties.filter fun p => p.1 ≠ protoKey).map Prod.fst).Nodup :=
    hnodup.sublist (List.filter_sublist.map Prod.fst)
  rw [← JsonValue.lastProperties_of_nodup hkept, JsonValue.lastProperties, List.foldl_filter]
  congr 1
  funext sortedObject property
  by_cases h : property.1 = protoKey <;> simp [assign, h]

theorem perm_sortedObject (hnodup : (properties.map Prod.fst).Nodup) :
    (sortedObject properties).Perm (properties.filter fun p => p.1 ≠ protoKey) := by
  rw [sortedObject, foldl_assign (nodup_keysSorted hnodup)]
  exact (perm_enumerated _).trans ((List.perm_insertionSort _ _).filter _)

theorem pairwise_keysSorted (properties : List (JsString × JsonValue)) :
    (keysSorted properties).Pairwise fun p q => p.1 ≤ q.1 := by
  have : Std.Total fun p q : JsString × JsonValue => p.1 ≤ q.1 :=
    ⟨fun p q => List.le_total p.1 q.1⟩
  have : IsTrans (JsString × JsonValue) fun p q => p.1 ≤ q.1 := ⟨fun _ _ _ => List.le_trans⟩
  exact List.pairwise_insertionSort _ _

/-- The order of the keys does not matter, nor what stands under `__proto__`. -/
theorem sortedObject_eq_iff (hnodup : (properties.map Prod.fst).Nodup)
    (hnodup' : (properties'.map Prod.fst).Nodup) :
    sortedObject properties = sortedObject properties' ↔
      ∀ key, key ≠ protoKey → OrderedMap.find key properties = OrderedMap.find key properties' := by
  have hperm : (properties.filter fun p => p.1 ≠ protoKey).Perm
      (properties'.filter fun p => p.1 ≠ protoKey) ↔
        ∀ key, key ≠ protoKey → OrderedMap.find key properties = OrderedMap.find key properties' := by
    rw [OrderedMap.perm_iff_find (hnodup.sublist (List.filter_sublist.map Prod.fst))
      (hnodup'.sublist (List.filter_sublist.map Prod.fst))]
    refine forall_congr' fun key => ?_
    rw [OrderedMap.find_filter (fun key => key ≠ protoKey),
      OrderedMap.find_filter (fun key => key ≠ protoKey)]
    by_cases hkey : key = protoKey <;> simp [hkey]
  rw [← hperm]
  constructor
  · intro h
    exact (perm_sortedObject hnodup).symm.trans (h ▸ perm_sortedObject hnodup')
  · intro h
    rw [sortedObject, sortedObject, foldl_assign (nodup_keysSorted hnodup),
      foldl_assign (nodup_keysSorted hnodup')]
    congr 1
    have hsorted : ((keysSorted properties).filter fun p => p.1 ≠ protoKey).Perm
        ((keysSorted properties').filter fun p => p.1 ≠ protoKey) :=
      ((List.perm_insertionSort _ _).filter _).trans
        (h.trans ((List.perm_insertionSort _ _).filter _).symm)
    refine List.Perm.eq_of_pairwise (fun p q hp hq hle hle' => ?_)
      ((pairwise_keysSorted properties).filter _) ((pairwise_keysSorted properties').filter _) hsorted
    -- entries with one key are one entry
    have hq := (List.mem_filter.mp (hsorted.mem_iff.mpr hq)).1
    exact List.inj_on_of_nodup_map (nodup_keysSorted hnodup) (List.mem_filter.mp hp).1 hq
      (List.le_antisymm hle hle')

theorem find_sortProperties (key : JsString) (properties : List (JsString × JsonValue)) :
    OrderedMap.find key (sortProperties properties) =
      (OrderedMap.find key properties).map sortObjectKeys := by
  induction properties with
  | nil => simp [sortProperties, OrderedMap.find]
  | cons property properties ih =>
    by_cases h : property.1 = key <;> simp [sortProperties, OrderedMap.find, h, ih]

theorem map_fst_sortProperties (properties : List (JsString × JsonValue)) :
    (sortProperties properties).map Prod.fst = properties.map Prod.fst := by
  induction properties with
  | nil => simp [sortProperties]
  | cons property properties ih => simp [sortProperties, ih]

theorem find_propertiesWithoutProto (key : JsString) (properties : List (JsString × JsonValue)) :
    OrderedMap.find key (propertiesWithoutProto properties) =
      if key = protoKey then none else (OrderedMap.find key properties).map withoutProto := by
  induction properties with
  | nil => simp [propertiesWithoutProto, OrderedMap.find]
  | cons property properties ih =>
    obtain ⟨key', value⟩ := property
    by_cases hproto : key' = protoKey
    · rw [propertiesWithoutProto, if_pos hproto, ih]
      by_cases hkey : key = protoKey
      · rw [if_pos hkey, if_pos hkey]
      · have hne : key' ≠ key := fun h => hkey (h.symm.trans hproto)
        rw [OrderedMap.find, if_neg hne]
    · by_cases hkey : key' = key
      · subst hkey
        simp [propertiesWithoutProto, OrderedMap.find, hproto]
      · simp [propertiesWithoutProto, OrderedMap.find, ih, hproto, hkey]

theorem nodup_propertiesWithoutProto (hnodup : (properties.map Prod.fst).Nodup) :
    ((propertiesWithoutProto properties).map Prod.fst).Nodup := by
  refine hnodup.sublist ?_
  clear hnodup
  induction properties with
  | nil => simp [propertiesWithoutProto]
  | cons property properties ih =>
    by_cases hproto : property.1 = protoKey
    · simpa [propertiesWithoutProto, hproto] using ih.cons protoKey
    · simpa [propertiesWithoutProto, hproto] using ih

/-! ## Sorted values -/

/-- The values under the keys of two objects that are not `__proto__`. -/
theorem forall_find_eq_iff
    (hvalues : ∀ property ∈ properties, ∀ value', value'.WellFormed →
      (sortObjectKeys property.2 = sortObjectKeys value' ↔
        (withoutProto property.2).Equal (withoutProto value')))
    (h' : JsonValue.EntriesWellFormed properties') (key : JsString) :
    (OrderedMap.find key properties).map sortObjectKeys =
        (OrderedMap.find key properties').map sortObjectKeys ↔
      Option.Rel JsonValue.Equal ((OrderedMap.find key properties).map withoutProto)
        ((OrderedMap.find key properties').map withoutProto) := by
  cases hfind : OrderedMap.find key properties with
  | none =>
    cases OrderedMap.find key properties' with
    | none => exact iff_of_true rfl .none
    | some value' => exact iff_of_false nofun nofun
  | some value =>
    cases hfind' : OrderedMap.find key properties' with
    | none => exact iff_of_false nofun nofun
    | some value' =>
      have hvalue := hvalues _ (OrderedMap.mem_of_find hfind) value'
        (JsonValue.wellFormed_of_mem h' (OrderedMap.mem_of_find hfind'))
      rw [Option.map_some, Option.map_some, Option.some.injEq, Option.map_some, Option.map_some,
        Option.rel_some_some, hvalue]

mutual

/-- Two values become the same exactly if they are the same without what stands under
`__proto__`. -/
theorem sortObjectKeys_eq_iff : ∀ value value' : JsonValue, value.WellFormed → value'.WellFormed →
    (sortObjectKeys value = sortObjectKeys value' ↔
      (withoutProto value).Equal (withoutProto value'))
  | .array items, value', h, h' => by
    cases value' with
    | array items' =>
      rw [JsonValue.WellFormed] at h h'
      rw [sortObjectKeys, sortObjectKeys, withoutProto, withoutProto, JsonValue.Equal,
        JsonValue.array.injEq]
      exact sortItems_eq_iff items items' h h'
    | _ => simp [sortObjectKeys, withoutProto, JsonValue.Equal]
  | .object properties, value', h, h' => by
    cases value' with
    | object properties' =>
      rw [JsonValue.WellFormed] at h h'
      rw [sortObjectKeys, sortObjectKeys, withoutProto, withoutProto, JsonValue.object.injEq,
        sortedObject_eq_iff (by rw [map_fst_sortProperties]; exact h.1)
          (by rw [map_fst_sortProperties]; exact h'.1),
        JsonValue.equal_object_iff (nodup_propertiesWithoutProto h.1)]
      refine forall_congr' fun key => ?_
      rw [find_sortProperties, find_sortProperties, find_propertiesWithoutProto,
        find_propertiesWithoutProto]
      by_cases hkey : key = protoKey
      · rw [if_pos hkey, if_pos hkey]
        exact iff_of_true (fun h => absurd hkey h) .none
      · rw [if_neg hkey, if_neg hkey, ← forall_find_eq_iff
          (sortProperties_eq_iff properties h.2) h'.2 key]
        exact ⟨fun h => h hkey, fun h _ => h⟩
    | _ => simp [sortObjectKeys, withoutProto, JsonValue.Equal]
  | .null, value', _, _ => by cases value' <;> simp [sortObjectKeys, withoutProto, JsonValue.Equal]
  | .boolean b, value', _, _ => by
    cases value' <;> simp [sortObjectKeys, withoutProto, JsonValue.Equal]
  | .number x, value', _, _ => by
    cases value' <;> simp [sortObjectKeys, withoutProto, JsonValue.Equal]
  | .string s, value', _, _ => by
    cases value' <;> simp [sortObjectKeys, withoutProto, JsonValue.Equal]

theorem sortItems_eq_iff : ∀ items items' : List JsonValue, JsonValue.ItemsWellFormed items →
    JsonValue.ItemsWellFormed items' →
    (sortItems items = sortItems items' ↔
      JsonValue.ItemsEqual (itemsWithoutProto items) (itemsWithoutProto items'))
  | [], items', _, _ => by
    cases items' <;> simp [sortItems, itemsWithoutProto, JsonValue.ItemsEqual]
  | item :: items, items', h, h' => by
    cases items' with
    | nil => simp [sortItems, itemsWithoutProto, JsonValue.ItemsEqual]
    | cons item' items' =>
      rw [JsonValue.ItemsWellFormed] at h h'
      rw [sortItems, sortItems, itemsWithoutProto, itemsWithoutProto, JsonValue.ItemsEqual,
        List.cons.injEq, sortObjectKeys_eq_iff item item' h.1 h'.1,
        sortItems_eq_iff items items' h.2 h'.2]

theorem sortProperties_eq_iff : ∀ properties : List (JsString × JsonValue),
    JsonValue.EntriesWellFormed properties → ∀ property ∈ properties, ∀ value',
      value'.WellFormed → (sortObjectKeys property.2 = sortObjectKeys value' ↔
        (withoutProto property.2).Equal (withoutProto value'))
  | [], _, _, hmem => nomatch hmem
  | (key, value) :: properties, h, property, hmem => by
    rw [JsonValue.EntriesWellFormed] at h
    intro value' h'
    rcases List.mem_cons.mp hmem with rfl | hmem
    · exact sortObjectKeys_eq_iff value value' h.1 h'
    · exact sortProperties_eq_iff properties h.2 property hmem value' h'

end

/-! ## Well-formed values -/

mutual

theorem wellFormed_sortObjectKeys : ∀ value : JsonValue, value.WellFormed →
    (sortObjectKeys value).WellFormed
  | .array items, h => by
    rw [JsonValue.WellFormed] at h
    rw [sortObjectKeys, JsonValue.WellFormed]
    exact wellFormed_sortItems items h
  | .object properties, h => by
    rw [JsonValue.WellFormed] at h
    have hnodup : ((sortProperties properties).map Prod.fst).Nodup := by
      rw [map_fst_sortProperties]
      exact h.1
    have hperm := perm_sortedObject hnodup
    rw [sortObjectKeys, JsonValue.WellFormed]
    refine ⟨(hperm.map Prod.fst).nodup_iff.mpr (hnodup.sublist (List.filter_sublist.map _)), ?_⟩
    refine JsonValue.entriesWellFormed_iff.mpr fun entry hentry => ?_
    exact JsonValue.entriesWellFormed_iff.mp (wellFormed_sortProperties properties h.2) entry
      (List.mem_filter.mp (hperm.mem_iff.mp hentry)).1
  | .null, _ => by simp [sortObjectKeys, JsonValue.WellFormed]
  | .boolean b, _ => by simp [sortObjectKeys, JsonValue.WellFormed]
  | .number x, _ => by simp [sortObjectKeys, JsonValue.WellFormed]
  | .string s, _ => by simp [sortObjectKeys, JsonValue.WellFormed]

theorem wellFormed_sortItems : ∀ items : List JsonValue, JsonValue.ItemsWellFormed items →
    JsonValue.ItemsWellFormed (sortItems items)
  | [], h => by rwa [sortItems]
  | item :: items, h => by
    rw [JsonValue.ItemsWellFormed] at h
    rw [sortItems, JsonValue.ItemsWellFormed]
    exact ⟨wellFormed_sortObjectKeys item h.1, wellFormed_sortItems items h.2⟩

theorem wellFormed_sortProperties : ∀ properties : List (JsString × JsonValue),
    JsonValue.EntriesWellFormed properties →
      JsonValue.EntriesWellFormed (sortProperties properties)
  | [], h => by rwa [sortProperties]
  | (key, value) :: properties, h => by
    rw [JsonValue.EntriesWellFormed] at h
    rw [sortProperties, JsonValue.EntriesWellFormed]
    exact ⟨wellFormed_sortObjectKeys value h.1, wellFormed_sortProperties properties h.2⟩

end

/-! ## Values that agree -/

mutual

/-- Values that are the same are so without what stands under `__proto__`. -/
theorem equal_withoutProto : ∀ value value' : JsonValue, value.WellFormed →
    value.Equal value' → (withoutProto value).Equal (withoutProto value')
  | .array items, value', h, hequal => by
    cases value' with
    | array items' =>
      rw [JsonValue.WellFormed] at h
      rw [JsonValue.Equal] at hequal
      rw [withoutProto, withoutProto, JsonValue.Equal]
      exact itemsEqual_withoutProto items items' h hequal
    | _ => simp [JsonValue.Equal] at hequal
  | .object properties, value', h, hequal => by
    cases value' with
    | object properties' =>
      rw [JsonValue.WellFormed] at h
      rw [JsonValue.equal_object_iff h.1] at hequal
      rw [withoutProto, withoutProto, JsonValue.equal_object_iff (nodup_propertiesWithoutProto h.1)]
      intro key
      rw [find_propertiesWithoutProto, find_propertiesWithoutProto]
      split
      · exact .none
      · exact rel_withoutProto properties h.2 key _ (hequal key)
    | _ => simp [JsonValue.Equal] at hequal
  | .null, value', _, hequal => by cases value' <;> simp_all [JsonValue.Equal, withoutProto]
  | .boolean b, value', _, hequal => by cases value' <;> simp_all [JsonValue.Equal, withoutProto]
  | .number x, value', _, hequal => by cases value' <;> simp_all [JsonValue.Equal, withoutProto]
  | .string s, value', _, hequal => by cases value' <;> simp_all [JsonValue.Equal, withoutProto]

theorem itemsEqual_withoutProto : ∀ items items' : List JsonValue, JsonValue.ItemsWellFormed items →
    JsonValue.ItemsEqual items items' →
      JsonValue.ItemsEqual (itemsWithoutProto items) (itemsWithoutProto items')
  | [], items', _, hequal => by
    cases items' <;> simp_all [JsonValue.ItemsEqual, itemsWithoutProto]
  | item :: items, items', h, hequal => by
    cases items' with
    | nil => simp [JsonValue.ItemsEqual] at hequal
    | cons item' items' =>
      rw [JsonValue.ItemsWellFormed] at h
      rw [JsonValue.ItemsEqual] at hequal
      rw [itemsWithoutProto, itemsWithoutProto, JsonValue.ItemsEqual]
      exact ⟨equal_withoutProto item item' h.1 hequal.1,
        itemsEqual_withoutProto items items' h.2 hequal.2⟩

theorem rel_withoutProto : ∀ properties : List (JsString × JsonValue),
    JsonValue.EntriesWellFormed properties → ∀ (key : JsString) (found : Option JsonValue),
      Option.Rel JsonValue.Equal (OrderedMap.find key properties) found →
        Option.Rel JsonValue.Equal ((OrderedMap.find key properties).map withoutProto)
          (found.map withoutProto)
  | [], _, key, found, hrel => by
    rw [OrderedMap.find] at hrel ⊢
    cases hrel
    exact .none
  | (key', value) :: properties, h, key, found, hrel => by
    rw [JsonValue.EntriesWellFormed] at h
    rw [OrderedMap.find] at hrel ⊢
    split at hrel
    · rename_i hkey
      rw [if_pos hkey]
      cases hrel with
      | some hequal => exact .some (equal_withoutProto value _ h.1 hequal)
    · rename_i hkey
      rw [if_neg hkey]
      exact rel_withoutProto properties h.2 key found hrel

end

/-! ## The payload -/

variable (workflow : WorkflowSnapshot)

theorem nodup_checksumFields : WORKFLOW_CHECKSUM_FIELDS.Nodup := by decide

theorem protoKey_not_mem : protoKey ∉ WORKFLOW_CHECKSUM_FIELDS := by decide

theorem checksumPayload_eq :
    checksumPayload workflow = WORKFLOW_CHECKSUM_FIELDS.filterMap fun field =>
      (workflow.get? field).map (field, ·) := by
  have hnodup := nodup_checksumFields.sublist
    (OrderedMap.sublist_map_fst_filterMap workflow.get? WORKFLOW_CHECKSUM_FIELDS)
  rw [← JsonValue.lastProperties_of_nodup hnodup, JsonValue.lastProperties, List.foldl_filterMap,
    checksumPayload]
  congr 1
  funext checksumPayload field
  cases workflow.get? field <;> rfl

theorem find_checksumPayload (field : JsString) :
    OrderedMap.find field (checksumPayload workflow) =
      if field ∈ WORKFLOW_CHECKSUM_FIELDS then workflow.get? field else none := by
  rw [checksumPayload_eq]
  have hfind := OrderedMap.find_filterMap workflow.get? field WORKFLOW_CHECKSUM_FIELDS
  by_cases hfield : field ∈ WORKFLOW_CHECKSUM_FIELDS
  · rwa [if_pos hfield] at hfind ⊢
  · rwa [if_neg hfield] at hfind ⊢

theorem wellFormed_checksumPayload :
    (JsonValue.object (checksumPayload workflow)).WellFormed := by
  have hwellFormed := workflow.wellFormed
  rw [JsonValue.WellFormed] at hwellFormed ⊢
  rw [checksumPayload_eq]
  refine ⟨nodup_checksumFields.sublist (OrderedMap.sublist_map_fst_filterMap _ _), ?_⟩
  refine JsonValue.entriesWellFormed_iff.mpr fun entry hentry => ?_
  obtain ⟨field, -, hfield⟩ := List.mem_filterMap.mp hentry
  obtain ⟨value, hvalue, rfl⟩ := Option.map_eq_some_iff.mp hfield
  exact JsonValue.wellFormed_of_mem hwellFormed.2 (OrderedMap.mem_of_find hvalue)

variable {a b : WorkflowSnapshot}

/-- The text tells the checksum fields but for what stands under `__proto__`. -/
theorem serializedPayload_eq_iff :
    serializedPayload a = serializedPayload b ↔ AgreeWithoutProto a b := by
  have ha := wellFormed_checksumPayload a
  have hb := wellFormed_checksumPayload b
  have hstringify : serializedPayload a = serializedPayload b ↔
      sortObjectKeys (.object (checksumPayload a)) = sortObjectKeys (.object (checksumPayload b)) := by
    refine ⟨fun h => Option.some.inj ?_, congrArg _⟩
    rw [← JsonText.parse_stringify (wellFormed_sortObjectKeys _ ha),
      ← JsonText.parse_stringify (wellFormed_sortObjectKeys _ hb)]
    exact congrArg _ h
  rw [hstringify, sortObjectKeys_eq_iff _ _ ha hb, withoutProto, withoutProto]
  rw [JsonValue.WellFormed] at ha
  rw [JsonValue.equal_object_iff (nodup_propertiesWithoutProto ha.1)]
  refine forall_congr' fun field => ?_
  rw [find_propertiesWithoutProto, find_propertiesWithoutProto, find_checksumPayload,
    find_checksumPayload]
  by_cases hfield : field ∈ WORKFLOW_CHECKSUM_FIELDS
  · have hne : field ≠ protoKey := fun h => protoKey_not_mem (h ▸ hfield)
    rw [if_neg hne, if_neg hne, if_pos hfield, if_pos hfield]
    exact ⟨fun h _ => h, fun h => h hfield⟩
  · rw [if_neg hfield, if_neg hfield, Option.map_none, ite_self]
    exact iff_of_true .none fun h => absurd h hfield

theorem AgreeOnFields.agreeWithoutProto (h : AgreeOnFields a b) : AgreeWithoutProto a b := by
  intro field hfield
  have hwellFormed := a.wellFormed
  rw [JsonValue.WellFormed] at hwellFormed
  exact rel_withoutProto a.properties hwellFormed.2 field _ (h field hfield)

/-- The text is canonical for two workflows exactly if they do not differ only in what stands under
`__proto__`. -/
theorem payloadIsCanonical_iff (a b : WorkflowSnapshot) :
    PayloadIsCanonical a b ↔ (AgreeWithoutProto a b → AgreeOnFields a b) := by
  rw [PayloadIsCanonical, serializedPayload_eq_iff]
  exact ⟨fun h => h.mp, fun h => ⟨h, AgreeOnFields.agreeWithoutProto⟩⟩

/-- A workflow of which only `meta` is there. -/
def workflowWithMeta (properties : List (JsString × JsonValue))
    (h : (JsonValue.object properties).WellFormed) : WorkflowSnapshot where
  properties := [(units "meta", .object properties)]
  wellFormed := by
    rw [JsonValue.WellFormed]
    exact ⟨List.nodup_singleton _,
      JsonValue.entriesWellFormed_iff.mpr (List.forall_mem_singleton.mpr h)⟩

/-- `JSON.parse('{ "__proto__": { "note": true } }')` is the value of `meta`. -/
def noteWorkflow : WorkflowSnapshot :=
  workflowWithMeta [(protoKey, .object [(units "note", .boolean true)])]
    (by simp [JsonValue.WellFormed, JsonValue.EntriesWellFormed])

def emptyMetaWorkflow : WorkflowSnapshot :=
  workflowWithMeta [] (by simp [JsonValue.WellFormed, JsonValue.EntriesWellFormed])

/-- The note is not in the text. -/
theorem not_payloadIsCanonical_note : ¬ PayloadIsCanonical noteWorkflow emptyMetaWorkflow := by
  intro hcanonical
  have htext : serializedPayload noteWorkflow = serializedPayload emptyMetaWorkflow := by
    decide
  have hagree := hcanonical.mp htext (units "meta") (by decide)
  cases hagree with
  | some hequal =>
    have hproto := (JsonValue.equal_object_iff (by simp)).mp hequal protoKey
    have hfind : OrderedMap.find protoKey [(protoKey, JsonValue.object [(units "note", .boolean true)])] =
        some (.object [(units "note", .boolean true)]) := if_pos rfl
    rw [hfind] at hproto
    cases hproto

end N8n
