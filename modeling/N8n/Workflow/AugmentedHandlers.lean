import N8n.Workflow.AugmentedView

/-!
# The handlers of a proxy

Each handler does to the proxy what the same operation does to the object the copy holds :
`get_spec`, `set_spec`, `deleteProperty_spec`, `has_spec` and `ownKeys_spec`. Reading an object
for the first time wraps it and leaves the copy as it is (`Represents.read`). The descriptor of
a property is right unless an array was copied and has no such property
(`hasOwnProperty_spec`), and a bare object may not be written to an array.
-/

open Lib

namespace N8n.AugmentObject

variable {toLength : Primitive → Option ℕ} {s : State} {c : Copy} {p : ℕ} {P P' : Proxy}

/-! ## Writing through a proxy -/

theorem change_nil (s : State) (p : ℕ) (P : Proxy) : s.change p P [] = s.setProxy p P := by
  rw [State.change, List.map_nil, List.append_nil]
  rfl

theorem erase_setProxy (hp : s.proxies[p]? = some P) (hdata : P'.data = P.data) :
    erase (s.setProxy p P') = erase s := by
  funext v
  cases v with
  | primitive _ => rfl
  | object _ => rfl
  | proxy q =>
    have htarget : (s.setProxy p P').target q = s.target q := by
      by_cases hq : q = p
      · subst hq
        have hself : (s.setProxy q P').proxies[q]? = some P' :=
          List.getElem?_set_self (List.getElem?_eq_some_iff.mp hp).1
        rw [target_eq hp, target_eq hself, hdata]
      · rw [State.target, State.target, State.setProxy, List.getElem?_set_ne (Ne.symm hq)]
    rw [erase, erase, htarget]

/-- A proxy shows something else, and nothing was wrapped for it. -/
theorem Represents.setProxy (h : Represents s c) (hp : s.proxies[p]? = some P)
    (hdata : P'.data = P.data) (hkind : P'.WellKinded s.heap)
    (hunread : ∀ key, P'.unread s.heap key → P.unread s.heap key)
    (hvalues : ∀ key v, (P'.view s.heap).properties key = some v →
      ¬P'.unread s.heap key ∧ Known s v ∨
        P'.unread s.heap key ∧ v = .object (P.data.child key)) :
    Later s (s.setProxy p P') ∧ Represents (s.setProxy p P')
      (c.setPlain P.data ((P'.view s.heap).mapValues (erase s))) := by
  have hchange : s.change p P' ((none : Option String).map P.data.child).toList =
      s.setProxy p P' := change_nil s p P'
  have hlater := later_change none hp hdata
  have hrepresents := h.change none hp hdata hkind hunread (fun _ hkey => by cases hkey)
    fun key v hv => (hvalues key v hv).imp (And.imp_right hlater.known) id
  rw [hchange] at hlater hrepresents
  rw [erase_setProxy hp hdata] at hrepresents
  exact ⟨hlater, hrepresents⟩

variable {data : Address}

/-- The copied items of an array are what they were, or known. -/
theorem Represents.setArray (h : Represents s c) {newData : Option Plain}
    (hp : s.proxies[p]? = some (.array data newData)) {o : Plain} (harray : o.isArray = true)
    (ho : ∀ key v, o.properties key = some v →
      (getData s.heap data newData).properties key = some v ∨
        Known s v ∧ ∀ a, v ≠ .object a) :
    Later s (s.setProxy p (.array data (some o))) ∧
      Represents (s.setProxy p (.array data (some o)))
        (c.setPlain data (o.mapValues (erase s))) := by
  have hunread : ∀ key, (Proxy.array data (some o)).unread s.heap key →
      (Proxy.array data newData).unread s.heap key := by
    rintro key ⟨a, ha⟩
    obtain hold | ⟨-, hraw⟩ := ho key _ ha
    · exact ⟨a, hold⟩
    · exact (hraw a rfl).elim
  refine h.setProxy hp rfl ⟨harray, (h.kinds hp).2⟩ hunread fun key v hv => ?_
  obtain hold | ⟨hknown, hraw⟩ := ho key v hv
  · obtain ⟨hread, hknown⟩ | ⟨-, rfl⟩ := h.values hp hold
    · exact .inl ⟨fun hu => hread (hunread key hu), hknown⟩
    · exact .inr ⟨⟨_, hv⟩, rfl⟩
  · refine .inl ⟨?_, hknown⟩
    rintro ⟨a, ha⟩
    exact hraw a (Option.some.inj (hv.symm.trans ha))

variable {newData : String → Option Value} {deleted : String → Bool}

/-- The properties that are kept for an object are what they were, or known; no other one is
shown again. -/
theorem Represents.setObject (h : Represents s c)
    {newData' : String → Option Value} {deleted' : String → Bool}
    (hp : s.proxies[p]? = some (.object data newData deleted))
    (hnew : ∀ key v, deleted' key = false → newData' key = some v →
      deleted key = false ∧ newData key = some v ∨ Known s v)
    (hold : ∀ key, deleted' key = false → newData' key = none → (s.heap data).has key →
      deleted key = false ∧ newData key = none) :
    Later s (s.setProxy p (.object data newData' deleted')) ∧
      Represents (s.setProxy p (.object data newData' deleted')) (c.setPlain data
        (((Proxy.object data newData' deleted').view s.heap).mapValues (erase s))) := by
  have hown : ∀ key v, (s.heap data).properties key = some v → (s.heap data).has key := by
    intro key v hv
    rw [has_object (h.kinds hp), hv]
    rfl
  have hkind : (s.heap data).isArray = false := h.kinds hp
  refine h.setProxy hp rfl hkind ?_ fun key v hv => ?_
  · rintro key ⟨hd, hn, a, ha⟩
    obtain ⟨hd', hn'⟩ := hold key hd hn (hown key _ ha)
    exact ⟨hd', hn', a, ha⟩
  · change (if deleted' key then none else (newData' key).or ((s.heap data).properties key)) =
      some v at hv
    cases hd : deleted' key with
    | true => simp [hd] at hv
    | false =>
      rw [hd, if_neg Bool.false_ne_true] at hv
      cases hn : newData' key with
      | some w =>
        rw [hn, Option.some_or] at hv
        obtain rfl := Option.some.inj hv
        refine .inl ⟨fun hu => ?_, ?_⟩
        · have hnone : newData' key = none := hu.2.1
          rw [hn] at hnone
          cases hnone
        · obtain ⟨hd', hn'⟩ | hknown := hnew key w hd hn
          · have hview : ((Proxy.object data newData deleted).view s.heap).properties key =
                some w := by
              change (if deleted key then none else
                (newData key).or ((s.heap data).properties key)) = some w
              rw [hd', hn', if_neg Bool.false_ne_true, Option.some_or]
            obtain ⟨-, hknown⟩ | ⟨hu, -⟩ := h.values hp hview
            · exact hknown
            · have hnone : newData key = none := hu.2.1
              rw [hn'] at hnone
              cases hnone
          · exact hknown
      | none =>
        rw [hn, Option.none_or] at hv
        obtain ⟨q, rfl⟩ | rfl := h.shape data key v hv
        · refine .inl ⟨?_, trivial⟩
          rintro ⟨-, -, b, hb⟩
          rw [hv] at hb
          cases hb
        · exact .inr ⟨⟨hd, hn, _, hv⟩, rfl⟩

/-! ## The handlers -/

theorem Represents.get_eq (h : Represents s c) (hp : s.proxies[p]? = some P) (key : String) :
    (c.heap P.data).get key = erase s ((P.view s.heap).get key) := by
  rw [h.view hp, Plain.get_mapValues fun _ => rfl]

theorem Represents.has_eq (h : Represents s c) (hp : s.proxies[p]? = some P) (key : String) :
    (c.heap P.data).has key = (P.view s.heap).has key := by
  rw [h.view hp, Plain.has_mapValues fun _ => rfl]

theorem isArray_view (h : P.WellKinded s.heap) :
    (P.view s.heap).isArray = (s.heap P.data).isArray := by
  cases P with
  | array data newData => exact h.1.trans h.2.symm
  | object data newData deleted => rfl

theorem has_view_object (h : (s.heap data).isArray = false) (key : String) :
    ((Proxy.object data newData deleted).view s.heap).has key =
      if deleted key then false else (newData key).isSome || (s.heap data).has key := by
  have hview : ((Proxy.object data newData deleted).view s.heap).isArray = false := h
  rw [has_object hview, has_object h]
  change (if deleted key then none else
    (newData key).or ((s.heap data).properties key)).isSome = _
  split_ifs
  · rfl
  · exact Option.isSome_or

theorem has_spec (h : Represents s c) (hp : s.proxies[p]? = some P) (key : String) :
    has p key s = (c.heap P.data).has key := by
  rw [h.has_eq hp, has, hp]
  cases P with
  | array data newData => rfl
  | object data newData deleted => exact (has_view_object (h.kinds hp) key).symm

theorem ownKeys_spec (h : Represents s c) (hp : s.proxies[p]? = some P) (key : String) :
    ownKeys p key s = (c.heap P.data).has key := by
  rw [h.has_eq hp, ownKeys, hp]
  cases P with
  | array data newData => rfl
  | object data newData deleted =>
    refine Eq.trans ?_ (has_view_object (h.kinds hp) key).symm
    cases hdeleted : deleted key <;> simp [hdeleted, Bool.or_comm]

/-- The array was not copied, or it has the property. -/
def Proxy.describes (key : String) : Proxy → Bool
  | .array _ newData => newData.all (·.has key)
  | .object _ _ _ => true

variable {key : String}

theorem hasOwnProperty_spec (h : Represents s c) (hp : s.proxies[p]? = some P)
    (hkey : P.describes key) : hasOwnProperty p key s = (c.heap P.data).has key := by
  rw [h.has_eq hp, hasOwnProperty, hp]
  cases P with
  | array data newData =>
    cases newData with
    | none => rfl
    | some o => exact Eq.symm hkey
  | object data newData deleted => exact (has_view_object (h.kinds hp) key).symm

/-- The deleted properties, the key among them if the object has it. -/
def deletedWith (s : State) (data : Address) (deleted : String → Bool) (key : String) :
    String → Bool :=
  if (s.heap data).has key then Function.update deleted key true else deleted

theorem deletedWith_self (deleted : String → Bool) (h : (s.heap data).has key) :
    deletedWith s data deleted key key = true := by
  rw [deletedWith, if_pos h, Function.update_self]

theorem deletedWith_of_ne (deleted : String → Bool) {k : String} (h : k ≠ key) :
    deletedWith s data deleted key k = deleted k := by
  rw [deletedWith]
  split_ifs
  · exact Function.update_of_ne h _ _
  · rfl

theorem Represents.deleteObject (h : Represents s c)
    (hp : s.proxies[p]? = some (.object data newData deleted)) (key : String) :
    Later s (s.setProxy p (.object data (Function.update newData key none)
        (deletedWith s data deleted key))) ∧
      Represents (s.setProxy p (.object data (Function.update newData key none)
        (deletedWith s data deleted key)))
        (c.setPlain data ((((Proxy.object data newData deleted).view s.heap).put key none).mapValues
          (erase s))) := by
  have hkind : (s.heap data).isArray = false := h.kinds hp
  have hview : (Proxy.object data (Function.update newData key none)
      (deletedWith s data deleted key)).view s.heap =
        ((Proxy.object data newData deleted).view s.heap).put key none := by
    rw [Proxy.view, Proxy.view, Plain.put]
    congr 1
    funext k
    by_cases hk : k = key
    · subst hk
      rw [Function.update_self, Function.update_self, Option.none_or]
      by_cases hhas : (s.heap data).has k
      · rw [deletedWith_self deleted hhas, if_pos rfl]
      · rw [has_object hkind, Bool.not_eq_true, Option.isSome_eq_false_iff,
          Option.isNone_iff_eq_none] at hhas
        rw [hhas, ite_self]
    · rw [Function.update_of_ne hk, Function.update_of_ne hk, deletedWith_of_ne deleted hk]
  rw [← hview]
  refine h.setObject hp (fun k v hd hv => .inl ?_) fun k hd hn hhas => ?_
  · by_cases hk : k = key
    · subst hk
      rw [Function.update_self] at hv
      cases hv
    · rw [deletedWith_of_ne deleted hk] at hd
      rw [Function.update_of_ne hk] at hv
      exact ⟨hd, hv⟩
  · by_cases hk : k = key
    · subst hk
      rw [deletedWith_self deleted hhas] at hd
      cases hd
    · rw [deletedWith_of_ne deleted hk] at hd
      rw [Function.update_of_ne hk] at hn
      exact ⟨hd, hn⟩

theorem deleteProperty_object {o : Plain} (h : o.isArray = false) (key : String) :
    o.deleteProperty key = (true, o.put key none) := by
  have hlength : ¬(o.isArray = true ∧ key = "length") := by simp [h]
  rw [Plain.deleteProperty, if_neg hlength]

theorem deleteProperty_spec (h : Represents s c) (hp : s.proxies[p]? = some P) (key : String) :
    (deleteProperty p key s).1 = (c.deleteProperty P.data key).1 ∧
      Later s (deleteProperty p key s).2 ∧
      Represents (deleteProperty p key s).2 (c.deleteProperty P.data key).2 := by
  rw [deleteProperty, hp, Copy.deleteProperty, h.view hp, Plain.deleteProperty_mapValues]
  cases P with
  | array data newData =>
    refine ⟨rfl, h.setArray hp ?_ fun k v hv => .inl ?_⟩
    · have harray := (h.kinds hp).1
      rw [Plain.deleteProperty]
      split_ifs <;> exact harray
    · rw [Plain.deleteProperty] at hv
      split_ifs at hv with hlength
      · exact hv
      · by_cases hk : k = key
        · subst hk
          simp [Plain.put] at hv
        · simpa [Plain.put, hk] using hv
  | object data newData deleted =>
    have hview : ((Proxy.object data newData deleted).view s.heap).isArray = false := h.kinds hp
    rw [deleteProperty_object hview]
    exact ⟨rfl, h.deleteObject hp key⟩

theorem properties_set {o o' : Plain} {v : Value} (h : o.set toLength key v = some o') :
    o'.isArray = o.isArray ∧ ∀ k w, o'.properties k = some w → o.properties k = some w ∨ w = v := by
  have hput : ∀ k w, Function.update o.properties key (some v) k = some w →
      o.properties k = some w ∨ w = v := by
    intro k w hw
    by_cases hk : k = key
    · subst hk
      rw [Function.update_self] at hw
      exact .inr (Option.some.inj hw).symm
    · rw [Function.update_of_ne hk] at hw
      exact .inl hw
  rw [Plain.set] at h
  split_ifs at h
  · obtain ⟨n, -, rfl⟩ := Option.map_eq_some_iff.mp h
    refine ⟨rfl, fun k w hw => .inl ?_⟩
    rw [Plain.setLength] at hw
    simp only at hw
    split_ifs at hw
    exact hw
  · obtain rfl := Option.some.inj h
    exact ⟨rfl, hput⟩
  · obtain rfl := Option.some.inj h
    exact ⟨rfl, hput⟩

theorem set_object {o : Plain} (h : o.isArray = false) (key : String) (v : Value) :
    o.set toLength key v = some (o.put key (some v)) := by
  rw [Plain.set, if_neg (by simp [h])]

theorem Copy.setPlain_heap (c : Copy) (a : Address) : c.setPlain a (c.heap a) = c := by
  rw [Copy.setPlain, Function.update_eq_self]

theorem augment_of_ne_object {v : Value} (h : ∀ a, v ≠ .object a) (s : State) :
    augment v s = (v, s) := by
  cases v with
  | primitive p => rfl
  | proxy q => rfl
  | object a => exact (h a rfl).elim

/-- A property that is kept for an object. -/
theorem Represents.writeObject (h : Represents s c)
    (hp : s.proxies[p]? = some (.object data newData deleted)) (key : String) {v : Value}
    (hv : Known s v) :
    Later s (s.setProxy p (.object data (Function.update newData key (some v))
        (Function.update deleted key false))) ∧
      Represents (s.setProxy p (.object data (Function.update newData key (some v))
        (Function.update deleted key false)))
        (c.setPlain data ((((Proxy.object data newData deleted).view s.heap).put key
          (some v)).mapValues (erase s))) := by
  have hview : (Proxy.object data (Function.update newData key (some v))
      (Function.update deleted key false)).view s.heap =
        ((Proxy.object data newData deleted).view s.heap).put key (some v) := by
    rw [Proxy.view, Proxy.view, Plain.put]
    congr 1
    funext k
    by_cases hk : k = key
    · subst hk
      rw [Function.update_self, Function.update_self, Function.update_self,
        if_neg Bool.false_ne_true, Option.some_or]
    · rw [Function.update_of_ne hk, Function.update_of_ne hk, Function.update_of_ne hk]
  rw [← hview]
  refine h.setObject hp (fun k w hd hw => ?_) fun k hd hn _ => ?_
  · by_cases hk : k = key
    · subst hk
      rw [Function.update_self] at hw
      obtain rfl := Option.some.inj hw
      exact .inr hv
    · rw [Function.update_of_ne hk] at hd hw
      exact .inl ⟨hd, hw⟩
  · by_cases hk : k = key
    · subst hk
      rw [Function.update_self] at hn
      cases hn
    · rw [Function.update_of_ne hk] at hd hn
      exact ⟨hd, hn⟩

/-- Writing a value that is not a bare object, or through the proxy of an object. -/
theorem set_spec (h : Represents s c) (hp : s.proxies[p]? = some P) (key : String) {v : Value}
    (hv : Known s v) (hraw : (s.heap P.data).isArray = true → ∀ a, v ≠ .object a) :
    (set toLength p key s v).1 = (c.set toLength P.data key (erase s v)).1 ∧
      Later s (set toLength p key s v).2 ∧
      Represents (set toLength p key s v).2 (c.set toLength P.data key (erase s v)).2 := by
  have hcopy : (c.heap P.data).set toLength key (erase s v) =
      ((P.view s.heap).set toLength key v).map (Plain.mapValues (erase s)) := by
    rw [h.view hp, Plain.set_mapValues _ key (lengthOf_erase s v)]
  have hisArray : (c.heap P.data).isArray = (s.heap P.data).isArray := by
    rw [h.view hp, Plain.isArray_mapValues, isArray_view (h.kinds hp)]
  rw [set, hp, Copy.set, hcopy, hisArray]
  cases P with
  | array data newData =>
    have harray := (h.kinds hp).2
    rw [if_neg (by simp [Proxy.data, harray])]
    simp only [augment_of_ne_object (hraw harray)]
    have hview : (Proxy.array data newData).view s.heap = getData s.heap data newData := rfl
    rw [hview]
    cases hset : (getData s.heap data newData).set toLength key v with
    | none =>
      have hsame := h.setArray hp (h.kinds hp).1 fun k w hw => .inl hw
      have hc : (getData s.heap data newData).mapValues (erase s) = c.heap data :=
        (h.view hp).symm
      rw [hc, Copy.setPlain_heap] at hsame
      exact ⟨rfl, hsame⟩
    | some o' =>
      obtain ⟨hkind, hprops⟩ := properties_set hset
      refine ⟨rfl, h.setArray hp (hkind.trans (h.kinds hp).1) fun k w hw => ?_⟩
      refine (hprops k w hw).imp_right fun hw => ?_
      rw [hw]
      exact ⟨hv, hraw harray⟩
  | object data newData deleted =>
    have hkind : (s.heap data).isArray = false := h.kinds hp
    have hview : ((Proxy.object data newData deleted).view s.heap).isArray = false := hkind
    by_cases hundefined : v = .undefined
    · subst hundefined
      have hcopied : (s.heap (Proxy.object data newData deleted).data).isArray = false ∧
          erase s Value.undefined = .undefined := ⟨hkind, rfl⟩
      rw [if_pos hcopied, Copy.deleteProperty, h.view hp, Plain.deleteProperty_mapValues,
        deleteProperty_object hview]
      exact ⟨rfl, h.deleteObject hp key⟩
    · have hcopied : ¬((s.heap (Proxy.object data newData deleted).data).isArray = false ∧
          erase s v = .undefined) := fun hc => hundefined (by
        cases v with
        | primitive _ => exact hc.2
        | object _ => exact hc.2
        | proxy _ => cases hc.2)
      rw [if_neg hcopied, set_object hview]
      simp only [if_neg hundefined]
      exact ⟨rfl, h.writeObject hp key hv⟩

/-- Reading an object for the first time wraps it; the copy stays as it is. -/
theorem Represents.read (h : Represents s c) (hp : s.proxies[p]? = some P)
    (hread : P.unread s.heap key)
    (hvalue : (P.view s.heap).properties key = some (.object (P.data.child key)))
    (hdata : P'.data = P.data) (hkind : P'.WellKinded s.heap)
    (hview : P'.view s.heap = (P.view s.heap).put key (some (.proxy s.proxies.length)))
    (hunread : ∀ k, P'.unread s.heap k ↔ k ≠ key ∧ P.unread s.heap k) :
    Later s (s.change p P' [P.data.child key]) ∧
      Represents (s.change p P' [P.data.child key]) c ∧
      Known (s.change p P' [P.data.child key]) (.proxy s.proxies.length) ∧
      erase (s.change p P' [P.data.child key]) (.proxy s.proxies.length) =
        .object (P.data.child key) := by
  have hlater := later_change (some key) hp hdata
  have hlookup : (s.change p P' ((some key).map P.data.child).toList).proxies[s.proxies.length]? =
      some (newProxy s.heap (P.data.child key)) :=
    (getElem?_change (some key) hp).mpr (.inr (.inr ⟨key, rfl, rfl, rfl⟩))
  have hchange := h.change (some key) hp hdata hkind (fun k hk => ((hunread k).mp hk).2)
    (fun k hk => by
      obtain rfl := Option.mem_some.mp hk
      exact ⟨hread, fun hu => ((hunread key).mp hu).1 rfl⟩)
    (fun k v hv => by
      rw [hview, Plain.put] at hv
      simp only at hv
      by_cases hk : k = key
      · subst hk
        rw [Function.update_self] at hv
        obtain rfl := Option.some.inj hv
        exact .inl ⟨fun hu => ((hunread k).mp hu).1 rfl, (List.getElem?_eq_some_iff.mp hlookup).1⟩
      · rw [Function.update_of_ne hk] at hv
        rw [hunread k]
        exact (h.values hp hv).imp (fun hl => ⟨fun hu => hl.1 hu.2, hlater.known hl.2⟩)
          fun hr => ⟨⟨hk, hr.1⟩, hr.2⟩)
  have hnew : ((some key).map P.data.child).toList = [P.data.child key] := rfl
  rw [hnew] at hlater hlookup hchange
  have herase : erase (s.change p P' [P.data.child key]) (.proxy s.proxies.length) =
      .object (P.data.child key) := by
    rw [erase, target_eq hlookup, data_newProxy]
  have hcopy : (P'.view s.heap).mapValues (erase (s.change p P' [P.data.child key])) =
      c.heap P.data := by
    have hsame : (P.view s.heap).mapValues (erase (s.change p P' [P.data.child key])) =
        (P.view s.heap).mapValues (erase s) := by
      refine Plain.mapValues_congr fun k v hv => ?_
      obtain ⟨-, hknown⟩ | ⟨-, rfl⟩ := h.values hp hv
      · exact hlater.erase_eq hknown
      · rfl
    have hput := Plain.put_mapValues (erase (s.change p P' [P.data.child key])) (P.view s.heap) key
      (some (.proxy s.proxies.length))
    rw [Option.map_some, herase, hsame, Plain.put] at hput
    rw [h.view hp, hview, ← hput, Function.update_eq_self_iff.mpr]
    simp [Plain.mapValues, hvalue]
  rw [hcopy, Copy.setPlain_heap] at hchange
  exact ⟨hlater, hchange, (List.getElem?_eq_some_iff.mp hlookup).1, herase⟩

/-- What a proxy shows at a key : a value that stays as it is, or an object to be wrapped. -/
theorem Represents.view_get (h : Represents s c) (hp : s.proxies[p]? = some P) (key : String) :
    ((∀ a, (P.view s.heap).get key ≠ .object a) ∨ ¬P.unread s.heap key) ∧
        Known s ((P.view s.heap).get key) ∨
      P.unread s.heap key ∧
        (P.view s.heap).properties key = some (.object (P.data.child key)) ∧
        (P.view s.heap).get key = .object (P.data.child key) := by
  rw [Plain.get, Plain.getOwn]
  split_ifs
  · exact .inl ⟨.inl fun _ => Value.noConfusion, trivial⟩
  · cases hv : (P.view s.heap).properties key with
    | none => exact .inl ⟨.inl fun _ => Value.noConfusion, trivial⟩
    | some v =>
      obtain ⟨hread, hknown⟩ | ⟨hu, rfl⟩ := h.values hp hv
      · exact .inl ⟨.inr hread, hknown⟩
      · exact .inr ⟨hu, rfl, rfl⟩

theorem properties_of_get {o : Plain} {a : Address} (h : o.get key = .object a) :
    o.properties key = some (.object a) := by
  rw [Plain.get, Plain.getOwn] at h
  split_ifs at h
  · cases h
  · cases hv : o.properties key with
    | none =>
      rw [hv] at h
      cases h
    | some v =>
      rw [hv] at h
      exact congrArg some h

theorem get_spec (h : Represents s c) (hp : s.proxies[p]? = some P) (key : String) :
    Later s (get p key s).2 ∧ Represents (get p key s).2 c ∧
      Known (get p key s).2 (get p key s).1 ∧
      erase (get p key s).2 (get p key s).1 = (c.heap P.data).get key := by
  have hlater : Later s s :=
    ⟨fun _ _ => rfl, le_rfl, fun hq => ⟨_, hq, rfl⟩, fun hq => .inl ⟨_, hq, rfl⟩⟩
  have hstays : get p key s = ((P.view s.heap).get key, s) → Known s ((P.view s.heap).get key) →
      Later s (get p key s).2 ∧ Represents (get p key s).2 c ∧
        Known (get p key s).2 (get p key s).1 ∧
        erase (get p key s).2 (get p key s).1 = (c.heap P.data).get key := by
    intro hget hknown
    rw [hget]
    exact ⟨hlater, h, hknown, (h.get_eq hp key).symm⟩
  have hwraps : ∀ P' : Proxy, get p key s =
      (.proxy s.proxies.length, s.change p P' [P.data.child key]) →
      (P.view s.heap).get key = .object (P.data.child key) →
      Later s (s.change p P' [P.data.child key]) ∧
        Represents (s.change p P' [P.data.child key]) c ∧
        Known (s.change p P' [P.data.child key]) (.proxy s.proxies.length) ∧
        erase (s.change p P' [P.data.child key]) (.proxy s.proxies.length) =
          .object (P.data.child key) →
      Later s (get p key s).2 ∧ Represents (get p key s).2 c ∧
        Known (get p key s).2 (get p key s).1 ∧
        erase (get p key s).2 (get p key s).1 = (c.heap P.data).get key := by
    intro P' hget hvalue hread
    rw [hget, h.get_eq hp, hvalue]
    exact hread
  have hadd : ∀ (P' : Proxy) (a : Address),
      State.setProxy { s with proxies := s.proxies ++ [newProxy s.heap a] } p P' =
        s.change p P' [a] := by
    intro P' a
    rw [State.setProxy, State.change,
      List.set_append_left _ _ (List.getElem?_eq_some_iff.mp hp).1]
    rfl
  cases P with
  | array data newData =>
    obtain ⟨hraw, hknown⟩ | ⟨hu, hproperty, hvalue⟩ := h.view_get hp key
    · have hne : ∀ a, (getData s.heap data newData).get key ≠ .object a := by
        refine hraw.elim id fun hu a ha => hu ⟨a, ?_⟩
        exact properties_of_get ha
      refine hstays ?_ hknown
      rw [get, hp]
      simp only [augment_of_ne_object hne, ne_eq, not_true, if_false]
      rfl
    · have hget : (getData s.heap data newData).get key = .object (data.child key) := hvalue
      have hkind : (Proxy.array data newData).WellKinded s.heap := h.kinds hp
      refine hwraps (.array data (some ((getData s.heap data newData).put key
        (some (.proxy s.proxies.length))))) ?_ hvalue
        (h.read hp hu hproperty rfl hkind rfl fun k => ?_)
      · rw [get, hp]
        simp only [hget, augment_object, ne_eq, reduceCtorEq, not_false_eq_true, if_true, hadd]
        rfl
      · change (∃ a, Function.update (getData s.heap data newData).properties key _ k = _) ↔ _
        by_cases hk : k = key
        · simp [hk]
        · rw [Function.update_of_ne hk]
          exact (and_iff_right hk).symm
  | object data newData deleted =>
    have hkind : (s.heap data).isArray = false := h.kinds hp
    have hview : ((Proxy.object data newData deleted).view s.heap).get key =
        (if deleted key then none else
          (newData key).or ((s.heap data).properties key)).getD .undefined := by
      have hobject : ((Proxy.object data newData deleted).view s.heap).isArray = false := hkind
      rw [Plain.get, getOwn_object hobject]
      rfl
    cases hd : deleted key with
    | true =>
      rw [hd, if_pos rfl] at hview
      refine hstays ?_ (by rw [hview]; trivial)
      rw [get, hp, hview]
      simp only [hd, if_true]
      rfl
    | false =>
      rw [hd, if_neg Bool.false_ne_true] at hview
      cases hn : newData key with
      | some w =>
        rw [hn, Option.some_or, Option.getD_some] at hview
        have hread : ¬(Proxy.object data newData deleted).unread s.heap key := fun hu => by
          have hnone : newData key = none := hu.2.1
          rw [hn] at hnone
          cases hnone
        obtain ⟨-, hknown⟩ | ⟨hu, -⟩ := h.view_get hp key
        · refine hstays ?_ hknown
          rw [get, hp, hview]
          simp only [hd, Bool.false_eq_true, if_false, hn]
        · exact (hread hu).elim
      | none =>
        rw [hn, Option.none_or] at hview
        have hget : (s.heap data).get key =
            ((Proxy.object data newData deleted).view s.heap).get key := by
          rw [hview, Plain.get, getOwn_object hkind]
        obtain ⟨hraw, hknown⟩ | ⟨hu, hproperty, hvalue⟩ := h.view_get hp key
        · have hne : ∀ a, (s.heap data).get key ≠ .object a := by
            rw [hget]
            refine hraw.elim id fun hu a ha => hu ⟨hd, hn, a, ?_⟩
            exact properties_of_get (hget.trans ha)
          refine hstays ?_ hknown
          rw [get, hp, ← hget]
          simp only [hd, Bool.false_eq_true, if_false, hn, augment_of_ne_object hne, ne_eq, not_true]
        · have hobject : (s.heap data).get key = .object (data.child key) := hget.trans hvalue
          refine hwraps (.object data (Function.update newData key
            (some (.proxy s.proxies.length))) deleted) ?_ hvalue
            (h.read hp hu hproperty rfl hkind ?_ fun k => ?_)
          · rw [get, hp]
            simp only [hd, Bool.false_eq_true, if_false, hn, hobject, augment_object, ne_eq,
              reduceCtorEq, not_false_eq_true, if_true, hadd]
            rfl
          · rw [Proxy.view, Proxy.view, Plain.put]
            congr 1
            funext k
            by_cases hk : k = key
            · simp [hk, hd]
            · simp [hk]
          · change (_ ∧ Function.update newData key _ k = none ∧ _) ↔ _
            by_cases hk : k = key
            · simp [hk]
            · rw [Function.update_of_ne hk]
              exact (and_iff_right hk).symm

end N8n.AugmentObject
