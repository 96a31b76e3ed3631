import N8n.Workflow.AugmentObject

/-!
# What a proxy shows

`Proxy.view` is the object that a proxy shows, the objects in it not wrapped yet. A copy
represents the proxies (`Represents`) when it holds what they show, and elsewhere what the
heap holds : an object that was not read yet is in the copy as it was made. Each object has
one proxy at most, and one that is wrapped is not unread where it was found.

A change of one proxy, with the object it may have wrapped, keeps this (`Represents.change`),
and so does a new JSON value (`Represents.create`).
-/

open Lib

namespace N8n.AugmentObject

variable {toLength : Primitive → Option ℕ}

/-! ## Views -/

namespace Plain

def mapValues (f : Value → Value) (o : Plain) : Plain :=
  { o with properties := fun key => (o.properties key).map f }

@[simp] theorem isArray_mapValues (f : Value → Value) (o : Plain) :
    (o.mapValues f).isArray = o.isArray := rfl

@[simp] theorem length_mapValues (f : Value → Value) (o : Plain) :
    (o.mapValues f).length = o.length := rfl

variable {f : Value → Value}

theorem getOwn_mapValues (hf : ∀ p, f (.primitive p) = .primitive p) (o : Plain) (key : String) :
    (o.mapValues f).getOwn key = (o.getOwn key).map f := by
  rw [getOwn, getOwn]
  split_ifs with h h' h'
  · rw [Option.map_some, hf]
    rfl
  · exact absurd h h'
  · exact absurd h' h
  · rfl

theorem get_mapValues (hf : ∀ p, f (.primitive p) = .primitive p) (o : Plain) (key : String) :
    (o.mapValues f).get key = f (o.get key) := by
  rw [get, get, getOwn_mapValues hf]
  cases o.getOwn key with
  | none => exact (hf _).symm
  | some v => rfl

theorem has_mapValues (hf : ∀ p, f (.primitive p) = .primitive p) (o : Plain) (key : String) :
    (o.mapValues f).has key = o.has key := by
  rw [has, has, getOwn_mapValues hf, Option.isSome_map]

theorem put_mapValues (f : Value → Value) (o : Plain) (key : String) (value : Option Value) :
    (o.mapValues f).put key (value.map f) = (o.put key value).mapValues f := by
  rw [put, put, mapValues, mapValues]
  congr 1
  funext k
  by_cases hk : k = key
  · subst hk
    simp
  · simp [hk]

theorem deleteProperty_mapValues (f : Value → Value) (o : Plain) (key : String) :
    (o.mapValues f).deleteProperty key =
      ((o.deleteProperty key).1, (o.deleteProperty key).2.mapValues f) := by
  have hput : (o.mapValues f).put key none = (o.put key none).mapValues f :=
    put_mapValues f o key none
  rw [deleteProperty, deleteProperty, isArray_mapValues, hput]
  split_ifs <;> rfl

theorem set_mapValues (o : Plain) (key : String) {value : Value}
    (hlengthOf : lengthOf toLength (f value) = lengthOf toLength value) :
    (o.mapValues f).set toLength key (f value) =
      (o.set toLength key value).map (Plain.mapValues f) := by
  have hput : (o.mapValues f).put key (some (f value)) = (o.put key (some value)).mapValues f :=
    put_mapValues f o key (some value)
  have hlength : (o.mapValues f).setLength = mapValues f ∘ o.setLength := by
    funext n
    rw [Function.comp, setLength, setLength, mapValues, mapValues]
    congr 1
    funext k
    by_cases hk : isBelow n k <;> simp [hk]
  rw [set, set, isArray_mapValues, length_mapValues, hput, hlengthOf, hlength]
  split_ifs
  · exact (Option.map_map _ _ _).symm
  · rfl
  · rfl

end Plain

/-- Own properties of an object. -/
theorem getOwn_object {o : Plain} (h : o.isArray = false) (key : String) :
    o.getOwn key = o.properties key := by
  have hlength : ¬(o.isArray = true ∧ key = "length") := by simp [h]
  rw [Plain.getOwn, if_neg hlength]

theorem has_object {o : Plain} (h : o.isArray = false) (key : String) :
    o.has key = (o.properties key).isSome := by
  rw [Plain.has, getOwn_object h]

/-- The object that a proxy was made of. -/
def State.target (s : State) (p : ℕ) : Address := (s.proxies[p]?).elim ⟨0, []⟩ Proxy.data

/-- The copy's value for a value : an object instead of its proxy. -/
def erase (s : State) : Value → Value
  | .proxy p => .object (s.target p)
  | v => v

theorem target_eq {s : State} {p : ℕ} {P : Proxy} (h : s.proxies[p]? = some P) :
    s.target p = P.data := by
  rw [State.target, h]
  rfl

@[simp] theorem erase_primitive (s : State) (p : Primitive) :
    erase s (.primitive p) = .primitive p := rfl

@[simp] theorem erase_object (s : State) (a : Address) : erase s (.object a) = .object a := rfl

@[simp] theorem erase_proxy (s : State) (p : ℕ) :
    erase s (.proxy p) = .object (s.target p) := rfl

theorem lengthOf_erase (s : State) (v : Value) :
    Plain.lengthOf toLength (erase s v) = Plain.lengthOf toLength v := by
  cases v <;> rfl

namespace Proxy

variable (heap : Heap)

/-- What the proxy shows, its objects not wrapped yet. -/
def view : Proxy → Plain
  | .array data newData => getData heap data newData
  | .object data newData deletedProperties =>
    { heap data with properties := fun key =>
        if deletedProperties key then none else (newData key).or ((heap data).properties key) }

/-- The property is an object that was not wrapped yet. -/
def unread (key : String) : Proxy → Prop
  | .array data newData => ∃ a, (getData heap data newData).properties key = some (.object a)
  | .object data newData deletedProperties =>
    deletedProperties key = false ∧ newData key = none ∧
      ∃ a, (heap data).properties key = some (.object a)

/-- A proxy of an array wraps an array. -/
def WellKinded : Proxy → Prop
  | .array data newData => (getData heap data newData).isArray = true ∧ (heap data).isArray = true
  | .object data _ _ => (heap data).isArray = false

end Proxy

/-- The proxy of an object that is read for the first time. -/
def newProxy (heap : Heap) (a : Address) : Proxy :=
  if (heap a).isArray then augmentArray a else augmentObject a

theorem augment_object (a : Address) (s : State) :
    augment (.object a) s =
      (.proxy s.proxies.length, { s with proxies := s.proxies ++ [newProxy s.heap a] }) := rfl

@[simp] theorem data_newProxy (heap : Heap) (a : Address) : (newProxy heap a).data = a := by
  rw [newProxy]
  split_ifs <;> rfl

theorem view_newProxy (heap : Heap) (a : Address) : (newProxy heap a).view heap = heap a := by
  rw [newProxy]
  split_ifs
  · rfl
  · rfl

theorem wellKinded_newProxy (heap : Heap) (a : Address) : (newProxy heap a).WellKinded heap := by
  rw [newProxy]
  split_ifs with h
  · exact ⟨h, h⟩
  · exact Bool.eq_false_iff.mpr h

variable {a : Address}

theorem unread_newProxy {heap : Heap} {b : Address} {key : String}
    (h : (heap a).properties key = some (.object b)) : (newProxy heap a).unread heap key := by
  rw [newProxy]
  split_ifs
  · exact ⟨b, h⟩
  · exact ⟨rfl, rfl, b, h⟩

theorem not_unread_newProxy {heap : Heap} {key : String} {p : Primitive}
    (h : (heap a).properties key = some (.primitive p)) : ¬(newProxy heap a).unread heap key := by
  rw [newProxy]
  split_ifs
  · rintro ⟨b, hb⟩
    rw [getData, Option.getD_none, h] at hb
    cases hb
  · rintro ⟨-, -, b, hb⟩
    rw [h] at hb
    cases hb

/-! ## The copy -/

/-- A value that is not wrapped when it is read : an object that was set stays as it is, and
nothing in its JSON value is wrapped. -/
def Known (s : State) : Value → Prop
  | .primitive _ => True
  | .proxy p => p < s.proxies.length
  | .object a => a.json < s.jsons ∧
    ∀ (p : ℕ) (P : Proxy), s.proxies[p]? = some P → P.data.json ≠ a.json

/-- The copy holds what the proxies show, and what was not read yet. -/
structure Represents (s : State) (c : Copy) : Prop where
  jsons : c.jsons = s.jsons
  shape : ∀ a key v, (s.heap a).properties key = some v →
    (∃ p, v = .primitive p) ∨ v = .object (a.child key)
  injective : ∀ {p q : ℕ} {P Q : Proxy}, s.proxies[p]? = some P → s.proxies[q]? = some Q →
    P.data = Q.data → p = q
  bounded : ∀ {p : ℕ} {P : Proxy}, s.proxies[p]? = some P → P.data.json < s.jsons
  untouched : ∀ a, (∀ (p : ℕ) (P : Proxy), s.proxies[p]? = some P → P.data ≠ a) →
    c.heap a = s.heap a
  kinds : ∀ {p : ℕ} {P : Proxy}, s.proxies[p]? = some P → P.WellKinded s.heap
  view : ∀ {p : ℕ} {P : Proxy}, s.proxies[p]? = some P →
    c.heap P.data = (P.view s.heap).mapValues (erase s)
  values : ∀ {p : ℕ} {P : Proxy} {key v}, s.proxies[p]? = some P →
    (P.view s.heap).properties key = some v →
    ¬P.unread s.heap key ∧ Known s v ∨ P.unread s.heap key ∧ v = .object (P.data.child key)
  /-- What was wrapped is not unread any more. -/
  parents : ∀ {q : ℕ} {Q : Proxy} {a key}, s.proxies[q]? = some Q → Q.data = Address.child a key →
    ∃ (p : ℕ) (P : Proxy), s.proxies[p]? = some P ∧ P.data = a ∧ ¬P.unread s.heap key

/-- Later states : more proxies, of the same objects. -/
structure Later (s s' : State) : Prop where
  heap : ∀ a, a.json < s.jsons → s'.heap a = s.heap a
  jsons : s.jsons ≤ s'.jsons
  proxies : ∀ {p : ℕ} {P : Proxy}, s.proxies[p]? = some P →
    ∃ P' : Proxy, s'.proxies[p]? = some P' ∧ P'.data = P.data
  wrapped : ∀ {p : ℕ} {P : Proxy}, s'.proxies[p]? = some P →
    (∃ P₀ : Proxy, s.proxies[p]? = some P₀ ∧ P₀.data = P.data) ∨ s.jsons ≤ P.data.json ∨
      ∃ (q : ℕ) (Q : Proxy), s.proxies[q]? = some Q ∧ Q.data.json = P.data.json

theorem Later.erase_eq {s s' : State} (h : Later s s') {v : Value} (hv : Known s v) :
    erase s' v = erase s v := by
  cases v with
  | primitive p => rfl
  | object a => rfl
  | proxy p =>
    obtain ⟨P, hP⟩ : ∃ P, s.proxies[p]? = some P := ⟨_, List.getElem?_eq_getElem hv⟩
    obtain ⟨P', hP', hdata⟩ := h.proxies hP
    rw [erase, erase, target_eq hP, target_eq hP', hdata]

theorem Later.known {s s' : State} (h : Later s s') {v : Value} (hv : Known s v) : Known s' v := by
  cases v with
  | primitive p => trivial
  | proxy p =>
    obtain ⟨P, hP⟩ : ∃ P, s.proxies[p]? = some P := ⟨_, List.getElem?_eq_getElem hv⟩
    obtain ⟨P', hP', -⟩ := h.proxies hP
    exact (List.getElem?_eq_some_iff.mp hP').1
  | object a =>
    refine ⟨hv.1.trans_le h.jsons, fun p P hP => ?_⟩
    obtain ⟨P₀, hP₀, hdata⟩ | hnew | ⟨q, Q, hQ, hjson⟩ := h.wrapped hP
    · rw [← hdata]
      exact hv.2 p P₀ hP₀
    · exact fun heq => absurd hv.1 (by omega)
    · rw [← hjson]
      exact hv.2 q Q hQ

/-! ## Changing a proxy -/

theorem Copy.heap_setPlain_self (c : Copy) (a : Address) (o : Plain) :
    (c.setPlain a o).heap a = o := Function.update_self _ _ _

theorem Copy.heap_setPlain_of_ne {b : Address} (h : b ≠ a) (c : Copy) (o : Plain) :
    (c.setPlain a o).heap b = c.heap b := Function.update_of_ne h _ _

theorem child_injective {b : Address} {key key' : String} (h : a.child key = b.child key') :
    a = b ∧ key = key' := by
  obtain ⟨json, path⟩ := a
  obtain ⟨json', path'⟩ := b
  simp only [Address.child, Address.mk.injEq] at h
  obtain ⟨hpath, hkey⟩ := List.append_inj' h.2 rfl
  exact ⟨by rw [h.1, hpath], by simpa using hkey⟩

theorem Plain.mapValues_congr {g : Value → Value} {o : Plain}
    (h : ∀ key v, o.properties key = some v → f v = g v) : o.mapValues f = o.mapValues g := by
  rw [mapValues, mapValues]
  congr 1
  funext key
  cases hv : o.properties key with
  | none => rfl
  | some v => exact congrArg some (h key v hv)

/-- What is in the heap is the same for a copy. -/
theorem mapValues_erase {s : State} {o : Plain}
    (h : ∀ key v, o.properties key = some v → (∃ p, v = .primitive p) ∨ v = .object (a.child key)) :
    o.mapValues (erase s) = o := by
  have hid : o.mapValues id = o := by
    rw [Plain.mapValues]
    simp
  refine (Plain.mapValues_congr fun key v hv => ?_).trans hid
  obtain ⟨p, rfl⟩ | rfl := h key v hv <;> rfl

/-- A changed proxy, and new ones. -/
def State.change (s : State) (p : ℕ) (P : Proxy) (new : List Address) : State :=
  { s with proxies := s.proxies.set p P ++ new.map (newProxy s.heap) }

variable {s : State} {c : Copy} {p : ℕ} {P P' : Proxy}

section Change

variable (new : Option String)

theorem getElem?_change (hp : s.proxies[p]? = some P) {q : ℕ} {Q : Proxy} :
    (s.change p P' (new.map P.data.child).toList).proxies[q]? = some Q ↔
      q = p ∧ Q = P' ∨ q ≠ p ∧ s.proxies[q]? = some Q ∨
        ∃ key ∈ new, q = s.proxies.length ∧ Q = newProxy s.heap (P.data.child key) := by
  have hlt : p < s.proxies.length := (List.getElem?_eq_some_iff.mp hp).1
  have hset : (s.proxies.set p P')[q]? = some Q ↔
      q = p ∧ Q = P' ∨ q ≠ p ∧ s.proxies[q]? = some Q := by
    by_cases hq : q = p
    · subst hq
      simp [List.getElem?_set_self hlt, eq_comm]
    · simp [List.getElem?_set_ne (Ne.symm hq), hq]
  rw [State.change, ← or_assoc, ← hset]
  cases new with
  | none => simp
  | some key =>
    by_cases hq : q < (s.proxies.set p P').length
    · have hne : q ≠ s.proxies.length := by
        rw [List.length_set] at hq
        omega
      rw [List.getElem?_append_left hq]
      simp [hne]
    · rw [List.getElem?_append_right (not_lt.mp hq), List.getElem?_eq_none (not_lt.mp hq)]
      rw [List.length_set] at hq ⊢
      by_cases heq : q = s.proxies.length
      · subst heq
        simp [eq_comm]
      · have hone : ¬q - s.proxies.length < 1 := by omega
        simp [heq, hone]

/-- An object that was not read yet has no proxy. -/
theorem Represents.unread_fresh (h : Represents s c) (hp : s.proxies[p]? = some P) {key : String}
    (hunread : P.unread s.heap key) {q : ℕ} {Q : Proxy} (hq : s.proxies[q]? = some Q) :
    Q.data ≠ P.data.child key := by
  intro hdata
  obtain ⟨p₁, P₁, hp₁, hdata₁, hread⟩ := h.parents hq hdata
  obtain rfl := h.injective hp₁ hp hdata₁
  rw [hp₁] at hp
  obtain rfl := Option.some.inj hp
  exact hread hunread

theorem later_change (hp : s.proxies[p]? = some P) (hdata : P'.data = P.data) :
    Later s (s.change p P' (new.map P.data.child).toList) where
  heap _ _ := rfl
  jsons := le_rfl
  proxies {q Q} hq := by
    by_cases hqp : q = p
    · subst hqp
      rw [hq] at hp
      obtain rfl := Option.some.inj hp
      exact ⟨P', (getElem?_change new hq).mpr (.inl ⟨rfl, rfl⟩), hdata⟩
    · exact ⟨Q, (getElem?_change new hp).mpr (.inr (.inl ⟨hqp, hq⟩)), rfl⟩
  wrapped {q Q} hq := by
    obtain ⟨rfl, rfl⟩ | ⟨-, hq⟩ | ⟨key, -, rfl, rfl⟩ := (getElem?_change new hp).mp hq
    · exact .inl ⟨P, hp, hdata.symm⟩
    · exact .inl ⟨Q, hq, rfl⟩
    · exact .inr (.inr ⟨p, P, hp, by rw [data_newProxy]; rfl⟩)

/-- A proxy shows something else, and so does the copy. What is not unread any more may have
been wrapped. -/
theorem Represents.change (h : Represents s c) (hp : s.proxies[p]? = some P)
    (hdata : P'.data = P.data) (hkind : P'.WellKinded s.heap)
    (hunread : ∀ key, P'.unread s.heap key → P.unread s.heap key)
    (hnew : ∀ key ∈ new, P.unread s.heap key ∧ ¬P'.unread s.heap key)
    (hvalues : ∀ key v, (P'.view s.heap).properties key = some v →
      ¬P'.unread s.heap key ∧ Known (s.change p P' (new.map P.data.child).toList) v ∨
        P'.unread s.heap key ∧ v = .object (P.data.child key)) :
    Represents (s.change p P' (new.map P.data.child).toList)
      (c.setPlain P.data ((P'.view s.heap).mapValues
        (erase (s.change p P' (new.map P.data.child).toList)))) := by
  have hlater := later_change new hp hdata
  set s' := s.change p P' (new.map P.data.child).toList with hs'
  have hlookup : ∀ {q : ℕ} {Q : Proxy}, s'.proxies[q]? = some Q ↔
      q = p ∧ Q = P' ∨ q ≠ p ∧ s.proxies[q]? = some Q ∨
        ∃ key ∈ new, q = s.proxies.length ∧ Q = newProxy s.heap (P.data.child key) :=
    getElem?_change new hp
  have hfresh : ∀ key ∈ new, ∀ {q : ℕ} {Q : Proxy}, s.proxies[q]? = some Q →
      Q.data ≠ P.data.child key := fun key hkey _ _ hq => h.unread_fresh hp (hnew key hkey).1 hq
  have hpSelf : s'.proxies[p]? = some P' := hlookup.mpr (.inl ⟨rfl, rfl⟩)
  -- a proxy of the changed state is one of before or a new one
  have horigin : ∀ {q : ℕ} {Q : Proxy}, s'.proxies[q]? = some Q →
      (∃ Q₀ : Proxy, s.proxies[q]? = some Q₀ ∧ Q₀.data = Q.data) ∨
        ∃ key ∈ new, q = s.proxies.length ∧ Q = newProxy s.heap (P.data.child key) := by
    intro q Q hq
    obtain ⟨rfl, rfl⟩ | ⟨-, hq⟩ | hadded := hlookup.mp hq
    · exact .inl ⟨P, hp, hdata.symm⟩
    · exact .inl ⟨Q, hq, rfl⟩
    · exact .inr hadded
  have hself : ∀ {q : ℕ} {Q : Proxy}, s.proxies[q]? = some Q → Q.data = P.data → q = p :=
    fun hq hQ => h.injective hq hp hQ
  have hne : ∀ a, (∀ (q : ℕ) (Q : Proxy), s'.proxies[q]? = some Q → Q.data ≠ a) → a ≠ P.data :=
    fun a ha haP => ha p P' hpSelf (hdata.trans haP.symm)
  refine ⟨h.jsons, h.shape, ?_, ?_, ?_, ?_, ?_, ?_, ?_⟩
  · intro q₁ q₂ Q₁ Q₂ h₁ h₂ hQ
    obtain ⟨R₁, hR₁, hd₁⟩ | ⟨key₁, hk₁, rfl, rfl⟩ := horigin h₁ <;>
      obtain ⟨R₂, hR₂, hd₂⟩ | ⟨key₂, hk₂, rfl, rfl⟩ := horigin h₂
    · exact h.injective hR₁ hR₂ (by rw [hd₁, hd₂, hQ])
    · rw [data_newProxy] at hQ
      exact (hfresh key₂ hk₂ hR₁ (hd₁.trans hQ)).elim
    · rw [data_newProxy] at hQ
      exact (hfresh key₁ hk₁ hR₂ (hd₂.trans hQ.symm)).elim
    · rfl
  · intro q Q hq
    obtain ⟨R, hR, hd⟩ | ⟨key, -, -, rfl⟩ := horigin hq
    · rw [← hd]
      exact h.bounded hR
    · rw [data_newProxy]
      exact h.bounded hp
  · intro a ha
    rw [Copy.heap_setPlain_of_ne (hne a ha)]
    refine h.untouched a fun q Q hq => ?_
    obtain ⟨Q', hq', hd⟩ := hlater.proxies hq
    rw [← hd]
    exact ha q Q' hq'
  · intro q Q hq
    obtain ⟨rfl, rfl⟩ | ⟨-, hq⟩ | ⟨key, -, -, rfl⟩ := hlookup.mp hq
    · exact hkind
    · exact h.kinds hq
    · exact wellKinded_newProxy _ _
  · intro q Q hq
    obtain ⟨rfl, rfl⟩ | ⟨hqp, hq⟩ | ⟨key, hkey, -, rfl⟩ := hlookup.mp hq
    · rw [hdata, Copy.heap_setPlain_self]
      rfl
    · rw [Copy.heap_setPlain_of_ne fun hQ => hqp (hself hq hQ), h.view hq]
      refine Plain.mapValues_congr fun key v hv => ?_
      obtain ⟨-, hknown⟩ | ⟨-, rfl⟩ := h.values hq hv
      · exact (hlater.erase_eq hknown).symm
      · rfl
    · have hchild : P.data.child key ≠ P.data := fun heq => hfresh key hkey hp heq.symm
      rw [data_newProxy, Copy.heap_setPlain_of_ne hchild,
        h.untouched _ fun q Q hq => hfresh key hkey hq]
      change _ = ((newProxy s.heap _).view s.heap).mapValues _
      rw [view_newProxy, mapValues_erase (h.shape _)]
  · intro q Q key v hq hv
    obtain ⟨rfl, rfl⟩ | ⟨-, hq⟩ | ⟨key', -, -, rfl⟩ := hlookup.mp hq
    · rw [hdata]
      exact hvalues key v hv
    · exact (h.values hq hv).imp (And.imp_right hlater.known) id
    · change ((newProxy s.heap _).view s.heap).properties key = some v at hv
      rw [view_newProxy] at hv
      obtain ⟨p, rfl⟩ | rfl := h.shape _ key v hv
      · exact .inl ⟨not_unread_newProxy hv, trivial⟩
      · refine .inr ⟨unread_newProxy hv, ?_⟩
        rw [data_newProxy]
  · intro q Q a key hq hQ
    obtain ⟨R, hR, hd⟩ | ⟨key', hkey', -, rfl⟩ := horigin hq
    · obtain ⟨p₁, P₁, hp₁, ha, hread⟩ := h.parents hR (hd.trans hQ)
      by_cases hp₁p : p₁ = p
      · subst hp₁p
        rw [hp₁] at hp
        obtain rfl := Option.some.inj hp
        exact ⟨p₁, P', hpSelf, hdata.trans ha, fun hP' => hread (hunread key hP')⟩
      · exact ⟨p₁, P₁, hlookup.mpr (.inr (.inl ⟨hp₁p, hp₁⟩)), ha, hread⟩
    · rw [data_newProxy] at hQ
      obtain ⟨rfl, rfl⟩ := child_injective hQ
      exact ⟨p, P', hpSelf, hdata, (hnew key' hkey').2⟩

end Change

/-! ## New JSON values -/

namespace Proxy

variable {heap heap' : Heap}

theorem view_congr {P : Proxy} (h : heap' P.data = heap P.data) : P.view heap' = P.view heap := by
  cases P with
  | array data newData => rw [view, view, getData, getData, show heap' data = heap data from h]
  | object data newData deletedProperties => rw [view, view, show heap' data = heap data from h]

theorem unread_congr {P : Proxy} (h : heap' P.data = heap P.data) (key : String) :
    P.unread heap' key ↔ P.unread heap key := by
  cases P with
  | array data newData =>
    rw [unread, unread, getData, getData, show heap' data = heap data from h]
  | object data newData deletedProperties =>
    rw [unread, unread, show heap' data = heap data from h]

theorem wellKinded_congr {P : Proxy} (h : heap' P.data = heap P.data) :
    P.WellKinded heap' ↔ P.WellKinded heap := by
  cases P with
  | array data newData =>
    rw [WellKinded, WellKinded, getData, getData, show heap' data = heap data from h]
  | object data newData deletedProperties =>
    rw [WellKinded, WellKinded, show heap' data = heap data from h]

end Proxy

theorem create_self (heap : Heap) {n : ℕ} {j : Json} (h : a.json = n) :
    heap.create n j a = plainOf a ((walk j a.path).getD .null) := if_pos h

theorem create_of_ne (heap : Heap) {n : ℕ} {j : Json} (h : a.json ≠ n) :
    heap.create n j a = heap a := if_neg h

theorem plainOf_shape {j : Json} {key : String} {v : Value}
    (h : (plainOf a j).properties key = some v) :
    (∃ p, v = .primitive p) ∨ v = .object (a.child key) := by
  obtain ⟨j', -, rfl⟩ := Option.map_eq_some_iff.mp h
  rw [valueAt]
  cases primitive? j' with
  | some p => exact .inl ⟨p, rfl⟩
  | none => exact .inr rfl

/-- A new JSON value, and a proxy of it if it is wrapped. -/
def State.create (s : State) (j : Json) (wrapped : Bool) : State where
  heap := s.heap.create s.jsons j
  proxies := s.proxies ++
    if wrapped then [newProxy (s.heap.create s.jsons j) ⟨s.jsons, []⟩] else []
  jsons := s.jsons + 1

def Copy.create (c : Copy) (j : Json) : Copy := ⟨c.heap.create c.jsons j, c.jsons + 1⟩

section Create

variable (j : Json) (wrapped : Bool)

theorem State.heap_create : (s.create j wrapped).heap = s.heap.create s.jsons j := rfl

theorem Copy.heap_create : (c.create j).heap = c.heap.create c.jsons j := rfl

theorem getElem?_create {q : ℕ} {Q : Proxy} :
    (s.create j wrapped).proxies[q]? = some Q ↔ s.proxies[q]? = some Q ∨
      wrapped ∧ q = s.proxies.length ∧
        Q = newProxy (s.heap.create s.jsons j) ⟨s.jsons, []⟩ := by
  rw [State.create]
  by_cases hq : q < s.proxies.length
  · rw [List.getElem?_append_left hq]
    simp [Nat.ne_of_lt hq]
  · rw [List.getElem?_append_right (not_lt.mp hq), List.getElem?_eq_none (not_lt.mp hq)]
    cases wrapped with
    | false => simp
    | true =>
      by_cases heq : q = s.proxies.length
      · subst heq
        simp [eq_comm]
      · have hone : ¬q - s.proxies.length < 1 := by omega
        simp [heq, hone]

theorem later_create : Later s (s.create j wrapped) where
  heap a ha := create_of_ne _ (Nat.ne_of_lt ha)
  jsons := Nat.le_succ _
  proxies {q Q} hq := ⟨Q, (getElem?_create j wrapped).mpr (.inl hq), rfl⟩
  wrapped {q Q} hq := by
    obtain hq | ⟨-, rfl, rfl⟩ := (getElem?_create j wrapped).mp hq
    · exact .inl ⟨Q, hq, rfl⟩
    · refine .inr (.inl ?_)
      rw [data_newProxy]

theorem Represents.create (h : Represents s c) :
    Represents (s.create j wrapped) (c.create j) := by
  have hlater : Later s (s.create j wrapped) := later_create j wrapped
  have hlookup : ∀ {q : ℕ} {Q : Proxy}, (s.create j wrapped).proxies[q]? = some Q ↔
      s.proxies[q]? = some Q ∨ wrapped ∧ q = s.proxies.length ∧
        Q = newProxy (s.heap.create s.jsons j) ⟨s.jsons, []⟩ := getElem?_create j wrapped
  have hold : ∀ {q : ℕ} {Q : Proxy}, s.proxies[q]? = some Q →
      (s.create j wrapped).heap Q.data = s.heap Q.data := fun hq => hlater.heap _ (h.bounded hq)
  have hshape : ∀ a key v, ((s.create j wrapped).heap a).properties key = some v →
      (∃ p, v = .primitive p) ∨ v = .object (a.child key) := by
    intro a key v hv
    by_cases ha : a.json = s.jsons
    · rw [State.heap_create, create_self _ ha] at hv
      exact plainOf_shape hv
    · rw [State.heap_create, create_of_ne _ ha] at hv
      exact h.shape a key v hv
  have huntouched : ∀ a, (∀ (p : ℕ) (P : Proxy), s.proxies[p]? = some P → P.data ≠ a) →
      (c.create j).heap a = (s.create j wrapped).heap a := by
    intro a ha
    by_cases hn : a.json = s.jsons
    · rw [Copy.heap_create, State.heap_create, h.jsons, create_self _ hn, create_self _ hn]
    · rw [Copy.heap_create, State.heap_create, h.jsons, create_of_ne _ hn, create_of_ne _ hn]
      exact h.untouched a ha
  have hroot : ∀ {q : ℕ} {Q : Proxy}, s.proxies[q]? = some Q → Q.data ≠ ⟨s.jsons, []⟩ :=
    fun hq hdata => absurd (h.bounded hq) (by rw [hdata]; exact lt_irrefl _)
  refine ⟨congrArg (· + 1) h.jsons, hshape, ?_, ?_, ?_, ?_, ?_, ?_, ?_⟩
  · intro p q P Q hp hq hdata
    obtain hp | ⟨-, rfl, rfl⟩ := hlookup.mp hp <;> obtain hq | ⟨-, rfl, rfl⟩ := hlookup.mp hq
    · exact h.injective hp hq hdata
    · rw [data_newProxy] at hdata
      exact (hroot hp hdata).elim
    · rw [data_newProxy] at hdata
      exact (hroot hq hdata.symm).elim
    · rfl
  · intro p P hp
    obtain hp | ⟨-, rfl, rfl⟩ := hlookup.mp hp
    · exact (h.bounded hp).trans (Nat.lt_succ_self _)
    · rw [data_newProxy]
      exact Nat.lt_succ_self _
  · exact fun a ha => huntouched a fun p P hp => ha p P (hlookup.mpr (.inl hp))
  · intro p P hp
    obtain hp | ⟨-, rfl, rfl⟩ := hlookup.mp hp
    · exact (Proxy.wellKinded_congr (hold hp)).mpr (h.kinds hp)
    · exact wellKinded_newProxy _ _
  · intro p P hp
    obtain hp | ⟨-, rfl, rfl⟩ := hlookup.mp hp
    · have hjson : P.data.json ≠ c.jsons := by
        rw [h.jsons]
        exact Nat.ne_of_lt (h.bounded hp)
      rw [Proxy.view_congr (hold hp), Copy.heap_create, create_of_ne _ hjson, h.view hp]
      refine Plain.mapValues_congr fun key v hv => ?_
      obtain ⟨-, hknown⟩ | ⟨-, rfl⟩ := h.values hp hv
      · exact (hlater.erase_eq hknown).symm
      · rfl
    · rw [data_newProxy, huntouched _ fun q Q hq => hroot hq]
      change _ = ((newProxy (s.create j wrapped).heap _).view (s.create j wrapped).heap).mapValues _
      rw [view_newProxy, mapValues_erase (hshape _)]
  · intro p P key v hp hv
    obtain hp | ⟨-, rfl, rfl⟩ := hlookup.mp hp
    · rw [Proxy.view_congr (hold hp)] at hv
      rw [Proxy.unread_congr (hold hp) key]
      exact (h.values hp hv).imp (And.imp_right hlater.known) id
    · change ((newProxy (s.create j wrapped).heap _).view
        (s.create j wrapped).heap).properties key = some v at hv
      rw [view_newProxy] at hv
      obtain ⟨p, rfl⟩ | rfl := hshape _ key v hv
      · exact .inl ⟨not_unread_newProxy hv, trivial⟩
      · exact .inr ⟨unread_newProxy hv, by rw [data_newProxy]⟩
  · intro q Q a key hq hQ
    obtain hq | ⟨-, rfl, rfl⟩ := hlookup.mp hq
    · obtain ⟨p, P, hp, ha, hread⟩ := h.parents hq hQ
      exact ⟨p, P, hlookup.mpr (.inl hp), ha,
        fun hu => hread ((Proxy.unread_congr (hold hp) key).mp hu)⟩
    · rw [data_newProxy] at hQ
      have hpath : ([] : List String) = a.path ++ [key] := congrArg Address.path hQ
      exact absurd hpath.symm (List.append_ne_nil_of_right_ne_nil _ (List.cons_ne_nil _ _))

end Create

end N8n.AugmentObject
