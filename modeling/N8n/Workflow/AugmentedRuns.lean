import N8n.Workflow.AugmentedHandlers

/-!
# Proxies as copies

A sequence of operations on the proxies of a JSON value shows what it shows on a deep copy,
and the value stays what it was (`run_augmented`), as long as every operation is permitted
(`isPermitted`) : an array that was copied is asked for the descriptors of properties it has
only, and an object that was set elsewhere is not set in an array. Where one is not, proxy and
copy differ (`run_augmented_not_copied`).

What is shown includes which object it is : the same one has the same handle.
-/

open Lib

namespace N8n.AugmentObject

variable {toLength : Primitive → Option ℕ} {s : State} {c : Copy}

/-! ## The steps that are shown as on a copy -/

def Proxy.isArray : Proxy → Bool
  | .array _ _ => true
  | .object _ _ _ => false

def Value.isObject : Value → Bool
  | .object _ => true
  | _ => false

/-- The action shows the same on a copy : an array that was copied is asked for the descriptor
of properties it has only, and an object that was set elsewhere is not set in an array. -/
def permits (handles : List Value) (P : Proxy) : Action → Bool
  | .hasOwnProperty key => P.describes key
  | .set _ (.handle i) => !P.isArray || (handles[i]?).all fun v => !v.isObject
  | _ => true

/-- The operation is one on a proxy, and permitted. -/
def isPermitted (w : World State) (operation : Operation) : Bool :=
  match w.handles[operation.handle]? with
  | some (.proxy p) => (w.state.proxies[p]?).any (permits w.handles · operation.action)
  | some _ => false
  | none => true

/-- Every operation is permitted in the state in which it is made. -/
def areAllPermitted (toLength : Primitive → Option ℕ) (w : World State) : List Operation → Bool
  | [] => true
  | operation :: operations => isPermitted w operation &&
    areAllPermitted toLength (step (augmented toLength) w operation).2 operations

/-! ## Worlds -/

/-- Each object of the copy is shown by its proxy. -/
structure Shows (w : World State) (w' : World Copy) : Prop where
  represents : Represents w.state w'.state
  handles : w'.handles = w.handles.map (erase w.state)
  known : ∀ v ∈ w.handles, Known w.state v

theorem Represents.erase_injective (h : Represents s c) {v w : Value} (hv : Known s v)
    (hw : Known s w) (heq : erase s v = erase s w) : v = w := by
  have hproxy : ∀ {p : ℕ}, Known s (.proxy p) → ∃ P, s.proxies[p]? = some P :=
    fun hp => ⟨_, List.getElem?_eq_getElem hp⟩
  cases v with
  | primitive q =>
    cases w with
    | primitive => exact heq
    | object => cases heq
    | proxy => cases heq
  | object a =>
    cases w with
    | primitive => cases heq
    | object => exact heq
    | proxy q =>
      obtain ⟨Q, hQ⟩ := hproxy hw
      rw [erase_object, erase_proxy, target_eq hQ] at heq
      exact (hv.2 q Q hQ (by rw [Value.object.inj heq])).elim
  | proxy p =>
    obtain ⟨P, hP⟩ := hproxy hv
    cases w with
    | primitive => cases heq
    | object a =>
      rw [erase_proxy, erase_object, target_eq hP] at heq
      exact (hw.2 p P hP (by rw [Value.object.inj heq])).elim
    | proxy q =>
      obtain ⟨Q, hQ⟩ := hproxy hw
      rw [erase_proxy, erase_proxy, target_eq hP, target_eq hQ] at heq
      rw [h.injective hP hQ (Value.object.inj heq)]

theorem idxOf_map_of_injective {α β : Type} [DecidableEq α] [DecidableEq β] {f : α → β} {x : α}
    {l : List α} (h : ∀ y ∈ l, f y = f x → y = x) : (l.map f).idxOf (f x) = l.idxOf x := by
  induction l with
  | nil => rfl
  | cons y l ih =>
    have hhead : (f y == f x) = (y == x) := Bool.eq_iff_iff.mpr <| by
      rw [beq_iff_eq, beq_iff_eq]
      exact ⟨h y List.mem_cons_self, congrArg f⟩
    rw [List.map_cons, List.idxOf_cons, List.idxOf_cons, hhead,
      ih fun z hz => h z (List.mem_cons_of_mem _ hz)]

theorem observe_erase (h : Represents s c) {v : Value} (hv : Known s v) {handles : List Value}
    (hknown : ∀ w ∈ handles, Known s w) :
    observe (erase s v) (handles.map (erase s)) =
      ((observe v handles).1, (observe v handles).2.map (erase s)) := by
  have hinjective : ∀ w ∈ handles, erase s w = erase s v → w = v :=
    fun w hw heq => h.erase_injective (hknown w hw) hv heq
  have hmem : erase s v ∈ handles.map (erase s) ↔ v ∈ handles := by
    constructor
    · intro hm
      obtain ⟨w, hw, heq⟩ := List.mem_map.mp hm
      rw [← hinjective w hw heq]
      exact hw
    · exact List.mem_map_of_mem
  have hidx := idxOf_map_of_injective hinjective
  cases v with
  | primitive q => rfl
  | object a =>
    rw [erase_object] at hmem hidx ⊢
    by_cases hm : Value.object a ∈ handles
    · simp only [observe, hm, hmem, hidx, if_true]
    · simp only [observe, hm, hmem, if_false, List.length_map, List.map_append, List.map_singleton,
        erase_object]
  | proxy p =>
    rw [erase_proxy] at hmem hidx ⊢
    by_cases hm : Value.proxy p ∈ handles
    · simp only [observe, hm, hmem, hidx, if_true]
    · simp only [observe, hm, hmem, if_false, List.length_map, List.map_append, List.map_singleton,
        erase_proxy]

theorem known_observe {v : Value} (hv : Known s v) {handles : List Value}
    (hknown : ∀ w ∈ handles, Known s w) : ∀ w ∈ (observe v handles).2, Known s w := by
  have hadded : ∀ w ∈ handles ++ [v], Known s w :=
    List.forall_mem_append.mpr ⟨hknown, List.forall_mem_singleton.mpr hv⟩
  cases v with
  | primitive q => exact hknown
  | object a =>
    by_cases hm : Value.object a ∈ handles
    · simpa only [observe, hm, if_true] using hknown
    · simpa only [observe, hm, if_false] using hadded
  | proxy p =>
    by_cases hm : Value.proxy p ∈ handles
    · simpa only [observe, hm, if_true] using hknown
    · simpa only [observe, hm, if_false] using hadded

/-! ## One operation -/

variable {w : World State} {w' : World Copy}

theorem Later.refl (s : State) : Later s s :=
  ⟨fun _ _ => rfl, le_rfl, fun hp => ⟨_, hp, rfl⟩, fun hp => .inl ⟨_, hp, rfl⟩⟩

theorem Shows.later (h : Shows w w') {s' : State} {c' : Copy} (hlater : Later w.state s')
    (hrepresents : Represents s' c') : Shows ⟨s', w.handles⟩ ⟨c', w'.handles⟩ where
  represents := hrepresents
  handles := by
    rw [h.handles]
    exact List.map_congr_left fun v hv => (hlater.erase_eq (h.known v hv)).symm
  known v hv := hlater.known (h.known v hv)

theorem Shows.getElem? (h : Shows w w') (i : ℕ) :
    w'.handles[i]? = (w.handles[i]?).map (erase w.state) := by
  rw [h.handles, List.getElem?_map]

/-- Two outcomes are the same, and leave worlds of which one shows the other. -/
def SameOutcome (s : State) (x : Observation × World State) (y : Observation × World Copy) : Prop :=
  x.1 = y.1 ∧ Later s x.2.state ∧ Shows x.2 y.2

theorem get_shows (h : Shows w w') {p : ℕ} {P : Proxy} (hp : w.state.proxies[p]? = some P)
    (key : String) :
    SameOutcome w.state (perform (augmented toLength) (.proxy p) w (.get key))
      (perform (copied toLength) (.object P.data) w' (.get key)) := by
  obtain ⟨hlater, hrepresents, hknown, hvalue⟩ := get_spec h.represents hp key
  have hshows := h.later hlater hrepresents
  have hobserve := observe_erase hrepresents hknown hshows.known
  rw [hvalue, ← hshows.handles] at hobserve
  refine ⟨(congrArg Prod.fst hobserve).symm, hlater, hrepresents, congrArg Prod.snd hobserve, ?_⟩
  exact known_observe hknown hshows.known

theorem create_eq (s : State) (j : Json) :
    (augmented toLength).create j s = (.object ⟨s.jsons, []⟩, s.create j false) := by
  rw [State.create, if_neg Bool.false_ne_true, List.append_nil]
  rfl

/-- Writing a new JSON value to an array is writing the proxy of it. -/
theorem set_create {p : ℕ} {data : Address} {newData : Option Plain}
    (hp : s.proxies[p]? = some (.array data newData)) (key : String) (j : Json) :
    set toLength p key (s.create j false) (.object ⟨s.jsons, []⟩) =
      set toLength p key (s.create j true) (.proxy s.proxies.length) := by
  have hbare : (s.create j false).proxies[p]? = some (.array data newData) :=
    (getElem?_create j false).mpr (.inl hp)
  have hwrapped : (s.create j true).proxies[p]? = some (.array data newData) :=
    (getElem?_create j true).mpr (.inl hp)
  have haugment : augment (.object ⟨s.jsons, []⟩) (s.create j false) =
      (.proxy s.proxies.length, s.create j true) := by
    rw [augment_object, State.create, State.create, if_neg Bool.false_ne_true, if_pos rfl,
      List.append_nil]
  rw [set, set, hbare, hwrapped]
  simp only [haugment]
  rfl

theorem Later.trans {s₁ s₂ s₃ : State} (h : Later s₁ s₂) (h' : Later s₂ s₃) : Later s₁ s₃ where
  heap a ha := (h'.heap a (ha.trans_le h.jsons)).trans (h.heap a ha)
  jsons := h.jsons.trans h'.jsons
  proxies hp := by
    obtain ⟨P', hp', hdata⟩ := h.proxies hp
    obtain ⟨P'', hp'', hdata'⟩ := h'.proxies hp'
    exact ⟨P'', hp'', hdata'.trans hdata⟩
  wrapped hp := by
    obtain ⟨P', hp', hdata⟩ | hnew | ⟨q, Q, hq, hjson⟩ := h'.wrapped hp
    · rw [← hdata]
      exact h.wrapped hp'
    · exact .inr (.inl (h.jsons.trans hnew))
    · rw [← hjson]
      obtain ⟨Q', hq', hdata⟩ | hnew | hsame := h.wrapped hq
      · exact .inr (.inr ⟨q, Q', hq', by rw [hdata]⟩)
      · exact .inr (.inl hnew)
      · exact .inr (.inr hsame)

theorem set_shows (h : Shows w w') {p : ℕ} {P : Proxy} (hp : w.state.proxies[p]? = some P)
    (key : String) (operand : Operand) (hpermits : permits w.handles P (.set key operand)) :
    SameOutcome w.state (perform (augmented toLength) (.proxy p) w (.set key operand))
      (perform (copied toLength) (.object P.data) w' (.set key operand)) := by
  -- what is left to say once the operand has a value
  have hset : ∀ {s : State} {c : Copy} {v v' u : Value} {s₁ : State},
      evalOperand (augmented toLength) w operand = (u, s₁) →
      evalOperand (copied toLength) w' operand = (v', c) →
      set toLength p key s₁ u = set toLength p key s v → Later w.state s →
      ((set toLength p key s v).1 = (c.set toLength P.data key v').1 ∧
        Later s (set toLength p key s v).2 ∧
        Represents (set toLength p key s v).2 (c.set toLength P.data key v').2) →
      SameOutcome w.state (perform (augmented toLength) (.proxy p) w (.set key operand))
        (perform (copied toLength) (.object P.data) w' (.set key operand)) := by
    intro s c v v' u s₁ hu hv' hsame hlater hspec
    have haugmented : (augmented toLength).set (.proxy p) key u s₁ = set toLength p key s v := hsame
    have hcopied : (copied toLength).set (.object P.data) key v' c = c.set toLength P.data key v' :=
      rfl
    simp only [SameOutcome, perform, hu, hv', haugmented, hcopied]
    exact ⟨congrArg _ hspec.1, hlater.trans hspec.2.1,
      h.later (hlater.trans hspec.2.1) hspec.2.2⟩
  have hprimitive : ∀ q : Primitive,
      evalOperand (augmented toLength) w operand = (.primitive q, w.state) →
      evalOperand (copied toLength) w' operand = (.primitive q, w'.state) →
      SameOutcome w.state (perform (augmented toLength) (.proxy p) w (.set key operand))
        (perform (copied toLength) (.object P.data) w' (.set key operand)) :=
    fun q hu hv => hset hu hv rfl (Later.refl _)
      (set_spec h.represents hp key (show Known w.state (.primitive q) from trivial)
        fun _ _ => Value.noConfusion)
  cases operand with
  | primitive q => exact hprimitive q rfl rfl
  | handle i =>
    have hknown : Known w.state ((w.handles[i]?).getD .undefined) := by
      cases hv : w.handles[i]? with
      | none => trivial
      | some v => exact h.known v (List.mem_of_getElem? hv)
    have hraw : (w.state.heap P.data).isArray = true →
        ∀ a, (w.handles[i]?).getD .undefined ≠ .object a := by
      intro harray a ha
      cases P with
      | array data newData =>
        cases hv : w.handles[i]? with
        | none =>
          rw [hv] at ha
          cases ha
        | some v =>
          rw [hv, Option.getD_some] at ha
          rw [permits, hv, ha] at hpermits
          cases hpermits
      | object data newData deleted =>
        have hkind : (w.state.heap data).isArray = false := h.represents.kinds hp
        exact Bool.noConfusion (hkind.symm.trans harray)
    have hvalue : evalOperand (copied toLength) w' (.handle i) =
        (erase w.state ((w.handles[i]?).getD .undefined), w'.state) := by
      rw [evalOperand, h.getElem?]
      cases w.handles[i]? <;> rfl
    exact hset rfl hvalue rfl (Later.refl _) (set_spec h.represents hp key hknown hraw)
  | json j =>
    cases hj : primitive? j with
    | some q =>
      exact hprimitive q (by rw [evalOperand, hj]) (by rw [evalOperand, hj])
    | none =>
      have haugmented : evalOperand (augmented toLength) w (.json j) =
          (.object ⟨w.state.jsons, []⟩, w.state.create j false) := by
        rw [evalOperand, hj]
        exact create_eq w.state j
      have hcopied : evalOperand (copied toLength) w' (.json j) =
          (.object ⟨w.state.jsons, []⟩, w'.state.create j) := by
        rw [evalOperand, hj, ← h.represents.jsons]
        rfl
      cases P with
      | array data newData =>
        have hlater : Later w.state (w.state.create j true) := later_create j true
        have hcreated := h.represents.create j true
        have hnew := (getElem?_create (s := w.state) j true).mpr (.inr ⟨rfl, rfl, rfl⟩)
        refine hset haugmented hcopied (set_create hp key j) hlater ?_
        have hspec : (set toLength p key (w.state.create j true)
            (.proxy w.state.proxies.length)).1 = _ ∧ _ :=
          set_spec hcreated ((getElem?_create j true).mpr (.inl hp)) key
            (List.getElem?_eq_some_iff.mp hnew).1 fun _ _ => Value.noConfusion
        rwa [erase_proxy, target_eq hnew, data_newProxy] at hspec
      | object data newData deleted =>
        have hlater : Later w.state (w.state.create j false) := later_create j false
        have hcreated := h.represents.create j false
        refine hset haugmented hcopied rfl hlater
          (set_spec hcreated ((getElem?_create j false).mpr (.inl hp)) key ⟨?_, ?_⟩ ?_)
        · exact Nat.lt_succ_self _
        · intro q Q hq
          obtain hq | ⟨hwrapped, -⟩ := (getElem?_create j false).mp hq
          · exact Nat.ne_of_lt (h.represents.bounded hq)
          · exact Bool.noConfusion hwrapped
        · intro harray
          have hkind : ((w.state.create j false).heap data).isArray = false :=
            hcreated.kinds ((getElem?_create j false).mpr (.inl hp))
          exact Bool.noConfusion (hkind.symm.trans harray)

theorem perform_shows (h : Shows w w') {p : ℕ} {P : Proxy} (hp : w.state.proxies[p]? = some P)
    (action : Action) (hpermits : permits w.handles P action) :
    SameOutcome w.state (perform (augmented toLength) (.proxy p) w action)
      (perform (copied toLength) (.object P.data) w' action) := by
  cases action with
  | get key => exact get_shows h hp key
  | set key operand => exact set_shows h hp key operand hpermits
  | deleteProperty key =>
    obtain ⟨hdeleted, hlater, hrepresents⟩ := deleteProperty_spec h.represents hp key
    exact ⟨congrArg _ hdeleted, hlater, h.later hlater hrepresents⟩
  | has key => exact ⟨congrArg _ (has_spec h.represents hp key), Later.refl _, h⟩
  | hasOwnProperty key =>
    exact ⟨congrArg _ (hasOwnProperty_spec h.represents hp hpermits), Later.refl _, h⟩
  | ownKeys =>
    exact ⟨congrArg _ (funext fun key => ownKeys_spec h.represents hp key), Later.refl _, h⟩

theorem step_shows (h : Shows w w') {operation : Operation} (hpermitted : isPermitted w operation) :
    SameOutcome w.state (step (augmented toLength) w operation)
      (step (copied toLength) w' operation) := by
  rw [step, step, h.getElem?]
  rw [isPermitted] at hpermitted
  cases hv : w.handles[operation.handle]? with
  | none => exact ⟨rfl, Later.refl _, h⟩
  | some v =>
    rw [hv] at hpermitted
    cases v with
    | primitive q => cases hpermitted
    | object a => cases hpermitted
    | proxy p =>
      cases hp : w.state.proxies[p]? with
      | none => simp [hp] at hpermitted
      | some P =>
        rw [Option.map_some, erase_proxy, target_eq hp]
        exact perform_shows h hp operation.action (by simpa [hp] using hpermitted)

/-! ## Runs -/

theorem run_shows (h : Shows w w') {operations : List Operation}
    (hpermitted : areAllPermitted toLength w operations) :
    (run (augmented toLength) w operations).1 = (run (copied toLength) w' operations).1 ∧
      Later w.state (run (augmented toLength) w operations).2.state ∧
      Shows (run (augmented toLength) w operations).2 (run (copied toLength) w' operations).2 := by
  induction operations generalizing w w' with
  | nil => exact ⟨rfl, Later.refl _, h⟩
  | cons operation operations ih =>
    rw [areAllPermitted, Bool.and_eq_true] at hpermitted
    obtain ⟨hobservation, hlater, hshows⟩ := step_shows h hpermitted.1
    obtain ⟨hobservations, hlater', hshows'⟩ := ih hshows hpermitted.2
    refine ⟨?_, hlater.trans hlater', hshows'⟩
    rw [run, run]
    exact congrArg₂ List.cons hobservation hobservations

/-- The world before there is anything in it. -/
def emptyState : State := ⟨fun _ => plainOf ⟨0, []⟩ .null, [], 0⟩

def emptyCopy : Copy := ⟨fun _ => plainOf ⟨0, []⟩ .null, 0⟩

theorem represents_empty : Represents emptyState emptyCopy where
  jsons := rfl
  shape _ _ _ hv := by cases hv
  injective hp := by cases hp
  bounded hp := by cases hp
  untouched _ _ := rfl
  kinds hp := by cases hp
  view hp := by cases hp
  values hp := by cases hp
  parents hq := by cases hq

theorem shows_augmentedWorld (j : Json) : Shows (augmentedWorld j) (copiedWorld j) := by
  have hstate : (augmentedWorld j).state = emptyState.create j true := rfl
  have hcopy : (copiedWorld j).state = emptyCopy.create j := rfl
  have hproxy : (emptyState.create j true).proxies[0]? = some (newProxy _ ⟨0, []⟩) := rfl
  refine ⟨?_, ?_, ?_⟩
  · rw [hstate, hcopy]
    exact represents_empty.create j true
  · rw [hstate]
    change [Value.object ⟨0, []⟩] = [erase _ (.proxy 0)]
    rw [erase_proxy, target_eq hproxy, data_newProxy]
  · intro v hv
    rw [hstate]
    obtain rfl := List.mem_singleton.mp hv
    exact (List.getElem?_eq_some_iff.mp hproxy).1

/-- A sequence of permitted operations shows what it shows on a deep copy, and the value stays
what it was. -/
theorem run_augmented (j : Json) (operations : List Operation)
    (h : areAllPermitted toLength (augmentedWorld j) operations) :
    (run (augmented toLength) (augmentedWorld j) operations).1 =
        (run (copied toLength) (copiedWorld j) operations).1 ∧
      ∀ a, a.json = 0 → (run (augmented toLength) (augmentedWorld j) operations).2.state.heap a =
        (augmentedWorld j).state.heap a := by
  obtain ⟨hobservations, hlater, -⟩ := run_shows (shows_augmentedWorld j) h
  refine ⟨hobservations, fun a ha => hlater.heap a ?_⟩
  rw [ha]
  exact Nat.one_pos

/-- `{ a: [1], b: [] }` -/
def exampleJson : Json :=
  .ofEntries (OrderedMap.set (OrderedMap.set ∅ "a" (.ofList [.number 1])) "b" (.ofList []))

/-- An item is written, asked for and deleted, and an object is added. -/
def permittedExample : List Operation :=
  [⟨0, .get "a"⟩, ⟨1, .set "0" (.primitive (.number 2))⟩, ⟨1, .hasOwnProperty "0"⟩,
    ⟨1, .deleteProperty "0"⟩, ⟨1, .set "1" (.json exampleJson)⟩, ⟨1, .get "1"⟩, ⟨0, .get "a"⟩]

theorem run_augmented_permittedExample :
    (run (augmented fun _ => none) (augmentedWorld exampleJson) permittedExample).1 =
      (run (copied fun _ => none) (copiedWorld exampleJson) permittedExample).1 :=
  (run_augmented exampleJson permittedExample (by decide)).1

/-- An item is written, and one that does not exist is asked for. -/
def absentItem : List Operation :=
  [⟨0, .get "a"⟩, ⟨1, .set "0" (.primitive (.number 2))⟩, ⟨1, .hasOwnProperty "7"⟩]

/-- An object that was set in an object is set in two arrays. -/
def sharedObject : List Operation :=
  [⟨0, .get "a"⟩, ⟨0, .get "b"⟩, ⟨0, .set "c" (.json exampleJson)⟩, ⟨0, .get "c"⟩,
    ⟨1, .set "0" (.handle 3)⟩, ⟨1, .get "0"⟩]

/-- A copied array has any item, and an object that is set in an array is another one there. -/
theorem run_augmented_not_copied :
    (run (augmented fun _ => none) (augmentedWorld exampleJson) absentItem).1 ≠
        (run (copied fun _ => none) (copiedWorld exampleJson) absentItem).1 ∧
      (run (augmented fun _ => none) (augmentedWorld exampleJson) sharedObject).1 ≠
        (run (copied fun _ => none) (copiedWorld exampleJson) sharedObject).1 := by
  refine ⟨fun h => ?_, fun h => ?_⟩
  · have hsame : [Observation.object 1, .boolean true, .boolean true] =
        [.object 1, .boolean true, .boolean false] := h
    simp at hsame
  · have hsame : [Observation.object 1, .object 2, .boolean true, .object 3, .boolean true,
        .object 4] = [.object 1, .object 2, .boolean true, .object 3, .boolean true, .object 3] := h
    simp at hsame

end N8n.AugmentObject
