import N8n.Interfaces
import N8n.Lib.Run
import Mathlib.Data.List.FinRange

/-!
# The order in which parameters are resolved

`getParameterDependencies` collects for each parameter the names its display rules mention, and
`getParameterResolveOrder` goes through a queue of the parameters. One with dependencies that are
not resolved is put at the end again, once for each of them, but is added to the order all the
same : the `continue` after the `push` goes on with the next dependency, not with the next
parameter.
-/

open Lib

namespace N8n

/-- A node property. Of its display options only the keys of the rules are read. -/
structure INodeProperties where
  name : String
  displayOptions : Option (List (List String)) := none

/-- The own properties of the object. -/
abbrev IParameterDependencies := OrderedMap String (List String)

inductive ResolveError where
  | typeError
  | maxIterationsReached
  deriving DecidableEq, Repr

/-- `parameterName.charAt(0) === '@'` -/
def isSpecialParameter (parameterName : String) : Bool := parameterName.toList.head? = some '@'

/-- `dependency.charAt(0) === '/'` -/
def isRootParameter (dependency : String) : Bool := dependency.toList.head? = some '/'

/-! ## Dependencies -/

/-- One key of a display rule. An inherited property is no array and has no `includes`. -/
def addDependency (name : String) (dependencies : IParameterDependencies) (parameterName : String) :
    Except ResolveError IParameterDependencies :=
  match dependencies.get? name with
  | none => .error .typeError
  | some known =>
    if parameterName ∈ known ∨ isSpecialParameter parameterName then .ok dependencies
    else .ok (dependencies.set name (known ++ [parameterName]))

/-- `if (!dependencies[name]) dependencies[name] = []` -/
def ensureEntry (name : String) (dependencies : IParameterDependencies) : IParameterDependencies :=
  if dependencies.has name ∨ name ∈ objectPrototypeKeys then dependencies
  else dependencies.set name []

def INodeProperties.ruleKeys (property : INodeProperties) : List String :=
  (property.displayOptions.getD []).flatten

def addProperty (dependencies : IParameterDependencies) (property : INodeProperties) :
    Except ResolveError IParameterDependencies :=
  property.ruleKeys.foldlM (addDependency property.name) (ensureEntry property.name dependencies)

def getParameterDependencies (nodePropertiesArray : List INodeProperties) :
    Except ResolveError IParameterDependencies :=
  nodePropertiesArray.foldlM addProperty ∅

/-! ## The order -/

/-- The inherited functions without parameters : their `length` is 0. -/
def inheritedWithoutParameters : List String := ["toString", "valueOf", "toLocaleString"]

/-- What the loop finds under a name. It takes an inherited function without parameters for an
array without elements, and throws on what else is inherited. -/
def dependenciesOf (parameterDependencies : IParameterDependencies) (name : String) :
    Except ResolveError (List String) :=
  match parameterDependencies.get? name with
  | some dependencies => .ok dependencies
  | none => if name ∈ inheritedWithoutParameters then .ok [] else .error .typeError

structure ResolveState (n : ℕ) where
  executionOrder : List (Fin n) := []
  indexToResolve : List (Fin n) := List.finRange n
  resolvedParameters : List String := []
  lastIndexLength : ℕ := n
  lastIndexReduction : ℤ := -1
  iterations : ℕ := 0

/-- One dependency : the index is put at the end of the queue if it is missing. -/
def requeueMissing {n : ℕ} (resolvedParameters : List String) (index : Fin n)
    (indexToResolve : List (Fin n)) (dependency : String) : List (Fin n) :=
  if dependency ∉ resolvedParameters then
    if isRootParameter dependency then indexToResolve else indexToResolve ++ [index]
  else indexToResolve

variable (nodePropertiesArray : List INodeProperties)

/-- One round, with the index at the front of the queue and the rest of the queue. -/
def resolveIndex (parameterDependencies : IParameterDependencies)
    (state : ResolveState nodePropertiesArray.length) (index : Fin nodePropertiesArray.length)
    (rest : List (Fin nodePropertiesArray.length)) :
    Except ResolveError (ResolveState nodePropertiesArray.length) :=
  let name := (nodePropertiesArray.get index).name
  let iterations := state.iterations + 1
  let executionOrder := state.executionOrder ++ [index]
  let resolvedParameters := state.resolvedParameters ++ [name]
  match dependenciesOf parameterDependencies name with
  | .error e => .error e
  | .ok dependencies =>
    if dependencies = [] then
      .ok { state with executionOrder, resolvedParameters, iterations, indexToResolve := rest }
    else
      let indexToResolve := dependencies.foldl (requeueMissing state.resolvedParameters index) rest
      let lastIndexReduction : ℤ :=
        if indexToResolve.length < state.lastIndexLength then iterations
        else state.lastIndexReduction
      if iterations > lastIndexReduction + nodePropertiesArray.length then
        .error .maxIterationsReached
      else
        .ok { executionOrder, resolvedParameters, iterations, indexToResolve, lastIndexReduction,
              lastIndexLength := indexToResolve.length }

/-- The loop, for at most `fuel` rounds. -/
def resolveLoop (parameterDependencies : IParameterDependencies) :
    ℕ → ResolveState nodePropertiesArray.length →
      Option (Except ResolveError (List (Fin nodePropertiesArray.length)))
  | 0, _ => none
  | fuel + 1, state =>
    match state.indexToResolve with
    | [] => some (.ok state.executionOrder)
    | index :: rest =>
      match resolveIndex nodePropertiesArray parameterDependencies state index rest with
      | .error e => some (.error e)
      | .ok state => resolveLoop parameterDependencies fuel state

def getParameterResolveOrder (parameterDependencies : IParameterDependencies) (fuel : ℕ) :
    Option (Except ResolveError (List (Fin nodePropertiesArray.length))) :=
  resolveLoop nodePropertiesArray parameterDependencies fuel {}

/-- The dependencies are collected and the parameters are ordered, with this result. -/
def Resolves (result : Except ResolveError (List (Fin nodePropertiesArray.length))) : Prop :=
  match getParameterDependencies nodePropertiesArray with
  | .error e => result = .error e
  | .ok parameterDependencies =>
    ∃ fuel, getParameterResolveOrder nodePropertiesArray parameterDependencies fuel = some result

/-! ## What the order is for -/

/-- The names that the display rules of the properties of a name mention, without special ones. -/
def dependencyNames (name : String) : List String :=
  (nodePropertiesArray.filter (·.name = name)).flatMap fun property =>
    property.ruleKeys.filter fun key => ¬isSpecialParameter key

/-- A dependency that is not a reference to the root. -/
def DependsOn (name dependency : String) : Prop :=
  dependency ∈ dependencyNames nodePropertiesArray name ∧ ¬isRootParameter dependency

def Cyclic : Prop := ∃ name, Relation.TransGen (DependsOn nodePropertiesArray) name name

/-- Every dependency is the name of a property. -/
def DependenciesListed : Prop :=
  ∀ name dependency, DependsOn nodePropertiesArray name dependency →
    ∃ property ∈ nodePropertiesArray, property.name = dependency

/-- All indexes in an order in which each comes after one of each name it depends on. -/
structure IsResolveOrder (order : List (Fin nodePropertiesArray.length)) : Prop where
  perm : order.Perm (List.finRange nodePropertiesArray.length)
  after : ∀ before index after, order = before ++ index :: after →
    ∀ dependency, DependsOn nodePropertiesArray (nodePropertiesArray.get index).name dependency →
      ∃ earlier ∈ before, (nodePropertiesArray.get earlier).name = dependency

structure ResolvesDependencies : Prop where
  ordered : ¬Cyclic nodePropertiesArray → DependenciesListed nodePropertiesArray →
    ∃ order, Resolves nodePropertiesArray (.ok order) ∧ IsResolveOrder nodePropertiesArray order
  throws : Cyclic nodePropertiesArray → ∃ e, Resolves nodePropertiesArray (.error e)

/-! ## What is collected -/

variable {nodePropertiesArray : List INodeProperties} {dependencies : IParameterDependencies}
  {property : INodeProperties}

/-- The property has an inherited name, and mentions something in a display rule. -/
def INodeProperties.MentionsInherited (property : INodeProperties) : Prop :=
  property.name ∈ objectPrototypeKeys ∧ property.ruleKeys ≠ []

/-- What is known after some properties. -/
structure Collected (properties : List INodeProperties) (dependencies : IParameterDependencies) :
    Prop where
  inherited : ∀ name ∈ objectPrototypeKeys, dependencies.get? name = none
  listed : ∀ property ∈ properties, property.name ∉ objectPrototypeKeys →
    property.name ∈ dependencies.keys
  entry : ∀ name known, dependencies.get? name = some known →
    known.Nodup ∧ ∀ dependency, dependency ∈ known ↔ dependency ∈ dependencyNames properties name

theorem collected_nil : Collected [] ∅ :=
  ⟨fun _ _ => rfl, fun _ h => absurd h List.not_mem_nil, fun _ _ h => by cases h⟩

theorem mem_dependencyNames_concat {properties : List INodeProperties} {name dependency : String} :
    dependency ∈ dependencyNames (properties ++ [property]) name ↔
      dependency ∈ dependencyNames properties name ∨
        property.name = name ∧ dependency ∈ property.ruleKeys ∧ ¬isSpecialParameter dependency := by
  rw [dependencyNames, List.filter_append, List.flatMap_append, List.mem_append]
  refine or_congr_right ?_
  by_cases h : property.name = name
  · simp [h]
  · simp [h]

/-- The keys of the rules of a property are added to what is known of its name. -/
theorem foldlM_addDependency {name : String} (keys : List String) {known : List String}
    (hget : dependencies.get? name = some known) (hnodup : known.Nodup) :
    ∃ dependencies' known', keys.foldlM (addDependency name) dependencies = .ok dependencies' ∧
      dependencies'.get? name = some known' ∧ known'.Nodup ∧
      (∀ dependency, dependency ∈ known' ↔
        dependency ∈ known ∨ dependency ∈ keys ∧ ¬isSpecialParameter dependency) ∧
      ∀ other, other ≠ name → dependencies'.get? other = dependencies.get? other := by
  induction keys generalizing dependencies known with
  | nil => exact ⟨dependencies, known, rfl, hget, hnodup, by simp, fun _ _ => rfl⟩
  | cons key keys ih =>
    rw [List.foldlM_cons, addDependency, hget]
    by_cases hskip : key ∈ known ∨ isSpecialParameter key
    · simp only [if_pos hskip]
      obtain ⟨dependencies', known', hfold, hget', hnodup', hmem, hother⟩ := ih hget hnodup
      refine ⟨dependencies', known', hfold, hget', hnodup', fun dependency => ?_, hother⟩
      rw [hmem, List.mem_cons]
      constructor
      · exact Or.imp_right fun h => ⟨.inr h.1, h.2⟩
      · rintro (h | ⟨rfl | h, hspecial⟩)
        · exact .inl h
        · exact .inl (hskip.resolve_right hspecial)
        · exact .inr ⟨h, hspecial⟩
    · simp only [if_neg hskip]
      obtain ⟨hnew, hspecial⟩ := not_or.mp hskip
      have hnodup' : (known ++ [key]).Nodup :=
        List.Nodup.append hnodup (List.nodup_singleton key) (by simpa using hnew)
      obtain ⟨dependencies', known', hfold, hget', hnodup', hmem, hother⟩ :=
        ih (OrderedMap.get?_set_self dependencies name (known ++ [key])) hnodup'
      refine ⟨dependencies', known', hfold, hget', hnodup', fun dependency => ?_,
        fun other hne => (hother other hne).trans (OrderedMap.get?_set_of_ne _ _ hne.symm)⟩
      rw [hmem, List.mem_append, List.mem_singleton, List.mem_cons]
      constructor
      · rintro ((h | rfl) | h)
        · exact .inl h
        · exact .inr ⟨.inl rfl, hspecial⟩
        · exact .inr ⟨.inr h.1, h.2⟩
      · rintro (h | ⟨rfl | h, hspecial'⟩)
        · exact .inl (.inl h)
        · exact .inl (.inr rfl)
        · exact .inr ⟨h, hspecial'⟩

/-- Nothing is set for an inherited name, so the first key of a rule makes the code throw. -/
theorem addProperty_of_inherited (hname : property.name ∈ objectPrototypeKeys)
    (hget : dependencies.get? property.name = none) :
    addProperty dependencies property =
      if property.ruleKeys = [] then .ok dependencies else .error .typeError := by
  rw [addProperty, ensureEntry, if_pos (.inr hname)]
  cases property.ruleKeys with
  | nil => rfl
  | cons key keys =>
    rw [List.foldlM_cons, addDependency, hget]
    rfl

/-- There is an entry for a name that is not inherited, with what is known of it. -/
theorem Collected.ensureEntry {properties : List INodeProperties} {name : String}
    (h : Collected properties dependencies) (hname : name ∉ objectPrototypeKeys) :
    ∃ known, (ensureEntry name dependencies).get? name = some known ∧ known.Nodup ∧
      (∀ dependency, dependency ∈ known ↔ dependency ∈ dependencyNames properties name) ∧
      ∀ other, other ≠ name →
        (N8n.ensureEntry name dependencies).get? other = dependencies.get? other := by
  unfold N8n.ensureEntry
  by_cases hkey : name ∈ dependencies.keys
  · rw [if_pos (.inl (OrderedMap.has_iff.mpr hkey))]
    obtain ⟨known, hget⟩ := OrderedMap.mem_keys_iff.mp hkey
    obtain ⟨hnodup, hmem⟩ := h.entry name known hget
    exact ⟨known, hget, hnodup, hmem, fun _ _ => rfl⟩
  · rw [if_neg (not_or.mpr ⟨OrderedMap.has_iff.not.mpr hkey, hname⟩)]
    have hnone : dependencyNames properties name = [] := by
      have hfilter : properties.filter (·.name = name) = [] := by
        refine List.filter_eq_nil_iff.mpr fun property hmem heq => hkey ?_
        obtain rfl := of_decide_eq_true heq
        exact h.listed property hmem hname
      rw [dependencyNames, hfilter, List.flatMap_nil]
    exact ⟨[], OrderedMap.get?_set_self _ _ _, List.nodup_nil, by simp [hnone],
      fun other hne => OrderedMap.get?_set_of_ne _ _ hne.symm⟩

theorem Collected.addProperty {properties : List INodeProperties}
    (h : Collected properties dependencies) (property : INodeProperties) :
    property.MentionsInherited ∧ addProperty dependencies property = .error .typeError ∨
      ¬property.MentionsInherited ∧ ∃ dependencies',
        N8n.addProperty dependencies property = .ok dependencies' ∧
          Collected (properties ++ [property]) dependencies' := by
  by_cases hname : property.name ∈ objectPrototypeKeys
  · rw [addProperty_of_inherited hname (h.inherited _ hname)]
    by_cases hkeys : property.ruleKeys = []
    · refine .inr ⟨fun hmentions => hmentions.2 hkeys, dependencies, if_pos hkeys, h.inherited, ?_, ?_⟩
      · intro property' hmem hne
        rcases List.mem_append.mp hmem with hmem | hmem
        · exact h.listed property' hmem hne
        · rw [List.mem_singleton.mp hmem] at hne
          exact absurd hname hne
      · intro name known hget
        obtain ⟨hnodup, hmem⟩ := h.entry name known hget
        refine ⟨hnodup, fun dependency => ?_⟩
        rw [hmem, mem_dependencyNames_concat, hkeys]
        simp
    · exact .inl ⟨⟨hname, hkeys⟩, if_neg hkeys⟩
  · obtain ⟨known, hget, hnodup, hmem, hkept⟩ := h.ensureEntry hname
    obtain ⟨dependencies', known', hfold, hget', hnodup', hmem', hkept'⟩ :=
      foldlM_addDependency property.ruleKeys hget hnodup
    have hother : ∀ other, other ≠ property.name →
        dependencies'.get? other = dependencies.get? other :=
      fun other hne => (hkept' other hne).trans (hkept other hne)
    refine .inr ⟨fun hmentions => hname hmentions.1, dependencies', hfold, ?_, ?_, ?_⟩
    · intro name hinherited
      rw [hother name fun heq => hname (heq ▸ hinherited)]
      exact h.inherited name hinherited
    · intro property' hmem hne
      rw [OrderedMap.mem_keys_iff]
      by_cases heq : property'.name = property.name
      · exact ⟨known', heq ▸ hget'⟩
      · rw [hother _ heq, ← OrderedMap.mem_keys_iff]
        rcases List.mem_append.mp hmem with hmem | hmem
        · exact h.listed property' hmem hne
        · exact absurd (congrArg INodeProperties.name (List.mem_singleton.mp hmem)) heq
    · intro name known'' hget''
      by_cases heq : property.name = name
      · subst heq
        obtain rfl := Option.some.inj (hget'.symm.trans hget'')
        refine ⟨hnodup', fun dependency => ?_⟩
        rw [hmem', hmem, mem_dependencyNames_concat, and_iff_right rfl]
      · rw [hother name (Ne.symm heq)] at hget''
        obtain ⟨hnodup'', hmem''⟩ := h.entry name known'' hget''
        refine ⟨hnodup'', fun dependency => ?_⟩
        rw [hmem'', mem_dependencyNames_concat, or_iff_left fun hand => heq hand.1]

/-- The dependencies are collected unless a property with an inherited name mentions something. -/
theorem getParameterDependencies_cases (nodePropertiesArray : List INodeProperties) :
    (∃ property ∈ nodePropertiesArray, property.MentionsInherited) ∧
        getParameterDependencies nodePropertiesArray = .error .typeError ∨
      (∀ property ∈ nodePropertiesArray, ¬property.MentionsInherited) ∧ ∃ dependencies,
        getParameterDependencies nodePropertiesArray = .ok dependencies ∧
          Collected nodePropertiesArray dependencies := by
  have hloop : ∀ (rest done : List INodeProperties) (dependencies : IParameterDependencies),
      Collected done dependencies →
      (∃ property ∈ rest, property.MentionsInherited) ∧
          rest.foldlM N8n.addProperty dependencies = .error .typeError ∨
        (∀ property ∈ rest, ¬property.MentionsInherited) ∧ ∃ dependencies',
          rest.foldlM N8n.addProperty dependencies = .ok dependencies' ∧
            Collected (done ++ rest) dependencies' := by
    intro rest
    induction rest with
    | nil =>
      intro done dependencies h
      exact .inr ⟨fun _ h => absurd h List.not_mem_nil, dependencies, rfl, by simpa using h⟩
    | cons property rest ih =>
      intro done dependencies h
      rw [List.foldlM_cons]
      rcases h.addProperty property with
        ⟨hmentions, herror⟩ | ⟨hnot, next, hnext, hcollected⟩
      · rw [herror]
        exact .inl ⟨⟨property, List.mem_cons_self, hmentions⟩, rfl⟩
      · rw [hnext]
        rcases ih (done ++ [property]) next hcollected with
          ⟨⟨property', hmem, hmentions⟩, herror⟩ | ⟨hrest, last, hlast, hcollected'⟩
        · exact .inl ⟨⟨property', List.mem_cons_of_mem _ hmem, hmentions⟩, herror⟩
        · refine .inr ⟨List.forall_mem_cons.mpr ⟨hnot, hrest⟩, last, hlast, ?_⟩
          simpa using hcollected'
  exact hloop nodePropertiesArray [] ∅ collected_nil

end N8n
