import Mathlib.Logic.Basic

/-!
# Relating two computations

`Exec ε S` is a computation with a state and exceptions; the state survives an exception.
`Rel E P m m' Q` compares two of them : started in states related by `P`, either both return,
with results and states related by `Q`, or both raise the same exception, in states related
by `E`. The rules follow the structure of the computations (`Rel.pure`, `Rel.bind`).
-/

namespace Lib

abbrev Exec (ε S : Type) := ExceptT ε (StateM S)

variable {ε S T α β α' β' : Type}

namespace Exec

/-- What the computation does from a state. -/
def runFrom (m : Exec ε S α) (s : S) : Except ε α × S := (ExceptT.run m).run s

@[simp] theorem runFrom_pure (a : α) (s : S) : runFrom (pure a : Exec ε S α) s = (.ok a, s) := rfl

@[simp] theorem runFrom_throw (e : ε) (s : S) :
    runFrom (throw e : Exec ε S α) s = (.error e, s) := rfl

theorem runFrom_bind (m : Exec ε S α) (f : α → Exec ε S β) (s : S) :
    runFrom (m >>= f) s =
      match runFrom m s with
      | (.ok a, s') => runFrom (f a) s'
      | (.error e, s') => (.error e, s') := by
  change (do
    let p ← runFrom m s
    StateT.run (ExceptT.bindCont f p.1) p.2 : Id (Except ε β × S)) = _
  rcases runFrom m s with ⟨_ | _, _⟩ <;> rfl

theorem ext {m m' : Exec ε S α} (h : ∀ s, m.runFrom s = m'.runFrom s) : m = m' := funext h

/-- A step on the state that does not fail. -/
def step (f : S → α × S) : Exec ε S α := ExceptT.mk fun s => ((f s).1 |> .ok, (f s).2)

@[simp] theorem runFrom_step (f : S → α × S) (s : S) :
    runFrom (step f : Exec ε S α) s = (.ok (f s).1, (f s).2) := rfl

end Exec

/-- Both returned, or both raised the same exception. -/
inductive Outcomes (E : S → T → Prop) (Q : α → β → S → T → Prop) :
    Except ε α × S → Except ε β × T → Prop
  | ok {a : α} {b : β} {s : S} {t : T} (h : Q a b s t) : Outcomes E Q (.ok a, s) (.ok b, t)
  | error {e : ε} {s : S} {t : T} (h : E s t) : Outcomes E Q (.error e, s) (.error e, t)

theorem Outcomes.imp {E : S → T → Prop} {Q Q' : α → β → S → T → Prop} {x : Except ε α × S}
    {y : Except ε β × T} (h : Outcomes E Q x y) (hQ : ∀ a b s t, Q a b s t → Q' a b s t) :
    Outcomes E Q' x y := by
  cases h with
  | ok hq => exact .ok (hQ _ _ _ _ hq)
  | error he => exact .error he

def Rel (E P : S → T → Prop) (m : Exec ε S α) (m' : Exec ε T β) (Q : α → β → S → T → Prop) :
    Prop :=
  ∀ s t, P s t → Outcomes E Q (m.runFrom s) (m'.runFrom t)

namespace Rel

variable {E P P' : S → T → Prop} {Q Q' : α → β → S → T → Prop} {R : α' → β' → S → T → Prop}
  {m : Exec ε S α} {m' : Exec ε T β}

theorem pure {a : α} {b : β} (h : ∀ s t, P s t → Q a b s t) :
    Rel (ε := ε) E P (Pure.pure a) (Pure.pure b) Q :=
  fun s t hP => .ok (h s t hP)

theorem throw {e : ε} (h : ∀ s t, P s t → E s t) :
    Rel E P (throw e : Exec ε S α) (MonadExcept.throw e : Exec ε T β) Q :=
  fun s t hP => .error (h s t hP)

theorem mono (h : Rel E P m m' Q) (hP : ∀ s t, P' s t → P s t)
    (hQ : ∀ a b s t, Q a b s t → Q' a b s t) : Rel E P' m m' Q' :=
  fun s t hst => (h s t (hP s t hst)).imp hQ

theorem bind {f : α → Exec ε S α'} {f' : β → Exec ε T β'} (h : Rel E P m m' Q)
    (hf : ∀ a b, Rel E (Q a b) (f a) (f' b) R) : Rel E P (m >>= f) (m' >>= f') R := by
  intro s t hst
  rw [Exec.runFrom_bind, Exec.runFrom_bind]
  have hm := h s t hst
  generalize m.runFrom s = x, m'.runFrom t = y at hm
  cases hm with
  | ok hq => exact hf _ _ _ _ hq
  | error he => exact .error he

end Rel

end Lib
