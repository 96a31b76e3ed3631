import Mathlib.Data.List.Infix
import Mathlib.Data.Option.Basic

/-!
# Updates below a path

In a tree whose nodes have children by key, a path leads to a node. `Puts` is an update that puts a
node at the end of a path and leaves the other children of each node on the way. Where the path
leads to nothing, or to a node without children, an empty node takes its place first.

The two laws are `Puts.followPath_self` and `Puts.followPath_of_unrelated`.
-/

namespace Lib

variable {τ κ : Type*} (child : τ → κ → Option τ)

/-- The node at the end of a path. -/
def followPath : τ → List κ → Option τ
  | t, [] => some t
  | t, k :: path => (child t k).bind fun c => followPath c path

/-- No path goes on from the node. -/
def IsLeaf (t : τ) : Prop := ∀ k, child t k = none

/-- One child is another, and the rest is as it was. -/
def ReplacesChild (t : τ) (k : κ) (c t' : τ) : Prop :=
  child t' k = some c ∧ ∀ k', k' ≠ k → child t' k' = child t k'

inductive Puts (v : τ) : τ → List κ → τ → Prop
  | here (t : τ) : Puts v t [] v
  | inside {t t' c c' : τ} {k : κ} {path : List κ} (hchild : child t k = some c)
      (hputs : Puts v c path c') (hreplaces : ReplacesChild child t k c' t') :
      Puts v t (k :: path) t'
  | create {t t' c c' : τ} {k : κ} {path : List κ} (hleaf : ∀ old ∈ child t k, IsLeaf child old)
      (hempty : IsLeaf child c) (hputs : Puts v c path c')
      (hreplaces : ReplacesChild child t k c' t') : Puts v t (k :: path) t'

variable {child} {v t t' : τ} {path : List κ}

theorem IsLeaf.followPath_eq_none (h : IsLeaf child t) (hpath : path ≠ []) :
    followPath child t path = none := by
  obtain ⟨k, path, rfl⟩ := List.exists_cons_of_ne_nil hpath
  rw [followPath, h k, Option.bind_none]

/-- What was put is found. -/
theorem Puts.followPath_self (h : Puts child v t path t') : followPath child t' path = some v := by
  induction h with
  | here t => rfl
  | inside hchild hputs hreplaces ih => rw [followPath, hreplaces.1, Option.bind_some, ih]
  | create hleaf hempty hputs hreplaces ih => rw [followPath, hreplaces.1, Option.bind_some, ih]

/-- What no path has in common with the update is as it was. -/
theorem Puts.followPath_of_unrelated (h : Puts child v t path t') {other : List κ}
    (hother : ¬ other <+: path) (hpath : ¬ path <+: other) :
    followPath child t' other = followPath child t other := by
  induction h generalizing other with
  | here t => exact absurd other.nil_prefix hpath
  | @inside t t' c c' k path hchild hputs hreplaces ih =>
    rcases other with _ | ⟨k', other⟩
    · exact absurd (List.nil_prefix) hother
    · by_cases hk : k' = k
      · subst hk
        rw [List.prefix_cons_inj] at hother hpath
        rw [followPath, followPath, hreplaces.1, hchild, Option.bind_some, Option.bind_some,
          ih hother hpath]
      · rw [followPath, followPath, hreplaces.2 k' hk]
  | @create t t' c c' k path hleaf hempty hputs hreplaces ih =>
    rcases other with _ | ⟨k', other⟩
    · exact absurd (List.nil_prefix) hother
    · by_cases hk : k' = k
      · subst hk
        rw [List.prefix_cons_inj] at hother hpath
        have hne : other ≠ [] := by
          rintro rfl
          exact hother List.nil_prefix
        rw [followPath, followPath, hreplaces.1, Option.bind_some, ih hother hpath,
          hempty.followPath_eq_none hne]
        cases hold : child t k' with
        | none => rfl
        | some old => exact ((hleaf old hold).followPath_eq_none hne).symm
      · rw [followPath, followPath, hreplaces.2 k' hk]

end Lib
