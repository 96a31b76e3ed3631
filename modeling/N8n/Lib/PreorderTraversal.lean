import Mathlib.Data.List.Nodup
import Mathlib.Logic.Relation
import Mathlib.Order.WellFoundedSet

/-!
# Preorder traversal

`InPreorder children as l` says that `l` lists the roots `as` and what is below them in
preorder : a node comes before its children, and the children of a node with all that is
below them come before the next root. Below one root there is such an `l` if every node has
at most one parent, the root is on no cycle and there are finitely many nodes
(`exists_inPreorder`).

A machine that takes a node from a stack and puts its children there instead visits the
nodes in this order : `inPreorder_cons_iff` is one step of it.
-/

namespace Lib

open Relation

variable {V : Type*} {children : V → List V}

inductive InPreorder (children : V → List V) : List V → List V → Prop
  | nil : InPreorder children [] []
  | cons {a : V} {as below after : List V} (hbelow : InPreorder children (children a) below)
      (hafter : InPreorder children as after) :
      InPreorder children (a :: as) (a :: (below ++ after))

@[simp] theorem inPreorder_nil_iff {l : List V} : InPreorder children [] l ↔ l = [] := by
  constructor
  · intro h
    cases h
    rfl
  · rintro rfl
    exact .nil

theorem InPreorder.append {as bs l m : List V} (h : InPreorder children as l)
    (h' : InPreorder children bs m) : InPreorder children (as ++ bs) (l ++ m) := by
  induction h with
  | nil => exact h'
  | cons hbelow _ _ ih =>
    simpa only [List.cons_append, List.append_assoc] using InPreorder.cons hbelow ih

theorem InPreorder.split {as bs l : List V} (h : InPreorder children (as ++ bs) l) :
    ∃ l₁ l₂, l = l₁ ++ l₂ ∧ InPreorder children as l₁ ∧ InPreorder children bs l₂ := by
  induction as generalizing l with
  | nil => exact ⟨[], l, rfl, .nil, h⟩
  | cons a as ih =>
    obtain - | ⟨hbelow, hafter⟩ := h
    obtain ⟨l₁, l₂, rfl, h₁, h₂⟩ := ih hafter
    exact ⟨_, l₂, by simp, .cons hbelow h₁, h₂⟩

/-- One step of the machine with a stack. -/
theorem inPreorder_cons_iff {a : V} {as l : List V} :
    InPreorder children (a :: as) l ↔
      ∃ l', l = a :: l' ∧ InPreorder children (children a ++ as) l' := by
  constructor
  · intro h
    obtain - | ⟨hbelow, hafter⟩ := h
    exact ⟨_, rfl, hbelow.append hafter⟩
  · rintro ⟨l', rfl, h⟩
    obtain ⟨below, after, rfl, hbelow, hafter⟩ := h.split
    exact .cons hbelow hafter

/-! ## Existence -/

theorem exists_inPreorder_of_forall {as : List V}
    (h : ∀ a ∈ as, ∃ l, InPreorder children (children a) l) : ∃ l, InPreorder children as l := by
  induction as with
  | nil => exact ⟨[], .nil⟩
  | cons a as ih =>
    obtain ⟨below, hbelow⟩ := h a (by simp)
    obtain ⟨after, hafter⟩ := ih fun b hb => h b (by simp [hb])
    exact ⟨_, .cons hbelow hafter⟩

/-- What leads to a node on a cycle is on a cycle, if every node has at most one parent. -/
theorem transGen_self_of_reaches {r : V → V → Prop} (hparent : ∀ a b c, r a c → r b c → a = b)
    {a b : V} (hab : ReflTransGen r a b) (hb : TransGen r b b) : TransGen r a a := by
  induction hab with
  | refl => exact hb
  | @tail c d _ hcd ih =>
    obtain ⟨e, hde, hed⟩ := TransGen.tail'_iff.mp hb
    obtain rfl := hparent c e d hcd hed
    exact ih (TransGen.head' hcd hde)

/-- A root on no cycle is the root of a tree. -/
theorem exists_inPreorder {root : V} {nodes : Set V} (hfinite : nodes.Finite)
    (hnodes : ∀ a, ∀ b ∈ children a, b ∈ nodes)
    (hparent : ∀ a b c, c ∈ children a → c ∈ children b → a = b)
    (hroot : ¬TransGen (fun a b => b ∈ children a) root root) :
    ∃ l, InPreorder children [root] l := by
  let child (a b : V) : Prop := b ∈ children a
  let below (b a : V) : Prop := ReflTransGen child root a ∧ TransGen child a b
  have : IsStrictOrder V below := {
    irrefl := fun a h => hroot (transGen_self_of_reaches hparent h.1 h.2)
    trans := fun _ _ _ h h' => ⟨h'.1, h'.2.trans h.2⟩ }
  have hwf : nodes.WellFoundedOn below := hfinite.wellFoundedOn
  have hall : ∀ a ∈ nodes, ReflTransGen child root a → ∃ l, InPreorder children (children a) l := by
    intro a ha
    apply hwf.induction ha
    intro a ha ih hreach
    exact exists_inPreorder_of_forall fun b hb =>
      ih b (hnodes a b hb) ⟨hreach, .single hb⟩ (hreach.tail hb)
  refine exists_inPreorder_of_forall fun a ha => ?_
  obtain rfl := List.mem_singleton.mp ha
  exact exists_inPreorder_of_forall fun b hb => hall b (hnodes a b hb) (.single hb)

end Lib
