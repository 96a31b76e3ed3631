import N8n.Lib.LiteralReader

/-!
# Identifiers of JavaScript

A module is strict code, so more words are reserved there than elsewhere, and `eval` and
`arguments` cannot be bound.
-/

namespace Lib

def reservedWords : List (List UInt16) :=
  ["await", "break", "case", "catch", "class", "const", "continue", "debugger", "default",
    "delete", "do", "else", "enum", "export", "extends", "false", "finally", "for", "function",
    "if", "import", "in", "instanceof", "new", "null", "return", "super", "switch", "this",
    "throw", "true", "try", "typeof", "var", "void", "while", "with", "yield"].map units

/-- What is reserved in strict code only. -/
def strictReservedWords : List (List UInt16) :=
  ["let", "static", "implements", "interface", "package", "private", "protected",
    "public"].map units

/-- What a declaration in a module cannot bind. -/
def unbindableWords : List (List UInt16) :=
  reservedWords ++ strictReservedWords ++ ["eval", "arguments"].map units

/-- A declaration in a module can bind the name. Only characters of `isNamePart` are considered. -/
structure IsBindingName (name : List UInt16) : Prop where
  isName : IsName name
  bindable : name ∉ unbindableWords

theorem IsName.append {name suffix : List UInt16} (h : IsName name)
    (hsuffix : ∀ u ∈ suffix, isNamePart u = true) : IsName (name ++ suffix) := by
  refine ⟨List.forall_mem_append.mpr ⟨h.parts, hsuffix⟩, fun u hu => ?_, by simp [h.ne_nil]⟩
  rw [List.head?_append_of_ne_nil _ h.ne_nil] at hu
  exact h.start u hu

end Lib
