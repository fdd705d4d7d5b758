import Mathlib.Logic.Function.Basic

/-!
# Codes that delimit themselves

A code word that is read off the front of any text makes concatenation unambiguous: texts of
several words are decoded word by word.
-/

namespace JobPing

/-- A word of the code is recognised whatever follows it. -/
def SelfDelimiting {α β : Type*} (code : α → List β) : Prop :=
  ∀ ⦃a b : α⦄ ⦃s t : List β⦄, code a ++ s = code b ++ t → a = b ∧ s = t

namespace SelfDelimiting

variable {α β : Type*} {code : α → List β}

theorem injective (h : SelfDelimiting code) : Function.Injective code := by
  intro a b hab
  have heq : code a ++ [] = code b ++ [] := by rw [hab]
  exact (h heq).1

/-- Two words are read off one after the other. -/
theorem append_inj (h : SelfDelimiting code) {a b c d : α} :
    code a ++ code c = code b ++ code d ↔ a = b ∧ c = d := by
  constructor
  · intro heq
    obtain ⟨hab, hcd⟩ := h heq
    exact ⟨hab, h.injective hcd⟩
  · rintro ⟨rfl, rfl⟩
    rfl

/-- **Texts of words are unambiguous**, whatever their numbers. -/
theorem flatMap_injective (h : SelfDelimiting code) (hne : ∀ a, code a ≠ []) :
    Function.Injective (List.flatMap code) := by
  intro xs
  induction xs with
  | nil =>
    intro ys heq
    cases ys with
    | nil => rfl
    | cons b ys =>
      have hnil : code b = [] := (List.append_eq_nil_iff.mp heq.symm).1
      exact absurd hnil (hne b)
  | cons a xs ih =>
    intro ys heq
    cases ys with
    | nil =>
      have hnil : code a = [] := (List.append_eq_nil_iff.mp heq).1
      exact absurd hnil (hne a)
    | cons b ys =>
      simp only [List.flatMap_cons] at heq
      obtain ⟨rfl, hrest⟩ := h heq
      rw [ih hrest]

end SelfDelimiting

end JobPing
