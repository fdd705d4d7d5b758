import Mathlib.Data.List.Induction
import Mathlib.Data.List.TakeWhile

/-!
# Remembered values

What a loop over a list remembers that keeps the last value it saw, and forgets it at a reset.
-/

namespace Remembered

variable {α β : Type*} (resets : α → Bool) (value : α → Option β)

/-- The last value of a list after its last reset. -/
def remembered (l : List α) : Option β := (l.reverse.takeWhile fun a => !resets a).findSome? value

@[simp] theorem remembered_nil : remembered resets value [] = none := rfl

/-- One round of the loop. -/
theorem remembered_concat (l : List α) (a : α) :
    remembered resets value (l ++ [a]) =
      if resets a then none else (value a).or (remembered resets value l) := by
  rw [remembered, List.reverse_append, List.reverse_singleton, List.singleton_append,
    List.takeWhile_cons]
  cases resets a with
  | true => rfl
  | false =>
    rw [Bool.not_false, if_pos rfl, if_neg Bool.false_ne_true, List.findSome?_cons]
    cases value a <;> rfl

/-- What is remembered of two lists. -/
theorem remembered_append (l l' : List α) :
    remembered resets value (l ++ l') =
      if l'.any resets then remembered resets value l'
      else (remembered resets value l').or (remembered resets value l) := by
  induction l' using List.reverseRecOn with
  | nil => simp
  | append_singleton l' a ih =>
    rw [← List.append_assoc, remembered_concat, remembered_concat, ih, List.any_append]
    cases hreset : resets a with
    | true => simp [hreset]
    | false => cases l'.any resets <;> simp [hreset, Option.or_assoc]

variable {resets value} {l : List α} {b : β}

/-- Without a reset nothing is forgotten. -/
theorem remembered_eq_none (h : ∀ a ∈ l, resets a = false) :
    remembered resets value l = none ↔ ∀ a ∈ l, value a = none := by
  have hall : l.reverse.takeWhile (fun a => !resets a) = l.reverse :=
    List.takeWhile_eq_self_iff.mpr fun a ha => by rw [h a (List.mem_reverse.mp ha)]; rfl
  rw [remembered, hall, List.findSome?_eq_none_iff]
  simp only [List.mem_reverse]

/-- **A remembered value** comes from the last item with a value, and no reset follows it. -/
theorem remembered_eq_some :
    remembered resets value l = some b ↔ ∃ older a newer, l = older ++ a :: newer ∧
      value a = some b ∧ resets a = false ∧ ∀ x ∈ newer, resets x = false ∧ value x = none := by
  induction l using List.reverseRecOn with
  | nil =>
    constructor
    · intro h
      cases h
    · rintro ⟨older, a, newer, h, -⟩
      exact absurd h.symm (List.append_ne_nil_of_right_ne_nil _ (List.cons_ne_nil _ _))
  | append_singleton l a ih =>
    rw [remembered_concat]
    constructor
    · intro h
      split_ifs at h with hreset
      have hreset : resets a = false := (Bool.not_eq_true _).mp hreset
      cases hvalue : value a with
      | some c =>
        rw [hvalue] at h
        exact ⟨l, a, [], rfl, hvalue.trans h, hreset, fun _ hx => absurd hx List.not_mem_nil⟩
      | none =>
        rw [hvalue, Option.none_or] at h
        obtain ⟨older, a', newer, rfl, ha', hreset', hnewer⟩ := ih.mp h
        refine ⟨older, a', newer ++ [a], by simp, ha', hreset', fun x hx => ?_⟩
        rcases List.mem_append.mp hx with hx | hx
        · exact hnewer x hx
        · rw [List.mem_singleton.mp hx]
          exact ⟨hreset, hvalue⟩
    · rintro ⟨older, a', newer, heq, ha', hreset', hnewer⟩
      rcases List.eq_nil_or_concat newer with rfl | ⟨newer, x, rfl⟩
      · obtain ⟨-, rfl⟩ := List.append_inj' heq rfl |>.imp id List.singleton_inj.mp
        rw [hreset', ha']
        rfl
      · rw [List.concat_eq_append, ← List.cons_append, ← List.append_assoc] at heq
        obtain ⟨rfl, hlast⟩ := List.append_inj' heq rfl
        obtain rfl := List.singleton_inj.mp hlast
        obtain ⟨hreset, hvalue⟩ := hnewer a (by simp)
        rw [hreset, hvalue, Option.none_or, if_neg Bool.false_ne_true]
        exact ih.mpr ⟨older, a', newer, rfl, ha', hreset', fun y hy => hnewer y (by simp [hy])⟩

end Remembered
