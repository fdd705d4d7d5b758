import Mathlib.Data.List.Basic

/-!
# Partitions of a list into groups

A list of groups is a partition of the list it flattens to. When no group is empty, a partition is
determined by where its groups end: two partitions of one list that agree up to a place are the same
up to it (`boundary_unique`), and a place inside a group is not the end of one (`no_boundary`).
-/

variable {α : Type*} {g g' r r' : List (List α)}

namespace List

/-- The groups up to a place are determined by the place. -/
theorem boundary_unique (h : g ++ r = g' ++ r') (hne : [] ∉ g ++ r)
    (hflat : g.flatten.length = g'.flatten.length) : g = g' ∧ r = r' := by
  induction g generalizing g' with
  | nil =>
    cases g' with
    | nil => exact ⟨rfl, h⟩
    | cons first g' =>
      have hfirst : first = [] := by
        rw [flatten_nil, length_nil, flatten_cons, length_append] at hflat
        exact eq_nil_of_length_eq_zero (by omega)
      rw [nil_append] at h hne
      rw [h, hfirst] at hne
      exact absurd mem_cons_self hne
  | cons first g ih =>
    cases g' with
    | nil =>
      have hfirst : first = [] := by
        rw [flatten_nil, length_nil, flatten_cons, length_append] at hflat
        exact eq_nil_of_length_eq_zero (by omega)
      rw [hfirst] at hne
      exact absurd mem_cons_self hne
    | cons first' g' =>
      rw [cons_append, cons_append, cons.injEq] at h
      obtain ⟨rfl, h⟩ := h
      rw [flatten_cons, flatten_cons, length_append, length_append] at hflat
      obtain ⟨rfl, rfl⟩ := ih h (fun hmem => hne (mem_cons_of_mem _ hmem)) (by omega)
      exact ⟨rfl, rfl⟩

/-- No group ends inside of another. -/
theorem no_boundary {a b : List α} (h : g ++ r = g' ++ (a ++ b) :: r') (hne : [] ∉ g ++ r)
    (hflat : g.flatten.length = (g'.flatten ++ a).length) (ha : a ≠ []) (hb : b ≠ []) : False := by
  have hlength := length_pos_of_ne_nil ha
  rw [length_append] at hflat
  induction g generalizing g' with
  | nil =>
    rw [flatten_nil, length_nil] at hflat
    omega
  | cons first g ih =>
    cases g' with
    | nil =>
      rw [nil_append, cons_append, cons.injEq] at h
      obtain ⟨rfl, -⟩ := h
      have := length_pos_of_ne_nil hb
      rw [flatten_cons, length_append, length_append, flatten_nil, length_nil] at hflat
      omega
    | cons first' g' =>
      rw [cons_append, cons_append, cons.injEq] at h
      obtain ⟨rfl, h⟩ := h
      rw [flatten_cons, flatten_cons, length_append, length_append] at hflat
      exact ih h (fun hmem => hne (mem_cons_of_mem _ hmem)) (by omega)

end List
