import Mathlib.Algebra.Order.Ring.Nat
import Mathlib.Data.List.Sort

/-!
# Pages

A list that is cut into pages of one size. The pages in their order are the list (`flatMap_page`);
there are as many as are needed (`page_ne_nil_iff`).
-/

namespace Pages

variable {α : Type*} {l : List α} {size n : ℕ}

/-- `OFFSET (page - 1) * size LIMIT size`; pages are counted from zero here. -/
def page (size n : ℕ) (l : List α) : List α := (l.drop (n * size)).take size

/-- The number of pages. -/
def total (size length : ℕ) : ℕ := (length + size - 1) / size

theorem lt_total_iff (hsize : 0 < size) {length : ℕ} :
    n < total size length ↔ n * size < length := by
  rw [total, Nat.lt_div_iff_mul_lt hsize]
  omega

theorem page_ne_nil_iff (hsize : 0 < size) : page size n l ≠ [] ↔ n < total size l.length := by
  rw [lt_total_iff hsize, ← List.length_pos_iff, page, List.length_take, List.length_drop]
  omega

/-- The first pages are the beginning of the list. -/
theorem flatMap_page_range (l : List α) (size k : ℕ) :
    (List.range k).flatMap (fun n => page size n l) = l.take (k * size) := by
  induction k with
  | zero => simp
  | succ k ih =>
    rw [List.range_succ, List.flatMap_append, ih, Nat.succ_mul, List.take_add]
    simp [page]

/-- **The pages in their order are the list.** -/
theorem flatMap_page (hsize : 0 < size) (l : List α) :
    (List.range (total size l.length)).flatMap (fun n => page size n l) = l := by
  rw [flatMap_page_range, List.take_of_length_le]
  by_contra hlt
  exact absurd ((lt_total_iff hsize).mpr (not_le.mp hlt)) (lt_irrefl _)

end Pages
