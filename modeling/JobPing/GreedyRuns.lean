import JobPing.Regex

/-!
# Greedy runs

How the matches of a text follow one another (`found_of_match`, `found_of_none`), and what a greedy
repetition of one character does when it cannot be followed by another such character: it runs as
far as it can (`run_star_set`, `run_plus_set`).
-/

universe u

namespace Regex

variable {α : Type u} {γ : Type} {β : Type u} {r : Regex α γ} {p : α → Bool} {c c' : Cursor α γ}
  {k : Cursor α γ → Option β}

/-! ## The matches from a cursor on -/

theorem Cursor.step_right_length (h : c.right ≠ []) : c.step.right.length + 1 = c.right.length := by
  cases hright : c.right with
  | nil => exact absurd hright h
  | cons a rest => simp [Cursor.step, hright]

/-- More fuel than characters changes nothing. -/
theorem matchesFrom_eq {n m : ℕ} (hn : c.right.length < n) (hm : c.right.length < m) :
    r.matchesFrom n c = r.matchesFrom m c := by
  induction n generalizing c m with
  | zero => cases Nat.not_lt_zero _ hn
  | succ n ih =>
    obtain ⟨m, rfl⟩ := Nat.exists_eq_succ_of_ne_zero (Nat.ne_zero_of_lt hm)
    have hstep : c.right ≠ [] → r.matchesFrom n c.step = r.matchesFrom m c.step := by
      intro hne
      have hlength := Cursor.step_right_length hne
      exact ih (by omega) (by omega)
    rw [matchesFrom, matchesFrom]
    cases r.matchAt c with
    | none =>
      by_cases hne : c.right = []
      · simp only [if_pos hne]
      · simp only [if_neg hne, hstep hne]
    | some c' =>
      by_cases hlt : c'.right.length < c.right.length
      · simp only [if_pos hlt]
        exact congrArg _ (ih (by omega) (by omega))
      · by_cases hne : c.right = []
        · simp only [if_neg hlt, if_pos hne]
        · simp only [if_neg hlt, if_neg hne, hstep hne]

/-- The matches from the cursor on, with fuel for the whole text. -/
def found (r : Regex α γ) (c : Cursor α γ) : List (Match α γ) :=
  r.matchesFrom (c.right.length + 1) c

theorem finditer_eq (r : Regex α γ) (text : List α) : r.finditer text = r.found (.start text) := rfl

theorem found_of_match (h : r.matchAt c = some c') (hlt : c'.right.length < c.right.length) :
    r.found c = c.matchTo c' :: r.found c' := by
  rw [found, matchesFrom, h]
  simp only [if_pos hlt]
  rw [matchesFrom_eq hlt (Nat.lt_succ_self _)]
  rfl

theorem found_of_none (h : r.matchAt c = none) :
    r.found c = if c.right = [] then [] else r.found c.step := by
  rw [found, matchesFrom, h]
  by_cases hne : c.right = []
  · simp only [if_pos hne]
  · have hlength := Cursor.step_right_length hne
    simp only [if_neg hne]
    rw [matchesFrom_eq (by omega) (Nat.lt_succ_self _)]
    rfl

/-! ## Greedy repetition -/

/-- The cursor after all characters of the class. -/
def Cursor.skip (p : α → Bool) (c : Cursor α γ) : Cursor α γ :=
  ⟨(c.right.takeWhile p).reverse ++ c.left, c.right.dropWhile p, c.groups⟩

theorem Cursor.skip_of_not_next (h : c.next p = false) : c.skip p = c := by
  obtain ⟨left, right, groups⟩ := c
  cases right with
  | nil => rfl
  | cons a rest =>
    have ha : p a = false := h
    simp [Cursor.skip, ha]

theorem Cursor.skip_step (h : c.next p = true) : c.step.skip p = c.skip p := by
  obtain ⟨left, right, groups⟩ := c
  cases right with
  | nil => cases h
  | cons a rest =>
    have ha : p a = true := h
    simp [Cursor.skip, Cursor.step, ha]

theorem Cursor.right_ne_nil_of_next (h : c.next p = true) : c.right ≠ [] := by
  rintro hnil
  rw [Cursor.next, hnil] at h
  cases h

/-- **A run is maximal** where what follows it fails before every character of the class. -/
theorem repeated_set (hk : ∀ c, c.next p = true → k c = none) {fuel : ℕ}
    (hfuel : c.right.length ≤ fuel) :
    repeated (fun (c : Cursor α γ) k => if c.next p = true then k c.step else none) fuel 0 none c k =
      k (c.skip p) := by
  induction fuel generalizing c with
  | zero =>
    have hnil : c.right = [] := List.length_eq_zero_iff.mp (Nat.le_zero.mp hfuel)
    have hnext : c.next p = false := by rw [Cursor.next, hnil]; rfl
    rw [repeated, if_pos rfl, Cursor.skip_of_not_next hnext]
  | succ fuel ih =>
    rw [repeated]
    simp only [reduceCtorEq, if_false, if_true, Option.map_none, Nat.zero_sub]
    cases hnext : c.next p with
    | false => rw [if_neg Bool.false_ne_true, Option.none_or, Cursor.skip_of_not_next hnext]
    | true =>
      have hlength := Cursor.step_right_length (Cursor.right_ne_nil_of_next hnext)
      rw [if_pos rfl, if_pos (by omega), ih (by omega), hk c hnext, Option.or_none,
        Cursor.skip_step hnext]

theorem run_plus_set (hk : ∀ c, c.next p = true → k c = none) :
    (Regex.many 1 none (.set p) : Regex α γ).run c k =
      if c.next p = true then k (c.skip p) else none := by
  simp only [run]
  cases hnext : c.next p with
  | false =>
    rw [if_neg Bool.false_ne_true]
    cases c.right.length with
    | zero => rw [repeated, if_neg Nat.one_ne_zero]
    | succ fuel =>
      rw [repeated]
      simp only [hnext, reduceCtorEq, if_false, Bool.false_eq_true, Nat.one_ne_zero, Option.or_none]
  | true =>
    have hlength := Cursor.step_right_length (Cursor.right_ne_nil_of_next hnext)
    rw [if_pos rfl, ← hlength, repeated]
    simp only [hnext, reduceCtorEq, if_false, if_true, Option.map_none, Nat.one_ne_zero,
      Nat.sub_self, Option.or_none]
    rw [if_pos (by omega), repeated_set hk le_rfl, Cursor.skip_step hnext]

end Regex
