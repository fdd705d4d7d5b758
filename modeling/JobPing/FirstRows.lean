import Mathlib.Data.List.Sort
import Mathlib.Data.List.Nodup

/-!
# Copying rows from table to table

A loop over the rows of one table that inserts their copies into another one. Every insert is
checked against the constraints of the table: a row that violates one ends the loop. The plain loop
`copyRows` inserts a copy of every row, and the loop `copyFirst` one of the first row of every key.

* Where no constraint is in the way, `copyRows` appends the copies of all rows
  (`copyRows_eq_ok`), and `copyFirst` those of `firsts` (`copyFirst_eq_ok`).
* `firsts` has one row for every key that occurs (`pairwise_firsts`, `mem_map_firsts`), in a sorted
  table the least of its key (`firsts_le`).
-/

namespace Table

universe u

variable {ρ ε : Type*} {σ κ : Type u}

/-! ## The first row of every key -/

section firsts

variable [DecidableEq κ] {key : ρ → κ} {rows : List ρ}

/-- The rows whose key no earlier row has. -/
def firsts (key : ρ → κ) : List ρ → List ρ
  | [] => []
  | row :: rows => row :: (firsts key rows).filter (key · ≠ key row)

theorem firsts_sublist (key : ρ → κ) (rows : List ρ) : (firsts key rows).Sublist rows := by
  induction rows with
  | nil => exact .slnil
  | cons row rows ih => exact (List.filter_sublist.trans ih).cons_cons row

theorem pairwise_firsts (key : ρ → κ) (rows : List ρ) :
    (firsts key rows).Pairwise fun a b => key a ≠ key b := by
  induction rows with
  | nil => exact .nil
  | cons row rows ih =>
    refine List.pairwise_cons.mpr ⟨fun other hother => ?_, ih.filter _⟩
    have hne := (List.mem_filter.mp hother).2
    exact fun heq => of_decide_eq_true hne heq.symm

/-- No key is lost. -/
theorem mem_map_firsts {k : κ} : k ∈ (firsts key rows).map key ↔ k ∈ rows.map key := by
  induction rows with
  | nil => exact Iff.rfl
  | cons row rows ih =>
    rw [firsts, List.map_cons, List.map_cons, List.mem_cons, List.mem_cons, ← ih]
    by_cases hk : k = key row
    · simp [hk]
    · refine or_congr_right ⟨fun h => ?_, fun h => ?_⟩
      · exact (List.filter_sublist.map key).subset h
      · obtain ⟨other, hother, rfl⟩ := List.mem_map.mp h
        exact List.mem_map_of_mem (List.mem_filter.mpr ⟨hother, decide_eq_true hk⟩)

/-- In a sorted table the row that is kept is the least of its key. -/
theorem firsts_le {le : ρ → ρ → Prop} (hsorted : rows.Pairwise le) {row other : ρ}
    (hrow : row ∈ firsts key rows) (hother : other ∈ rows) (hkey : key other = key row) :
    other = row ∨ le row other := by
  induction rows with
  | nil => cases hother
  | cons head rows ih =>
    obtain ⟨hhead, hrows⟩ := List.pairwise_cons.mp hsorted
    rcases List.mem_cons.mp hrow with rfl | hrow
    · rcases List.mem_cons.mp hother with rfl | hother
      · exact .inl rfl
      · exact .inr (hhead other hother)
    · obtain ⟨hrow, hne⟩ := List.mem_filter.mp hrow
      rcases List.mem_cons.mp hother with rfl | hother
      · -- the head has another key
        exact absurd hkey.symm (of_decide_eq_true hne)
      · exact ih hrows hrow hother

/-- A table whose keys are distinct keeps all its rows. -/
theorem firsts_eq_self (h : (rows.map key).Nodup) : firsts key rows = rows := by
  induction rows with
  | nil => rfl
  | cons row rows ih =>
    obtain ⟨hnot, hrows⟩ := List.nodup_cons.mp h
    rw [firsts, ih hrows, List.filter_eq_self.mpr]
    intro other hother
    refine decide_eq_true fun heq => hnot ?_
    exact heq ▸ List.mem_map_of_mem hother

/-- The rows left when the head has a new key. -/
theorem filter_firsts_of_new (head : ρ) (seen : List κ) :
    ((firsts key rows).filter (key · ≠ key head)).filter (key · ∉ seen) =
      (firsts key rows).filter (key · ∉ key head :: seen) := by
  rw [List.filter_filter]
  refine List.filter_congr fun row _ => ?_
  by_cases hrow : key row = key head <;> simp [hrow]

/-- The rows left when the key of the head has been seen. -/
theorem filter_firsts_of_seen {head : ρ} {seen : List κ} (h : key head ∈ seen) :
    ((firsts key rows).filter (key · ≠ key head)).filter (key · ∉ seen) =
      (firsts key rows).filter (key · ∉ seen) := by
  rw [List.filter_filter]
  refine List.filter_congr fun row _ => ?_
  by_cases hrow : key row = key head <;> simp [hrow, h]

end firsts

/-! ## Inserts -/

section inserts

variable {violated : ε} {valid : σ → Bool} {conflicts : σ → σ → Bool} {t : List σ} {row : σ}

/-- `INSERT INTO t`, which fails on a row that violates a constraint. -/
def insertRow (violated : ε) (valid : σ → Bool) (conflicts : σ → σ → Bool) (t : List σ) (row : σ) :
    Except ε (List σ) :=
  if valid row && !t.any (conflicts row) then .ok (t ++ [row]) else .error violated

theorem insertRow_eq_ok (hvalid : valid row = true) (hnew : ∀ r ∈ t, conflicts row r = false) :
    insertRow violated valid conflicts t row = .ok (t ++ [row]) := by
  have hany : t.any (conflicts row) = false := by simpa using hnew
  rw [insertRow, if_pos (by simp [hvalid, hany])]

/-- Insert the copies of the rows, one after another. -/
def copyRows (copy : ρ → Except ε σ) (insert : List σ → σ → Except ε (List σ)) (t : List σ) :
    List ρ → Except ε (List σ)
  | [] => .ok t
  | row :: rows => do
    let copied ← copy row
    let t' ← insert t copied
    copyRows copy insert t' rows

/-- Insert a copy of every row whose key has not been seen. -/
def copyFirst [DecidableEq κ] (key : ρ → Except ε κ) (copy : κ → ρ → σ)
    (insert : List σ → σ → Except ε (List σ)) (seen : List κ) (t : List σ) :
    List ρ → Except ε (List σ)
  | [] => .ok t
  | row :: rows => do
    let k ← key row
    if k ∈ seen then copyFirst key copy insert seen t rows
    else
      let t' ← insert t (copy k row)
      copyFirst key copy insert (k :: seen) t' rows

/-- **The plain loop**, where no copy violates a constraint. -/
theorem copyRows_eq_ok {copy : ρ → Except ε σ} {f : ρ → σ} {rows : List ρ}
    (hcopy : ∀ row ∈ rows, copy row = .ok (f row)) (hvalid : ∀ row ∈ rows, valid (f row) = true)
    (hold : ∀ r ∈ t, ∀ row ∈ rows, conflicts (f row) r = false)
    (hnew : rows.Pairwise fun a b => conflicts (f b) (f a) = false) :
    copyRows copy (insertRow violated valid conflicts) t rows = .ok (t ++ rows.map f) := by
  induction rows generalizing t with
  | nil => rw [copyRows, List.map_nil, List.append_nil]
  | cons row rows ih =>
    obtain ⟨hhead, hrows⟩ := List.pairwise_cons.mp hnew
    have hmem := @List.mem_cons_of_mem ρ row
    have hinsert : insertRow violated valid conflicts t (f row) = .ok (t ++ [f row]) :=
      insertRow_eq_ok (hvalid row List.mem_cons_self)
        fun r hr => hold r hr row List.mem_cons_self
    simp only [copyRows, hcopy row List.mem_cons_self, bind, Except.bind, hinsert]
    rw [ih (fun r hr => hcopy r (hmem hr)) (fun r hr => hvalid r (hmem hr)) ?_ hrows,
      List.append_assoc, List.map_cons, List.singleton_append]
    intro r hr other hother
    rcases List.mem_append.mp hr with hr | hr
    · exact hold r hr other (hmem hother)
    · obtain rfl := List.mem_singleton.mp hr
      exact hhead other hother

section copyFirst

variable [DecidableEq κ] {key : ρ → Except ε κ} {keyOf : ρ → κ} {copy : κ → ρ → σ} {rows : List ρ}

/-- After some of the rows, those of the keys not seen yet remain. -/
theorem copyFirst_loop {seen : List κ} (hkey : ∀ row ∈ rows, key row = .ok (keyOf row))
    (hvalid : ∀ row ∈ rows, valid (copy (keyOf row) row) = true)
    (hold : ∀ r ∈ t, ∀ row ∈ rows, keyOf row ∉ seen → conflicts (copy (keyOf row) row) r = false)
    (hnew : rows.Pairwise fun a b => keyOf b ≠ keyOf a →
      conflicts (copy (keyOf b) b) (copy (keyOf a) a) = false) :
    copyFirst key copy (insertRow violated valid conflicts) seen t rows =
      .ok (t ++ ((firsts keyOf rows).filter (keyOf · ∉ seen)).map
        fun row => copy (keyOf row) row) := by
  induction rows generalizing seen t with
  | nil => simp [copyFirst, firsts]
  | cons row rows ih =>
    obtain ⟨hhead, hrows⟩ := List.pairwise_cons.mp hnew
    have hmem := @List.mem_cons_of_mem ρ row
    have hkey' := fun r hr => hkey r (hmem hr)
    have hvalid' := fun r hr => hvalid r (hmem hr)
    simp only [copyFirst, firsts, hkey row List.mem_cons_self, bind, Except.bind]
    by_cases hseen : keyOf row ∈ seen
    · rw [if_pos hseen, List.filter_cons_of_neg (by simpa using hseen),
        filter_firsts_of_seen hseen]
      exact ih hkey' hvalid' (fun r hr other hother => hold r hr other (hmem hother)) hrows
    · have hinsert := @insertRow_eq_ok _ _ violated _ _ _ _ (hvalid row List.mem_cons_self)
        fun r hr => hold r hr row List.mem_cons_self hseen
      have hold' : ∀ r ∈ t ++ [copy (keyOf row) row], ∀ other ∈ rows,
          keyOf other ∉ keyOf row :: seen → conflicts (copy (keyOf other) other) r = false := by
        intro r hr other hother hnot
        obtain ⟨hne, hnot⟩ := not_or.mp (mt List.mem_cons.mpr hnot)
        rcases List.mem_append.mp hr with hr | hr
        · exact hold r hr other (hmem hother) hnot
        · obtain rfl := List.mem_singleton.mp hr
          exact hhead other hother hne
      rw [if_neg hseen, hinsert, List.filter_cons_of_pos (by simpa using hseen),
        filter_firsts_of_new]
      simp only
      rw [ih hkey' hvalid' hold' hrows, List.append_assoc, List.map_cons, List.singleton_append]

/-- **The loop over the first rows**, where no copies of rows with different keys conflict. -/
theorem copyFirst_eq_ok (hkey : ∀ row ∈ rows, key row = .ok (keyOf row))
    (hvalid : ∀ row ∈ rows, valid (copy (keyOf row) row) = true)
    (hnew : rows.Pairwise fun a b => keyOf b ≠ keyOf a →
      conflicts (copy (keyOf b) b) (copy (keyOf a) a) = false) :
    copyFirst key copy (insertRow violated valid conflicts) [] [] rows =
      .ok ((firsts keyOf rows).map fun row => copy (keyOf row) row) := by
  rw [copyFirst_loop hkey hvalid (fun r hr => absurd hr List.not_mem_nil) hnew]
  simp

end copyFirst

end inserts

/-! ## `ORDER BY` two columns -/

section ordering

variable {α β : Type*} [LinearOrder α] [LinearOrder β] {f : ρ → α} {g : ρ → β}

/-- `ORDER BY f, g`. -/
def byBoth (f : ρ → α) (g : ρ → β) (a b : ρ) : Prop := f a < f b ∨ f a = f b ∧ g a ≤ g b

instance decidableRelByBoth (f : ρ → α) (g : ρ → β) : DecidableRel (byBoth f g) :=
  fun a b => inferInstanceAs (Decidable (f a < f b ∨ f a = f b ∧ g a ≤ g b))

theorem byBoth_refl (a : ρ) : byBoth f g a a := .inr ⟨rfl, le_rfl⟩

/-- The rows in that order. -/
theorem pairwise_sort_byBoth (f : ρ → α) (g : ρ → β) (rows : List ρ) :
    (rows.insertionSort (byBoth f g)).Pairwise (byBoth f g) := by
  have : Std.Total (byBoth f g) := ⟨fun a b => by
    rcases lt_trichotomy (f a) (f b) with h | h | h
    · exact .inl (.inl h)
    · exact (le_total (g a) (g b)).imp (fun hg => .inr ⟨h, hg⟩) fun hg => .inr ⟨h.symm, hg⟩
    · exact .inr (.inl h)⟩
  have : IsTrans ρ (byBoth f g) := ⟨fun a b c hab hbc => by
    rcases hab with hab | ⟨hab, hg⟩ <;> rcases hbc with hbc | ⟨hbc, hg'⟩
    · exact .inl (hab.trans hbc)
    · exact .inl (hbc ▸ hab)
    · exact .inl (hab ▸ hbc)
    · exact .inr ⟨hab.trans hbc, hg.trans hg'⟩⟩
  exact List.pairwise_insertionSort _ _

end ordering

end Table
