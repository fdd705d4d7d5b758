import JobPing.Dict
import Mathlib.Algebra.Order.BigOperators.Group.Finset
import Mathlib.Data.Finset.Card

/-!
# Counting distinct keys

A tally reads pairs of a key and a value. The first pair of a key counts for its value, and the
later ones of the key are passed over. A value is counted once for each key whose first pair has it
(`get?_counts`), so the counts add up to the number of keys, whatever the order of the pairs
(`sum_all_keysOf`). Tallies that are kept for several groups at once, with one dictionary of counts,
are the tallies of the groups (`restrict_increment`).
-/

theorem Dict.mem_keys_set {κ α : Type*} [DecidableEq κ] {key k : κ} {value : α}
    {d : List (κ × α)} : k ∈ Dict.keys (Dict.set key value d) ↔ k = key ∨ k ∈ Dict.keys d := by
  rw [Dict.keys_set]
  split_ifs with hmem
  · exact ⟨.inr, fun h => h.elim (fun heq => heq ▸ hmem) id⟩
  · rw [List.mem_append, List.mem_singleton, or_comm]

namespace Tally

variable {κ ν ι : Type*} [DecidableEq κ]

/-- The value of the first pair of a key. -/
def firstValue (items : List (κ × ν)) (k : κ) : Option ν := (items.find? (·.1 = k)).map (·.2)

/-- The keys. -/
def keys (items : List (κ × ν)) : Finset κ := (items.map Prod.fst).toFinset

variable {items : List (κ × ν)} {item : κ × ν} {k : κ} {v : ν} {n : ℕ}

theorem mem_keys : k ∈ keys items ↔ k ∈ items.map Prod.fst := List.mem_toFinset

theorem keys_concat : keys (items ++ [item]) = insert item.1 (keys items) := by
  ext k
  simp [mem_keys, or_comm]

theorem firstValue_concat : firstValue (items ++ [item]) k =
    (firstValue items k).or (if item.1 = k then some item.2 else none) := by
  unfold firstValue
  rw [List.find?_append]
  cases items.find? (·.1 = k) with
  | some found => rfl
  | none => by_cases h : item.1 = k <;> simp [h]

theorem firstValue_isSome : (firstValue items k).isSome ↔ k ∈ keys items := by
  rw [firstValue, Option.isSome_map, List.find?_isSome, mem_keys, List.mem_map]
  simp

variable [DecidableEq ν]

/-- The keys whose first pair has a value. -/
def keysOf (items : List (κ × ν)) (v : ν) : Finset κ :=
  (keys items).filter (firstValue items · = some v)

/-- One more of a value. -/
def increment (v : ν) (counts : List (ν × ℕ)) : List (ν × ℕ) :=
  Dict.set v ((Dict.get? v counts).getD 0 + 1) counts

/-- The next pair is counted, unless its key was seen. -/
def add (t : List κ × List (ν × ℕ)) (item : κ × ν) : List κ × List (ν × ℕ) :=
  if item.1 ∈ t.1 then t else (item.1 :: t.1, increment item.2 t.2)

/-- The keys that were seen, and the counts. -/
def tally (items : List (κ × ν)) : List κ × List (ν × ℕ) := items.foldl add ([], [])

theorem tally_concat (items : List (κ × ν)) (item : κ × ν) :
    tally (items ++ [item]) = add (tally items) item := List.foldl_concat _ _ _ _

theorem mem_seen : k ∈ (tally items).1 ↔ k ∈ keys items := by
  induction items using List.reverseRecOn with
  | nil => simp [tally, keys]
  | append_singleton items item ih =>
    rw [tally_concat, keys_concat, Finset.mem_insert, ← ih, add]
    split_ifs with hseen
    · refine ⟨.inr, fun h => ?_⟩
      rcases h with rfl | h
      · exact hseen
      · exact h
    · exact List.mem_cons

/-- The keys of a value after one more pair. -/
theorem keysOf_concat (hnew : item.1 ∉ keys items) :
    keysOf (items ++ [item]) v =
      if item.2 = v then insert item.1 (keysOf items v) else keysOf items v := by
  have hnone : firstValue items item.1 = none :=
    Option.not_isSome_iff_eq_none.mp (mt firstValue_isSome.mp hnew)
  ext k
  rw [keysOf, keys_concat, Finset.mem_filter, Finset.mem_insert, firstValue_concat]
  by_cases hk : item.1 = k
  · subst hk
    rw [if_pos rfl, hnone, Option.none_or]
    split_ifs with hv <;> simp [keysOf, hv, hnew]
  · rw [if_neg hk, Option.or_none]
    split_ifs with hv <;> simp [keysOf, Ne.symm hk]

theorem keysOf_concat_of_mem (hseen : item.1 ∈ keys items) :
    keysOf (items ++ [item]) v = keysOf items v := by
  ext k
  rw [keysOf, keysOf, keys_concat, Finset.insert_eq_of_mem hseen, Finset.mem_filter,
    Finset.mem_filter, firstValue_concat]
  refine and_congr_right fun hk => ?_
  obtain ⟨w, hw⟩ := Option.isSome_iff_exists.mp (firstValue_isSome.mpr hk)
  rw [hw, Option.some_or]

/-- **The counts**: a value is counted for each key whose first pair has it. -/
theorem get?_counts : Dict.get? v (tally items).2 = some n ↔ 0 < n ∧ (keysOf items v).card = n := by
  suffices h : (Dict.get? v (tally items).2).getD 0 = (keysOf items v).card ∧
      Dict.get? v (tally items).2 ≠ some 0 by
    obtain ⟨hcard, hpos⟩ := h
    constructor
    · intro hn
      rw [hn] at hcard hpos
      exact ⟨Nat.pos_of_ne_zero fun hzero => hpos (congrArg some hzero), hcard.symm⟩
    · rintro ⟨hn, rfl⟩
      cases hget : Dict.get? v (tally items).2 with
      | none =>
        rw [hget] at hcard
        exact absurd hcard hn.ne
      | some m =>
        rw [hget] at hcard
        exact congrArg some hcard
  induction items using List.reverseRecOn with
  | nil => simp [tally, Dict.get?, keysOf, keys]
  | append_singleton items item ih =>
    rw [tally_concat, add]
    split_ifs with hseen
    · rw [keysOf_concat_of_mem (mem_seen.mp hseen)]
      exact ih
    · have hnew := mt mem_seen.mpr hseen
      rw [keysOf_concat hnew, increment, Dict.get?_set]
      by_cases hv : v = item.2
      · have hout : item.1 ∉ keysOf items v := fun h => hnew (Finset.mem_filter.mp h).1
        rw [if_pos hv, if_pos hv.symm, Finset.card_insert_of_notMem hout, ← hv, ← ih.1]
        exact ⟨rfl, fun h => absurd (Option.some.inj h) (Nat.succ_ne_zero _)⟩
      · rw [if_neg hv, if_neg (Ne.symm hv)]
        exact ih

/-- Keys of different values are different. -/
theorem sum_keysOf (values : Finset ν) : ∑ v ∈ values, (keysOf items v).card =
    ((keys items).filter fun k => ∃ v ∈ values, firstValue items k = some v).card := by
  rw [← Finset.card_biUnion]
  · congr 1
    ext k
    simp only [Finset.mem_biUnion, keysOf, Finset.mem_filter]
    exact ⟨fun ⟨v, hv, hk, hfirst⟩ => ⟨hk, v, hv, hfirst⟩,
      fun ⟨hk, v, hv, hfirst⟩ => ⟨v, hv, hk, hfirst⟩⟩
  · intro v _ w _ hne
    refine Finset.disjoint_left.mpr fun k hv hw => hne ?_
    exact Option.some.inj ((Finset.mem_filter.mp hv).2.symm.trans (Finset.mem_filter.mp hw).2)

omit [DecidableEq ν] in
theorem firstValue_mem (h : firstValue items k = some v) : v ∈ items.map Prod.snd := by
  obtain ⟨item, hitem, rfl⟩ := Option.map_eq_some_iff.mp h
  exact List.mem_map_of_mem (List.mem_of_find?_eq_some hitem)

/-- Every key belongs to one of the values. -/
theorem sum_all_keysOf :
    ∑ v ∈ (items.map Prod.snd).toFinset, (keysOf items v).card = (keys items).card := by
  rw [sum_keysOf]
  congr 1
  refine Finset.filter_true_of_mem fun k hk => ?_
  obtain ⟨v, hv⟩ := Option.isSome_iff_exists.mp (firstValue_isSome.mpr hk)
  exact ⟨v, List.mem_toFinset.mpr (firstValue_mem hv), hv⟩

/-! ## Groups -/

section Groups

variable [DecidableEq ι]

/-- The entries of a group in a dictionary of several. -/
def restrict (g : ι) (counts : List ((ι × ν) × ℕ)) : List (ν × ℕ) :=
  counts.filterMap fun entry => if entry.1.1 = g then some (entry.1.2, entry.2) else none

variable {g g' : ι} {counts : List ((ι × ν) × ℕ)}

omit [DecidableEq ν] in
theorem restrict_cons (entry : (ι × ν) × ℕ) : restrict g (entry :: counts) =
    if entry.1.1 = g then (entry.1.2, entry.2) :: restrict g counts else restrict g counts := by
  rw [restrict, List.filterMap_cons]
  split_ifs <;> rfl

theorem get?_restrict : Dict.get? v (restrict g counts) = Dict.get? (g, v) counts := by
  induction counts with
  | nil => rfl
  | cons entry counts ih =>
    rw [restrict_cons]
    by_cases hg : entry.1.1 = g
    · by_cases hv : entry.1.2 = v <;> simp_all [Dict.get?, Prod.ext_iff]
    · rw [if_neg hg, ih]
      simp [Dict.get?, Prod.ext_iff, hg]

theorem restrict_set : restrict g (Dict.set (g', v) n counts) =
    if g' = g then Dict.set v n (restrict g counts) else restrict g counts := by
  induction counts with
  | nil =>
    rw [Dict.set, restrict_cons]
    split_ifs <;> rfl
  | cons entry counts ih =>
    rw [Dict.set]
    by_cases hentry : entry.1 = (g', v)
    · rw [if_pos hentry, restrict_cons, restrict_cons, hentry]
      split_ifs with hg
      · exact (if_pos rfl).symm
      · rfl
    · rw [if_neg hentry, restrict_cons, ih, restrict_cons]
      split_ifs with hg hg'
      · have hv : entry.1.2 ≠ v := fun hv => hentry (Prod.ext (hg.trans hg'.symm) hv)
        exact (if_neg hv).symm
      · rfl
      · rfl
      · rfl

/-- **A count of one group** leaves the other groups alone. -/
theorem restrict_increment : restrict g (increment (g', v) counts) =
    if g' = g then increment v (restrict g counts) else restrict g counts := by
  rw [increment, restrict_set]
  split_ifs with hg
  · rw [increment, get?_restrict, hg]
  · rfl

end Groups

end Tally
