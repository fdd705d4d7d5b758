import Mathlib.Algebra.BigOperators.Group.List.Basic
import Mathlib.Algebra.Group.Int.Defs
import Mathlib.Data.Finset.Basic
import Mathlib.Data.Finset.Dedup
import Mathlib.Tactic.Ring

/-!
# Indexed queues

A queue with the set of the keys of its items and the total of their sizes, which are kept next to
it. Items are added at the end and dropped from the front while the queue is over its limits. The
three stay in step exactly as long as no item is added whose key is in the queue
(`push_consistent_iff`).
-/

/-- The items of a queue, the oldest first, their keys and the total of their sizes. -/
structure IndexedQueue (α κ : Type*) where
  items : List α
  keys : Finset κ
  total : ℤ

namespace IndexedQueue

/-- Why an item cannot be dropped: there is none, or its key is not there. -/
inductive Failure
  | noItem
  | noKey
  deriving DecidableEq

variable {α κ : Type*} [DecidableEq κ] (key : α → κ) (size : α → ℤ) (full : ℕ → ℤ → Bool)

def empty : IndexedQueue α κ := ⟨[], ∅, 0⟩

/-- The queue without items from the front, dropped one after another while it is full. A
failure leaves what has been done so far. -/
def trim : List α → Finset κ → ℤ → IndexedQueue α κ × Option Failure
  | [], keys, total => (⟨[], keys, total⟩, if full 0 total then some .noItem else none)
  | x :: items, keys, total =>
    if full (items.length + 1) total then
      if key x ∈ keys then trim items (keys.erase (key x)) (total - size x)
      else (⟨items, keys, total - size x⟩, some .noKey)
    else (⟨x :: items, keys, total⟩, none)

/-- The queue with an item more, within its limits. -/
def push (x : α) (q : IndexedQueue α κ) : IndexedQueue α κ × Option Failure :=
  trim key size full (q.items ++ [x]) (insert (key x) q.keys) (q.total + size x)

/-- **The keys and the total are those of the items**, which have different keys and are within the
limits. -/
structure Consistent (q : IndexedQueue α κ) : Prop where
  nodup : (q.items.map key).Nodup
  keys_eq : q.keys = (q.items.map key).toFinset
  total_eq : q.total = (q.items.map size).sum
  within : full q.items.length q.total = false

variable {key size full} {q : IndexedQueue α κ} {items : List α} {keys : Finset κ} {total : ℤ}

theorem empty_consistent (hfull : full 0 0 = false) :
    Consistent key size full (empty : IndexedQueue α κ) :=
  ⟨List.nodup_nil, rfl, rfl, hfull⟩

/-- **What a trim does** that does not fail. -/
theorem trim_spec (h : trim key size full items keys total = (q, none)) :
    ∃ dropped, items = dropped ++ q.items ∧ (dropped.map key).Nodup ∧
      (∀ x ∈ dropped, key x ∈ keys) ∧ q.keys = keys \ (dropped.map key).toFinset := by
  induction items generalizing keys total with
  | nil =>
    unfold trim at h
    split_ifs at h with hfull
    · simp at h
    · cases h
      exact ⟨[], rfl, List.nodup_nil, by simp, by simp⟩
  | cons x items ih =>
    unfold trim at h
    split_ifs at h with hfull hkey
    · obtain ⟨dropped, hitems, hnodup, hmem, hkeys⟩ := ih h
      refine ⟨x :: dropped, by rw [hitems]; rfl, List.nodup_cons.mpr ⟨?_, hnodup⟩, ?_, ?_⟩
      · -- a key that is dropped a second time is not there any more
        intro hagain
        obtain ⟨y, hy, hkeyy⟩ := List.mem_map.mp hagain
        exact (Finset.mem_erase.mp (hmem y hy)).1 hkeyy
      · intro y hy
        rcases List.mem_cons.mp hy with rfl | hy
        · exact hkey
        · exact Finset.mem_of_mem_erase (hmem y hy)
      · rw [hkeys, List.map_cons, List.toFinset_cons]
        ext k
        simp only [Finset.mem_sdiff, Finset.mem_erase, Finset.mem_insert]
        tauto
    · simp at h
    · cases h
      exact ⟨[], rfl, List.nodup_nil, by simp, by simp⟩

/-- A trim of items with different keys, all of them there, does not fail. -/
theorem trim_consistent (hfull : full 0 0 = false) (hnodup : (items.map key).Nodup) :
    ∃ q, trim key size full items (items.map key).toFinset (items.map size).sum = (q, none) ∧
      q.Consistent key size full := by
  induction items with
  | nil =>
    refine ⟨empty, ?_, empty_consistent hfull⟩
    change (_, if full 0 0 = true then _ else _) = _
    rw [hfull]
    rfl
  | cons x items ih =>
    obtain ⟨hfresh, htail⟩ := List.nodup_cons.mp hnodup
    unfold trim
    split_ifs with hfull hkey
    · have hkeys : ((x :: items).map key).toFinset.erase (key x) = (items.map key).toFinset := by
        rw [List.map_cons, List.toFinset_cons]
        exact Finset.erase_insert (by simpa using hfresh)
      have htotal : ((x :: items).map size).sum - size x = (items.map size).sum := by
        rw [List.map_cons, List.sum_cons]
        ring
      rw [hkeys, htotal]
      exact ih htail
    · exact absurd (by simp) hkey
    · exact ⟨_, rfl, hnodup, rfl, rfl, Bool.eq_false_iff.mpr hfull⟩

/-- **An item more** keeps keys, total and limits in step exactly if its key is new. -/
theorem push_consistent_iff (hfull : full 0 0 = false) (h : q.Consistent key size full) {x : α} :
    ((q.push key size full x).2 = none ∧ (q.push key size full x).1.Consistent key size full) ↔
      key x ∉ q.keys := by
  have hmap : (q.items ++ [x]).map key = q.items.map key ++ [key x] := List.map_append
  constructor
  · rintro ⟨hnone, hafter⟩ hagain
    obtain ⟨dropped, hitems, hnodup, -, hkeys⟩ := trim_spec (Prod.ext rfl hnone)
    -- what was dropped and what is left have different keys
    have hdisjoint :
        List.Disjoint (dropped.map key) ((q.push key size full x).1.items.map key) := by
      intro k hdropped hleft
      rw [← List.mem_toFinset, ← hafter.keys_eq, push, hkeys, Finset.mem_sdiff,
        List.mem_toFinset] at hleft
      exact hleft.2 hdropped
    have hall : (q.items.map key ++ [key x]).Nodup := by
      rw [← hmap, hitems, List.map_append]
      exact List.nodup_append'.mpr ⟨hnodup, hafter.nodup, hdisjoint⟩
    rw [h.keys_eq, List.mem_toFinset] at hagain
    exact (List.nodup_append'.mp hall).2.2 hagain (List.mem_singleton_self _)
  · intro hfresh
    have hnodup : ((q.items ++ [x]).map key).Nodup := by
      rw [hmap]
      refine List.nodup_append'.mpr ⟨h.nodup, List.nodup_singleton _, ?_⟩
      intro k hk hx
      rw [List.mem_singleton.mp hx, ← List.mem_toFinset, ← h.keys_eq] at hk
      exact hfresh hk
    have hkeys : insert (key x) q.keys = ((q.items ++ [x]).map key).toFinset := by
      rw [hmap, h.keys_eq]
      ext k
      rw [Finset.mem_insert, List.mem_toFinset, List.mem_toFinset, List.mem_append,
        List.mem_singleton, or_comm]
    have htotal : q.total + size x = ((q.items ++ [x]).map size).sum := by
      rw [List.map_append, List.sum_append, ← h.total_eq]
      simp
    obtain ⟨q', htrim, hconsistent⟩ := @trim_consistent α κ _ key size full _ hfull hnodup
    rw [push, hkeys, htotal, htrim]
    exact ⟨rfl, hconsistent⟩

end IndexedQueue
