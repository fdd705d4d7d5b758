import Mathlib.Data.List.Find
import Mathlib.Data.Nat.ModEq
import Mathlib.Tactic.Linarith

/-!
# Rotations

`n` slots are asked in turn from a cursor on, and the first one that is available is picked; the
cursor goes to the slot after it. A slot that is available and is not picked comes nearer to the
cursor (`wait_lt_of_pick`), so it is picked before `n` others are.
-/

namespace Rotation

variable {n cursor slot i : ℕ} {available : ℕ → Bool}

/-- The slots in the order in which they are asked. -/
def order (n cursor : ℕ) : List ℕ := (List.range n).map fun offset => (cursor + offset) % n

/-- The first slot that is available. -/
def pick (n cursor : ℕ) (available : ℕ → Bool) : Option ℕ := (order n cursor).find? available

/-- The place of a slot in the order. -/
def wait (n cursor slot : ℕ) : ℕ := (slot + (n - cursor)) % n

theorem wait_lt (h : slot < n) : wait n cursor slot < n := Nat.mod_lt _ (Nat.zero_lt_of_lt h)

/-- The place is where the slot is asked. -/
theorem add_wait_mod (hcursor : cursor < n) (hslot : slot < n) :
    (cursor + wait n cursor slot) % n = slot := by
  have hsum : cursor + (slot + (n - cursor)) = slot + n := by omega
  rw [wait, Nat.add_mod_mod, hsum, Nat.add_mod_right, Nat.mod_eq_of_lt hslot]

/-- The slot at a place. -/
theorem wait_of_add_mod (hcursor : cursor < n) {offset : ℕ} (hoffset : offset < n) :
    wait n cursor ((cursor + offset) % n) = offset := by
  have hsum : cursor + offset + (n - cursor) = offset + n := by omega
  rw [wait, Nat.mod_add_mod, hsum, Nat.add_mod_right, Nat.mod_eq_of_lt hoffset]

theorem mem_order (hcursor : cursor < n) : slot ∈ order n cursor ↔ slot < n := by
  rw [order, List.mem_map]
  constructor
  · rintro ⟨offset, -, rfl⟩
    exact Nat.mod_lt _ (Nat.zero_lt_of_lt hcursor)
  · exact fun h => ⟨wait n cursor slot, List.mem_range.mpr (wait_lt h), add_wait_mod hcursor h⟩

theorem pick_eq_none_iff (hcursor : cursor < n) :
    pick n cursor available = none ↔ ∀ slot < n, available slot = false := by
  rw [pick, List.find?_eq_none]
  constructor
  · intro h slot hslot
    simpa using h slot ((mem_order hcursor).mpr hslot)
  · intro h slot hslot
    simpa using h slot ((mem_order hcursor).mp hslot)

theorem lt_of_pick (hcursor : cursor < n) (h : pick n cursor available = some i) : i < n :=
  (mem_order hcursor).mp (List.mem_of_find?_eq_some h)

/-- **The picked slot is the first one**: one that is available does not come before it. -/
theorem wait_le_of_pick (hcursor : cursor < n) (h : pick n cursor available = some i)
    (hslot : slot < n) (havailable : available slot = true) :
    wait n cursor i ≤ wait n cursor slot := by
  obtain ⟨-, before, after, horder, hbefore⟩ := List.find?_eq_some_iff_append.mp h
  have hlength : before.length + (after.length + 1) = n := by
    have hlen := congrArg List.length horder
    rw [order, List.length_map, List.length_range, List.length_append, List.length_cons] at hlen
    exact hlen.symm
  have hget (k : ℕ) (hk : k < n) : (order n cursor)[k]? = some ((cursor + k) % n) := by
    rw [order, List.getElem?_map, List.getElem?_range hk]
    rfl
  have hi : i = (cursor + before.length) % n := by
    have hplace := hget before.length (by omega)
    rw [horder, List.getElem?_append_right le_rfl, Nat.sub_self, List.getElem?_cons_zero] at hplace
    exact Option.some.inj hplace
  rw [hi, wait_of_add_mod hcursor (by omega)]
  by_contra hlt
  have hplace := hget (wait n cursor slot) (wait_lt hslot)
  rw [add_wait_mod hcursor hslot, horder, List.getElem?_append_left (not_le.mp hlt)] at hplace
  have hnot := hbefore slot (List.mem_of_getElem? hplace)
  rw [havailable] at hnot
  cases hnot

/-- **A slot that is passed over comes nearer**: the cursor has gone beyond another slot before
it. -/
theorem wait_lt_of_pick (hcursor : cursor < n) (h : pick n cursor available = some i)
    (hslot : slot < n) (havailable : available slot = true) (hne : slot ≠ i) :
    wait n ((i + 1) % n) slot < wait n cursor slot := by
  have hi := lt_of_pick hcursor h
  have hle := wait_le_of_pick hcursor h hslot havailable
  have hlt : wait n cursor i < wait n cursor slot := by
    refine lt_of_le_of_ne hle fun heq => hne ?_
    rw [← add_wait_mod hcursor hslot, ← heq, add_wait_mod hcursor hi]
  have hpos : 0 < n := Nat.zero_lt_of_lt hi
  set offset := wait n cursor slot - wait n cursor i - 1 with hoffset
  have hplace : ((i + 1) % n + offset) % n = slot := by
    have hsum : cursor + wait n cursor i + (1 + offset) = cursor + wait n cursor slot := by omega
    have hmod : (i + 1 + offset) % n = (cursor + wait n cursor i + (1 + offset)) % n := by
      rw [Nat.add_assoc, ← Nat.mod_add_mod (cursor + wait n cursor i), add_wait_mod hcursor hi]
    rw [Nat.mod_add_mod, hmod, hsum, add_wait_mod hcursor hslot]
  have hbound : offset < n := by
    have hwait : wait n cursor slot < n := wait_lt hslot
    omega
  have hwait := wait_of_add_mod (Nat.mod_lt (i + 1) hpos) hbound
  rw [hplace] at hwait
  rw [hwait]
  omega

end Rotation
