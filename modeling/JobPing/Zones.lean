import Mathlib.Order.Lattice
import Mathlib.Data.Int.Order.Basic
import Mathlib.Logic.ExistsUnique

/-!
# Time zones

A time zone is an offset and a list of changes, each an instant with the offset from then on, as a
time zone database stores them. `Zone.astimezone` reads the wall clock at an instant, `Zone.utc` is
the earlier of the instants of a wall time. The clock passes a wall time once exactly when no change
sets it across that time (`existsUnique_iff_clear`), and then `Zone.utc` is the instant of the
passage (`Zone.lt_utc_iff`).
-/

namespace JobPing

/-! ## Changes of an offset -/

/-- The offset at an instant. -/
def offsetAt : ℤ → List (ℤ × ℤ) → ℤ → ℤ
  | offset, [], _ => offset
  | offset, (change, next) :: rest, t => if change ≤ t then offsetAt next rest t else offset

/-- The offset at a wall time; a time that occurs twice or never has the offset from before. -/
def wallOffset : ℤ → List (ℤ × ℤ) → ℤ → ℤ
  | offset, [], _ => offset
  | offset, (change, next) :: rest, wall =>
    if change + max offset next ≤ wall then wallOffset next rest wall else offset

/-- The changes are in order, and a clock that is set back runs at least that long before the next
change and since the last one. -/
def Steady : ℤ → List (ℤ × ℤ) → Prop
  | _, [] => True
  | _, [_] => True
  | offset, (change, next) :: (change', next') :: rest =>
    change < change' ∧ offset - next ≤ change' - change ∧ next - next' ≤ change' - change ∧
      Steady next ((change', next') :: rest)

/-- No change sets the clock across a wall time. -/
def Clear : ℤ → List (ℤ × ℤ) → ℤ → Prop
  | _, [], _ => True
  | offset, (change, next) :: rest, wall =>
    (wall < change + min offset next ∨ change + max offset next ≤ wall) ∧ Clear next rest wall

instance decidableClear : ∀ offset changes wall, Decidable (Clear offset changes wall)
  | _, [], _ => .isTrue trivial
  | _, (_, next) :: rest, wall =>
    have := decidableClear next rest wall
    inferInstanceAs (Decidable (_ ∧ _))

variable {offset change next wall t : ℤ} {changes rest : List (ℤ × ℤ)}

theorem Steady.tail (h : Steady offset ((change, next) :: rest)) : Steady next rest := by
  cases rest with
  | nil => trivial
  | cons second rest => exact h.2.2.2

/-- From a change on the clock shows no less than right after it. -/
theorem Steady.low (h : Steady offset ((change, next) :: rest)) (ht : change ≤ t) :
    change + next ≤ t + offsetAt next rest t := by
  induction rest generalizing offset change next with
  | nil =>
    unfold offsetAt
    omega
  | cons second rest ih =>
    obtain ⟨hlt, -, hback, hrest⟩ := h
    unfold offsetAt
    split_ifs with hsecond
    · have hlow := ih hrest hsecond
      omega
    · omega

/-- Before a change the later ones do not matter. -/
theorem Steady.before (h : Steady offset ((change, next) :: rest)) (ht : t < change) :
    offsetAt next rest t = next := by
  cases rest with
  | nil => rfl
  | cons second rest =>
    have hlt := h.1
    unfold offsetAt
    rw [if_neg (by omega)]

/-! ## Wall times that are passed once -/

/-- **The clock passes a clear wall time once**: it shows less before an instant, the time at it, and
more from then on. -/
theorem passed_once (hsteady : Steady offset changes) (hclear : Clear offset changes wall) :
    (t + offsetAt offset changes t < wall ↔ t < wall - wallOffset offset changes wall) ∧
      (t + offsetAt offset changes t = wall ↔ t = wall - wallOffset offset changes wall) := by
  induction changes generalizing offset with
  | nil =>
    simp only [offsetAt, wallOffset]
    omega
  | cons first rest ih =>
    obtain ⟨change, next⟩ := first
    obtain ⟨hcross, hrest⟩ := hclear
    have htail := ih hsteady.tail hrest
    simp only [offsetAt, wallOffset]
    by_cases hwall : change + max offset next ≤ wall
    · rw [if_pos hwall]
      split_ifs with ht
      · exact htail
      · rw [hsteady.before (not_le.mp ht)] at htail
        omega
    · have hbefore : wall < change + min offset next := hcross.resolve_right hwall
      rw [if_neg hwall]
      split_ifs with ht
      · have hlow := hsteady.low ht
        omega
      · omega

/-- A wall time that a change skips is never shown. -/
theorem ne_of_skipped (hsteady : Steady offset ((change, next) :: rest))
    (hlow : change + offset ≤ wall) (hhigh : wall < change + next) :
    t + offsetAt offset ((change, next) :: rest) t ≠ wall := by
  simp only [offsetAt]
  split_ifs with ht
  · have := hsteady.low ht
    omega
  · omega

/-- A wall time that a change repeats is shown twice. -/
theorem shown_twice (hsteady : Steady offset ((change, next) :: rest))
    (hlow : change + next ≤ wall) (hhigh : wall < change + offset) :
    (wall - offset) + offsetAt offset ((change, next) :: rest) (wall - offset) = wall ∧
      (wall - next) + offsetAt offset ((change, next) :: rest) (wall - next) = wall := by
  have hfirst : ¬change ≤ wall - offset := by omega
  have hsecond : change ≤ wall - next := by omega
  have hnext : offsetAt next rest (wall - next) = next := by
    cases rest with
    | nil => rfl
    | cons second rest =>
      have hback := hsteady.2.1
      unfold offsetAt
      rw [if_neg (by omega)]
  simp only [offsetAt, if_neg hfirst, if_pos hsecond, hnext]
  omega

/-- **A wall time is shown at exactly one instant** when no change sets the clock across it, and only
then. -/
theorem existsUnique_iff_clear (hsteady : Steady offset changes) :
    (∃! t, t + offsetAt offset changes t = wall) ↔ Clear offset changes wall := by
  constructor
  · intro honce
    induction changes generalizing offset with
    | nil => trivial
    | cons first rest ih =>
      obtain ⟨change, next⟩ := first
      obtain ⟨t, ht, hunique⟩ := honce
      by_cases habove : change + max offset next ≤ wall
      · refine ⟨.inr habove, ih hsteady.tail ?_⟩
        -- all instants that show the time are after the change
        have hshown : ∀ s, s + offsetAt next rest s = wall ↔
            s + offsetAt offset ((change, next) :: rest) s = wall := by
          intro s
          simp only [offsetAt]
          split_ifs with hs
          · exact Iff.rfl
          · rw [hsteady.before (not_le.mp hs)]
            omega
        exact ⟨t, (hshown t).mpr ht, fun s hs => hunique s ((hshown s).mp hs)⟩
      · by_cases hbelow : wall < change + min offset next
        · refine ⟨.inl hbelow, ih hsteady.tail ⟨wall - next, ?_, fun s hs => ?_⟩⟩
          · have hbefore := hsteady.before (t := wall - next) (by omega)
            simp only [hbefore]
            omega
          · by_cases hchange : change ≤ s
            · have hlow := hsteady.low hchange
              simp only at hs
              omega
            · have hbefore := hsteady.before (not_le.mp hchange)
              simp only [hbefore] at hs
              omega
        · rcases le_total offset next with hle | hle
          · exact absurd ht (ne_of_skipped hsteady (by omega) (by omega))
          · have hlow : change + next ≤ wall := by omega
            have hhigh : wall < change + offset := by omega
            obtain ⟨h₁, h₂⟩ := shown_twice hsteady hlow hhigh
            have hsame := (hunique _ h₁).trans (hunique _ h₂).symm
            omega
  · intro hclear
    refine ⟨wall - wallOffset offset changes wall, ?_, fun t ht => ?_⟩
    · exact (passed_once hsteady hclear).2.mpr rfl
    · exact (passed_once hsteady hclear).2.mp ht

/-! ## Zones -/

/-- A time zone: an offset, and its changes. -/
structure Zone where
  offset : ℤ
  changes : List (ℤ × ℤ)
  steady : Steady offset changes

namespace Zone

variable {zone : Zone}

/-- The wall clock at an instant. -/
def astimezone (zone : Zone) (t : ℤ) : ℤ := t + offsetAt zone.offset zone.changes t

/-- The instant of a wall time. -/
def utc (zone : Zone) (wall : ℤ) : ℤ := wall - wallOffset zone.offset zone.changes wall

/-- The wall time is shown once. -/
def Once (zone : Zone) (wall : ℤ) : Prop := ∃! t, zone.astimezone t = wall

theorem once_iff : zone.Once wall ↔ Clear zone.offset zone.changes wall :=
  existsUnique_iff_clear zone.steady

theorem lt_utc_iff (h : zone.Once wall) : t < zone.utc wall ↔ zone.astimezone t < wall :=
  (passed_once zone.steady (once_iff.mp h)).1.symm

theorem utc_le_iff (h : zone.Once wall) : zone.utc wall ≤ t ↔ wall ≤ zone.astimezone t := by
  rw [← not_lt, ← not_lt, lt_utc_iff h]

theorem eq_utc_iff (h : zone.Once wall) : t = zone.utc wall ↔ zone.astimezone t = wall :=
  (passed_once zone.steady (once_iff.mp h)).2.symm

theorem astimezoneUtc (h : zone.Once wall) : zone.astimezone (zone.utc wall) = wall :=
  (eq_utc_iff h).mp rfl

end Zone

end JobPing
