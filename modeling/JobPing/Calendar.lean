import Mathlib.Data.Int.Basic
import Mathlib.Tactic.IntervalCases

/-!
# The proleptic Gregorian calendar

Dates of all years, positive or not, and their ordinals: 1 January of year 1 is day 1. `ofOrdinal`
is the inverse of `Date.ordinal` (`ordinal_of_ordinal`), and the ordinals of valid dates are in the
order of the years and months (`ordinal_lt_of_year`, `ordinal_lt_of_month`).
-/

namespace Calendar

/-- A year, a month from 1 to 12 and a day from 1. -/
structure Date where
  year : ℤ
  month : ℤ
  day : ℤ
  deriving DecidableEq

def isLeap (year : ℤ) : Bool := year % 4 = 0 && (year % 100 ≠ 0 || year % 400 = 0)

/-- The days of the year before a month, when it is a leap year or not. -/
def daysBeforeMonth (leap : Bool) (month : ℤ) : ℤ :=
  let days :=
    match month with
    | 1 => 0 | 2 => 31 | 3 => 59 | 4 => 90 | 5 => 120 | 6 => 151
    | 7 => 181 | 8 => 212 | 9 => 243 | 10 => 273 | 11 => 304 | 12 => 334
    | _ => 365
  if leap && 2 < month then days + 1 else days

def daysInMonth (leap : Bool) (month : ℤ) : ℤ :=
  daysBeforeMonth leap (month + 1) - daysBeforeMonth leap month

/-- The days before 1 January of a year. -/
def daysBeforeYear (year : ℤ) : ℤ :=
  365 * (year - 1) + (year - 1) / 4 - (year - 1) / 100 + (year - 1) / 400

/-- The month of a day of the year, which counts from 0. -/
def monthOf (leap : Bool) (day : ℤ) : ℤ :=
  (([2, 3, 4, 5, 6, 7, 8, 9, 10, 11, 12] : List ℤ).countP fun month =>
    daysBeforeMonth leap month ≤ day) + 1

namespace Date

variable (d : Date)

/-- The date is in the calendar. -/
structure Valid : Prop where
  one_le_month : 1 ≤ d.month
  month_le : d.month ≤ 12
  one_le_day : 1 ≤ d.day
  day_le : d.day ≤ daysInMonth (isLeap d.year) d.month

def ordinal : ℤ := daysBeforeYear d.year + daysBeforeMonth (isLeap d.year) d.month + d.day

end Date

/-- The date of an ordinal. -/
def ofOrdinal (n : ℤ) : Date :=
  let n400 := (n - 1) / 146097
  let r400 := (n - 1) % 146097
  let n100 := r400 / 36524
  let r100 := r400 % 36524
  let n4 := r100 / 1461
  let r4 := r100 % 1461
  let n1 := r4 / 365
  let day := r4 % 365
  let year := 400 * n400 + 100 * n100 + 4 * n4 + n1 + 1
  -- the last day of a cycle of 4 or 400 years
  if n1 = 4 ∨ n100 = 4 then ⟨year - 1, 12, 31⟩
  else
    let month := monthOf (isLeap year) day
    ⟨year, month, day - daysBeforeMonth (isLeap year) month + 1⟩

/-! ## Years -/

theorem isLeap_iff {year : ℤ} :
    isLeap year = true ↔ year % 4 = 0 ∧ (year % 100 ≠ 0 ∨ year % 400 = 0) := by
  simp [isLeap]

/-- The length of a year. -/
theorem daysBeforeYear_succ (year : ℤ) :
    daysBeforeYear (year + 1) = daysBeforeYear year + if isLeap year then 366 else 365 := by
  have h : isLeap year = true ↔ _ := isLeap_iff
  unfold daysBeforeYear
  split_ifs with hleap
  · have := h.mp hleap
    omega
  · have hnot := mt h.mpr hleap
    rw [not_and_or, not_or, not_not] at hnot
    omega

theorem daysBeforeYear_mono {y y' : ℤ} (h : y ≤ y') :
    daysBeforeYear y ≤ daysBeforeYear y' := by
  unfold daysBeforeYear
  omega

/-! ## Months -/

theorem daysBeforeMonth_last (leap : Bool) :
    daysBeforeMonth leap 13 = if leap then 366 else 365 := by
  cases leap <;> rfl

/-- Every month has its days. -/
theorem daysInMonth_pos (leap : Bool) {month : ℤ} (h : 1 ≤ month) (h' : month ≤ 12) :
    28 ≤ daysInMonth leap month := by
  cases leap <;> interval_cases month <;> decide

/-- The months follow each other. -/
theorem daysBeforeMonth_le (leap : Bool) {m m' : ℤ} (h : 1 ≤ m) (hlt : m < m') (h' : m' ≤ 13) :
    daysBeforeMonth leap m + daysInMonth leap m ≤ daysBeforeMonth leap m' := by
  have hm : m ≤ 12 := by omega
  cases leap <;> interval_cases m <;> interval_cases m' <;> decide

/-- The month of a day begins before it and ends after it. -/
theorem monthOf_spec (leap : Bool) {day : ℤ} (h : 0 ≤ day)
    (hlt : day < if leap then 366 else 365) :
    1 ≤ monthOf leap day ∧ monthOf leap day ≤ 12 ∧
      daysBeforeMonth leap (monthOf leap day) ≤ day ∧
      day < daysBeforeMonth leap (monthOf leap day + 1) := by
  have hdays : ∀ leap : Bool, ∀ n : ℕ, n < 366 → (n : ℤ) < (if leap then 366 else 365) →
      1 ≤ monthOf leap n ∧ monthOf leap n ≤ 12 ∧
        daysBeforeMonth leap (monthOf leap n) ≤ n ∧
        (n : ℤ) < daysBeforeMonth leap (monthOf leap n + 1) := by
    decide +kernel
  obtain ⟨n, rfl⟩ := Int.eq_ofNat_of_zero_le h
  refine hdays leap n ?_ hlt
  split_ifs at hlt <;> omega

/-! ## Ordinals -/

/-- **The date of an ordinal** has it. -/
theorem ordinal_of_ordinal (n : ℤ) : (ofOrdinal n).Valid ∧ (ofOrdinal n).ordinal = n := by
  unfold ofOrdinal
  extract_lets n400 r400 n100 r100 n4 r4 n1 day year
  have hn : n = 146097 * n400 + r400 + 1 ∧ 0 ≤ r400 ∧ r400 < 146097 := by omega
  have hn100 : r400 = 36524 * n100 + r100 ∧ 0 ≤ r100 ∧ r100 < 36524 := by omega
  have hn4 : r100 = 1461 * n4 + r4 ∧ 0 ≤ r4 ∧ r4 < 1461 := by omega
  have hn1 : r4 = 365 * n1 + day ∧ 0 ≤ day ∧ day < 365 := by omega
  have hyear : year = 400 * n400 + 100 * n100 + 4 * n4 + n1 + 1 := rfl
  clear_value n400 r400 n100 r100 n4 r4 n1 day year
  have hb : 0 ≤ n100 ∧ n100 ≤ 4 := by omega
  have hc : 0 ≤ n4 ∧ n4 ≤ 24 := by omega
  have he : 0 ≤ n1 ∧ n1 ≤ 4 := by omega
  split_ifs with hend
  · -- the last day of a leap year
    have hleap : isLeap (year - 1) = true := isLeap_iff.mpr (by omega)
    have hsucc := daysBeforeYear_succ (year - 1)
    rw [sub_add_cancel, if_pos hleap] at hsucc
    have hstart : daysBeforeYear year = n := by
      unfold daysBeforeYear
      rcases hend with rfl | rfl
      · have hb3 : n100 ≤ 3 := by omega
        have h100 : (year - 1) / 100 = 4 * n400 + n100 := by omega
        have h400 : (year - 1) / 400 = n400 := by omega
        omega
      · omega
    refine ⟨⟨?_, ?_, ?_, ?_⟩, ?_⟩
    · change (1 : ℤ) ≤ 12
      decide
    · change (12 : ℤ) ≤ 12
      decide
    · change (1 : ℤ) ≤ 31
      decide
    · change 31 ≤ daysInMonth (isLeap (year - 1)) 12
      rw [hleap]
      decide
    · change daysBeforeYear (year - 1) + daysBeforeMonth (isLeap (year - 1)) 12 + 31 = n
      have hmonth : daysBeforeMonth true 12 = 335 := rfl
      rw [hleap, hmonth]
      omega
  · have hstart : daysBeforeYear year = n - 1 - day := by
      have h4 : (year - 1) / 4 = 100 * n400 + 25 * n100 + n4 := by omega
      have h100 : (year - 1) / 100 = 4 * n400 + n100 := by omega
      have h400 : (year - 1) / 400 = n400 := by omega
      unfold daysBeforeYear
      omega
    obtain ⟨hfirst, hlast, hle, hlt⟩ := monthOf_spec (isLeap year) hn1.2.1
      (by split_ifs <;> omega)
    refine ⟨⟨hfirst, hlast, ?_, ?_⟩, ?_⟩
    · change 1 ≤ day - daysBeforeMonth (isLeap year) (monthOf (isLeap year) day) + 1
      omega
    · change day - daysBeforeMonth (isLeap year) (monthOf (isLeap year) day) + 1 ≤
        daysInMonth (isLeap year) (monthOf (isLeap year) day)
      unfold daysInMonth
      omega
    · change daysBeforeYear year +
        daysBeforeMonth (isLeap year) (monthOf (isLeap year) day) +
        (day - daysBeforeMonth (isLeap year) (monthOf (isLeap year) day) + 1) = n
      omega

/-! ## The order of dates -/

variable {d d' : Date}

/-- A date is in its year. -/
theorem ordinal_bounds (h : d.Valid) :
    daysBeforeYear d.year < d.ordinal ∧ d.ordinal ≤ daysBeforeYear (d.year + 1) := by
  have hfirst : 0 ≤ daysBeforeMonth (isLeap d.year) d.month := by
    have hmonth := h.one_le_month
    have hmonth' := h.month_le
    generalize d.month = month at hmonth hmonth'
    cases isLeap d.year <;> interval_cases month <;> decide
  have hlast := daysBeforeMonth_le (isLeap d.year) h.one_le_month
    (Int.lt_add_one_of_le h.month_le) (by decide)
  have hday := h.one_le_day
  have hday' := h.day_le
  rw [show (12 : ℤ) + 1 = 13 from rfl, daysBeforeMonth_last] at hlast
  rw [daysBeforeYear_succ]
  unfold Date.ordinal
  omega

theorem ordinal_lt_of_year (h : d.Valid) (h' : d'.Valid) (hlt : d.year < d'.year) :
    d.ordinal < d'.ordinal := by
  have hmono := daysBeforeYear_mono (show d.year + 1 ≤ d'.year by omega)
  have hd := (ordinal_bounds h).2
  have hd' := (ordinal_bounds h').1
  omega

theorem ordinal_lt_of_month (h : d.Valid) (h' : d'.Valid) (hyear : d.year = d'.year)
    (hlt : d.month < d'.month) : d.ordinal < d'.ordinal := by
  have hle := daysBeforeMonth_le (isLeap d.year) h.one_le_month hlt (by
    have := h'.month_le
    omega)
  have hday := h.day_le
  have hday' := h'.one_le_day
  unfold Date.ordinal
  rw [← hyear]
  omega

end Calendar
