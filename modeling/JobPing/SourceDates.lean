import JobPing.PageExtraction
import JobPing.PostingDates
import JobPing.Raising

/-!
# When a source date is read

A source date is read, to a time that is not after the observation, exactly when its value stays in
the calendar (`source_dates_iff`): a long number and a relative date before year 1 raise, and so
does an ISO date whose instant is outside of the calendar. The pipelines go on after a `ValueError`;
they process every row when no date of a row overflows.
-/

namespace JobPing

open Calendar

variable (L : DateParsers)

/-! ## Dates that stay in the calendar -/

/-- The instant of an ISO date with an offset is in the calendar. -/
def IsoFits (value : Str) : Prop :=
  ∀ wall offset, L.fromisoformat value = some (wall, some offset) →
    0 ≤ (wall - offset : ℤ) ∧ (wall - offset : ℤ) ≤ maxTime

/-- A relative date does not go before the calendar; the months and years may go back to year
`low`. -/
def AmountFits (low : ℤ) (value : Str) (observed : ℤ) (unit : Str) (amount : ℤ) : Prop :=
  if unit = "d".toList then days amount ≤ midnight observed
  else if unit = "w".toList then days (7 * amount) ≤ midnight observed
  else if unit = "mo".toList then
    amount ≤ 12 * ((dateOf observed).year - low) + ((dateOf observed).month - 1)
  else if unit = "y".toList then amount ≤ (dateOf observed).year - low
  else if "h".toList.isPrefixOf unit then hours amount ≤ observed
  else if "min".toList.isPrefixOf unit then minutes amount ≤ observed
  else IsoFits L value

/-- `int` takes the number of a relative date. -/
def ShortAmount (value : Str) : Prop :=
  ∀ digits unit, relativeMatch L value = some (digits, unit) → digits.length ≤ 4300

/-- The date stays in the calendar, which starts with year `low` for months and years. -/
def DateFits (low : ℤ) (value : Str) (observed : ℤ) : Prop :=
  match relativeMatch L value with
  | none => IsoFits L value
  | some (digits, unitText) =>
    AmountFits L low value observed (L.lower unitText) (digitsAmount L digits)

/-- The first year that a C `int` holds. -/
def firstInt : ℤ := -2 ^ 31

variable {L}

/-- What an operation on dates returns, by what of its value fits. -/
structure DateSettled (r : Except DateError (Option Time)) (fits : ℤ → Prop) (observed : ℤ) :
    Prop where
  ok : fits 1 → ∃ t, r = .ok t ∧ ∀ x : ℤ, t = some x → 0 ≤ x ∧ x ≤ observed
  valueError : fits firstInt → ¬fits 1 → r = .error .valueError
  overflow : ¬fits firstInt → r = .error .overflowError

section arithmetic

variable {observed : ℤ} {d : Date}

theorem days_eq (n : ℤ) : days n = n * 86400000000 := by
  unfold days hours minutes seconds
  omega

theorem midnight_eq (observed : ℤ) : midnight observed = days ((dateOf observed).ordinal - 1) := by
  rw [dateOf, (ordinal_of_ordinal _).2, midnight, days_eq, days_eq]
  omega

/-- A time of the calendar has a date of the calendar. -/
theorem dateOf_spec (h : 0 ≤ observed) (h' : observed ≤ maxTime) :
    (dateOf observed).Valid ∧ 1 ≤ (dateOf observed).year ∧ (dateOf observed).year ≤ 9999 ∧
      0 ≤ midnight observed ∧ midnight observed ≤ observed := by
  have hvalid : (dateOf observed).Valid := (ordinal_of_ordinal _).1
  have hordinal : (dateOf observed).ordinal = observed / days 1 + 1 := (ordinal_of_ordinal _).2
  obtain ⟨hlow, hhigh⟩ := ordinal_bounds hvalid
  rw [hordinal, days_eq] at hlow hhigh
  rw [maxTime, days_eq] at h'
  refine ⟨hvalid, ?_, ?_, ?_, ?_⟩
  · by_contra hyear
    have hmono := daysBeforeYear_mono (show (dateOf observed).year + 1 ≤ 1 by omega)
    have hone : daysBeforeYear 1 = 0 := rfl
    omega
  · by_contra hyear
    have hmono := daysBeforeYear_mono (show 10000 ≤ (dateOf observed).year by omega)
    have hlast : daysBeforeYear 10000 = 3652059 := rfl
    omega
  · rw [midnight, days_eq]
    omega
  · rw [midnight, days_eq]
    omega

/-- A difference of times. -/
theorem settled_checked {start delta : ℤ} (hstart : start ≤ maxTime) (hle : start ≤ observed)
    (hdelta : 0 ≤ delta) :
    DateSettled (some <$> checked (start - delta)) (fun _ => delta ≤ start) observed := by
  refine ⟨fun h => ⟨some (start - delta), ?_, ?_⟩, fun h h' => absurd h h', fun h => ?_⟩
  · rw [checked, if_pos (by omega)]
    rfl
  · intro x hx
    obtain rfl : start - delta = x := Option.some.inj hx
    omega
  · rw [checked, if_neg (by omega)]
    rfl

/-- A date whose day is clamped is in the calendar when its year is. -/
theorem clamped_valid {year month day : ℤ} (hmonth : 1 ≤ month) (hmonth' : month ≤ 12)
    (hday : 1 ≤ day) : (clamped year month day).Valid := by
  have hpos := daysInMonth_pos (isLeap year) hmonth hmonth'
  exact ⟨hmonth, hmonth', le_min hday (by omega), min_le_right _ _⟩

/-- `replace` on a valid date looks at its year. -/
theorem settled_replace (hd : d.Valid) (hyear : d.year ≤ 9999)
    (hle : 1 ≤ d.year → days (d.ordinal - 1) ≤ observed) :
    DateSettled (some <$> replaceDate d) (· ≤ d.year) observed := by
  have hbounds := (ordinal_bounds hd).1
  refine ⟨fun h => ⟨some (days (d.ordinal - 1)), ?_, ?_⟩, fun h h' => ?_, fun h => ?_⟩
  · rw [replaceDate, if_neg (by omega), if_pos ⟨h, hyear, hd.one_le_month, hd.month_le,
      hd.one_le_day, hd.day_le⟩]
    rfl
  · intro x hx
    obtain rfl : days (d.ordinal - 1) = x := Option.some.inj hx
    refine ⟨?_, hle h⟩
    have hmono := daysBeforeYear_mono h
    have hone : daysBeforeYear 1 = 0 := rfl
    rw [days_eq]
    omega
  · have hint : ¬d.year < -2 ^ 31 := not_lt.mpr h
    rw [replaceDate, if_neg hint, if_neg fun hvalid => h' hvalid.1]
    rfl
  · have hint : d.year < -2 ^ 31 := not_le.mp h
    rw [replaceDate, if_pos hint]
    rfl

/-- The order of midnights. -/
theorem days_mono {m n : ℤ} (h : m ≤ n) : days m ≤ days n := by
  rw [days_eq, days_eq]
  omega

theorem DateSettled.congr {r : Except DateError (Option Time)} {fits fits' : ℤ → Prop}
    (h : DateSettled r fits observed) (hfits : ∀ low, fits' low ↔ fits low) :
    DateSettled r fits' observed :=
  ⟨fun hone => h.ok ((hfits 1).mp hone),
    fun hint hone => h.valueError ((hfits _).mp hint) (mt (hfits 1).mpr hone),
    fun hint => h.overflow (mt (hfits _).mpr hint)⟩

/-- A date of an earlier month, or with an earlier day of the same month. -/
theorem clamped_ordinal_le {year month : ℤ} (hd : d.Valid) (hmonth : 1 ≤ month)
    (hmonth' : month ≤ 12) (hle : 12 * year + month ≤ 12 * d.year + d.month) :
    (clamped year month d.day).ordinal ≤ d.ordinal := by
  have hvalid : (clamped year month d.day).Valid := clamped_valid hmonth hmonth' hd.one_le_day
  have hfirst := hd.one_le_month
  have hlast := hd.month_le
  rcases lt_or_ge year d.year with hyear | hyear
  · exact (ordinal_lt_of_year hvalid hd hyear).le
  obtain rfl : year = d.year := by omega
  rcases lt_or_ge month d.month with hearlier | hsame
  · exact (ordinal_lt_of_month hvalid hd rfl hearlier).le
  obtain rfl : month = d.month := by omega
  exact Int.add_le_add_left (min_le_left _ _) _

/-- Months before a date. -/
theorem settled_subtractMonths {months : ℤ} (hd : d.Valid) (hyear : d.year ≤ 9999)
    (hmonths : 0 ≤ months) (hle : days (d.ordinal - 1) ≤ observed) :
    DateSettled (some <$> subtractMonths d months)
      (fun low => months ≤ 12 * (d.year - low) + (d.month - 1)) observed := by
  have hfirst := hd.one_le_month
  have hlast := hd.month_le
  obtain ⟨year, month, hdate, hmonth, hmonth', hcount⟩ : ∃ year month,
      subtractMonths d months = replaceDate (clamped year month d.day) ∧ 1 ≤ month ∧
        month ≤ 12 ∧ 12 * year + month = 12 * d.year + d.month - months := by
    unfold subtractMonths
    dsimp only
    split_ifs with hneg
    · exact ⟨_, _, rfl, by omega, by omega, by omega⟩
    · exact ⟨_, _, rfl, by omega, by omega, by omega⟩
  have hle' : 12 * year + month ≤ 12 * d.year + d.month := by omega
  have hordinal := clamped_ordinal_le hd hmonth hmonth' hle'
  have hvalid : (clamped year month d.day).Valid := clamped_valid hmonth hmonth' hd.one_le_day
  rw [hdate]
  refine (settled_replace hvalid (show year ≤ 9999 by omega)
    fun _ => (days_mono (sub_le_sub_right hordinal 1)).trans hle).congr fun low => ?_
  change _ ↔ low ≤ year
  omega

/-- Years before a date. -/
theorem settled_subtractYears {years : ℤ} (hd : d.Valid) (hyear : d.year ≤ 9999)
    (hyears : 0 ≤ years) (hle : days (d.ordinal - 1) ≤ observed) :
    DateSettled (some <$> subtractYears d years) (fun low => years ≤ d.year - low) observed := by
  have hvalid : (clamped (d.year - years) d.month d.day).Valid :=
    clamped_valid hd.one_le_month hd.month_le hd.one_le_day
  have hordinal := clamped_ordinal_le hd hd.one_le_month hd.month_le
    (show 12 * (d.year - years) + d.month ≤ 12 * d.year + d.month by omega)
  refine (settled_replace hvalid (show d.year - years ≤ 9999 by omega)
    fun _ => (days_mono (sub_le_sub_right hordinal 1)).trans hle).congr fun low => ?_
  change _ ↔ low ≤ d.year - years
  omega

/-! ## The parser -/

/-- A date of the calendar. -/
theorem replaceDate_ok {t : ℤ} (h : replaceDate d = .ok t) :
    d.Valid ∧ 1 ≤ d.year ∧ t = days (d.ordinal - 1) := by
  unfold replaceDate at h
  split_ifs at h with hint hvalid
  obtain ⟨hyear, -, hmonth, hmonth', hday, hday'⟩ := hvalid
  exact ⟨⟨hmonth, hmonth', hday, hday'⟩, hyear, (Except.ok.inj h).symm⟩

/-- A date of the calendar is not before it. -/
theorem days_ordinal_nonneg (hd : d.Valid) (hyear : 1 ≤ d.year) : 0 ≤ days (d.ordinal - 1) := by
  have hbounds := (ordinal_bounds hd).1
  have hmono := daysBeforeYear_mono hyear
  have hone : daysBeforeYear 1 = 0 := rfl
  rw [days_eq]
  omega

/-- A midnight is in the year of its date. -/
theorem dateOf_year (hd : d.Valid) : (dateOf (days (d.ordinal - 1))).year = d.year := by
  obtain ⟨hvalid, hordinal⟩ := ordinal_of_ordinal (days (d.ordinal - 1) / days 1 + 1)
  change (ofOrdinal (days (d.ordinal - 1) / days 1 + 1)).year = d.year
  have hsame : days (d.ordinal - 1) / days 1 + 1 = d.ordinal := by
    rw [days_eq, days_eq]
    omega
  rw [hsame] at hvalid hordinal ⊢
  rcases lt_trichotomy (ofOrdinal d.ordinal).year d.year with hlt | heq | hlt
  · have := ordinal_lt_of_year hvalid hd hlt
    omega
  · exact heq
  · have := ordinal_lt_of_year hd hvalid hlt
    omega

/-- A month and day never raise, and the date is not after the observation. -/
theorem monthDay_le (h : 0 ≤ observed) (h' : observed ≤ maxTime) {value : Str} {x : ℤ}
    (hx : monthDay L value observed = some x) : 0 ≤ x ∧ x ≤ observed := by
  obtain ⟨hvalid, -, -, -, hmidnight⟩ := dateOf_spec h h'
  unfold monthDay at hx
  obtain ⟨dt, -, hx⟩ := Option.bind_eq_some_iff.mp hx
  split at hx
  · cases hx
  next result hresult =>
  obtain ⟨hd, hyear, rfl⟩ := replaceDate_ok hresult
  have hnonneg := days_ordinal_nonneg hd hyear
  split_ifs at hx with hlater
  · -- the day has not come yet this year
    split at hx
    · cases hx
    next earlier hearlier =>
    obtain rfl := Option.some.inj hx
    obtain ⟨hd', hyear', rfl⟩ := replaceDate_ok hearlier
    refine ⟨days_ordinal_nonneg hd' hyear',
      (days_mono ?_).trans (midnight_eq observed ▸ hmidnight)⟩
    have hbefore : (dateOf (days (Date.ordinal
        ⟨(dateOf observed).year, dt.month, dt.day⟩ - 1))).year = (dateOf observed).year :=
      dateOf_year hd
    refine sub_le_sub_right (ordinal_lt_of_year hd' hvalid ?_).le 1
    change (dateOf (days (Date.ordinal
      ⟨(dateOf observed).year, dt.month, dt.day⟩ - 1))).year - 1 < _
    omega
  · obtain rfl := Option.some.inj hx
    exact ⟨hnonneg, (not_lt.mp hlater).trans hmidnight⟩

/-- The dates that are not relative. -/
theorem settled_absolute (h : 0 ≤ observed) (h' : observed ≤ maxTime) (value : Str) :
    DateSettled (absoluteDate L value observed) (fun _ => IsoFits L value) observed := by
  unfold absoluteDate
  split
  next wall offset hiso =>
    have hfits : IsoFits L value ↔ 0 ≤ (wall - offset : ℤ) ∧ (wall - offset : ℤ) ≤ maxTime :=
      ⟨fun hfits => hfits wall offset hiso, fun hrange wall' offset' hiso' => by
        rw [hiso, Option.some.injEq, Prod.mk.injEq, Option.some.injEq] at hiso'
        rw [← hiso'.1, ← hiso'.2]
        exact hrange⟩
    refine ⟨fun hone => ?_, fun hint hone => absurd hint hone, fun hint => ?_⟩
    · have hrange := hfits.mp hone
      refine ⟨if observed < (wall - offset : ℤ) then none else some (wall - offset : ℤ), ?_, ?_⟩
      · rw [AwareDatetime.astimezoneUtc, AwareDatetime.instant, checked, if_pos hrange]
        rfl
      · intro x hx
        split_ifs at hx with hlater
        obtain rfl := Option.some.inj hx
        exact ⟨hrange.1, not_lt.mp hlater⟩
    · rw [AwareDatetime.astimezoneUtc, AwareDatetime.instant, checked, if_neg (mt hfits.mpr hint)]
      rfl
  next wall hiso =>
    have hfits : IsoFits L value := fun wall' offset' hiso' => by
      rw [hiso] at hiso'
      cases hiso'
    refine ⟨fun _ => ?_, fun _ hone => absurd hfits hone, fun hint => absurd hfits hint⟩
    by_cases hdate : (datePattern L).fullmatch value = true
    · rw [if_pos hdate]
      refine ⟨if observed < wall then none else some wall.1, rfl, fun x hx => ?_⟩
      split_ifs at hx with hlater
      obtain rfl := Option.some.inj hx
      exact ⟨wall.2.1, not_lt.mp hlater⟩
    · rw [if_neg hdate]
      exact ⟨none, rfl, fun x hx => by cases hx⟩
  next hiso =>
    have hfits : IsoFits L value := fun wall' offset' hiso' => by
      rw [hiso] at hiso'
      cases hiso'
    exact ⟨fun _ => ⟨_, rfl, fun x hx => monthDay_le h h' hx⟩,
      fun _ hone => absurd hfits hone, fun hint => absurd hfits hint⟩

theorem digitsAmount_nonneg (digits : Str) : 0 ≤ digitsAmount L digits := by
  have hfold (n : ℤ) (hn : 0 ≤ n) :
      0 ≤ digits.foldl (fun (n : ℤ) c => 10 * n + ((L.digit c).getD 0 : ℕ)) n := by
    induction digits generalizing n with
    | nil => exact hn
    | cons c digits ih =>
      have hnext : 0 ≤ 10 * n + ((L.digit c).getD 0 : ℕ) := by omega
      exact ih _ hnext
  exact hfold 0 le_rfl

/-- **A stripped date** settles by what of it fits. -/
theorem settled_postedAt (h : 0 ≤ observed) (h' : observed ≤ maxTime) {value : Str}
    (hshort : ShortAmount L value) :
    DateSettled (postedAt L value observed) (fun low => DateFits L low value observed) observed := by
  obtain ⟨hvalid, hyear, hyear', hstart, hmidnight⟩ := dateOf_spec h h'
  have hmidnight' := midnight_eq observed
  unfold postedAt DateFits
  cases hrelative : relativeMatch L value with
  | none => exact settled_absolute h h' value
  | some found =>
  obtain ⟨digits, unitText⟩ := found
  dsimp only
  have hamount := digitsAmount_nonneg (L := L) digits
  rw [intOfDigits, if_neg (not_lt.mpr (hshort digits unitText hrelative))]
  dsimp only [bind, Except.bind]
  unfold AmountFits
  generalize digitsAmount L digits = amount at hamount
  generalize L.lower unitText = unit
  split_ifs
  · refine settled_checked (hmidnight.trans h') hmidnight ?_
    rw [days_eq]
    omega
  · refine settled_checked (hmidnight.trans h') hmidnight ?_
    rw [days_eq]
    omega
  · exact settled_subtractMonths hvalid hyear' hamount (hmidnight' ▸ hmidnight)
  · exact settled_subtractYears hvalid hyear' hamount (hmidnight' ▸ hmidnight)
  · refine settled_checked h' le_rfl ?_
    unfold hours minutes seconds
    omega
  · refine settled_checked h' le_rfl ?_
    unfold minutes seconds
    omega
  · exact settled_absolute h h' value

end arithmetic

/-! ## Values -/

variable (L) in
/-- The date of a value is read: the value is blank, or its number is short and its date and the
observation stay in the calendar. -/
def DateReturns (value : Str) (observed : ℤ) : Prop :=
  L.strip value = [] ∨
    0 ≤ observed ∧ observed ≤ maxTime ∧ ShortAmount L (L.strip value) ∧
      DateFits L 1 (L.strip value) observed

variable (L) in
/-- The date of a value overflows: the observation leaves the calendar, or the date does otherwise
than by its year. -/
def DateOverflows (value : Str) (observed : ℤ) : Prop :=
  L.strip value ≠ [] ∧
    (¬(0 ≤ observed ∧ observed ≤ maxTime) ∨
      ShortAmount L (L.strip value) ∧ ¬DateFits L firstInt (L.strip value) observed)

section values

variable {value : Str} {observed : ℤ}

theorem parse_eq_rowDate (value : Str) (observedAt : AwareDatetime) :
    parseSourcePostedAt L value observedAt = rowDate L (some value) observedAt.instant := rfl

theorem rowDate_blank (h : L.strip value = []) : rowDate L (some value) observed = .ok none :=
  if_pos h

theorem rowDate_outside (h : L.strip value ≠ []) (hout : ¬(0 ≤ observed ∧ observed ≤ maxTime)) :
    rowDate L (some value) observed = .error .overflowError := by
  dsimp only [rowDate]
  rw [if_neg h, checked, if_neg hout]
  rfl

theorem rowDate_inside (h : L.strip value ≠ []) (hin : 0 ≤ observed ∧ observed ≤ maxTime) :
    rowDate L (some value) observed = postedAt L (L.strip value) observed := by
  dsimp only [rowDate]
  rw [if_neg h, checked, if_pos hin]
  rfl

/-- `int` refuses a long number. -/
theorem postedAt_long (h : ¬ShortAmount L value) :
    postedAt L value observed = .error .valueError := by
  unfold ShortAmount at h
  push Not at h
  obtain ⟨digits, unit, hrelative, hlong⟩ := h
  unfold postedAt
  rw [hrelative]
  dsimp only
  rw [intOfDigits, if_pos hlong]
  rfl

/-- The date of a value is read, and is not after the observation. -/
theorem rowDate_ok (h : DateReturns L value observed) :
    ∃ t, rowDate L (some value) observed = .ok t ∧ ∀ x : ℤ, t = some x → 0 ≤ x ∧ x ≤ observed := by
  rcases h with hblank | ⟨hstart, hstop, hshort, hfits⟩
  · exact ⟨none, rowDate_blank hblank, fun x hx => by cases hx⟩
  by_cases hblank : L.strip value = []
  · exact ⟨none, rowDate_blank hblank, fun x hx => by cases hx⟩
  rw [rowDate_inside hblank ⟨hstart, hstop⟩]
  exact (settled_postedAt hstart hstop hshort).ok hfits

theorem rowDate_overflow (h : DateOverflows L value observed) :
    rowDate L (some value) observed = .error .overflowError := by
  obtain ⟨hblank, hcase⟩ := h
  by_cases hin : 0 ≤ observed ∧ observed ≤ maxTime
  · obtain ⟨hshort, hfits⟩ := hcase.resolve_left (not_not.mpr hin)
    rw [rowDate_inside hblank hin]
    exact (settled_postedAt hin.1 hin.2 hshort).overflow hfits
  · exact rowDate_outside hblank hin

/-- A value whose date is not read and does not overflow is a `ValueError`. -/
theorem rowDate_valueError (hreturns : ¬DateReturns L value observed)
    (hoverflows : ¬DateOverflows L value observed) :
    rowDate L (some value) observed = .error .valueError := by
  unfold DateReturns at hreturns
  unfold DateOverflows at hoverflows
  have hblank : L.strip value ≠ [] := fun h => hreturns (.inl h)
  have hin : 0 ≤ observed ∧ observed ≤ maxTime := by
    by_contra hout
    exact hoverflows ⟨hblank, .inl hout⟩
  rw [rowDate_inside hblank hin]
  by_cases hshort : ShortAmount L (L.strip value)
  · refine (settled_postedAt hin.1 hin.2 hshort).valueError ?_ ?_
    · by_contra hfits
      exact hoverflows ⟨hblank, .inr ⟨hshort, hfits⟩⟩
    · intro hfits
      exact hreturns (.inr ⟨hin.1, hin.2, hshort, hfits⟩)
  · exact postedAt_long hshort

/-- **A date is read** exactly when its value stays in the calendar. -/
theorem rowDate_returns_iff :
    (∃ t, rowDate L (some value) observed = .ok t) ↔ DateReturns L value observed := by
  constructor
  · rintro ⟨t, ht⟩
    by_contra hreturns
    by_cases hoverflows : DateOverflows L value observed
    · rw [rowDate_overflow hoverflows] at ht
      cases ht
    · rw [rowDate_valueError hreturns hoverflows] at ht
      cases ht
  · intro h
    obtain ⟨t, ht, -⟩ := rowDate_ok h
    exact ⟨t, ht⟩

/-- A date overflows exactly where this is said. -/
theorem rowDate_overflow_iff :
    rowDate L (some value) observed = .error .overflowError ↔ DateOverflows L value observed := by
  constructor
  · intro ht
    by_contra hoverflows
    by_cases hreturns : DateReturns L value observed
    · obtain ⟨t, ht', -⟩ := rowDate_ok hreturns
      rw [ht'] at ht
      cases ht
    · rw [rowDate_valueError hreturns hoverflows] at ht
      cases ht
  · exact rowDate_overflow

end values

/-! ## Rows -/

section rows

variable {I : Ingestion} {ats : AtsConfig} {now : Time}

/-- A value with a date that does not overflow. -/
def Harmless (L : DateParsers) (value : Option Str) (observed : ℤ) : Prop :=
  ∀ text, value = some text → ¬DateOverflows L text observed

/-- The rest of a row runs unless the date overflows. -/
theorem afterDate_returns {α : Type} {finish : Option Time → α} {rejected : α}
    {value : Option Str} {observed : ℤ} :
    (∃ r, afterDate (rowDate L value observed) finish rejected = .ok r) ↔
      Harmless L value observed := by
  have hoverflow : rowDate L value observed = .error .overflowError ↔
      ¬Harmless L value observed := by
    unfold Harmless
    cases value with
    | none => exact ⟨fun h => (by cases h), fun h => absurd (fun text ht => (by cases ht)) h⟩
    | some text => simp [rowDate_overflow_iff]
  cases hdate : rowDate L value observed with
  | ok posted =>
    rw [hdate] at hoverflow
    exact ⟨fun _ => by_contra fun h => (by cases hoverflow.mpr h), fun _ => ⟨_, rfl⟩⟩
  | error e =>
    rw [hdate] at hoverflow
    cases e with
    | valueError =>
      exact ⟨fun _ => by_contra fun h => (by cases hoverflow.mpr h), fun _ => ⟨_, rfl⟩⟩
    | overflowError =>
      refine ⟨?_, fun h => absurd h (hoverflow.mp rfl)⟩
      rintro ⟨r, hr⟩
      cases hr

variable (L I now) in
/-- A row of a board is rejected before its date, or its date does not overflow. -/
def RawJobPayload.Dated (raw : RawJobPayload) : Prop :=
  raw.reachesDate I = true →
    Harmless L (raw.payload.posted.getD raw.payload.datePosted) (raw.observedAt.getD now)

variable (L I) in
/-- A row of a README is rejected before its date, or its date does not overflow. -/
def SimplifyCandidate.Dated (candidate : SimplifyCandidate) : Prop :=
  I.urlParses candidate.row.applyUrl = true →
    Harmless L candidate.row.datePosted candidate.observedAt

theorem of_raw_dated_returns {raw : RawJobPayload} :
    (∃ r, AtsCandidate.ofRawDated L I ats now raw = .ok r) ↔ raw.Dated L I now := by
  unfold AtsCandidate.ofRawDated RawJobPayload.Dated
  split_ifs with hreaches
  · simp only [hreaches, forall_const]
    exact afterDate_returns
  · exact ⟨fun _ h => absurd h hreaches, fun _ => ⟨_, rfl⟩⟩

theorem addDated_returns {simplify : SimplifyConfig} {repository : Option Db} {loop : Classifying}
    {candidate : SimplifyCandidate} :
    (∃ r, loop.addDated L I simplify repository candidate = .ok r) ↔ candidate.Dated L I := by
  unfold Classifying.addDated SimplifyCandidate.Dated
  split_ifs with hparses
  · simp only [hparses, forall_const]
    exact afterDate_returns
  · exact ⟨fun _ h => absurd h hparses, fun _ => ⟨_, rfl⟩⟩

/-- The loop over the rows of boards returns when every row it gets to does; it ends early when two
candidates do not merge. -/
theorem collectDated_returns (candidates : List AtsCandidate) (rows : List RawJobPayload) :
    (∃ r, AtsCandidate.collectDated L I ats now candidates rows = .ok r) ↔
      ∀ before raw after, rows = before ++ raw :: after →
        (∃ reached, AtsCandidate.collectDated L I ats now candidates before = .ok (some reached)) →
          raw.Dated L I now := by
  induction rows generalizing candidates with
  | nil =>
    refine ⟨fun _ before raw after heq => ?_, fun _ => ⟨_, rfl⟩⟩
    exact absurd heq.symm (List.append_ne_nil_of_right_ne_nil _ (List.cons_ne_nil _ _))
  | cons raw rows ih =>
    -- the first row is dated, and the loop goes on from what it leaves
    have hsplit : (∀ before row after, raw :: rows = before ++ row :: after →
        (∃ reached, AtsCandidate.collectDated L I ats now candidates before = .ok (some reached)) →
          row.Dated L I now) ↔
        raw.Dated L I now ∧ ∀ before row after, rows = before ++ row :: after →
          (∃ reached, AtsCandidate.collectDated L I ats now candidates (raw :: before) =
            .ok (some reached)) → row.Dated L I now := by
      constructor
      · intro h
        exact ⟨h [] raw rows rfl ⟨_, rfl⟩, fun before row after heq =>
          h (raw :: before) row after (congrArg (raw :: ·) heq)⟩
      · rintro ⟨hraw, hrows⟩ before row after heq hreached
        cases before with
        | nil =>
          obtain ⟨rfl, -⟩ := List.cons.inj heq
          exact hraw
        | cons first before =>
          rw [List.cons_append, List.cons.injEq] at heq
          obtain ⟨rfl, heq⟩ := heq
          exact hrows before row after heq hreached
    have hfirst : (∃ r, AtsCandidate.ofRawDated L I ats now raw = .ok r) ↔ raw.Dated L I now :=
      of_raw_dated_returns
    rw [hsplit, ← hfirst]
    cases hraw : AtsCandidate.ofRawDated L I ats now raw with
    | error e =>
      simp only [AtsCandidate.collectDated, hraw]
      constructor
      · rintro ⟨r, hr⟩
        cases hr
      · rintro ⟨⟨r, hr⟩, -⟩
        cases hr
    | ok found =>
      cases found with
      | none =>
        simp only [AtsCandidate.collectDated, hraw]
        rw [ih]
        exact ⟨fun h => ⟨⟨_, rfl⟩, h⟩, And.right⟩
      | some candidate =>
        cases hadd : candidate.add I candidates with
        | none =>
          simp only [AtsCandidate.collectDated, hraw, hadd]
          refine ⟨fun _ => ⟨⟨_, rfl⟩, ?_⟩, fun _ => ⟨_, rfl⟩⟩
          rintro before row after - ⟨reached, hreached⟩
          cases hreached
        | some next =>
          simp only [AtsCandidate.collectDated, hraw, hadd]
          rw [ih]
          exact ⟨fun h => ⟨⟨_, rfl⟩, h⟩, And.right⟩

theorem classifyDated_returns {repository : Option Db} {cache : Cache} {source : SimplifySource} :
    (∃ r, classifyDated L I repository cache source = .ok r) ↔
      ∀ candidate ∈ source.candidates, candidate.kind ≠ .removed → candidate.Dated L I := by
  unfold classifyDated
  rw [Raising.foldlM_returns (p := (SimplifyCandidate.Dated L I)) fun _ _ => addDated_returns]
  simp only [List.mem_filter, decide_eq_true_eq, and_imp]

end rows

/-! ## The sources -/

/-- **Source dates.** A date is read, to a time that is not after the observation, exactly when its
value stays in the calendar; a run over the rows of boards, and one over the rows of a README, is
not ended by a date exactly when no row it gets to has a date that overflows. -/
theorem source_dates_iff (L : DateParsers) (I : Ingestion) :
    (∀ value observedAt,
      (∃ t, parseSourcePostedAt L value observedAt = .ok t ∧
        ∀ x : ℤ, t = some x → 0 ≤ x ∧ x ≤ observedAt.instant) ↔
        DateReturns L value observedAt.instant) ∧
      (∀ ats now rows,
        (∃ r, AtsCandidate.collectDated L I ats now [] rows = .ok r) ↔
          ∀ before raw after, rows = before ++ raw :: after →
            (∃ reached, AtsCandidate.collectDated L I ats now [] before = .ok (some reached)) →
              raw.Dated L I now) ∧
      ∀ repository cache source,
        (∃ r, classifyDated L I repository cache source = .ok r) ↔
          ∀ candidate ∈ source.candidates, candidate.kind ≠ .removed → candidate.Dated L I := by
  refine ⟨fun value observedAt => ?_, fun ats now rows => collectDated_returns [] rows,
    fun repository cache source => classifyDated_returns⟩
  rw [parse_eq_rowDate]
  constructor
  · rintro ⟨t, ht, -⟩
    exact rowDate_returns_iff.mp ⟨t, ht⟩
  · exact rowDate_ok

/-- Dates in ASCII, without the formats of the library. -/
def DateParsers.plain : DateParsers :=
  { Libraries.ascii with
    lower := fun s => s.map Char.toLower
    fromisoformat := fun _ => none
    strptime := fun _ => none }

/-- A row of a board that says when it was posted. -/
def postedRow (posted : String) : RawJobPayload :=
  { sampleRow "https://jobs.lever.co/acme/1" with
    payload := ⟨some (some posted.toList), none, .empty, []⟩ }

/-- A row of a README that says when it was posted. -/
def postedTableRow (posted : String) : SimplifyCandidate :=
  let candidate := sampleTableRow "https://jobs.lever.co/acme/1" "Remote" false
  { candidate with row := { candidate.row with datePosted := some posted.toList } }

/-- A day of 2021 in UTC. -/
def sampleObservation : AwareDatetime := ⟨⟨days 738000, by decide⟩, ⟨0, by decide⟩⟩

/-- A row of a million days ago ends the run over a board and over a README. -/
theorem million_days_abort :
    parseSourcePostedAt .plain "1000000d".toList sampleObservation = .error .overflowError ∧
      (AtsCandidate.collectDated .plain .ascii sampleAts (days 738000) []
        [{ postedRow "1000000d" with observedAt := some (days 738000) }, postedRow "1d"]).isOk =
          false ∧
      (classifyDated .plain .ascii none (fun _ => none)
        (sampleCommit "c0ffee" [{ postedTableRow "1000000d" with observedAt := days 738000 },
          postedTableRow "1d"])).isOk = false := by
  decide +kernel

end JobPing
