import JobPing.AtsPipeline
import JobPing.Calendar
import JobPing.DetailExtraction
import JobPing.Notifications
import JobPing.SimplifyPipeline

/-!
# Source dates

`app/services/posting_dates.py`, with the exceptions of the `datetime` library: a relative date that
leaves the calendar, an ISO date whose instant does, and the conversions of long numbers. The
pipelines catch `ValueError` and go on with the next row; an `OverflowError` ends the batch.
-/

namespace JobPing

open Calendar

/-! ## Datetimes -/

/-- What the `datetime` library raises. -/
inductive DateError
  | valueError
  | overflowError
  deriving DecidableEq

/-- `9999-12-31T23:59:59.999999`; times count from the first midnight of year 1. -/
def maxTime : ℤ := days 3652059 - 1

/-- The clock of a datetime: between `datetime.min` and `datetime.max`. -/
abbrev Wall := { t : ℤ // 0 ≤ t ∧ t ≤ maxTime }

/-- A `utcoffset()`: less than a day. -/
abbrev Offset := { offset : ℤ // -days 1 < offset ∧ offset < days 1 }

/-- A datetime with a timezone. -/
structure AwareDatetime where
  wall : Wall
  offset : Offset

/-- The result of an arithmetic operation: "date value out of range". -/
def checked (t : ℤ) : Except DateError Time :=
  if 0 ≤ t ∧ t ≤ maxTime then .ok t else .error .overflowError

/-- The instant, which may be outside of the calendar of UTC. -/
def AwareDatetime.instant (dt : AwareDatetime) : ℤ := dt.wall - dt.offset

/-- `dt.astimezone(UTC)`. -/
def AwareDatetime.astimezoneUtc (dt : AwareDatetime) : Except DateError Time := checked dt.instant

/-- The date of a time in UTC. -/
def dateOf (t : ℤ) : Date := ofOrdinal (t / days 1 + 1)

/-- `dt.replace(hour=0, minute=0, second=0, microsecond=0)`. -/
def midnight (t : ℤ) : ℤ := t - t % days 1

/-- `dt.replace(year=, month=, day=)` of a midnight: the year is converted to a C `int` first. -/
def replaceDate (d : Date) : Except DateError Time :=
  if d.year < -2 ^ 31 then .error .overflowError
  else if 1 ≤ d.year ∧ d.year ≤ 9999 ∧ 1 ≤ d.month ∧ d.month ≤ 12 ∧ 1 ≤ d.day ∧
      d.day ≤ daysInMonth (isLeap d.year) d.month then .ok (days (d.ordinal - 1))
  else .error .valueError

/-- The day of `subtract_months` and `subtract_years` is
`min(dt.day, calendar.monthrange(...)[1])`. -/
def clamped (year month day : ℤ) : Date :=
  ⟨year, month, min day (daysInMonth (isLeap year) month)⟩

/-- `subtract_months`. -/
def subtractMonths (d : Date) (months : ℤ) : Except DateError Time :=
  let year := d.year - months / 12
  let month := d.month - months % 12
  replaceDate (if month ≤ 0 then clamped (year - 1) (month + 12) d.day
    else clamped year month d.day)

/-- `subtract_years`. -/
def subtractYears (d : Date) (years : ℤ) : Except DateError Time :=
  replaceDate (clamped (d.year - years) d.month d.day)

/-! ## Parsing -/

/-- What the parser calls outside the repository. -/
structure DateParsers extends CharTables where
  lower : Str → Str
  /-- `datetime.fromisoformat`; `none` is the `ValueError`. -/
  fromisoformat : Str → Option (Wall × Option Offset)
  /-- `datetime.strptime(·, "%b %d %Y")`; `none` is the `ValueError`. -/
  strptime : Str → Option Date

/-- The groups of a relative date. -/
inductive RelativeGroup
  | amount
  | unit
  deriving DecidableEq

variable (L : DateParsers)

/-- `^(\d+)\s*(d|w|mo|y|hr?s?|mins?)$`, ignoring case. -/
def relativePattern : Regex Char RelativeGroup :=
  let letter (c : Char) : Regex Char RelativeGroup := .set fun x => fold x = c
  let optional (r : Regex Char RelativeGroup) : Regex Char RelativeGroup := .many 0 (some 1) r
  .seq (.group .amount (.many 1 none (.set fun c => (L.digit c).isSome))) <|
    .seq (.many 0 none (.set L.isSpace)) <|
    .seq (.group .unit <| .alt (letter 'd') <| .alt (letter 'w') <|
      .alt (.seq (letter 'm') (letter 'o')) <| .alt (letter 'y') <|
      .alt (.seq (letter 'h') (.seq (optional (letter 'r')) (optional (letter 's')))) <|
      .seq (letter 'm') (.seq (letter 'i') (.seq (letter 'n') (optional (letter 's'))))) <|
    .finish fun c => c = '\n'

/-- `rel_match`: the digits and the unit. -/
def relativeMatch (value : Str) : Option (Str × Str) :=
  ((relativePattern L).matchAt (.start value)).bind fun stop => do
    let found := Regex.Cursor.matchTo (.start value) stop
    return (← found.group .amount, ← found.group .unit)

/-- The value of a text of digits. -/
def digitsAmount (digits : Str) : ℤ :=
  digits.foldl (fun n c => 10 * n + ((L.digit c).getD 0 : ℕ)) 0

/-- `int(digits)`, which refuses more than 4300 of them. -/
def intOfDigits (digits : Str) : Except DateError ℤ :=
  if 4300 < digits.length then .error .valueError else .ok (digitsAmount L digits)

/-- `\d{4}-\d{2}-\d{2}`. -/
def datePattern : Pattern :=
  let digits (n : ℕ) : Pattern := .many n (some n) (.set fun c => (L.digit c).isSome)
  Pattern.seqs [digits 4, Pattern.lit "-", digits 2, Pattern.lit "-", digits 2]

/-- A month and day of the year of the observation, or of the year before. -/
def monthDay (value : Str) (observed : Time) : Option Time :=
  let observedDate := midnight observed
  (L.strptime (value ++ ' ' :: (toString (dateOf observed).year).toList)).bind fun dt =>
    match replaceDate ⟨(dateOf observed).year, dt.month, dt.day⟩ with
    | .error _ => none
    | .ok result =>
      if observedDate < result then
        match subtractYears (dateOf result) 1 with
        | .error _ => none
        | .ok result => some result
      else some result

/-- The dates that are not relative. -/
def absoluteDate (value : Str) (observed : Time) : Except DateError (Option Time) :=
  match L.fromisoformat value with
  | some (wall, some offset) => do
    let result ← (AwareDatetime.mk wall offset).astimezoneUtc
    pure (if observed < result then none else some result)
  | some (wall, none) =>
    -- a calendar date has no timezone, and a time without one is ambiguous
    if (datePattern L).fullmatch value then
      .ok (if observed < wall then none else some wall)
    else .ok none
  | none => .ok (monthDay L value observed)

/-- The date of a stripped text that was observed at a time of UTC. -/
def postedAt (value : Str) (observed : Time) : Except DateError (Option Time) :=
  match relativeMatch L value with
  | none => absoluteDate L value observed
  | some (digits, unitText) => do
    let amount ← intOfDigits L digits
    let unit := L.lower unitText
    if unit = "d".toList then some <$> checked (midnight observed - days amount)
    else if unit = "w".toList then some <$> checked (midnight observed - days (7 * amount))
    else if unit = "mo".toList then some <$> subtractMonths (dateOf observed) amount
    else if unit = "y".toList then some <$> subtractYears (dateOf observed) amount
    else if "h".toList.isPrefixOf unit then some <$> checked (observed - hours amount)
    else if "min".toList.isPrefixOf unit then some <$> checked (observed - minutes amount)
    else absoluteDate L value observed

/-- **`parse_source_posted_at`**, of a value that is a string. -/
def parseSourcePostedAt (value : Str) (observedAt : AwareDatetime) :
    Except DateError (Option Time) :=
  if L.strip value = [] then .ok none
  else do postedAt L (L.strip value) (← observedAt.astimezoneUtc)

/-! ## The rows of the pipelines -/

/-- `parse_source_posted_at` for a row with the instant it was observed at; `none` is a value that
is not a string. -/
def rowDate (value : Option Str) (observedAt : Time) : Except DateError (Option Time) :=
  match value with
  | none => .ok none
  | some value =>
    if L.strip value = [] then .ok none else do postedAt L (L.strip value) (← checked observedAt)

/-- The rest of a row: the pipelines catch the `ValueError` and reject the row. -/
def afterDate {α : Type} (date : Except DateError (Option Time)) (finish : Option Time → α)
    (rejected : α) : Except DateError α :=
  match date with
  | .ok posted => .ok (finish posted)
  | .error .valueError => .ok rejected
  | .error .overflowError => .error .overflowError

/-- The services for a row whose date is read already. -/
def Ingestion.withDate (I : Ingestion) (posted : Option Time) : Ingestion :=
  { I with parseSourcePostedAt := fun _ _ => posted }

variable (I : Ingestion)

/-- What `_normalize` of the ATS pipeline computes before the date: the canonical URL, the flag and
the content hash. -/
def RawJobPayload.reachesDate (raw : RawJobPayload) : Bool :=
  I.urlParses (I.text.strip (raw.applyUrl.getD [])) && (raw.isClosed.parse I).isSome &&
    I.urlParses (raw.canonicalUrl I)

/-- The date of a row of a board. -/
def RawJobPayload.date (now : Time) (raw : RawJobPayload) : Except DateError (Option Time) :=
  rowDate L (raw.payload.posted.getD raw.payload.datePosted) (raw.observedAt.getD now)

/-- `AtsCandidate.ofRaw`, where the date may raise. -/
def AtsCandidate.ofRawDated (ats : AtsConfig) (now : Time) (raw : RawJobPayload) :
    Except DateError (Option AtsCandidate) :=
  if raw.reachesDate I then
    afterDate (raw.date L now) (fun posted => ofRaw (I.withDate posted) ats now raw) none
  else .ok none

/-- `AtsCandidate.collect`, where the dates may raise: the loop from some candidates on. -/
def AtsCandidate.collectDated (ats : AtsConfig) (now : Time) :
    List AtsCandidate → List RawJobPayload → Except DateError (Option (List AtsCandidate))
  | candidates, [] => .ok (some candidates)
  | candidates, raw :: rows =>
    match ofRawDated L I ats now raw with
    | .error e => .error e
    | .ok none => collectDated ats now candidates rows
    | .ok (some candidate) =>
      match candidate.add I candidates with
      | none => .ok none
      | some candidates => collectDated ats now candidates rows

/-- The date of a row of a README. -/
def SimplifyCandidate.date (candidate : SimplifyCandidate) : Except DateError (Option Time) :=
  rowDate L candidate.row.datePosted candidate.observedAt

/-- `Classifying.add`, where the date may raise; the content hash comes before it. -/
def Classifying.addDated (simplify : SimplifyConfig) (repository : Option Db) (loop : Classifying)
    (candidate : SimplifyCandidate) : Except DateError Classifying :=
  if I.urlParses candidate.row.applyUrl then
    afterDate (candidate.date L)
      (fun posted => loop.add (I.withDate posted) simplify repository candidate) loop
  else .ok loop

/-- The loop of `_classify_candidates`, where the dates may raise. -/
def classifyDated (repository : Option Db) (cache : Cache) (source : SimplifySource) :
    Except DateError Classifying :=
  (source.candidates.filter (·.kind ≠ .removed)).foldlM
    (Classifying.addDated L I source.pipeline repository) ⟨[], [], cache⟩

end JobPing
