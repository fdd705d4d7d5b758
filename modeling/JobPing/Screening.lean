import JobPing.EvidenceFacts
import JobPing.Notifications
import JobPing.SqlLogic
import Mathlib.Algebra.Order.Ring.Unbundled.Rat

/-!
# Screening

`evaluate` and `bucket_expression` of `app/evidence/screening.py` and `screening` of
`app/evidence/api.py`: the same policy over a projection in memory, and as a condition over columns,
where a key that is missing is NULL. `evaluate` collects what fails, what needs a review and what
passes, section by section.
-/

namespace JobPing

/-! ## Requirements -/

inductive Authorization
  | cpt
  | opt
  | stemOpt
  | unrestricted
  deriving DecidableEq

/-- The policy an authorization asks for. -/
def Authorization.policy : Authorization → Option PolicyKind
  | cpt => some .cpt
  | opt => some .opt
  | stemOpt => some .stemOpt
  | unrestricted => none

structure Requirements where
  authorization : Option Authorization
  futureSponsorship : Bool
  locations : List Str
  internshipHourly : Option Decimal
  newGradAnnual : Option Decimal
  currency : Str

namespace Requirements

variable (profile : Requirements)

def configured : Bool :=
  profile.authorization.isSome || profile.futureSponsorship || !profile.locations.isEmpty ||
    profile.internshipHourly.isSome || profile.newGradAnnual.isSome

/-- `profile.authorization and profile.authorization != "unrestricted"`. -/
def policy : Option PolicyKind := profile.authorization.bind Authorization.policy

def needsWorkAuth : Bool := profile.policy.isSome || profile.futureSponsorship

/-- `floor_for`. -/
def floorFor : JobType → Option Decimal
  | .internship => profile.internshipHourly
  | .newGrad => profile.newGradAnnual

end Requirements

/-- The unit of the floor of a job category. -/
def JobType.period : JobType → PayInterval
  | internship => .hour
  | newGrad => .year

/-! ## Employer records -/

structure EmployerRecord where
  kind : Option Str
  year : ℤ
  count : ℤ

/-- `MIN_ACTIVE_H1B_YEAR`. -/
def minActiveH1bYear : ℤ := 2023

def h1bKinds : List Str := ["h1b_filings".toList, "h1b_approvals".toList]

/-- `recent_h1b_summary`: the filings and the latest year. -/
def recentH1bSummary (records : List EmployerRecord) : Option (ℤ × ℤ) :=
  let valid := records.filter fun r => r.kind.any (· ∈ h1bKinds) && 1 ≤ r.count
  if !valid.any fun r => minActiveH1bYear ≤ r.year then none
  else (valid.map EmployerRecord.year).max?.map fun latest =>
    ((valid.map EmployerRecord.count).sum, latest)

/-! ## Texts -/

def PolicyValue.text : PolicyValue → Str
  | allowed => "allowed".toList
  | denied => "denied".toList
  | conditional => "conditional".toList
  | conflicting => "conflicting".toList
  | unknown => "unknown".toList

/-- `value if value != "unknown" else "not stated on checked pages"`. -/
def PolicyValue.stated (value : PolicyValue) : Str :=
  if value = .unknown then "not stated on checked pages".toList else value.text

/-- The name of a policy in capitals. -/
def PolicyKind.upper : PolicyKind → Str
  | cpt => "CPT".toList
  | opt => "OPT".toList
  | stemOpt => "STEM_OPT".toList
  | sponsorship => "SPONSORSHIP".toList
  | futureSponsorship => "FUTURE_SPONSORSHIP".toList

/-- Commas between groups of three digits, the last digit first. -/
def groupDigits : List Char → List Char
  | a :: b :: c :: d :: rest => a :: b :: c :: ',' :: groupDigits (d :: rest)
  | digits => digits

/-- `f"{n:,}"` of a positive number. -/
def thousands (n : ℤ) : Str := (groupDigits (toString n).toList.reverse).reverse

/-! ## `evaluate` -/

inductive Bucket
  | matches
  | review
  | excluded
  deriving DecidableEq

/-- A bucket with its reasons. -/
structure Screened where
  bucket : Bucket
  reasons : List Str

/-- What fails, what needs a review and what passes. -/
structure Findings where
  fails : List Str
  reviews : List Str
  passes : List Str

namespace Findings

def none : Findings := ⟨[], [], []⟩

def fail (reason : Str) : Findings := ⟨[reason], [], []⟩

def review (reason : Str) : Findings := ⟨[], [reason], []⟩

def pass (reason : Str) : Findings := ⟨[], [], [reason]⟩

def append (a b : Findings) : Findings :=
  ⟨a.fails ++ b.fails, a.reviews ++ b.reviews, a.passes ++ b.passes⟩

def screened (findings : Findings) : Screened where
  bucket := if !findings.fails.isEmpty then .excluded
    else if !findings.reviews.isEmpty then .review else .matches
  reasons := findings.fails ++ findings.reviews ++ findings.passes

end Findings

namespace Projection

variable (data : Projection)

/-- `policies.get(key, {}).get("value", "unknown")`. -/
def policyValue (key : PolicyKind) : PolicyValue :=
  ((data.policies key).map PolicyFact.value).getD .unknown

/-- `restrictions.values()`. -/
def restrictionValues : List RestrictionValue :=
  RestrictionKind.all.filterMap fun key => (data.restrictions key).map Restriction.value

end Projection

def restrictionFindings (profile : Requirements) (data : Projection) : Findings :=
  if profile.needsWorkAuth then
    Findings.append
      (if data.restrictionValues.any (· = .required) then
        .fail "Employer requires citizenship or permanent authorization".toList else .none)
      (if data.restrictionValues.any (· ≠ .required) then
        .review "Citizenship or permanent-authorization restrictions need review".toList else .none)
  else .none

def authorizationFindings (profile : Requirements) (data : Projection) : Findings :=
  match profile.policy with
  | none => .none
  | some key =>
    let value := data.policyValue key
    let reason := key.upper ++ ": ".toList ++ value.stated
    if value = .allowed then .pass reason
    else if value = .denied then .fail reason
    else .review reason

/-- The reason of `evaluate` for filings. -/
def h1bReason (totalFilings latestYear : ℤ) : Str :=
  "Future sponsorship: supported by official DOL H-1B filings (Filed ".toList ++
    thousands totalFilings ++ " H-1B ".toList ++
    (if totalFilings = 1 then "petition".toList else "petitions".toList) ++
    ", last filed ".toList ++ (toString latestYear).toList ++ ")".toList

def sponsorshipFindings (profile : Requirements) (data : Projection)
    (records : List EmployerRecord) : Findings :=
  if profile.futureSponsorship then
    let futureVal := data.policyValue .futureSponsorship
    let sponsVal := data.policyValue .sponsorship
    let has_restriction := !data.restrictionValues.isEmpty
    let review : Findings := .review ("Future sponsorship: ".toList ++
      (if futureVal ≠ .unknown then futureVal else sponsVal).stated)
    if futureVal = .allowed ||
        (futureVal = .unknown && sponsVal = .allowed && !has_restriction) then
      .pass "Future sponsorship: allowed".toList
    else if futureVal = .denied || (futureVal = .unknown && sponsVal = .denied) then
      .fail "Future sponsorship: denied".toList
    else if futureVal = .unknown && sponsVal = .unknown && !has_restriction then
      match recentH1bSummary records with
      | some (totalFilings, latestYear) => .pass (h1bReason totalFilings latestYear)
      | none => review
    else review
  else .none

variable (U : Unicode)

/-- `{location_key(value) for value in profile.locations}`. -/
def Requirements.accepted (profile : Requirements) : List Str :=
  profile.locations.map fun value => locationKey U (some value)

def locationFindings (profile : Requirements) (data : Projection) : Findings :=
  if !(profile.accepted U).isEmpty && data.locationKey ∉ profile.accepted U then
    .review "Confirm that a listed work location is acceptable".toList
  else .none

/-- The ranges of pay that a floor is compared with. -/
def applicablePay (profile : Requirements) (kind : JobType) (data : Projection) :
    List ScreenedPay :=
  data.compensation.filter fun item =>
    item.component = .base && item.interval = kind.period && item.currency = profile.currency &&
      item.us && ((profile.accepted U).isEmpty || item.locationKey ∈ profile.accepted U)

/-- `maximum`, or `minimum` where there is none. -/
def Pay.amount (pay : Pay) : Option ℚ := (pay.maximum.or pay.minimum).map Decimal.value

def payFindings (profile : Requirements) (kind : JobType) (data : Projection) : Findings :=
  match profile.floorFor kind with
  | none => .none
  | some floor =>
    let pay := applicablePay U profile kind data
    let amounts := pay.filterMap fun item => item.amount
    if data.payConflicting || amounts.isEmpty then
      .review "Applicable base pay is conflicting or not stated on checked pages".toList
    else if amounts.max?.any (floor.value ≤ ·) then
      .pass "Advertised range reaches your target; an offer may be below it".toList
    else if pay.any fun item => item.maximum.isNone then
      .review "Only a below-target starting amount is stated".toList
    else .fail "Advertised base-pay maximum is below your target".toList

/-- **`evaluate`**. -/
def evaluate (profile : Option Requirements) (data : Option Projection) (kind : JobType)
    (status : Option CheckStatus) (verifiedAt : Option Time) (now : Time)
    (closed targetCurrent : Bool) (immigrationRecords : List EmployerRecord) : Screened :=
  if closed then ⟨.excluded, ["Applications closed".toList]⟩
  else
    match profile.filter Requirements.configured with
    | none => ⟨.review, ["Configure your private screening requirements".toList]⟩
    | some profile =>
      match data.filter Projection.usRole with
      | none => ⟨.review, ["US role/location not established".toList]⟩
      | some data =>
        let aged := verifiedAt.any (· ≤ now - hours 24)
        if status ≠ some .complete || data.extractionVersion ≠ extractorVersion || verifiedAt.isNone ||
            !targetCurrent || aged then
          ⟨.review, [if aged then "Evidence is older than 24 hours".toList
            else if status.isNone then "Not checked yet".toList
            else "Couldn’t verify current pages".toList]⟩
        else
          ((((restrictionFindings profile data).append (authorizationFindings profile data)).append
            (sponsorshipFindings profile data immigrationRecords)).append
            (locationFindings U profile data)).append (payFindings U profile kind data) |>.screened

/-! ## `screening` -/

/-- The columns of a row of `evidence_checks` that screening reads. -/
structure ScreenedCheck where
  target : Target
  status : CheckStatus
  verifiedAt : Option Time
  projection : Option Projection

/-- A posting with its company's records and the check of its latest occurrence. -/
structure ScreenedJob where
  job : JobPosting
  immigrationRecords : List EmployerRecord
  check : Option ScreenedCheck

def ScreenedCheck.targetCurrent (check : ScreenedCheck) (job : JobPosting) : Bool :=
  check.target.url = job.applyUrl && check.target.location = job.location &&
    check.target.title = some job.title

/-- **`screening`**: `evaluate` as the API calls it. -/
def screening (profile : Option Requirements) (now : Time) (row : ScreenedJob) : Screened :=
  evaluate U profile (row.check.bind ScreenedCheck.projection) row.job.jobType
    (row.check.map ScreenedCheck.status) (row.check.bind ScreenedCheck.verifiedAt) now
    row.job.isClosed (row.check.any (·.targetCurrent row.job)) row.immigrationRecords

/-! ## `bucket_expression` -/

namespace ScreenedJob

variable (row : ScreenedJob)

/-- The column `EvidenceCheck.projection`. -/
def data : Option Projection := row.check.bind ScreenedCheck.projection

/-- `data["restrictions"][key]["value"]`. -/
def restrictionColumn (key : RestrictionKind) : Option RestrictionValue :=
  (row.data.bind fun data => data.restrictions key).map Restriction.value

/-- `coalesce(data["policies"][key]["value"], "unknown")`. -/
def policyColumn (key : PolicyKind) : Option PolicyValue :=
  Sql.coalesce ((row.data.bind fun data => data.policies key).map PolicyFact.value) .unknown

/-- The rows of `data["compensation"]`. -/
def payRows : List ScreenedPay := (row.data.map Projection.compensation).getD []

/-- `_company_has_recent_h1b`. -/
def companyHasRecentH1b : Sql.Truth :=
  Sql.exists_ (Sql.filter row.immigrationRecords fun r => Sql.and_
    [Sql.in_ r.kind h1bKinds, Sql.compare (some r.year) (minActiveH1bYear ≤ ·),
      Sql.compare (some r.count) (1 ≤ ·)])

/-- `fresh`. -/
def fresh (now : Time) : Sql.Truth := Sql.and_
  [Sql.eq (row.check.map ScreenedCheck.status) (some .complete),
    Sql.eq (row.data.map Projection.extractionVersion) (some extractorVersion),
    Sql.compare (row.check.bind ScreenedCheck.verifiedAt) (now - hours 24 < ·),
    Sql.eq (row.check.map fun check => check.target.url) (some row.job.applyUrl),
    Sql.eq (row.check.map fun check => check.target.location) (some row.job.location),
    Sql.eq (row.check.bind fun check => check.target.title) (some row.job.title),
    Sql.isTrue (row.data.map Projection.usRole)]

end ScreenedJob

/-- Conditions for a failure and for a review. -/
structure Conditions where
  failures : List Sql.Truth
  reviews : List Sql.Truth

def Conditions.append (a b : Conditions) : Conditions :=
  ⟨a.failures ++ b.failures, a.reviews ++ b.reviews⟩

def restrictionConditions (profile : Requirements) (row : ScreenedJob) : Conditions :=
  if profile.needsWorkAuth then
    { failures := [Sql.or_
        [Sql.eq (row.restrictionColumn .citizenshipRequired) (some .required),
          Sql.eq (row.restrictionColumn .permanentAuthorizationRequired) (some .required)]]
      reviews := RestrictionKind.all.map fun key => Sql.and_
        [Sql.isNotNull (row.restrictionColumn key),
          Sql.ne (row.restrictionColumn key) (some .required)] }
  else ⟨[], []⟩

def authorizationConditions (profile : Requirements) (row : ScreenedJob) : Conditions :=
  match profile.policy with
  | none => ⟨[], []⟩
  | some key =>
    { failures := [Sql.eq (row.policyColumn key) (some .denied)]
      reviews := [Sql.notIn (row.policyColumn key) [.allowed, .denied]] }

def sponsorshipConditions (profile : Requirements) (row : ScreenedJob) : Conditions :=
  if profile.futureSponsorship then
    let futureVal := row.policyColumn .futureSponsorship
    let sponsVal := row.policyColumn .sponsorship
    let has_restriction := Sql.or_
      [Sql.isNotNull (row.restrictionColumn .citizenshipRequired),
        Sql.isNotNull (row.restrictionColumn .permanentAuthorizationRequired)]
    let futureFailed := Sql.or_
      [Sql.eq futureVal (some .denied),
        Sql.and_ [Sql.eq futureVal (some .unknown), Sql.eq sponsVal (some .denied)]]
    let futureSatisfied := Sql.or_
      [Sql.eq futureVal (some .allowed),
        Sql.and_ [Sql.eq futureVal (some .unknown), Sql.not_ has_restriction,
          Sql.or_ [Sql.eq sponsVal (some .allowed),
            Sql.and_ [Sql.eq sponsVal (some .unknown), row.companyHasRecentH1b]]]]
    { failures := [futureFailed]
      reviews := [Sql.and_ [Sql.not_ futureFailed, Sql.not_ futureSatisfied]] }
  else ⟨[], []⟩

def locationConditions (profile : Requirements) (row : ScreenedJob) : Conditions :=
  if !(profile.accepted U).isEmpty then
    { failures := []
      reviews := [Sql.notIn (Sql.coalesce (row.data.map Projection.locationKey) [])
        (profile.accepted U)] }
  else ⟨[], []⟩

/-- The rows of pay that a floor of a category is compared with. -/
def comparable (profile : Requirements) (kind : JobType) (row : ScreenedJob) : List ScreenedPay :=
  Sql.filter row.payRows fun pay => Sql.and_
    ([Sql.eq (some pay.component) (some .base), Sql.eq (some pay.interval) (some kind.period),
      Sql.eq (some pay.currency) (some profile.currency), Sql.isTrue (some pay.us)] ++
    (if !(profile.accepted U).isEmpty then
      [Sql.in_ (some pay.locationKey) (profile.accepted U)] else []) ++
    [Sql.isNotNull pay.amount])

/-- The conditions of the floor of a category, for a posting of that category. -/
def payConditions (profile : Requirements) (kind : JobType) (row : ScreenedJob) : Conditions :=
  match profile.floorFor kind with
  | none => ⟨[], []⟩
  | some floor =>
    let rows := comparable U profile kind row
    let meets := Sql.exists_ (Sql.filter rows fun pay => Sql.compare pay.amount (floor.value ≤ ·))
    let unbounded := Sql.exists_ (Sql.filter rows fun pay => Sql.isNull pay.maximum)
    let conflict := Sql.coalesce (row.data.map Projection.payConflicting) false
    let ofKind := Sql.eq (some row.job.jobType) (some kind)
    { failures := [Sql.and_ [ofKind, Sql.exists_ rows, Sql.not_ meets, Sql.not_ unbounded,
        Sql.not_ conflict]]
      reviews := [Sql.and_ [ofKind, Sql.or_ [conflict, Sql.not_ (Sql.exists_ rows),
        Sql.and_ [Sql.not_ meets, unbounded]]]] }

/-- All the conditions of a profile. -/
def screeningConditions (profile : Requirements) (row : ScreenedJob) : Conditions :=
  (((((restrictionConditions profile row).append (authorizationConditions profile row)).append
    (sponsorshipConditions profile row)).append (locationConditions U profile row)).append
    (payConditions U profile .internship row)).append (payConditions U profile .newGrad row)

/-- **`bucket_expression`**. -/
def bucketExpression (profile : Option Requirements) (now : Time) (row : ScreenedJob) : Bucket :=
  match profile.filter Requirements.configured with
  | none => Sql.case_ [(some row.job.isClosed, .excluded)] .review
  | some profile =>
    let conditions := screeningConditions U profile row
    Sql.case_
      [(some row.job.isClosed, .excluded),
        (Sql.not_ (Sql.coalesce (row.fresh now) false), .review),
        (Sql.coalesce (Sql.or_ conditions.failures) false, .excluded),
        (Sql.coalesce (Sql.or_ conditions.reviews) false, .review)]
      .matches

end JobPing
