import JobPing.Text
import Mathlib.Data.Fintype.Pi
import Mathlib.Data.Rat.Init

/-!
# Data model

The records of `app/schemas/job.py`, `app/schemas/job_details.py` and the tables of
`app/db/models.py` that the ingestion path reads or writes. A column that no modelled function
reads is left out: `created_at`, `updated_at`, `changed_at`, `Company.domain`, the surrogate keys
of the tables nothing refers to, and the lease columns of `evidence_checks`.
-/

namespace JobPing

/-- A timezone-aware `datetime`, as an instant. -/
abbrev Time := Int

/-- A timestamp column: a time the observation reported, or the server clock at the write. The
clock is never compared with anything, so its reading is not recorded. -/
inductive Stamp
  | given (t : Time)
  | clock
  deriving DecidableEq

/-- `value or datetime.now(UTC)`. -/
def Stamp.orNow : Option Time → Stamp
  | some t => .given t
  | none => .clock

/-- A digest accepted by the pattern `^[0-9a-f]{64}$`. The `strip().lower()` the repository
applies to a base hash before looking it up is the identity on these. -/
structure Digest where
  hex : Str
  valid : hex.length = 64 ∧ hex.all (fun c => c.isDigit || ('a' ≤ c && c ≤ 'f')) = true
  deriving DecidableEq

instance lawfulBEq_digests : LawfulBEq (Digest × Digest) := inferInstance

/-- A provider-scoped posting identity, `(namespace, external id)`. -/
abbrev Identity := Str × Str

inductive JobType
  | internship
  | newGrad
  deriving DecidableEq

inductive OccurrenceKind
  | discovered
  | reposted
  deriving DecidableEq

/-- The states written to `StatusLog`. -/
inductive StatusName
  | «open»
  | closed
  deriving DecidableEq

/-- `"CLOSED" if is_closed else "OPEN"`. -/
def StatusName.ofClosed (isClosed : Bool) : StatusName := if isClosed then .closed else .«open»

@[simp] theorem StatusName.ofClosed_inj {a b : Bool} :
    StatusName.ofClosed a = StatusName.ofClosed b ↔ a = b := by
  cases a <;> cases b <;> simp [StatusName.ofClosed]

@[simp] theorem StatusName.ofClosed_eq_closed {a : Bool} :
    StatusName.ofClosed a = .closed ↔ a = true := by
  cases a <;> simp [StatusName.ofClosed]

/-- `DeduplicationState` of `app/services/deduplicator.py`. -/
inductive DeduplicationState
  | newRole
  | roleUpdated
  | roleClosed
  | roleReposted
  | noOp
  deriving DecidableEq

/-! ## Advertised job facts -/

inductive PolicyValue
  | allowed
  | denied
  | conditional
  | conflicting
  | unknown
  deriving DecidableEq

inductive PolicyKind
  | cpt
  | opt
  | stemOpt
  | sponsorship
  | futureSponsorship
  deriving DecidableEq

instance : Fintype PolicyKind where
  elems := {.cpt, .opt, .stemOpt, .sponsorship, .futureSponsorship}
  complete := by rintro (_ | _ | _ | _ | _) <;> decide

structure Evidence where
  source : Str
  sourceUrl : Str
  excerpt : Str
  observedAt : Time
  deriving DecidableEq

/-- A stated policy carries evidence; an unknown one may come without any. -/
structure PolicyFact where
  value : PolicyValue
  evidence : List Evidence
  bounded : evidence.length ≤ 10
  supported_value : value ≠ .unknown → evidence ≠ []
  deriving DecidableEq

inductive PayInterval
  | hour
  | month
  | year
  | week
  | unknown
  deriving DecidableEq

inductive PayComponent
  | base
  | total
  | unspecified
  deriving DecidableEq

structure CompensationRange extends Evidence where
  minimum : Option ℚ
  maximum : Option ℚ
  currency : Str
  interval : PayInterval
  location : Option Str
  component : PayComponent
  some_bound : minimum ≠ none ∨ maximum ≠ none
  deriving DecidableEq

/-- The validated content of a `details` column. The policies are a mapping whose keys are the
policy kinds. -/
structure JobDetails where
  policies : PolicyKind → Option PolicyFact
  compensation : List CompensationRange
  bounded : compensation.length ≤ 20
  deriving DecidableEq

theorem no_compensation_bounded : ([] : List CompensationRange).length ≤ 20 := by decide

/-- `JobDetails()`, the value `previous or {}` is validated to when nothing is stored. -/
def JobDetails.empty : JobDetails := ⟨fun _ => none, [], no_compensation_bounded⟩

/-! ## Ingestion boundary -/

/-- The canonical, database-ready representation of a job posting. `apply_url` is
`str(HttpUrl)`. -/
structure NormalizedJob where
  companyId : Option ℕ
  details : Option JobDetails
  companyName : Option Str
  title : Str
  baseHash : Digest
  contentHash : Digest
  applyUrl : Str
  location : Str
  locationSource : Option Str
  season : ℕ
  jobType : JobType
  isClosed : Bool
  postedAt : Option Time
  observedAt : Option Time
  source : Option Str
  sourceId : Option Str
  identityNamespace : Option Str
  externalJobId : Option Str
  occurrenceKind : Option OccurrenceKind
  deriving DecidableEq

/-! ## Tables -/

structure Company where
  id : ℕ
  name : Str
  deriving DecidableEq

structure JobPosting where
  id : ℕ
  companyId : ℕ
  title : Str
  baseHash : Digest
  contentHash : Digest
  applyUrl : Str
  location : Str
  locationSource : Option Str
  details : Option JobDetails
  season : ℕ
  jobType : JobType
  isClosed : Bool
  postedAt : Option Time
  deriving DecidableEq

structure JobOccurrence where
  id : ℕ
  jobId : ℕ
  kind : OccurrenceKind
  details : Option JobDetails
  observedAt : Stamp
  postedAt : Option Time
  applyUrl : Str
  identityNamespace : Option Str
  externalJobId : Option Str
  source : Option Str
  sourceId : Option Str
  previousOccurrenceId : Option ℕ
  closedAt : Option Stamp
  deriving DecidableEq

structure JobSourceObservation where
  jobId : ℕ
  occurrenceId : ℕ
  source : Str
  sourceId : Str
  identityNamespace : Option Str
  externalJobId : Option Str
  applyUrl : Str
  postedAt : Option Time
  observedAt : Stamp
  deriving DecidableEq

/-- A row of `notification_events`. -/
structure DiscoveryEvent where
  jobId : ℕ
  occurrenceId : ℕ
  eventType : OccurrenceKind
  discoveredAt : Stamp
  processed : Bool
  deriving DecidableEq

structure StatusLog where
  jobId : ℕ
  previousState : Option StatusName
  newState : StatusName
  deriving DecidableEq

/-- The part of `EvidenceCheck.target` that ingestion compares. -/
structure EvidenceTarget where
  url : Str
  location : Str
  title : Str
  deriving DecidableEq

structure EvidenceCheck where
  occurrenceId : ℕ
  target : EvidenceTarget
  verifiedAt : Option Time
  deriving DecidableEq

/-- The namespace and external id of an observation or an occurrence, when both are present. -/
def explicitIdentity (identityNamespace externalJobId : Option Str) : Option Identity :=
  if truthy identityNamespace && truthy externalJobId then
    some (identityNamespace.getD [], externalJobId.getD [])
  else none

end JobPing
