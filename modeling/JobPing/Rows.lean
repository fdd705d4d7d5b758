import JobPing.JobDetails
import JobPing.RepostClassifier

/-!
# The rows one observation writes

The row-level pieces that `save_job_posting_with_outcome` and
`bulk_upsert_job_postings_with_outcomes` of `app/db/repository.py` share or write side by side: the
effective values of a posting, the two ways of merging them into a stored row, the two lifecycle
transitions of the latest occurrence, the provenance row and the reported outcome.
-/

namespace JobPing

variable (S : Services)

/-! ## The posting -/

/-- The effective job: URL choice, hash recomputation and location reconciliation against the
posting that was read. -/
def effectiveJob (job : NormalizedJob) (existing : Option JobPosting) : NormalizedJob :=
  let incomingUrl := job.applyUrl
  let applyUrl :=
    match existing with
    | none => S.chooseCanonicalApplyUrl [] incomingUrl
    | some existing =>
      if job.occurrenceKind = some .reposted then S.canonicalizeApplyUrl incomingUrl
      else S.chooseCanonicalApplyUrl existing.applyUrl
        (S.chooseCanonicalApplyUrl [] incomingUrl)
  let contentHash :=
    if applyUrl ≠ incomingUrl ∨ S.canonicalizeApplyUrl incomingUrl ≠ incomingUrl then
      S.generateContentHash job.baseHash applyUrl job.location job.isClosed
    else job.contentHash
  reconcileLocation S { job with applyUrl := applyUrl, contentHash := contentHash }
    (existing.map (·.location)) (existing.bind (·.locationSource))

/-- The column values of one posting write. -/
structure PostingValues where
  companyId : ℕ
  title : Str
  baseHash : Digest
  contentHash : Digest
  applyUrl : Str
  location : Str
  locationSource : Option Str
  season : ℕ
  jobType : JobType
  isClosed : Bool
  postedAt : Option Time
  deriving DecidableEq

def PostingValues.of (companyId : ℕ) (effectiveJob : NormalizedJob) : PostingValues where
  companyId := companyId
  title := effectiveJob.title
  baseHash := effectiveJob.baseHash
  contentHash := effectiveJob.contentHash
  applyUrl := effectiveJob.applyUrl
  location := effectiveJob.location
  locationSource := effectiveJob.locationSource
  season := effectiveJob.season
  jobType := effectiveJob.jobType
  isClosed := effectiveJob.isClosed
  postedAt := effectiveJob.postedAt

/-- A new row. -/
def PostingValues.insert (values : PostingValues) (id : ℕ) : JobPosting where
  id := id
  companyId := values.companyId
  title := values.title
  baseHash := values.baseHash
  contentHash := values.contentHash
  applyUrl := values.applyUrl
  location := values.location
  locationSource := values.locationSource
  details := none
  season := values.season
  jobType := values.jobType
  isClosed := values.isClosed
  postedAt := values.postedAt

/-- The stored row with every column but the publication date overwritten. -/
def JobPosting.overwrite (posting : JobPosting) (values : PostingValues)
    (postedAt : Option Time) : JobPosting :=
  { posting with
    companyId := values.companyId
    title := values.title
    contentHash := values.contentHash
    applyUrl := values.applyUrl
    location := values.location
    locationSource := values.locationSource
    season := values.season
    jobType := values.jobType
    isClosed := values.isClosed
    postedAt := postedAt }

/-- The publication date the single-row path keeps: the incoming one when it is earlier. -/
def earlierPostedAt (current incoming : Option Time) : Option Time :=
  match incoming with
  | none => current
  | some postedAt =>
    match current with
    | none => some postedAt
    | some currentPostedAt =>
      if postedAt < currentPostedAt then some postedAt else some currentPostedAt

/-- The `CASE` expression `earliest_posted_at` of the bulk upsert. -/
def earliestPostedAt (stored excluded : Option Time) : Option Time :=
  match stored, excluded with
  | none, excluded => excluded
  | stored, none => stored
  | some stored, some excluded => if stored < excluded then some stored else some excluded

/-- The attribute assignments of the single-row path. -/
def JobPosting.assign (posting : JobPosting) (values : PostingValues) : JobPosting :=
  posting.overwrite values (earlierPostedAt posting.postedAt values.postedAt)

/-- The `DO UPDATE` set of the bulk upsert; `reposted` is `base_hash IN reposted_hashes`. -/
def JobPosting.conflictUpdate (posting : JobPosting) (reposted : Bool) (values : PostingValues) :
    JobPosting :=
  posting.overwrite values
    (if reposted then values.postedAt
      else earliestPostedAt posting.postedAt values.postedAt)

/-- The two paths keep the same date. -/
theorem earliest_eq_earlier (stored incoming : Option Time) :
    earliestPostedAt stored incoming = earlierPostedAt stored incoming := by
  rcases stored with _ | stored <;> rcases incoming with _ | incoming <;>
    simp only [earliestPostedAt, earlierPostedAt]
  rcases lt_trichotomy stored incoming with h | rfl | h
  · rw [if_pos h, if_neg h.not_gt]
  · simp
  · rw [if_neg h.not_gt, if_pos h]

/-- A date that was merged already is merged again without a change. -/
theorem earlierPostedAt_again (current incoming : Option Time) :
    earlierPostedAt (earlierPostedAt current incoming) incoming =
      earlierPostedAt current incoming := by
  rcases incoming with _ | incoming
  · rfl
  · rcases current with _ | current
    · simp [earlierPostedAt]
    · simp only [earlierPostedAt]
      split_ifs with h <;> simp [h]

/-! ## The latest occurrence -/

/-- What a write does to the occurrences of its job. -/
inductive OccurrenceStep
  /-- Insert an occurrence, with a discovery event when `notify`. -/
  | create (kind : OccurrenceKind) (previous : Option JobOccurrence) (notify : Bool)
  /-- Stamp `closed_at`. -/
  | close (occurrence : JobOccurrence)
  /-- Clear `closed_at`. -/
  | reopen (occurrence : JobOccurrence)
  | keep (occurrence : JobOccurrence)

/-- The `if`/`elif` chain of the single-row path. -/
def singleTransition (existing : Option JobPosting) (posting : JobPosting)
    (currentOccurrence : Option JobOccurrence) (job : NormalizedJob) : OccurrenceStep :=
  let wasClosed := existing.any (·.isClosed)
  if existing.isNone then .create .discovered none (!posting.isClosed)
  else
    match currentOccurrence with
    | none => .create .discovered none false
    | some occurrence =>
      if job.occurrenceKind = some .reposted && occurrence.closedAt.isSome &&
          !posting.isClosed && !isSameRepostOccurrence S job occurrence then
        .create .reposted (some occurrence) true
      else if !wasClosed && posting.isClosed then .close occurrence
      else if wasClosed && !posting.isClosed then .reopen occurrence
      else .keep occurrence

/-- The `if`/`elif` chain of the bulk path; `old` is the posting its pre-read found. -/
def bulkTransition (old : Option JobPosting) (posting : JobPosting)
    (currentOccurrence : Option JobOccurrence) (job : NormalizedJob) : OccurrenceStep :=
  match currentOccurrence with
  | none =>
    if old.isNone then .create .discovered none (!posting.isClosed)
    else .create .discovered none false
  | some occurrence =>
    let occurrenceWasClosed := occurrence.closedAt.isSome
    if job.occurrenceKind = some .reposted && old.isSome && occurrenceWasClosed &&
        !posting.isClosed && !isSameRepostOccurrence S job occurrence then
      .create .reposted (some occurrence) true
    else if !occurrenceWasClosed && posting.isClosed then .close occurrence
    else if occurrenceWasClosed && !posting.isClosed then .reopen occurrence
    else .keep occurrence

/-- `_create_occurrence`. -/
def newOccurrence (id : ℕ) (posting : JobPosting) (job : NormalizedJob) (kind : OccurrenceKind)
    (previous : Option JobOccurrence) : JobOccurrence where
  id := id
  jobId := posting.id
  kind := kind
  details := none
  observedAt := Stamp.orNow job.observedAt
  postedAt := job.postedAt
  applyUrl := S.canonicalizeApplyUrl job.applyUrl
  identityNamespace := job.identityNamespace
  externalJobId := job.externalJobId
  source := job.source
  sourceId := job.sourceId
  previousOccurrenceId := previous.map (·.id)
  closedAt := if posting.isClosed then some (Stamp.orNow job.observedAt) else none

/-- The latest occurrence after the step; `id` is the next value of the sequence. -/
def OccurrenceStep.occurrence (step : OccurrenceStep) (id : ℕ) (posting : JobPosting)
    (job : NormalizedJob) : JobOccurrence :=
  match step with
  | create kind previous _ => newOccurrence S id posting job kind previous
  | close occurrence => { occurrence with closedAt := some (Stamp.orNow job.observedAt) }
  | reopen occurrence => { occurrence with closedAt := none }
  | keep occurrence => occurrence

/-- The discovery event of the step. -/
def OccurrenceStep.eventRows (step : OccurrenceStep) (posting : JobPosting)
    (occurrence : JobOccurrence) : List DiscoveryEvent :=
  match step with
  | create kind _ true =>
    [{ jobId := posting.id
       occurrenceId := occurrence.id
       eventType := kind
       discoveredAt := occurrence.observedAt
       processed := false }]
  | _ => []

def OccurrenceStep.createdRepost : OccurrenceStep → Bool
  | create .reposted _ _ => true
  | _ => false

/-! ## Provenance -/

/-- The namespace and external id stored for an observation. -/
def observationIdentity (job : NormalizedJob) : Option Str × Option Str :=
  match S.stablePostingIdentity job.source job.sourceId job.applyUrl with
  | some identity => (some identity.1, some identity.2)
  | none => (job.identityNamespace, job.externalJobId)

/-- `_source_observation_values`. -/
def sourceObservationValues (posting : JobPosting) (occurrence : JobOccurrence)
    (job : NormalizedJob) : List JobSourceObservation :=
  if !truthy job.source || !truthy job.sourceId then []
  else
    [{ jobId := posting.id
       occurrenceId := occurrence.id
       source := job.source.getD []
       sourceId := job.sourceId.getD []
       identityNamespace := (observationIdentity S job).1
       externalJobId := (observationIdentity S job).2
       applyUrl := S.canonicalizeApplyUrl job.applyUrl
       postedAt := job.postedAt
       observedAt := Stamp.orNow job.observedAt }]

/-- Two observations conflict on the unique key of the table. -/
def JobSourceObservation.conflicts (a b : JobSourceObservation) : Bool :=
  a.jobId = b.jobId && a.occurrenceId = b.occurrenceId && a.source = b.source &&
    a.sourceId = b.sourceId

/-- The identities a job's evidence holds for an occurrence. -/
def occurrenceIdentities (occurrence : JobOccurrence)
    (observations : List JobSourceObservation) : List Identity :=
  (S.stablePostingIdentity occurrence.source occurrence.sourceId
      occurrence.applyUrl).toList ++
    (explicitIdentity occurrence.identityNamespace occurrence.externalJobId).toList ++
    (observations.filter (·.occurrenceId = occurrence.id)).filterMap fun observation =>
      explicitIdentity observation.identityNamespace observation.externalJobId

/-! ## The reported outcome -/

/-- `_state_for_persistence`. -/
def stateForPersistence (wasCreated createdRepost : Bool) (previousClosed : Option Bool)
    (isClosed changed : Bool) : DeduplicationState :=
  if wasCreated then .newRole
  else if createdRepost then .roleReposted
  else if previousClosed = some false && isClosed then .roleClosed
  else if previousClosed = some true && !isClosed then .roleUpdated
  else if changed then .roleUpdated
  else .noOp

/-- The status entry of the bulk path: none when the state did not change. -/
def statusValues (posting : JobPosting) (occurrenceWasClosed : Option Bool) : List StatusLog :=
  let previousState := occurrenceWasClosed.map StatusName.ofClosed
  let newState := StatusName.ofClosed posting.isClosed
  if previousState ≠ some newState then
    [{ jobId := posting.id, previousState := previousState, newState := newState }]
  else []

end JobPing
