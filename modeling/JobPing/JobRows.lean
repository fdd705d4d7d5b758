import JobPing.Repository

/-!
# One job at a time

The rows of one logical job, and what a write does to them. Both write paths touch a job only
through `deliverJob`: its posting is inserted or overwritten (`upsertRows`), then its latest
occurrence, details, provenance, events and status log follow (`writeEffects`). The tables of
`Repository` refine this machine (`Refinement`), and the concurrent workers run its two halves as
separate steps.
-/

namespace JobPing

/-- The rows of the tables that belong to one posting. -/
structure JobRows where
  posting : JobPosting
  occurrences : List JobOccurrence
  observations : List JobSourceObservation
  events : List DiscoveryEvent
  statusLogs : List StatusLog
  deriving DecidableEq

/-- The two write paths. -/
inductive WritePath
  | single
  | bulk
  deriving DecidableEq

/-- The ids a write works with: its company and the next values of the two sequences. -/
structure WriteIds where
  company : ℕ
  posting : ℕ
  occurrence : ℕ

variable (cfg : Config) (S : Services) (path : WritePath)

/-- The latest occurrence of the job with its identities. -/
def JobRows.evidence (rows : JobRows) : Option OccurrenceEvidence :=
  rows.occurrences.getLast?.map fun occurrence =>
    (occurrence, occurrenceIdentities S occurrence rows.observations)

/-- The lifecycle decision on an observation of a job. -/
def decision (base : Option JobRows) (job : NormalizedJob) : OccurrenceDecision :=
  decideOccurrence S job (job.source.getD []) (base.map (·.posting)) (base.bind (·.evidence S))

/-- The candidate an observation is turned into. -/
def candidate (base : Option JobRows) (job : NormalizedJob) : NormalizedJob :=
  prepareCandidate S job (decision S base job) (base.map (·.posting))

/-- The posting write: insert, or the path's way of overwriting the stored row. -/
def upsertRows (posting_id : ℕ) (reposted : Bool) (values : PostingValues)
    (base : Option JobRows) : JobRows :=
  match base with
  | none =>
    { posting := values.insert posting_id
      occurrences := []
      observations := []
      events := []
      statusLogs := [] }
  | some rows =>
    { rows with
      posting := match path with
        | .single => rows.posting.assign values
        | .bulk => rows.posting.conflictUpdate reposted values }

/-- The transition of the path. -/
def transition (old : Option JobPosting) (posting : JobPosting)
    (currentOccurrence : Option JobOccurrence) (job : NormalizedJob) : OccurrenceStep :=
  match path with
  | .single => singleTransition S old posting currentOccurrence job
  | .bulk => bulkTransition S old posting currentOccurrence job

/-- The flag the outcome and the status entry compare with: the stored posting's in the single-row
path, the latest occurrence's in the bulk path. -/
def previouslyClosed (old : Option JobPosting) (currentOccurrence : Option JobOccurrence) :
    Option Bool :=
  match path with
  | .single => some (old.any (·.isClosed))
  | .bulk =>
    match currentOccurrence with
    | some occurrence => some occurrence.closedAt.isSome
    | none => old.map (·.isClosed)

/-- Whether the write reports `NEW_ROLE`. -/
def created (old : Option JobPosting) (currentOccurrence : Option JobOccurrence) : Bool :=
  match path with
  | .single => old.isNone
  | .bulk => old.isNone && currentOccurrence.isNone

/-- Whether the path sees a change of the content hash. -/
def contentChanged (old : Option JobPosting) (posting : JobPosting) : Bool :=
  match path with
  | .single => false
  | .bulk => old.any fun old => old.contentHash ≠ posting.contentHash

/-- The status entry of the path. -/
def pathStatusValues (posting : JobPosting) (occurrenceWasClosed : Option Bool) :
    List StatusLog :=
  match path with
  | .single => []
  | .bulk => statusValues posting occurrenceWasClosed

/-- The occurrences with the latest one written. -/
def OccurrenceStep.place (step : OccurrenceStep) (occurrences : List JobOccurrence)
    (occurrence : JobOccurrence) : List JobOccurrence :=
  match step with
  | create _ _ _ => occurrences ++ [occurrence]
  | _ => occurrences.dropLast ++ [occurrence]

/-- The details of the observation merged into the occurrence, if they are at all: the outer
`none` is the exception, the inner one leaves the details alone. -/
def detailsUpdate (occurrence : JobOccurrence) (observation : NormalizedJob) :
    Option (Option (Option JobDetails)) :=
  if occurrence.closedAt.isSome && !observation.isClosed then some none
  else (mergeDetails occurrence.details observation.details).map some

/-- Everything a write does after the posting: latest occurrence, details, provenance, event,
status entry and outcome. -/
def writeEffects (occurrenceId : ℕ) (rows : JobRows) (old : Option JobPosting)
    (normalized observation : NormalizedJob) : Option (JobRows × DeduplicationState) :=
  let current := rows.occurrences.getLast?
  let step := transition S path old rows.posting current normalized
  let occurrence := step.occurrence S occurrenceId rows.posting normalized
  let wasClosed := previouslyClosed path old current
  (detailsUpdate occurrence observation).map fun details =>
    ({ posting := { rows.posting with details := details.getD rows.posting.details }
       occurrences := step.place rows.occurrences
         { occurrence with details := details.getD occurrence.details }
       observations := (sourceObservationValues S rows.posting occurrence observation).foldl
         (fun t row => Table.upsert JobSourceObservation.conflicts row t) rows.observations
       events := if cfg.suppressNotifications then rows.events
         else rows.events ++ step.eventRows rows.posting occurrence
       statusLogs := rows.statusLogs ++ pathStatusValues path rows.posting wasClosed },
      stateForPersistence (created path old current) step.createdRepost wasClosed
        rows.posting.isClosed (contentChanged path old rows.posting))

/-- The write of a candidate prepared against `old` over the rows now stored. -/
def writeJob (ids : WriteIds) (base : Option JobRows) (old : Option JobPosting)
    (normalized observation : NormalizedJob) : Option (JobRows × DeduplicationState) :=
  writeEffects cfg S path ids.occurrence
    (upsertRows path ids.posting (normalized.occurrenceKind = some .reposted)
      (PostingValues.of ids.company (effectiveJob S normalized old)) base)
    old normalized observation

/-- **One delivery** of an observation, decided on the rows it is written over. -/
def deliverJob (ids : WriteIds) (base : Option JobRows) (job : NormalizedJob) :
    Option (JobRows × DeduplicationState) :=
  writeJob cfg S path ids base (base.map (·.posting)) (candidate S base job) job

/-! ## The rows of a job in the tables -/

/-- The rows that belong to a posting. -/
def Db.rowsOf (db : Db) (posting : JobPosting) : JobRows where
  posting := posting
  occurrences := db.occurrencesOf posting.id
  observations := Table.rowsOf JobSourceObservation.jobId posting.id db.jobSourceObservations
  events := Table.rowsOf DiscoveryEvent.jobId posting.id db.notificationEvents
  statusLogs := Table.rowsOf StatusLog.jobId posting.id db.statusLogs

/-- The rows of the job with a base hash. -/
def Db.job (db : Db) (baseHash : Digest) : Option JobRows :=
  (db.postingByHash baseHash).map db.rowsOf

end JobPing
