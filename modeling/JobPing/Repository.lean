import JobPing.Rows
import JobPing.Table

/-!
# The repository

The two ingestion write paths of `DatabaseRepository` in `app/db/repository.py`, over the tables of
the database: `save_job_posting_with_outcome` and `bulk_upsert_job_postings_with_outcomes`. A call
is one transaction: it returns the new tables and its results, or fails and leaves the tables as
they were (`Call.exec`). Rows are appended in the order of their sequence numbers, so "latest" is
"last". The dialect is PostgreSQL (the row order of `RETURNING` is that of `VALUES`, the foreign
key of `job_postings.company_id` is enforced) and no publisher is attached.
-/

namespace JobPing

/-- The two switches of the ingestion path. -/
structure Config where
  /-- The constructor argument, or `NOTIFICATIONS_SUPPRESS_DISCOVERY`. -/
  suppressNotifications : Bool
  /-- `EVIDENCE_WORKER_ENABLED`. -/
  evidenceWorkerEnabled : Bool

/-- The tables ingestion reads and writes, with their sequences. -/
structure Db where
  companies : List Company
  jobPostings : List JobPosting
  jobOccurrences : List JobOccurrence
  jobSourceObservations : List JobSourceObservation
  notificationEvents : List DiscoveryEvent
  statusLogs : List StatusLog
  evidenceChecks : List EvidenceCheck
  companySeq : ℕ
  jobPostingSeq : ℕ
  jobOccurrenceSeq : ℕ

/-- The empty database. -/
def Db.empty : Db where
  companies := []
  jobPostings := []
  jobOccurrences := []
  jobSourceObservations := []
  notificationEvents := []
  statusLogs := []
  evidenceChecks := []
  companySeq := 1
  jobPostingSeq := 1
  jobOccurrenceSeq := 1

inductive RepositoryError
  | valueError (message : String)
  | integrityError
  deriving DecidableEq

/-- Posting and lifecycle state established by one authoritative SQL write. -/
structure PersistedJobResult where
  posting : JobPosting
  state : DeduplicationState
  deriving DecidableEq

variable (cfg : Config) (S : Services)

/-! ## Companies -/

namespace Db

/-- `INSERT ... ON CONFLICT (name) DO UPDATE`, which leaves an existing company as it is. -/
def insertCompany (db : Db) (name : Str) : Db :=
  if db.companies.any (·.name = name) then db
  else { db with
    companies := db.companies ++ [{ id := db.companySeq, name := name }]
    companySeq := db.companySeq + 1 }

/-- The id the company statement returns for a name. -/
def companyIdOf (db : Db) (name : Str) : Option ℕ :=
  (db.companies.find? (·.name = name)).map (·.id)

/-- The company of a posting write exists: the foreign key of `job_postings`. -/
def hasCompany (db : Db) (companyId : ℕ) : Bool := db.companies.any (·.id = companyId)

end Db

/-- `upsert_company(name)`. -/
def upsertCompany (db : Db) (name : Str) : Except RepositoryError (Db × ℕ) :=
  let normalizedName := S.text.strip name
  if normalizedName = [] then .error (.valueError "company name must not be empty")
  else
    let db := db.insertCompany normalizedName
    .ok (db, (db.companyIdOf normalizedName).getD 0)

/-- The company of a single-row write. -/
def saveCompany (db : Db) (job : NormalizedJob) : Except RepositoryError (Db × ℕ) :=
  match job.companyId with
  | some companyId => .ok (db, companyId)
  | none =>
    match job.companyName with
    | none => .error (.valueError "normalized job requires company_id or company_name")
    | some companyName => upsertCompany S db companyName

/-! ## Reads -/

namespace Db

/-- `SELECT ... FROM job_postings WHERE base_hash = ?`. -/
def postingByHash (db : Db) (baseHash : Digest) : Option JobPosting :=
  db.jobPostings.find? (·.baseHash = baseHash)

/-- The occurrences of one job. -/
def occurrencesOf (db : Db) (jobId : ℕ) : List JobOccurrence :=
  Table.rowsOf JobOccurrence.jobId jobId db.jobOccurrences

/-- `_latest_occurrence`, and one entry of `_latest_occurrences_by_job_ids`. -/
def latestOccurrence (db : Db) (jobId : ℕ) : Option JobOccurrence :=
  (db.occurrencesOf jobId).getLast?

/-- One entry of `get_current_occurrence_evidence`: the last occurrence of the join of the
postings with the base hash, and the identities stored for it. -/
def currentOccurrenceEvidence (db : Db) (baseHash : Digest) : Option OccurrenceEvidence :=
  ((db.jobOccurrences.filter fun occurrence =>
      db.jobPostings.any fun posting =>
        posting.id = occurrence.jobId && posting.baseHash = baseHash).getLast?).map
    fun occurrence =>
      (occurrence, occurrenceIdentities S occurrence db.jobSourceObservations)

/-! ## Writes -/

/-- The write of one posting by the single-row path. -/
def savePosting (db : Db) (existing : Option JobPosting) (values : PostingValues) :
    Except RepositoryError (Db × JobPosting) :=
  if !db.hasCompany values.companyId then .error .integrityError
  else
    match existing with
    | none =>
      let posting := values.insert db.jobPostingSeq
      .ok ({ db with
        jobPostings := db.jobPostings ++ [posting]
        jobPostingSeq := db.jobPostingSeq + 1 }, posting)
    | some existing =>
      let posting := existing.assign values
      .ok ({ db with jobPostings := Table.replace JobPosting.id posting db.jobPostings }, posting)

/-- One row of `INSERT ... ON CONFLICT (base_hash) DO UPDATE ... RETURNING`. -/
def upsertPosting (repostedHashes : List Digest) (db : Db) (values : PostingValues) :
    Db × JobPosting :=
  match db.postingByHash values.baseHash with
  | none =>
    let posting := values.insert db.jobPostingSeq
    ({ db with
      jobPostings := db.jobPostings ++ [posting]
      jobPostingSeq := db.jobPostingSeq + 1 }, posting)
  | some stored =>
    let posting := stored.conflictUpdate (stored.baseHash ∈ repostedHashes) values
    ({ db with jobPostings := Table.replace JobPosting.id posting db.jobPostings }, posting)

/-- Write the occurrence of a lifecycle step. -/
def writeOccurrence (db : Db) (step : OccurrenceStep) (occurrence : JobOccurrence) : Db :=
  match step with
  | .create _ _ _ =>
    { db with
      jobOccurrences := db.jobOccurrences ++ [occurrence]
      jobOccurrenceSeq := db.jobOccurrenceSeq + 1 }
  | .keep _ => db
  | _ =>
    { db with jobOccurrences := Table.replace JobOccurrence.id occurrence db.jobOccurrences }

/-- `_record_source_observations`, and the observation statement of the bulk path. -/
def recordSourceObservations (db : Db) (values : List JobSourceObservation) : Db :=
  { db with
    jobSourceObservations :=
      values.foldl (fun t row => Table.upsert JobSourceObservation.conflicts row t)
        db.jobSourceObservations }

/-- `_record_discovery_rows`. -/
def recordDiscoveryRows (db : Db) (rows : List DiscoveryEvent) : Db :=
  if cfg.suppressNotifications then db
  else { db with
    notificationEvents :=
      rows.foldl (Table.insertNew fun a b => a.occurrenceId = b.occurrenceId)
        db.notificationEvents }

/-- A verified evidence check covers the posting as it stands. -/
def evidenceVerified (db : Db) (posting : JobPosting) (occurrence : JobOccurrence) : Bool :=
  db.evidenceChecks.any fun check =>
    check.occurrenceId = occurrence.id && check.verifiedAt.isSome &&
      check.target = ⟨posting.applyUrl, posting.location, posting.title⟩

/-- `_merge_job_details`; the details of the posting and of the occurrence are set together. -/
def mergeJobDetails (db : Db) (posting : JobPosting) (occurrence : JobOccurrence)
    (observation : NormalizedJob) : Except RepositoryError (Db × JobPosting) :=
  if occurrence.closedAt.isSome && !observation.isClosed then .ok (db, posting)
  else if cfg.evidenceWorkerEnabled && db.evidenceVerified posting occurrence then
    .ok (db, posting)
  else
    match mergeDetails occurrence.details observation.details with
    | none => .error (.valueError "max() iterable argument is empty")
    | some merged =>
      let occurrence := { occurrence with details := merged }
      let posting := { posting with details := merged }
      .ok ({ db with
        jobOccurrences := Table.replace JobOccurrence.id occurrence db.jobOccurrences
        jobPostings := Table.replace JobPosting.id posting db.jobPostings }, posting)

/-- `_enqueue_evidence`: an open occurrence gets a check for the posting as it stands. -/
def enqueueEvidence (db : Db) (posting : JobPosting) (occurrence : JobOccurrence) : Db :=
  if !cfg.evidenceWorkerEnabled || posting.isClosed || occurrence.closedAt.isSome then db
  else
    let target : EvidenceTarget := ⟨posting.applyUrl, posting.location, posting.title⟩
    { db with
      evidenceChecks :=
        if db.evidenceChecks.any (·.occurrenceId = occurrence.id) then
          db.evidenceChecks.map fun check =>
            if check.occurrenceId = occurrence.id then { check with target := target } else check
        else db.evidenceChecks ++
          [{ occurrenceId := occurrence.id, target := target, verifiedAt := none }] }

end Db

/-! ## The single-row path -/

/-- Persist one posting and return the lifecycle transition this write made. -/
def saveJobPostingWithOutcome (db : Db) (normalizedJob : NormalizedJob) :
    Except RepositoryError (Db × PersistedJobResult) := do
  let observation_job := normalizedJob
  let (db, companyId) ← saveCompany S db normalizedJob
  let existing := db.postingByHash normalizedJob.baseHash
  let decision := decideOccurrence S normalizedJob (normalizedJob.source.getD []) existing
    (db.currentOccurrenceEvidence S normalizedJob.baseHash)
  let normalizedJob := prepareCandidate S normalizedJob decision existing
  let values := PostingValues.of companyId (effectiveJob S normalizedJob existing)
  let (db, posting) ← db.savePosting existing values
  let step := singleTransition S existing posting (db.latestOccurrence posting.id) normalizedJob
  let currentOccurrence := step.occurrence S db.jobOccurrenceSeq posting normalizedJob
  let db := db.writeOccurrence step currentOccurrence
  let db := db.recordSourceObservations
    (sourceObservationValues S posting currentOccurrence observation_job)
  let (db, posting) ← db.mergeJobDetails cfg posting currentOccurrence observation_job
  let db := db.enqueueEvidence cfg posting currentOccurrence
  let db := db.recordDiscoveryRows cfg (step.eventRows posting currentOccurrence)
  -- `content_changed` is initialised to `False` and never assigned in this path
  let state := stateForPersistence existing.isNone step.createdRepost
    (some (existing.any (·.isClosed))) posting.isClosed false
  return (db, ⟨posting, state⟩)

/-! ## The bulk path -/

/-- What the bulk path knows about one job of the batch before its upsert. -/
structure BatchRow where
  observation : NormalizedJob
  old : Option JobPosting
  normalized : NormalizedJob
  values : PostingValues

/-- The company of a batch row: its own id, or the id returned for its name. -/
def Db.batchCompanyId (db : Db) (job : NormalizedJob) : ℕ :=
  match job.companyId with
  | some companyId => companyId
  | none => (db.companyIdOf (S.text.strip (job.companyName.getD []))).getD 0

/-- Pre-read, decision and effective values of one job. -/
def planRow (db : Db) (job : NormalizedJob) : BatchRow :=
  let old := db.postingByHash job.baseHash
  let decision := decideOccurrence S job (job.source.getD []) old
    (db.currentOccurrenceEvidence S job.baseHash)
  let normalized := prepareCandidate S job decision old
  { observation := job
    old := old
    normalized := normalized
    values := PostingValues.of (db.batchCompanyId S normalized) (effectiveJob S normalized old) }

/-- The multi-row upsert, with the returned postings. -/
def Db.upsertPostings (repostedHashes : List Digest) (db : Db) :
    List BatchRow → Db × List (BatchRow × JobPosting)
  | [] => (db, [])
  | row :: rows =>
    let (db, posting) := db.upsertPosting repostedHashes row.values
    let (db, persisted) := db.upsertPostings repostedHashes rows
    (db, (row, posting) :: persisted)

/-- The loop over the persisted postings: the tables and the values it collects. -/
structure BatchState where
  db : Db
  statusValues : List StatusLog
  eventValues : List DiscoveryEvent
  sourceValues : List JobSourceObservation
  resultByHash : List (Digest × PersistedJobResult)

/-- One round of the loop; `current_occurrence` was read before it. -/
def writeRow (state : BatchState) (row : BatchRow) (posting : JobPosting)
    (currentOccurrence : Option JobOccurrence) : Except RepositoryError BatchState := do
  let old := row.old
  let normalized := row.normalized
  let occurrenceWasClosed :=
    match currentOccurrence with
    | some occurrence => some occurrence.closedAt.isSome
    | none => old.map (·.isClosed)
  let wasCreated := old.isNone && currentOccurrence.isNone
  let step := bulkTransition S old posting currentOccurrence normalized
  let occurrence := step.occurrence S state.db.jobOccurrenceSeq posting normalized
  let db := state.db.writeOccurrence step occurrence
  let (db, posting) ← db.mergeJobDetails cfg posting occurrence row.observation
  let db := db.enqueueEvidence cfg posting occurrence
  let contentChanged := old.any fun old => old.contentHash ≠ posting.contentHash
  let outcome := stateForPersistence wasCreated step.createdRepost occurrenceWasClosed
    posting.isClosed contentChanged
  return {
    db := db
    statusValues := state.statusValues ++ statusValues posting occurrenceWasClosed
    eventValues := state.eventValues ++ step.eventRows posting occurrence
    sourceValues := state.sourceValues ++
      sourceObservationValues S posting occurrence row.observation
    resultByHash := state.resultByHash ++ [(posting.baseHash, ⟨posting, outcome⟩)] }

/-- The loop over the persisted postings. -/
def writeRows (state : BatchState) :
    List (BatchRow × JobPosting × Option JobOccurrence) → Except RepositoryError BatchState
  | [] => .ok state
  | (row, posting, currentOccurrence) :: rows => do
    let state ← writeRow cfg S state row posting currentOccurrence
    writeRows state rows

/-- The multi-row statements after the loop. -/
def BatchState.flush (state : BatchState) : Db :=
  (({ state.db with statusLogs := state.db.statusLogs ++ state.statusValues }
    ).recordSourceObservations state.sourceValues).recordDiscoveryRows cfg state.eventValues

/-- The names the company statement of a batch inserts. -/
def batchCompanyNames (jobs : List NormalizedJob) : List Str :=
  jobs.filterMap fun job =>
    if job.companyId.isNone then job.companyName.map S.text.strip else none

/-- Upsert a batch with one company statement and one posting statement. -/
def bulkUpsertJobPostingsWithOutcomes (db : Db) (jobs : List NormalizedJob) :
    Except RepositoryError (Db × List PersistedJobResult) := do
  if jobs.isEmpty then return (db, [])
  let hashes := jobs.map (·.baseHash)
  if ¬ hashes.Nodup then
    throw (.valueError "bulk job upsert requires unique base hashes")
  if jobs.any fun job => job.companyId.isNone && job.companyName.isNone then
    throw (.valueError "normalized job requires company_id or company_name")
  let db := (batchCompanyNames S jobs).foldl Db.insertCompany db
  let rows := jobs.map (planRow S db)
  let repostedHashes :=
    (rows.filter (·.normalized.occurrenceKind = some .reposted)).map (·.normalized.baseHash)
  if rows.any fun row => !db.hasCompany row.values.companyId then
    throw .integrityError
  let (db, persisted) := db.upsertPostings repostedHashes rows
  let current := persisted.map fun (row, posting) => (row, posting, db.latestOccurrence posting.id)
  let state ← writeRows cfg S ⟨db, [], [], [], []⟩ current
  return (state.flush cfg,
    hashes.filterMap fun baseHash =>
      (state.resultByHash.find? (·.1 = baseHash)).map (·.2))

/-! ## Runs of calls -/

/-- A call of one of the two write paths. -/
inductive Call
  | save (job : NormalizedJob)
  | bulk (jobs : List NormalizedJob)

/-- The jobs a call delivers. -/
def Call.jobs : Call → List NormalizedJob
  | save job => [job]
  | bulk jobs => jobs

/-- The outcome of a call: the new tables and the results, or the exception. -/
def Call.run (db : Db) : Call → Except RepositoryError (Db × List PersistedJobResult)
  | save job => (saveJobPostingWithOutcome cfg S db job).map fun (db, result) => (db, [result])
  | bulk jobs => bulkUpsertJobPostingsWithOutcomes cfg S db jobs

/-- The tables after a call: an exception rolls the transaction back. -/
def Call.exec (db : Db) (call : Call) : Db :=
  match call.run cfg S db with
  | .ok (db, _) => db
  | .error _ => db

/-- The tables after a serial sequence of calls. -/
def execAll (db : Db) (calls : List Call) : Db := calls.foldl (Call.exec cfg S) db

/-- The states of the repository: every result of a serial sequence of calls. -/
def Reachable (db : Db) : Prop := ∃ calls, db = execAll cfg S Db.empty calls

end JobPing
