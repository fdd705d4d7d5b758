import JobPing.Dict
import JobPing.EvidenceFacts
import JobPing.Notifications
import JobPing.Refinement

/-!
# The evidence store

`app/evidence/store.py`: `enqueue` coalesces requests for the check of an occurrence into one row,
`claim` leases the row to a worker, and `finish` publishes what the worker found if its token is
still the lease of the row. The names of companies, the digests of JSON texts and the columns of
`evidence_documents` that make a revision unique are all that is kept of what surrounds them.
-/

namespace JobPing

/-! ## Rows -/

/-- A row of `evidence_checks`; `EvidenceCheck` has the columns that ingestion reads. -/
structure EvidenceRow where
  occurrenceId : ℕ
  target : Target
  status : CheckStatus
  requestedAt : Time
  availableAt : Time
  leaseToken : Option Str
  leaseUntil : Option Time
  checkedAt : Option Time
  verifiedAt : Option Time
  projection : Option Projection
  documentIds : List ℕ
  ingestionChecksums : List (Str × Str)
  errorCode : Option Str
  attempts : ℕ

/-- A row of `evidence_documents`. -/
structure StoredDocument where
  id : ℕ
  occurrenceId : ℕ
  sourceUrl : Str
  checksum : Str

/-- What surrounds the store. -/
structure EvidenceEnv where
  rules : TextRules
  companyName : ℕ → Str
  /-- The digest of `semantic(details)`. -/
  fingerprint : Option JobDetails → Str
  /-- The digest of the text and the structured pay of a document. -/
  checksum : Document → Str

/-- The posting of an id. -/
def Db.postingById (db : Db) (id : ℕ) : Option JobPosting := db.jobPostings.find? (·.id = id)

/-- The occurrence of an id. -/
def Db.occurrenceById (db : Db) (id : ℕ) : Option JobOccurrence :=
  db.jobOccurrences.find? (·.id = id)

/-- The tables. The checks have their own one; the one of ingestion stays empty. -/
structure EvidenceStore where
  db : Db
  checks : List EvidenceRow
  documents : List StoredDocument

namespace EvidenceStore

variable (w : EvidenceStore)

def check (occurrenceId : ℕ) : Option EvidenceRow :=
  w.checks.find? (·.occurrenceId = occurrenceId)

def updateCheck (occurrenceId : ℕ) (f : EvidenceRow → EvidenceRow) : EvidenceStore :=
  { w with
    checks := w.checks.map fun check =>
      if check.occurrenceId = occurrenceId then f check else check }

end EvidenceStore

variable (S : Services) (E : EvidenceEnv)

/-! ## `enqueue` -/

/-- `target_for`, with the name of the company. -/
def targetFor (company : Str) (job : JobPosting) (occurrence : JobOccurrence) : Target where
  url := job.applyUrl
  location := job.location
  company := company
  title := some job.title
  identity := (S.stablePostingIdentity occurrence.source occurrence.sourceId job.applyUrl).or
    (explicitIdentity occurrence.identityNamespace occurrence.externalJobId)

/-- The row that `enqueue` inserts. -/
def EvidenceRow.inserted (occurrenceId : ℕ) (target : Target) (now : Time) : EvidenceRow where
  occurrenceId := occurrenceId
  target := target
  status := .queued
  requestedAt := now
  availableAt := now
  leaseToken := none
  leaseUntil := none
  checkedAt := none
  verifiedAt := none
  projection := none
  documentIds := []
  ingestionChecksums := []
  errorCode := none
  attempts := 0

/-- The sources whose observations are compared with the last one. -/
def recognized : List Str :=
  ["greenhouse".toList, "lever".toList, "workday".toList, "amazon".toList, "meta".toList,
    "simplify".toList, "github_markdown".toList, "applyguy_internships".toList,
    "applyguy_new_grad".toList]

/-- What is asked of `enqueue`. -/
structure EnqueueRequest where
  now : Time
  refresh : Bool
  invalidate : Bool
  observationSource : Option Str
  observationDetails : Option JobDetails

namespace EvidenceRow

variable (check : EvidenceRow)

/-- The recognized source of a request with a new observation. -/
def newObservation (request : EnqueueRequest) : Option Str :=
  (request.observationSource.filter (· ∈ recognized)).filter fun source =>
    Dict.get? source check.ingestionChecksums ≠ some (E.fingerprint request.observationDetails)

/-- `invalidate` after the comparison of the observation. -/
def invalidated (request : EnqueueRequest) : Bool :=
  if request.observationSource.any (· ∈ recognized) then
    (check.newObservation E request).isSome
  else request.invalidate

def observed (request : EnqueueRequest) : EvidenceRow :=
  match check.newObservation E request with
  | none => check
  | some source => { check with
      ingestionChecksums := Dict.set source (E.fingerprint request.observationDetails)
        check.ingestionChecksums }

def active (now : Time) : Bool :=
  check.status = .queued || check.status = .running && check.leaseUntil.any (now < ·)

/-- The row goes back to the queue, and loses its lease. -/
def requeued (target : Target) (now : Time) : EvidenceRow :=
  { check with
    target := target
    status := .queued
    requestedAt := now
    availableAt := now
    leaseToken := none
    leaseUntil := none
    errorCode := none }

/-- The locked row of `enqueue`. -/
def enqueued (target : Target) (request : EnqueueRequest) : EvidenceRow :=
  let expired := check.verifiedAt.all (· ≤ request.now - hours 24)
  let recent := check.verifiedAt.any (request.now - hours 1 < ·)
  if check.target ≠ target || check.invalidated E request ||
      (!check.active request.now && check.availableAt ≤ request.now &&
        (expired || request.refresh && !recent)) then
    (check.observed E request).requeued target request.now
  else check.observed E request

end EvidenceRow

/-- **`enqueue`**. -/
def EvidenceStore.enqueue (w : EvidenceStore) (job : JobPosting) (occurrence : JobOccurrence)
    (request : EnqueueRequest) : EvidenceStore :=
  if job.isClosed || occurrence.closedAt.isSome then w
  else
    let target := targetFor S (E.companyName job.companyId) job occurrence
    let w := if w.checks.any (·.occurrenceId = occurrence.id) then w
      else { w with checks := w.checks ++ [.inserted occurrence.id target request.now] }
    w.updateCheck occurrence.id fun check => check.enqueued E target request

/-! ## Ingestion -/

/-- One posting of an ingestion transaction, with the values that the transaction has for it. What
they were computed from may be older than the rows that they are saved over. -/
structure IngestedRow where
  path : WritePath
  /-- The posting that was read. -/
  old : Option JobPosting
  companyName : Option Str
  reposted : Bool
  values : PostingValues
  normalized : NormalizedJob
  observation : NormalizedJob

/-- The two ways of saving the values over a stored posting. -/
def IngestedRow.update (row : IngestedRow) (posting : JobPosting) : JobPosting :=
  match row.path with
  | .single => posting.assign row.values
  | .bulk => posting.conflictUpdate row.reposted row.values

variable (cfg : Config)

/-- A verified check covers the posting as it stands. -/
def EvidenceStore.verified (w : EvidenceStore) (posting : JobPosting) (occurrence : JobOccurrence) :
    Bool :=
  (w.check occurrence.id).any fun check =>
    check.verifiedAt.isSome && check.target.url = posting.applyUrl &&
      check.target.location = posting.location && check.target.title = some posting.title

/-- `_merge_job_details`, with the whole rows of the checks. -/
def EvidenceStore.mergeJobDetails (w : EvidenceStore) (posting : JobPosting)
    (occurrence : JobOccurrence) (observation : NormalizedJob) :
    Except RepositoryError (Db × JobPosting) :=
  if cfg.evidenceWorkerEnabled && w.verified posting occurrence then .ok (w.db, posting)
  else w.db.mergeJobDetails cfg posting occurrence observation

/-- The tables after the posting and its latest occurrence are written, and the two rows. -/
def IngestedRow.write (row : IngestedRow) (db : Db) : Db × JobPosting × JobOccurrence :=
  let (db, posting) := db.putPosting (db.postingByHash row.values.baseHash) row.values row.update
  let step := transition S row.path row.old posting (db.latestOccurrence posting.id) row.normalized
  let occurrence := step.occurrence S db.jobOccurrenceSeq posting row.normalized
  (db.writeOccurrence step occurrence, posting, occurrence)

/-- What `_enqueue_evidence` asks for. -/
def IngestedRow.request (row : IngestedRow) (now : Time) : EnqueueRequest where
  now := now
  refresh := false
  invalidate := false
  observationSource := row.observation.source
  observationDetails := row.observation.details

/-- The ingestion of one posting: the posting, its latest occurrence, the details and the check. -/
def EvidenceStore.ingest (w : EvidenceStore) (row : IngestedRow) (now : Time) :
    Except RepositoryError EvidenceStore :=
  let db := row.companyName.elim w.db w.db.insertCompany
  if !db.hasCompany row.values.companyId then .error .integrityError
  else
    let written := row.write S db
    let w := { w with db := written.1 }
    match w.mergeJobDetails cfg written.2.1 written.2.2 row.observation with
    | .error e => .error e
    | .ok (db, posting) =>
      let w := { w with db := db }
      if cfg.evidenceWorkerEnabled then
        .ok (w.enqueue S E posting written.2.2 (row.request now))
      else .ok w

/-! ## `claim` -/

/-- What a worker gets. -/
structure EvidenceClaim where
  occurrenceId : ℕ
  token : Str
  target : Target
  deriving DecidableEq

/-- A row that may be claimed. -/
def EvidenceRow.eligible (now : Time) (check : EvidenceRow) : Bool :=
  check.availableAt ≤ now && (check.status = .queued ||
    check.status = .running && check.leaseUntil.any (· ≤ now))

def EvidenceRow.leased (token : Str) (now : Time) (check : EvidenceRow) : EvidenceRow :=
  { check with
    status := .running
    leaseToken := some token
    leaseUntil := some (now + seconds 90)
    attempts := check.attempts + 1 }

/-- **`claim`**: the first row that may be claimed and that no other transaction has locked. -/
def EvidenceStore.claim (w : EvidenceStore) (locked : ℕ → Bool) (now : Time) (token : Str) :
    EvidenceStore × Option EvidenceClaim :=
  let rows := (w.checks.filter fun check =>
    check.eligible now && !locked check.occurrenceId).insertionSort fun a b =>
      a.requestedAt < b.requestedAt ||
        a.requestedAt = b.requestedAt && a.occurrenceId ≤ b.occurrenceId
  match rows.head? with
  | none => (w, none)
  | some row => (w.updateCheck row.occurrenceId (·.leased token now),
      some ⟨row.occurrenceId, token, row.target⟩)

/-! ## `finish` -/

/-- `semantic(details)`: the details without the times of their observations. -/
def JobDetails.semantic (details : JobDetails) : JobDetails where
  policies key := (details.policies key).map fun fact => { fact with
    evidence := fact.evidence.map fun item => { item with observedAt := 0 }
    bounded := by
      rw [List.length_map]
      exact fact.bounded
    supported_value := by simpa using fact.supported_value }
  compensation := details.compensation.map fun pay => { pay with observedAt := 0 }
  bounded := by
    rw [List.length_map]
    exact details.bounded

/-- A worker's transaction: its claim, and the rows that it has loaded. A row that is loaded stays as
it was when it is selected again. -/
structure EvidenceSession where
  claim : EvidenceClaim
  occurrence : Option JobOccurrence
  job : Option JobPosting
  deriving DecidableEq

/-- A document of the result, stored if its revision is new; its id. -/
def storeDocument (occurrenceId : ℕ) (stored : List StoredDocument × List ℕ)
    (document : Document) : List StoredDocument × List ℕ :=
  match stored.1.find? fun row => row.occurrenceId = occurrenceId &&
      row.sourceUrl = document.sourceUrl && row.checksum = E.checksum document with
  | some row => (stored.1, stored.2 ++ [row.id])
  | none => (stored.1 ++ [⟨stored.1.length, occurrenceId, document.sourceUrl,
      E.checksum document⟩], stored.2 ++ [stored.1.length])

/-- The errors that block a check without documents. -/
def blockingErrors : List Str :=
  ["verification_barrier".toList, "employer_not_reviewed".toList, "identity_mismatch".toList,
    "role_scope_unverified".toList]

namespace EvidenceRow

variable (check : EvidenceRow)

/-- The row of a check whose posting has changed. -/
def blocked (now : Time) : EvidenceRow :=
  { check with
    status := .blocked
    errorCode := some "target_changed".toList
    leaseToken := none
    leaseUntil := none
    availableAt := now + hours 1 }

/-- The row of an incomplete result. -/
def incomplete (now : Time) (error : Option Str) (stated : Bool) (data : Projection)
    (ids : List ℕ) : EvidenceRow :=
  { check with
    checkedAt := some now
    leaseToken := none
    leaseUntil := none
    status := if stated then .partial_
      else if error.any (· ∈ blockingErrors) then .blocked else .failed
    errorCode := if truthy error then error else some "incomplete_documents".toList
    availableAt := now + hours 1
    projection := if check.projection.isNone && stated then some data else check.projection
    documentIds := if check.projection.isNone && stated then ids else check.documentIds }

/-- The row of a complete result. -/
def completed (now : Time) (data : Projection) (ids : List ℕ) : EvidenceRow :=
  { check with
    checkedAt := some now
    leaseToken := none
    leaseUntil := none
    projection := some data
    documentIds := ids
    status := .complete
    errorCode := none
    verifiedAt := some now
    availableAt := now }

end EvidenceRow

namespace EvidenceStore

variable (w : EvidenceStore)

/-- The details of a posting and of its occurrence. -/
def setDetails (jobId occurrenceId : ℕ) (details : JobDetails) : EvidenceStore :=
  { w with
    db := { w.db with
      jobPostings := w.db.jobPostings.map fun job =>
        if job.id = jobId then { job with details := some details } else job
      jobOccurrences := w.db.jobOccurrences.map fun occurrence =>
        if occurrence.id = occurrenceId then { occurrence with details := some details }
        else occurrence } }

/-- The end of `finish`, for the lease of a check whose target is current. -/
def publish (session : EvidenceSession) (job : JobPosting) (documents : List Document) (now : Time)
    (error : Option Str) : EvidenceStore :=
  let occurrenceId := session.claim.occurrenceId
  let stored := documents.foldl (storeDocument E occurrenceId) (w.documents, [])
  let w := { w with documents := stored.1 }
  let data := projection E.rules S.text (reconcile (extracted E.rules documents))
    session.claim.target.location
  if truthy error || documents.isEmpty || !documents.all (·.complete) then
    w.updateCheck occurrenceId fun check =>
      check.incomplete now error (!documents.isEmpty) data stored.2
  else
    let w := w.updateCheck occurrenceId fun check => check.completed now data stored.2
    if job.details.map JobDetails.semantic ≠ some data.details.semantic then
      w.setDetails job.id occurrenceId data.details
    else w

/-- What `finish` compares with the target, from the loaded rows and the company of the locked
one. -/
def targetCurrent (session : EvidenceSession) (row job : JobPosting) (occurrence : JobOccurrence)
    (check : EvidenceRow) : Bool :=
  ((w.db.latestOccurrence job.id).any fun latest => latest.id = session.claim.occurrenceId) &&
    !job.isClosed && occurrence.closedAt.isNone &&
    session.claim.target = targetFor S (E.companyName row.companyId) job occurrence &&
    check.target = session.claim.target

/-- **`finish`**: whether the result was saved. The transaction holds the locks of the posting and of
the check from before the test until it commits. -/
def finish (session : EvidenceSession) (documents : List Document) (now : Time)
    (error : Option Str) : Except RepositoryError (EvidenceStore × Bool) :=
  match session.occurrence with
  | none => .ok (w, false)
  | some occurrence =>
    match w.db.postingById occurrence.jobId, w.check session.claim.occurrenceId with
    | some row, some check =>
      let job := session.job.getD row
      if check.leaseToken ≠ some session.claim.token || check.status ≠ .running ||
          !check.leaseUntil.any (now < ·) then .ok (w, false)
      else if !w.targetCurrent S E session row job occurrence check then
        .ok (w.updateCheck session.claim.occurrenceId (·.blocked now), false)
      else if documents.any fun document => document.roleIdentity ≠ session.claim.target then
        .error (.valueError "Evidence document target mismatch")
      else .ok (w.publish S E session job documents now error, true)
    | _, _ => .ok (w, false)

end EvidenceStore

end JobPing
