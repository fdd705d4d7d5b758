import JobPing.Deduplicator
import JobPing.Ingestion
import JobPing.Repository

/-!
# The ATS pipeline

`app/pipelines/ats_pipeline.py`. The rows of a run are normalised and coalesced by base hash
(`AtsCandidate.collect`), previewed against the stored postings for the cache (`previewJob`), and
handed to the bulk path unreconciled (`classifyAndPersist`).
-/

namespace JobPing

variable (cfg : Config) (I : Ingestion)

/-- The arguments of `ATSPipeline(...)`. -/
structure AtsConfig where
  season : ℕ
  jobType : Option JobType

/-- A candidate of a run: the raw row that came first, and the job. -/
structure AtsCandidate where
  raw : RawJobPayload
  job : NormalizedJob
  source_eq : job.source = some raw.source

/-! ## Normalisation -/

/-- `JobType(value)`. -/
def JobType.parse (value : Option Str) : Option JobType :=
  if value = some "internship".toList then some .internship
  else if value = some "new_grad".toList then some .newGrad
  else none

/-- `_location`. -/
def RawLocation.normalized (location : RawLocation) : Str :=
  let values :=
    match location with
    | .list values => values
    | .text value => [value]
    | .missing => [[]]
  let normalized :=
    ((values.filter fun item => I.text.strip item ≠ []).map I.text.squeeze).eraseDups
  let joined := "; ".toList.intercalate normalized
  if joined = [] then "Unspecified".toList else joined

/-- `_closed`; `none` is the `ValueError`. -/
def RawClosed.parse (value : RawClosed) : Option Bool :=
  match value with
  | .bool value => some value
  | .int value => some (value = 1)
  | .text value =>
    let normalized := I.text.casefold (I.text.strip value)
    if normalized ∈ ["true", "1", "yes", "closed"].map String.toList then some true
    else if normalized ∈ ["false", "0", "no", "open", ""].map String.toList then some false
    else none
  | .missing => some false

/-- The URL `_normalize` hashes. -/
def RawJobPayload.canonicalUrl (raw : RawJobPayload) : Str :=
  I.canonicalizeApplyUrl (I.text.strip (raw.applyUrl.getD []))

/-- The fields `_normalize` gives to `NormalizedJob`. -/
def RawJobPayload.atsFields (ats : AtsConfig) (now : Time) (raw : RawJobPayload) (closed : Bool)
    (details : Option JobDetails) (jobType : JobType) : NormalizedJob :=
  let company := I.text.strip (raw.company.getD [])
  let title := I.text.strip (raw.title.getD [])
  let applyUrl := raw.canonicalUrl I
  let location := raw.location.normalized I
  let baseHash := I.generateBaseHash company title
  let observedAt := raw.observedAt.getD now
  let identity :=
    I.postingIdentity (some raw.source) raw.sourceId applyUrl raw.payload.identity
  { companyId := none
    details := details
    companyName := some company
    title := title
    baseHash := baseHash
    contentHash := I.generateContentHash baseHash applyUrl location closed
    applyUrl := applyUrl
    location := location
    locationSource := some raw.source
    season := ats.season
    jobType := jobType
    isClosed := closed
    postedAt :=
      I.parseSourcePostedAt (raw.payload.posted.getD raw.payload.datePosted) observedAt
    observedAt := some observedAt
    source := some raw.source
    sourceId := raw.sourceId
    identityNamespace := identity.map Prod.fst
    externalJobId := identity.map Prod.snd
    occurrenceKind := none }

/-- `_normalize`; `none` is a rejected row. `now` is the clock of the run. -/
def RawJobPayload.normalize (ats : AtsConfig) (now : Time) (raw : RawJobPayload) :
    Option NormalizedJob := do
  guard (I.urlParses (I.text.strip (raw.applyUrl.getD [])))
  let closed ← raw.isClosed.parse I
  guard (I.urlParses (raw.canonicalUrl I))
  let details ← I.extractJobDetails raw
  let jobType ← ats.jobType.or (JobType.parse raw.jobType)
  (raw.atsFields I ats now closed details jobType).validate I

variable {I} in
/-- A normalised row is its fields after validation. -/
theorem RawJobPayload.normalize_eq_some {ats : AtsConfig} {now : Time} {raw : RawJobPayload}
    {job : NormalizedJob} (h : raw.normalize I ats now = some job) :
    ∃ closed details jobType,
      (raw.atsFields I ats now closed details jobType).validate I = some job := by
  simp only [RawJobPayload.normalize, Option.bind_eq_bind, Option.bind_eq_some_iff] at h
  obtain ⟨-, -, closed, -, -, -, details, -, jobType, -, h⟩ := h
  exact ⟨closed, details, jobType, h⟩

theorem RawJobPayload.normalize_source {ats : AtsConfig} {now : Time} {raw : RawJobPayload}
    {job : NormalizedJob} (h : raw.normalize I ats now = some job) : job.source = some raw.source := by
  obtain ⟨closed, details, jobType, hjob⟩ := RawJobPayload.normalize_eq_some h
  rw [(NormalizedJob.validate_eq_some hjob).2]
  rfl

/-! ## The rows of a run -/

namespace AtsCandidate

/-- A later row of a candidate: its location is reconciled and its details are merged; `none` is
the exception of `merge_details`. -/
def merge (previous : AtsCandidate) (job : NormalizedJob) : Option AtsCandidate :=
  (mergeDetails previous.job.details job.details).map fun details =>
    let merged := reconcileLocation I.toServices job (some previous.job.location)
      previous.job.locationSource
    { raw := previous.raw
      job := { previous.job with
        details := some (details.getD JobDetails.empty)
        location := merged.location
        locationSource := merged.locationSource
        contentHash := I.generateContentHash previous.job.baseHash previous.job.applyUrl
          merged.location previous.job.isClosed }
      source_eq := previous.source_eq }

/-- One normalised row joins the candidates. -/
def add (candidate : AtsCandidate) : List AtsCandidate → Option (List AtsCandidate)
  | [] => some [candidate]
  | previous :: candidates =>
    if previous.job.baseHash = candidate.job.baseHash then
      (previous.merge I candidate.job).map (· :: candidates)
    else (candidate.add candidates).map (previous :: ·)

/-- A raw row as a candidate; `none` is a rejected row. -/
def ofRaw (ats : AtsConfig) (now : Time) (raw : RawJobPayload) : Option AtsCandidate :=
  match h : raw.normalize I ats now with
  | none => none
  | some job => some ⟨raw, job, raw.normalize_source I h⟩

/-- The loop of `run` over the rows of its scrapers; `none` is the exception. -/
def collect (ats : AtsConfig) (now : Time) (rows : List RawJobPayload) :
    Option (List AtsCandidate) :=
  rows.foldlM (fun candidates raw =>
    match ofRaw I ats now raw with
    | none => some candidates
    | some candidate => candidate.add I candidates) []

end AtsCandidate

/-! ## Preview and persistence -/

/-- `_reconcile_persisted_url`. -/
def reconcilePersistedUrl (job : NormalizedJob) (existingUrl : Option Str) : NormalizedJob :=
  let incomingUrl := job.applyUrl
  let effectiveUrl := I.chooseCanonicalApplyUrl (existingUrl.getD []) incomingUrl
  if effectiveUrl = incomingUrl then job
  else { job with
    applyUrl := effectiveUrl
    contentHash :=
      I.generateContentHash job.baseHash effectiveUrl job.location job.isClosed }

/-- The job a candidate is classified as. -/
def previewJob (db : Db) (candidate : AtsCandidate) : NormalizedJob :=
  let existing := db.postingByHash candidate.job.baseHash
  let evidence := db.currentOccurrenceEvidence I.toServices candidate.job.baseHash
  let decision := decideOccurrence I.toServices candidate.job candidate.raw.source existing evidence
  let effectiveCandidate := prepareCandidate I.toServices candidate.job decision existing
  let job := reconcilePersistedUrl I effectiveCandidate
    (if decision = .repost then none else existing.map (·.applyUrl))
  reconcileLocation I.toServices job (existing.map (·.location)) (existing.bind (·.locationSource))

/-- The candidates of a run with the jobs they are classified as. -/
def stage (db : Db) (candidates : List AtsCandidate) : List (AtsCandidate × NormalizedJob) :=
  candidates.map fun candidate => (candidate, previewJob I db candidate)

/-- One row's SQL-authoritative result. -/
structure AtsOutcome where
  source : Str
  sourceId : Option Str
  state : DeduplicationState
  job : NormalizedJob

/-- The outcome of a staged candidate. -/
def AtsOutcome.of (staged : AtsCandidate × NormalizedJob) (result : PersistedJobResult) :
    AtsOutcome where
  source := staged.1.raw.source
  sourceId := staged.1.raw.sourceId
  state := result.state
  job := { staged.2 with
    occurrenceKind := if result.state = .roleReposted then some .reposted else none }

/-- What `_classify_and_persist` does, with a repository. -/
structure AtsPersistence where
  /-- The calls of the deduplicator before the SQL write, one for each candidate. -/
  previews : List CacheWrite
  /-- The cache when the SQL write begins. -/
  previewed : Cache
  /-- The cache in the end. -/
  cache : Cache
  /-- The tables and the outcomes, or the exception of the SQL write. -/
  persisted : Except RepositoryError (Db × List AtsOutcome)

/-- **`_classify_and_persist`**, with a repository. -/
def classifyAndPersist (db : Db) (cache : Cache) (candidates : List AtsCandidate) :
    AtsPersistence :=
  let staged := stage I db candidates
  let previews := staged.map (·.2.cacheWrite)
  let previewed := updateAll cache previews
  match bulkUpsertJobPostingsWithOutcomes cfg I.toServices db (candidates.map (·.job)) with
  | .error e => ⟨previews, previewed, previewed, .error e⟩
  | .ok (db, persisted) =>
    { previews
      previewed
      cache := updateAll previewed (persisted.map fun result => result.posting.cacheWrite)
      persisted := .ok (db, List.zipWith AtsOutcome.of staged persisted) }

/-- The tables after a run over the rows of its scrapers; an exception leaves them as they were. -/
def runAts (ats : AtsConfig) (now : Time) (db : Db) (cache : Cache) (rows : List RawJobPayload) :
    Db :=
  match AtsCandidate.collect I ats now rows with
  | none => db
  | some candidates =>
    match (classifyAndPersist cfg I db cache candidates).persisted with
    | .error _ => db
    | .ok (db, _) => db

/-! ## A sample row -/

/-- A row of a board of Lever, with its URL. -/
def sampleRow (applyUrl : String) : RawJobPayload where
  source := "lever".toList
  sourceId := some "1".toList
  company := some "Acme".toList
  title := some "Software Engineer Intern".toList
  applyUrl := some applyUrl.toList
  location := .text "Remote".toList
  jobType := none
  isClosed := .missing
  observedAt := some 0
  payload := ⟨none, none, .empty, []⟩

def sampleAts : AtsConfig := ⟨2026, some .internship⟩

/-- The candidates of a run over one sample row. -/
def sampleCandidates (applyUrl : String) : List AtsCandidate :=
  (AtsCandidate.collect .ascii sampleAts 0 [sampleRow applyUrl]).getD []

end JobPing
