import JobPing.Deduplicator
import JobPing.Dict
import JobPing.Ingestion
import JobPing.Repository

/-!
# The Simplify pipeline

`app/pipelines/simplify_pipeline.py`, from the parsed rows on: the rows of a commit or of a file are
normalised, reconciled with the stored postings when the pipeline has a repository, deduplicated and
classified against the cache (`classifyCandidates`), and the results of several commits or files
are persisted as one batch (`persist_results`).
-/

namespace JobPing

variable (cfg : Config) (I : Ingestion)

/-- The arguments of `SimplifyPipeline(...)`. -/
structure SimplifyConfig where
  season : ℕ
  jobType : JobType

/-- `ChangeKind` of `app/scrapers/git_patch_parser.py`. -/
inductive ChangeKind
  | added
  | removed
  deriving DecidableEq

/-- A parsed row with its change and file. -/
structure SimplifyCandidate where
  row : TableRow
  observedAt : Time
  kind : ChangeKind
  filename : Str
  deriving DecidableEq

/-- One classified job with its source. -/
structure PipelineItem where
  state : DeduplicationState
  job : NormalizedJob
  source : SimplifyCandidate
  deriving DecidableEq

/-- The items of one commit or file, in the order they were classified. -/
structure PipelineResult where
  commitSha : Str
  commitUrl : Str
  items : List PipelineItem

/-- `DeduplicationState`, in the order of its definition. -/
def DeduplicationState.all : List DeduplicationState :=
  [.newRole, .roleUpdated, .roleClosed, .roleReposted, .noOp]

namespace PipelineResult

/-- The bucket of one state. -/
def categorized (result : PipelineResult) (state : DeduplicationState) : List PipelineItem :=
  result.items.filter (·.state = state)

/-- The items bucket by bucket. -/
def listed (result : PipelineResult) : List PipelineItem :=
  DeduplicationState.all.flatMap result.categorized

end PipelineResult

/-! ## Classification -/

/-- The base hash of a row. -/
def TableRow.baseHash (row : TableRow) : Digest := I.generateBaseHash row.company row.title

/-- The fields a row gives to `NormalizedJob`. -/
def SimplifyCandidate.fields (simplify : SimplifyConfig) (candidate : SimplifyCandidate)
    (details : Option JobDetails) : NormalizedJob :=
  let row := candidate.row
  let baseHash := row.baseHash I
  let identity := I.postingIdentity (some row.source) (some row.sourceId) row.applyUrl .empty
  { companyId := none
    details := details
    companyName := some row.company
    title := row.title
    baseHash := baseHash
    contentHash := I.generateContentHash baseHash row.applyUrl row.location row.isClosed
    applyUrl := row.applyUrl
    location := row.location
    locationSource := some row.source
    season := simplify.season
    jobType := simplify.jobType
    isClosed := row.isClosed
    postedAt := I.parseSourcePostedAt row.datePosted candidate.observedAt
    observedAt := some candidate.observedAt
    source := some row.source
    sourceId := some row.sourceId
    identityNamespace := identity.map Prod.fst
    externalJobId := identity.map Prod.snd
    occurrenceKind := none }

/-- `NormalizedJob(...)` for a row; `none` is a rejected row. -/
def SimplifyCandidate.normalize (simplify : SimplifyConfig) (candidate : SimplifyCandidate) :
    Option NormalizedJob := do
  guard (I.urlParses candidate.row.applyUrl)
  let details ← I.extractJobDetails (candidate.row.raw candidate.observedAt)
  (candidate.fields I simplify details).validate I

/-- The URL and hash of a job of a stored posting. -/
def reconcileExistingUrl (job : NormalizedJob) (existing : Option JobPosting) : NormalizedJob :=
  match existing with
  | none => job
  | some existing =>
    let effectiveUrl := I.chooseCanonicalApplyUrl existing.applyUrl job.applyUrl
    { job with
      applyUrl := effectiveUrl
      contentHash :=
        I.generateContentHash job.baseHash effectiveUrl job.location job.isClosed }

/-- The job of a row, reconciled with the posting the repository holds. -/
def SimplifyCandidate.job (simplify : SimplifyConfig) (existing : Option JobPosting)
    (candidate : SimplifyCandidate) : Option NormalizedJob :=
  (candidate.normalize I simplify).map fun job =>
    reconcileLocation I.toServices (reconcileExistingUrl I job existing)
      (existing.map (·.location)) (existing.bind (·.locationSource))

/-- The postings read before the loop; a pipeline without a repository reads none. -/
def storedPosting (repository : Option Db) (baseHash : Digest) : Option JobPosting :=
  repository.bind (·.postingByHash baseHash)

/-- What the loop over the rows carries. -/
structure Classifying where
  seen : List (Digest × Digest)
  items : List PipelineItem
  cache : Cache

/-- One round of the loop. -/
def Classifying.add (simplify : SimplifyConfig) (repository : Option Db) (loop : Classifying)
    (candidate : SimplifyCandidate) : Classifying :=
  let baseHash := candidate.row.baseHash I
  match candidate.job I simplify (storedPosting repository baseHash) with
  | none => loop
  | some job =>
    let signature := (baseHash, job.contentHash)
    if signature ∈ loop.seen then loop
    else
      let classified :=
        classifyAndUpdate loop.cache ⟨baseHash, job.contentHash, candidate.row.isClosed⟩
      { seen := loop.seen ++ [signature]
        items := loop.items ++ [⟨classified.1, job, candidate⟩]
        cache := classified.2 }

/-- A commit or a file with its parsed rows, and the pipeline that processes it. -/
structure SimplifySource where
  pipeline : SimplifyConfig
  sha : Str
  url : Str
  candidates : List SimplifyCandidate

/-- **`_classify_candidates`**. The sort puts the removed rows last, where the loop passes over
them. -/
def classifyCandidates (repository : Option Db) (cache : Cache) (source : SimplifySource) :
    PipelineResult × Cache :=
  let loop := (source.candidates.filter (·.kind ≠ .removed)).foldl
    (Classifying.add I source.pipeline repository) ⟨[], [], cache⟩
  (⟨source.sha, source.url, loop.items⟩, loop.cache)

/-- The commits or files of a call, one after another. -/
def processAll (repository : Option Db) :
    Cache → List SimplifySource → List PipelineResult × Cache
  | cache, [] => ([], cache)
  | cache, source :: sources =>
    let (result, classified) := classifyCandidates I repository cache source
    let (results, processed) := processAll repository classified sources
    (result :: results, processed)

/-! ## Persistence -/

/-- The items of all results, as the loops of `persist_results` run over them: with the index of
their result, which stands for the identity of the object. -/
def listedItems (results : List PipelineResult) : List (Digest × ℕ × PipelineItem) :=
  results.zipIdx.flatMap fun (result, index) =>
    result.listed.map fun item => (item.job.baseHash, index, item)

/-- `latest_items`: a later item takes the place of an earlier one of its hash. -/
def latestItems (results : List PipelineResult) : List (Digest × ℕ × PipelineItem) :=
  Dict.ofList (listedItems results)

/-- The winning items, in the order the batch is built in. -/
def winners (results : List PipelineResult) : List PipelineItem :=
  (latestItems results).map (·.2.2)

/-- An item with the state and the job it is regrouped with. -/
def reportedItem (db : Db) (item : PipelineItem) : PipelineItem :=
  let posting := db.postingByHash item.job.baseHash
  let previous := db.currentOccurrenceEvidence I.toServices item.job.baseHash
  let decision :=
    decideOccurrence I.toServices item.job (item.job.source.getD []) posting previous
  let job := prepareCandidate I.toServices item.job decision posting
  match decision, posting with
  | .repost, _ =>
    let applyUrl := I.canonicalizeApplyUrl job.applyUrl
    { item with
      state := .roleReposted
      job := { job with
        applyUrl := applyUrl
        contentHash :=
          I.generateContentHash job.baseHash applyUrl job.location job.isClosed } }
  | .ambiguousReopen, _ => { item with state := .noOp, job := job }
  | _, none => { item with state := .newRole, job := job }
  | _, some posting =>
    let applyUrl := I.chooseCanonicalApplyUrl posting.applyUrl job.applyUrl
    let contentHash :=
      I.generateContentHash job.baseHash applyUrl job.location job.isClosed
    let state :=
      if posting.isClosed && !job.isClosed then .roleUpdated
      else if !posting.isClosed && job.isClosed then .roleClosed
      else if posting.contentHash = contentHash then .noOp
      else if item.state = .noOp ∨ item.state = .newRole then .roleUpdated
      else item.state
    { item with
      state := state
      job := { job with applyUrl := applyUrl, contentHash := contentHash } }

/-- A result with its winning items replaced. -/
def PipelineResult.regroup (db : Db) (latest : List (Digest × ℕ × PipelineItem)) (index : ℕ)
    (result : PipelineResult) : PipelineResult :=
  { result with
    items := result.listed.map fun item =>
      if Dict.get? item.job.baseHash latest = some (index, item) then reportedItem I db item
      else item }

/-- What `persist_results` leaves. -/
structure Persisted where
  db : Db
  results : List PipelineResult
  postings : List PersistedJobResult
  cache : Option Cache

/-- **`persist_results`**; `deduplicator` is the cache it is given, if any. -/
def persistResults (db : Db) (results : List PipelineResult) (deduplicator : Option Cache) :
    Except RepositoryError Persisted :=
  let latest := latestItems results
  let regrouped := results.zipIdx.map fun (result, index) => result.regroup I db latest index
  (bulkUpsertJobPostingsWithOutcomes cfg I.toServices db
    ((winners results).map (·.job))).map fun (db, postings) =>
      { db := db
        results := regrouped
        postings := postings
        cache := deduplicator.map (updateAll · (postings.map (·.posting.cacheWrite))) }

/-- The tables after `persist_results`; an exception leaves them as they were. -/
def persistResultsDb (db : Db) (results : List PipelineResult) : Db :=
  match persistResults cfg I db results none with
  | .error _ => db
  | .ok persisted => persisted.db

/-! ## A sample row -/

theorem simplify_source_ne : "simplify_github".toList ≠ [] := by decide

/-- A row of a README for the sample job, with its URL, location and flag. -/
def sampleTableRow (applyUrl location : String) (isClosed : Bool) : SimplifyCandidate where
  row :=
    { source := "simplify_github".toList
      source_ne := simplify_source_ne
      sourceId := "c0ffee:README.md".toList
      sourceId_ne := by decide
      company := "Acme".toList
      title := "Software Engineer Intern".toList
      applyUrl := applyUrl.toList
      location := location.toList
      isClosed := isClosed
      rawRow := []
      datePosted := none }
  observedAt := 0
  kind := .added
  filename := "README.md".toList

/-- A commit that adds the rows. -/
def sampleCommit (sha : String) (candidates : List SimplifyCandidate) : SimplifySource where
  pipeline := ⟨2026, .internship⟩
  sha := sha.toList
  url := []
  candidates := candidates

end JobPing
