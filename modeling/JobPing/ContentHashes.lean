import JobPing.AtsPipeline
import JobPing.Redelivery
import JobPing.Winners

/-!
# Stored content hashes

The content hash of a posting is meant to be the hash of its own columns (`JobPosting.Hashed`). The
hash is computed before the URL is validated, and the repository recomputes it only where it sees a
change; so it describes the stored row in every run whose rows either keep their URL up to its
canonical form or are rehashed (`content_hashes_describe`).
-/

namespace JobPing

variable {cfg : Config} {S : Services} {I : Ingestion}

/-! ## Hashed jobs and postings -/

/-- The content hash is that of the other columns. -/
def NormalizedJob.Hashed (S : Services) (job : NormalizedJob) : Prop :=
  job.contentHash =
    S.generateContentHash job.baseHash job.applyUrl job.location job.isClosed

/-- The content hash is that of the other columns. -/
def JobPosting.Hashed (S : Services) (posting : JobPosting) : Prop :=
  posting.contentHash =
    S.generateContentHash posting.baseHash posting.applyUrl posting.location posting.isClosed

instance (posting : JobPosting) : Decidable (posting.Hashed S) := inferInstanceAs (Decidable (_ = _))

/-- Reconciling the location keeps a hash that describes the job, and makes one when it changes the
location. -/
theorem reconcileLocation_hashed {job : NormalizedJob} {location source : Option Str}
    (h : job.Hashed S ∨ (effectiveLocation S job location source).1 ≠ job.location) :
    (reconcileLocation S job location source).Hashed S := by
  unfold NormalizedJob.Hashed reconcileLocation
  simp only
  split_ifs with hchanged
  · rfl
  · have hsame := not_not.mp hchanged
    rw [hsame]
    rcases h with h | h
    · exact h
    · exact absurd hsame h

/-- The repository recomputes the hash of a job it compares with a posting. -/
def Rehashed (S : Services) (job : NormalizedJob) (existing : Option JobPosting) : Prop :=
  effectiveUrl S job existing ≠ job.applyUrl ∨
    S.canonicalizeApplyUrl job.applyUrl ≠ job.applyUrl ∨
    (effectiveLocation S job (existing.map (·.location))
      (existing.bind (·.locationSource))).1 ≠ job.location

/-- **The effective job is hashed** when the job is or the repository recomputes its hash. -/
theorem effectiveJob_hashed {job : NormalizedJob} {existing : Option JobPosting}
    (h : job.Hashed S ∨ Rehashed S job existing) : (effectiveJob S job existing).Hashed S := by
  rw [effectiveJob_eq]
  apply reconcileLocation_hashed
  by_cases hurl : effectiveUrl S job existing ≠ job.applyUrl ∨
      S.canonicalizeApplyUrl job.applyUrl ≠ job.applyUrl
  · refine .inl ?_
    simp only [NormalizedJob.Hashed, effectiveHash, if_pos hurl]
  · rcases h with h | h
    · refine .inl ?_
      have hsame : effectiveUrl S job existing = job.applyUrl :=
        not_not.mp fun hne => hurl (.inl hne)
      have hkept : effectiveHash S job (effectiveUrl S job existing) = job.contentHash :=
        if_neg hurl
      unfold NormalizedJob.Hashed
      rw [hkept, hsame]
      exact h
    · refine .inr ?_
      rcases h with h | h | h
      · exact absurd (.inl h) hurl
      · exact absurd (.inr h) hurl
      · exact h

/-- The effective job of an ambiguous observation is hashed as the posting is. -/
theorem ambiguous_hashed {job : NormalizedJob} {e : JobPosting} (he : e.Hashed I.toServices)
    (hhash : e.baseHash = job.baseHash) (hclosed : e.isClosed = true) :
    (effectiveJob I.toServices (prepareCandidate I.toServices job .ambiguousReopen (some e))
      (some e)).Hashed I.toServices := by
  apply effectiveJob_hashed
  by_cases hcanonical : I.canonicalizeApplyUrl (I.canonicalizeApplyUrl e.applyUrl) =
      I.canonicalizeApplyUrl e.applyUrl
  · refine .inl ?_
    have hsame := I.contentHash_canonical e.baseHash e.location e.isClosed hcanonical
    simp only [NormalizedJob.Hashed, prepareCandidate, ← hhash]
    rw [he, ← hclosed, ← hsame]
  · exact .inr (.inr (.inl hcanonical))

/-! ## One delivery -/

/-- The repository stores a hash that describes the posting, whatever hash it is given. -/
def Db.Rehashes (S : Services) (db : Db) (job : NormalizedJob) : Prop :=
  db.classify S job = .ambiguousReopen ∨
    Rehashed S (prepareCandidate S job (db.classify S job) (db.postingByHash job.baseHash))
      (db.postingByHash job.baseHash)

/-- **One delivery** keeps the postings hashed when the job is, or is rehashed. -/
theorem Hashed.deliver {path : WritePath} {ids : WriteIds} {base : Option JobRows}
    {job : NormalizedJob} {rows : JobRows} {state : DeduplicationState}
    (hbase : ∀ b, base = some b →
      b.posting.Hashed I.toServices ∧ b.posting.baseHash = job.baseHash)
    (hjob : job.Hashed I.toServices ∨ decision I.toServices base job = .ambiguousReopen ∨
      Rehashed I.toServices (candidate I.toServices base job) (base.map (·.posting)))
    (h : deliverJob cfg I.toServices path ids base job = some (rows, state)) :
    rows.posting.Hashed I.toServices := by
  have hhash := deliverJob_baseHash (fun b hb => (hbase b hb).2) h
  have hclosed : rows.posting.isClosed = (effectiveJob I.toServices
      (candidate I.toServices base job) (base.map (·.posting))).isClosed := deliverJob_isClosed h
  have hbasehash : (effectiveJob I.toServices (candidate I.toServices base job)
      (base.map (·.posting))).baseHash = job.baseHash := candidate_baseHash base job
  obtain ⟨hcontent, hurl, hlocation, -⟩ := deliverJob_columns h
  suffices heffective : (effectiveJob I.toServices (candidate I.toServices base job)
      (base.map (·.posting))).Hashed I.toServices by
    unfold JobPosting.Hashed
    rw [hcontent, hhash, hurl, hlocation, hclosed, ← hbasehash]
    exact heffective
  by_cases hambiguous : decision I.toServices base job = .ambiguousReopen
  · obtain ⟨e, he, heclosed, -⟩ := of_ambiguous hambiguous
    obtain ⟨b, hb, rfl⟩ := Option.map_eq_some_iff.mp he
    rw [he, candidate, hambiguous, he]
    exact ambiguous_hashed (hbase b hb).1 (hbase b hb).2 heclosed
  · apply effectiveJob_hashed
    rcases hjob with hjob | hjob | hjob
    · refine .inl ?_
      rw [candidate_of_ne_ambiguous hambiguous]
      exact hjob
    · exact absurd hjob hambiguous
    · exact .inr hjob

/-! ## The jobs of the pipelines -/

/-- Validation keeps the canonical form of a URL. -/
def UrlKept (I : Ingestion) (url : Str) : Prop :=
  ∀ validated, I.httpUrl url = some validated →
    I.canonicalizeApplyUrl validated = I.canonicalizeApplyUrl url

instance (url : Str) : Decidable (UrlKept I url) :=
  decidable_of_iff ((I.httpUrl url).all fun validated =>
      I.canonicalizeApplyUrl validated = I.canonicalizeApplyUrl url) <| by
    simp [UrlKept, Option.all_eq_true]

/-- A validated job is hashed when its hash was that of its fields and its URL is kept. -/
theorem validate_hashed {fields job : NormalizedJob} (hfields : fields.Hashed I.toServices)
    (hurl : UrlKept I fields.applyUrl) (h : fields.validate I = some job) :
    job.Hashed I.toServices := by
  obtain ⟨hvalid, hjob⟩ := NormalizedJob.validate_eq_some h
  have hcanonical := hurl _ hvalid
  unfold NormalizedJob.Hashed at hfields ⊢
  rw [hjob]
  simp only
  rw [hfields]
  exact (I.contentHash_canonical _ _ _ hcanonical).symm

/-- A candidate whose URL is kept is hashed. -/
def AtsCandidate.HashedIfKept (I : Ingestion) (candidate : AtsCandidate) : Prop :=
  UrlKept I (candidate.raw.canonicalUrl I) → candidate.job.Hashed I.toServices

theorem AtsCandidate.of_raw_hashed {pipeline : AtsConfig} {now : Time} {raw : RawJobPayload}
    {candidate : AtsCandidate} (h : AtsCandidate.ofRaw I pipeline now raw = some candidate) :
    candidate.HashedIfKept I := by
  unfold AtsCandidate.ofRaw at h
  split at h
  · cases h
  · next job hjob =>
    cases h
    obtain ⟨closed, details, jobType, hvalid⟩ := RawJobPayload.normalize_eq_some hjob
    intro hkept
    have hfields : (raw.atsFields I pipeline now closed details jobType).Hashed I.toServices := rfl
    exact validate_hashed hfields hkept hvalid

/-- Coalescing a row recomputes the hash. -/
theorem AtsCandidate.merge_hashed {previous merged : AtsCandidate} {job : NormalizedJob}
    (h : previous.merge I job = some merged) : merged.job.Hashed I.toServices := by
  obtain ⟨details, -, rfl⟩ := Option.map_eq_some_iff.mp h
  rfl

theorem AtsCandidate.add_hashed {candidate : AtsCandidate} (hnew : candidate.HashedIfKept I) :
    ∀ {candidates added : List AtsCandidate}, (∀ c ∈ candidates, c.HashedIfKept I) →
      candidate.add I candidates = some added → ∀ c ∈ added, c.HashedIfKept I := by
  intro candidates
  induction candidates with
  | nil =>
    rintro added - h c hc
    cases h
    obtain rfl := List.mem_singleton.mp hc
    exact hnew
  | cons previous candidates ih =>
    intro added hall h c hc
    have hrest := fun c hc => hall c (List.mem_cons_of_mem _ hc)
    rw [AtsCandidate.add] at h
    split_ifs at h
    · obtain ⟨merged, hmerged, rfl⟩ := Option.map_eq_some_iff.mp h
      rcases List.mem_cons.mp hc with rfl | hc
      · exact fun _ => AtsCandidate.merge_hashed hmerged
      · exact hrest c hc
    · obtain ⟨tail, htail, rfl⟩ := Option.map_eq_some_iff.mp h
      rcases List.mem_cons.mp hc with rfl | hc
      · exact hall _ List.mem_cons_self
      · exact ih hrest htail c hc

/-- **The candidates of a run** whose URL is kept are hashed. -/
theorem collect_hashed {pipeline : AtsConfig} {now : Time} {rows : List RawJobPayload}
    {collected : List AtsCandidate}
    (h : AtsCandidate.collect I pipeline now rows = some collected) :
    ∀ candidate ∈ collected, candidate.HashedIfKept I := by
  have hall : ∀ c ∈ ([] : List AtsCandidate), c.HashedIfKept I := by simp
  unfold AtsCandidate.collect at h
  generalize ([] : List AtsCandidate) = candidates at hall h
  induction rows generalizing candidates with
  | nil =>
    cases h
    exact hall
  | cons raw rows ih =>
    rw [List.foldlM_cons] at h
    obtain ⟨next, hnext, h⟩ := Option.bind_eq_some_iff.mp h
    refine ih next ?_ h
    cases hraw : AtsCandidate.ofRaw I pipeline now raw with
    | none =>
      rw [hraw] at hnext
      cases hnext
      exact hall
    | some candidate =>
      rw [hraw] at hnext
      exact AtsCandidate.add_hashed (AtsCandidate.of_raw_hashed hraw) hall hnext

/-- **The job of a row** of the Simplify pipeline is hashed when its URL is kept or the pipeline
read a posting of the job. -/
theorem SimplifyCandidate.job_hashed {simplify : SimplifyConfig} {existing : Option JobPosting}
    {candidate : SimplifyCandidate} {job : NormalizedJob}
    (hkept : UrlKept I candidate.row.applyUrl ∨ existing.isSome)
    (h : candidate.job I simplify existing = some job) : job.Hashed I.toServices := by
  obtain ⟨normalized, hnormalized, rfl⟩ := Option.map_eq_some_iff.mp h
  obtain ⟨details, hvalid⟩ := SimplifyCandidate.normalize_eq_some hnormalized
  apply reconcileLocation_hashed
  refine .inl ?_
  cases existing with
  | none =>
    rcases hkept with hkept | hread
    · have hfields : (candidate.fields I simplify details).Hashed I.toServices := rfl
      exact validate_hashed hfields hkept hvalid
    · cases hread
  | some e => exact rfl

/-! ## Runs of the pipelines -/

/-- One call of a pipeline, with the contents its cache has; the Simplify pipeline may have a
repository, and has read some state of the tables then. -/
inductive Ingest
  | ats (pipeline : AtsConfig) (now : Time) (cache : Cache) (rows : List RawJobPayload)
  | simplify (repository : Option Db) (cache : Cache) (sources : List SimplifySource)

namespace Ingest

/-- The tables after a call. -/
def run (cfg : Config) (I : Ingestion) (db : Db) : Ingest → Db
  | ats pipeline now cache rows => runAts cfg I pipeline now db cache rows
  | simplify repository cache sources =>
    persistResultsDb cfg I db (processAll I repository cache sources).1

/-- The jobs a call hands to the repository. -/
def jobs (I : Ingestion) : Ingest → List NormalizedJob
  | ats pipeline now _ rows =>
    ((AtsCandidate.collect I pipeline now rows).getD []).map (·.job)
  | simplify repository cache sources =>
    (winners (processAll I repository cache sources).1).map (·.job)

/-- A call is a call of the bulk path. -/
theorem run_eq (step : Ingest) (db : Db) :
    step.run cfg I db = (Call.bulk (step.jobs I)).exec cfg I.toServices db := by
  cases step with
  | ats pipeline now cache rows =>
    simp only [run, runAts, jobs, Call.exec, Call.run]
    cases hcollect : AtsCandidate.collect I pipeline now rows with
    | none => rfl
    | some candidates =>
      simp only [classifyAndPersist, Option.getD_some]
      cases bulkUpsertJobPostingsWithOutcomes cfg I.toServices db
        (candidates.map (·.job)) <;> rfl
  | simplify repository cache sources =>
    simp only [run, persistResultsDb, persistResults, jobs, Call.exec, Call.run]
    cases bulkUpsertJobPostingsWithOutcomes cfg I.toServices db _ <;> rfl

/-- Every row of the call whose job reaches the repository keeps its URL, or the hash is recomputed
on the way: by the Simplify pipeline when it has read a posting of the job, or by the repository. -/
def Described (I : Ingestion) (db : Db) : Ingest → Prop
  | ats pipeline now _ rows =>
    ∀ candidate ∈ (AtsCandidate.collect I pipeline now rows).getD [],
      UrlKept I (candidate.raw.canonicalUrl I) ∨ db.Rehashes I.toServices candidate.job
  | simplify repository cache sources =>
    ∀ item ∈ winners (processAll I repository cache sources).1,
      UrlKept I item.source.row.applyUrl ∨
        (storedPosting repository item.job.baseHash).isSome ∨
        db.Rehashes I.toServices item.job

/-- The jobs of a described call are hashed or rehashed. -/
theorem Described.job {db : Db} {step : Ingest} (h : step.Described I db) :
    ∀ job ∈ step.jobs I, job.Hashed I.toServices ∨ db.Rehashes I.toServices job := by
  intro job hjob
  cases step with
  | ats pipeline now cache rows =>
    obtain ⟨candidate, hmem, rfl⟩ := List.mem_map.mp hjob
    rcases h candidate hmem with hkept | hrehashed
    · cases hcollect : AtsCandidate.collect I pipeline now rows with
      | none =>
        rw [hcollect] at hmem
        cases hmem
      | some candidates =>
        rw [hcollect] at hmem
        exact .inl (collect_hashed hcollect candidate hmem hkept)
    · exact .inr hrehashed
  | simplify repository cache sources =>
    obtain ⟨item, hmem, rfl⟩ := List.mem_map.mp hjob
    obtain ⟨result, hresult, hitem⟩ := mem_winners hmem
    obtain ⟨source, -, -, hclassified⟩ := processed_items hresult hitem
    have hitemjob := hclassified.job
    rw [← hclassified.baseHash] at hitemjob
    rcases h item hmem with hkept | hread | hrehashed
    · exact .inl (SimplifyCandidate.job_hashed (.inl hkept) hitemjob)
    · exact .inl (SimplifyCandidate.job_hashed (.inr hread) hitemjob)
    · exact .inr hrehashed

end Ingest

/-- The tables after a sequence of calls of the pipelines. -/
def ingestAll (cfg : Config) (I : Ingestion) (db : Db) (steps : List Ingest) : Db :=
  steps.foldl (Ingest.run cfg I) db

/-- A sequence of calls of the pipelines is a sequence of bulk calls. -/
theorem ingestAll_eq (steps : List Ingest) (db : Db) :
    ingestAll cfg I db steps =
      execAll cfg I.toServices db (steps.map fun step => .bulk (step.jobs I)) := by
  induction steps generalizing db with
  | nil => rfl
  | cons step steps ih =>
    change ingestAll cfg I (step.run cfg I db) steps = _
    rw [ih, Ingest.run_eq]
    rfl

theorem ingestAll_reachable (cfg : Config) (I : Ingestion) (steps : List Ingest) :
    Reachable cfg I.toServices (ingestAll cfg I .empty steps) := ⟨_, ingestAll_eq steps _⟩

/-- **Stored content hashes describe the stored rows** in every run of the pipelines whose calls
are all described. -/
theorem content_hashes_describe (cfg : Config) (I : Ingestion) (steps : List Ingest)
    (h : ∀ before step after, steps = before ++ step :: after →
      step.Described I (ingestAll cfg I .empty before)) :
    ∀ posting ∈ (ingestAll cfg I .empty steps).jobPostings, posting.Hashed I.toServices := by
  intro posting hposting
  have hwf := (ingestAll_reachable cfg I steps).wf
  have hj := hwf.jobOf_posting hposting
  change ((ingestAll cfg I .empty steps).rowsOf posting).posting.Hashed I.toServices
  generalize (ingestAll cfg I .empty steps).rowsOf posting = rows at hj ⊢
  rw [ingestAll_eq] at hj
  refine execAll_job_induction (P := fun rows => rows.posting.Hashed I.toServices) _ ?_ hj
  intro before call after hcalls job hjob ids rows state base hbase hlt hdel
  -- the call is a step of the pipelines, made after the steps before it
  obtain ⟨steps₁, steps₂, rfl, rfl, hrest⟩ := List.map_eq_append_iff.mp hcalls
  obtain ⟨step, steps₃, rfl, rfl, -⟩ := List.map_eq_cons_iff.mp hrest
  have hwf₁ := (ingestAll_reachable cfg I steps₁).wf
  rw [ingestAll_eq] at hwf₁
  have hdescribed := h steps₁ step steps₃ rfl
  rw [ingestAll_eq] at hdescribed
  refine Hashed.deliver (fun b hb => ⟨hbase b hb, Db.job_baseHash hb⟩) ?_ hdel
  refine (hdescribed.job job hjob).imp_right fun hrehashes => ?_
  rw [Db.Rehashes, hwf₁.classify_eq, ← Db.job_posting] at hrehashes
  exact hrehashes

/-- The first row of a run with the URL `https://example.com`, which validation gives a path. -/
def exampleRun : List Ingest :=
  [.ats sampleAts 0 (fun _ => none) [sampleRow "https://example.com"]]

/-- The run stores a hash that does not describe its posting, though the validation of URLs is
idempotent there. -/
theorem hash_of_unvalidated_url :
    (∃ posting ∈ (ingestAll sampleConfig .ascii .empty exampleRun).jobPostings,
      ¬ posting.Hashed Ingestion.ascii.toServices) ∧
    Ingestion.ascii.httpUrl "https://example.com".toList = some "https://example.com/".toList ∧
    Ingestion.ascii.httpUrl "https://example.com/".toList = some "https://example.com/".toList := by
  decide +kernel

/-- A row of a board of Lever, listed again in a README under another URL. -/
def leverRun : List Ingest :=
  [.ats sampleAts 0 (fun _ => none) [sampleRow "https://jobs.lever.co/acme/1"],
    .simplify none (fun _ => none)
      [sampleCommit "c0ffee" [sampleTableRow "https://example.com/jobs/1" "Berlin" false]]]

theorem lever_run_described : ∃ posting,
    posting ∈ (ingestAll sampleConfig .ascii .empty leverRun).jobPostings ∧
      posting.Hashed Ingestion.ascii.toServices := by
  have hstored : (ingestAll sampleConfig .ascii .empty leverRun).jobPostings ≠ [] := by
    decide +kernel
  obtain ⟨posting, hposting⟩ := List.exists_mem_of_ne_nil _ hstored
  refine ⟨posting, hposting, content_hashes_describe sampleConfig .ascii leverRun ?_ _ hposting⟩
  rintro (_ | ⟨first, _ | ⟨second, before⟩⟩) step after hsteps
  · cases hsteps
    have hkept : ∀ candidate ∈ sampleCandidates "https://jobs.lever.co/acme/1",
        UrlKept .ascii (candidate.raw.canonicalUrl .ascii) := by decide +kernel
    exact fun candidate hmem => .inl (hkept candidate hmem)
  · cases hsteps
    have hkept : ∀ item ∈ winners (processAll .ascii none (fun _ => none)
        [sampleCommit "c0ffee"
          [sampleTableRow "https://example.com/jobs/1" "Berlin" false]]).1,
        UrlKept .ascii item.source.row.applyUrl := by decide +kernel
    exact fun item hmem => .inl (hkept item hmem)
  · exact absurd (congrArg List.length hsteps) (by simp [leverRun])

end JobPing
