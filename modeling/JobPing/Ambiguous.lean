import JobPing.Decisions
import JobPing.StatusHistory

/-!
# Ambiguous observations

An open observation of a closed posting that neither matches nor supersedes its closed occurrence is
`AMBIGUOUS_REOPEN`. It is sent through the ordinary write as a closed update of the stored snapshot
(`ambiguousRows`, `deliver_ambiguous`): occurrences, events, status log and details stay, the
observation itself is recorded as provenance. When the stored URL is canonical the snapshot's URL,
location and content hash stay as well and the outcome is `NO_OP`
(`ambiguous_changes_only_provenance`).
-/

namespace JobPing

variable {cfg : Config} {S : Services} {path : WritePath}

/-! ## The write of an ambiguous observation -/

/-- The effective job an ambiguous observation is turned into. -/
def ambiguousJob (S : Services) (posting : JobPosting) (job : NormalizedJob) : NormalizedJob :=
  effectiveJob S (prepareCandidate S job .ambiguousReopen (some posting)) (some posting)

/-- The posting after an ambiguous observation. -/
def ambiguousPosting (S : Services) (path : WritePath) (companyId : ℕ) (posting : JobPosting)
    (job : NormalizedJob) : JobPosting :=
  Db.pathUpdate path false (PostingValues.of companyId (ambiguousJob S posting job)) posting

/-- The rows after an ambiguous observation. -/
def ambiguousRows (S : Services) (path : WritePath) (companyId : ℕ) (b : JobRows)
    (job : NormalizedJob) : JobRows :=
  { b with
    posting := ambiguousPosting S path companyId b.posting job
    observations := (b.occurrences.getLast?.toList.flatMap fun occurrence =>
        sourceObservationValues S b.posting occurrence job).foldl
      (fun t row => Table.upsert JobSourceObservation.conflicts row t) b.observations }

theorem ambiguousPosting_eq (S : Services) (path : WritePath) (companyId : ℕ) (posting : JobPosting)
    (job : NormalizedJob) :
    (ambiguousPosting S path companyId posting job).isClosed = true ∧
      (ambiguousPosting S path companyId posting job).id = posting.id ∧
      (ambiguousPosting S path companyId posting job).baseHash = posting.baseHash ∧
      (ambiguousPosting S path companyId posting job).details = posting.details := by
  cases path <;> exact ⟨rfl, rfl, rfl, rfl⟩

/-- **An ambiguous observation** is written as a closed update: it never fails and it leaves
occurrences, details, events and status log alone. -/
theorem deliver_ambiguous (cfg : Config) (path : WritePath) {b : JobRows} (hlife : b.Lifecycle)
    {job : NormalizedJob}
    (hamb : decision S (some b) job = .ambiguousReopen) (ids : WriteIds) :
    deliverJob cfg S path ids (some b) job =
      some (ambiguousRows S path ids.company b job,
        if contentChanged path (some b.posting)
          (ambiguousPosting S path ids.company b.posting job) then .roleUpdated else .noOp) := by
  obtain ⟨e, he, hclosed, hopen⟩ := of_ambiguous hamb
  obtain rfl : b.posting = e := by simpa using he
  obtain ⟨init, last, hinit, hlast⟩ := hlife.chain.exists_last
  have hlastclosed : last.closedAt.isSome = true := (hlife.closed last hlast).trans hclosed
  set p' := ambiguousPosting S path ids.company b.posting job with hp'
  obtain ⟨hpclosed, hpid, -, -⟩ :=
    ambiguousPosting_eq S path ids.company b.posting job
  have hcand : candidate S (some b) job =
      prepareCandidate S job .ambiguousReopen (some b.posting) := by
    rw [candidate, hamb]
    rfl
  have hrows : upsertRows path ids.posting
      ((candidate S (some b) job).occurrenceKind = some .reposted)
      (PostingValues.of ids.company (effectiveJob S (candidate S (some b) job) (some b.posting)))
      (some b) = { b with posting := p' } := by
    rw [hcand]
    cases path <;> rfl
  have hclosed' : p'.isClosed = true := hpclosed
  -- the posting stays closed, so the latest occurrence stays as it is
  have hstep : transition S path (some b.posting) p' (some last) (candidate S (some b) job) =
      .keep last := by
    rw [hlife.transition_eq hlast]
    simp [bulkTransition, hlastclosed, hclosed']
  have hdetails : detailsUpdate last job = some none := by
    simp [detailsUpdate, hlastclosed, hopen]
  have hwas : previouslyClosed path (some b.posting) (some last) = some true := by
    cases path <;> simp [previouslyClosed, hclosed, hlastclosed]
  have hlog : pathStatusValues path p' (some true) = [] := by
    cases path <;> simp [pathStatusValues, statusValues, hclosed']
  have hcreated : created path (some b.posting) (some last) = false := by cases path <;> rfl
  have hobs : sourceObservationValues S p' last job =
      sourceObservationValues S b.posting last job := by
    simp only [sourceObservationValues, show p'.id = b.posting.id from hpid]
  have hocc : b.occurrences.dropLast ++ [last] = b.occurrences :=
    List.dropLast_append_getLast? _ hlast
  have hstate : ∀ changed, stateForPersistence false false (some true) p'.isClosed changed =
      if changed then .roleUpdated else .noOp := fun changed => by
    simp [stateForPersistence, hclosed']
  simp only [deliverJob, writeJob, Option.map_some, hrows, writeEffects, hlast, hstep,
    OccurrenceStep.occurrence, hdetails, hwas, hlog, hcreated, hobs, OccurrenceStep.place,
    OccurrenceStep.eventRows, Option.getD_none, List.append_nil, ite_self, hocc, hstate,
    OccurrenceStep.createdRepost, ambiguousRows, Option.toList_some, List.flatMap_singleton, ← hp']

/-- With a canonical stored URL the snapshot's URL, location and content hash stay. -/
theorem ambiguousPosting_snapshot (path : WritePath) {posting : JobPosting}
    (hurl : S.Canonical posting.applyUrl)
    (companyId : ℕ) (job : NormalizedJob) :
    (ambiguousPosting S path companyId posting job).applyUrl = posting.applyUrl ∧
      (ambiguousPosting S path companyId posting job).location = posting.location ∧
      (ambiguousPosting S path companyId posting job).contentHash = posting.contentHash := by
  have hcanon : S.canonicalizeApplyUrl posting.applyUrl = posting.applyUrl := hurl
  have hlocation : ∀ job : NormalizedJob, job.location = posting.location →
      (effectiveLocation S job (some posting.location) posting.locationSource).1 =
        posting.location := fun job hjob => by
    by_cases h : locationReplaced S job (some posting.location) posting.locationSource
    · rw [effectiveLocation_of_replaced h, hjob]
    · rw [effectiveLocation_of_kept (by simpa using h), hjob]
      cases posting.location <;> rfl
  have hjob : (ambiguousJob S posting job).applyUrl = posting.applyUrl ∧
      (ambiguousJob S posting job).location = posting.location ∧
      (ambiguousJob S posting job).contentHash = posting.contentHash := by
    simp only [ambiguousJob, effectiveJob, prepareCandidate, reduceCtorEq, if_false, hcanon,
      Services.choose_nil, Services.choose_self hurl, ne_eq, not_true_eq_false, or_self,
      reconcileLocation, Option.map_some, Option.bind_some]
    rw [hlocation _ rfl]
    simp
  cases path <;> exact hjob

/-! ## The tables -/

/-- A delivery that left everything of its job but the provenance as it was. -/
structure OnlyProvenance (S : Services) (job : NormalizedJob) (rows rows' : JobRows) : Prop where
  isClosed : rows'.posting.isClosed = rows.posting.isClosed
  applyUrl : rows'.posting.applyUrl = rows.posting.applyUrl
  location : rows'.posting.location = rows.posting.location
  contentHash : rows'.posting.contentHash = rows.posting.contentHash
  details : rows'.posting.details = rows.posting.details
  occurrences : rows'.occurrences = rows.occurrences
  events : rows'.events = rows.events
  statusLogs : rows'.statusLogs = rows.statusLogs
  /-- At most one source observation is written, with the row's own URL, date and identity. -/
  observations : ∃ written : List JobSourceObservation, written.length ≤ 1 ∧
    rows'.observations = written.foldl
      (fun t row => Table.upsert JobSourceObservation.conflicts row t) rows.observations ∧
    ∀ b ∈ written, b.jobId = rows.posting.id ∧
      some b.occurrenceId = rows.occurrences.getLast?.map (·.id) ∧
      some b.source = job.source ∧ some b.sourceId = job.sourceId ∧
      b.applyUrl = S.canonicalizeApplyUrl job.applyUrl ∧ b.postedAt = job.postedAt ∧
      (b.identityNamespace, b.externalJobId) = observationIdentity S job

/-- The source observation carries what the row itself says. -/
theorem sourceObservationValues_row {posting : JobPosting} {occurrence : JobOccurrence}
    {job : NormalizedJob} :
    (sourceObservationValues S posting occurrence job).length ≤ 1 ∧
      ∀ b ∈ sourceObservationValues S posting occurrence job, b.jobId = posting.id ∧
        b.occurrenceId = occurrence.id ∧ some b.source = job.source ∧
        some b.sourceId = job.sourceId ∧
        b.applyUrl = S.canonicalizeApplyUrl job.applyUrl ∧ b.postedAt = job.postedAt ∧
        (b.identityNamespace, b.externalJobId) = observationIdentity S job := by
  unfold sourceObservationValues
  split_ifs with h
  · simp
  · simp only [Bool.or_eq_true, Bool.not_eq_true', not_or, Bool.not_eq_false, truthy_eq_true] at h
    obtain ⟨⟨source, hsource, -⟩, sourceId, hsource_id, -⟩ := h
    simp [hsource, hsource_id]

theorem ambiguous_only_provenance (path : WritePath) {b : JobRows} (hlife : b.Lifecycle)
    (hclosed : b.posting.isClosed = true) (hurl : S.Canonical b.posting.applyUrl)
    (companyId : ℕ) (job : NormalizedJob) :
    OnlyProvenance S job b (ambiguousRows S path companyId b job) := by
  obtain ⟨hclosed', -, -, hdetails⟩ :=
    ambiguousPosting_eq S path companyId b.posting job
  obtain ⟨hurl', hlocation, hhash⟩ :=
    ambiguousPosting_snapshot path hurl companyId job
  obtain ⟨init, last, -, hlast⟩ := hlife.chain.exists_last
  refine
    { isClosed := hclosed'.trans hclosed.symm
      applyUrl := hurl'
      location := hlocation
      contentHash := hhash
      details := hdetails
      occurrences := rfl
      events := rfl
      statusLogs := rfl
      observations := ⟨_, ?_, rfl, ?_⟩ }
  · rw [hlast, Option.toList_some, List.flatMap_singleton]
    exact sourceObservationValues_row.1
  · intro row hrow
    rw [hlast, Option.toList_some, List.flatMap_singleton] at hrow
    obtain ⟨hjob, hocc, hrest⟩ := sourceObservationValues_row.2 row hrow
    exact ⟨hjob, by rw [hlast, hocc]; rfl, hrest⟩

/-- **An ambiguous observation changes nothing but provenance.** Delivered by either path in a
reachable state whose stored URL is canonical, it is only refused by the company checks; otherwise
it reports `NO_OP`, keeps its job but for the provenance, and touches no other job. -/
theorem ambiguous_changes_only_provenance {db : Db} (hreach : Reachable cfg S db)
    {job : NormalizedJob} (hamb : db.classify S job = .ambiguousReopen)
    (hurl : ∀ p, db.postingByHash job.baseHash = some p → S.Canonical p.applyUrl) :
    ((∃ r, (Call.deliver path job).run cfg S db = .ok r) ↔ db.Accepts S path job) ∧
      ∀ db' results, (Call.deliver path job).run cfg S db = .ok (db', results) →
        ∃ rows rows', db.job job.baseHash = some rows ∧ db'.job job.baseHash = some rows' ∧
          rows.posting.isClosed = true ∧ OnlyProvenance S job rows rows' ∧
          results = [⟨rows'.posting, .noOp⟩] ∧ ∀ h, h ≠ job.baseHash → db'.job h = db.job h := by
  have hwf := hreach.wf
  rw [hwf.classify_eq] at hamb
  obtain ⟨e, he, hclosed, -⟩ := of_ambiguous hamb
  obtain ⟨b, hb, rfl⟩ := Option.map_eq_some_iff.mp he
  have hlife := hreach.lifecycle hb
  rw [hb] at hamb
  have hdel := fun ids => deliver_ambiguous cfg path hlife hamb ids
  have hcanon : S.Canonical b.posting.applyUrl :=
    hurl _ (by rw [← Db.job_posting, hb]; rfl)
  refine ⟨?_, fun db' results hrun => ?_⟩
  · rw [Call.deliver_isOk_iff hwf, hb]
    refine and_iff_left fun ids => ?_
    rw [hdel]
    rfl
  · obtain ⟨result, rfl, ⟨ids, rows', -, -, -, hdel', hpost, hj'⟩, -, hframe⟩ :=
      Call.deliver_ok hwf hrun
    rw [hb, hdel, Option.some.injEq, Prod.mk.injEq] at hdel'
    obtain ⟨hrows, hstate⟩ := hdel'
    have hprov := ambiguous_only_provenance path hlife hclosed hcanon ids.company job
    have hsame : contentChanged path (some b.posting)
        (ambiguousPosting S path ids.company b.posting job) = false := by
      have hhash : (ambiguousPosting S path ids.company b.posting job).contentHash =
          b.posting.contentHash := hprov.contentHash
      cases path with
      | single => rfl
      | bulk => simp [contentChanged, hhash]
    refine ⟨b, rows', hb, hj', hclosed, hrows ▸ hprov, ?_, hframe⟩
    have hnoop : result.state = .noOp := by rw [← hstate, hsame]; rfl
    rw [← hpost, ← hnoop]

/-! ## A closed sample -/

/-- The tables after the sample is discovered and closed. -/
def closedSample : Db :=
  execAll sampleConfig .ascii .empty [.save sampleJob, .save { sampleJob with isClosed := true }]

theorem closedSample_reachable : Reachable sampleConfig .ascii closedSample := ⟨_, rfl⟩

/-- An open row of the same job from another tenant. -/
def otherTenant : NormalizedJob :=
  { sampleJob with
    applyUrl := "https://jobs.lever.co/other/9".toList
    sourceId := some "9".toList }

/-- The row of the other tenant is written, and changes nothing but provenance. -/
theorem other_tenant_changes_only_provenance : ∃ db' results rows rows',
    (Call.deliver .bulk otherTenant).run sampleConfig .ascii closedSample =
        .ok (db', results) ∧
      closedSample.job otherTenant.baseHash = some rows ∧
      db'.job otherTenant.baseHash = some rows' ∧ rows.posting.isClosed = true ∧
      OnlyProvenance .ascii otherTenant rows rows' ∧ results = [⟨rows'.posting, .noOp⟩] ∧
      ∀ h, h ≠ otherTenant.baseHash → db'.job h = closedSample.job h := by
  have hcanon : (closedSample.postingByHash otherTenant.baseHash).all (fun p =>
      Services.ascii.canonicalizeApplyUrl p.applyUrl = p.applyUrl) = true := by decide +kernel
  have hok : ((Call.deliver .bulk otherTenant).run sampleConfig .ascii
      closedSample).toOption.isSome = true := by decide +kernel
  cases hrun : (Call.deliver .bulk otherTenant).run sampleConfig .ascii closedSample with
  | error e =>
    rw [hrun] at hok
    cases hok
  | ok r =>
    obtain ⟨rows, rows', hrows⟩ := (ambiguous_changes_only_provenance closedSample_reachable
      (by decide +kernel) fun p hp => by
        rw [hp, Option.all_some, decide_eq_true_eq] at hcanon
        exact hcanon).2 r.1 r.2 hrun
    exact ⟨r.1, r.2, rows, rows', rfl, hrows⟩

end JobPing
