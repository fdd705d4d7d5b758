import JobPing.Decisions

/-!
# Delivering an observation twice

A second delivery of the same observation meets the posting the first one left. It is an open
update whose effective values are those of the first (`effectiveJob_again`), so it changes
nothing but details and provenance, unless the details cannot be merged with themselves
(`redelivery_idempotent_iff`).
-/

namespace JobPing

variable {cfg : Config} {S : Services} {path : WritePath}

/-! ## The effective values -/

/-- The URL an observation leaves. -/
def effectiveUrl (S : Services) (job : NormalizedJob) (existing : Option JobPosting) : Str :=
  match existing with
  | none => S.chooseCanonicalApplyUrl [] job.applyUrl
  | some existing =>
    if job.occurrenceKind = some .reposted then S.canonicalizeApplyUrl job.applyUrl
    else S.chooseCanonicalApplyUrl existing.applyUrl
      (S.chooseCanonicalApplyUrl [] job.applyUrl)

/-- The content hash before the location is reconciled. -/
def effectiveHash (S : Services) (job : NormalizedJob) (applyUrl : Str) : Digest :=
  if applyUrl ≠ job.applyUrl ∨ S.canonicalizeApplyUrl job.applyUrl ≠ job.applyUrl then
    S.generateContentHash job.baseHash applyUrl job.location job.isClosed
  else job.contentHash

theorem effectiveJob_eq (job : NormalizedJob) (existing : Option JobPosting) :
    effectiveJob S job existing =
      reconcileLocation S
        { job with
          applyUrl := effectiveUrl S job existing
          contentHash := effectiveHash S job (effectiveUrl S job existing) }
        (existing.map (·.location)) (existing.bind (·.locationSource)) := rfl

/-- **Choosing the URL again** keeps the choice. -/
theorem effectiveUrl_again {job : NormalizedJob} {existing : Option JobPosting} {p : JobPosting}
    (hurl : p.applyUrl = effectiveUrl S job existing)
    (hincoming : S.Canonical (S.canonicalizeApplyUrl job.applyUrl))
    (hstored : ∀ e, existing = some e → S.Canonical (S.canonicalizeApplyUrl e.applyUrl))
    (kind : Option OccurrenceKind) (hkind : kind ≠ some .reposted) :
    effectiveUrl S { job with occurrenceKind := kind } (some p) =
      effectiveUrl S job existing := by
  have hself := Services.choose_self hincoming
  simp only [effectiveUrl, hkind, if_false, hurl, Services.choose_nil]
  cases existing with
  | none => exact hself
  | some e =>
    simp only
    split_ifs
    · exact hself
    · have hcanon : S.Canonical (S.canonicalizeApplyUrl (S.canonicalizeApplyUrl job.applyUrl)) :=
        congrArg S.canonicalizeApplyUrl hincoming
      exact Services.choose_choose (hstored e rfl) hcanon

/-- **The effective values again**: an observation that meets the posting it left has the effective
values it had the first time. -/
theorem effectiveJob_again {job : NormalizedJob} {existing : Option JobPosting} {p : JobPosting}
    (hurl : p.applyUrl = (effectiveJob S job existing).applyUrl)
    (hlocation : p.location = (effectiveJob S job existing).location)
    (hsource : p.locationSource = (effectiveJob S job existing).locationSource)
    (hincoming : S.Canonical (S.canonicalizeApplyUrl job.applyUrl))
    (hstored : ∀ e, existing = some e → S.Canonical (S.canonicalizeApplyUrl e.applyUrl))
    (kind : Option OccurrenceKind) (hkind : kind ≠ some .reposted) :
    effectiveJob S { job with occurrenceKind := kind } (some p) =
      { effectiveJob S job existing with occurrenceKind := kind } := by
  have hurl' := effectiveUrl_again (p := p) hurl hincoming hstored kind hkind
  set u := effectiveUrl S job existing with hu
  have hhash : effectiveHash S { job with occurrenceKind := kind } u = effectiveHash S job u := rfl
  have hagain := effectiveLocation_again (S := S)
    { job with applyUrl := u, contentHash := effectiveHash S job u }
    (existing.map (·.location)) (existing.bind (·.locationSource))
  rw [effectiveJob_eq, effectiveJob_eq, hurl', ← hu, hhash]
  rw [effectiveJob_eq, ← hu] at hlocation hsource
  simp only [reconcileLocation] at hlocation hsource
  rw [← hlocation, ← hsource] at hagain
  have hloc : effectiveLocation S
      { job with occurrenceKind := kind, applyUrl := u, contentHash := effectiveHash S job u }
      (some p.location) p.locationSource =
      effectiveLocation S { job with applyUrl := u, contentHash := effectiveHash S job u }
        (existing.map (·.location)) (existing.bind (·.locationSource)) := hagain
  simp only [reconcileLocation, Option.map_some, Option.bind_some, hloc]

/-! ## The second delivery -/

theorem candidate_postedAt (base : Option JobRows) (job : NormalizedJob) :
    (candidate S base job).postedAt = job.postedAt := by
  unfold candidate prepareCandidate
  split <;> rfl

/-- Every posting write merges the incoming date into some earlier one. -/
theorem upsertRows_postedAt (path : WritePath) (posting_id : ℕ) (reposted : Bool)
    (values : PostingValues) (base : Option JobRows) :
    ∃ current, (upsertRows path posting_id reposted values base).posting.postedAt =
      earlierPostedAt current values.postedAt := by
  have hnew : values.postedAt = earlierPostedAt none values.postedAt := by
    cases values.postedAt <;> rfl
  cases base with
  | none => exact ⟨none, hnew⟩
  | some b =>
    cases path with
    | single => exact ⟨b.posting.postedAt, rfl⟩
    | bulk =>
      cases reposted with
      | true => exact ⟨none, hnew⟩
      | false => exact ⟨b.posting.postedAt, earliest_eq_earlier _ _⟩

/-- Either path overwrites the posting of an update alike. -/
theorem upsertRows_update (path : WritePath) (posting_id : ℕ) (values : PostingValues)
    (b : JobRows) :
    upsertRows path posting_id false values (some b) =
      { b with
        posting := b.posting.overwrite values
          (earlierPostedAt b.posting.postedAt values.postedAt) } := by
  cases path with
  | single => rfl
  | bulk => simp [upsertRows, JobPosting.conflictUpdate, earliest_eq_earlier]

section first

variable {ids : WriteIds} {base : Option JobRows} {job : NormalizedJob} {rows : JobRows}
  {state : DeduplicationState} (h : deliverJob cfg S path ids base job = some (rows, state))
include h

/-- The publication date a delivery keeps is not changed by the same observation. -/
theorem deliverJob_postedAt :
    earlierPostedAt rows.posting.postedAt job.postedAt = rows.posting.postedAt := by
  obtain ⟨current, hcurrent⟩ := upsertRows_postedAt path ids.posting
    ((candidate S base job).occurrenceKind = some .reposted)
    (PostingValues.of ids.company (effectiveJob S (candidate S base job) (base.map (·.posting))))
    base
  have hposted : rows.posting.postedAt = earlierPostedAt current job.postedAt := by
    rw [deliverJob_posting h, ← candidate_postedAt (S := S) base job]
    exact hcurrent
  rw [hposted, earlierPostedAt_again]

/-- Overwriting a delivered posting with its own values changes its date only. -/
theorem deliverJob_overwrite (postedAt : Option Time) :
    rows.posting.overwrite (PostingValues.of ids.company
        (effectiveJob S (candidate S base job) (base.map (·.posting)))) postedAt =
      { rows.posting with postedAt := postedAt } := by
  obtain ⟨details, -, rfl, -⟩ := writeEffects_eq_some h
  cases path <;> cases base <;> rfl

/-- The details a delivery leaves in the latest occurrence. -/
theorem deliverJob_details (hlife : ∀ b, base = some b → b.Lifecycle)
    (hdecision : decision S base job ≠ .ambiguousReopen) :
    ∃ merged, mergeDetails (previousDetails S base job) job.details = some merged ∧
      (latest (some rows)).bind (·.details) = merged := by
  obtain ⟨details, hdetails, rfl, -⟩ := writeEffects_eq_some h
  rw [upsertRows_latest, detailsUpdate_of_decision hlife path job ids.occurrence
    (by rw [upsertRows_isClosed]; rfl), if_neg hdecision, Option.map_eq_some_iff] at hdetails
  obtain ⟨merged, hmerged, rfl⟩ := hdetails
  refine ⟨merged, hmerged, ?_⟩
  simp only [latest, Option.bind_some, Option.getD_some]
  rw [OccurrenceStep.place_getLast?]
  rfl

/-- **The second decision**: an observation that was not ambiguous is an open update of what it
left. -/
theorem decision_again (hlife : ∀ b, base = some b → b.Lifecycle) (hrows : rows.Lifecycle)
    (hdecision : decision S base job ≠ .ambiguousReopen) :
    decision S (some rows) job = .openUpdate := by
  have hclosed : rows.posting.isClosed = job.isClosed := by
    rw [deliverJob_isClosed h, candidate_isClosed (decided S hlife job)]
    simp [hdecision]
  have hdecided : Decided job (some rows) (decision S (some rows) job) :=
    decided S (fun b hb => Option.some.inj hb ▸ hrows) job
  cases hd : decision S (some rows) job <;> rw [hd] at hdecided <;> cases hdecided <;> simp_all

/-- **The second write** changes the posting in its details only. -/
theorem deliverJob_again (hlife : ∀ b, base = some b → b.Lifecycle) (hrows : rows.Lifecycle)
    (hdecision : decision S base job ≠ .ambiguousReopen)
    (hincoming : S.Canonical (S.canonicalizeApplyUrl job.applyUrl))
    (hstored : ∀ b, base = some b → S.Canonical (S.canonicalizeApplyUrl b.posting.applyUrl))
    {ids' : WriteIds} (hcompany : ids'.company = ids.company) {rows' : JobRows}
    {state' : DeduplicationState}
    (h' : deliverJob cfg S path ids' (some rows) job = some (rows', state')) :
    rows'.posting = { rows.posting with details := rows'.posting.details } ∧
      rows'.occurrences.map (·.withoutDetails) = rows.occurrences.map (·.withoutDetails) ∧
      rows'.events = rows.events ∧ rows'.statusLogs = rows.statusLogs ∧ state' = .noOp := by
  have hagain := decision_again h hlife hrows hdecision
  have hcand : candidate S (some rows) job = { candidate S base job with occurrenceKind := none } := by
    rw [candidate_of_ne_ambiguous (by rw [hagain]; simp), candidate_of_ne_ambiguous hdecision,
      if_neg (by rw [hagain]; simp)]
  have hurl : (candidate S base job).applyUrl = job.applyUrl := by
    rw [candidate_of_ne_ambiguous hdecision]
  obtain ⟨-, happly_url, hlocation, hsource⟩ := deliverJob_columns h
  have heffective := effectiveJob_again happly_url hlocation hsource (hurl.symm ▸ hincoming)
    (fun e he => by
      obtain ⟨b, hb, rfl⟩ := Option.map_eq_some_iff.mp he
      exact hstored b hb) none (by simp)
  have hvalues : PostingValues.of ids'.company (effectiveJob S (candidate S (some rows) job)
      (some rows.posting)) = PostingValues.of ids.company (effectiveJob S (candidate S base job)
        (base.map (·.posting))) := by
    rw [hcand, heffective, hcompany]
    rfl
  have hposting : rows'.posting = { rows.posting with details := rows'.posting.details } := by
    have hkind : decide ((candidate S (some rows) job).occurrenceKind = some .reposted) = false := by
      simp [hcand]
    have hdate : (PostingValues.of ids.company (effectiveJob S (candidate S base job)
        (base.map (·.posting)))).postedAt = job.postedAt := candidate_postedAt base job
    have hposting := deliverJob_posting h'
    simp only [hkind, Option.map_some, hvalues, upsertRows_update, hdate,
      deliverJob_postedAt h] at hposting
    rw [hposting]
    exact congrArg (fun p : JobPosting => { p with details := rows'.posting.details })
      (deliverJob_overwrite h _)
  obtain ⟨hocc, hevents, hlogs, hstate⟩ := deliver_quiet hrows (.inl hagain) h'
  refine ⟨hposting, hocc, hevents, hlogs, ?_⟩
  rw [hstate, hposting]
  cases path <;> simp [contentChanged]

end first

/-! ## The tables -/

/-- Delivering the observation reports `NO_OP` and changes nothing but the details of its job and
its provenance. -/
def NoOpDelivery (cfg : Config) (S : Services) (path : WritePath) (db : Db) (job : NormalizedJob) :
    Prop :=
  ∃ db' result rows rows', (Call.deliver path job).run cfg S db = .ok (db', [result]) ∧
    result.state = .noOp ∧ db.job job.baseHash = some rows ∧
    db'.job job.baseHash = some rows' ∧
    rows'.posting = { rows.posting with details := rows'.posting.details } ∧
    rows'.occurrences.map (·.withoutDetails) = rows.occurrences.map (·.withoutDetails) ∧
    rows'.events = rows.events ∧ rows'.statusLogs = rows.statusLogs ∧
    ∀ h, h ≠ job.baseHash → db'.job h = db.job h

/-- **Delivering twice is idempotent exactly when** every policy of the observation without evidence
was stated already by the details the first delivery merged it into. -/
theorem redelivery_idempotent_iff {db db₁ : Db} (hreach : Reachable cfg S db) {job : NormalizedJob}
    {results : List PersistedJobResult} (hdecision : db.classify S job ≠ .ambiguousReopen)
    (hfirst : (Call.deliver path job).run cfg S db = .ok (db₁, results))
    (hincoming : S.Canonical (S.canonicalizeApplyUrl job.applyUrl))
    (hstored : ∀ p, db.postingByHash job.baseHash = some p →
      S.Canonical (S.canonicalizeApplyUrl p.applyUrl)) :
    NoOpDelivery cfg S path db₁ job ↔
      ∀ key fact, statedPolicy job.details key = some fact → fact.evidence = [] →
        statedPolicy (previousDetails S (db.job job.baseHash) job) key ≠ none := by
  have hwf := hreach.wf
  rw [hwf.classify_eq] at hdecision
  have hlife : ∀ b, db.job job.baseHash = some b → b.Lifecycle := fun b hb => hreach.lifecycle hb
  have haccepts := ((Call.deliver_isOk_iff hwf).mp ⟨_, hfirst⟩).1
  have htx := Call.run_ok hwf hfirst
  obtain ⟨result, rfl, ⟨ids, rows, hcompany, -, -, hdel, -, hj⟩, hwf₁, -⟩ := Call.deliver_ok hwf hfirst
  have hrows : rows.Lifecycle := htx.lifecycle hwf (fun h b hb => hreach.lifecycle hb) _ _ hj
  have hprefix : db.companies <+: db₁.companies := by
    rw [htx.companies]
    exact (Db.insertCompanies_spec hwf _).2.2.1
  have hagain := decision_again hdel hlife hrows hdecision
  -- the second delivery fails only when the merged details cannot be merged again
  have hdeliverable : Deliverable cfg S path (some rows) job ↔
      ∀ key fact, statedPolicy job.details key = some fact → fact.evidence = [] →
        statedPolicy (previousDetails S (db.job job.baseHash) job) key ≠ none := by
    obtain ⟨merged, hmerged, hlatest⟩ := deliverJob_details hdel hlife hdecision
    have hprevious : previousDetails S (some rows) job = merged := by
      rw [← hlatest]
      simp [previousDetails, startsOccurrence, hagain, latest]
    rw [deliverable_iff fun b hb => Option.some.inj hb ▸ hrows, hagain, hprevious,
      Option.isSome_iff_ne_none, Ne, mergeDetails_again hmerged]
    simp only [reduceCtorEq, false_or, not_exists, not_and]
  rw [← hdeliverable]
  constructor
  · rintro ⟨db₂, result₂, rows₁, rows₂, hsecond, -⟩
    have hok := ((Call.deliver_isOk_iff hwf₁).mp ⟨_, hsecond⟩).2
    rwa [hj] at hok
  · intro hok
    obtain ⟨⟨db₂, results₂⟩, hsecond⟩ : ∃ r, (Call.deliver path job).run cfg S db₁ = .ok r :=
      (Call.deliver_isOk_iff hwf₁).mpr ⟨haccepts.mono hprefix, hj ▸ hok⟩
    have htx₂ := Call.run_ok hwf₁ hsecond
    obtain ⟨result₂, rfl, ⟨ids₂, rows₂, hcompany₂, -, -, hdel₂, -, hj₂⟩, -, hframe⟩ :=
      Call.deliver_ok hwf₁ hsecond
    rw [hj] at hdel₂
    have hprefix₂ : db₁.companies <+: db₂.companies := by
      rw [htx₂.companies]
      exact (Db.insertCompanies_spec hwf₁ _).2.2.1
    have hsame : ids₂.company = ids.company := by
      rw [hcompany, hcompany₂]
      refine Db.batchCompanyId_prefix hprefix₂ fun hid => ?_
      rw [Call.deliver_jobs] at htx
      exact haccepts.company hwf htx.companies hid
    obtain ⟨hposting, hocc, hevents, hlogs, hstate⟩ := deliverJob_again hdel hlife hrows hdecision
      hincoming (fun b hb => hstored _ (by rw [← Db.job_posting, hb]; rfl)) hsame hdel₂
    exact ⟨db₂, result₂, rows, rows₂, hsecond, hstate, hj, hj₂, hposting, hocc, hevents, hlogs,
      hframe⟩

/-- Details that state a policy as unknown, without evidence. -/
def unsupportedDetails : JobDetails :=
  { JobDetails.empty with
    policies := fun key => if key = .cpt then some ⟨.unknown, [], by decide, by simp⟩ else none }

/-- A first delivery that states a policy without evidence returns, the second one raises. -/
theorem redelivery_raises : ∃ db₁ results,
    Reachable sampleConfig .ascii .empty ∧
    Db.empty.classify .ascii { sampleJob with details := some unsupportedDetails } = .discover ∧
    (Call.deliver .bulk { sampleJob with details := some unsupportedDetails }).run sampleConfig
      .ascii .empty = .ok (db₁, results) ∧
    ¬ NoOpDelivery sampleConfig .ascii .bulk db₁
      { sampleJob with details := some unsupportedDetails } := by
  have hsecond : ((Call.deliver .bulk { sampleJob with details := some unsupportedDetails }).run
      sampleConfig .ascii .empty).toOption.any (fun r =>
        ((Call.deliver .bulk { sampleJob with details := some unsupportedDetails }).run
          sampleConfig .ascii r.1).toOption.isNone) = true := by decide +kernel
  cases hrun : (Call.deliver .bulk { sampleJob with details := some unsupportedDetails }).run
      sampleConfig .ascii .empty with
  | error e =>
    rw [hrun] at hsecond
    cases hsecond
  | ok r =>
    refine ⟨r.1, r.2, ⟨[], rfl⟩, rfl, rfl, ?_⟩
    rintro ⟨db₂, result, rows, rows', hagain, -⟩
    rw [hrun] at hsecond
    simp only [Except.toOption, Option.any_some, hagain] at hsecond
    cases hsecond

/-- The sample, which has no details, is delivered twice without a change. -/
theorem sample_redelivered : ∃ db₁ results,
    (Call.deliver .bulk sampleJob).run sampleConfig .ascii .empty = .ok (db₁, results) ∧
      NoOpDelivery sampleConfig .ascii .bulk db₁ sampleJob := by
  have hok : ((Call.deliver .bulk sampleJob).run sampleConfig .ascii .empty).toOption.isSome =
      true := by decide +kernel
  cases hrun : (Call.deliver .bulk sampleJob).run sampleConfig .ascii .empty with
  | error e =>
    rw [hrun] at hok
    cases hok
  | ok r =>
    refine ⟨r.1, r.2, rfl, (redelivery_idempotent_iff ⟨[], rfl⟩ ?_ hrun ?_ ?_).mpr ?_⟩
    · decide +kernel
    · have hcanon : Services.ascii.canonicalizeApplyUrl (Services.ascii.canonicalizeApplyUrl
        sampleJob.applyUrl) = Services.ascii.canonicalizeApplyUrl sampleJob.applyUrl := by
          decide +kernel
      exact hcanon
    · rintro p ⟨⟩
    · rintro key fact ⟨⟩

end JobPing
