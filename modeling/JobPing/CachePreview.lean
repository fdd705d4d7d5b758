import JobPing.AtsPipeline
import JobPing.Redelivery

/-!
# The cache preview

Before the SQL write of a run, `_classify_and_persist` puts into the cache what it expects the write
to store. The pipeline resolves URL, hash and location with code of its own; the result is the
effective job of the repository (`previewJob_eq`), so the cache holds what the bulk path then
returns, and the writes after it change nothing (`preview_agrees`).
-/

namespace JobPing

variable {cfg : Config} {I : Ingestion}

/-- Choosing between a stored URL and a canonical form, or the URL itself, is the same. -/
theorem choose_canonicalized {stored incoming : Str}
    (hincoming : I.Canonical (I.canonicalizeApplyUrl incoming)) :
    I.chooseCanonicalApplyUrl stored (I.canonicalizeApplyUrl incoming) =
      I.chooseCanonicalApplyUrl stored incoming := by
  unfold Services.Canonical at hincoming
  simp only [Services.chooseCanonicalApplyUrl, hincoming]

/-- A choice that is the incoming URL itself leaves nothing to canonicalise. -/
theorem canonical_of_choose_eq {stored incoming : Str}
    (hstored : I.Canonical (I.canonicalizeApplyUrl stored))
    (hincoming : I.Canonical (I.canonicalizeApplyUrl incoming))
    (h : I.chooseCanonicalApplyUrl stored incoming = incoming) :
    I.Canonical incoming := by
  rcases Services.choose_eq_or (S := I.toServices) stored incoming with hc | hc
  · rw [← h, hc]
    exact hstored
  · rw [← h, hc]
    exact hincoming

/-- **The URL step of the pipeline** is that of the repository. -/
theorem reconcilePersistedUrl_eq {job : NormalizedJob} {existing : Option JobPosting}
    (hstored : ∀ e, existing = some e → I.Canonical (I.canonicalizeApplyUrl e.applyUrl))
    (hincoming : I.Canonical (I.canonicalizeApplyUrl job.applyUrl)) :
    reconcilePersistedUrl I job
        (if job.occurrenceKind = some .reposted then none else existing.map (·.applyUrl)) =
      { job with
        applyUrl := effectiveUrl I.toServices job existing
        contentHash :=
          effectiveHash I.toServices job (effectiveUrl I.toServices job existing) } := by
  set compared : Option Str :=
    if job.occurrenceKind = some .reposted then none else existing.map (·.applyUrl) with hcompared
  have hurl : effectiveUrl I.toServices job existing =
      I.chooseCanonicalApplyUrl (compared.getD []) job.applyUrl := by
    cases existing with
    | none => simp [effectiveUrl, compared]
    | some e =>
      by_cases hkind : job.occurrenceKind = some .reposted
      · simp [effectiveUrl, compared, hkind]
      · simp only [effectiveUrl, compared, hkind, if_false, Services.choose_nil,
          Option.map_some, Option.getD_some]
        exact choose_canonicalized hincoming
  have hcanonical : I.Canonical (I.canonicalizeApplyUrl (compared.getD [])) := by
    have hnil : I.Canonical (I.canonicalizeApplyUrl []) := by
      simp only [Services.Canonical, I.canonicalize_empty]
    rw [hcompared]
    split_ifs
    · exact hnil
    · cases existing with
      | none => exact hnil
      | some e => exact hstored e rfl
  rw [hurl]
  simp only [reconcilePersistedUrl]
  split_ifs with hsame
  · -- the incoming URL won, so it is canonical and neither side recomputes the hash
    have hjob : I.canonicalizeApplyUrl job.applyUrl = job.applyUrl :=
      canonical_of_choose_eq hcanonical hincoming hsame
    simp only [effectiveHash, hsame, hjob, ne_eq, not_true, or_self, if_false]
  · simp only [effectiveHash, hsame, ne_eq, not_false_iff, true_or, if_true]

/-- What a candidate is decided to be does not hide whether it is a repost. -/
theorem prepareCandidate_reposted (S : Services) (job : NormalizedJob)
    (decision : OccurrenceDecision) (existing : Option JobPosting)
    (h : decision = .ambiguousReopen → existing.isSome) :
    (prepareCandidate S job decision existing).occurrenceKind = some .reposted ↔
      decision = .repost := by
  cases decision with
  | ambiguousReopen =>
    obtain ⟨e, rfl⟩ := Option.isSome_iff_exists.mp (h rfl)
    simp [prepareCandidate]
  | _ => simp [prepareCandidate]

/-- **The preview** of a candidate is its effective job. -/
theorem previewJob_eq {db : Db} (hwf : db.WF) {candidate : AtsCandidate}
    (hincoming : I.Canonical (I.canonicalizeApplyUrl candidate.job.applyUrl))
    (hstored : ∀ p, db.postingByHash candidate.job.baseHash = some p →
      I.Canonical (I.canonicalizeApplyUrl p.applyUrl)) :
    previewJob I db candidate =
      effectiveJob I.toServices
        (JobPing.candidate I.toServices (db.job candidate.job.baseHash) candidate.job)
        ((db.job candidate.job.baseHash).map (·.posting)) := by
  set base := db.job candidate.job.baseHash with hbase
  have hexisting : db.postingByHash candidate.job.baseHash = base.map (·.posting) :=
    (Db.job_posting ..).symm
  have hevidence : db.currentOccurrenceEvidence I.toServices candidate.job.baseHash =
      base.bind (·.evidence I.toServices) := hwf.currentOccurrenceEvidence_eq _
  have hsource : candidate.raw.source = candidate.job.source.getD [] := by
    rw [candidate.source_eq, Option.getD_some]
  set prepared := JobPing.candidate I.toServices base candidate.job with hprepared
  have hsome : decision I.toServices base candidate.job = .ambiguousReopen →
      (base.map (·.posting)).isSome := fun h => by
    obtain ⟨e, he, -⟩ := of_ambiguous h
    rw [he]
    rfl
  have hkind : decision I.toServices base candidate.job = .repost ↔
      prepared.occurrenceKind = some .reposted :=
    (prepareCandidate_reposted I.toServices _ _ _ hsome).symm
  have hprepared_url : I.Canonical (I.canonicalizeApplyUrl prepared.applyUrl) := by
    rw [hprepared, JobPing.candidate]
    unfold prepareCandidate
    split
    · exact hincoming
    · next _ e _ he =>
      have hcanonical := hstored e (hexisting.trans he)
      exact congrArg I.canonicalizeApplyUrl hcanonical
    · exact hincoming
  have hurl := reconcilePersistedUrl_eq
    (fun e (he : base.map (·.posting) = some e) => hstored e (hexisting.trans he)) hprepared_url
  have hdecision : decideOccurrence I.toServices candidate.job candidate.raw.source (base.map (·.posting))
      (base.bind (·.evidence I.toServices)) = decision I.toServices base candidate.job := by
    rw [hsource]
    rfl
  simp only [← hkind] at hurl
  rw [effectiveJob_eq, ← hurl, previewJob]
  simp only [hexisting, hevidence]
  rw [hdecision]
  rfl

/-- The job a candidate is staged as is, in what the deduplicator is told, the posting returned. -/
theorem previewJob_cacheWrite {db db' : Db} (hwf : db.WF) {candidate : AtsCandidate}
    {result : PersistedJobResult}
    (hincoming : I.Canonical (I.canonicalizeApplyUrl candidate.job.applyUrl))
    (hstored : ∀ p, db.postingByHash candidate.job.baseHash = some p →
      I.Canonical (I.canonicalizeApplyUrl p.applyUrl))
    (hdelivered : Delivered cfg I.toServices .bulk db db' candidate.job result) :
    (previewJob I db candidate).cacheWrite = result.posting.cacheWrite := by
  obtain ⟨ids, rows, -, -, -, hdel, hposting, -⟩ := hdelivered
  obtain ⟨hhash, -⟩ := deliverJob_columns hdel
  have hclosed : rows.posting.isClosed = (effectiveJob I.toServices
      (JobPing.candidate I.toServices (db.job candidate.job.baseHash) candidate.job)
      ((db.job candidate.job.baseHash).map (·.posting))).isClosed := deliverJob_isClosed hdel
  have hbase : rows.posting.baseHash = candidate.job.baseHash :=
    deliverJob_baseHash (fun b hb => Db.job_baseHash hb) hdel
  have hpreview : (previewJob I db candidate).baseHash = candidate.job.baseHash := by
    rw [previewJob_eq hwf hincoming hstored]
    exact candidate_baseHash ..
  simp only [JobPosting.cacheWrite, NormalizedJob.cacheWrite, hpreview]
  rw [previewJob_eq hwf hincoming hstored, hposting, hbase, hhash, hclosed]

/-- **The cache is told what SQL stores.** With no concurrent writer, `_classify_and_persist` writes
to the deduplicator, before the bulk upsert, the hash and the closed flag of the posting that the
upsert returns for each candidate: the cache holds the stored hash when the SQL write begins, and
the writes after it change nothing. -/
theorem preview_agrees {db db' : Db} (hreach : Reachable cfg I.toServices db) (cache : Cache)
    {candidates : List AtsCandidate} {results : List PersistedJobResult}
    (hincoming : ∀ candidate ∈ candidates,
      I.Canonical (I.canonicalizeApplyUrl candidate.job.applyUrl))
    (hstored : ∀ candidate ∈ candidates, ∀ p,
      db.postingByHash candidate.job.baseHash = some p →
        I.Canonical (I.canonicalizeApplyUrl p.applyUrl))
    (h : bulkUpsertJobPostingsWithOutcomes cfg I.toServices db (candidates.map (·.job)) =
      .ok (db', results)) :
    List.Forall₂ (fun write result => write.contentHash = result.posting.contentHash ∧
        write.isClosed = result.posting.isClosed)
      (classifyAndPersist cfg I db cache candidates).previews results ∧
    List.Forall₂ (fun candidate result =>
        (classifyAndPersist cfg I db cache candidates).previewed candidate.job.baseHash =
          some result.posting.contentHash.hex) candidates results ∧
    (classifyAndPersist cfg I db cache candidates).cache =
      (classifyAndPersist cfg I db cache candidates).previewed := by
  have hwf := hreach.wf
  have hbulk := bulk_ok hwf h
  have hdelivered := List.forall₂_map_left_iff.mp hbulk.delivered
  have hwrites : List.Forall₂ (fun candidate result =>
      result.posting.cacheWrite = (previewJob I db candidate).cacheWrite) candidates results :=
    Table.forall₂_imp_mem hdelivered fun candidate hmem result hdel =>
      (previewJob_cacheWrite hwf (hincoming _ hmem) (hstored _ hmem) hdel).symm
  have hpreviews : (stage I db candidates).map (·.2.cacheWrite) =
      results.map fun result => result.posting.cacheWrite := by
    rw [stage, List.map_map]
    exact (Table.forall₂_map_eq hwrites).symm
  have hbases : List.Forall₂ (fun candidate result =>
      result.posting.baseHash = candidate.job.baseHash) candidates results :=
    hdelivered.imp fun candidate result ⟨_, _, _, _, _, _, hposting, hjob⟩ => by
      rw [hposting]
      exact Db.job_baseHash hjob
  have hdistinct : ((results.map fun result => result.posting.cacheWrite).map
      (·.baseHash)).Nodup := by
    have hmap : results.map (fun result => result.posting.baseHash) =
        candidates.map (fun candidate => candidate.job.baseHash) := Table.forall₂_map_eq hbases
    have hhashes := hbulk.hashes
    rw [List.map_map] at hhashes ⊢
    exact (congrArg List.Nodup hmap).mpr hhashes
  simp only [classifyAndPersist, h, hpreviews]
  refine ⟨?_, ?_, ?_⟩
  · rw [List.forall₂_map_left_iff]
    exact List.forall₂_same.mpr fun result _ => ⟨rfl, rfl⟩
  · refine (Table.forall₂_imp_mem hbases.flip fun result hresult candidate hbase => ?_).flip
    change updateAll _ _ candidate.job.baseHash = _
    rw [← hbase]
    exact updateAll_written hdistinct (List.mem_map_of_mem hresult)
  · exact updateAll_held fun write hwrite => updateAll_written hdistinct hwrite

/-- The tables after a run over one row of the sample company. -/
def listedSample : Db :=
  execAll sampleConfig Ingestion.ascii.toServices .empty
    [.bulk ((sampleCandidates "https://example.com/jobs/1").map (·.job))]

/-- The job of the sample with the URL of its board, which outranks the first, and the closed job of
another company. -/
def relisted : List AtsCandidate :=
  (AtsCandidate.collect .ascii sampleAts 0 [sampleRow "https://jobs.lever.co/acme/1",
    { sampleRow "https://jobs.lever.co/globex/2" with
      company := some "Globex".toList
      isClosed := .bool true }]).getD []

theorem relisted_preview_agrees : ∃ db' results,
    bulkUpsertJobPostingsWithOutcomes sampleConfig Ingestion.ascii.toServices listedSample
      (relisted.map (·.job)) = .ok (db', results) ∧ results.length = 2 ∧
    List.Forall₂ (fun write result => write.contentHash = result.posting.contentHash ∧
        write.isClosed = result.posting.isClosed)
      (classifyAndPersist sampleConfig .ascii listedSample (fun _ => none) relisted).previews
      results := by
  have hok : (bulkUpsertJobPostingsWithOutcomes sampleConfig Ingestion.ascii.toServices
      listedSample (relisted.map (·.job))).toOption.map (·.2.length) = some 2 := by decide +kernel
  cases hrun : bulkUpsertJobPostingsWithOutcomes sampleConfig Ingestion.ascii.toServices
      listedSample (relisted.map (·.job)) with
  | error e =>
    rw [hrun] at hok
    cases hok
  | ok r =>
    rw [hrun] at hok
    have hcanonical : ∀ candidate ∈ relisted,
        Ingestion.ascii.canonicalizeApplyUrl
            (Ingestion.ascii.canonicalizeApplyUrl candidate.job.applyUrl) =
          Ingestion.ascii.canonicalizeApplyUrl candidate.job.applyUrl ∧
        ∀ p ∈ listedSample.postingByHash candidate.job.baseHash,
          Ingestion.ascii.canonicalizeApplyUrl
              (Ingestion.ascii.canonicalizeApplyUrl p.applyUrl) =
            Ingestion.ascii.canonicalizeApplyUrl p.applyUrl := by decide +kernel
    exact ⟨r.1, r.2, rfl, Option.some.inj hok, (preview_agrees ⟨_, rfl⟩ (fun _ => none)
      (fun c hc => (hcanonical c hc).1) (fun c hc p hp => (hcanonical c hc).2 p hp) hrun).1⟩

end JobPing
