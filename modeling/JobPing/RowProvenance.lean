import JobPing.ContentHashes

/-!
# The provenance of a row

The pipeline merges the URL of a row with that of the stored posting before it hands the job to the
repository, so what the repository records is the canonical form of the merged URL
(`deliverJob_provenance`). It is the row's own exactly when the merge leaves the row's canonical
URL (`provenance_own_iff`).
-/

namespace JobPing

variable {cfg : Config} {S : Services} {I : Ingestion} {path : WritePath}

/-! ## The observation of a delivery -/

/-- After an upsert the rows in conflict with the written one are all equal to it. -/
theorem Table.eq_of_mem_upsert {ρ : Type*} {conflicts : ρ → ρ → Bool} {row r : ρ} {t : List ρ}
    (h : r ∈ Table.upsert conflicts row t) (hc : conflicts row r = true) : r = row := by
  unfold Table.upsert at h
  split_ifs at h with hany
  · obtain ⟨s, hs, rfl⟩ := List.mem_map.mp h
    split_ifs with hrow
    · rfl
    · exact absurd ((if_neg hrow ▸ hc :)) hrow
  · rcases List.mem_append.mp h with h | h
    · exact absurd (List.any_eq_true.mpr ⟨r, h, hc⟩) hany
    · exact List.mem_singleton.mp h

/-- The row a job with a source writes. -/
theorem sourceObservationValues_of_some {posting : JobPosting} {occurrence : JobOccurrence}
    {job : NormalizedJob} {source sourceId : Str} (hsource : job.source = some source)
    (hid : job.sourceId = some sourceId) (hne : source ≠ [] ∧ sourceId ≠ []) :
    sourceObservationValues S posting occurrence job =
      [{ jobId := posting.id
         occurrenceId := occurrence.id
         source := source
         sourceId := sourceId
         identityNamespace := (observationIdentity S job).1
         externalJobId := (observationIdentity S job).2
         applyUrl := S.canonicalizeApplyUrl job.applyUrl
         postedAt := job.postedAt
         observedAt := Stamp.orNow job.observedAt }] := by
  have hs : truthy job.source = true := truthy_eq_true.mpr ⟨source, hsource, hne.1⟩
  have hi : truthy job.sourceId = true := truthy_eq_true.mpr ⟨sourceId, hid, hne.2⟩
  rw [sourceObservationValues, hs, hi, hsource, hid]
  rfl

theorem observationIdentity_of_some {job : NormalizedJob} {identity : Identity}
    (h : S.stablePostingIdentity job.source job.sourceId job.applyUrl = some identity) :
    observationIdentity S job = (some identity.1, some identity.2) := by
  simp only [observationIdentity, h]

/-- The URL of a reposted posting is the canonical form of the observation's. -/
theorem effectiveJob_repost {job : NormalizedJob} (h : job.occurrenceKind = some .reposted)
    (existing : JobPosting) :
    (effectiveJob S job (some existing)).applyUrl = S.canonicalizeApplyUrl job.applyUrl := by
  simp only [effectiveJob, h, if_true]
  rfl

/-- **The provenance of a delivery**: the rows hold one observation of the job's source for the latest
occurrence, under the canonical form of the job's URL, and a repost takes that URL over. -/
theorem deliverJob_provenance {ids : WriteIds} {base : Option JobRows}
    (hlife : ∀ b, base = some b → b.Lifecycle) {job : NormalizedJob} {source sourceId : Str}
    (hsource : job.source = some source) (hid : job.sourceId = some sourceId)
    (hne : source ≠ [] ∧ sourceId ≠ []) {rows : JobRows} {state : DeduplicationState}
    (h : deliverJob cfg S path ids base job = some (rows, state)) :
    ∃ last, rows.occurrences.getLast? = some last ∧
      (∃ observation ∈ rows.observations, observation.jobId = rows.posting.id ∧
        observation.occurrenceId = last.id ∧ observation.source = source ∧
        observation.sourceId = sourceId) ∧
      (∀ observation ∈ rows.observations, observation.jobId = rows.posting.id →
        observation.occurrenceId = last.id → observation.source = source →
        observation.sourceId = sourceId →
          observation.applyUrl = S.canonicalizeApplyUrl job.applyUrl ∧
            (observation.identityNamespace, observation.externalJobId) =
              observationIdentity S job) ∧
      (decision S base job = .repost →
        rows.posting.applyUrl = S.canonicalizeApplyUrl job.applyUrl ∧
          last.applyUrl = S.canonicalizeApplyUrl job.applyUrl) := by
  have hurl := (deliverJob_columns h).2.1
  obtain ⟨details, -, hrows, -⟩ := writeEffects_eq_some h
  set upserted := upsertRows path ids.posting _ _ base
  set step := transition S path (base.map (·.posting)) upserted.posting
    upserted.occurrences.getLast? (candidate S base job) with hstep
  set occurrence := step.occurrence S ids.occurrence upserted.posting (candidate S base job)
    with hoccurrence
  rw [sourceObservationValues_of_some hsource hid hne, List.foldl_cons, List.foldl_nil] at hrows
  refine ⟨{ occurrence with details := details.getD occurrence.details }, ?_, ?_, ?_, ?_⟩
  · rw [hrows]
    exact OccurrenceStep.place_getLast? ..
  · rw [hrows]
    exact ⟨_, Table.self_mem_upsert _ _, rfl, rfl, rfl, rfl⟩
  · rw [hrows]
    intro observation hmem hjob hocc hs hi
    obtain rfl := Table.eq_of_mem_upsert hmem
      (by simp_all [JobSourceObservation.conflicts])
    exact ⟨rfl, rfl⟩
  · intro hd
    have hcandidate : (candidate S base job).applyUrl = job.applyUrl := by
      rw [candidate_of_ne_ambiguous (by rw [hd]; simp)]
    have hkind : (candidate S base job).occurrenceKind = some .reposted := by
      rw [candidate_kind, if_pos hd]
    cases base with
    | none => cases hd
    | some b =>
      obtain ⟨init, last, -, hlast⟩ := (hlife b rfl).chain.exists_last
      refine ⟨hurl.trans ?_, ?_⟩
      · rw [← hcandidate]
        exact effectiveJob_repost hkind b.posting
      · -- the repost has an occurrence of its own
        have hnew : step = .create .reposted (some last) true := by
          rw [hstep, show upserted.occurrences.getLast? = some last from hlast, Option.map_some,
            (hlife b rfl).transitionOf_decision hlast path job (upsertRows_isClosed ..), hd]
          simp [(hlife b rfl).repost_starts hd]
        rw [hoccurrence, hnew, ← hcandidate]
        rfl

/-! ## The row's own provenance -/

/-- The tables after a call hold, for the latest occurrence of the item's job, an observation of the
row's source with the canonical form and the identity of the row's own URL; where the item was taken
for a repost, posting and occurrence have that URL as well. -/
def ProvenanceIsOwn (I : Ingestion) (db db' : Db) (item : PipelineItem) : Prop :=
  let row := item.source.row
  let ownUrl := I.canonicalizeApplyUrl row.applyUrl
  ∃ rows last, db'.job item.job.baseHash = some rows ∧ rows.occurrences.getLast? = some last ∧
    (∃ observation ∈ rows.observations, observation.jobId = rows.posting.id ∧
      observation.occurrenceId = last.id ∧ observation.source = row.source ∧
      observation.sourceId = row.sourceId ∧ observation.applyUrl = ownUrl ∧
      ∀ identity, I.stablePostingIdentity (some row.source) (some row.sourceId) row.applyUrl =
          some identity →
        (observation.identityNamespace, observation.externalJobId) =
          (some identity.1, some identity.2)) ∧
    (db.classify I.toServices item.job = .repost →
      rows.posting.applyUrl = ownUrl ∧ last.applyUrl = ownUrl)

/-- The row's canonical URL survives the merge with the URL of the stored posting. -/
def OwnUrlKept (S : Services) (storedUrl validatedUrl rowUrl : Str) : Prop :=
  S.canonicalizeApplyUrl (S.chooseCanonicalApplyUrl storedUrl validatedUrl) =
    S.canonicalizeApplyUrl rowUrl

/-- The job of a row that has a stored posting: the merged URL. -/
theorem SimplifyCandidate.job_url {simplify : SimplifyConfig} {existing : JobPosting}
    {candidate : SimplifyCandidate} {job : NormalizedJob}
    (h : candidate.job I simplify (some existing) = some job) :
    ∃ validated, I.httpUrl candidate.row.applyUrl = some validated ∧
      job.applyUrl = I.chooseCanonicalApplyUrl existing.applyUrl validated := by
  obtain ⟨normalized, hnormalized, rfl⟩ := Option.map_eq_some_iff.mp h
  obtain ⟨details, hvalid⟩ := SimplifyCandidate.normalize_eq_some hnormalized
  exact ⟨normalized.applyUrl, (NormalizedJob.validate_eq_some hvalid).1, rfl⟩

/-- **The provenance of a winning item is the row's own exactly when** the row's canonical URL
survives the merge with the stored URL: for every stored posting the pipeline read, and every state
of the tables the results are persisted in. -/
theorem provenance_own_iff {db : Db} (hreach : Reachable cfg I.toServices db) {read : Db}
    {cache : Cache} {sources : List SimplifySource} {deduplicator : Option Cache}
    {persisted : Persisted}
    (h : persistResults cfg I db (processAll I (some read) cache sources).1 deduplicator =
      .ok persisted) {item : PipelineItem}
    (hitem : item ∈ winners (processAll I (some read) cache sources).1) {existing : JobPosting}
    (hexisting : read.postingByHash item.job.baseHash = some existing) :
    ∃ validated, I.httpUrl item.source.row.applyUrl = some validated ∧
      (ProvenanceIsOwn I db persisted.db item ↔
        OwnUrlKept I.toServices existing.applyUrl validated item.source.row.applyUrl) := by
  have hwf := hreach.wf
  obtain ⟨group, hgroup, hmem⟩ := mem_winners hitem
  obtain ⟨source, -, -, hclassified⟩ := processed_items hgroup hmem
  obtain ⟨-, -, hsource, hid⟩ := SimplifyCandidate.job_columns hclassified.job
  have hstored : storedPosting (some read) (item.source.row.baseHash I) = some existing := by
    rw [← hclassified.baseHash]
    exact hexisting
  have hjob := hclassified.job
  rw [hstored] at hjob
  obtain ⟨validated, hvalidated, hurl⟩ := SimplifyCandidate.job_url hjob
  refine ⟨validated, hvalidated, ?_⟩
  rw [OwnUrlKept, ← hurl]
  -- the delivery of the item
  obtain ⟨result, -, ids, rows, -, -, -, hdel, -, hrows⟩ :=
    Table.forall₂_left (bulk_ok hwf (persistResults_ok h).1).delivered (List.mem_map_of_mem hitem)
  obtain ⟨last, hlast, hexists, hall, hrepost⟩ := deliverJob_provenance
    (fun b hb => hreach.lifecycle hb) hsource hid
    ⟨item.source.row.source_ne, item.source.row.sourceId_ne⟩ hdel
  constructor
  · rintro ⟨rows', last', hrows', hlast', ⟨observation, hobs, hj, ho, hs, hi, hown, -⟩, -⟩
    obtain rfl := Option.some.inj (hrows.symm.trans hrows')
    obtain rfl := Option.some.inj (hlast.symm.trans hlast')
    exact (hall observation hobs hj ho hs hi).1.symm.trans hown
  · intro hown
    rw [← hwf.classify_eq, hown] at hrepost
    obtain ⟨observation, hobs, hj, ho, hs, hi⟩ := hexists
    obtain ⟨hcanonical, hidentity⟩ := hall observation hobs hj ho hs hi
    refine ⟨rows, last, hrows, hlast, ⟨observation, hobs, hj, ho, hs, hi, hcanonical.trans hown,
      fun identity hown_identity => ?_⟩, hrepost⟩
    rw [hidentity]
    apply observationIdentity_of_some
    rw [hsource, hid, I.identity_canonical _ _ hown]
    exact hown_identity

/-! ## A row under another URL -/

/-- The tables after a README listed the sample job under the URL. -/
def listedUnder (url : String) : Db :=
  ingestAll sampleConfig .ascii .empty
    [.simplify (some .empty) (fun _ => none)
      [sampleCommit "c0ffee" [sampleTableRow url "Remote" false]]]

/-- The results of a second commit, which lists the job under the URL of its own page. -/
def pageResults (read : Db) : List PipelineResult :=
  (processAll .ascii (some read) (fun _ => none)
    [sampleCommit "decade" [sampleTableRow "https://example.com/jobs/1" "Remote" false]]).1

/-- On a posting with a URL of Lever the observation of the second row carries that URL. -/
theorem merged_url_recorded : ∃ persisted item existing,
    Reachable sampleConfig Ingestion.ascii.toServices
        (listedUnder "https://jobs.lever.co/acme/1") ∧
      persistResults sampleConfig .ascii (listedUnder "https://jobs.lever.co/acme/1")
        (pageResults (listedUnder "https://jobs.lever.co/acme/1")) none = .ok persisted ∧
      item ∈ winners (pageResults (listedUnder "https://jobs.lever.co/acme/1")) ∧
      (listedUnder "https://jobs.lever.co/acme/1").postingByHash item.job.baseHash =
        some existing ∧
      ¬ ProvenanceIsOwn .ascii (listedUnder "https://jobs.lever.co/acme/1") persisted.db item := by
  set db := listedUnder "https://jobs.lever.co/acme/1" with hdb
  have hone : (winners (pageResults db)).length = 1 ∧
      (winners (pageResults db)).all (fun item =>
        (db.postingByHash item.job.baseHash).isSome) = true := by decide +kernel
  have hother : (persistResults sampleConfig .ascii db (pageResults db) none).toOption.any
      (fun persisted => (winners (pageResults db)).all fun item =>
        (persisted.db.job item.job.baseHash).all fun rows => rows.observations.all fun row =>
          row.applyUrl ≠ Ingestion.ascii.canonicalizeApplyUrl item.source.row.applyUrl) =
      true := by decide +kernel
  obtain ⟨item, hitem⟩ := List.length_eq_one_iff.mp hone.1
  have hmem : item ∈ winners (pageResults db) := hitem ▸ List.mem_singleton_self item
  obtain ⟨existing, hexisting⟩ := Option.isSome_iff_exists.mp (List.all_eq_true.mp hone.2 item hmem)
  cases hrun : persistResults sampleConfig .ascii db (pageResults db) none with
  | error e =>
    rw [hrun] at hother
    cases hother
  | ok persisted =>
    rw [hrun] at hother
    refine ⟨persisted, item, existing, ingestAll_reachable .., rfl, hmem, hexisting, ?_⟩
    rintro ⟨rows, last, hrows, -, ⟨observation, hobs, -, -, -, -, hown, -⟩, -⟩
    have hall := List.all_eq_true.mp hother item hmem
    rw [hrows] at hall
    exact of_decide_eq_true (List.all_eq_true.mp hall observation hobs) hown

/-- On a posting with the same URL its observation is its own. -/
theorem page_listed_again : ∃ persisted item existing validated,
    persistResults sampleConfig .ascii (listedUnder "https://example.com/jobs/1")
        (pageResults (listedUnder "https://example.com/jobs/1")) none = .ok persisted ∧
      item ∈ winners (pageResults (listedUnder "https://example.com/jobs/1")) ∧
      (ProvenanceIsOwn .ascii (listedUnder "https://example.com/jobs/1") persisted.db item ↔
        OwnUrlKept Ingestion.ascii.toServices existing validated item.source.row.applyUrl) := by
  set db := listedUnder "https://example.com/jobs/1" with hdb
  have hone : (winners (pageResults db)).length = 1 ∧
      (winners (pageResults db)).all (fun item =>
        (db.postingByHash item.job.baseHash).isSome) = true := by decide +kernel
  have hok : (persistResults sampleConfig .ascii db (pageResults db) none).toOption.isSome =
      true := by decide +kernel
  obtain ⟨item, hitem⟩ := List.length_eq_one_iff.mp hone.1
  have hmem : item ∈ winners (pageResults db) := hitem ▸ List.mem_singleton_self item
  obtain ⟨existing, hexisting⟩ := Option.isSome_iff_exists.mp (List.all_eq_true.mp hone.2 item hmem)
  cases hrun : persistResults sampleConfig .ascii db (pageResults db) none with
  | error e =>
    rw [hrun] at hok
    cases hok
  | ok persisted =>
    obtain ⟨validated, -, hiff⟩ :=
      provenance_own_iff (ingestAll_reachable ..) hrun hmem hexisting
    exact ⟨persisted, item, existing.applyUrl, validated, rfl, hmem, hiff⟩

end JobPing
