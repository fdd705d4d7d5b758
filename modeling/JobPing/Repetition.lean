import JobPing.Ambiguous

/-!
# Repeated ambiguous observations

The write of an ambiguous observation records the identity of the row as provenance of the closed
occurrence, and the next decision reads that provenance. So a second delivery of the same row meets
its own evidence: it stays ambiguous exactly when the row has no identity, records none, or records
an identity that neither is the one it is matched by nor makes that one look new in a known
namespace (`decision_after_ambiguous`). The condition is about the row and the closed occurrence
only, which no ambiguous delivery changes, so it settles every number of deliveries
(`stays_ambiguous_iff`).
-/

namespace JobPing

variable {cfg : Config} {S : Services} {path : WritePath}

/-! ## The evidence an ambiguous observation leaves -/

/-- The identity a source observation of the row is stored with, if one is stored at all. -/
def recordedIdentity (S : Services) (job : NormalizedJob) : Option Identity :=
  if !truthy job.source || !truthy job.sourceId then none
  else explicitIdentity (observationIdentity S job).1 (observationIdentity S job).2

theorem explicitIdentity_some {i : Identity} (h : i.1 ≠ [] ∧ i.2 ≠ []) :
    explicitIdentity (some i.1) (some i.2) = some i := by
  have h₁ : truthy (some i.1) = true := truthy_eq_true.mpr ⟨i.1, rfl, h.1⟩
  have h₂ : truthy (some i.2) = true := truthy_eq_true.mpr ⟨i.2, rfl, h.2⟩
  simp [explicitIdentity, h₁, h₂]

/-- A row with an identity is stored with one, when it is stored. -/
theorem recordedIdentity_isSome {job : NormalizedJob} {i : Identity}
    (hi : candidateIdentity S job = some i)
    (hsource : (!truthy job.source || !truthy job.sourceId) = false) :
    ∃ r, recordedIdentity S job = some r := by
  simp only [recordedIdentity, hsource, Bool.false_eq_true, if_false, observationIdentity]
  cases hs : S.stablePostingIdentity job.source job.sourceId job.applyUrl with
  | some s => exact ⟨s, explicitIdentity_some (S.identity_nonempty hs)⟩
  | none =>
    unfold candidateIdentity at hi
    cases he : explicitIdentity job.identityNamespace job.externalJobId with
    | some e => exact ⟨e, rfl⟩
    | none =>
      rw [he] at hi
      exact absurd (hs.symm.trans hi) (by simp)

/-- The provenance of a job after the row was recorded for its latest occurrence. -/
def recordRow (S : Services) (posting : JobPosting) (last : JobOccurrence) (job : NormalizedJob)
    (observations : List JobSourceObservation) : List JobSourceObservation :=
  (sourceObservationValues S posting last job).foldl
    (fun t row => Table.upsert JobSourceObservation.conflicts row t) observations

/-- A row that is not stored leaves the provenance alone. -/
theorem recordRow_of_unsourced {job : NormalizedJob}
    (hsource : (!truthy job.source || !truthy job.sourceId) = true) (posting : JobPosting)
    (last : JobOccurrence) (observations : List JobSourceObservation) :
    recordRow S posting last job observations = observations := by
  simp [recordRow, sourceObservationValues, hsource]

/-- The identities after the row was recorded: its own, and no other new one. -/
theorem recordRow_identities {job : NormalizedJob}
    (hsource : (!truthy job.source || !truthy job.sourceId) = false) (posting : JobPosting)
    (last : JobOccurrence) (observations : List JobSourceObservation) :
    (∀ r, recordedIdentity S job = some r →
      r ∈ occurrenceIdentities S last (recordRow S posting last job observations)) ∧
    ∀ j ∈ occurrenceIdentities S last (recordRow S posting last job observations),
      j ∈ occurrenceIdentities S last observations ∨ recordedIdentity S job = some j := by
  obtain ⟨row, hwritten, hocc, hrow⟩ : ∃ row, sourceObservationValues S posting last job = [row] ∧
      row.occurrenceId = last.id ∧
      explicitIdentity row.identityNamespace row.externalJobId = recordedIdentity S job := by
    simp only [sourceObservationValues, recordedIdentity, hsource, Bool.false_eq_true, if_false]
    exact ⟨_, rfl, rfl, rfl⟩
  simp only [recordRow, hwritten, List.foldl_cons, List.foldl_nil]
  constructor
  · intro r hr
    refine List.mem_append_right _ (List.mem_filterMap.mpr ⟨row, List.mem_filter.mpr ⟨?_, ?_⟩, ?_⟩)
    · exact Table.self_mem_upsert row observations
    · simpa using hocc
    · rw [hrow, hr]
  · intro j hj
    rcases List.mem_append.mp hj with hj | hj
    · exact .inl (List.mem_append_left _ hj)
    · obtain ⟨b, hb, hbj⟩ := List.mem_filterMap.mp hj
      obtain ⟨hmem, hbocc⟩ := List.mem_filter.mp hb
      rcases Table.mem_upsert hmem with rfl | hmem
      · exact .inr (hrow ▸ hbj)
      · exact .inl (List.mem_append_right _
          (List.mem_filterMap.mpr ⟨b, List.mem_filter.mpr ⟨hmem, hbocc⟩, hbj⟩))

/-! ## The next decision -/

/-- The decision on an open observation of a closed job. -/
theorem decision_eq_ambiguous_iff {p : JobPosting} {last : JobOccurrence}
    {identities : List Identity} {job : NormalizedJob} (hp : p.isClosed = true)
    (hc : job.isClosed = false) (hlast : last.closedAt.isSome = true) :
    decideOccurrence S job (job.source.getD []) (some p) (some (last, identities)) =
        .ambiguousReopen ↔
      (∀ i, candidateIdentity S job = some i → i ∉ identities) ∧
        isRepostCandidate S job (job.source.getD []) p (last, identities) = false := by
  rw [decide_of_closed hp hc hlast]
  split_ifs with h₁ h₂
  · obtain ⟨i, hi, hmem⟩ := h₁
    simp only [false_iff, not_and]
    exact fun hnot => absurd hmem (hnot i hi)
  · simp [h₂]
  · simp only [true_iff]
    exact ⟨fun i hi hmem => h₁ ⟨i, hi, hmem⟩, by simpa using h₂⟩

/-- The trusted dates of the row itself never prove it a repost: the publication date the posting
keeps is not later than the row's own. -/
theorem date_proof_again {p p' : JobPosting} {last : JobOccurrence} {job : NormalizedJob}
    {source : Str} (hposted : p'.postedAt = earlierPostedAt p.postedAt job.postedAt)
    (h : dateAndUrlProveRepost S job source p last = false) :
    dateAndUrlProveRepost S job source p' last = false := by
  unfold dateAndUrlProveRepost at h ⊢
  rw [hposted]
  cases hs : S.trustworthyPostingDateSource source with
  | false => rfl
  | true =>
    cases hj : job.postedAt with
    | none => rfl
    | some postedAt =>
      cases hl : last.postedAt with
      | some t => simpa [hs, hj, hl] using h
      | none =>
        cases hp : p.postedAt with
        | none => simp [earlierPostedAt]
        | some t =>
          simp only [hs, hj, hl, hp, Bool.true_and, Option.none_or, earlierPostedAt] at h ⊢
          split_ifs
          · simp
          · exact h

/-- What keeps a row ambiguous when it meets its own evidence: an identity it is stored with is
another one than it is matched by, and either of another namespace or no later. -/
def StaysAmbiguous (S : Services) (job : NormalizedJob) (last : JobOccurrence) : Prop :=
  ∀ i r, candidateIdentity S job = some i → recordedIdentity S job = some r →
    r ≠ i ∧ (r.1 ≠ i.1 ∨ postedLater job last = false)

/-- **The next decision** on the same row, over the evidence its first delivery left. -/
theorem decide_after_record {p p' : JobPosting} {last : JobOccurrence} {job : NormalizedJob}
    {observations : List JobSourceObservation} (hp : p.isClosed = true)
    (hp' : p'.isClosed = true)
    (hposted : p'.postedAt = earlierPostedAt p.postedAt job.postedAt)
    (hc : job.isClosed = false) (hlast : last.closedAt.isSome = true)
    (hamb : decideOccurrence S job (job.source.getD []) (some p)
      (some (last, occurrenceIdentities S last observations)) = .ambiguousReopen) :
    decideOccurrence S job (job.source.getD []) (some p')
        (some (last, occurrenceIdentities S last (recordRow S p last job observations))) =
          .ambiguousReopen ↔ StaysAmbiguous S job last := by
  rw [decision_eq_ambiguous_iff hp hc hlast] at hamb
  rw [decision_eq_ambiguous_iff hp' hc hlast]
  obtain ⟨hnew, hrepost⟩ := hamb
  set identities := occurrenceIdentities S last observations
  cases hi : candidateIdentity S job with
  | none =>
    -- without an identity only the dates decide, and they do not change their mind
    rw [isRepostCandidate_of_dates hp hc hlast (.inl hi)] at hrepost
    simp [isRepostCandidate_of_dates hp' hc hlast (.inl hi), date_proof_again hposted hrepost,
      StaysAmbiguous, hi]
  | some i =>
    have hnew := hnew i hi
    cases hsource : (!truthy job.source || !truthy job.sourceId) with
    | true =>
      -- nothing was recorded
      have hnone : recordedIdentity S job = none := by simp [recordedIdentity, hsource]
      rw [recordRow_of_unsourced hsource]
      refine iff_of_true ⟨fun i' hi' => Option.some.inj hi' ▸ hnew, ?_⟩ ?_
      · by_cases hempty : identities = []
        · rw [isRepostCandidate_of_dates hp hc hlast (.inr hempty)] at hrepost
          rw [isRepostCandidate_of_dates hp' hc hlast (.inr hempty)]
          exact date_proof_again hposted hrepost
        · rw [← Bool.not_eq_true, isRepostCandidate_of_identity hp hc hlast _ hi hempty] at hrepost
          rwa [← Bool.not_eq_true, isRepostCandidate_of_identity hp' hc hlast _ hi hempty]
      · intro i' r _ hr
        rw [hnone] at hr
        cases hr
    | false =>
      obtain ⟨r, hr⟩ := recordedIdentity_isSome hi hsource
      obtain ⟨hself, hsub⟩ := recordRow_identities (S := S) hsource p last observations
      have hr_mem := hself r hr
      set identities' := occurrenceIdentities S last (recordRow S p last job observations)
      have hempty : identities' ≠ [] := List.ne_nil_of_mem hr_mem
      have hiff : StaysAmbiguous S job last ↔
          r ≠ i ∧ (r.1 ≠ i.1 ∨ postedLater job last = false) := by simp [StaysAmbiguous, hi, hr]
      rw [hiff, ← Bool.not_eq_true, isRepostCandidate_of_identity hp' hc hlast _ hi hempty]
      constructor
      · rintro ⟨hnew', hrepost'⟩
        have hri : r ≠ i := fun h => hnew' i rfl (h ▸ hr_mem)
        refine ⟨hri, ?_⟩
        by_contra hcontra
        rw [not_or, not_not, Bool.not_eq_false] at hcontra
        exact hrepost' ⟨⟨r, hr_mem, hcontra.1⟩, hnew' i rfl, hcontra.2⟩
      · rintro ⟨hri, hcomp⟩
        have hnew' : i ∉ identities' := fun hmem => by
          rcases hsub i hmem with hmem | hmem
          · exact hnew hmem
          · exact hri (Option.some.inj (hr.symm.trans hmem))
        refine ⟨fun i' hi' => Option.some.inj hi' ▸ hnew', ?_⟩
        rintro ⟨⟨j, hj, hji⟩, -, hlater⟩
        -- the row's own identity is of another namespace, so an old one already was comparable
        have hri₁ : r.1 ≠ i.1 := by
          rcases hcomp with h | h
          · exact h
          · rw [hlater] at h
            cases h
        rcases hsub j hj with hj | hj
        · have hold := isRepostCandidate_of_identity hp hc hlast (job.source.getD [])
            hi (List.ne_nil_of_mem hj)
          rw [hrepost] at hold
          exact absurd (hold.mpr ⟨⟨j, hj, hji⟩, hnew, hlater⟩) (by simp)
        · exact hri₁ (Option.some.inj (hr.symm.trans hj) ▸ hji)

/-! ## Deliveries in a row -/

/-- **The decision after an ambiguous delivery** of the same row. -/
theorem decision_after_ambiguous {b : JobRows} (hlife : b.Lifecycle) {last : JobOccurrence}
    (hlast : b.occurrences.getLast? = some last) {job : NormalizedJob}
    (hamb : decision S (some b) job = .ambiguousReopen) (path : WritePath) (companyId : ℕ) :
    decision S (some (ambiguousRows S path companyId b job)) job = .ambiguousReopen ↔
      StaysAmbiguous S job last := by
  obtain ⟨e, he, hclosed, hopen⟩ := of_ambiguous hamb
  obtain rfl : b.posting = e := by simpa using he
  have hposted : (ambiguousPosting S path companyId b.posting job).postedAt =
      earlierPostedAt b.posting.postedAt job.postedAt := by
    cases path
    · rfl
    · exact earliest_eq_earlier b.posting.postedAt job.postedAt
  have hobs : (ambiguousRows S path companyId b job).observations =
      recordRow S b.posting last job b.observations := by
    simp only [ambiguousRows, hlast, Option.toList_some, List.flatMap_singleton, recordRow]
  have hlast' : (ambiguousRows S path companyId b job).occurrences.getLast? = some last := hlast
  rw [decision_of_last hlast] at hamb
  rw [decision_of_last hlast', hobs]
  exact decide_after_record hclosed (ambiguousPosting_eq S path companyId b.posting job).1 hposted
    hopen ((hlife.closed last hlast).trans hclosed) hamb

/-- The tables after the row was delivered `n` times in a row. -/
def redeliver (cfg : Config) (S : Services) (path : WritePath) (db : Db) (job : NormalizedJob)
    (n : ℕ) : Db :=
  execAll cfg S db (List.replicate n (.deliver path job))

theorem redeliver_succ (db : Db) (job : NormalizedJob) (n : ℕ) :
    redeliver cfg S path db job (n + 1) =
      (Call.deliver path job).exec cfg S (redeliver cfg S path db job n) := by
  rw [redeliver, List.replicate_succ', execAll_concat]
  rfl

theorem Reachable.redeliver {db : Db} (h : Reachable cfg S db) (path : WritePath)
    (job : NormalizedJob) (n : ℕ) : Reachable cfg S (redeliver cfg S path db job n) := by
  obtain ⟨calls, rfl⟩ := h
  exact ⟨calls ++ List.replicate n (.deliver path job), by simp [JobPing.redeliver, execAll]⟩

/-- The job is closed, and so is its latest occurrence. -/
def Db.StillClosed (db : Db) (baseHash : Digest) : Prop :=
  ∃ rows, db.job baseHash = some rows ∧ rows.posting.isClosed = true ∧
    ∃ last, rows.occurrences.getLast? = some last ∧ last.closedAt.isSome = true

/-- One more delivery of a row that is ambiguous now: refused, or written as an ambiguous one. -/
theorem deliver_ambiguous_exec (cfg : Config) (path : WritePath) {db : Db} (hwf : db.WF)
    {job : NormalizedJob} {b : JobRows}
    (hb : db.job job.baseHash = some b) (hlife : b.Lifecycle)
    (hamb : decision S (some b) job = .ambiguousReopen) :
    (db.Accepts S path job → ∃ companyId, ((Call.deliver path job).exec cfg S db).job
      job.baseHash = some (ambiguousRows S path companyId b job)) ∧
    (¬ db.Accepts S path job → (Call.deliver path job).exec cfg S db = db) := by
  have hdel := fun ids => deliver_ambiguous cfg path hlife hamb ids
  have hdeliverable : Deliverable cfg S path (db.job job.baseHash) job := fun ids => by
    rw [hb, hdel]
    rfl
  obtain ⟨hok, herr⟩ := Call.deliver_exec cfg S path hwf job
  refine ⟨fun haccepts => ?_, fun hno => herr fun h => hno h.1⟩
  obtain ⟨result, ⟨ids, rows, -, -, -, hrows, -, hj⟩, -⟩ := hok ⟨haccepts, hdeliverable⟩
  rw [hb, hdel, Option.some.injEq, Prod.mk.injEq] at hrows
  exact ⟨ids.company, hrows.1 ▸ hj⟩

/-- The row, delivered any number of times in a row, leaves the job closed: each of its deliveries
is classified as ambiguous. -/
def NeverReactivates (cfg : Config) (S : Services) (path : WritePath) (db : Db)
    (job : NormalizedJob) : Prop :=
  ∀ n, 1 ≤ n → (redeliver cfg S path db job n).StillClosed job.baseHash ∧
    ∀ k < n, (redeliver cfg S path db job k).classify S job = .ambiguousReopen

/-- **Repetition reactivates a closed job exactly when** the write is accepted and the row's own
record turns against it: an ambiguous row never reactivates the job if and only if it is refused, or
`StaysAmbiguous` holds of it and the closed occurrence. -/
theorem never_reactivates_iff {db : Db} (hreach : Reachable cfg S db) {job : NormalizedJob}
    (hamb : db.classify S job = .ambiguousReopen) :
    NeverReactivates cfg S path db job ↔
      (db.Accepts S path job → ∀ evidence,
        db.currentOccurrenceEvidence S job.baseHash = some evidence →
          StaysAmbiguous S job evidence.1) := by
  have hwf := hreach.wf
  rw [hwf.classify_eq] at hamb
  obtain ⟨e, he, -, -⟩ := of_ambiguous hamb
  obtain ⟨b, hb, -⟩ := Option.map_eq_some_iff.mp he
  have hlife := hreach.lifecycle hb
  rw [hb] at hamb
  obtain ⟨init, last, -, hlast⟩ := hlife.chain.exists_last
  have hevidence : (∀ evidence, db.currentOccurrenceEvidence S job.baseHash = some evidence →
      StaysAmbiguous S job evidence.1) ↔ StaysAmbiguous S job last := by
    rw [hwf.currentOccurrenceEvidence_eq, hb]
    simp [JobRows.evidence, hlast]
  rw [hevidence]
  constructor
  · intro h haccepts
    -- the second delivery meets the record of the first
    have hsecond := (h 2 (by omega)).2 1 (by omega)
    obtain ⟨companyId, hj⟩ := (deliver_ambiguous_exec cfg path hwf hb hlife hamb).1 haccepts
    have hone : redeliver cfg S path db job 1 = (Call.deliver path job).exec cfg S db := rfl
    rw [(hreach.redeliver path job 1).wf.classify_eq, hone, hj] at hsecond
    exact (decision_after_ambiguous hlife hlast hamb path companyId).mp hsecond
  · intro hstays
    have hrun : ∀ n, ∃ rows, (redeliver cfg S path db job n).job job.baseHash = some rows ∧
        decision S (some rows) job = .ambiguousReopen ∧
        rows.occurrences.getLast? = some last := by
      by_cases haccepts : db.Accepts S path job
      · have hstays := hstays haccepts
        intro n
        induction n with
        | zero => exact ⟨b, hb, hamb, hlast⟩
        | succ n ih =>
          obtain ⟨rows, hrows, hdecision, hlast'⟩ := ih
          have hreach' := hreach.redeliver path job n
          have hlife' := hreach'.lifecycle hrows
          obtain ⟨hok, hno⟩ := deliver_ambiguous_exec cfg path hreach'.wf hrows hlife' hdecision
          rw [redeliver_succ]
          by_cases haccepts' : (redeliver cfg S path db job n).Accepts S path job
          · obtain ⟨companyId, hj⟩ := hok haccepts'
            exact ⟨_, hj, (decision_after_ambiguous hlife' hlast' hdecision path companyId).mpr
              hstays, hlast'⟩
          · rw [hno haccepts']
            exact ⟨rows, hrows, hdecision, hlast'⟩
      · -- a refused write is refused every time
        have hsame : ∀ n, redeliver cfg S path db job n = db := by
          intro n
          induction n with
          | zero => rfl
          | succ n ih =>
            rw [redeliver_succ, ih]
            exact (deliver_ambiguous_exec cfg path hwf hb hlife hamb).2 haccepts
        exact fun n => ⟨b, by rw [hsame, hb], hamb, hlast⟩
    intro n _
    refine ⟨?_, fun k _ => ?_⟩
    · obtain ⟨rows, hrows, hdecision, hlast'⟩ := hrun n
      obtain ⟨p, hp, hclosed, -⟩ := of_ambiguous hdecision
      obtain rfl : rows.posting = p := by simpa using hp
      have hlife' := (hreach.redeliver path job n).lifecycle hrows
      exact ⟨rows, hrows, hclosed, last, hlast', (hlife'.closed last hlast').trans hclosed⟩
    · obtain ⟨rows, hrows, hdecision, -⟩ := hrun k
      rw [(hreach.redeliver path job k).wf.classify_eq, hrows]
      exact hdecision

/-- The row of another tenant reopens the closed sample: its second delivery matches the identity
the first one recorded. -/
theorem other_tenant_reactivates : Reachable sampleConfig .ascii closedSample ∧
    closedSample.classify .ascii otherTenant = .ambiguousReopen ∧
    ∀ path, ¬ NeverReactivates sampleConfig .ascii path closedSample otherTenant ∧
      ((redeliver sampleConfig .ascii path closedSample otherTenant 2).job
        otherTenant.baseHash).map (·.posting.isClosed) = some false := by
  have hsecond : ∀ path, (redeliver sampleConfig .ascii path closedSample otherTenant 1).classify
      .ascii otherTenant ≠ .ambiguousReopen := by
    rintro (_ | _) <;> decide +kernel
  refine ⟨closedSample_reachable, by decide +kernel, fun path => ⟨fun h => ?_, ?_⟩⟩
  · exact hsecond path ((h 2 (by omega)).2 1 (by omega))
  · cases path <;> decide +kernel

/-- A row without a source records nothing, so it never reopens the closed sample. -/
theorem sourceless_never_reactivates :
    NeverReactivates sampleConfig .ascii .bulk closedSample
      { otherTenant with source := none, sourceId := none } :=
  (never_reactivates_iff closedSample_reachable (by decide +kernel)).mpr fun _ _ _ _ _ _ hrecorded => by
    cases hrecorded

end JobPing
