import JobPing.Decisions
import JobPing.SameUpToIds

/-!
# The two write paths

From the same rows the bulk path does what the single-row path does and three things more
(`deliver_bulk_eq`): it gives a reposted job the date of the repost, it writes the status entry, and
it reports a change of the content hash. So the paths agree only on observations that leave the
lifecycle and the content hash alone (`paths_agree_iff`).
-/

namespace JobPing

variable {cfg : Config} {S : Services} {path : WritePath}

/-! ## What the bulk path does more -/

/-- The rows of the bulk path where the single-row path leaves `rows`. -/
def JobRows.inBulk (base : Option JobRows) (normalized : NormalizedJob) (rows : JobRows) :
    JobRows :=
  { rows with
    posting := { rows.posting with
      postedAt := if normalized.occurrenceKind = some .reposted then normalized.postedAt
        else rows.posting.postedAt }
    statusLogs := rows.statusLogs ++
      statusValues rows.posting (base.map (·.posting.isClosed)) }

/-- The outcome of the bulk path where the single-row path reports `state`. -/
def bulkState (base : Option JobRows) (rows : JobRows) (state : DeduplicationState) :
    DeduplicationState :=
  if state = .noOp ∧ base.any (fun b => b.posting.contentHash ≠ rows.posting.contentHash) then
    .roleUpdated
  else state

theorem stateForPersistence_changed (wasCreated createdRepost : Bool)
    (previousClosed : Option Bool) (isClosed changed : Bool) :
    stateForPersistence wasCreated createdRepost previousClosed isClosed changed =
      if stateForPersistence wasCreated createdRepost previousClosed isClosed false = .noOp ∧
        changed = true then .roleUpdated
      else stateForPersistence wasCreated createdRepost previousClosed isClosed false := by
  unfold stateForPersistence
  split_ifs <;> simp_all

/-- The two posting writes differ in the publication date of a repost. -/
theorem upsertRows_bulk (posting_id : ℕ) (reposted : Bool) (values : PostingValues)
    (base : Option JobRows) :
    upsertRows .bulk posting_id reposted values base =
      let rows := upsertRows .single posting_id reposted values base
      { rows with
        posting := { rows.posting with
          postedAt := if reposted then values.postedAt else rows.posting.postedAt } } := by
  cases base with
  | none => cases reposted <;> rfl
  | some b =>
    cases reposted with
    | true => rfl
    | false =>
      simp [upsertRows, JobPosting.conflictUpdate, JobPosting.assign, JobPosting.overwrite,
        earliest_eq_earlier]

/-- **The bulk path** does what the single-row path does, and a little more. -/
theorem deliver_bulk_eq {base : Option JobRows} (hlife : ∀ b, base = some b → b.Lifecycle)
    (ids : WriteIds) (job : NormalizedJob) :
    deliverJob cfg S .bulk ids base job =
      (deliverJob cfg S .single ids base job).map fun (rows, state) =>
        (rows.inBulk base (candidate S base job), bulkState base rows state) := by
  cases base with
  | none =>
    have hstep : ∀ path posting, transition S path none posting none (candidate S none job) =
        .create .discovered none (!posting.isClosed) := fun path posting => by cases path <;> rfl
    simp only [deliverJob, writeJob, writeEffects, Option.map_map, upsertRows_latest, latest,
      Option.bind_none, Option.map_none, hstep]
    congr 1
  | some b =>
    have hb := hlife b rfl
    obtain ⟨init, last, -, hlast⟩ := hb.chain.exists_last
    have hclosed := hb.closed last hlast
    simp only [deliverJob, writeJob, Option.map_some, upsertRows_bulk]
    set rows := upsertRows .single ids.posting _ _ (some b)
    have hlast' : rows.occurrences.getLast? = some last := hlast
    -- nothing after the posting write reads the publication date
    have hstep : ∀ postedAt, transition S .bulk (some b.posting)
        { rows.posting with postedAt := postedAt } (some last) (candidate S (some b) job) =
        transition S .single (some b.posting) rows.posting (some last) (candidate S (some b) job) :=
      fun _ => (hb.transition_eq hlast .single rows.posting _).symm
    have hocc : ∀ (step : OccurrenceStep) postedAt, step.occurrence S ids.occurrence
        { rows.posting with postedAt := postedAt } (candidate S (some b) job) =
        step.occurrence S ids.occurrence rows.posting (candidate S (some b) job) :=
      fun step _ => by cases step <;> rfl
    have hevent : ∀ (step : OccurrenceStep) postedAt o,
        step.eventRows { rows.posting with postedAt := postedAt } o =
          step.eventRows rows.posting o := fun step _ _ => by
      rcases step with ⟨kind, previous, _ | _⟩ | _ | _ | _ <;> rfl
    simp only [writeEffects, Option.map_map, hlast', hstep, hocc, hevent]
    congr 1
    funext details
    simp only [Function.comp_apply, created, previouslyClosed, contentChanged, hclosed,
      Option.any_some, Option.isNone_some, Bool.false_and, Prod.mk.injEq]
    refine ⟨?_, ?_⟩
    · simp only [JobRows.inBulk, pathStatusValues, Option.map_some, List.append_nil,
        decide_eq_true_eq]
      rfl
    · rw [stateForPersistence_changed _ _ _ _ (decide _)]
      rfl

/-! ## Agreement -/

namespace Db

variable {db db' : Db}

/-- The observation is not merged, or its details can be. -/
def Mergeable (S : Services) (db : Db) (job : NormalizedJob) : Prop :=
  db.classify S job = .ambiguousReopen ∨
    (mergeDetails (previousDetails S (db.job job.baseHash) job) job.details).isSome

/-- The observation updates a stored job and leaves its lifecycle and its content hash alone. -/
def UpdatesQuietly (S : Services) (db : Db) (job : NormalizedJob) : Prop :=
  (db.classify S job = .openUpdate ∨ db.classify S job = .ambiguousReopen) ∧
    ∀ p, db.postingByHash job.baseHash = some p →
      (effectiveJob S (prepareCandidate S job (db.classify S job) (some p)) (some p)).contentHash =
        p.contentHash

theorem WF.updatesQuietly_iff (hwf : db.WF) {job : NormalizedJob} :
    db.UpdatesQuietly S job ↔
      (decision S (db.job job.baseHash) job = .openUpdate ∨
          decision S (db.job job.baseHash) job = .ambiguousReopen) ∧
        ∀ b, db.job job.baseHash = some b → (effectiveJob S
          (candidate S (db.job job.baseHash) job) (some b.posting)).contentHash =
            b.posting.contentHash := by
  rw [UpdatesQuietly, hwf.classify_eq, ← job_posting]
  refine and_congr_right fun _ => ?_
  cases db.job job.baseHash <;> simp [candidate]

/-- The single-row path also checks that the name of a company is not blank. -/
theorem Accepts.bulk {job : NormalizedJob} (h : db.Accepts S path job) : db.Accepts S .bulk job := by
  unfold Accepts at h ⊢
  cases hid : job.companyId with
  | some id => simpa [hid] using h
  | none => cases hname : job.companyName <;> simp_all

/-- A delivered job of one call and its company. -/
theorem SameRows.of_delivered {db₁ db₂ : Db} {r : Renumbering} {rows₁ rows₂ : JobRows}
    (hcompanies : db₁.companies = db₂.companies)
    (hrows : rows₂ = (rows₁.renumber r).withCompany rows₂.posting.companyId)
    (hcompany : rows₁.posting.companyId = rows₂.posting.companyId) :
    db₁.SameRows db₂ r rows₁ rows₂ :=
  ⟨hrows, by rw [companyName, companyName, hcompanies, hcompany]⟩

/-- Rows that no call touched. -/
theorem SameRows.refl {db₁ db₂ : Db} (hcompanies : db₁.companies = db₂.companies) (rows : JobRows) :
    db₁.SameRows db₂ .refl rows rows :=
  .of_delivered hcompanies (by rw [JobRows.renumber_refl]; rfl) rfl

end Db

/-- The two paths, called on one job in the same state: both raise, or both return the same outcome
and leave the same rows. -/
def PathsAgree (cfg : Config) (S : Services) (db : Db) (job : NormalizedJob) : Prop :=
  match saveJobPostingWithOutcome cfg S db job,
      bulkUpsertJobPostingsWithOutcomes cfg S db [job] with
  | .ok (db₁, result), .ok (db₂, results) =>
    results.map (·.state) = [result.state] ∧ db₁.SameUpToIds db₂
  | .error _, .error _ => True
  | _, _ => False

/-- What is left to compare when both paths return: the status entry and the content hash. -/
theorem deliveries_agree_iff {base : Option JobRows} (hlife : ∀ b, base = some b → b.Lifecycle)
    {ids : WriteIds} {job : NormalizedJob} {rows : JobRows} {state : DeduplicationState}
    (h : deliverJob cfg S .single ids base job = some (rows, state)) :
    statusValues rows.posting (base.map (·.posting.isClosed)) = [] ∧
        bulkState base rows state = state ↔
      (decision S base job = .openUpdate ∨ decision S base job = .ambiguousReopen) ∧
        ∀ b, base = some b → (effectiveJob S (candidate S base job)
          (some b.posting)).contentHash = b.posting.contentHash := by
  rw [statusValues_eq_nil_iff hlife (deliverJob_isClosed h)]
  refine and_congr_right fun hquiet => ?_
  cases base with
  | none => rcases hquiet with hd | hd <;> cases hd
  | some b =>
    have hstate := (deliver_quiet (hlife b rfl) hquiet h).2.2.2
    have hhash := (deliverJob_columns h).1
    simp only [Option.map_some] at hhash
    simp only [contentChanged, Bool.false_eq_true, if_false] at hstate
    simp only [bulkState, hstate, Option.any_some, ← hhash, Option.some.injEq, forall_eq']
    by_cases heq : b.posting.contentHash = rows.posting.contentHash
    · simp [heq]
    · simp [heq, Ne.symm heq]

/-- **When both paths return**, they agree exactly on quiet updates. -/
theorem ok_paths_agree_iff {db db₁ db₂ : Db} (hreach : Reachable cfg S db) {job : NormalizedJob}
    {result : PersistedJobResult} {results : List PersistedJobResult}
    (htx₁ : Transaction cfg S .single db db₁ [job] [result])
    (htx₂ : Transaction cfg S .bulk db db₂ [job] results) :
    results.map (·.state) = [result.state] ∧ db₁.SameUpToIds db₂ ↔ db.UpdatesQuietly S job := by
  have hwf := hreach.wf
  have hlife : ∀ h b, db.job h = some b → b.Lifecycle := fun h b hb => hreach.lifecycle hb
  have hcompanies : db₁.companies = db₂.companies := htx₁.companies.trans htx₂.companies.symm
  obtain ⟨_, hr₁, ids₁, rows₁, hcompany₁, hp₁, ho₁, hdel₁, -, hj₁⟩ :=
    Table.forall₂_left htx₁.delivered List.mem_cons_self
  obtain rfl := List.mem_singleton.mp hr₁
  obtain ⟨result₂, rfl, ids₂, rows₂, hcompany₂, hp₂, ho₂, hdel₂, -, hj₂⟩ :
      ∃ result₂, results = [result₂] ∧ Delivered cfg S .bulk db db₂ job result₂ := by
    cases htx₂.delivered with
    | cons hdel hnil =>
      cases hnil
      exact ⟨_, rfl, hdel⟩
  -- the bulk delivery, as a single-row delivery with its ids
  rw [deliver_bulk_eq (hlife _), Option.map_eq_some_iff] at hdel₂
  obtain ⟨⟨rows₃, state₃⟩, hdel₃, heq⟩ := hdel₂
  simp only [Prod.mk.injEq] at heq
  obtain ⟨hrows₂, hstate₂⟩ := heq
  obtain ⟨⟨r, hr⟩, hstate⟩ := deliverJob_sameUpToIds
    (fun b hb => hwf.ids_below hb (hlife _ b hb)) hp₁ hp₂ ho₁ ho₂ hdel₁ hdel₃
  have hquiet := deliveries_agree_iff (hlife _) hdel₃
  rw [hwf.updatesQuietly_iff, ← hquiet]
  simp only [List.map_cons, List.map_nil, List.cons.injEq, and_true]
  constructor
  · rintro ⟨hsame, -, r', hrel⟩
    have hrel := hrel job.baseHash
    rw [hj₁, hj₂] at hrel
    cases hrel with
    | some hrows =>
      -- neither side has more status entries
      have hlogs := congrArg (·.statusLogs.length) hrows.1
      have hlogs₃ := congrArg (·.statusLogs.length) hr
      simp only [← hrows₂, JobRows.inBulk, JobRows.withCompany, JobRows.renumber,
        List.length_map, List.length_append] at hlogs hlogs₃
      exact ⟨List.eq_nil_of_length_eq_zero (by omega), by rw [hstate₂, hsame, hstate]⟩
  · intro hagree
    have hkind : (candidate S (db.job job.baseHash) job).occurrenceKind = none := by
      rw [candidate_kind]
      rcases (hquiet.mp hagree).1 with hd | hd <;> simp [hd]
    have hrows : rows₂ = rows₃ := by
      rw [← hrows₂, JobRows.inBulk, hkind, hagree.1]
      simp
    refine ⟨by rw [← hstate₂, hagree.2, hstate], ?_⟩
    refine Db.sameUpToIds_of_jobs htx₁.wf htx₂.wf (htx₁.lifecycle hwf hlife)
      (fun name => by rw [hcompanies]) fun h => ?_
    by_cases hh : h = job.baseHash
    · rw [hh, hj₁, hj₂]
      refine ⟨r, .some (.of_delivered hcompanies (hrows ▸ hr) ?_)⟩
      rw [deliverJob_companyId hdel₁, hrows, deliverJob_companyId hdel₃, hcompany₁, hcompany₂,
        Db.batchCompanyId, Db.batchCompanyId]
      simp only [Db.companyIdOf, hcompanies]
    · rw [htx₁.frame h (by simpa using hh), htx₂.frame h (by simpa using hh)]
      refine ⟨.refl, ?_⟩
      cases db.job h with
      | none => exact .none
      | some rows => exact .some (.refl hcompanies rows)

/-- **The two paths agree exactly when** the bulk path raises, or the single-row path accepts the
company and the observation leaves the lifecycle and the content hash of its job alone. -/
theorem paths_agree_iff {db : Db} (hreach : Reachable cfg S db) {job : NormalizedJob} :
    PathsAgree cfg S db job ↔
      (db.Accepts S .bulk job ∧ db.Mergeable S job →
        db.Accepts S .single job ∧ db.UpdatesQuietly S job) := by
  have hwf := hreach.wf
  have hmerge : ∀ path, Deliverable cfg S path (db.job job.baseHash) job ↔ db.Mergeable S job :=
    fun path => by
      rw [deliverable_iff fun b hb => hreach.lifecycle hb, Db.Mergeable, hwf.classify_eq]
  have hsingle : (∃ r, saveJobPostingWithOutcome cfg S db job = .ok r) ↔ _ := save_isOk_iff hwf
  have hbulk : (∃ r, bulkUpsertJobPostingsWithOutcomes cfg S db [job] = .ok r) ↔ _ :=
    bulk_singleton_isOk_iff hwf
  rw [hmerge] at hsingle hbulk
  unfold PathsAgree
  cases hs : saveJobPostingWithOutcome cfg S db job with
  | error e =>
    have hno : ¬ (db.Accepts S .single job ∧ db.Mergeable S job) := fun h => by
      obtain ⟨r, hr⟩ := hsingle.mpr h
      rw [hs] at hr
      cases hr
    cases hb : bulkUpsertJobPostingsWithOutcomes cfg S db [job] with
    | error e' =>
      refine iff_of_true trivial fun h => ?_
      obtain ⟨r, hr⟩ := hbulk.mpr h
      rw [hb] at hr
      cases hr
    | ok r =>
      have hok := hbulk.mp ⟨r, hb⟩
      exact iff_of_false id fun h => hno ⟨(h hok).1, hok.2⟩
  | ok r₁ =>
    obtain ⟨db₁, result⟩ := r₁
    have hok := hsingle.mp ⟨_, hs⟩
    obtain ⟨⟨db₂, results⟩, hb⟩ := hbulk.mpr ⟨hok.1.bulk, hok.2⟩
    rw [hb]
    exact (ok_paths_agree_iff hreach (save_ok hwf hs).2 (bulk_ok hwf hb)).trans
      ⟨fun h _ => ⟨hok.1, h⟩, fun h => (h ⟨hok.1.bulk, hok.2⟩).2⟩

/-- The two paths report a new content hash differently. -/
theorem paths_disagree : Reachable sampleConfig .ascii openSample ∧
    ¬ PathsAgree sampleConfig .ascii openSample
      { sampleJob with contentHash := sampleHash 'c' rfl } := by
  refine ⟨openSample_reachable, fun h => ?_⟩
  have hsingle : (saveJobPostingWithOutcome sampleConfig .ascii openSample
      { sampleJob with contentHash := sampleHash 'c' rfl }).toOption.map (·.2.state) =
        some .noOp := by decide +kernel
  have hbulk : (bulkUpsertJobPostingsWithOutcomes sampleConfig .ascii openSample
      [{ sampleJob with contentHash := sampleHash 'c' rfl }]).toOption.map
        (fun r => r.2.map (·.state)) = some [.roleUpdated] := by decide +kernel
  unfold PathsAgree at h
  split at h
  case h_1 hs hb =>
    rw [hs] at hsingle
    rw [hb] at hbulk
    simp only [Except.toOption, Option.map_some, Option.some.injEq] at hsingle hbulk
    rw [hsingle, hbulk] at h
    cases h.1
  case h_2 hs _ =>
    rw [hs] at hsingle
    cases hsingle
  case h_3 => exact h

/-- The paths agree on the sample delivered again. -/
theorem paths_agree_again : PathsAgree sampleConfig .ascii openSample sampleJob :=
  (paths_agree_iff openSample_reachable).mpr fun _ => by
    refine ⟨fun _ => by decide, .inl (by decide +kernel), fun p hp => ?_⟩
    have hhash : (openSample.postingByHash sampleJob.baseHash).all (fun p =>
        (effectiveJob .ascii (prepareCandidate .ascii sampleJob
          (openSample.classify .ascii sampleJob) (some p)) (some p)).contentHash =
            p.contentHash) = true := by decide +kernel
    rw [hp, Option.all_some, decide_eq_true_eq] at hhash
    exact hhash

end JobPing
