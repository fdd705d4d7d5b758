import JobPing.BatchLoop

/-!
# Calls are deliveries

A successful call of either write path delivers each of its jobs with `deliverJob`, to the rows
the job had before the call, and leaves every other job alone (`Transaction`, `save_ok`,
`bulk_ok`). A call fails exactly when one of its checks does or the details of one of its jobs
cannot be merged (`save_isOk_iff`, `bulk_isOk_iff`).
-/

namespace JobPing

variable {cfg : Config} {S : Services} {path : WritePath}

/-! ## Companies -/

/-- The tables with the companies of a batch. -/
def Db.insertCompanies (S : Services) (db : Db) (jobs : List NormalizedJob) : Db :=
  (batchCompanyNames S jobs).foldl Db.insertCompany db

namespace Db

variable {db db' : Db}

/-- A company statement only appends. -/
theorem insertCompany_spec (db : Db) (name : Str) :
    db.companies <+: (db.insertCompany name).companies ∧
      (db.insertCompany name).jobPostingSeq = db.jobPostingSeq ∧
      (db.insertCompany name).jobOccurrenceSeq = db.jobOccurrenceSeq ∧
      ((db.insertCompany name).companyIdOf name).isSome := by
  unfold insertCompany
  split_ifs with hany
  · refine ⟨List.prefix_rfl, rfl, rfl, ?_⟩
    simpa [companyIdOf] using hany
  · refine ⟨List.prefix_append _ _, rfl, rfl, ?_⟩
    simp [companyIdOf]

theorem companyIdOf_prefix (h : db.companies <+: db'.companies) {name : Str} {id : ℕ}
    (hid : db.companyIdOf name = some id) : db'.companyIdOf name = some id := by
  obtain ⟨new, hnew⟩ := h
  obtain ⟨c, hc, rfl⟩ := Option.map_eq_some_iff.mp hid
  rw [companyIdOf, ← hnew, List.find?_append, hc]
  rfl

theorem hasCompany_prefix (h : db.companies <+: db'.companies) {id : ℕ}
    (hid : db.hasCompany id = true) : db'.hasCompany id = true := by
  simp only [hasCompany, List.any_eq_true] at hid ⊢
  obtain ⟨c, hc, hcid⟩ := hid
  exact ⟨c, h.subset hc, hcid⟩

theorem hasCompany_of_name {name : Str} {id : ℕ} (h : db.companyIdOf name = some id) :
    db.hasCompany id = true := by
  obtain ⟨c, hc, rfl⟩ := Option.map_eq_some_iff.mp h
  rw [hasCompany, List.any_eq_true]
  exact ⟨c, List.mem_of_find?_eq_some hc, by simp⟩

/-- The company statements of a batch insert its names and touch no job. -/
theorem insert_names_spec (names : List Str) : ∀ {db : Db}, db.WF →
    let db₁ := names.foldl insertCompany db
    db₁.WF ∧ (∀ h, db₁.job h = db.job h) ∧ db.companies <+: db₁.companies ∧
      db₁.jobPostingSeq = db.jobPostingSeq ∧
      db₁.jobOccurrenceSeq = db.jobOccurrenceSeq ∧
      ∀ name ∈ names, (db₁.companyIdOf name).isSome := by
  induction names with
  | nil => exact fun hwf => ⟨hwf, fun _ => rfl, List.prefix_rfl, rfl, rfl, by simp⟩
  | cons name names ih =>
    intro db hwf
    obtain ⟨hcomp, hpseq, hoseq, hid⟩ := db.insertCompany_spec name
    obtain ⟨hwf', hjob', hcomp', hpseq', hoseq', hid'⟩ := ih (insertCompany_wf hwf name)
    refine ⟨hwf', fun h => (hjob' h).trans (insertCompany_job name h), hcomp.trans hcomp',
      hpseq'.trans hpseq, hoseq'.trans hoseq, fun n hn => ?_⟩
    rcases List.mem_cons.mp hn with rfl | hn
    · obtain ⟨id, hid⟩ := Option.isSome_iff_exists.mp hid
      exact Option.isSome_iff_exists.mpr ⟨id, companyIdOf_prefix hcomp' hid⟩
    · exact hid' n hn

/-- The company statement of a batch touches no job, and every company its jobs name exists
afterwards. -/
theorem insertCompanies_spec (hwf : db.WF) (jobs : List NormalizedJob) :
    (db.insertCompanies S jobs).WF ∧
      (∀ h, (db.insertCompanies S jobs).job h = db.job h) ∧
      db.companies <+: (db.insertCompanies S jobs).companies ∧
      (db.insertCompanies S jobs).jobPostingSeq = db.jobPostingSeq ∧
      (db.insertCompanies S jobs).jobOccurrenceSeq = db.jobOccurrenceSeq ∧
      ∀ job ∈ jobs, job.companyId = none → ∀ name, job.companyName = some name →
        ((db.insertCompanies S jobs).companyIdOf (S.text.strip name)).isSome := by
  obtain ⟨hwf₁, hjob, hcomp, hpseq, hoseq, hinserted⟩ :=
    insert_names_spec (batchCompanyNames S jobs) hwf
  refine ⟨hwf₁, hjob, hcomp, hpseq, hoseq, fun job hj hid name hname => hinserted _ ?_⟩
  exact List.mem_filterMap.mpr ⟨job, hj, by simp [hid, hname]⟩

/-- The company of a job, when it exists, keeps its id. -/
theorem batchCompanyId_prefix (h : db.companies <+: db'.companies) {job : NormalizedJob}
    (hname : job.companyId = none →
      (db.companyIdOf (S.text.strip (job.companyName.getD []))).isSome) :
    db'.batchCompanyId S job = db.batchCompanyId S job := by
  unfold batchCompanyId
  cases hc : job.companyId with
  | some id => rfl
  | none =>
    obtain ⟨id, hid⟩ := Option.isSome_iff_exists.mp (hname hc)
    simp only [hid, companyIdOf_prefix h hid]

/-- The company checks of a path pass for a job. -/
def Accepts (S : Services) (path : WritePath) (db : Db) (job : NormalizedJob) : Prop :=
  match job.companyId, job.companyName with
  | some companyId, _ => db.hasCompany companyId = true
  | none, some companyName => path = .single → S.text.strip companyName ≠ []
  | none, none => False

/-- The company checks that passed pass again. -/
theorem Accepts.mono (hcompanies : db.companies <+: db'.companies)
    {job : NormalizedJob} (h : db.Accepts S path job) : db'.Accepts S path job := by
  unfold Accepts at h ⊢
  cases hid : job.companyId with
  | some id =>
    simp only [hid] at h
    exact hasCompany_prefix hcompanies h
  | none => cases hname : job.companyName <;> simp_all

/-- The company an accepted job names exists after its company statement. -/
theorem Accepts.company {job : NormalizedJob} (haccepts : db.Accepts S path job)
    (hwf : db.WF) (hcompanies : db'.companies = (db.insertCompanies S [job]).companies)
    (hid : job.companyId = none) :
    (db'.companyIdOf (S.text.strip (job.companyName.getD []))).isSome := by
  obtain ⟨-, -, -, -, -, hinserted⟩ := Db.insertCompanies_spec (S := S) hwf [job]
  cases hname : job.companyName with
  | none => simp [Db.Accepts, hid, hname] at haccepts
  | some name =>
    have := hinserted job (by simp) hid name hname
    rw [Db.companyIdOf, hcompanies]
    exact this

end Db

/-! ## Transactions -/

/-- A job of a transaction was delivered with the reported result. -/
def Delivered (cfg : Config) (S : Services) (path : WritePath) (db db' : Db) (job : NormalizedJob)
    (result : PersistedJobResult) : Prop :=
  ∃ (ids : WriteIds) (rows : JobRows),
    ids.company = db'.batchCompanyId S job ∧ db.jobPostingSeq ≤ ids.posting ∧
    db.jobOccurrenceSeq ≤ ids.occurrence ∧
    deliverJob cfg S path ids (db.job job.baseHash) job = some (rows, result.state) ∧
    result.posting = rows.posting ∧ db'.job job.baseHash = some rows

/-- A transaction that delivered its jobs and left the others alone. -/
structure Transaction (cfg : Config) (S : Services) (path : WritePath) (db db' : Db)
    (jobs : List NormalizedJob) (results : List PersistedJobResult) : Prop where
  wf : db'.WF
  hashes : (jobs.map (·.baseHash)).Nodup
  delivered : List.Forall₂ (Delivered cfg S path db db') jobs results
  frame : ∀ h, h ∉ jobs.map (·.baseHash) → db'.job h = db.job h
  companies : db'.companies = (db.insertCompanies S jobs).companies
  postingSeq : db.jobPostingSeq ≤ db'.jobPostingSeq
  occurrenceSeq : db.jobOccurrenceSeq ≤ db'.jobOccurrenceSeq

/-- The hashes of the rows a batch upserts as reposts. -/
def repostedHashes (rows : List BatchRow) : List Digest :=
  (rows.filter (·.normalized.occurrenceKind = some .reposted)).map (·.normalized.baseHash)

/-- The loop of a batch over its upserted rows. -/
def writeBatch (cfg : Config) (S : Services) (db : Db) (rows : List BatchRow) :
    Except RepositoryError BatchState :=
  let upserted := db.upsertPostings (repostedHashes rows) rows
  writeRows cfg S ⟨upserted.1, [], [], [], []⟩
    (upserted.2.map fun p => (p.1, p.2, upserted.1.latestOccurrence p.2.id))

/-- The tables and results of a batch, in input order. -/
def batchResults (cfg : Config) (jobs : List NormalizedJob) (state : BatchState) :
    Db × List PersistedJobResult :=
  (state.flush cfg, (jobs.map (·.baseHash)).filterMap fun baseHash =>
    (state.resultByHash.find? (·.1 = baseHash)).map (·.2))

/-- The foreign keys of a batch. -/
def Db.hasCompanies (S : Services) (db : Db) (jobs : List NormalizedJob) : Bool :=
  (jobs.map (planRow S db)).all fun row => db.hasCompany row.values.companyId

/-- The bulk path as a chain of checks. -/
theorem bulk_eq (db : Db) {jobs : List NormalizedJob} (hjobs : jobs ≠ []) :
    bulkUpsertJobPostingsWithOutcomes cfg S db jobs =
      if ¬ (jobs.map (·.baseHash)).Nodup then
        .error (.valueError "bulk job upsert requires unique base hashes")
      else if jobs.any fun job => job.companyId.isNone && job.companyName.isNone then
        .error (.valueError "normalized job requires company_id or company_name")
      else if (db.insertCompanies S jobs).hasCompanies S jobs then
        (writeBatch cfg S (db.insertCompanies S jobs)
          (jobs.map (planRow S (db.insertCompanies S jobs)))).map (batchResults cfg jobs)
      else .error .integrityError := by
  have hempty : jobs.isEmpty = false := by simpa using hjobs
  simp only [bulkUpsertJobPostingsWithOutcomes, hempty, Bool.false_eq_true, if_false]
  by_cases hn : ¬ (jobs.map (·.baseHash)).Nodup
  · rw [if_pos hn, if_pos hn]
    rfl
  rw [if_neg hn, if_neg hn]
  by_cases hc : (jobs.any fun job => job.companyId.isNone && job.companyName.isNone) = true
  · rw [if_pos hc, if_pos hc]
    rfl
  rw [if_neg hc, if_neg hc]
  set db₁ := db.insertCompanies S jobs
  have hdb₁ : (batchCompanyNames S jobs).foldl Db.insertCompany db = db₁ := rfl
  have hany : ((jobs.map (planRow S db₁)).any fun row => !db₁.hasCompany row.values.companyId) =
      !db₁.hasCompanies S jobs := by rw [Db.hasCompanies, List.not_all_eq_any_not]
  simp only [hdb₁, hany]
  by_cases hfk : db₁.hasCompanies S jobs = true
  · simp only [hfk, Bool.not_true, Bool.false_eq_true, if_false, if_true, writeBatch,
      repostedHashes]
    cases writeRows cfg S _ _ <;> rfl
  · rw [if_neg hfk, if_pos (by simpa using hfk)]
    rfl

/-! ## Which deliveries succeed -/

/-- A transition only looks at the closed flag of the posting. -/
theorem transition_congr {p q : JobPosting} (h : p.isClosed = q.isClosed)
    (old : Option JobPosting) (current : Option JobOccurrence) (job : NormalizedJob) :
    transition S path old p current job = transition S path old q current job := by
  simp only [transition, singleTransition, bulkTransition, h]

/-- The details of an observation of a job can be merged. -/
def Deliverable (cfg : Config) (S : Services) (path : WritePath) (base : Option JobRows)
    (job : NormalizedJob) : Prop :=
  ∀ ids, (deliverJob cfg S path ids base job).isSome

/-- Whether a delivery succeeds does not depend on the ids it works with. -/
theorem deliverJob_isSome (ids ids' : WriteIds) (base : Option JobRows) (job : NormalizedJob) :
    (deliverJob cfg S path ids base job).isSome = (deliverJob cfg S path ids' base job).isSome := by
  set old := base.map (·.posting)
  set normalized := candidate S base job
  set upserted := fun ids : WriteIds => upsertRows path ids.posting
    (normalized.occurrenceKind = some .reposted)
    (PostingValues.of ids.company (effectiveJob S normalized old)) base
  have hclosed : (upserted ids).posting.isClosed = (upserted ids').posting.isClosed := by
    cases path <;> cases base <;> rfl
  have hocc : (upserted ids).occurrences = (upserted ids').occurrences := by cases base <;> rfl
  change (writeEffects cfg S path ids.occurrence (upserted ids) old normalized job).isSome =
    (writeEffects cfg S path ids'.occurrence (upserted ids') old normalized job).isSome
  simp only [writeEffects, Option.isSome_map, detailsUpdate, hocc, transition_congr hclosed]
  cases transition S path old (upserted ids').posting (upserted ids').occurrences.getLast? normalized
  · simp only [OccurrenceStep.occurrence, newOccurrence, hclosed]
    split_ifs <;> rfl
  all_goals rfl

theorem deliverable_of_isSome {ids : WriteIds} {base : Option JobRows} {job : NormalizedJob}
    (h : (deliverJob cfg S path ids base job).isSome) : Deliverable cfg S path base job :=
  fun ids' => (deliverJob_isSome ids' ids base job).trans h

theorem Delivered.deliverable {db db' : Db} {job : NormalizedJob} {result : PersistedJobResult}
    (h : Delivered cfg S path db db' job result) :
    Deliverable cfg S path (db.job job.baseHash) job := by
  obtain ⟨ids, rows, -, -, -, hdel, -⟩ := h
  exact deliverable_of_isSome (by rw [hdel]; rfl)

/-! ## The bulk path -/

theorem candidate_baseHash (base : Option JobRows) (job : NormalizedJob) :
    (candidate S base job).baseHash = job.baseHash := by
  unfold candidate prepareCandidate
  split <;> rfl

theorem candidate_company (base : Option JobRows) (job : NormalizedJob) :
    (candidate S base job).companyId = job.companyId ∧
      (candidate S base job).companyName = job.companyName := by
  unfold candidate prepareCandidate
  split <;> exact ⟨rfl, rfl⟩

/-- A row is planned from the rows of its job. -/
theorem planRow_eq {db : Db} (hwf : db.WF) (job : NormalizedJob) :
    planRow S db job =
      { observation := job
        old := (db.job job.baseHash).map (·.posting)
        normalized := candidate S (db.job job.baseHash) job
        values := PostingValues.of (db.batchCompanyId S job)
          (effectiveJob S (candidate S (db.job job.baseHash) job)
            ((db.job job.baseHash).map (·.posting))) } := by
  have hnorm : prepareCandidate S job (decideOccurrence S job (job.source.getD [])
      (db.postingByHash job.baseHash) (db.currentOccurrenceEvidence S job.baseHash))
      (db.postingByHash job.baseHash) = candidate S (db.job job.baseHash) job := by
    rw [candidate, decision, Db.job_posting, hwf.currentOccurrenceEvidence_eq]
  obtain ⟨hid, hname⟩ := candidate_company (S := S) (db.job job.baseHash) job
  simp only [planRow, hnorm, Db.job_posting, Db.batchCompanyId, hid, hname]

/-- Nothing was collected before the loop. -/
theorem flush_init (cfg : Config) (db : Db) (results : List (Digest × PersistedJobResult)) :
    (BatchState.mk db [] [] [] results).flush cfg = db := by
  simp [BatchState.flush, Db.recordSourceObservations, Db.recordDiscoveryRows]

/-- A row of a batch is upserted as a repost exactly when its own decision says so. -/
theorem mem_repostedHashes {rows : List BatchRow}
    (hnd : (rows.map (·.normalized.baseHash)).Nodup) {row : BatchRow} (hrow : row ∈ rows) :
    row.normalized.baseHash ∈ repostedHashes rows ↔
      row.normalized.occurrenceKind = some .reposted := by
  simp only [repostedHashes, List.mem_map, List.mem_filter, decide_eq_true_eq]
  constructor
  · rintro ⟨r, ⟨hr, hkind⟩, hh⟩
    rwa [List.inj_on_of_nodup_map hnd hr hrow hh] at hkind
  · exact fun hkind => ⟨row, ⟨hrow, hkind⟩, rfl⟩

/-- The posting of a job of the batch was upserted, and read back for the loop. -/
def JobRead (S : Services) (db db' : Db) (job : NormalizedJob)
    (read : BatchRow × JobPosting × Option JobOccurrence) : Prop :=
  read.1 = planRow S db job ∧ read.2.1.baseHash = job.baseHash ∧
    ∃ id, db.jobPostingSeq ≤ id ∧
      let old := (db.job job.baseHash).map (·.posting)
      let normalized := candidate S (db.job job.baseHash) job
      let rows := upsertRows .bulk id (normalized.occurrenceKind = some .reposted)
        (PostingValues.of (db.batchCompanyId S job) (effectiveJob S normalized old))
        (db.job job.baseHash)
      db'.job job.baseHash = some rows ∧ read.2.1 = rows.posting ∧
        read.2.2 = rows.occurrences.getLast?

/-- What the loop reads is what is stored. -/
theorem JobRead.rowRead {db db' : Db} {job : NormalizedJob}
    {read : BatchRow × JobPosting × Option JobOccurrence} (h : JobRead S db db' job read) :
    RowRead db' read := by
  obtain ⟨-, hh, id, -, hj, hp, hcur⟩ := h
  exact ⟨_, hh ▸ hj, hp.symm, hcur.symm⟩

section bulk

variable {db : Db} (hwf : db.WF) {jobs : List NormalizedJob}
  (hnd : (jobs.map (·.baseHash)).Nodup)
  (hfk : db.hasCompanies S jobs = true)
include hwf hnd hfk

/-- The input of the loop of a batch. -/
theorem batch_reads :
    let rows := jobs.map (planRow S db)
    let upserted := db.upsertPostings (repostedHashes rows) rows
    db.WritesJobs upserted.1 (jobs.map (·.baseHash)) ∧
      upserted.1.jobOccurrenceSeq = db.jobOccurrenceSeq ∧
      List.Forall₂ (JobRead S db upserted.1) jobs
        (upserted.2.map fun p => (p.1, p.2, upserted.1.latestOccurrence p.2.id)) := by
  intro rows upserted
  have hhash : ∀ job, (planRow S db job).values.baseHash = job.baseHash ∧
      (planRow S db job).normalized.baseHash = job.baseHash := fun job => by
    rw [planRow_eq hwf]
    exact ⟨candidate_baseHash _ _, candidate_baseHash _ _⟩
  have hvalues : rows.map (·.values.baseHash) = jobs.map (·.baseHash) := by
    rw [List.map_map]
    exact List.map_congr_left fun job _ => (hhash job).1
  have hnorm : rows.map (·.normalized.baseHash) = jobs.map (·.baseHash) := by
    rw [List.map_map]
    exact List.map_congr_left fun job _ => (hhash job).2
  obtain ⟨hwrites, hseq, hall⟩ := Db.upsertPostings_spec (repostedHashes rows) rows
    hwf (hvalues ▸ hnd) (List.all_eq_true.mp hfk)
  refine ⟨hvalues ▸ hwrites, hseq, ?_⟩
  rw [List.forall₂_map_right_iff]
  rw [List.forall₂_map_left_iff] at hall
  refine Table.forall₂_imp_mem hall fun job hjob persisted hup => ?_
  obtain ⟨id, hid, hrow, hp, hh, hj⟩ := hup
  rw [(hhash job).1] at hp hh hj
  have hreposted : (job.baseHash ∈ repostedHashes rows) =
      ((candidate S (db.job job.baseHash) job).occurrenceKind = some .reposted) := by
    have := mem_repostedHashes (hnorm ▸ hnd) (List.mem_map_of_mem (f := planRow S db) hjob)
    rw [(hhash job).2] at this
    rw [eq_iff_iff, this, planRow_eq hwf]
  simp only [hreposted, planRow_eq hwf] at hp hj
  exact ⟨hrow, hh, id, hid, hj, hp, by rw [hp]; exact Db.latestOccurrence_of_job hj⟩

/-- The loop of a batch runs over the stored rows of its jobs. -/
theorem batch_loop (cfg : Config) :
    ∃ (db₁ : Db) (reads : List (BatchRow × JobPosting × Option JobOccurrence)),
      db.WritesJobs db₁ (jobs.map (·.baseHash)) ∧
      db₁.jobOccurrenceSeq = db.jobOccurrenceSeq ∧
      List.Forall₂ (JobRead S db db₁) jobs reads ∧ (reads.map (·.2.1.baseHash)).Nodup ∧
      reads.map (·.2.1.baseHash) = jobs.map (·.baseHash) ∧
      (∀ read ∈ reads, RowRead db₁ read) ∧
      writeBatch cfg S db (jobs.map (planRow S db)) =
        writeRows cfg S ⟨db₁, [], [], [], []⟩ reads := by
  obtain ⟨hup, hseq, hreads⟩ := batch_reads hwf hnd hfk
  have hhashes := Table.forall₂_map_eq (hreads.imp fun _ _ hr => hr.2.1)
  refine ⟨_, _, hup, hseq, hreads, hhashes ▸ hnd, hhashes, fun read hr => ?_, rfl⟩
  obtain ⟨job, -, hj⟩ := Table.forall₂_right hreads hr
  exact hj.rowRead

/-- **A batch that succeeds** delivers its jobs. -/
theorem writeBatch_ok {state : BatchState}
    (h : writeBatch cfg S db (jobs.map (planRow S db)) = .ok state) :
    db.WritesJobs (state.flush cfg) (jobs.map (·.baseHash)) ∧
      List.Forall₂ (fun job result => result.1 = job.baseHash ∧
        Delivered cfg S .bulk db (state.flush cfg) job result.2) jobs state.resultByHash := by
  obtain ⟨db₁, reads, hup, hseq, hreads, hrnd, hhashes, hread, hwrite⟩ :=
    batch_loop hwf hnd hfk cfg
  rw [hwrite] at h
  have hinit := flush_init cfg db₁ []
  have hloop := writeRows_ok (S := S) ⟨db₁, [], [], [], []⟩ (by rw [hinit]; exact hup.wf)
    hrnd (by rw [hinit]; exact hread) h
  rw [hinit] at hloop
  obtain ⟨hloop, results, hres, hall⟩ := hloop
  have hcomp : (state.flush cfg).companies = db.companies := hloop.companies.trans hup.companies
  refine ⟨⟨hloop.wf, fun h hh => ?_, hcomp, hup.postingSeq.trans hloop.postingSeq,
    hup.occurrenceSeq.trans hloop.occurrenceSeq⟩, ?_⟩
  · rw [hloop.frame h (hhashes ▸ hh), hup.frame h hh]
  · rw [hres, List.nil_append]
    refine (Table.forall₂_comp hreads hall).imp fun job result hdel => ?_
    obtain ⟨read, ⟨hrow, hh, id, hid, hj, hp, hcur⟩, id', rows, rows', hid', hj', hw, hr, hpost,
      hjob'⟩ := hdel
    rw [hh] at hj' hr hjob'
    rw [hj, Option.some.injEq] at hj'
    subst hj'
    rw [hrow, planRow_eq hwf] at hw
    refine ⟨hr, ⟨db.batchCompanyId S job, id, id'⟩, rows', ?_, hid, hseq ▸ hid', hw, hpost,
      hjob'⟩
    simp only [Db.batchCompanyId, Db.companyIdOf, hcomp]

/-- A batch succeeds when every job can be delivered. -/
theorem writeBatch_isOk (cfg : Config)
    (h : ∀ job ∈ jobs, Deliverable cfg S .bulk (db.job job.baseHash) job) :
    ∃ state, writeBatch cfg S db (jobs.map (planRow S db)) = .ok state := by
  obtain ⟨db₁, reads, hup, hseq, hreads, hrnd, hhashes, hread, hwrite⟩ :=
    batch_loop hwf hnd hfk cfg
  have hinit := flush_init cfg db₁ []
  rw [hwrite]
  refine writeRows_isOk (by rw [hinit]; exact hup.wf) hrnd (by rw [hinit]; exact hread)
    fun read hr rows hj => ?_
  rw [hinit] at hj
  obtain ⟨job, hjob, hrow, hh, id, hid, hj', -, -⟩ := Table.forall₂_right hreads hr
  rw [hh, hj', Option.some.injEq] at hj
  refine ⟨0, ?_⟩
  rw [hrow, planRow_eq hwf, ← hj]
  exact h job hjob ⟨db.batchCompanyId S job, id, 0⟩

end bulk

/-- The companies a batch needs exist once its names are inserted. -/
theorem hasCompanies_iff {db : Db} (hwf : db.WF) {jobs : List NormalizedJob}
    (hnames : ∀ job ∈ jobs, job.companyId = none → job.companyName ≠ none) :
    (db.insertCompanies S jobs).hasCompanies S jobs = true ↔
      ∀ job ∈ jobs, ∀ id, job.companyId = some id →
        (db.insertCompanies S jobs).hasCompany id = true := by
  obtain ⟨hwf₁, -, -, -, -, hinserted⟩ := Db.insertCompanies_spec (S := S) hwf jobs
  have hplan : ∀ job, (planRow S (db.insertCompanies S jobs) job).values.companyId =
      (db.insertCompanies S jobs).batchCompanyId S job := fun job => by
    rw [planRow_eq hwf₁]
    rfl
  rw [Db.hasCompanies, List.all_map, List.all_eq_true]
  simp only [Function.comp_apply, hplan]
  refine forall₂_congr fun job hjob => ?_
  cases hid : job.companyId with
  | some id => simp [Db.batchCompanyId, hid]
  | none =>
    simp only [reduceCtorEq, false_imp_iff, implies_true, iff_true, Db.batchCompanyId, hid]
    obtain ⟨name, hname⟩ := Option.ne_none_iff_exists'.mp (hnames job hjob hid)
    obtain ⟨id, hcid⟩ := Option.isSome_iff_exists.mp (hinserted job hjob hid name hname)
    rw [hname, Option.getD_some, hcid]
    exact Db.hasCompany_of_name hcid

/-- **A bulk call that returns** is a transaction, with its results in input order. -/
theorem bulk_ok {db db' : Db} (hwf : db.WF) {jobs : List NormalizedJob}
    {results : List PersistedJobResult}
    (h : bulkUpsertJobPostingsWithOutcomes cfg S db jobs = .ok (db', results)) :
    Transaction cfg S .bulk db db' jobs results := by
  by_cases hjobs : jobs = []
  · subst hjobs
    cases h
    exact ⟨hwf, List.nodup_nil, .nil, fun _ _ => rfl, rfl, le_rfl, le_rfl⟩
  rw [bulk_eq db hjobs] at h
  split_ifs at h with hnd hname hfk
  obtain ⟨hwf₁, hjob₁, hcomp₁, hpseq₁, hoseq₁, -⟩ := Db.insertCompanies_spec (S := S) hwf jobs
  cases hstate : writeBatch cfg S (db.insertCompanies S jobs)
      (jobs.map (planRow S (db.insertCompanies S jobs))) with
  | error e =>
    rw [hstate] at h
    cases h
  | ok state =>
    rw [hstate] at h
    obtain ⟨hwrites, hall⟩ := writeBatch_ok hwf₁ hnd hfk hstate
    -- every hash of the batch has one result, in the order of the batch
    have hkeys : state.resultByHash.map Prod.fst = jobs.map (·.baseHash) :=
      Table.forall₂_map_eq (hall.imp fun _ _ hr => hr.1)
    have hres : (batchResults cfg jobs state).2 = state.resultByHash.map Prod.snd := by
      rw [← Table.filterMap_find?_keys (hkeys ▸ hnd), hkeys]
      rfl
    simp only [Except.map, Except.ok.injEq] at h
    obtain rfl : db' = state.flush cfg := (congrArg Prod.fst h).symm
    obtain rfl : results = state.resultByHash.map Prod.snd := by rw [← hres, h]
    refine ⟨hwrites.wf, hnd, ?_, fun k hk => (hwrites.frame k hk).trans (hjob₁ k), hwrites.companies,
      hpseq₁ ▸ hwrites.postingSeq, hoseq₁ ▸ hwrites.occurrenceSeq⟩
    rw [List.forall₂_map_right_iff]
    refine hall.imp fun job result hr => ?_
    obtain ⟨-, ids, rows, hcomp, hid, hoid, hdel, hrest⟩ := hr
    exact ⟨ids, rows, hcomp, hpseq₁ ▸ hid, hoseq₁ ▸ hoid, hjob₁ job.baseHash ▸ hdel, hrest⟩

/-- **A bulk call returns** exactly when its checks pass and every job can be delivered. -/
theorem bulk_isOk_iff {db : Db} (hwf : db.WF) {jobs : List NormalizedJob} :
    (∃ r, bulkUpsertJobPostingsWithOutcomes cfg S db jobs = .ok r) ↔
      (jobs.map (·.baseHash)).Nodup ∧
      (∀ job ∈ jobs, job.companyId = none → job.companyName ≠ none) ∧
      (∀ job ∈ jobs, ∀ id, job.companyId = some id →
        (db.insertCompanies S jobs).hasCompany id = true) ∧
      ∀ job ∈ jobs, Deliverable cfg S .bulk (db.job job.baseHash) job := by
  by_cases hjobs : jobs = []
  · subst hjobs
    simp [bulkUpsertJobPostingsWithOutcomes, pure, Except.pure]
  obtain ⟨hwf₁, hjob₁, -, -, -, -⟩ := Db.insertCompanies_spec (S := S) hwf jobs
  have hany : (jobs.any fun job => job.companyId.isNone && job.companyName.isNone) = false ↔
      ∀ job ∈ jobs, job.companyId = none → job.companyName ≠ none := by
    simp only [List.any_eq_false, Bool.and_eq_true, Option.isNone_iff_eq_none, not_and]
  constructor
  · rintro ⟨⟨db', results⟩, h⟩
    have htx := bulk_ok hwf h
    rw [bulk_eq db hjobs] at h
    split_ifs at h with hnd hname hfk
    have hname := hany.mp (by simpa using hname)
    refine ⟨hnd, hname, (hasCompanies_iff hwf hname).mp hfk, fun job hjob => ?_⟩
    obtain ⟨result, -, hdel⟩ := Table.forall₂_left htx.delivered hjob
    exact hdel.deliverable
  · rintro ⟨hnd, hname, hid, hdel⟩
    have hfk := (hasCompanies_iff hwf hname).mpr hid
    obtain ⟨state, hstate⟩ := writeBatch_isOk hwf₁ hnd hfk cfg
      fun job hjob => (hjob₁ job.baseHash).symm ▸ hdel job hjob
    refine ⟨batchResults cfg jobs state, ?_⟩
    rw [bulk_eq db hjobs, if_neg (not_not.mpr hnd), if_neg (by rw [hany.mpr hname]; simp),
      if_pos hfk, hstate]
    rfl

/-! ## The single-row path -/

/-- The company statement of a single-row write. -/
theorem saveCompany_spec (S : Services) (db : Db) (job : NormalizedJob) :
    match saveCompany S db job with
    | .error _ => ¬ db.Accepts S .single job
    | .ok (db₁, companyId) =>
      db₁ = db.insertCompanies S [job] ∧ companyId = db₁.batchCompanyId S job ∧
      (db₁.hasCompany companyId = true ↔ db.Accepts S .single job) := by
  unfold saveCompany Db.Accepts
  cases hid : job.companyId with
  | some companyId =>
    refine ⟨?_, by simp [Db.batchCompanyId, hid], Iff.rfl⟩
    simp [Db.insertCompanies, batchCompanyNames, hid]
  | none =>
    cases hname : job.companyName with
    | none => simp
    | some name =>
      simp only [upsertCompany]
      split_ifs with hempty
      · simp [hempty]
      · obtain ⟨-, -, -, hcid⟩ := db.insertCompany_spec (S.text.strip name)
        obtain ⟨id, hcid⟩ := Option.isSome_iff_exists.mp hcid
        refine ⟨?_, by simp [Db.batchCompanyId, hid, hname], ?_⟩
        · simp [Db.insertCompanies, batchCompanyNames, hid, hname]
        · simp only [hcid, Option.getD_some, Db.hasCompany_of_name hcid, hempty, ne_eq,
            not_false_eq_true, implies_true]

theorem Db.recordSourceObservations_eq_log (cfg : Config) (db : Db) (values : List JobSourceObservation) :
    db.recordSourceObservations values = db.log cfg [] values [] := by
  rw [Db.log_eq]
  simp [Db.recordSourceObservations]

theorem Db.recordDiscoveryRows_eq_log (db : Db) (rows : List DiscoveryEvent) :
    db.recordDiscoveryRows cfg rows = db.log cfg [] [] rows := by
  rw [Db.log_eq, Db.recordDiscoveryRows_eq]
  simp

/-- Merging details does not touch the id of the posting. -/
theorem Db.mergeJobDetails_id {db : Db} {posting : JobPosting} {occurrence : JobOccurrence}
    {observation : NormalizedJob} {r : Db × JobPosting}
    (h : db.mergeJobDetails cfg posting occurrence observation = .ok r) :
    r.2.id = posting.id := by
  unfold Db.mergeJobDetails at h
  split_ifs at h
  · cases h
    rfl
  · cases h
    rfl
  · split at h <;> cases h
    rfl

/-- The single-row path records the observation before the details, with the same effect. -/
theorem effect_single_eq (db : Db) (old : Option JobPosting) (normalized observation : NormalizedJob)
    (posting : JobPosting) (current : Option JobOccurrence) :
    effect cfg S .single db old normalized observation posting current =
      let step := singleTransition S old posting current normalized
      let occurrence := step.occurrence S db.jobOccurrenceSeq posting normalized
      (((db.writeOccurrence step occurrence).recordSourceObservations
        (sourceObservationValues S posting occurrence observation)).mergeJobDetails cfg posting
          occurrence observation).map fun r =>
        ((r.1.enqueueEvidence cfg r.2 occurrence).recordDiscoveryRows cfg
            (step.eventRows r.2 occurrence),
          ⟨r.2, stateForPersistence old.isNone step.createdRepost
            (some (old.any (·.isClosed))) r.2.isClosed false⟩) := by
  rw [effect_eq]
  simp only [Db.recordSourceObservations_eq_log cfg, Db.recordDiscoveryRows_eq_log,
    Db.log_mergeJobDetails, transition]
  set step := singleTransition S old posting current normalized
  set occurrence := step.occurrence S db.jobOccurrenceSeq posting normalized
  cases h : (db.writeOccurrence step occurrence).mergeJobDetails cfg posting occurrence
      observation with
  | error e => rfl
  | ok r =>
    have hobs : sourceObservationValues S r.2 occurrence observation =
        sourceObservationValues S posting occurrence observation := by
      simp only [sourceObservationValues, Db.mergeJobDetails_id h]
    simp only [Except.map, Db.log_enqueueEvidence, Db.log_log, hobs, pathStatusValues,
      List.append_nil, List.nil_append]
    rfl

/-- The single-row path as a chain of statements. -/
theorem save_eq (db : Db) (job : NormalizedJob) :
    saveJobPostingWithOutcome cfg S db job =
      (saveCompany S db job).bind fun (db, companyId) =>
        let row := planRow S db job
        let values := PostingValues.of companyId (effectiveJob S row.normalized row.old)
        if db.hasCompany companyId then
          let put := db.putPosting row.old values (·.assign values)
          effect cfg S .single put.1 row.old row.normalized row.observation put.2
            (put.1.latestOccurrence put.2.id)
        else .error .integrityError := by
  unfold saveJobPostingWithOutcome
  cases saveCompany S db job with
  | error e => rfl
  | ok r =>
    obtain ⟨db₁, companyId⟩ := r
    simp only [bind, Except.bind, effect_single_eq, Db.savePosting_eq, planRow, PostingValues.of]
    cases db₁.hasCompany companyId with
    | false => rfl
    | true =>
      simp only [Bool.not_true, Bool.false_eq_true, if_false, if_true]
      cases Db.mergeJobDetails cfg _ _ _ _ <;> rfl

/-- **A single-row call that returns** is a transaction with one job. -/
theorem save_spec (cfg : Config) (S : Services) {db : Db} (hwf : db.WF) (job : NormalizedJob) :
    match saveJobPostingWithOutcome cfg S db job with
    | .error _ => ¬ (db.Accepts S .single job ∧
        Deliverable cfg S .single (db.job job.baseHash) job)
    | .ok (db', result) =>
      db.Accepts S .single job ∧ Transaction cfg S .single db db' [job] [result] := by
  rw [save_eq]
  have hcompany := saveCompany_spec S db job
  cases hc : saveCompany S db job with
  | error e =>
    rw [hc] at hcompany
    exact fun h => hcompany h.1
  | ok r =>
    obtain ⟨db₁, companyId⟩ := r
    rw [hc] at hcompany
    obtain ⟨hdb₁, hid, hfk⟩ := hcompany
    obtain ⟨hwf₁, hjob₁, -, hpseq₁, hoseq₁, -⟩ := Db.insertCompanies_spec (S := S) hwf [job]
    rw [← hdb₁] at hwf₁ hjob₁ hpseq₁ hoseq₁
    simp only [Except.bind]
    split_ifs with hhas
    swap
    · exact fun h => hhas (hfk.mpr h.1)
    rw [planRow_eq hwf₁, hjob₁]
    set old := (db.job job.baseHash).map (·.posting)
    set normalized := candidate S (db.job job.baseHash) job
    set values := PostingValues.of companyId (effectiveJob S normalized old) with hvalues
    have hhash : values.baseHash = job.baseHash := candidate_baseHash _ _
    obtain ⟨hposting, -, hput, hseq⟩ := Db.putPosting_spec .single hwf₁ values
      hhas (·.assign values) (normalized.occurrenceKind = some .reposted)
      (fun _ _ => rfl) (fun _ => rfl) (fun _ => rfl) (fun _ => rfl)
    have hold : db₁.postingByHash values.baseHash = old := by
      rw [hhash, ← Db.job_posting, hjob₁]
    rw [hold] at hposting hput hseq
    set put := db₁.putPosting old values (·.assign values)
    rw [hhash, hjob₁] at hposting hput
    set rows := upsertRows .single db₁.jobPostingSeq
      (normalized.occurrenceKind = some .reposted) values (db.job job.baseHash) with hrows
    have heffect := effect_spec cfg S .single hput.wf hput.job old
      normalized job
    have hlatest := Db.latestOccurrence_of_job hput.job
    -- the write is the delivery with the ids this call drew
    have hdel : ∀ id, writeEffects cfg S .single id rows old normalized job =
        deliverJob cfg S .single ⟨companyId, db₁.jobPostingSeq, id⟩ (db.job job.baseHash)
          job := fun _ => rfl
    rw [hdel] at heffect
    simp only [hposting, hlatest]
    cases hd : deliverJob cfg S .single
        ⟨companyId, db₁.jobPostingSeq, put.1.jobOccurrenceSeq⟩ (db.job job.baseHash) job with
    | none =>
      simp only [hd] at heffect
      obtain ⟨e, he⟩ := heffect
      simp only [he]
      intro h
      have := h.2 ⟨companyId, db₁.jobPostingSeq, put.1.jobOccurrenceSeq⟩
      rw [hd] at this
      cases this
    | some r =>
      obtain ⟨rows', state⟩ := r
      simp only [hd] at heffect
      obtain ⟨db', he, hwrites⟩ := heffect
      simp only [he]
      have hcomp : db'.companies = db₁.companies := hwrites.companies.trans hput.companies
      refine ⟨hfk.mp hhas,
        { wf := hwrites.wf, hashes := by simp, delivered := .cons ?_ .nil, frame := fun k hk => ?_,
          companies := by rw [hcomp, hdb₁],
          postingSeq := hpseq₁ ▸ hput.postingSeq.trans hwrites.postingSeq,
          occurrenceSeq := hoseq₁ ▸ hput.occurrenceSeq.trans hwrites.occurrenceSeq }⟩
      · refine ⟨⟨companyId, db₁.jobPostingSeq, put.1.jobOccurrenceSeq⟩, rows', ?_,
          hpseq₁.ge, ?_, hd, rfl, hwrites.job⟩
        · simp only [hid, Db.batchCompanyId, Db.companyIdOf, hcomp]
        · exact hoseq₁ ▸ hput.occurrenceSeq
      · have hk : k ≠ job.baseHash := by simpa using hk
        rw [hwrites.frame k hk, hput.frame k hk, hjob₁]

theorem save_ok {db db' : Db} (hwf : db.WF) {job : NormalizedJob} {result : PersistedJobResult}
    (h : saveJobPostingWithOutcome cfg S db job = .ok (db', result)) :
    db.Accepts S .single job ∧ Transaction cfg S .single db db' [job] [result] := by
  have hspec := save_spec cfg S hwf job
  rwa [h] at hspec

/-- **A single-row call returns** exactly when its company checks pass and the job can be
delivered. -/
theorem save_isOk_iff {db : Db} (hwf : db.WF) {job : NormalizedJob} :
    (∃ r, saveJobPostingWithOutcome cfg S db job = .ok r) ↔
      db.Accepts S .single job ∧ Deliverable cfg S .single (db.job job.baseHash) job := by
  have hspec := save_spec cfg S hwf job
  constructor
  · rintro ⟨⟨db', result⟩, h⟩
    rw [h] at hspec
    obtain ⟨haccepts, htx⟩ := hspec
    obtain ⟨_, -, hdel⟩ := Table.forall₂_left htx.delivered List.mem_cons_self
    exact ⟨haccepts, hdel.deliverable⟩
  · intro h
    cases hs : saveJobPostingWithOutcome cfg S db job with
    | ok r => exact ⟨r, rfl⟩
    | error e =>
      rw [hs] at hspec
      exact absurd h hspec

end JobPing
