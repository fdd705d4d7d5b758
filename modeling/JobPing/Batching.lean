import JobPing.Decisions
import JobPing.SameUpToIds

/-!
# Batches and their jobs

A batch that succeeds delivers each of its jobs to the rows the job had before the call, and so
does a sequence of singleton batches, in any order (`Deliveries`): jobs with different base hashes
do not see each other. When every job can be upserted alone, batch and sequence therefore leave the
same tables up to ids and report the same outcomes (`batch_transparent`).
-/

namespace JobPing

variable {cfg : Config} {S : Services} {path : WritePath}

/-- Upsert the jobs one by one, in singleton batches. -/
def upsertOneByOne (cfg : Config) (S : Services) (db : Db) :
    List NormalizedJob → Except RepositoryError (Db × List PersistedJobResult)
  | [] => .ok (db, [])
  | job :: jobs => do
    let (db, first) ← bulkUpsertJobPostingsWithOutcomes cfg S db [job]
    let (db, rest) ← upsertOneByOne cfg S db jobs
    return (db, first ++ rest)

/-! ## Deliveries of several jobs -/

/-- Each of the jobs was delivered to the rows it had in `db`, and nothing else happened. -/
structure Deliveries (cfg : Config) (S : Services) (db db' : Db) (jobs : List NormalizedJob)
    (results : List PersistedJobResult) : Prop where
  wf : db'.WF
  delivered : List.Forall₂ (Delivered cfg S .bulk db db') jobs results
  frame : ∀ h, h ∉ jobs.map (·.baseHash) → db'.job h = db.job h
  companies : db.companies <+: db'.companies
  names : ∀ name, name ∈ db'.companies.map (·.name) ↔
    name ∈ db.companies.map (·.name) ∨ name ∈ batchCompanyNames S jobs
  postingSeq : db.jobPostingSeq ≤ db'.jobPostingSeq
  occurrenceSeq : db.jobOccurrenceSeq ≤ db'.jobOccurrenceSeq

namespace Db

variable {db db' : Db}

theorem insertCompany_names (db : Db) (name n : Str) :
    n ∈ (db.insertCompany name).companies.map (·.name) ↔
      n ∈ db.companies.map (·.name) ∨ n = name := by
  unfold insertCompany
  split_ifs with hany
  · simp only [List.any_eq_true, decide_eq_true_eq] at hany
    obtain ⟨c, hc, rfl⟩ := hany
    exact ⟨.inl, fun h => h.elim id fun h => h ▸ List.mem_map_of_mem hc⟩
  · simp [eq_comm]

/-- The company statement of a batch inserts the names of its jobs. -/
theorem insertCompanies_names (S : Services) (db : Db) (jobs : List NormalizedJob) (n : Str) :
    n ∈ (db.insertCompanies S jobs).companies.map (·.name) ↔
      n ∈ db.companies.map (·.name) ∨ n ∈ batchCompanyNames S jobs := by
  unfold insertCompanies
  induction batchCompanyNames S jobs generalizing db with
  | nil => simp
  | cons name names ih =>
    rw [List.foldl_cons, ih, insertCompany_names]
    simp [or_assoc]

end Db

theorem Transaction.deliveries {db db' : Db} {jobs : List NormalizedJob}
    {results : List PersistedJobResult} (hwf : db.WF)
    (htx : Transaction cfg S .bulk db db' jobs results) : Deliveries cfg S db db' jobs results where
  wf := htx.wf
  delivered := htx.delivered
  frame := htx.frame
  companies := by
    rw [htx.companies]
    exact (Db.insertCompanies_spec hwf jobs).2.2.1
  names name := by rw [htx.companies, Db.insertCompanies_names]
  postingSeq := htx.postingSeq
  occurrenceSeq := htx.occurrenceSeq

theorem Deliveries.refl {db : Db} (hwf : db.WF) : Deliveries cfg S db db [] [] :=
  ⟨hwf, .nil, fun _ _ => rfl, List.prefix_rfl, fun _ => by simp [batchCompanyNames], le_rfl, le_rfl⟩

theorem batchCompanyNames_append (jobs jobs' : List NormalizedJob) :
    batchCompanyNames S (jobs ++ jobs') =
      batchCompanyNames S jobs ++ batchCompanyNames S jobs' := by
  simp [batchCompanyNames]

/-- A company that exists keeps its id. -/
theorem Delivered.of_prefix {db db' db'' : Db} {job : NormalizedJob} {result : PersistedJobResult}
    (h : Delivered cfg S .bulk db db' job result) (hcompanies : db'.companies <+: db''.companies)
    (hname : job.companyId = none →
      (db'.companyIdOf (S.text.strip (job.companyName.getD []))).isSome)
    (hjob : db''.job job.baseHash = db'.job job.baseHash) :
    Delivered cfg S .bulk db db'' job result := by
  obtain ⟨ids, rows, hcompany, hp, ho, hdel, hpost, hj⟩ := h
  exact ⟨ids, rows, hcompany.trans (Db.batchCompanyId_prefix hcompanies hname).symm, hp, ho, hdel,
    hpost, hjob.trans hj⟩

/-- **One job more**: a job with a new base hash is delivered before the others. -/
theorem Deliveries.cons {db db₁ db₂ : Db} {job : NormalizedJob} {jobs : List NormalizedJob}
    {result : PersistedJobResult} {results : List PersistedJobResult}
    (hfirst : Deliveries cfg S db db₁ [job] [result])
    (hname : job.companyId = none →
      (db₁.companyIdOf (S.text.strip (job.companyName.getD []))).isSome)
    (hnew : job.baseHash ∉ jobs.map (·.baseHash))
    (hrest : Deliveries cfg S db₁ db₂ jobs results) :
    Deliveries cfg S db db₂ (job :: jobs) (result :: results) where
  wf := hrest.wf
  delivered := by
    obtain _ | ⟨hdel, -⟩ := hfirst.delivered
    refine .cons (hdel.of_prefix hrest.companies hname (hrest.frame _ hnew)) ?_
    refine Table.forall₂_imp_mem hrest.delivered fun j hj r hdel => ?_
    obtain ⟨ids, rows, hcompany, hp, ho, hdel, hpost, hj'⟩ := hdel
    have hne : j.baseHash ∉ [job].map (·.baseHash) := fun h => by
      rw [List.map_singleton, List.mem_singleton] at h
      exact hnew (h ▸ List.mem_map_of_mem hj)
    exact ⟨ids, rows, hcompany, hfirst.postingSeq.trans hp, hfirst.occurrenceSeq.trans ho,
      hfirst.frame _ hne ▸ hdel, hpost, hj'⟩
  frame h hh := by
    rw [List.map_cons, List.mem_cons, not_or] at hh
    rw [hrest.frame h hh.2, hfirst.frame h (by simpa using hh.1)]
  companies := hfirst.companies.trans hrest.companies
  names name := by
    rw [hrest.names, hfirst.names, or_assoc, ← List.mem_append, ← batchCompanyNames_append]
    rfl
  postingSeq := hfirst.postingSeq.trans hrest.postingSeq
  occurrenceSeq := hfirst.occurrenceSeq.trans hrest.occurrenceSeq

/-! ## Jobs that can be upserted alone -/

/-- The job can be upserted alone: its company checks pass and its details can be merged. -/
def Alone (cfg : Config) (S : Services) (db : Db) (job : NormalizedJob) : Prop :=
  db.Accepts S .bulk job ∧ Deliverable cfg S .bulk (db.job job.baseHash) job

/-- Other jobs do not keep a job from being upserted. -/
theorem Alone.mono {db db' : Db} {jobs : List NormalizedJob} {results : List PersistedJobResult}
    (h : Deliveries cfg S db db' jobs results) {job : NormalizedJob}
    (hnew : job.baseHash ∉ jobs.map (·.baseHash)) (hjob : Alone cfg S db job) :
    Alone cfg S db' job :=
  ⟨hjob.1.mono h.companies, h.frame _ hnew ▸ hjob.2⟩

/-- **One by one** the jobs are delivered, in every order. -/
theorem upsertOneByOne_ok (order : List NormalizedJob) : ∀ {db : Db}, db.WF →
    (order.map (·.baseHash)).Nodup → (∀ job ∈ order, Alone cfg S db job) →
    ∃ db' results, upsertOneByOne cfg S db order = .ok (db', results) ∧
      Deliveries cfg S db db' order results := by
  induction order with
  | nil => exact fun hwf _ _ => ⟨_, [], rfl, .refl hwf⟩
  | cons job jobs ih =>
    intro db hwf hnd halone
    rw [List.map_cons, List.nodup_cons] at hnd
    obtain ⟨hnew, hnd⟩ := hnd
    obtain ⟨⟨db₁, first⟩, hrun⟩ : ∃ r, bulkUpsertJobPostingsWithOutcomes cfg S db [job] = .ok r :=
      (bulk_singleton_isOk_iff hwf).mpr (halone job List.mem_cons_self)
    have htx := bulk_ok hwf hrun
    have hfirst := htx.deliveries hwf
    obtain ⟨result, rfl⟩ : ∃ result, first = [result] := by
      cases hfirst.delivered with
      | cons _ hnil =>
        cases hnil
        exact ⟨_, rfl⟩
    obtain ⟨db₂, results, hrest, hdels⟩ := ih hfirst.wf hnd fun j hj =>
      (halone j (List.mem_cons_of_mem _ hj)).mono hfirst fun h => by
        rw [List.map_singleton, List.mem_singleton] at h
        exact hnew (h ▸ List.mem_map_of_mem hj)
    refine ⟨db₂, result :: results, ?_, hfirst.cons ?_ hnew hdels⟩
    · simp only [upsertOneByOne, bind, Except.bind, hrun, hrest]
      rfl
    · exact (halone job List.mem_cons_self).1.company hwf htx.companies

/-- Of jobs whose company checks pass a batch takes all or none. -/
theorem bulk_isOk_of_accepts {db : Db} (hwf : db.WF) {jobs : List NormalizedJob}
    (haccepts : ∀ job ∈ jobs, db.Accepts S .bulk job) :
    (∃ r, bulkUpsertJobPostingsWithOutcomes cfg S db jobs = .ok r) ↔
      (jobs.map (·.baseHash)).Nodup ∧
        ∀ job ∈ jobs, Deliverable cfg S .bulk (db.job job.baseHash) job := by
  have hcompanies := (Db.insertCompanies_spec (S := S) hwf jobs).2.2.1
  rw [bulk_isOk_iff hwf]
  constructor
  · rintro ⟨hnd, -, -, hdeliverable⟩
    exact ⟨hnd, hdeliverable⟩
  · rintro ⟨hnd, hdeliverable⟩
    refine ⟨hnd, fun job hjob hid hname => ?_, fun job hjob id hid => ?_, hdeliverable⟩
    · have hjob := haccepts job hjob
      simp [Db.Accepts, hid, hname] at hjob
    · have hjob := haccepts job hjob
      simp only [Db.Accepts, hid] at hjob
      exact Db.hasCompany_prefix hcompanies hjob

/-- **As a batch** they are delivered too. -/
theorem bulk_alone_ok {db : Db} (hwf : db.WF) {jobs : List NormalizedJob}
    (hnd : (jobs.map (·.baseHash)).Nodup) (halone : ∀ job ∈ jobs, Alone cfg S db job) :
    ∃ db' results, bulkUpsertJobPostingsWithOutcomes cfg S db jobs = .ok (db', results) ∧
      Deliveries cfg S db db' jobs results := by
  obtain ⟨⟨db', results⟩, hrun⟩ : ∃ r, bulkUpsertJobPostingsWithOutcomes cfg S db jobs = .ok r :=
    (bulk_isOk_of_accepts hwf fun job hjob => (halone job hjob).1).mpr
      ⟨hnd, fun job hjob => (halone job hjob).2⟩
  exact ⟨db', results, hrun, (bulk_ok hwf hrun).deliveries hwf⟩

/-! ## The same deliveries -/

/-- The company of a delivered job. -/
theorem Deliveries.companyName {db db₁ db₂ : Db} {jobs order : List NormalizedJob}
    {results₁ results₂ : List PersistedJobResult} (h₁ : Deliveries cfg S db db₁ jobs results₁)
    (h₂ : Deliveries cfg S db db₂ order results₂) {job : NormalizedJob} (hjob : job ∈ jobs)
    (hjob' : job ∈ order) (haccepts : db.Accepts S .bulk job) :
    db₁.companyName (db₁.batchCompanyId S job) =
      db₂.companyName (db₂.batchCompanyId S job) := by
  unfold Db.batchCompanyId
  cases hid : job.companyId with
  | some id =>
    simp only [Db.Accepts, hid] at haccepts
    simp only
    rw [Db.companyName_prefix h₁.companies haccepts, Db.companyName_prefix h₂.companies haccepts]
  | none =>
    have hmem : ∀ {js : List NormalizedJob}, job ∈ js →
        S.text.strip (job.companyName.getD []) ∈ batchCompanyNames S js := fun hjs => by
      cases hname : job.companyName with
      | none => simp [Db.Accepts, hid, hname] at haccepts
      | some name => exact List.mem_filterMap.mpr ⟨job, hjs, by simp [hid, hname]⟩
    obtain ⟨id₁, hid₁⟩ := Option.isSome_iff_exists.mp
      (Db.companyIdOf_isSome.mpr ((h₁.names _).mpr (.inr (hmem hjob))))
    obtain ⟨id₂, hid₂⟩ := Option.isSome_iff_exists.mp
      (Db.companyIdOf_isSome.mpr ((h₂.names _).mpr (.inr (hmem hjob'))))
    simp only [hid₁, hid₂, Option.getD_some, h₁.wf.companyName_of hid₁,
      h₂.wf.companyName_of hid₂]

section same

variable {db db₁ db₂ : Db} (hwf : db.WF) (hlife : ∀ h rows, db.job h = some rows → rows.Lifecycle)
  {jobs order : List NormalizedJob} {results₁ results₂ : List PersistedJobResult}
  (h₁ : Deliveries cfg S db db₁ jobs results₁) (h₂ : Deliveries cfg S db db₂ order results₂)
  (hperm : order.Perm jobs)
include hwf hlife h₁ h₂ hperm

/-- **The same jobs leave the same tables**, up to ids, in whatever order they are delivered. -/
theorem Deliveries.sameUpToIds (haccepts : ∀ job ∈ jobs, db.Accepts S .bulk job) :
    db₁.SameUpToIds db₂ := by
  have hnames : ∀ name, name ∈ batchCompanyNames S order ↔ name ∈ batchCompanyNames S jobs :=
    fun name => (hperm.filterMap _).mem_iff
  refine Db.sameUpToIds_of_jobs h₁.wf h₂.wf (Delivered.lifecycle hwf hlife h₁.delivered h₁.frame)
    (fun name => by rw [h₁.names, h₂.names, hnames]) fun h => ?_
  by_cases hh : h ∈ jobs.map (·.baseHash)
  · obtain ⟨job, hjob, rfl⟩ := List.mem_map.mp hh
    obtain ⟨r₁, -, ids₁, rows₁, hcompany₁, hp₁, ho₁, hdel₁, -, hj₁⟩ :=
      Table.forall₂_left h₁.delivered hjob
    obtain ⟨r₂, -, ids₂, rows₂, hcompany₂, hp₂, ho₂, hdel₂, -, hj₂⟩ :=
      Table.forall₂_left h₂.delivered (hperm.mem_iff.mpr hjob)
    obtain ⟨⟨r, hr⟩, -⟩ := deliverJob_sameUpToIds
      (fun b hb => hwf.ids_below hb (hlife _ b hb)) hp₁ hp₂ ho₁ ho₂ hdel₁ hdel₂
    rw [hj₁, hj₂]
    refine ⟨r, .some ⟨hr, ?_⟩⟩
    rw [deliverJob_companyId hdel₁, deliverJob_companyId hdel₂, hcompany₁, hcompany₂]
    exact h₁.companyName h₂ hjob (hperm.mem_iff.mpr hjob) (haccepts job hjob)
  · have hh' : h ∉ order.map (·.baseHash) := fun hmem =>
      hh ((hperm.map _).mem_iff.mp hmem)
    rw [h₁.frame h hh, h₂.frame h hh']
    refine ⟨.refl, ?_⟩
    cases hj : db.job h with
    | none => exact .none
    | some rows =>
      have hcompany := hwf.posting_company _ (Db.mem_of_job hj).1
      refine .some ⟨by rw [JobRows.renumber_refl]; rfl, ?_⟩
      rw [Db.companyName_prefix h₁.companies hcompany,
        Db.companyName_prefix h₂.companies hcompany]

end same

/-- **The order of a batch** is seen in the ids only. -/
theorem bulk_perm_sameUpToIds {db : Db} (hreach : Reachable cfg S db)
    {jobs order : List NormalizedJob} (hperm : order.Perm jobs)
    (haccepts : ∀ job ∈ jobs, db.Accepts S .bulk job) :
    ((Call.bulk jobs).exec cfg S db).SameUpToIds ((Call.bulk order).exec cfg S db) := by
  have hwf := hreach.wf
  have hlife : ∀ h rows, db.job h = some rows → rows.Lifecycle := fun h rows hj =>
    hreach.lifecycle hj
  have haccepts' : ∀ job ∈ order, db.Accepts S .bulk job := fun job hjob =>
    haccepts job (hperm.mem_iff.mp hjob)
  have hsame : (∃ r, bulkUpsertJobPostingsWithOutcomes cfg S db jobs = .ok r) ↔
      ∃ r, bulkUpsertJobPostingsWithOutcomes cfg S db order = .ok r := by
    rw [bulk_isOk_of_accepts hwf haccepts, bulk_isOk_of_accepts hwf haccepts']
    exact and_congr (hperm.map _).nodup_iff.symm
      (forall_congr' fun job => imp_congr_left hperm.mem_iff.symm)
  simp only [Call.exec, Call.run]
  cases hjobs : bulkUpsertJobPostingsWithOutcomes cfg S db jobs with
  | error e =>
    cases horder : bulkUpsertJobPostingsWithOutcomes cfg S db order with
    | error e =>
      have hnone : Deliveries cfg S db db [] [] := .refl hwf
      exact hnone.sameUpToIds hwf hlife hnone .nil (by simp)
    | ok r =>
      obtain ⟨r', hr'⟩ := hsame.mpr ⟨r, horder⟩
      rw [hjobs] at hr'
      cases hr'
  | ok r =>
    obtain ⟨r', hr'⟩ := hsame.mp ⟨r, hjobs⟩
    rw [hr']
    exact ((bulk_ok hwf hjobs).deliveries hwf).sameUpToIds hwf hlife
      ((bulk_ok hwf hr').deliveries hwf) hperm haccepts

/-- The hash of a result's job and its outcome. -/
def PersistedJobResult.outcome (result : PersistedJobResult) : Digest × DeduplicationState :=
  (result.posting.baseHash, result.state)

/-- The outcome a job will have. -/
def expectedOutcome (cfg : Config) (S : Services) (db : Db) (job : NormalizedJob) :
    Digest × DeduplicationState :=
  (job.baseHash, ((deliverJob cfg S .bulk ⟨0, db.jobPostingSeq, db.jobOccurrenceSeq⟩
    (db.job job.baseHash) job).map (·.2)).getD .noOp)

/-- **The outcomes** of deliveries are those expected of their jobs, in their order. -/
theorem Deliveries.outcomes {db db' : Db} (hwf : db.WF)
    (hlife : ∀ h rows, db.job h = some rows → rows.Lifecycle) {jobs : List NormalizedJob}
    {results : List PersistedJobResult} (h : Deliveries cfg S db db' jobs results) :
    results.map (·.outcome) = jobs.map (expectedOutcome cfg S db) := by
  refine Table.forall₂_map_eq (h.delivered.imp fun job result hdel => ?_)
  have hdeliverable := hdel.deliverable ⟨0, db.jobPostingSeq, db.jobOccurrenceSeq⟩
  obtain ⟨ids, rows, -, hp, ho, hdel, hpost, hj⟩ := hdel
  obtain ⟨⟨rows', state⟩, hdel'⟩ := Option.isSome_iff_exists.mp hdeliverable
  obtain ⟨-, hstate⟩ := deliverJob_sameUpToIds (fun b hb => hwf.ids_below hb (hlife _ b hb))
    hp le_rfl ho le_rfl hdel hdel'
  simp only [PersistedJobResult.outcome, expectedOutcome, hdel', hpost, Db.job_baseHash hj,
    hstate]
  rfl

/-! ## Transparency -/

/-- A batch with a repeated base hash, or with a job without a company, is rejected. -/
theorem bulk_rejected (cfg : Config) (S : Services) (db : Db) {jobs : List NormalizedJob}
    (h : ¬ (jobs.map (·.baseHash)).Nodup ∨
      ∃ job ∈ jobs, job.companyId = none ∧ job.companyName = none) :
    ∃ message, bulkUpsertJobPostingsWithOutcomes cfg S db jobs =
      .error (.valueError message) := by
  have hjobs : jobs ≠ [] := by
    rintro rfl
    simp at h
  rw [bulk_eq db hjobs]
  by_cases hnd : (jobs.map (·.baseHash)).Nodup
  · obtain ⟨job, hjob, hid, hname⟩ := h.resolve_left (not_not.mpr hnd)
    have hany : (jobs.any fun job => job.companyId.isNone && job.companyName.isNone) = true :=
      List.any_eq_true.mpr ⟨job, hjob, by simp [hid, hname]⟩
    rw [if_neg (not_not.mpr hnd), if_pos hany]
    exact ⟨_, rfl⟩
  · rw [if_pos hnd]
    exact ⟨_, rfl⟩

/-- **Batching is transparent** for jobs that can be upserted alone: as one batch and one by one, in
any order, they leave the same tables up to ids and have the same outcomes, those of the batch in
input order. A batch with a repeated base hash, or with a job without a company, is rejected and
changes nothing. -/
theorem batch_transparent {db : Db} (hreach : Reachable cfg S db) (jobs : List NormalizedJob) :
    ((jobs.map (·.baseHash)).Nodup →
      (∀ job ∈ jobs, ∃ r, bulkUpsertJobPostingsWithOutcomes cfg S db [job] = .ok r) →
      ∃ db₁ results₁, bulkUpsertJobPostingsWithOutcomes cfg S db jobs = .ok (db₁, results₁) ∧
        results₁.map (·.posting.baseHash) = jobs.map (·.baseHash) ∧
        ∀ order, order.Perm jobs → ∃ db₂ results₂,
          upsertOneByOne cfg S db order = .ok (db₂, results₂) ∧ db₁.SameUpToIds db₂ ∧
          (results₁.map (·.outcome)).Perm (results₂.map (·.outcome))) ∧
    ((¬ (jobs.map (·.baseHash)).Nodup ∨
        ∃ job ∈ jobs, job.companyId = none ∧ job.companyName = none) →
      (∃ message, bulkUpsertJobPostingsWithOutcomes cfg S db jobs =
        .error (.valueError message)) ∧ (Call.bulk jobs).exec cfg S db = db) := by
  have hwf := hreach.wf
  have hlife : ∀ h rows, db.job h = some rows → rows.Lifecycle := fun h rows hj =>
    hreach.lifecycle hj
  refine ⟨fun hnd hsingle => ?_, fun hbad => ?_⟩
  · have halone : ∀ job ∈ jobs, Alone cfg S db job := fun job hjob =>
      (bulk_singleton_isOk_iff hwf).mp (hsingle job hjob)
    obtain ⟨db₁, results₁, hrun₁, h₁⟩ := bulk_alone_ok hwf hnd halone
    have hout₁ := h₁.outcomes hwf hlife
    refine ⟨db₁, results₁, hrun₁, ?_, fun order hperm => ?_⟩
    · have hfst := congrArg (List.map Prod.fst) hout₁
      simpa [Function.comp_def, PersistedJobResult.outcome, expectedOutcome] using hfst
    · obtain ⟨db₂, results₂, hrun₂, h₂⟩ := upsertOneByOne_ok order hwf
        ((hperm.map _).nodup_iff.mpr hnd) fun job hjob => halone job (hperm.mem_iff.mp hjob)
      refine ⟨db₂, results₂, hrun₂,
        h₁.sameUpToIds hwf hlife h₂ hperm fun job hjob => (halone job hjob).1, ?_⟩
      rw [hout₁, h₂.outcomes hwf hlife]
      exact (hperm.map _).symm
  · obtain ⟨message, hrun⟩ := bulk_rejected cfg S db hbad
    exact ⟨⟨message, hrun⟩, by simp only [Call.exec, Call.run, hrun]⟩

/-- A row of another job of a company that does not exist. -/
def homelessJob : NormalizedJob :=
  { sampleJob with
    baseHash := sampleHash 'd' rfl
    companyId := some 99
    companyName := none }

/-- One row that cannot be written takes the batch with it, but not the rows before it. -/
theorem batch_not_transparent :
    ([sampleJob, homelessJob].map (·.baseHash)).Nodup ∧
      (((Call.bulk [sampleJob, homelessJob]).exec sampleConfig .ascii .empty).job
        sampleJob.baseHash).isNone ∧
      ((execAll sampleConfig .ascii .empty [.bulk [sampleJob], .bulk [homelessJob]]).job
        sampleJob.baseHash).isSome := by decide +kernel

/-- A job of another company. -/
def globexJob : NormalizedJob :=
  { sampleJob with
    baseHash := sampleHash 'f' rfl
    companyName := some "Globex".toList
    applyUrl := "https://jobs.lever.co/globex/2".toList
    sourceId := some "2".toList }

/-- The closure of a job that is known, and a new job. -/
def closingBatch : List NormalizedJob := [{ sampleJob with isClosed := true }, globexJob]

/-- They are written as a batch, and one by one in the other order. -/
theorem closing_batch_transparent : ∃ db₁ results₁ db₂ results₂,
    bulkUpsertJobPostingsWithOutcomes sampleConfig .ascii
        (execAll sampleConfig .ascii .empty [.bulk [sampleJob]]) closingBatch =
        .ok (db₁, results₁) ∧
      upsertOneByOne sampleConfig .ascii
        (execAll sampleConfig .ascii .empty [.bulk [sampleJob]]) closingBatch.reverse =
        .ok (db₂, results₂) ∧
      results₁.map (·.posting.baseHash) = closingBatch.map (·.baseHash) ∧
      db₁.SameUpToIds db₂ ∧ (results₁.map (·.outcome)).Perm (results₂.map (·.outcome)) := by
  have hsingle : ∀ job ∈ closingBatch, ∃ r, bulkUpsertJobPostingsWithOutcomes sampleConfig
      .ascii (execAll sampleConfig .ascii .empty [.bulk [sampleJob]]) [job] = .ok r := by
    have hok : ∀ job ∈ closingBatch, (bulkUpsertJobPostingsWithOutcomes sampleConfig .ascii
        (execAll sampleConfig .ascii .empty [.bulk [sampleJob]]) [job]).toOption.isSome = true := by
      decide +kernel
    intro job hjob
    have hjob := hok job hjob
    cases hrun : bulkUpsertJobPostingsWithOutcomes sampleConfig .ascii
        (execAll sampleConfig .ascii .empty [.bulk [sampleJob]]) [job] with
    | error e =>
      rw [hrun] at hjob
      cases hjob
    | ok r => exact ⟨r, rfl⟩
  obtain ⟨db₁, results₁, hrun₁, hhashes, hall⟩ :=
    (batch_transparent ⟨[.bulk [sampleJob]], rfl⟩ closingBatch).1 (by decide) hsingle
  obtain ⟨db₂, results₂, hrun₂, hsame, houtcomes⟩ :=
    hall closingBatch.reverse (List.reverse_perm _)
  exact ⟨db₁, results₁, db₂, results₂, hrun₁, hrun₂, hhashes, hsame, houtcomes⟩

end JobPing
