import JobPing.SourceIdentity
import JobPing.Transactions

/-!
# Runs

A call that returns is a transaction and one that raises leaves the tables alone, so an invariant
of transactions holds after every sequence of calls (`execAll_induction`), and an invariant of
deliveries holds of the rows of every job (`execAll_job_induction`).
-/

namespace JobPing

variable {cfg : Config} {S : Services} {path : WritePath}

/-- Events on, no evidence worker. -/
def sampleConfig : Config := ⟨false, false⟩

/-! ## Calls -/

/-- **A batch of one job returns** exactly when its company checks pass and the job can be
delivered. -/
theorem bulk_singleton_isOk_iff {db : Db} (hwf : db.WF) {job : NormalizedJob} :
    (∃ r, bulkUpsertJobPostingsWithOutcomes cfg S db [job] = .ok r) ↔
      db.Accepts S .bulk job ∧ Deliverable cfg S .bulk (db.job job.baseHash) job := by
  rw [bulk_isOk_iff hwf]
  simp only [List.map_cons, List.map_nil, List.nodup_singleton, List.mem_singleton, forall_eq,
    true_and, ← and_assoc]
  refine and_congr_left fun _ => ?_
  unfold Db.Accepts
  cases hid : job.companyId with
  | some id => simp [Db.insertCompanies, batchCompanyNames, hid]
  | none => cases hname : job.companyName <;> simp

namespace Call

/-- The write path of a call. -/
def writePath : Call → WritePath
  | save _ => .single
  | bulk _ => .bulk

/-- **A call that returns** is a transaction. -/
theorem run_ok {call : Call} {db db' : Db} (hwf : db.WF) {results : List PersistedJobResult}
    (h : call.run cfg S db = .ok (db', results)) :
    Transaction cfg S call.writePath db db' call.jobs results := by
  cases call with
  | save job =>
    cases hs : saveJobPostingWithOutcome cfg S db job with
    | error e =>
      rw [run, hs] at h
      cases h
    | ok r =>
      rw [run, hs] at h
      cases h
      exact (save_ok hwf hs).2
  | bulk jobs => exact bulk_ok hwf h

/-- A call leaves the tables alone or is a transaction. -/
theorem exec_cases (call : Call) {db : Db} (hwf : db.WF) :
    call.exec cfg S db = db ∨
      ∃ results, Transaction cfg S call.writePath db (call.exec cfg S db) call.jobs results := by
  unfold exec
  cases h : call.run cfg S db with
  | error e => exact .inl rfl
  | ok r => exact .inr ⟨r.2, run_ok hwf h⟩

/-- The call of a path that delivers one job. -/
def deliver (path : WritePath) (job : NormalizedJob) : Call :=
  match path with
  | .single => .save job
  | .bulk => .bulk [job]

@[simp] theorem deliver_writePath (job : NormalizedJob) : (deliver path job).writePath = path := by
  cases path <;> rfl

@[simp] theorem deliver_jobs (job : NormalizedJob) : (deliver path job).jobs = [job] := by
  cases path <;> rfl

theorem deliver_isOk_iff {db : Db} (hwf : db.WF) {job : NormalizedJob} :
    (∃ r, (deliver path job).run cfg S db = .ok r) ↔
      db.Accepts S path job ∧ Deliverable cfg S path (db.job job.baseHash) job := by
  cases path with
  | bulk => exact bulk_singleton_isOk_iff hwf
  | single =>
    rw [← save_isOk_iff hwf]
    constructor
    · rintro ⟨r, h⟩
      cases hs : saveJobPostingWithOutcome cfg S db job with
      | error e =>
        rw [deliver, run, hs] at h
        cases h
      | ok r => exact ⟨r, rfl⟩
    · rintro ⟨r, h⟩
      exact ⟨(r.1, [r.2]), by rw [deliver, run, h]; rfl⟩

/-- A call that delivers one job, when it returns. -/
theorem deliver_ok {db db' : Db} (hwf : db.WF) {job : NormalizedJob}
    {results : List PersistedJobResult}
    (h : (deliver path job).run cfg S db = .ok (db', results)) :
    ∃ result, results = [result] ∧ Delivered cfg S path db db' job result ∧ db'.WF ∧
      ∀ h, h ≠ job.baseHash → db'.job h = db.job h := by
  have htx := run_ok hwf h
  rw [deliver_writePath, deliver_jobs] at htx
  have hall := htx.delivered
  cases hall with
  | @cons _ result _ _ hdel hnil =>
    cases hnil
    exact ⟨result, rfl, hdel, htx.wf, fun h hh => htx.frame h (by simpa using hh)⟩

/-- The tables after a call that delivers one job. -/
theorem deliver_exec (cfg : Config) (S : Services) (path : WritePath) {db : Db} (hwf : db.WF)
    (job : NormalizedJob) :
    (db.Accepts S path job ∧ Deliverable cfg S path (db.job job.baseHash) job →
      ∃ result, Delivered cfg S path db ((deliver path job).exec cfg S db) job result ∧
        ∀ h, h ≠ job.baseHash → ((deliver path job).exec cfg S db).job h = db.job h) ∧
    (¬ (db.Accepts S path job ∧ Deliverable cfg S path (db.job job.baseHash) job) →
      (deliver path job).exec cfg S db = db) := by
  rw [← deliver_isOk_iff hwf]
  unfold exec
  cases h : (deliver path job).run cfg S db with
  | error e => simp
  | ok r =>
    obtain ⟨db', results⟩ := r
    obtain ⟨result, rfl, hdel, -, hframe⟩ := deliver_ok hwf h
    exact ⟨fun _ => ⟨result, hdel, hframe⟩, fun hno => absurd ⟨_, rfl⟩ hno⟩

end Call

/-- The decision both paths take on an observation in a state of the tables. -/
def Db.classify (S : Services) (db : Db) (job : NormalizedJob) : OccurrenceDecision :=
  decideOccurrence S job (job.source.getD []) (db.postingByHash job.baseHash)
    (db.currentOccurrenceEvidence S job.baseHash)

theorem Db.WF.classify_eq {db : Db} (hwf : db.WF) (job : NormalizedJob) :
    db.classify S job = decision S (db.job job.baseHash) job := by
  rw [classify, decision, job_posting, hwf.currentOccurrenceEvidence_eq]

theorem execAll_concat (cfg : Config) (S : Services) (calls : List Call) (call : Call) (db : Db) :
    execAll cfg S db (calls ++ [call]) = call.exec cfg S (execAll cfg S db calls) := by
  simp [execAll]

/-- **Induction over runs**: what the empty database satisfies and every transaction of the run
keeps. -/
theorem execAll_induction {P : Db → Prop} (calls : List Call) (hempty : P Db.empty)
    (hstep : ∀ before call after results, calls = before ++ call :: after →
      (execAll cfg S Db.empty before).WF → P (execAll cfg S Db.empty before) →
      Transaction cfg S call.writePath (execAll cfg S Db.empty before)
        (execAll cfg S Db.empty (before ++ [call])) call.jobs results →
      P (execAll cfg S Db.empty (before ++ [call]))) :
    (execAll cfg S Db.empty calls).WF ∧ P (execAll cfg S Db.empty calls) := by
  suffices h : ∀ before after, calls = before ++ after →
      (execAll cfg S Db.empty before).WF ∧ P (execAll cfg S Db.empty before) from
    h calls [] (by simp)
  intro before
  induction before using List.reverseRecOn with
  | nil => exact fun _ _ => ⟨Db.wf_empty, hempty⟩
  | append_singleton before call ih =>
    intro after hcalls
    rw [List.append_assoc, List.singleton_append] at hcalls
    obtain ⟨hwf, hP⟩ := ih (call :: after) hcalls
    rcases call.exec_cases hwf with h | ⟨results, htx⟩
    · rw [execAll_concat, h]
      exact ⟨hwf, hP⟩
    · rw [← execAll_concat] at htx
      exact ⟨htx.wf, hstep before call after results hcalls hwf hP htx⟩

theorem Reachable.wf {db : Db} (h : Reachable cfg S db) : db.WF := by
  obtain ⟨calls, rfl⟩ := h
  exact (execAll_induction (P := fun _ => True) calls trivial fun _ _ _ _ _ _ _ _ => trivial).1

/-- The ids of the stored occurrences of a job are smaller than those drawn from now on. -/
theorem Db.WF.fresh {db : Db} (hwf : db.WF) {id : ℕ} (hid : db.jobOccurrenceSeq ≤ id)
    {h : Digest} : ∀ b, db.job h = some b → ∀ o ∈ b.occurrences, o.id < id := by
  intro b hb o ho
  obtain ⟨p, -, rfl⟩ := Option.map_eq_some_iff.mp hb
  exact (hwf.occurrence_fresh (Table.mem_rowsOf.mp ho).1).trans_le hid

/-- **Induction over the runs of each job**: what the first delivery of a job establishes and each
later delivery keeps. -/
theorem execAll_job_induction {P : JobRows → Prop} (calls : List Call)
    (hstep : ∀ before call after, calls = before ++ call :: after → ∀ job ∈ call.jobs,
      ∀ ids rows state,
        let base := (execAll cfg S Db.empty before).job job.baseHash
        (∀ b, base = some b → P b) → (∀ b, base = some b → ∀ o ∈ b.occurrences,
          o.id < ids.occurrence) →
        deliverJob cfg S call.writePath ids base job = some (rows, state) → P rows)
    {h : Digest} {rows : JobRows} (hj : (execAll cfg S Db.empty calls).job h = some rows) :
    P rows := by
  refine (execAll_induction (P := fun db => ∀ h rows, db.job h = some rows → P rows) calls ?_
    ?_).2 h rows hj
  · rintro h rows hj
    cases hj
  · intro before call after results hcalls hwf hP htx h rows hj
    by_cases hh : h ∈ call.jobs.map (·.baseHash)
    · obtain ⟨job, hjob, rfl⟩ := List.mem_map.mp hh
      obtain ⟨result, -, ids, rows', -, -, hoid, hdel, -, hj'⟩ :=
        Table.forall₂_left htx.delivered hjob
      rw [hj', Option.some.injEq] at hj
      subst hj
      exact hstep before call after hcalls job hjob ids rows' result.state (fun b hb => hP _ b hb)
        (hwf.fresh hoid) hdel
    · exact hP h rows (htx.frame h hh ▸ hj)

/-- The tables after the sample is discovered. -/
def openSample : Db := execAll sampleConfig .ascii .empty [.save sampleJob]

theorem openSample_reachable : Reachable sampleConfig .ascii openSample := ⟨_, rfl⟩

end JobPing
