import JobPing.AutobeginSessions
import JobPing.Dict
import JobPing.RejectedCalls

/-!
# Transactions of the repository

The public methods of `DatabaseRepository` as programs of a session. Those that write companies,
postings and status logs enter `_transaction` before their first statement, and commit what they do.
Those that write applications read first: on an idle session the read opens the transaction that
`_transaction` then joins, and nothing is committed (`transactions_owned_iff`).
-/

namespace JobPing

open Sessions Sessions.Stateful

/-! ## The database -/

/-- A row of `status_logs` as `log_status_change` writes it. -/
structure StatusChange where
  jobId : ℤ
  previousState : Option Str
  newState : Str

/-- The database of a session. Ingestion neither reads `companies.domain` nor the rows that
`log_status_change` writes; they stand apart. -/
structure RepositoryStore where
  app : ApplicationStore
  /-- The column `domain` of `companies`, by name. -/
  domains : List (Str × Str)
  statusChanges : List StatusChange

/-- The tables, without the record of flushes. -/
def RepositoryStore.tables (r : RepositoryStore) :
    Db × List ApplicationAttempt × List ApplicationAnswer × List (Str × Str) × List StatusChange :=
  (r.app.db, r.app.applicationAttempts, r.app.applicationAnswers, r.domains, r.statusChanges)

inductive MethodError
  | application (message : Str)
  | ingestion (error : RepositoryError)

/-- A method of the repository. -/
abbrev Method (α : Type) : Type := SessionM RepositoryStore MethodError α

/-- What an application method does to the database. -/
def onApp {α : Type} (f : ApplicationStore → Except Str α × ApplicationStore) :
    Stateful RepositoryStore MethodError α := fun r =>
  ((f r.app).1.mapError .application, { r with app := (f r.app).2 })

/-- What an ingestion method does to the database. -/
def onDb {α : Type} (f : Db → Except RepositoryError (Db × α)) :
    Stateful RepositoryStore MethodError α := fun r =>
  match f r.app.db with
  | .ok (db, a) => (.ok a, { r with app := { r.app with db := db } })
  | .error e => (.error (.ingestion e), r)

namespace DatabaseRepository

/-! ## Companies, postings and status logs -/

/-- The statement of `upsert_company`. -/
def companyStatement (name : Str) (domain : Option Str) :
    Stateful RepositoryStore MethodError ℕ := fun r =>
  let db := r.app.db.insertCompany name
  (.ok ((db.companyIdOf name).getD 0),
    { r with
      app := { r.app with db := db }
      domains := match domain with
        | some domain => Dict.set name domain r.domains
        | none => r.domains })

/-- `upsert_company`. -/
def upsertCompany (P : Python) (name : Str) (domain : Option Str) : Method ℕ :=
  let normalizedName := P.strip name
  let normalizedDomain := (domain.filter (· ≠ [])).map fun domain => P.lower (P.strip domain)
  if normalizedName = [] then
    raise (.ingestion (.valueError "company name must not be empty"))
  else transaction (statement (companyStatement normalizedName normalizedDomain))

/-- `save_job_posting_with_outcome`. -/
def saveJobPostingWithOutcome (cfg : Config) (S : Services) (job : NormalizedJob) :
    Method PersistedJobResult :=
  transaction (statement (onDb fun db => JobPing.saveJobPostingWithOutcome cfg S db job))

/-- `bulk_upsert_job_postings_with_outcomes`. -/
def bulkUpsertJobPostingsWithOutcomes (cfg : Config) (S : Services)
    (jobs : List NormalizedJob) : Method (List PersistedJobResult) :=
  if jobs.isEmpty then pure []
  else if ¬(jobs.map (·.baseHash)).Nodup then
    raise (.ingestion (.valueError "bulk job upsert requires unique base hashes"))
  else
    transaction (statement
      (onDb fun db => JobPing.bulkUpsertJobPostingsWithOutcomes cfg S db jobs))

/-- The statements of `log_status_change`. -/
def logStatement (row : StatusChange) :
    Stateful RepositoryStore MethodError StatusChange := fun r =>
  if (r.app.db.jobPostings.find? (·.id = row.jobId)).isNone then
    (.error (.application (valueError s!"job posting {row.jobId} does not exist")), r)
  else (.ok row, { r with statusChanges := r.statusChanges ++ [row] })

/-- `log_status_change`. -/
def logStatusChange (U : Unicode) (jobId : ℤ) (previousState : Option Str) (newState : Str) :
    Method StatusChange :=
  let old := previousState.map U.strip
  let new := U.strip newState
  if new = [] then raise (.application (valueError "new state must not be empty"))
  else if old = some new then
    raise (.application (valueError "status log requires an actual state transition"))
  else transaction (statement (logStatement ⟨jobId, old, new⟩))

/-! ## Applications -/

/-- The check of a job id. -/
def positive (jobId : ℤ) : Except MethodError Unit :=
  if jobId ≤ 0 then .error (.application (valueError "job id must be positive")) else .ok ()

/-- `get_job_by_id`. -/
def getJobById (jobId : ℤ) : Method (Option JobPosting) := do
  returned (positive jobId)
  statement fun r => (.ok (r.app.db.jobPostings.find? (·.id = jobId)), r)

/-- `get_application_attempt`. -/
def getApplicationAttempt (jobId : ℤ) : Method (Option ApplicationAttempt) := do
  returned (positive jobId)
  statement fun r => (.ok (r.app.attempt jobId), r)

/-- The insertion of a queued attempt. -/
def insertAttempt (job : JobPosting) (clocks : Clocks) : Method ApplicationAttempt :=
  transaction (statement (onApp fun s => (.ok (s.queuedAttempt job clocks), s.create job clocks)))

/-- The update of an attempt. -/
def updateAttempt (attempt : ApplicationAttempt) : Method ApplicationAttempt :=
  transaction (statement (onApp fun s => (.ok attempt, s.update attempt)))

/-- The end of `ensure_application_attempt`. -/
def ensureOpen (job : JobPosting) (clocks : Clocks) :
    Option ApplicationAttempt → Method ApplicationAttempt
  | some existing => pure existing
  | none => insertAttempt job clocks

/-- The end of `ensure_application_attempt`, of a posting that was read. -/
def ensureFor (jobId : ℤ) (clocks : Clocks) : Option JobPosting → Method ApplicationAttempt
  | none => raise (.application (Transition.notFound jobId))
  | some job =>
    if job.isClosed then raise (.application (Transition.closed jobId))
    else do ensureOpen job clocks (← getApplicationAttempt jobId)

/-- `ensure_application_attempt`. -/
def ensureApplicationAttempt (jobId : ℤ) (clocks : Clocks) : Method ApplicationAttempt := do
  ensureFor jobId clocks (← getJobById jobId)

/-- The checks of `update_application_checkpoint`, and its write. -/
def checkpointOf (env : ApplicationEnv) (currentUrl stage : Option Str) (now : Time) :
    Option ApplicationAttempt → Method ApplicationAttempt
  | none => raise
      (.application (valueError "application must be started before updating its checkpoint"))
  | some attempt => do
    let stage ← returned ((ApplicationStore.checkpointCheck env attempt currentUrl stage).mapError
      .application)
    updateAttempt (ApplicationStore.checkpointed env currentUrl stage now attempt)

/-- `update_application_checkpoint`. -/
def updateApplicationCheckpoint (env : ApplicationEnv) (jobId : ℤ)
    (currentUrl stage : Option Str) (now : Time) : Method ApplicationAttempt := do
  checkpointOf env currentUrl stage now (← getApplicationAttempt jobId)

/-- The attempt of a transition for a posting that was read. -/
def queueFor (request : Transition) (clocks : Clocks) :
    Option JobPosting → Method ApplicationAttempt
  | none => raise (.application (Transition.notFound request.jobId))
  | some job =>
    if job.isClosed && request.newStatus ≠ .failed then
      raise (.application (Transition.closed request.jobId))
    else insertAttempt job clocks

/-- An attempt that is there, unless its posting is closed. -/
def attemptUnless (request : Transition) (attempt : ApplicationAttempt) (closed : Bool) :
    Method ApplicationAttempt :=
  if closed && request.newStatus ≠ .failed then
    raise (.application (Transition.closed request.jobId))
  else pure attempt

/-- The attempt of a transition. Its posting is loaded with it. -/
def transitionAttempt (request : Transition) (clocks : Clocks) :
    Option ApplicationAttempt → Method ApplicationAttempt
  | none => do queueFor request clocks (← getJobById request.jobId)
  | some attempt => do
    attemptUnless request attempt
      (← statement fun r => (.ok (r.app.isClosed attempt.jobId), r))

/-- The checks of `transition_application`, and its write. -/
def transitionOf (env : ApplicationEnv) (request : Transition) (now : Time)
    (attempt : ApplicationAttempt) : Method ApplicationAttempt := do
  returned ((request.check env attempt.status).mapError .application)
  updateAttempt (request.assign env now attempt)

/-- The first half of `transition_application`. -/
def attemptFor (request : Transition) (clocks : Clocks) : Method ApplicationAttempt := do
  transitionAttempt request clocks (← getApplicationAttempt request.jobId)

/-- `transition_application`. -/
def transitionApplication (env : ApplicationEnv) (request : Transition) (clocks : Clocks) :
    Method ApplicationAttempt := do
  transitionOf env request clocks.now (← attemptFor request clocks)

/-- The row of an answer. -/
def answerRow (env : ApplicationEnv) (request : ApplicationStore.NewAnswer)
    (attempt : ApplicationAttempt) (s : ApplicationStore) : ApplicationAnswer where
  id := s.applicationAnswers.length + 1
  applicationId := attempt.id
  question := env.strip request.question
  normalizedQuestion := env.strip request.normalizedQuestion
  answer := env.strip request.answer
  source := env.strip request.source
  generated := request.generated
  confidence := request.confidence

/-- The insertion of an answer. -/
def insertAnswer (env : ApplicationEnv) (request : ApplicationStore.NewAnswer)
    (attempt : ApplicationAttempt) : Method ApplicationAnswer :=
  transaction (statement (onApp fun s => (.ok (answerRow env request attempt s),
    { s with applicationAnswers := s.applicationAnswers ++ [answerRow env request attempt s] })))

/-- `save_application_answer`. -/
def saveApplicationAnswer (env : ApplicationEnv) (jobId : ℤ)
    (request : ApplicationStore.NewAnswer) (clocks : Clocks) : Method ApplicationAnswer := do
  returned ((request.check env).mapError .application)
  let attempt ← ensureApplicationAttempt jobId clocks
  insertAnswer env request attempt

/-- The end of `reset_application`. -/
def resetOf (jobId : ℤ) (clocks : Clocks) : Option ApplicationAttempt → Method ApplicationAttempt
  | none => ensureApplicationAttempt jobId clocks
  | some attempt =>
    if attempt.status = .submitted then
      raise (.application (valueError "submitted applications cannot be reset"))
    else updateAttempt (ApplicationStore.requeued clocks.now attempt)

/-- `reset_application`. -/
def resetApplication (jobId : ℤ) (clocks : Clocks) : Method ApplicationAttempt := do
  resetOf jobId clocks (← getApplicationAttempt jobId)

/-! ## What the methods do to the database -/

open ApplicationStore (requeued checkpointed checkpointCheck)

variable {env : ApplicationEnv} {jobId : ℤ} {clocks : Clocks} {request : Transition}

theorem getJobById_acts (jobId : ℤ) :
    Acts (getJobById jobId) (onApp fun s => (s.getJobById jobId, s)) := by
  intro committed working
  by_cases h : jobId ≤ 0
  · simp only [getJobById, positive, onApp, ApplicationStore.getJobById, if_pos h]
    rfl
  · simp only [getJobById, positive, onApp, ApplicationStore.getJobById, if_neg h]
    rfl

theorem getApplicationAttempt_acts (jobId : ℤ) :
    Acts (getApplicationAttempt jobId)
      (onApp fun s => (s.getApplicationAttempt jobId, s)) := by
  intro committed working
  by_cases h : jobId ≤ 0
  · simp only [getApplicationAttempt, positive, onApp, ApplicationStore.getApplicationAttempt,
      if_pos h]
    rfl
  · simp only [getApplicationAttempt, positive, onApp, ApplicationStore.getApplicationAttempt,
      if_neg h]
    rfl

/-- What a method does after a read. -/
theorem acts_read {α β : Type} {m : Method α} {read : ApplicationStore → Except Str α}
    (hm : Acts m (onApp fun s => (read s, s))) {k : α → Method β}
    {f : ApplicationStore → Except Str β × ApplicationStore}
    (hok : ∀ committed working a, read working.app = .ok a →
      k a (Session.opened committed working) =
        ((onApp f working).1, Session.opened committed (onApp f working).2))
    (herror : ∀ s e, read s = .error e → f s = (.error e, s)) : Acts (m >>= k) (onApp f) := by
  intro committed working
  have hread := hm committed working
  cases hresult : read working.app with
  | ok a =>
    simp only [onApp, hresult] at hread
    exact (bind_ok hread).trans (hok committed working a hresult)
  | error e =>
    simp only [onApp, hresult] at hread
    simp only [onApp, herror _ e hresult]
    exact bind_error hread

theorem insertAttempt_acts (job : JobPosting) (clocks : Clocks) :
    Acts (insertAttempt job clocks)
      (onApp fun s => (.ok (s.queuedAttempt job clocks), s.create job clocks)) :=
  (Acts.statement _).transaction

theorem updateAttempt_acts (attempt : ApplicationAttempt) :
    Acts (updateAttempt attempt) (onApp fun s => (.ok attempt, s.update attempt)) :=
  (Acts.statement _).transaction

/-- **`ensure_application_attempt`** in an open transaction. -/
theorem ensure_acts (jobId : ℤ) (clocks : Clocks) :
    Acts (ensureApplicationAttempt jobId clocks)
      (onApp fun s => s.ensureApplicationAttempt jobId clocks) := by
  refine acts_read (getJobById_acts jobId) (fun committed working found hfound => ?_)
    fun s e he => by simp only [ApplicationStore.ensureApplicationAttempt, he]
  simp only [onApp, ApplicationStore.ensureApplicationAttempt, hfound]
  cases found with
  | none => rfl
  | some job =>
    have hpositive : ¬jobId ≤ 0 := fun h => by
      rw [ApplicationStore.getJobById, if_pos h] at hfound
      cases hfound
    by_cases hclosed : job.isClosed = true
    · simp only [ensureFor, if_pos hclosed]
      rfl
    · have hread := getApplicationAttempt_acts jobId committed working
      simp only [onApp, ApplicationStore.getApplicationAttempt, if_neg hpositive] at hread
      simp only [ensureFor, if_neg hclosed]
      refine (bind_ok hread).trans ?_
      cases working.app.attempt jobId with
      | some existing => rfl
      | none => exact insertAttempt_acts job clocks committed working

/-- **`update_application_checkpoint`** in an open transaction. -/
theorem checkpoint_acts (env : ApplicationEnv) (jobId : ℤ) (url stage : Option Str) (now : Time) :
    Acts (updateApplicationCheckpoint env jobId url stage now)
      (onApp fun s => s.updateApplicationCheckpoint env jobId url stage now) := by
  refine acts_read (getApplicationAttempt_acts jobId) (fun committed working found hfound => ?_)
    fun s e he => by simp only [ApplicationStore.updateApplicationCheckpoint, he]
  simp only [onApp, ApplicationStore.updateApplicationCheckpoint, hfound]
  cases found with
  | none => rfl
  | some attempt =>
    simp only [checkpointOf]
    cases checkpointCheck env attempt url stage with
    | error e => rfl
    | ok stage => exact updateAttempt_acts _ committed working

theorem attemptFor_acts (request : Transition) (clocks : Clocks) :
    Acts (attemptFor request clocks) (onApp (request.attempt clocks)) := by
  refine acts_read (getApplicationAttempt_acts request.jobId)
    (fun committed working found hfound => ?_) fun s e he => by simp only [Transition.attempt, he]
  simp only [onApp, Transition.attempt, hfound]
  cases found with
  | none =>
    have hread := getJobById_acts request.jobId committed working
    simp only [onApp] at hread
    cases hjob : working.app.getJobById request.jobId with
    | error e =>
      simp only [hjob] at hread
      exact bind_error hread
    | ok job =>
      simp only [hjob] at hread
      refine (bind_ok hread).trans ?_
      cases job with
      | none => rfl
      | some job =>
        simp only [queueFor]
        split_ifs
        · rfl
        · exact insertAttempt_acts job clocks committed working
  | some attempt =>
    refine (bind_ok rfl).trans ?_
    change attemptUnless request attempt (working.app.isClosed attempt.jobId)
      (Session.opened committed working) = _
    dsimp only [attemptUnless]
    by_cases hclosed :
        (working.app.isClosed attempt.jobId && decide (request.newStatus ≠ .failed)) = true
    · rw [if_pos hclosed, if_pos hclosed]
      rfl
    · rw [if_neg hclosed, if_neg hclosed]
      rfl

/-- **`transition_application`** in an open transaction. -/
theorem transition_acts (env : ApplicationEnv) (request : Transition) (clocks : Clocks) :
    Acts (transitionApplication env request clocks)
      (onApp fun s => s.transitionApplication env request clocks) := by
  intro committed working
  have hattempt := attemptFor_acts request clocks committed working
  simp only [onApp, ApplicationStore.transitionApplication] at hattempt ⊢
  cases hresult : request.attempt clocks working.app with
  | mk result s =>
    simp only [hresult] at hattempt
    cases result with
    | error e => exact bind_error hattempt
    | ok attempt =>
      refine (bind_ok hattempt).trans ?_
      simp only [transitionOf]
      cases request.check env attempt.status with
      | error e => rfl
      | ok _ => rfl

/-- **`save_application_answer`** in an open transaction. -/
theorem saveAnswer_acts (env : ApplicationEnv) (jobId : ℤ)
    (request : ApplicationStore.NewAnswer) (clocks : Clocks) :
    Acts (saveApplicationAnswer env jobId request clocks)
      (onApp fun s => s.saveApplicationAnswer env jobId request clocks) := by
  intro committed working
  have hensure := ensure_acts jobId clocks committed working
  simp only [onApp, ApplicationStore.saveApplicationAnswer, saveApplicationAnswer] at hensure ⊢
  cases request.check env with
  | error e => rfl
  | ok _ =>
    refine (bind_ok rfl).trans ?_
    cases hresult : working.app.ensureApplicationAttempt jobId clocks with
    | mk result s =>
      simp only [hresult] at hensure
      cases result with
      | error e => exact bind_error hensure
      | ok attempt => exact bind_ok hensure

/-- **`reset_application`** in an open transaction. -/
theorem reset_acts (jobId : ℤ) (clocks : Clocks) :
    Acts (resetApplication jobId clocks) (onApp fun s => s.resetApplication jobId clocks) := by
  refine acts_read (getApplicationAttempt_acts jobId) (fun committed working found hfound => ?_)
    fun s e he => by simp only [ApplicationStore.resetApplication, he]
  simp only [onApp, ApplicationStore.resetApplication, hfound]
  cases found with
  | none => exact ensure_acts jobId clocks committed working
  | some attempt =>
    simp only [resetOf]
    split_ifs
    · rfl
    · exact updateAttempt_acts _ committed working

/-! ## First statements -/

theorem getJobById_begins (jobId : ℤ) : Begins (getJobById jobId) :=
  Begins.check _ fun _ _ => Begins.statement _

theorem getApplicationAttempt_begins (jobId : ℤ) : Begins (getApplicationAttempt jobId) :=
  Begins.check _ fun _ _ => Begins.statement _

theorem ensure_begins (jobId : ℤ) (clocks : Clocks) :
    Begins (ensureApplicationAttempt jobId clocks) := (getJobById_begins jobId).bind _

theorem saveAnswer_begins (env : ApplicationEnv) (jobId : ℤ)
    (request : ApplicationStore.NewAnswer) (clocks : Clocks) :
    Begins (saveApplicationAnswer env jobId request clocks) :=
  Begins.check _ fun _ _ => (ensure_begins jobId clocks).bind _

end DatabaseRepository

/-! ## What there is to commit -/

open ApplicationStore

variable {env : ApplicationEnv} {s s' : ApplicationStore} {kinds : List WriteKind}
  {kind : WriteKind} {jobId : ℤ} {attempt : ApplicationAttempt} {clocks : Clocks}

/-- A method that returns leaves the attempts and the answers as they were. -/
def KeepsRows {α : Type} (s : ApplicationStore) (result : Except Str α × ApplicationStore) : Prop :=
  ∀ a, result.1 = .ok a → s.SameRows result.2

theorem AttemptWrite.db (h : AttemptWrite env s kind s') : s'.db = s.db := by
  cases h <;> rfl

/-- No application method writes what ingestion does. -/
theorem Writes.db (h : Writes env kinds s s') : s'.db = s.db := by
  induction h with
  | refl => rfl
  | tail _ hwrite ih =>
    obtain ⟨kind, -, hwrite⟩ := hwrite
    exact hwrite.db.trans ih

/-- The update of an attempt is a change unless it assigns what is there. -/
theorem sameRows_update_iff (hkeys : (s.applicationAttempts.map (·.jobId)).Nodup)
    (hfound : s.attempt jobId = some attempt) {after : ApplicationAttempt}
    (hjob : after.jobId = attempt.jobId) : s.SameRows (s.update after) ↔ after = attempt := by
  constructor
  · intro h
    have hafter := attempt_update hfound hjob
    have hsame : (s.update after).attempt jobId = s.attempt jobId := by
      unfold ApplicationStore.attempt
      rw [h.attempts]
    exact Option.some.inj (hafter.symm.trans (hsame.trans hfound))
  · rintro rfl
    refine ⟨?_, rfl⟩
    change Table.replace _ _ _ = _
    unfold Table.replace
    conv_rhs => rw [← List.map_id s.applicationAttempts]
    refine List.map_congr_left fun row hrow => ?_
    by_cases hkey : row.jobId = after.jobId
    · rw [if_pos hkey, id_eq]
      exact (List.inj_on_of_nodup_map hkeys hrow (mem_of_attempt hfound) hkey).symm
    · rw [if_neg hkey, id_eq]

theorem ensure_keepsRows_iff (jobId : ℤ) (clocks : Clocks) (s : ApplicationStore) :
    KeepsRows s (s.ensureApplicationAttempt jobId clocks) ↔ ¬s.Unattempted jobId .queued := by
  constructor
  · rintro h ⟨hpositive, hnone, job, hjob, hclosed⟩
    have hopen : ¬job.isClosed = true := fun hclosed' => by cases hclosed hclosed'
    have hread : s.getJobById jobId = .ok (some job) := by
      rw [getJobById, if_neg (by omega), hjob]
    unfold ensureApplicationAttempt at h
    rw [hread] at h
    dsimp only at h
    rw [if_neg hopen, hnone] at h
    exact not_sameRows_create (h _ rfl)
  · intro h
    unfold ensureApplicationAttempt
    split
    · exact fun _ hreturned => by cases hreturned
    · exact fun _ hreturned => by cases hreturned
    next job hread =>
      split_ifs with hclosed
      · exact fun _ hreturned => by cases hreturned
      · cases hattempt : s.attempt jobId with
        | some existing => exact fun _ _ => ⟨rfl, rfl⟩
        | none =>
          have hpositive : 0 < jobId := by
            by_contra hnot
            rw [getJobById, if_pos (by omega)] at hread
            cases hread
          exact absurd ⟨hpositive, hattempt, job, getJobById_eq_ok hread,
            fun hclosed' => absurd hclosed' hclosed⟩ h

/-- A status does not allow itself. -/
theorem not_allowed_self (status : ApplicationStatus) : status ∉ status.allowed := by
  cases status <;> decide

theorem transition_keepsRows_iff (env : ApplicationEnv) (request : Transition) (clocks : Clocks)
    (s : ApplicationStore) :
    KeepsRows s (s.transitionApplication env request clocks) ↔
      ¬((∃ attempt, request.Applies env s attempt) ∨
        s.Unattempted request.jobId request.newStatus ∧ request.check env .queued = .ok ()) := by
  constructor
  · rintro h (⟨attempt, happlies⟩ | ⟨hunattempted, hcheck⟩)
    · rw [happlies.eq clocks] at h
      have hafter := attempt_update happlies.found (assign_jobId env request clocks.now attempt)
      have hsame : s.attempt request.jobId = some (request.assign env clocks.now attempt) := by
        rw [← hafter]
        unfold ApplicationStore.attempt
        rw [(h _ rfl).attempts]
      have hrow := Option.some.inj (happlies.found.symm.trans hsame)
      have hallowed := check_eq_ok_allowed happlies.checked
      rw [← assign_status env request clocks.now attempt, ← hrow] at hallowed
      exact not_allowed_self _ hallowed
    · obtain ⟨job, hid, hnone, -, hattempt⟩ := transitionAttempt_queued clocks hunattempted
      have hstatus : (s.queuedAttempt job clocks).status = .queued := rfl
      unfold transitionApplication at h
      rw [hattempt] at h
      dsimp only at h
      rw [hstatus, hcheck] at h
      have hcreated : (s.create job clocks).attempt job.id = some (s.queuedAttempt job clocks) :=
        attempt_create hnone
      have hafter := attempt_update hcreated
        (assign_jobId env request clocks.now (s.queuedAttempt job clocks))
      have hsame : s.attempt job.id =
          some (request.assign env clocks.now (s.queuedAttempt job clocks)) := by
        rw [← hafter]
        unfold ApplicationStore.attempt
        rw [(h _ rfl).attempts]
      rw [hnone] at hsame
      cases hsame
  · intro h
    obtain ⟨s₁, hprepared, ⟨e, heq⟩ | ⟨attempt, happlies, -⟩⟩ :=
      transitionApplication_spec env request clocks s
    · rw [heq]
      exact fun _ hreturned => by cases hreturned
    · refine absurd ?_ h
      rcases hprepared with rfl | ⟨job, clocks', hid, hjob, hnone, rfl⟩
      · exact .inl ⟨attempt, happlies⟩
      · have hfound := happlies.found
        rw [← hid, attempt_create hnone] at hfound
        obtain rfl := Option.some.inj hfound
        refine .inr ⟨⟨happlies.positive, hid ▸ hnone, job, hjob, fun hclosed => ?_⟩,
          happlies.checked⟩
        refine happlies.opened ?_
        change (s.db.jobPostings.find? _).any _ = true
        rw [hjob]
        exact hclosed

theorem checkpoint_keepsRows_iff (hkeys : (s.applicationAttempts.map (·.jobId)).Nodup)
    (jobId : ℤ) (url stage : Option Str) (now : Time) :
    KeepsRows s (s.updateApplicationCheckpoint env jobId url stage now) ↔
      ¬∃ attempt stage', 0 < jobId ∧ s.attempt jobId = some attempt ∧
        checkpointCheck env attempt url stage = .ok stage' ∧
        checkpointed env url stage' now attempt ≠ attempt := by
  unfold updateApplicationCheckpoint
  cases hread : s.getApplicationAttempt jobId with
  | error e =>
    refine iff_of_true (fun _ hreturned => by cases hreturned) ?_
    rintro ⟨attempt, -, hpositive, -⟩
    rw [getApplicationAttempt, if_neg (by omega)] at hread
    cases hread
  | ok found =>
    obtain ⟨hpositive, hfound⟩ := getApplicationAttempt_eq_ok hread
    cases found with
    | none =>
      refine iff_of_true (fun _ hreturned => by cases hreturned) ?_
      rintro ⟨attempt, -, -, hattempt, -⟩
      cases hfound.symm.trans hattempt
    | some attempt =>
      dsimp only
      cases hcheck : checkpointCheck env attempt url stage with
      | error e =>
        refine iff_of_true (fun _ hreturned => by cases hreturned) ?_
        rintro ⟨other, stage', -, hattempt, hother, -⟩
        obtain rfl := Option.some.inj (hfound.symm.trans hattempt)
        cases hcheck.symm.trans hother
      | ok stage' =>
        have hrow := sameRows_update_iff hkeys hfound
          (show (checkpointed env url stage' now attempt).jobId = attempt.jobId from rfl)
        constructor
        · rintro h ⟨other, stage'', -, hattempt, hother, hne⟩
          obtain rfl := Option.some.inj (hfound.symm.trans hattempt)
          obtain rfl := Except.ok.inj (hcheck.symm.trans hother)
          exact hne (hrow.mp (h _ rfl))
        · intro h _ _
          refine hrow.mpr ?_
          by_contra hne
          exact h ⟨attempt, stage', hpositive, hfound, hcheck, hne⟩

theorem reset_keepsRows_iff (hkeys : (s.applicationAttempts.map (·.jobId)).Nodup) (jobId : ℤ)
    (clocks : Clocks) :
    KeepsRows s (s.resetApplication jobId clocks) ↔
      ¬(s.Unattempted jobId .queued ∨ ∃ attempt, 0 < jobId ∧ s.attempt jobId = some attempt ∧
        attempt.status ≠ .submitted ∧ requeued clocks.now attempt ≠ attempt) := by
  unfold resetApplication
  cases hread : s.getApplicationAttempt jobId with
  | error e =>
    have hnot : ¬0 < jobId := fun hpositive => by
      rw [getApplicationAttempt, if_neg (by omega)] at hread
      cases hread
    refine iff_of_true (fun _ hreturned => by cases hreturned) ?_
    rintro (hunattempted | ⟨attempt, hpositive, -⟩)
    · exact hnot hunattempted.1
    · exact hnot hpositive
  | ok found =>
    obtain ⟨hpositive, hfound⟩ := getApplicationAttempt_eq_ok hread
    cases found with
    | none =>
      refine (ensure_keepsRows_iff jobId clocks s).trans (not_congr ⟨.inl, ?_⟩)
      rintro (hunattempted | ⟨attempt, -, hattempt, -⟩)
      · exact hunattempted
      · cases hfound.symm.trans hattempt
    | some attempt =>
      have hattempted : ¬s.Unattempted jobId .queued := fun hunattempted => by
        cases hfound.symm.trans hunattempted.2.1
      dsimp only
      by_cases hstatus : attempt.status = .submitted
      · rw [if_pos hstatus]
        refine iff_of_true (fun _ hreturned => by cases hreturned) ?_
        rintro (hunattempted | ⟨other, -, hattempt, hother, -⟩)
        · exact hattempted hunattempted
        · obtain rfl := Option.some.inj (hfound.symm.trans hattempt)
          exact hother hstatus
      · rw [if_neg hstatus]
        have hrow := sameRows_update_iff hkeys hfound
          (show (requeued clocks.now attempt).jobId = attempt.jobId from rfl)
        constructor
        · rintro h (hunattempted | ⟨other, -, hattempt, -, hne⟩)
          · exact hattempted hunattempted
          · obtain rfl := Option.some.inj (hfound.symm.trans hattempt)
            exact hne (hrow.mp (h _ rfl))
        · intro h _ _
          refine hrow.mpr ?_
          by_contra hne
          exact h (.inr ⟨attempt, hpositive, hfound, hstatus, hne⟩)

/-- An attempt is ensured for every open posting, and for no other. -/
theorem ensure_returns_iff (jobId : ℤ) (clocks : Clocks) (s : ApplicationStore) :
    (∃ attempt, (s.ensureApplicationAttempt jobId clocks).1 = .ok attempt) ↔
      0 < jobId ∧ ∃ job, s.db.jobPostings.find? (·.id = jobId) = some job ∧
        job.isClosed = false := by
  unfold ensureApplicationAttempt
  constructor
  · rintro ⟨attempt, h⟩
    cases hread : s.getJobById jobId with
    | error e =>
      rw [hread] at h
      cases h
    | ok found =>
      have hpositive : 0 < jobId := by
        by_contra hnot
        rw [getJobById, if_pos (by omega)] at hread
        cases hread
      cases found with
      | none =>
        rw [hread] at h
        cases h
      | some job =>
        refine ⟨hpositive, job, getJobById_eq_ok hread, ?_⟩
        by_contra hclosed
        rw [hread] at h
        dsimp only at h
        rw [if_pos (Bool.not_eq_false _ ▸ hclosed)] at h
        cases h
  · rintro ⟨hpositive, job, hjob, hopen⟩
    rw [getJobById, if_neg (by omega), hjob]
    dsimp only
    rw [if_neg (Bool.eq_false_iff.mp hopen)]
    cases s.attempt jobId with
    | some existing => exact ⟨existing, rfl⟩
    | none => exact ⟨_, rfl⟩

theorem ensure_answers (jobId : ℤ) (clocks : Clocks) (s : ApplicationStore) :
    (s.ensureApplicationAttempt jobId clocks).2.applicationAnswers = s.applicationAnswers := by
  unfold ensureApplicationAttempt
  split
  · rfl
  · rfl
  · split_ifs
    · rfl
    · split <;> rfl

theorem saveAnswer_keepsRows_iff (env : ApplicationEnv) (jobId : ℤ) (request : NewAnswer)
    (clocks : Clocks) (s : ApplicationStore) :
    KeepsRows s (s.saveApplicationAnswer env jobId request clocks) ↔
      ¬(request.check env = .ok () ∧ 0 < jobId ∧
        ∃ job, s.db.jobPostings.find? (·.id = jobId) = some job ∧ job.isClosed = false) := by
  rw [← ensure_returns_iff jobId clocks s]
  unfold saveApplicationAnswer
  cases hcheck : request.check env with
  | error e =>
    refine iff_of_true (fun _ hreturned => by cases hreturned) ?_
    rintro ⟨hok, -⟩
    cases hok
  | ok _ =>
    dsimp only
    cases hensure : s.ensureApplicationAttempt jobId clocks with
    | mk result s₁ =>
      cases result with
      | error e =>
        refine iff_of_true (fun _ hreturned => by cases hreturned) ?_
        rintro ⟨-, attempt, hattempt⟩
        cases hattempt
      | ok attempt =>
        refine iff_of_false (fun h => ?_) fun h => h ⟨rfl, attempt, rfl⟩
        -- the answer that was added is a change
        have hlength := congrArg List.length (h _ rfl).answers
        have hanswers := ensure_answers jobId clocks s
        rw [hensure] at hanswers
        dsimp only at hlength hanswers
        rw [List.length_append, hanswers, List.length_singleton] at hlength
        omega

/-! ## Calls on an idle session -/

/-- A public method that writes, with its arguments. -/
inductive RepositoryMethod
  | upsertCompany (name : Str) (domain : Option Str)
  | saveJobPostingWithOutcome (job : NormalizedJob)
  | bulkUpsertJobPostingsWithOutcomes (jobs : List NormalizedJob)
  | logStatusChange (jobId : ℤ) (previousState : Option Str) (newState : Str)
  | ensureApplicationAttempt (jobId : ℤ)
  | updateApplicationCheckpoint (jobId : ℤ) (currentUrl stage : Option Str)
  | transitionApplication (request : Transition)
  | saveApplicationAnswer (jobId : ℤ) (request : NewAnswer)
  | resetApplication (jobId : ℤ)

/-- The result without its value. -/
def withoutValue {α : Type} (result : Except MethodError α × Session RepositoryStore) :
    Except MethodError Unit × Session RepositoryStore := (result.1.map fun _ => (), result.2)

/-- A call, and the session it leaves. -/
def RepositoryMethod.run (env : ApplicationEnv) (cfg : Config) (S : Services) (clocks : Clocks)
    (session : Session RepositoryStore) :
    RepositoryMethod → Except MethodError Unit × Session RepositoryStore
  | upsertCompany name domain =>
    withoutValue (DatabaseRepository.upsertCompany env.toPython name domain session)
  | saveJobPostingWithOutcome job =>
    withoutValue (DatabaseRepository.saveJobPostingWithOutcome cfg S job session)
  | bulkUpsertJobPostingsWithOutcomes jobs =>
    withoutValue (DatabaseRepository.bulkUpsertJobPostingsWithOutcomes cfg S jobs session)
  | logStatusChange jobId previousState newState =>
    withoutValue
      (DatabaseRepository.logStatusChange env.toUnicode jobId previousState newState session)
  | ensureApplicationAttempt jobId =>
    withoutValue (DatabaseRepository.ensureApplicationAttempt jobId clocks session)
  | updateApplicationCheckpoint jobId currentUrl stage =>
    withoutValue (DatabaseRepository.updateApplicationCheckpoint env jobId currentUrl stage
      clocks.now session)
  | transitionApplication request =>
    withoutValue (DatabaseRepository.transitionApplication env request clocks session)
  | saveApplicationAnswer jobId request =>
    withoutValue (DatabaseRepository.saveApplicationAnswer env jobId request clocks session)
  | resetApplication jobId =>
    withoutValue (DatabaseRepository.resetApplication jobId clocks session)

/-- The calls that have something to commit after they have joined the transaction of their first
read. -/
def RepositoryMethod.LeavesOpen (env : ApplicationEnv) (clocks : Clocks) (s : ApplicationStore) :
    RepositoryMethod → Prop
  | ensureApplicationAttempt jobId => s.Unattempted jobId .queued
  | updateApplicationCheckpoint jobId currentUrl stage =>
    ∃ attempt stage', 0 < jobId ∧ s.attempt jobId = some attempt ∧
      checkpointCheck env attempt currentUrl stage = .ok stage' ∧
      checkpointed env currentUrl stage' clocks.now attempt ≠ attempt
  | transitionApplication request =>
    (∃ attempt, request.Applies env s attempt) ∨
      s.Unattempted request.jobId request.newStatus ∧ request.check env .queued = .ok ()
  | saveApplicationAnswer jobId request =>
    request.check env = .ok () ∧ 0 < jobId ∧
      ∃ job, s.db.jobPostings.find? (·.id = jobId) = some job ∧ job.isClosed = false
  | resetApplication jobId =>
    s.Unattempted jobId .queued ∨ ∃ attempt, 0 < jobId ∧ s.attempt jobId = some attempt ∧
      attempt.status ≠ .submitted ∧ requeued clocks.now attempt ≠ attempt
  | _ => False

theorem durable_withoutValue {α : Type} {r : RepositoryStore}
    {result : Except MethodError α × Session RepositoryStore} :
    Durable RepositoryStore.tables r (withoutValue result) ↔
      Durable RepositoryStore.tables r result := by
  obtain ⟨outcome, session⟩ := result
  cases outcome with
  | ok a =>
    refine ⟨fun h => ⟨fun _ _ => h.returns () rfl, ?_⟩, fun h => ⟨fun _ _ => h.returns a rfl, ?_⟩⟩
    · exact fun _ hraised => by cases hraised
    · exact fun _ hraised => by cases hraised
  | error e =>
    refine ⟨fun h => ⟨?_, fun _ _ => h.raises e rfl⟩, fun h => ⟨?_, fun _ _ => h.raises e rfl⟩⟩
    · exact fun _ hreturned => by cases hreturned
    · exact fun _ hreturned => by cases hreturned

/-- **Application methods** on an idle session are durable exactly if they have no row to commit. -/
theorem application_durable_iff {α : Type} {m : Method α}
    {f : ApplicationStore → Except Str α × ApplicationStore} (hbegins : Begins m)
    (hacts : Acts m (onApp f)) (r : RepositoryStore) (hdb : (f r.app).2.db = r.app.db) :
    Durable RepositoryStore.tables r (withoutValue (m (Session.idle r))) ↔
      KeepsRows r.app (f r.app) := by
  rw [durable_withoutValue, hbegins.durable_iff hacts]
  constructor
  · intro h a ha
    have htables := h a (by rw [onApp, ha]; rfl)
    exact ⟨congrArg (·.2.1) htables, congrArg (·.2.2.1) htables⟩
  · intro h a ha
    have hresult : (f r.app).1 = .ok a := by
      cases hcase : (f r.app).1 with
      | ok value =>
        rw [onApp, hcase] at ha
        obtain rfl : value = a := Except.ok.inj ha
        rfl
      | error e =>
        rw [onApp, hcase] at ha
        cases ha
    have hrows := h a hresult
    simp only [RepositoryStore.tables, onApp, hdb, hrows.attempts, hrows.answers]

/-- **Transactions of the repository**: on an idle session every public method commits what it does
when it returns, and nothing when it raises, exactly if it does not first read and then write. -/
theorem transactions_owned_iff (env : ApplicationEnv) (cfg : Config) (S : Services) (db : Db)
    (steps : List ApplicationStep) (domains : List (Str × Str)) (statusChanges : List StatusChange)
    (call : RepositoryMethod) (clocks : Clocks) :
    let app := (ApplicationStore.start db).run env cfg S steps
    let r : RepositoryStore := ⟨app, domains, statusChanges⟩
    Durable RepositoryStore.tables r (call.run env cfg S clocks (Session.idle r)) ↔
      ¬call.LeavesOpen env clocks app := by
  intro app r
  have hkeys : (app.applicationAttempts.map (·.jobId)).Nodup :=
    (run_history env cfg S (start_history db) steps).keys
  cases call with
  | upsertCompany name domain =>
    refine iff_of_true (durable_withoutValue.mpr ?_) not_false
    unfold DatabaseRepository.upsertCompany
    split_ifs
    · exact durable_untouched _ r _
    · exact transaction_durable (Acts.statement _) _ r
  | saveJobPostingWithOutcome job =>
    exact iff_of_true (durable_withoutValue.mpr (transaction_durable (Acts.statement _) _ r))
      not_false
  | bulkUpsertJobPostingsWithOutcomes jobs =>
    refine iff_of_true (durable_withoutValue.mpr ?_) not_false
    unfold DatabaseRepository.bulkUpsertJobPostingsWithOutcomes
    split_ifs
    · exact durable_untouched _ r _
    · exact transaction_durable (Acts.statement _) _ r
    · exact durable_untouched _ r _
  | logStatusChange jobId previousState newState =>
    refine iff_of_true (durable_withoutValue.mpr ?_) not_false
    unfold DatabaseRepository.logStatusChange
    split_ifs
    · exact durable_untouched _ r _
    · exact durable_untouched _ r _
    · exact transaction_durable (Acts.statement _) _ r
  | ensureApplicationAttempt jobId =>
    exact (application_durable_iff (DatabaseRepository.ensure_begins jobId clocks)
      (DatabaseRepository.ensure_acts jobId clocks) r
      (ensure_writes env jobId clocks app).db).trans (ensure_keepsRows_iff jobId clocks app)
  | updateApplicationCheckpoint jobId url stage =>
    exact (application_durable_iff
      ((DatabaseRepository.getApplicationAttempt_begins jobId).bind _)
      (DatabaseRepository.checkpoint_acts env jobId url stage clocks.now) r
      (checkpoint_writes jobId url stage clocks.now app).db).trans
        (checkpoint_keepsRows_iff hkeys jobId url stage clocks.now)
  | transitionApplication request =>
    exact (application_durable_iff
      (((DatabaseRepository.getApplicationAttempt_begins request.jobId).bind _).bind _)
      (DatabaseRepository.transition_acts env request clocks) r
      (transition_writes env request (List.Subset.refl _) clocks app).db).trans
        (transition_keepsRows_iff env request clocks app)
  | saveApplicationAnswer jobId request =>
    exact (application_durable_iff
      (DatabaseRepository.saveAnswer_begins env jobId request clocks)
      (DatabaseRepository.saveAnswer_acts env jobId request clocks) r
      (saveAnswer_writes jobId request clocks app).db).trans
        (saveAnswer_keepsRows_iff env jobId request clocks app)
  | resetApplication jobId =>
    have hwrites : Writes env [.create, .reset jobId] app _ := reset_writes jobId clocks app
    exact (application_durable_iff
      ((DatabaseRepository.getApplicationAttempt_begins jobId).bind _)
      (DatabaseRepository.reset_acts jobId clocks) r hwrites.db).trans
        (reset_keepsRows_iff hkeys jobId clocks)

/-- An attempt that is ensured on an idle session is not committed. -/
theorem ensured_attempt_lost :
    ¬∀ (env : ApplicationEnv) (cfg : Config) (S : Services) (db : Db)
      (steps : List ApplicationStep) (domains : List (Str × Str))
      (statusChanges : List StatusChange) (call : RepositoryMethod) (clocks : Clocks),
      let app := (ApplicationStore.start db).run env cfg S steps
      let r : RepositoryStore := ⟨app, domains, statusChanges⟩
      Durable RepositoryStore.tables r (call.run env cfg S clocks (Session.idle r)) := by
  intro h
  have hcommitted := congrArg (·.2.1)
    ((h .plain sampleConfig .ascii openSample [] [] [] (.ensureApplicationAttempt 1)
      ⟨0, 0⟩).returns () rfl)
  revert hcommitted
  decide +kernel

end JobPing
