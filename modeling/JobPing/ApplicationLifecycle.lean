import JobPing.ApplicationService

/-!
# The lifecycle of an attempt

`AttemptWrite` lists the writes of the methods with what each has checked, and every call is a
sequence of them (`service_writes`). An invariant of the attempts and of their history is then proved for
each write (`AttemptWrite.history`) and holds in every run (`application_lifecycle`).
-/

namespace JobPing

open ApplicationStore

variable {env : ApplicationEnv} {cfg : Config} {S : Services}

/-! ## Writes -/

/-- The kind of a write, with the posting of the attempt it changes. -/
inductive WriteKind
  | create
  | transition (jobId : ℤ) (newStatus : ApplicationStatus)
  | checkpoint (jobId : ℤ)
  | reset (jobId : ℤ)
  | answer
  deriving DecidableEq

/-- A write of a method: what it has read and checked, and the session after its flush. -/
inductive AttemptWrite (env : ApplicationEnv) (s : ApplicationStore) :
    WriteKind → ApplicationStore → Prop
  | create (job : JobPosting) (clocks : Clocks) (hnone : s.attempt job.id = none) :
      AttemptWrite env s .create (s.create job clocks)
  | transition (request : Transition) (now : Time) (attempt : ApplicationAttempt)
      (hattempt : s.attempt attempt.jobId = some attempt)
      (hallowed : request.newStatus ∈ attempt.status.allowed) :
      AttemptWrite env s (.transition attempt.jobId request.newStatus)
        (s.update (request.assign env now attempt))
  | checkpoint (url : Option Str) (stage : Option CheckpointStage) (now : Time)
      (attempt : ApplicationAttempt) (hattempt : s.attempt attempt.jobId = some attempt)
      (hactive : attempt.status ∈ activeStatuses)
      (hstage : ∀ stage' ∈ stage, attempt.status ∈ stage'.stageStatuses) :
      AttemptWrite env s (.checkpoint attempt.jobId)
        (s.update (checkpointed env url stage now attempt))
  | reset (now : Time) (attempt : ApplicationAttempt)
      (hattempt : s.attempt attempt.jobId = some attempt) (hstatus : attempt.status ≠ .submitted) :
      AttemptWrite env s (.reset attempt.jobId) (s.update (requeued now attempt))
  | answer (record : ApplicationAnswer) :
      AttemptWrite env s .answer { s with
        applicationAnswers := s.applicationAnswers ++ [record] }

/-- A sequence of writes of some kinds. -/
abbrev Writes (env : ApplicationEnv) (kinds : List WriteKind) :
    ApplicationStore → ApplicationStore → Prop :=
  Relation.ReflTransGen fun s s' => ∃ kind ∈ kinds, AttemptWrite env s kind s'

/-- The writes a call of the service may make. -/
def ServiceCall.kinds : ServiceCall → List WriteKind
  | getNextJob | getCheckpoint _ => [.create]
  | startApplication jobId _ =>
    [.create, .transition jobId .inProgress, .checkpoint jobId]
  | markVerificationRequired jobId .. => [.create, .transition jobId .needsVerification]
  | markVerificationComplete jobId _ => [.create, .transition jobId .inProgress]
  | markNeedsReview jobId .. => [.create, .transition jobId .needsReview]
  | markReadyToSubmit jobId _ => [.create, .transition jobId .readyToSubmit]
  | updateCheckpoint jobId .. => [.checkpoint jobId]
  | markSubmitted jobId _ => [.create, .transition jobId .submitted]
  | listByStatus _ => []
  | markFailed jobId .. => [.create, .transition jobId .failed]
  | saveAnswer .. => [.create, .answer]
  | resetApplication jobId => [.create, .reset jobId]

/-- The writes a call of the repository may make. -/
def RepositoryCall.kinds : RepositoryCall → List WriteKind
  | transitionApplication request => [.create, .transition request.jobId request.newStatus]
  | ensureApplicationAttempt _ | listApplicationQueue => [.create]

theorem Writes.mono {kinds kinds' : List WriteKind} {s s' : ApplicationStore}
    (h : Writes env kinds s s') (hkinds : kinds ⊆ kinds') : Writes env kinds' s s' := by
  refine Relation.ReflTransGen.mono (fun t t' hwrite => ?_) _ _ h
  obtain ⟨kind, hkind, hwrite⟩ := hwrite
  exact ⟨kind, hkinds hkind, hwrite⟩

variable {s s' : ApplicationStore} {kinds : List WriteKind} {kind : WriteKind} {jobId : ℤ}
  {attempt : ApplicationAttempt} {job : JobPosting}
  {clocks : Clocks}

theorem getApplicationAttempt_eq_ok {found : Option ApplicationAttempt}
    (h : s.getApplicationAttempt jobId = .ok found) : 0 < jobId ∧ s.attempt jobId = found := by
  unfold getApplicationAttempt at h
  split_ifs at h with hpositive
  exact ⟨by omega, Except.ok.inj h⟩

theorem attempt_jobId (h : s.attempt jobId = some attempt) : (attempt.jobId : ℤ) = jobId := by
  simpa using List.find?_some h

theorem attempt_self (h : s.attempt jobId = some attempt) :
    s.attempt attempt.jobId = some attempt := by
  rw [attempt_jobId h, h]

theorem getJobById_eq_ok (h : s.getJobById jobId = .ok (some job)) :
    s.db.jobPostings.find? (·.id = jobId) = some job := by
  unfold getJobById at h
  split_ifs at h
  exact Except.ok.inj h

theorem attempt_create (hnone : s.attempt job.id = none) :
    (s.create job clocks).attempt job.id = some (s.queuedAttempt job clocks) := by
  change List.find? _ (s.applicationAttempts ++ [_]) = _
  rw [List.find?_append]
  change (s.attempt job.id).or _ = _
  simp [hnone, queuedAttempt]

/-- A transition that goes through: the attempt it finds, and the checks it passes. -/
structure Transition.Applies (env : ApplicationEnv) (request : Transition) (s : ApplicationStore)
    (attempt : ApplicationAttempt) : Prop where
  positive : 0 < request.jobId
  found : s.attempt request.jobId = some attempt
  opened : s.isClosed request.jobId = true → request.newStatus = .failed
  checked : request.check env attempt.status = .ok ()

theorem check_eq_ok_allowed {request : Transition} {previousStatus : ApplicationStatus}
    (h : request.check env previousStatus = .ok ()) :
    request.newStatus ∈ previousStatus.allowed := by
  by_contra hnot
  simp [Transition.check, hnot, throw, throwThe, MonadExceptOf.throw, bind, Except.bind] at h

/-- A session before a transition, or with the attempt it has queued. -/
def ApplicationStore.Prepared (s : ApplicationStore) (jobId : ℤ) (s₁ : ApplicationStore) : Prop :=
  s₁ = s ∨ ∃ (job : JobPosting) (clocks : Clocks), (job.id : ℤ) = jobId ∧
    s.db.jobPostings.find? (·.id = jobId) = some job ∧ s.attempt job.id = none ∧
    s₁ = s.create job clocks

/-- **What the first half of a transition does.** -/
theorem transitionAttempt_spec (request : Transition) (clocks : Clocks) (s : ApplicationStore) :
    (∃ e, request.attempt clocks s = (.error e, s)) ∨
      ∃ s₁ attempt, s.Prepared request.jobId s₁ ∧ request.attempt clocks s = (.ok attempt, s₁) ∧
        0 < request.jobId ∧ s₁.attempt request.jobId = some attempt ∧
        (s₁.isClosed request.jobId = true → request.newStatus = .failed) := by
  unfold Transition.attempt
  split
  next e _ => exact .inl ⟨e, rfl⟩
  next hfound =>
    obtain ⟨hpositive, hnone⟩ := getApplicationAttempt_eq_ok hfound
    split
    next e _ => exact .inl ⟨e, rfl⟩
    next => exact .inl ⟨_, rfl⟩
    next job hjob =>
      have hposting := getJobById_eq_ok hjob
      have hid : (job.id : ℤ) = request.jobId := by simpa using List.find?_some hposting
      split_ifs with hclosed
      · exact .inl ⟨_, rfl⟩
      · rw [← hid] at hnone hpositive hposting ⊢
        refine .inr ⟨_, _, .inr ⟨job, clocks, rfl, hposting, hnone, rfl⟩, rfl, hpositive,
          attempt_create hnone,
          fun h => ?_⟩
        have hjobclosed : job.isClosed = true := by
          rw [isClosed, create, flush, hposting] at h
          exact h
        simpa [hjobclosed] using hclosed
  next attempt hfound =>
    obtain ⟨hpositive, hattempt⟩ := getApplicationAttempt_eq_ok hfound
    split_ifs with hclosed
    · exact .inl ⟨_, rfl⟩
    · refine .inr ⟨s, attempt, .inl rfl, rfl, hpositive, hattempt, fun h => ?_⟩
      rw [← attempt_jobId hattempt] at h
      simpa [h] using hclosed

variable (env) in
/-- **What a transition does**: it raises, perhaps after queueing the attempt, or it applies. -/
theorem transitionApplication_spec (request : Transition) (clocks : Clocks)
    (s : ApplicationStore) : ∃ s₁, s.Prepared request.jobId s₁ ∧
      ((∃ e, s.transitionApplication env request clocks = (.error e, s₁)) ∨
        ∃ attempt, request.Applies env s₁ attempt ∧
          s.transitionApplication env request clocks =
            (.ok (request.assign env clocks.now attempt),
              s₁.update (request.assign env clocks.now attempt))) := by
  rcases transitionAttempt_spec request clocks s with
    ⟨e, h⟩ | ⟨s₁, attempt, hprepared, h, hpositive, hattempt, hopened⟩
  · refine ⟨s, .inl rfl, .inl ⟨e, ?_⟩⟩
    unfold transitionApplication
    rw [h]
  · refine ⟨s₁, hprepared, ?_⟩
    unfold transitionApplication
    rw [h]
    dsimp only
    cases hcheck : request.check env attempt.status with
    | error e => exact .inl ⟨e, rfl⟩
    | ok _ => exact .inr ⟨attempt, ⟨hpositive, hattempt, hopened, hcheck⟩, rfl⟩

/-- The attempt of a transition that has one. -/
theorem transitionAttempt_found {request : Transition} (clocks : Clocks)
    (hpositive : 0 < request.jobId) (hfound : s.attempt request.jobId = some attempt)
    (hopened : s.isClosed request.jobId = true → request.newStatus = .failed) :
    request.attempt clocks s = (.ok attempt, s) := by
  have hread : s.getApplicationAttempt request.jobId = .ok (some attempt) := by
    rw [getApplicationAttempt, if_neg (by omega), hfound]
  unfold Transition.attempt
  rw [hread]
  dsimp only
  rw [attempt_jobId hfound, if_neg]
  intro hclosed
  rw [Bool.and_eq_true, decide_eq_true_eq] at hclosed
  exact hclosed.2 (hopened hclosed.1)

/-- A transition of an attempt that is there, and may be moved, goes through. -/
theorem Transition.Applies.eq {request : Transition} (h : request.Applies env s attempt)
    (clocks : Clocks) :
    s.transitionApplication env request clocks = (.ok (request.assign env clocks.now attempt),
      s.update (request.assign env clocks.now attempt)) := by
  unfold transitionApplication
  rw [transitionAttempt_found clocks h.positive h.found h.opened]
  dsimp only
  rw [h.checked]

variable (env) in
theorem transition_writes (request : Transition)
    (hkinds : [.create, .transition request.jobId request.newStatus] ⊆ kinds) (clocks : Clocks)
    (s : ApplicationStore) : Writes env kinds s
      (s.transitionApplication env request clocks).2 := by
  refine Writes.mono ?_ hkinds
  obtain ⟨s₁, hfirst, hsecond⟩ := transitionApplication_spec env request clocks s
  have hcreated : Writes env [.create, .transition request.jobId request.newStatus] s s₁ := by
    rcases hfirst with rfl | ⟨job, clocks, -, -, hnone, rfl⟩
    · exact .refl
    · exact .single ⟨_, by simp, .create job clocks hnone⟩
  rcases hsecond with ⟨e, h⟩ | ⟨attempt, happlies, h⟩
  · rw [h]
    exact hcreated
  · rw [h]
    exact hcreated.tail
      ⟨_, by simp [attempt_jobId happlies.found], .transition request clocks.now attempt
        (attempt_self happlies.found)
        (check_eq_ok_allowed happlies.checked)⟩

theorem checkpointCheck_eq_ok {url text : Option Str} {stage : Option CheckpointStage}
    (h : checkpointCheck env attempt url text = .ok stage) :
    attempt.status ∈ activeStatuses ∧ ∀ stage' ∈ stage, attempt.status ∈ stage'.stageStatuses := by
  unfold checkpointCheck at h
  by_cases hactive : attempt.status ∈ activeStatuses
  · refine ⟨hactive, ?_⟩
    simp only [hactive, not_true_eq_false, if_false] at h
    cases hparsed : text.mapM (checkpointStage env) with
    | error e =>
      rw [hparsed] at h
      cases h
    | ok normalized =>
      rw [hparsed] at h
      by_cases hurl : url.any (env.strip · = []) = true
      · simp [hurl, throw, throwThe, MonadExceptOf.throw, bind, Except.bind] at h
      · cases normalized with
        | none =>
          simp [hurl, bind, Except.bind, pure, Except.pure] at h
          simp [← h]
        | some parsed =>
          by_cases hstatus : attempt.status ∈ parsed.stageStatuses
          · simp [hurl, hstatus, bind, Except.bind, pure, Except.pure] at h
            simp [← h, hstatus]
          · simp [hurl, hstatus, throw, throwThe, MonadExceptOf.throw, bind, Except.bind] at h
  · simp [hactive, throw, throwThe, MonadExceptOf.throw, bind, Except.bind] at h

theorem checkpoint_writes (jobId : ℤ) (url stage : Option Str) (now : Time)
    (s : ApplicationStore) :
    Writes env [.checkpoint jobId] s
      (s.updateApplicationCheckpoint env jobId url stage now).2 := by
  unfold updateApplicationCheckpoint
  split
  · exact .refl
  · exact .refl
  next attempt hfound =>
    split
    · exact .refl
    next stage hcheck =>
      obtain ⟨hactive, hstage⟩ := checkpointCheck_eq_ok hcheck
      have hattempt := (getApplicationAttempt_eq_ok hfound).2
      exact .single ⟨_, by simp [attempt_jobId hattempt], .checkpoint url stage now attempt
        (attempt_self hattempt) hactive hstage⟩

variable (env) in
theorem ensure_writes (jobId : ℤ) (clocks : Clocks) (s : ApplicationStore) :
    Writes env [.create] s (s.ensureApplicationAttempt jobId clocks).2 := by
  unfold ensureApplicationAttempt
  split
  · exact .refl
  · exact .refl
  next job hjob =>
    split_ifs
    · exact .refl
    · split
      · exact .refl
      next hnone =>
        have hid : (job.id : ℤ) = jobId := by simpa using List.find?_some (getJobById_eq_ok hjob)
        subst hid
        exact .single ⟨_, by simp, .create job clocks hnone⟩

theorem reset_writes (jobId : ℤ) (clocks : Clocks) (s : ApplicationStore) :
    Writes env [.create, .reset jobId] s (s.resetApplication jobId clocks).2 := by
  unfold resetApplication
  split
  · exact .refl
  · exact (ensure_writes env jobId clocks s).mono (by simp)
  next attempt hfound =>
    split_ifs with hstatus
    · exact .refl
    · have hattempt := (getApplicationAttempt_eq_ok hfound).2
      exact .single ⟨_, by simp [attempt_jobId hattempt], .reset clocks.now attempt
        (attempt_self hattempt) hstatus⟩

theorem next_writes (clocks : Clocks) (s : ApplicationStore) :
    Writes env [.create] s (s.getNextApplication env clocks).2 := by
  unfold getNextApplication
  split
  · exact .refl
  · split
    · exact .refl
    · exact ensure_writes env _ clocks s

theorem queue_writes (clocks : Clocks) (jobs : List JobPosting) (s : ApplicationStore) :
    Writes env [.create] s (queueAttempts clocks jobs s).2 := by
  induction jobs generalizing s with
  | nil => exact .refl
  | cons job jobs ih =>
    unfold queueAttempts
    split
    · exact ih s
    · have hensure := ensure_writes env job.id clocks s
      split
      next heq =>
        rw [heq] at hensure
        exact hensure
      next heq =>
        rw [heq] at hensure
        exact hensure.trans (ih _)

theorem saveAnswer_writes (jobId : ℤ) (request : NewAnswer) (clocks : Clocks)
    (s : ApplicationStore) :
    Writes env [.create, .answer] s (s.saveApplicationAnswer env jobId request clocks).2 := by
  unfold saveApplicationAnswer
  split
  · exact .refl
  · have hensure : Writes env [.create, .answer] s _ :=
      (ensure_writes env jobId clocks s).mono (by simp)
    split
    next heq =>
      rw [heq] at hensure
      exact hensure
    next heq =>
      rw [heq] at hensure
      exact hensure.tail ⟨_, by simp, .answer _⟩

theorem getCheckpoint_writes (jobId : ℤ) (clocks : Clocks) (s : ApplicationStore) :
    Writes env [.create] s (getCheckpoint jobId clocks s).2 := by
  unfold getCheckpoint
  split
  · exact .refl
  · exact .refl
  · exact ensure_writes env jobId clocks s

theorem start_writes (jobId : ℤ) (url : Option Str) (clocks : Clocks) (later : Time)
    (s : ApplicationStore) :
    Writes env [.create, .transition jobId .inProgress, .checkpoint jobId] s
      (startApplication env jobId url clocks later s).2 := by
  unfold startApplication
  split
  · exact .refl
  · exact .refl
  · split_ifs
    · exact .refl
    · have htransition :
          Writes env [.create, .transition jobId .inProgress, .checkpoint jobId] s _ :=
        transition_writes env (.inProgress jobId url)
          (List.subset_append_left _ [WriteKind.checkpoint jobId]) clocks s
      split
      next heq =>
        rw [heq] at htransition
        exact htransition
      next heq =>
        rw [heq] at htransition
        exact htransition.trans ((checkpoint_writes ..).mono (by simp))

/-- **A call of the service is a sequence of writes**, whether it returns or raises. -/
theorem service_writes (call : ServiceCall) (clocks : Clocks) (later : Time)
    (s : ApplicationStore) : Writes env call.kinds s (call.run env clocks later s).2 := by
  cases call with
  | getNextJob => exact next_writes clocks s
  | startApplication jobId url => exact start_writes jobId url clocks later s
  | markVerificationRequired jobId type url instruction =>
    simp only [ServiceCall.run, finished, markVerificationRequired]
    split
    · exact .refl
    · refine transition_writes env _ ?_ clocks s
      exact List.Subset.refl _
  | markVerificationComplete | markNeedsReview | markReadyToSubmit | markSubmitted =>
    refine transition_writes env _ ?_ clocks s
    exact List.Subset.refl _
  | updateCheckpoint jobId url stage => exact checkpoint_writes ..
  | listByStatus status => exact .refl
  | markFailed jobId code message url =>
    simp only [ServiceCall.run, finished, markFailed]
    split
    · exact .refl
    · refine transition_writes env _ ?_ clocks s
      exact List.Subset.refl _
  | saveAnswer jobId request => exact saveAnswer_writes ..
  | getCheckpoint jobId => exact getCheckpoint_writes ..
  | resetApplication jobId => exact reset_writes ..

theorem repository_writes (call : RepositoryCall) (clocks : Clocks) (s : ApplicationStore) :
    Writes env call.kinds s (call.run env clocks s).2 := by
  cases call with
  | transitionApplication request => exact transition_writes env _ (List.Subset.refl _) ..
  | ensureApplicationAttempt jobId => exact ensure_writes env ..
  | listApplicationQueue => exact queue_writes ..

/-! ## Attempts and their histories -/

/-- The side fields of an attempt agree with its status. -/
structure ApplicationAttempt.Sound (attempt : ApplicationAttempt) : Prop where
  submitted : attempt.submittedAt.isSome ↔ attempt.status = .submitted
  failure : attempt.failureCode.isSome ↔ attempt.status = .failed
  started : attempt.startedAt.isSome ↔ 0 < attempt.attemptCount

/-- The status of the attempt of a posting. -/
def statusOf (jobId : ℕ) (attempts : List ApplicationAttempt) : Option ApplicationStatus :=
  (attempts.find? (·.jobId = jobId)).map (·.status)

/-- The attempt of a posting goes from `QUEUED` or `FAILED` to `IN_PROGRESS`. -/
def entered (jobId : ℕ) (before after : List ApplicationAttempt) : Bool :=
  (statusOf jobId before = some .queued || statusOf jobId before = some .failed) &&
    statusOf jobId after = some .inProgress

/-- The number of such changes in a history. -/
def entries (jobId : ℕ) : List (List ApplicationAttempt) → ℕ
  | before :: after :: history =>
    (if entered jobId before after then 1 else 0) + entries jobId (after :: history)
  | _ => 0

/-- Between two flushes an attempt becomes `SUBMITTED` from `READY_TO_SUBMIT` only, and stays
`SUBMITTED`. -/
structure SubmitsOnce (before after : List ApplicationAttempt) : Prop where
  ready : ∀ jobId, statusOf jobId after = some .submitted →
    statusOf jobId before = some .readyToSubmit ∨ statusOf jobId before = some .submitted
  stays : ∀ jobId, statusOf jobId before = some .submitted →
    statusOf jobId after = some .submitted

theorem entries_concat (jobId : ℕ) (history : List (List ApplicationAttempt))
    (before after : List ApplicationAttempt) (h : history.getLast? = some before) :
    entries jobId (history ++ [after]) =
      entries jobId history + if entered jobId before after then 1 else 0 := by
  induction history with
  | nil => cases h
  | cons first history ih =>
    cases history with
    | nil =>
      obtain rfl : first = before := by simpa using h
      simp [entries]
    | cons second history =>
      have hlast : (second :: history).getLast? = some before := by
        simpa [List.getLast?_cons_cons] using h
      have hih := ih hlast
      simp only [List.cons_append] at hih ⊢
      simp only [entries]
      rw [hih]
      omega

/-- What holds of a session: the attempts are sound, and the history explains them. -/
structure ApplicationStore.History (s : ApplicationStore) : Prop where
  keys : (s.applicationAttempts.map (·.jobId)).Nodup
  last : s.flushed.getLast? = some s.applicationAttempts
  sound : ∀ attempt ∈ s.applicationAttempts, attempt.Sound
  counted : ∀ attempt ∈ s.applicationAttempts,
    attempt.attemptCount = entries attempt.jobId s.flushed
  fresh : ∀ jobId, statusOf jobId s.applicationAttempts = none → entries jobId s.flushed = 0
  submits : s.flushed.IsChain SubmitsOnce

/-- What a write does to one attempt. -/
structure ApplicationAttempt.Advances (before after : ApplicationAttempt) : Prop where
  job : after.jobId = before.jobId
  sound : before.Sound → after.Sound
  counted : after.attemptCount = before.attemptCount +
    if (before.status = .queued ∨ before.status = .failed) ∧ after.status = .inProgress then 1
    else 0
  ready : after.status = .submitted → before.status = .readyToSubmit ∨ before.status = .submitted
  stays : before.status = .submitted → after.status = .submitted

variable (env) in
theorem assign_jobId (request : Transition) (now : Time) (attempt : ApplicationAttempt) :
    (request.assign env now attempt).jobId = attempt.jobId := by
  unfold Transition.assign Transition.entered
  dsimp only
  split <;> split_ifs <;> rfl

variable (env) in
theorem assign_status (request : Transition) (now : Time) (attempt : ApplicationAttempt) :
    (request.assign env now attempt).status = request.newStatus := by
  unfold Transition.assign Transition.entered
  dsimp only
  split <;> split_ifs <;> rfl

/-- An allowed transition, edge by edge. -/
theorem assign_advances {request : Transition} (now : Time)
    (hallowed : request.newStatus ∈ attempt.status.allowed) :
    attempt.Advances (request.assign env now attempt) := by
  refine ⟨assign_jobId env .., fun h => ?_, ?_, ?_, ?_⟩
  · obtain ⟨hsubmitted, hfailure, hstarted⟩ := h
    cases hold : attempt.status <;> cases hnew : request.newStatus <;>
      simp only [hold, hnew, ApplicationStatus.allowed, List.mem_cons, List.not_mem_nil,
        reduceCtorEq, or_false, or_self] at hallowed <;>
      constructor <;>
      simp_all [Transition.assign, Transition.entered, Transition.restarted, Transition.verified]
  · cases hold : attempt.status <;> cases hnew : request.newStatus <;>
      simp only [hold, hnew, ApplicationStatus.allowed, List.mem_cons, List.not_mem_nil,
        reduceCtorEq, or_false, or_self] at hallowed <;>
      simp [Transition.assign, Transition.entered, Transition.restarted, Transition.verified, hold,
        hnew]
  · rw [assign_status env]
    rintro hnew
    rw [hnew] at hallowed
    revert hallowed
    cases attempt.status <;> simp [ApplicationStatus.allowed]
  · intro hold
    rw [hold] at hallowed
    cases hallowed

theorem checkpointed_advances (url : Option Str) (stage : Option CheckpointStage) (now : Time) :
    attempt.Advances (checkpointed env url stage now attempt) := by
  refine ⟨rfl, fun h => ⟨h.submitted, h.failure, h.started⟩, ?_, .inr, id⟩
  have hstill : ¬((attempt.status = .queued ∨ attempt.status = .failed) ∧
      attempt.status = .inProgress) := by
    rintro ⟨hold | hold, hnew⟩ <;> rw [hnew] at hold <;> cases hold
  simp [checkpointed, hstill]

theorem requeued_advances (now : Time) (hstatus : attempt.status ≠ .submitted) :
    attempt.Advances (requeued now attempt) := by
  refine ⟨rfl, fun h => ⟨?_, ?_, h.started⟩, ?_, ?_, fun h => absurd h hstatus⟩
  · simp [requeued, h.submitted, hstatus]
  · simp [requeued]
  · simp [requeued]
  · simp [requeued]

/-! ## Starts -/

theorem attempt_update {before : ApplicationAttempt} (hfound : s.attempt jobId = some before)
    (hjob : attempt.jobId = before.jobId) : (s.update attempt).attempt jobId = some attempt := by
  change List.find? _ (Table.replace _ _ _) = _
  rw [Table.find?_replace fun row _ hrow => by rw [hrow]]
  change (s.attempt jobId).map _ = _
  rw [hfound, Option.map_some, if_pos hjob.symm]

variable (env) in
/-- The check of the checkpoint that a start writes. -/
theorem opened_check (url : Option Str) (hstatus : attempt.status = .inProgress) :
    (url.any (env.strip · = []) = false →
      checkpointCheck env attempt url (some "opened".toList) = .ok (some .opened)) ∧
    (url.any (env.strip · = []) = true →
      ∃ e, checkpointCheck env attempt url (some "opened".toList) = .error e) := by
  have hparsed : (some "opened".toList).mapM (checkpointStage env) = .ok (some .opened) := rfl
  generalize some "opened".toList = text at hparsed
  refine ⟨fun hurl => ?_, fun hurl => ⟨valueError "current URL must not be empty", ?_⟩⟩
  · simp [checkpointCheck, hstatus, hparsed, hurl, activeStatuses, CheckpointStage.stageStatuses,
      bind, Except.bind, pure, Except.pure]
  · simp [checkpointCheck, hstatus, hparsed, hurl, activeStatuses, bind, Except.bind, throw,
      throwThe, MonadExceptOf.throw]

/-- **What a start does** to an attempt it may put in progress: the transition, and the stage
`opened` unless the URL is blank. -/
theorem start_of_applies {url : Option Str} (later : Time) (clocks : Clocks)
    (hjob : s.db.jobPostings.find? (·.id = jobId) = some job)
    (happlies : (Transition.inProgress jobId url).Applies env s attempt) :
    (url.any (env.strip · = []) = true →
      ∃ e, startApplication env jobId url clocks later s =
        (.error e, s.update ((Transition.inProgress jobId url).assign env clocks.now attempt))) ∧
    (url.any (env.strip · = []) = false →
      ∃ attempt', attempt'.jobId = attempt.jobId ∧ attempt'.status = .inProgress ∧
        attempt'.checkpointStage = some .opened ∧
        startApplication env jobId url clocks later s = (.ok attempt',
          (s.update ((Transition.inProgress jobId url).assign env clocks.now attempt)).update
            attempt')) := by
  have hpositive : ¬jobId ≤ 0 := Int.not_le.mpr happlies.positive
  have hopen : job.isClosed = false := by
    by_contra hclosed
    have hstored : s.isClosed jobId = true := by
      rw [isClosed, hjob]
      simpa using hclosed
    cases happlies.opened hstored
  have hread : s.getJobById jobId = .ok (some job) := by
    rw [getJobById, if_neg hpositive, hjob]
  have hfound := attempt_update happlies.found
    (assign_jobId env (.inProgress jobId url) clocks.now attempt)
  have hnow := assign_status env (.inProgress jobId url) clocks.now attempt
  have hstart : startApplication env jobId url clocks later s =
      (s.update ((Transition.inProgress jobId url).assign env clocks.now
        attempt)).updateApplicationCheckpoint env jobId url (some "opened".toList) later := by
    unfold startApplication
    rw [hread]
    dsimp only
    rw [hopen, if_neg (by simp), happlies.eq clocks]
  have hjobid := assign_jobId env (.inProgress jobId url) clocks.now attempt
  generalize (Transition.inProgress jobId url).assign env clocks.now attempt = assigned at *
  have hchecked := opened_check env url hnow
  have hlookup : (s.update assigned).getApplicationAttempt jobId = .ok (some assigned) := by
    rw [getApplicationAttempt, if_neg hpositive]
    exact congrArg _ hfound
  rw [hstart]
  unfold updateApplicationCheckpoint
  rw [hlookup]
  dsimp only
  refine ⟨fun hurl => ?_, fun hurl => ?_⟩
  · obtain ⟨e, herror⟩ := hchecked.2 hurl
    exact ⟨e, by rw [herror]⟩
  · rw [hchecked.1 hurl]
    exact ⟨checkpointed env url (some .opened) later assigned, hjobid, hnow, rfl, rfl⟩

/-! ## Histories of runs -/

theorem attempt_eq (s : ApplicationStore) (jobId : ℕ) :
    s.attempt jobId = s.applicationAttempts.find? (·.jobId = jobId) := by
  unfold ApplicationStore.attempt
  congr 1
  funext row
  exact decide_eq_decide.mpr Int.ofNat_inj

theorem statusOf_replace {attempts : List ApplicationAttempt} {before after : ApplicationAttempt}
    (hfound : attempts.find? (·.jobId = before.jobId) = some before)
    (hjob : after.jobId = before.jobId) (jobId : ℕ) :
    statusOf jobId (Table.replace (·.jobId) after attempts) =
      if jobId = after.jobId then some after.status else statusOf jobId attempts := by
  unfold statusOf
  rw [Table.find?_replace fun r _ hr => by rw [hr]]
  split_ifs with hid
  · subst hid
    rw [hjob, hfound]
    simp
  · cases hother : attempts.find? (·.jobId = jobId) with
    | none => rfl
    | some row =>
      have hrow : row.jobId = jobId := by simpa using List.find?_some hother
      simp [hrow, hid]

theorem statusOf_concat {attempts : List ApplicationAttempt} (attempt : ApplicationAttempt)
    (hnone : attempts.find? (·.jobId = attempt.jobId) = none) (jobId : ℕ) :
    statusOf jobId (attempts ++ [attempt]) =
      if jobId = attempt.jobId then some attempt.status else statusOf jobId attempts := by
  unfold statusOf
  rw [List.find?_append]
  split_ifs with hid
  · rw [hid, hnone]
    simp
  · simp [Ne.symm hid]

theorem statusOf_mem {attempts : List ApplicationAttempt}
    (hkeys : (attempts.map (·.jobId)).Nodup) (hmem : attempt ∈ attempts) :
    statusOf attempt.jobId attempts = some attempt.status := by
  unfold statusOf
  rw [Table.find?_key hkeys hmem]
  rfl

/-- The history after an update. -/
theorem ApplicationStore.History.update {before after : ApplicationAttempt} (h : s.History)
    (hfound : s.attempt before.jobId = some before) (hstep : before.Advances after) :
    (s.update after).History := by
  rw [attempt_eq] at hfound
  have hmem := List.mem_of_find?_eq_some hfound
  have hstatus := statusOf_replace hfound hstep.job
  have hold : statusOf after.jobId s.applicationAttempts = some before.status := by
    rw [hstep.job]
    exact statusOf_mem h.keys hmem
  have hnew : statusOf after.jobId (Table.replace (·.jobId) after s.applicationAttempts) =
      some after.status := by
    rw [hstatus, if_pos rfl]
  have hentered (jobId : ℕ) (hother : jobId ≠ after.jobId) : entered jobId s.applicationAttempts
      (Table.replace (·.jobId) after s.applicationAttempts) = false := by
    unfold entered
    rw [hstatus, if_neg hother]
    cases hcase : statusOf jobId s.applicationAttempts with
    | none => rfl
    | some status => cases status <;> rfl
  have hcount (jobId : ℕ) := entries_concat jobId s.flushed s.applicationAttempts
    (Table.replace (·.jobId) after s.applicationAttempts) h.last
  have hkeys : ((Table.replace (·.jobId) after s.applicationAttempts).map (·.jobId)).Nodup := by
    rw [Table.map_replace fun _ _ hrow => hrow]
    exact h.keys
  have hafter : after ∈ Table.replace (·.jobId) after s.applicationAttempts :=
    List.mem_map.mpr ⟨before, hmem, if_pos hstep.job.symm⟩
  refine ⟨hkeys, by simp [ApplicationStore.update, flush], fun row hrow => ?_, fun row hrow => ?_,
    fun jobId hnone => ?_, ?_⟩
  · rcases Table.mem_replace hrow with rfl | hrow
    · exact hstep.sound (h.sound before hmem)
    · exact h.sound row hrow
  · change row.attemptCount = entries row.jobId (s.flushed ++ [_])
    rw [hcount]
    by_cases hother : row.jobId = after.jobId
    · obtain rfl : row = after := List.inj_on_of_nodup_map hkeys hrow hafter hother
      rw [hstep.counted, h.counted before hmem, hstep.job]
      congr 1
      unfold entered
      rw [← hstep.job, hold, hnew]
      simp
    · have hrow' : row ∈ s.applicationAttempts :=
        (Table.mem_replace hrow).resolve_left fun heq => hother (by rw [heq])
      rw [hentered _ hother, h.counted row hrow']
      rfl
  · change entries jobId (s.flushed ++ [_]) = 0
    change statusOf jobId (Table.replace _ _ _) = none at hnone
    rw [hstatus] at hnone
    split_ifs at hnone with hother
    rw [hcount, hentered _ hother, h.fresh jobId hnone]
    rfl
  · refine List.isChain_append.mpr ⟨h.submits, List.isChain_singleton _, ?_⟩
    rintro table htable _ ⟨⟩
    rw [h.last] at htable
    cases htable
    refine ⟨fun jobId hsubmitted => ?_, fun jobId hsubmitted => ?_⟩
    · rw [hstatus] at hsubmitted
      split_ifs at hsubmitted with hjob
      · rw [hjob, hold]
        simpa using hstep.ready (Option.some.inj hsubmitted)
      · exact .inr hsubmitted
    · rw [hstatus]
      split_ifs with hjob
      · rw [hjob, hold] at hsubmitted
        exact congrArg some (hstep.stays (Option.some.inj hsubmitted))
      · exact hsubmitted

/-- The history after an attempt is queued. -/
theorem ApplicationStore.History.create (h : s.History) (hnone : s.attempt job.id = none) :
    (s.create job clocks).History := by
  rw [attempt_eq] at hnone
  have hstatus := statusOf_concat (s.queuedAttempt job clocks) hnone
  have hunseen : statusOf job.id s.applicationAttempts = none := by
    rw [statusOf, hnone]
    rfl
  have hentered (jobId : ℕ) : entered jobId s.applicationAttempts
      (s.applicationAttempts ++ [s.queuedAttempt job clocks]) = false := by
    unfold entered
    rw [hstatus]
    split_ifs with hjob
    · simp [queuedAttempt]
    · cases hcase : statusOf jobId s.applicationAttempts with
      | none => rfl
      | some status => cases status <;> rfl
  have hcount (jobId : ℕ) : entries jobId
      (s.flushed ++ [s.applicationAttempts ++ [s.queuedAttempt job clocks]]) =
        entries jobId s.flushed := by
    rw [entries_concat _ _ _ _ h.last, hentered]
    rfl
  refine ⟨?_, by simp [ApplicationStore.create, flush], fun row hrow => ?_, fun row hrow => ?_,
    fun jobId hfresh => ?_, ?_⟩
  · change ((s.applicationAttempts ++ [s.queuedAttempt job clocks]).map (·.jobId)).Nodup
    rw [List.map_append, List.nodup_append]
    refine ⟨h.keys, List.nodup_singleton _, ?_⟩
    rintro id hid _ hjob rfl
    obtain ⟨row, hrow, rfl⟩ := List.mem_map.mp hid
    have hrowjob : row.jobId = job.id := by simpa [queuedAttempt] using hjob
    simpa [hrowjob] using List.find?_eq_none.mp hnone row hrow
  · rcases List.mem_append.mp hrow with hrow | hrow
    · exact h.sound row hrow
    · obtain rfl := List.mem_singleton.mp hrow
      constructor <;> simp [queuedAttempt]
  · change row.attemptCount = entries row.jobId (s.flushed ++ [_])
    rw [hcount]
    rcases List.mem_append.mp hrow with hrow | hrow
    · exact h.counted row hrow
    · obtain rfl := List.mem_singleton.mp hrow
      exact (h.fresh job.id hunseen).symm
  · change entries jobId (s.flushed ++ [_]) = 0
    change statusOf jobId (s.applicationAttempts ++ [_]) = none at hfresh
    rw [hstatus] at hfresh
    split_ifs at hfresh
    rw [hcount, h.fresh jobId hfresh]
  · refine List.isChain_append.mpr ⟨h.submits, List.isChain_singleton _, ?_⟩
    rintro table htable _ ⟨⟩
    rw [h.last] at htable
    cases htable
    refine ⟨fun jobId hsubmitted => ?_, fun jobId hsubmitted => ?_⟩
    · rw [hstatus] at hsubmitted
      split_ifs at hsubmitted with hjob
      · cases hsubmitted
      · exact .inr hsubmitted
    · rw [hstatus]
      split_ifs with hjob
      · rw [hjob] at hsubmitted
        change statusOf job.id _ = _ at hsubmitted
        rw [hunseen] at hsubmitted
        cases hsubmitted
      · exact hsubmitted

theorem AttemptWrite.history (h : s.History) (hwrite : AttemptWrite env s kind s') :
    s'.History := by
  cases hwrite with
  | create job clocks hnone => exact h.create hnone
  | transition request now attempt hattempt hallowed =>
    exact h.update hattempt (assign_advances now hallowed)
  | checkpoint url stage now attempt hattempt hactive hstage =>
    exact h.update hattempt (checkpointed_advances url stage now)
  | reset now attempt hattempt hstatus => exact h.update hattempt (requeued_advances now hstatus)
  | answer record => exact ⟨h.keys, h.last, h.sound, h.counted, h.fresh, h.submits⟩

theorem Writes.history (h : s.History) (hwrites : Writes env kinds s s') : s'.History := by
  induction hwrites with
  | refl => exact h
  | tail _ hwrite ih =>
    obtain ⟨kind, -, hwrite⟩ := hwrite
    exact hwrite.history ih

theorem settle_history (h : s.History) (kept : Bool) {result : Except Str Unit × ApplicationStore}
    (hwrites : Writes env kinds s result.2) : (s.settle kept result).History := by
  obtain ⟨outcome, s'⟩ := result
  cases outcome with
  | ok => exact hwrites.history h
  | error e =>
    cases kept with
    | false => exact h
    | true => exact hwrites.history h

theorem ApplicationStep.history (h : s.History) (step : ApplicationStep) :
    (step.exec env cfg S s).History := by
  cases step with
  | service call clocks later kept => exact settle_history h kept (service_writes call clocks later s)
  | repository call clocks kept => exact settle_history h kept (repository_writes call clocks s)
  | ingest call => exact ⟨h.keys, h.last, h.sound, h.counted, h.fresh, h.submits⟩

theorem start_history (db : Db) : (ApplicationStore.start db).History where
  keys := List.nodup_nil
  last := rfl
  sound := by simp [ApplicationStore.start]
  counted := by simp [ApplicationStore.start]
  fresh _ _ := rfl
  submits := List.isChain_singleton _

variable (env cfg S) in
theorem run_history (h : s.History) (steps : List ApplicationStep) :
    (s.run env cfg S steps).History := by
  induction steps generalizing s with
  | nil => exact h
  | cons step steps ih => exact ih (step.history h)

/-- **The lifecycle of an application** in every run of the service, the repository and ingestion:
between two flushes an attempt becomes `SUBMITTED` from `READY_TO_SUBMIT` only and never leaves it,
the side fields of every attempt agree with its status, and its count is the number of times it went
from `QUEUED` or `FAILED` to `IN_PROGRESS`. -/
theorem application_lifecycle (env : ApplicationEnv) (cfg : Config) (S : Services) (db : Db)
    (steps : List ApplicationStep) :
    let s := (ApplicationStore.start db).run env cfg S steps
    s.flushed.getLast? = some s.applicationAttempts ∧ s.flushed.IsChain SubmitsOnce ∧
      ∀ attempt ∈ s.applicationAttempts,
        (attempt.submittedAt.isSome ↔ attempt.status = .submitted) ∧
        (attempt.failureCode.isSome ↔ attempt.status = .failed) ∧
        attempt.attemptCount = entries attempt.jobId s.flushed ∧
        (attempt.startedAt.isSome ↔ 0 < attempt.attemptCount) := by
  have h := run_history env cfg S (start_history db) steps
  refine ⟨h.last, h.submits, fun attempt hmem => ?_⟩
  have hsound := h.sound attempt hmem
  exact ⟨hsound.submitted, hsound.failure, h.counted attempt hmem, hsound.started⟩

end JobPing
