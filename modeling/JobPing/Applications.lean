import JobPing.Repository
import JobPing.UrlParse

/-!
# Application attempts

The attempts and answers of `app/db/models.py` and the application methods of
`app/db/repository.py`. Each method is a function on the session: it leaves the rows it has flushed
there whether it returns or raises, and the transaction around it decides what is kept.
-/

namespace JobPing

/-! ## Data model -/

inductive ApplicationStatus
  | queued
  | inProgress
  | needsVerification
  | needsReview
  | readyToSubmit
  | submitted
  | failed
  | skipped
  deriving DecidableEq

inductive CheckpointStage
  | opened
  | applicationForm
  | candidateInfo
  | resumeUploaded
  | customQuestions
  | verification
  | review
  | readyToSubmit
  | submitted
  | failed
  deriving DecidableEq

inductive VerificationType
  | emailOtp
  | emailMagicLink
  | smsOtp
  | authenticator
  | captcha
  | login
  | unknown
  deriving DecidableEq

inductive ApplicationFailure
  | unknown
  | applicationClosed
  | alreadyApplied
  | unsupportedFlow
  | missingCandidateData
  | loginRequired
  | verificationRequired
  | browserError
  | submissionFailed
  deriving DecidableEq

def ApplicationStatus.value : ApplicationStatus → String
  | queued => "queued"
  | inProgress => "in_progress"
  | needsVerification => "needs_verification"
  | needsReview => "needs_review"
  | readyToSubmit => "ready_to_submit"
  | submitted => "submitted"
  | failed => "failed"
  | skipped => "skipped"

def CheckpointStage.value : CheckpointStage → String
  | opened => "opened"
  | applicationForm => "application_form"
  | candidateInfo => "candidate_info"
  | resumeUploaded => "resume_uploaded"
  | customQuestions => "custom_questions"
  | verification => "verification"
  | review => "review"
  | readyToSubmit => "ready_to_submit"
  | submitted => "submitted"
  | failed => "failed"

def VerificationType.value : VerificationType → String
  | emailOtp => "email_otp"
  | emailMagicLink => "email_magic_link"
  | smsOtp => "sms_otp"
  | authenticator => "authenticator"
  | captcha => "captcha"
  | login => "login"
  | unknown => "unknown"

def ApplicationFailure.value : ApplicationFailure → String
  | unknown => "unknown"
  | applicationClosed => "application_closed"
  | alreadyApplied => "already_applied"
  | unsupportedFlow => "unsupported_flow"
  | missingCandidateData => "missing_candidate_data"
  | loginRequired => "login_required"
  | verificationRequired => "verification_required"
  | browserError => "browser_error"
  | submissionFailed => "submission_failed"

structure ApplicationAttempt where
  id : ℕ
  jobId : ℕ
  status : ApplicationStatus
  checkpointStage : Option CheckpointStage
  attemptCount : ℕ
  startedAt : Option Time
  updatedAt : Time
  submittedAt : Option Time
  currentUrl : Option Str
  confirmationUrl : Option Str
  verificationType : Option VerificationType
  verificationStartedAt : Option Time
  verificationCompletedAt : Option Time
  resumeInstruction : Option Str
  failureCode : Option ApplicationFailure
  failureMessage : Option Str
  reviewQuestion : Option Str
  reviewReason : Option Str
  deriving DecidableEq

structure ApplicationAnswer where
  id : ℕ
  applicationId : ℕ
  question : Str
  normalizedQuestion : Str
  answer : Str
  source : Str
  generated : Bool
  confidence : Option ℚ
  deriving DecidableEq

/-- The tables a session of the application agent sees, and what it has flushed. -/
structure ApplicationStore where
  db : Db
  applicationAttempts : List ApplicationAttempt
  applicationAnswers : List ApplicationAnswer
  /-- The attempts after each flush, for the statements about histories: no method reads them. -/
  flushed : List (List ApplicationAttempt)

/-- What the methods read besides the tables. -/
structure ApplicationEnv extends Python where
  /-- `repr` of a `str`. -/
  repr : Str → Str
  /-- The column `created_at` of a posting, which no statement changes. -/
  createdAt : ℕ → Time

/-- The clocks a method reads: `datetime.now(UTC)` and the `now()` of the database. -/
structure Clocks where
  now : Time
  serverNow : Time

/-- `ValueError(message)`. -/
def valueError (message : String) : Str := message.toList

namespace ApplicationStore

/-- The state before the first application. -/
def start (db : Db) : ApplicationStore := ⟨db, [], [], [[]]⟩

/-- `get_job_by_id`. -/
def getJobById (s : ApplicationStore) (jobId : ℤ) : Except Str (Option JobPosting) :=
  if jobId ≤ 0 then .error (valueError "job id must be positive")
  else .ok (s.db.jobPostings.find? (·.id = jobId))

/-- The attempt of a posting. -/
def attempt (s : ApplicationStore) (jobId : ℤ) : Option ApplicationAttempt :=
  s.applicationAttempts.find? (·.jobId = jobId)

/-- `get_application_attempt`. -/
def getApplicationAttempt (s : ApplicationStore) (jobId : ℤ) :
    Except Str (Option ApplicationAttempt) :=
  if jobId ≤ 0 then .error (valueError "job id must be positive")
  else .ok (s.attempt jobId)

/-- `attempt.job.is_closed`. -/
def isClosed (s : ApplicationStore) (jobId : ℤ) : Bool :=
  (s.db.jobPostings.find? (·.id = jobId)).any (·.isClosed)

/-- `session.flush()` after a change of the attempts. -/
def flush (s : ApplicationStore) (attempts : List ApplicationAttempt) : ApplicationStore :=
  { s with applicationAttempts := attempts, flushed := s.flushed ++ [attempts] }

/-- `ApplicationAttempt(job=job, status=ApplicationStatus.QUEUED)`, with the defaults of the
table. -/
def queuedAttempt (s : ApplicationStore) (job : JobPosting) (clocks : Clocks) :
    ApplicationAttempt where
  id := s.applicationAttempts.length + 1
  jobId := job.id
  status := .queued
  checkpointStage := none
  attemptCount := 0
  startedAt := none
  updatedAt := clocks.serverNow
  submittedAt := none
  currentUrl := none
  confirmationUrl := none
  verificationType := none
  verificationStartedAt := none
  verificationCompletedAt := none
  resumeInstruction := none
  failureCode := none
  failureMessage := none
  reviewQuestion := none
  reviewReason := none

/-- The insertion of a queued attempt. -/
def create (s : ApplicationStore) (job : JobPosting) (clocks : Clocks) : ApplicationStore :=
  s.flush (s.applicationAttempts ++ [s.queuedAttempt job clocks])

/-- The update of an attempt. -/
def update (s : ApplicationStore) (attempt : ApplicationAttempt) : ApplicationStore :=
  s.flush (Table.replace (·.jobId) attempt s.applicationAttempts)

end ApplicationStore

/-! ## Secrets -/

namespace ApplicationEnv

variable (env : ApplicationEnv)

/-- The search for `(?<!\d)\d{4,10}(?!\d)`: a maximal run of digits of that length. -/
def hasCode (text : Str) : Bool :=
  (text.splitOnP fun c => !env.isDecimal c).any fun run => 4 ≤ run.length && run.length ≤ 10

/-- `any(term in text for term in terms)`. -/
def mentions (terms : List String) (text : Str) : Bool :=
  terms.any fun term => term.toList <:+: text

/-- `_contains_verification_secret`. -/
def containsVerificationSecret : Option Str → Bool
  | none | some [] => false
  | some value =>
    mentions ["otp", "one time", "verification", "security code", "authenticator", "enter code",
      "code is"] (env.casefold value) && env.hasCode value

end ApplicationEnv

/-! ## Transitions -/

/-- The arguments of `transition_application`. -/
structure Transition where
  jobId : ℤ
  newStatus : ApplicationStatus
  currentUrl : Option Str := none
  confirmationUrl : Option Str := none
  verificationType : Option VerificationType := none
  resumeInstruction : Option Str := none
  failureCode : Option ApplicationFailure := none
  failureMessage : Option Str := none
  reviewQuestion : Option Str := none
  reviewReason : Option Str := none

/-- The table `allowed` of `transition_application`. -/
def ApplicationStatus.allowed : ApplicationStatus → List ApplicationStatus
  | queued => [inProgress, failed]
  | inProgress => [needsVerification, needsReview, readyToSubmit, failed]
  | needsVerification => [inProgress, failed]
  | readyToSubmit => [submitted, failed]
  | failed => [inProgress]
  | needsReview => [failed]
  | submitted => []
  | skipped => []

/-- The table `stage_statuses` of `update_application_checkpoint`. -/
def CheckpointStage.stageStatuses : CheckpointStage → List ApplicationStatus
  | opened => [.inProgress]
  | applicationForm => [.inProgress]
  | candidateInfo => [.inProgress]
  | resumeUploaded => [.inProgress]
  | customQuestions => [.inProgress]
  | verification => [.inProgress, .needsVerification]
  | review => [.inProgress, .needsReview]
  | readyToSubmit => [.inProgress, .readyToSubmit]
  | submitted => [.submitted]
  | failed => [.failed]

namespace Transition

/-- `Job ... not found` and `Job ... is closed`. -/
def notFound (jobId : ℤ) : Str := valueError s!"Job {jobId} not found"

def closed (jobId : ℤ) : Str := valueError s!"Job {jobId} is closed"

variable (env : ApplicationEnv) (request : Transition) (clocks : Clocks)

/-- The attempt of a transition, queued first when there is none. -/
def attempt (s : ApplicationStore) : Except Str ApplicationAttempt × ApplicationStore :=
  match s.getApplicationAttempt request.jobId with
  | .error e => (.error e, s)
  | .ok none =>
    match s.getJobById request.jobId with
    | .error e => (.error e, s)
    | .ok none => (.error (notFound request.jobId), s)
    | .ok (some job) =>
      if job.isClosed && request.newStatus ≠ .failed then (.error (closed request.jobId), s)
      else (.ok (s.queuedAttempt job clocks), s.create job clocks)
  | .ok (some attempt) =>
    if s.isClosed attempt.jobId && request.newStatus ≠ .failed then
      (.error (closed request.jobId), s)
    else (.ok attempt, s)

/-- The checks on a transition of an attempt, in their order. -/
def check (previousStatus : ApplicationStatus) : Except Str Unit := do
  if request.newStatus ∉ previousStatus.allowed then
    throw (valueError ("invalid application transition: " ++ previousStatus.value ++ " -> " ++
      request.newStatus.value))
  if env.hasCode (request.resumeInstruction.getD []) ||
      env.containsVerificationSecret request.failureMessage ||
      env.containsVerificationSecret request.reviewQuestion ||
      env.containsVerificationSecret request.reviewReason then
    throw (valueError "verification secrets must not be stored")
  if request.reviewQuestion.any (env.strip · = []) then
    throw (valueError "review question must not be empty")
  if request.reviewReason.any (env.strip · = []) then
    throw (valueError "review reason must not be empty")

/-- `text.strip() if text else None`. -/
def stripped : Option Str → Option Str
  | none | some [] => none
  | some text => some (env.strip text)

/-- The assignments on the entry into a new try. -/
def restarted (now : Time) (attempt : ApplicationAttempt) : ApplicationAttempt :=
  { attempt with
    attemptCount := attempt.attemptCount + 1
    startedAt := attempt.startedAt.or (some now)
    failureCode := none
    failureMessage := none
    reviewQuestion := none
    reviewReason := none }

/-- The assignments after a verification. -/
def verified (now : Time) (attempt : ApplicationAttempt) : ApplicationAttempt :=
  { attempt with
    verificationCompletedAt := some now
    resumeInstruction := none
    reviewQuestion := none
    reviewReason := none }

/-- The assignments that depend on the new status alone. -/
def entered (now : Time) (attempt : ApplicationAttempt) : ApplicationAttempt :=
  match request.newStatus with
  | .needsVerification =>
    { attempt with
      verificationType := some (request.verificationType.getD .unknown)
      verificationStartedAt := some now
      resumeInstruction := request.resumeInstruction
      checkpointStage := some .verification }
  | .needsReview =>
    { attempt with
      checkpointStage := some .review
      reviewQuestion := stripped env request.reviewQuestion
      reviewReason := stripped env request.reviewReason }
  | .readyToSubmit => { attempt with checkpointStage := some .readyToSubmit }
  | .submitted =>
    { attempt with
      submittedAt := some now
      checkpointStage := some .submitted }
  | .failed =>
    { attempt with
      failureCode := some (request.failureCode.getD .unknown)
      failureMessage := request.failureMessage
      reviewQuestion := none
      reviewReason := none
      checkpointStage := some .failed }
  | .queued | .inProgress | .skipped => attempt

/-- The assignments of a transition. -/
def assign (now : Time) (attempt : ApplicationAttempt) : ApplicationAttempt :=
  let previousStatus := attempt.status
  let attempt := { attempt with
    status := request.newStatus
    updatedAt := now
    currentUrl := request.currentUrl.or attempt.currentUrl
    confirmationUrl := request.confirmationUrl.or attempt.confirmationUrl }
  let attempt :=
    if request.newStatus = .inProgress ∧ previousStatus ∈ [.queued, .failed] then
      restarted now attempt
    else attempt
  let attempt :=
    if request.newStatus = .inProgress ∧ previousStatus = .needsVerification then
      verified now attempt
    else attempt
  request.entered env now attempt

end Transition

namespace ApplicationStore

variable (env : ApplicationEnv)

/-- **`transition_application`**. -/
def transitionApplication (request : Transition) (clocks : Clocks) (s : ApplicationStore) :
    Except Str ApplicationAttempt × ApplicationStore :=
  match request.attempt clocks s with
  | (.error e, s) => (.error e, s)
  | (.ok attempt, s) =>
    match request.check env attempt.status with
    | .error e => (.error e, s)
    | .ok () =>
      let attempt := request.assign env clocks.now attempt
      (.ok attempt, s.update attempt)

/-! ## Checkpoints -/

/-- `active_statuses`. -/
def activeStatuses : List ApplicationStatus :=
  [.inProgress, .needsVerification, .needsReview, .readyToSubmit]

/-- `CheckpointStage(text)`. -/
def checkpointStage (text : Str) : Except Str CheckpointStage :=
  match [CheckpointStage.opened, .applicationForm, .candidateInfo, .resumeUploaded,
    .customQuestions, .verification, .review, .readyToSubmit, .submitted, .failed].find?
      (·.value.toList = text) with
  | some stage => .ok stage
  | none => .error (env.repr text ++ valueError " is not a valid CheckpointStage")

/-- The checks on a checkpoint of an attempt, in their order. -/
def checkpointCheck (attempt : ApplicationAttempt) (currentUrl stage : Option Str) :
    Except Str (Option CheckpointStage) := do
  if attempt.status ∉ activeStatuses then
    throw (valueError "checkpoint updates are only allowed for an active application")
  let normalizedStage ← stage.mapM (checkpointStage env)
  if currentUrl.any (env.strip · = []) then
    throw (valueError "current URL must not be empty")
  match normalizedStage with
  | none => return none
  | some stage =>
    if attempt.status ∉ stage.stageStatuses then
      throw (valueError ("checkpoint stage " ++ stage.value ++
        " is inconsistent with application status " ++ attempt.status.value))
    return some stage

/-- The assignments of a checkpoint. -/
def checkpointed (currentUrl : Option Str) (stage : Option CheckpointStage) (now : Time)
    (attempt : ApplicationAttempt) : ApplicationAttempt :=
  { attempt with
    currentUrl := (currentUrl.map env.strip).or attempt.currentUrl
    checkpointStage := stage.or attempt.checkpointStage
    updatedAt := now }

/-- **`update_application_checkpoint`**. -/
def updateApplicationCheckpoint (jobId : ℤ) (currentUrl stage : Option Str) (now : Time)
    (s : ApplicationStore) : Except Str ApplicationAttempt × ApplicationStore :=
  match s.getApplicationAttempt jobId with
  | .error e => (.error e, s)
  | .ok none =>
    (.error (valueError "application must be started before updating its checkpoint"), s)
  | .ok (some attempt) =>
    match checkpointCheck env attempt currentUrl stage with
    | .error e => (.error e, s)
    | .ok stage =>
      let attempt := checkpointed env currentUrl stage now attempt
      (.ok attempt, s.update attempt)

/-! ## Creation and reset -/

/-- `ensure_application_attempt`. -/
def ensureApplicationAttempt (jobId : ℤ) (clocks : Clocks) (s : ApplicationStore) :
    Except Str ApplicationAttempt × ApplicationStore :=
  match s.getJobById jobId with
  | .error e => (.error e, s)
  | .ok none => (.error (Transition.notFound jobId), s)
  | .ok (some job) =>
    if job.isClosed then (.error (Transition.closed jobId), s)
    else
      match s.attempt jobId with
      | some existing => (.ok existing, s)
      | none => (.ok (s.queuedAttempt job clocks), s.create job clocks)

/-- The assignments of `reset_application`. -/
def requeued (now : Time) (attempt : ApplicationAttempt) : ApplicationAttempt :=
  { attempt with
    status := .queued
    checkpointStage := none
    currentUrl := none
    confirmationUrl := none
    verificationType := none
    verificationStartedAt := none
    verificationCompletedAt := none
    resumeInstruction := none
    failureCode := none
    failureMessage := none
    reviewQuestion := none
    reviewReason := none
    updatedAt := now }

/-- **`reset_application`**. -/
def resetApplication (jobId : ℤ) (clocks : Clocks) (s : ApplicationStore) :
    Except Str ApplicationAttempt × ApplicationStore :=
  match s.getApplicationAttempt jobId with
  | .error e => (.error e, s)
  | .ok none => s.ensureApplicationAttempt jobId clocks
  | .ok (some attempt) =>
    if attempt.status = .submitted then
      (.error (valueError "submitted applications cannot be reset"), s)
    else
      let attempt := requeued clocks.now attempt
      (.ok attempt, s.update attempt)

/-! ## The queue -/

/-- The open postings without an attempt or with a queued one, newest first. -/
def eligible (s : ApplicationStore) : List JobPosting :=
  (s.db.jobPostings.filter fun job =>
    !job.isClosed && (s.attempt job.id).all (·.status = .queued)).insertionSort fun a b =>
      if env.createdAt a.id ≠ env.createdAt b.id then env.createdAt b.id ≤ env.createdAt a.id
      else b.id ≤ a.id

/-- `get_next_application`. -/
def getNextApplication (clocks : Clocks) (s : ApplicationStore) :
    Except Str (Option ApplicationAttempt) × ApplicationStore :=
  match (s.eligible env).head? with
  | none => (.ok none, s)
  | some job =>
    match s.attempt job.id with
    | some attempt => (.ok (some attempt), s)
    | none =>
      let (result, s) := s.ensureApplicationAttempt job.id clocks
      (result.map some, s)

/-- The loop of `list_application_queue`. -/
def queueAttempts (clocks : Clocks) :
    List JobPosting → ApplicationStore → Except Str (List ApplicationAttempt) × ApplicationStore
  | [], s => (.ok [], s)
  | job :: jobs, s =>
    match s.attempt job.id with
    | some attempt =>
      let (result, s) := queueAttempts clocks jobs s
      (result.map (attempt :: ·), s)
    | none =>
      match s.ensureApplicationAttempt job.id clocks with
      | (.error e, s) => (.error e, s)
      | (.ok attempt, s) =>
        let (result, s) := queueAttempts clocks jobs s
        (result.map (attempt :: ·), s)

/-- `list_application_queue`. -/
def listApplicationQueue (clocks : Clocks) (s : ApplicationStore) :
    Except Str (List ApplicationAttempt) × ApplicationStore :=
  queueAttempts clocks (s.eligible env) s

/-- `list_applications_by_status`; `list_verification_required` is the case of its status. -/
def listApplicationsByStatus (s : ApplicationStore) (status : ApplicationStatus) :
    List ApplicationAttempt :=
  (s.applicationAttempts.filter (·.status = status)).insertionSort fun a b =>
    if a.updatedAt ≠ b.updatedAt then a.updatedAt ≤ b.updatedAt else a.id ≤ b.id

/-! ## Answers -/

/-- The arguments of `save_application_answer`. -/
structure NewAnswer where
  question : Str
  normalizedQuestion : Str
  answer : Str
  source : Str
  generated : Bool
  confidence : Option ℚ

/-- The checks on an answer, in their order. -/
def NewAnswer.check (request : NewAnswer) : Except Str Unit := do
  let combined := env.casefold (request.question ++ ' ' :: request.answer)
  let verificationContext := ApplicationEnv.mentions ["otp", "one time", "verification",
    "security code", "authenticator", "enter code", "code"] (env.casefold request.question)
  if ApplicationEnv.mentions ["otp", "one time password", "verification code", "security code",
      "authenticator seed"] combined ||
      (env.hasCode request.answer && verificationContext) then
    throw (valueError "verification secrets must not be stored")
  if env.strip request.question = [] ∨ env.strip request.normalizedQuestion = [] ∨
      env.strip request.answer = [] then
    throw (valueError "question and answer must not be empty")
  if env.strip request.source = [] then
    throw (valueError "answer source must not be empty")
  if ¬(0 ≤ request.confidence.getD 0 ∧ request.confidence.getD 0 ≤ 1) then
    throw (valueError "confidence must be between 0 and 1")

/-- `save_application_answer`. -/
def saveApplicationAnswer (jobId : ℤ) (request : NewAnswer) (clocks : Clocks)
    (s : ApplicationStore) : Except Str ApplicationAnswer × ApplicationStore :=
  match request.check env with
  | .error e => (.error e, s)
  | .ok () =>
    match s.ensureApplicationAttempt jobId clocks with
    | (.error e, s) => (.error e, s)
    | (.ok attempt, s) =>
      let record : ApplicationAnswer :=
        { id := s.applicationAnswers.length + 1
          applicationId := attempt.id
          question := env.strip request.question
          normalizedQuestion := env.strip request.normalizedQuestion
          answer := env.strip request.answer
          source := env.strip request.source
          generated := request.generated
          confidence := request.confidence }
      (.ok record, { s with applicationAnswers := s.applicationAnswers ++ [record] })

end ApplicationStore

end JobPing
