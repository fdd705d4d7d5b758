import JobPing.Applications
import JobPing.Runs

/-!
# The application service

The methods of `app/applications/service.py`, and the runs of the application agent: calls of the
service and of the repository, with ingestion between them. A call that raises may have flushed rows;
the transaction around it is rolled back, or its owner goes on and keeps them.
-/

namespace JobPing

open ApplicationStore

variable (env : ApplicationEnv)

/-! ## The methods -/

/-- `ApplicationCheckpoint`, the projection of `checkpoint_from_attempt`. -/
structure ApplicationCheckpoint where
  jobId : ℕ
  status : ApplicationStatus
  stage : Option CheckpointStage
  currentUrl : Option Str
  confirmationUrl : Option Str
  verificationType : Option VerificationType
  resumeInstruction : Option Str
  failureCode : Option ApplicationFailure
  failureMessage : Option Str
  reviewQuestion : Option Str
  reviewReason : Option Str
  attemptCount : ℕ
  startedAt : Option Time
  updatedAt : Time
  submittedAt : Option Time

/-- `checkpoint_from_attempt`. -/
def checkpointFromAttempt (attempt : ApplicationAttempt) : ApplicationCheckpoint where
  jobId := attempt.jobId
  status := attempt.status
  stage := attempt.checkpointStage
  currentUrl := attempt.currentUrl
  confirmationUrl := attempt.confirmationUrl
  verificationType :=
    if attempt.status = .needsVerification then attempt.verificationType else none
  resumeInstruction :=
    if attempt.status = .needsVerification then attempt.resumeInstruction else none
  failureCode := if attempt.status = .failed then attempt.failureCode else none
  failureMessage := if attempt.status = .failed then attempt.failureMessage else none
  reviewQuestion := if attempt.status = .needsReview then attempt.reviewQuestion else none
  reviewReason := if attempt.status = .needsReview then attempt.reviewReason else none
  attemptCount := attempt.attemptCount
  startedAt := attempt.startedAt
  updatedAt := attempt.updatedAt
  submittedAt := attempt.submittedAt

/-- The transition that starts, retries and resumes an application. -/
def Transition.inProgress (jobId : ℤ) (currentUrl : Option Str) : Transition :=
  { jobId := jobId, newStatus := .inProgress, currentUrl := currentUrl }

/-- `start_application`; the checkpoint reads the clock again. -/
def startApplication (jobId : ℤ) (currentUrl : Option Str) (clocks : Clocks) (later : Time)
    (s : ApplicationStore) : Except Str ApplicationAttempt × ApplicationStore :=
  match s.getJobById jobId with
  | .error e => (.error e, s)
  | .ok none => (.error (Transition.notFound jobId), s)
  | .ok (some job) =>
    if job.isClosed then (.error (Transition.closed jobId), s)
    else
      match s.transitionApplication env (.inProgress jobId currentUrl) clocks with
      | (.error e, s) => (.error e, s)
      | (.ok _, s) =>
        s.updateApplicationCheckpoint env jobId currentUrl (some "opened".toList) later

/-- `VerificationType(text)`. -/
def verificationType (text : Str) : Except Str VerificationType :=
  match [VerificationType.emailOtp, .emailMagicLink, .smsOtp, .authenticator, .captcha, .login,
    .unknown].find? (·.value.toList = text) with
  | some type => .ok type
  | none => .error (env.repr text ++ valueError " is not a valid VerificationType")

/-- `mark_verification_required`. -/
def markVerificationRequired (jobId : ℤ) (type currentUrl instruction : Str) (clocks : Clocks)
    (s : ApplicationStore) : Except Str ApplicationAttempt × ApplicationStore :=
  match verificationType env type with
  | .error e => (.error e, s)
  | .ok type =>
    s.transitionApplication env
      { jobId := jobId
        newStatus := .needsVerification
        currentUrl := some currentUrl
        verificationType := some type
        resumeInstruction := some instruction } clocks

/-- `mark_verification_complete`. -/
def markVerificationComplete (jobId : ℤ) (currentUrl : Option Str) (clocks : Clocks)
    (s : ApplicationStore) : Except Str ApplicationAttempt × ApplicationStore :=
  s.transitionApplication env (.inProgress jobId currentUrl) clocks

/-- `mark_needs_review`, also as `mark_review_required`. -/
def markNeedsReview (jobId : ℤ) (currentUrl reviewQuestion reviewReason : Option Str)
    (clocks : Clocks) (s : ApplicationStore) :
    Except Str ApplicationAttempt × ApplicationStore :=
  s.transitionApplication env
    { jobId := jobId
      newStatus := .needsReview
      currentUrl := currentUrl
      reviewQuestion := reviewQuestion
      reviewReason := reviewReason } clocks

/-- `mark_ready_to_submit`, also as `mark_ready`. -/
def markReadyToSubmit (jobId : ℤ) (currentUrl : Option Str) (clocks : Clocks)
    (s : ApplicationStore) : Except Str ApplicationAttempt × ApplicationStore :=
  s.transitionApplication env
    { jobId := jobId, newStatus := .readyToSubmit, currentUrl := currentUrl } clocks

/-- `mark_submitted`. -/
def markSubmitted (jobId : ℤ) (confirmationUrl : Option Str) (clocks : Clocks)
    (s : ApplicationStore) : Except Str ApplicationAttempt × ApplicationStore :=
  s.transitionApplication env
    { jobId := jobId, newStatus := .submitted, confirmationUrl := confirmationUrl } clocks

/-- `ApplicationFailure(text)`. -/
def applicationFailure (text : Str) : Except Str ApplicationFailure :=
  match [ApplicationFailure.unknown, .applicationClosed, .alreadyApplied, .unsupportedFlow,
    .missingCandidateData, .loginRequired, .verificationRequired, .browserError,
    .submissionFailed].find? (·.value.toList = text) with
  | some failure => .ok failure
  | none => .error (env.repr text ++ valueError " is not a valid ApplicationFailure")

/-- `mark_failed`. -/
def markFailed (jobId : ℤ) (failureCode : Str) (failureMessage currentUrl : Option Str)
    (clocks : Clocks) (s : ApplicationStore) :
    Except Str ApplicationAttempt × ApplicationStore :=
  match applicationFailure env failureCode with
  | .error e => (.error e, s)
  | .ok failure =>
    s.transitionApplication env
      { jobId := jobId
        newStatus := .failed
        currentUrl := currentUrl
        failureCode := some failure
        failureMessage := failureMessage } clocks

/-- `get_checkpoint`. -/
def getCheckpoint (jobId : ℤ) (clocks : Clocks) (s : ApplicationStore) :
    Except Str ApplicationCheckpoint × ApplicationStore :=
  match s.getApplicationAttempt jobId with
  | .error e => (.error e, s)
  | .ok (some attempt) => (.ok (checkpointFromAttempt attempt), s)
  | .ok none =>
    let (result, s) := s.ensureApplicationAttempt jobId clocks
    (result.map checkpointFromAttempt, s)

/-! ## Runs -/

/-- A call of `ApplicationService`. `inspect_job` reads the posting and the browser only. -/
inductive ServiceCall
  | getNextJob
  | startApplication (jobId : ℤ) (currentUrl : Option Str)
  | markVerificationRequired (jobId : ℤ) (verificationType currentUrl instruction : Str)
  | markVerificationComplete (jobId : ℤ) (currentUrl : Option Str)
  | markNeedsReview (jobId : ℤ) (currentUrl reviewQuestion reviewReason : Option Str)
  | markReadyToSubmit (jobId : ℤ) (currentUrl : Option Str)
  | updateCheckpoint (jobId : ℤ) (currentUrl stage : Option Str)
  | markSubmitted (jobId : ℤ) (confirmationUrl : Option Str)
  | listByStatus (status : ApplicationStatus)
  | markFailed (jobId : ℤ) (failureCode : Str) (failureMessage currentUrl : Option Str)
  | saveAnswer (jobId : ℤ) (request : NewAnswer)
  | getCheckpoint (jobId : ℤ)
  | resetApplication (jobId : ℤ)

/-- A call of the application methods of the repository that the service does not pass on. -/
inductive RepositoryCall
  | transitionApplication (request : Transition)
  | ensureApplicationAttempt (jobId : ℤ)
  | listApplicationQueue

/-- The result without its value. -/
def finished {α : Type} (result : Except Str α × ApplicationStore) :
    Except Str Unit × ApplicationStore := (result.1.map fun _ => (), result.2)

/-- A call of the service, and the session it leaves. -/
def ServiceCall.run (clocks : Clocks) (later : Time) (s : ApplicationStore) :
    ServiceCall → Except Str Unit × ApplicationStore
  | getNextJob => finished (s.getNextApplication env clocks)
  | startApplication jobId currentUrl =>
    finished (JobPing.startApplication env jobId currentUrl clocks later s)
  | markVerificationRequired jobId type currentUrl instruction =>
    finished (JobPing.markVerificationRequired env jobId type currentUrl instruction clocks s)
  | markVerificationComplete jobId currentUrl =>
    finished (JobPing.markVerificationComplete env jobId currentUrl clocks s)
  | markNeedsReview jobId currentUrl reviewQuestion reviewReason =>
    finished (JobPing.markNeedsReview env jobId currentUrl reviewQuestion reviewReason clocks s)
  | markReadyToSubmit jobId currentUrl =>
    finished (JobPing.markReadyToSubmit env jobId currentUrl clocks s)
  | updateCheckpoint jobId currentUrl stage =>
    finished (s.updateApplicationCheckpoint env jobId currentUrl stage clocks.now)
  | markSubmitted jobId confirmationUrl =>
    finished (JobPing.markSubmitted env jobId confirmationUrl clocks s)
  | listByStatus _ => (.ok (), s)
  | markFailed jobId failureCode failureMessage currentUrl =>
    finished (JobPing.markFailed env jobId failureCode failureMessage currentUrl clocks s)
  | saveAnswer jobId request => finished (s.saveApplicationAnswer env jobId request clocks)
  | getCheckpoint jobId => finished (JobPing.getCheckpoint jobId clocks s)
  | resetApplication jobId => finished (s.resetApplication jobId clocks)

def RepositoryCall.run (clocks : Clocks) (s : ApplicationStore) :
    RepositoryCall → Except Str Unit × ApplicationStore
  | transitionApplication request => finished (s.transitionApplication env request clocks)
  | ensureApplicationAttempt jobId => finished (s.ensureApplicationAttempt jobId clocks)
  | listApplicationQueue => finished (s.listApplicationQueue env clocks)

/-- A step of the system. What a call that raises has flushed is `kept`, or it is rolled back. -/
inductive ApplicationStep
  | service (call : ServiceCall) (clocks : Clocks) (later : Time) (kept : Bool)
  | repository (call : RepositoryCall) (clocks : Clocks) (kept : Bool)
  | ingest (call : Call)

/-- The state after a call. -/
def ApplicationStore.settle (s : ApplicationStore) (kept : Bool) :
    Except Str Unit × ApplicationStore → ApplicationStore
  | (.ok (), s') => s'
  | (.error _, s') => if kept then s' else s

variable (cfg : Config) (S : Services)

def ApplicationStep.exec (s : ApplicationStore) : ApplicationStep → ApplicationStore
  | service call clocks later kept => s.settle kept (call.run env clocks later s)
  | repository call clocks kept => s.settle kept (call.run env clocks s)
  | ingest call => { s with db := call.exec cfg S s.db }

/-- The state after a sequence of steps. -/
def ApplicationStore.run (s : ApplicationStore) (steps : List ApplicationStep) : ApplicationStore :=
  steps.foldl (fun s step => step.exec env cfg S s) s

/-! ## A sample -/

/-- ASCII texts, and postings created in the order of their ids. -/
def ApplicationEnv.plain : ApplicationEnv := { Python.ascii with repr := id, createdAt := fun id => id }

/-- A call of the service at some instant, kept whatever it returns. -/
def ServiceCall.at (call : ServiceCall) (now : Time) : ApplicationStep :=
  .service call ⟨now, now⟩ now true

end JobPing
