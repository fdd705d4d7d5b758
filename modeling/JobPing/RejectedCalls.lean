import JobPing.CheckpointStages

/-!
# Rejected calls

A call of the application service that raises should have changed nothing. The checks of a
transition come after the attempt of a posting without one is queued, and the checkpoint of a start
comes after its transition: these are exactly the ways in which a call that raises leaves something
behind (`rejected_unchanged_iff`).
-/

namespace JobPing

open ApplicationStore

variable {env : ApplicationEnv} {s s' s₁ : ApplicationStore} {jobId : ℤ} {job : JobPosting}
  {attempt : ApplicationAttempt} {request : Transition} {clocks : Clocks} {later : Time}
  {url : Option Str}

/-- The attempts and the answers are as they were. -/
structure ApplicationStore.SameRows (s s' : ApplicationStore) : Prop where
  attempts : s'.applicationAttempts = s.applicationAttempts
  answers : s'.applicationAnswers = s.applicationAnswers

/-- What a call that raises should do. -/
def Unchanged {α : Type} (s : ApplicationStore) (result : Except Str α × ApplicationStore) : Prop :=
  ∀ e, result.1 = .error e → s.SameRows result.2

/-- A posting that may enter a status and has no attempt. -/
def ApplicationStore.Unattempted (s : ApplicationStore) (jobId : ℤ)
    (newStatus : ApplicationStatus) : Prop :=
  0 < jobId ∧ s.attempt jobId = none ∧
    ∃ job, s.db.jobPostings.find? (·.id = jobId) = some job ∧
      (job.isClosed = true → newStatus = .failed)

/-- The calls that leave something behind when they raise: a start with a blank URL whose transition
goes through, and a transition that a queued attempt may not make, on a posting without one. -/
def ServiceCall.LeavesTraces (env : ApplicationEnv) (s : ApplicationStore) : ServiceCall → Prop
  | startApplication jobId currentUrl =>
    currentUrl.any (env.strip · = []) = true ∧ 0 < jobId ∧
      (∃ job, s.db.jobPostings.find? (·.id = jobId) = some job ∧ job.isClosed = false) ∧
      ∀ attempt, s.attempt jobId = some attempt → .inProgress ∈ attempt.status.allowed
  | markVerificationRequired jobId type .. =>
    (∃ parsed, verificationType env type = .ok parsed) ∧ s.Unattempted jobId .needsVerification
  | markNeedsReview jobId .. => s.Unattempted jobId .needsReview
  | markReadyToSubmit jobId _ => s.Unattempted jobId .readyToSubmit
  | markSubmitted jobId _ => s.Unattempted jobId .submitted
  | markFailed jobId failureCode failureMessage _ =>
    (∃ failure, applicationFailure env failureCode = .ok failure) ∧
      env.containsVerificationSecret failureMessage = true ∧ s.Unattempted jobId .failed
  | _ => False

/-! ## Transitions -/

theorem unchanged_of_eq {α : Type} {result : Except Str α × ApplicationStore} (h : result.2 = s) :
    Unchanged s result := fun _ _ => by
  rw [h]
  exact ⟨rfl, rfl⟩

theorem unchanged_of_ok {α : Type} {value : α} : Unchanged s (.ok value, s') := fun _ h => by
  cases h

theorem unchanged_finished {α : Type} {result : Except Str α × ApplicationStore} :
    Unchanged s (finished result) ↔ Unchanged s result := by
  obtain ⟨outcome, s'⟩ := result
  cases outcome with
  | ok value => exact ⟨fun _ => unchanged_of_ok, fun _ => unchanged_of_ok⟩
  | error e => exact ⟨fun h e' _ => h e rfl, fun h e' _ => h e rfl⟩

/-- An attempt that is queued is a change. -/
theorem not_sameRows_create : ¬s.SameRows (s.create job clocks) := fun h => by
  have hlength := congrArg List.length h.attempts
  change (s.applicationAttempts ++ [_]).length = _ at hlength
  rw [List.length_append, List.length_singleton] at hlength
  omega

/-- The attempt that a transition queues. -/
theorem transitionAttempt_queued (clocks : Clocks)
    (h : s.Unattempted request.jobId request.newStatus) :
    ∃ job, (job.id : ℤ) = request.jobId ∧ s.attempt job.id = none ∧
      s.db.jobPostings.find? (·.id = request.jobId) = some job ∧
      request.attempt clocks s = (.ok (s.queuedAttempt job clocks), s.create job clocks) := by
  obtain ⟨hpositive, hnone, job, hjob, hclosed⟩ := h
  have hid : (job.id : ℤ) = request.jobId := by simpa using List.find?_some hjob
  refine ⟨job, hid, hid ▸ hnone, hjob, ?_⟩
  unfold Transition.attempt
  rw [getApplicationAttempt, if_neg (by omega), hnone, getJobById, if_neg (by omega), hjob]
  dsimp only
  rw [if_neg]
  intro h
  rw [Bool.and_eq_true, decide_eq_true_eq] at h
  exact h.2 (hclosed h.1)

/-- **A transition that raises** changes nothing, except that it queues an attempt which then fails
a check. -/
theorem transition_unchanged_iff (env : ApplicationEnv) (request : Transition) (clocks : Clocks)
    (s : ApplicationStore) :
    Unchanged s (s.transitionApplication env request clocks) ↔
      (s.Unattempted request.jobId request.newStatus → request.check env .queued = .ok ()) := by
  constructor
  · intro h hunattempted
    obtain ⟨job, -, -, -, hattempt⟩ := transitionAttempt_queued clocks hunattempted
    have hstatus : (s.queuedAttempt job clocks).status = .queued := rfl
    unfold transitionApplication at h
    rw [hattempt] at h
    dsimp only at h
    rw [hstatus] at h
    cases hcheck : request.check env .queued with
    | ok value => rfl
    | error e =>
      rw [hcheck] at h
      exact absurd (h e rfl) not_sameRows_create
  · intro h
    unfold transitionApplication
    rcases transitionAttempt_spec request clocks s with
      ⟨e, hattempt⟩ | ⟨s₁, attempt, hprepared, hattempt, hpositive, hfound, hopened⟩
    · rw [hattempt]
      exact unchanged_of_eq rfl
    rw [hattempt]
    dsimp only
    cases hcheck : request.check env attempt.status with
    | ok value => exact unchanged_of_ok
    | error e =>
      refine unchanged_of_eq ?_
      rcases hprepared with rfl | ⟨job, clocks', hid, hjob, hnone, rfl⟩
      · rfl
      -- the attempt that was queued fails the check
      rw [← hid, attempt_create hnone] at hfound
      obtain rfl := Option.some.inj hfound
      have hunattempted : s.Unattempted request.jobId request.newStatus := by
        refine ⟨hpositive, hid ▸ hnone, job, hjob, fun hclosed => hopened ?_⟩
        change (s.db.jobPostings.find? _).any _ = true
        rw [hjob]
        exact hclosed
      have hstatus : (s.queuedAttempt job clocks').status = .queued := rfl
      rw [hstatus, h hunattempted] at hcheck
      cases hcheck

/-- A queued attempt may only start or fail. -/
theorem check_queued_error (h : request.newStatus ∉ ApplicationStatus.queued.allowed) :
    request.check env .queued ≠ .ok () := fun hcheck => h (check_eq_ok_allowed hcheck)

/-- A transition that a queued attempt may not make. -/
theorem forbidden_unchanged_iff (request : Transition) (clocks : Clocks) (s : ApplicationStore)
    (h : request.newStatus ∉ ApplicationStatus.queued.allowed) :
    Unchanged s (s.transitionApplication env request clocks) ↔
      ¬s.Unattempted request.jobId request.newStatus := by
  rw [transition_unchanged_iff]
  exact forall_congr' fun _ => iff_false_intro (check_queued_error h)

/-- The check of a failure that a queued attempt enters. -/
theorem check_failed (env : ApplicationEnv) (jobId : ℤ) (url : Option Str)
    (failure : ApplicationFailure) (message : Option Str) :
    Transition.check env
        { jobId := jobId, newStatus := .failed, currentUrl := url, failureCode := some failure,
          failureMessage := message } .queued = .ok () ↔
      env.containsVerificationSecret message = false := by
  have hnone : env.containsVerificationSecret none = false := rfl
  cases hsecret : env.containsVerificationSecret message <;>
    simp [Transition.check, ApplicationStatus.allowed, ApplicationEnv.hasCode, hsecret, hnone,
      pure, Except.pure, throw, throwThe, MonadExceptOf.throw, bind, Except.bind]

/-! ## Starts -/

/-- A start whose transition goes through leaves it behind if the URL is blank. -/
theorem start_applies_unchanged_iff (later : Time)
    (hjob : s₁.db.jobPostings.find? (·.id = jobId) = some job)
    (happlies : (Transition.inProgress jobId url).Applies env s₁ attempt)
    (hbefore : ∀ before, s.attempt jobId = some before →
      .inProgress ∈ before.status.allowed) :
    Unchanged s (startApplication env jobId url clocks later s₁) ↔
      ¬url.any (env.strip · = []) = true := by
  obtain ⟨herror, hok⟩ := start_of_applies later clocks hjob happlies
  constructor
  · intro h hurl
    obtain ⟨e, heq⟩ := herror hurl
    rw [heq] at h
    -- the attempt is in progress, and was not before
    have hfound := attempt_update happlies.found
      (assign_jobId env (.inProgress jobId url) clocks.now attempt)
    have hsame := (h e rfl).attempts
    have hrow : s.attempt jobId =
        some ((Transition.inProgress jobId url).assign env clocks.now attempt) := by
      rw [← hfound]
      unfold ApplicationStore.attempt
      rw [hsame]
      rfl
    have hallowed := hbefore _ hrow
    rw [assign_status] at hallowed
    change .inProgress ∈ ApplicationStatus.inProgress.allowed at hallowed
    revert hallowed
    decide
  · intro hurl
    obtain ⟨attempt', -, -, -, heq⟩ := hok (Bool.not_eq_true _ ▸ hurl)
    rw [heq]
    exact unchanged_of_ok

/-- A start of a posting without an attempt goes on from the one it queues. -/
theorem start_queued (env : ApplicationEnv) (hunattempted : s.Unattempted jobId .inProgress)
    (url : Option Str) (clocks : Clocks) (later : Time) :
    ∃ job, s.db.jobPostings.find? (·.id = jobId) = some job ∧
      (Transition.inProgress jobId url).Applies env (s.create job clocks)
        (s.queuedAttempt job clocks) ∧
      startApplication env jobId url clocks later s =
        startApplication env jobId url clocks later (s.create job clocks) := by
  have hrequest : s.Unattempted (Transition.inProgress jobId url).jobId
      (Transition.inProgress jobId url).newStatus := hunattempted
  obtain ⟨job, hid, hnone, hjob, hattempt⟩ := transitionAttempt_queued clocks hrequest
  obtain ⟨hpositive, -, job', hjob', hclosed⟩ := hunattempted
  obtain rfl := Option.some.inj (hjob.symm.trans hjob')
  have hfound : (s.create job clocks).attempt jobId = some (s.queuedAttempt job clocks) := by
    have hcreated : (s.create job clocks).attempt job.id = some (s.queuedAttempt job clocks) :=
      attempt_create hnone
    rwa [hid] at hcreated
  have hopened : (s.create job clocks).isClosed jobId = true →
      (Transition.inProgress jobId url).newStatus = .failed := fun h => by
    change (s.db.jobPostings.find? _).any _ = true at h
    rw [hjob'] at h
    exact hclosed h
  have hallowed : ApplicationStatus.inProgress ∈ ApplicationStatus.queued.allowed := by decide
  have happlies : (Transition.inProgress jobId url).Applies env (s.create job clocks)
      (s.queuedAttempt job clocks) :=
    ⟨hpositive, hfound, hopened, check_bare env jobId url hallowed⟩
  have htransition : s.transitionApplication env (.inProgress jobId url) clocks =
      (s.create job clocks).transitionApplication env (.inProgress jobId url) clocks := by
    unfold transitionApplication
    rw [hattempt, transitionAttempt_found clocks hpositive hfound hopened]
  have hread : s.getJobById jobId = .ok (some job) := by
    rw [getJobById, if_neg (by omega), hjob']
  have hread' : (s.create job clocks).getJobById jobId = .ok (some job) := hread
  have hnot : ¬job.isClosed = true := fun h => by cases hclosed h
  refine ⟨job, hjob', happlies, ?_⟩
  unfold startApplication
  rw [htransition, hread, hread']
  dsimp only
  rw [if_neg hnot, if_neg hnot]

/-- **A start that raises** changes nothing, except with a blank URL and a transition that goes
through. -/
theorem start_unchanged_iff (env : ApplicationEnv) (jobId : ℤ) (url : Option Str) (clocks : Clocks)
    (later : Time) (s : ApplicationStore) :
    Unchanged s (startApplication env jobId url clocks later s) ↔
      ¬ServiceCall.LeavesTraces env s (.startApplication jobId url) := by
  by_cases hopen : 0 < jobId ∧
      ∃ job, s.db.jobPostings.find? (·.id = jobId) = some job ∧ job.isClosed = false
  · obtain ⟨hpositive, job, hjob, hjobopen⟩ := hopen
    have htraces : ServiceCall.LeavesTraces env s (.startApplication jobId url) ↔
        url.any (env.strip · = []) = true ∧
          ∀ attempt, s.attempt jobId = some attempt → .inProgress ∈ attempt.status.allowed :=
      ⟨fun h => ⟨h.1, h.2.2.2⟩, fun h => ⟨h.1, hpositive, ⟨job, hjob, hjobopen⟩, h.2⟩⟩
    rw [htraces]
    cases hattempt : s.attempt jobId with
    | none =>
      have hunattempted : s.Unattempted jobId .inProgress :=
        ⟨hpositive, hattempt, job, hjob, fun h => absurd (hjobopen.symm.trans h) Bool.false_ne_true⟩
      obtain ⟨job', hjob', happlies, hstart⟩ :=
        start_queued env hunattempted url clocks later
      have hbefore : ∀ before, s.attempt jobId = some before →
          .inProgress ∈ before.status.allowed := fun before h => by
        rw [hattempt] at h
        cases h
      have hcreated : (s.create job' clocks).db.jobPostings.find? (·.id = jobId) = some job' :=
        hjob'
      rw [hstart, start_applies_unchanged_iff later hcreated happlies hbefore]
      exact not_congr ⟨fun hurl => ⟨hurl, fun _ h => by cases h⟩, And.left⟩
    | some attempt =>
      have hstored : s.isClosed jobId = false := by
        change (s.db.jobPostings.find? _).any _ = false
        rw [hjob]
        exact hjobopen
      have hclosed : s.isClosed jobId = true →
          (Transition.inProgress jobId url).newStatus = .failed := fun h =>
        absurd (hstored.symm.trans h) Bool.false_ne_true
      by_cases hallowed : .inProgress ∈ attempt.status.allowed
      · have happlies : (Transition.inProgress jobId url).Applies env s attempt :=
          ⟨hpositive, hattempt, hclosed, check_bare env jobId url hallowed⟩
        have hbefore : ∀ before, s.attempt jobId = some before →
            .inProgress ∈ before.status.allowed := fun before h => by
          obtain rfl := Option.some.inj (hattempt.symm.trans h)
          exact hallowed
        rw [start_applies_unchanged_iff later hjob happlies hbefore]
        exact not_congr ⟨fun hurl => ⟨hurl, fun _ h => Option.some.inj h ▸ hallowed⟩, And.left⟩
      · -- the transition is refused
        refine iff_of_true (unchanged_of_eq ?_) fun h => hallowed (h.2 attempt rfl)
        have hcheck : ∃ e, (Transition.inProgress jobId url).check env attempt.status =
            .error e := by
          cases hresult : (Transition.inProgress jobId url).check env attempt.status with
          | error e => exact ⟨e, rfl⟩
          | ok value => exact absurd (check_eq_ok_allowed hresult) hallowed
        obtain ⟨e, hcheck⟩ := hcheck
        unfold startApplication transitionApplication
        rw [transitionAttempt_found clocks hpositive hattempt hclosed, getJobById,
          if_neg (by omega), hjob]
        dsimp only
        rw [hjobopen, if_neg Bool.false_ne_true, hcheck]
  · -- the posting is not there or is closed
    refine iff_of_true (unchanged_of_eq ?_) fun h => hopen ⟨h.2.1, h.2.2.1⟩
    unfold startApplication
    cases hread : s.getJobById jobId with
    | error e => rfl
    | ok found =>
      cases found with
      | none => rfl
      | some job =>
        dsimp only
        rw [if_pos]
        by_contra hjobopen
        have hpositive : 0 < jobId := by
          by_contra h
          rw [getJobById, if_pos (by omega)] at hread
          cases hread
        exact hopen ⟨hpositive, job, getJobById_eq_ok hread, Bool.not_eq_true _ ▸ hjobopen⟩

/-! ## Other calls -/

theorem ensure_unchanged (jobId : ℤ) (clocks : Clocks) (s : ApplicationStore) :
    Unchanged s (s.ensureApplicationAttempt jobId clocks) := by
  unfold ensureApplicationAttempt
  split
  · exact unchanged_of_eq rfl
  · exact unchanged_of_eq rfl
  · split_ifs
    · exact unchanged_of_eq rfl
    · split
      · exact unchanged_of_ok
      · exact unchanged_of_ok

theorem checkpoint_unchanged (jobId : ℤ) (url stage : Option Str) (now : Time)
    (s : ApplicationStore) :
    Unchanged s (s.updateApplicationCheckpoint env jobId url stage now) := by
  unfold updateApplicationCheckpoint
  split
  · exact unchanged_of_eq rfl
  · exact unchanged_of_eq rfl
  · split
    · exact unchanged_of_eq rfl
    · exact unchanged_of_ok

theorem reset_unchanged (jobId : ℤ) (clocks : Clocks) (s : ApplicationStore) :
    Unchanged s (s.resetApplication jobId clocks) := by
  unfold resetApplication
  split
  · exact unchanged_of_eq rfl
  · exact ensure_unchanged jobId clocks s
  · split_ifs
    · exact unchanged_of_eq rfl
    · exact unchanged_of_ok

theorem saveAnswer_unchanged (jobId : ℤ) (request : NewAnswer) (clocks : Clocks)
    (s : ApplicationStore) :
    Unchanged s (s.saveApplicationAnswer env jobId request clocks) := by
  unfold saveApplicationAnswer
  split
  · exact unchanged_of_eq rfl
  · have hensure := ensure_unchanged jobId clocks s
    split
    next e s' heq =>
      rw [heq] at hensure
      exact fun e' _ => hensure e rfl
    next => exact unchanged_of_ok

/-- What returns a projection of the attempt that it ensures. -/
theorem unchanged_map {α β : Type} {result : Except Str α × ApplicationStore} (f : α → β)
    (h : Unchanged s result) : Unchanged s (result.1.map f, result.2) := by
  obtain ⟨outcome, s'⟩ := result
  cases outcome with
  | ok value => exact unchanged_of_ok
  | error e => exact fun e' _ => h e rfl

theorem getCheckpoint_unchanged (jobId : ℤ) (clocks : Clocks) (s : ApplicationStore) :
    Unchanged s (getCheckpoint jobId clocks s) := by
  unfold getCheckpoint
  split
  · exact unchanged_of_eq rfl
  · exact unchanged_of_ok
  · exact unchanged_map checkpointFromAttempt (ensure_unchanged jobId clocks s)

theorem next_unchanged (clocks : Clocks) (s : ApplicationStore) :
    Unchanged s (s.getNextApplication env clocks) := by
  unfold getNextApplication
  split
  · exact unchanged_of_ok
  · split
    · exact unchanged_of_ok
    · exact unchanged_map some (ensure_unchanged _ clocks s)

/-- **Rejected calls** of the service: a call that raises leaves the attempts and the answers as
they were, exactly if it is none of those that leave traces. -/
theorem rejected_unchanged_iff (env : ApplicationEnv) (call : ServiceCall) (clocks : Clocks)
    (later : Time) (s : ApplicationStore) :
    (∀ e, (call.run env clocks later s).1 = .error e →
      (call.run env clocks later s).2.applicationAttempts = s.applicationAttempts ∧
        (call.run env clocks later s).2.applicationAnswers = s.applicationAnswers) ↔
      ¬call.LeavesTraces env s := by
  have hrows : (∀ e, (call.run env clocks later s).1 = .error e →
      (call.run env clocks later s).2.applicationAttempts = s.applicationAttempts ∧
        (call.run env clocks later s).2.applicationAnswers = s.applicationAnswers) ↔
      Unchanged s (call.run env clocks later s) :=
    forall₂_congr fun _ _ => ⟨fun h => ⟨h.1, h.2⟩, fun h => ⟨h.1, h.2⟩⟩
  rw [hrows]
  cases call with
  | startApplication jobId url =>
    exact unchanged_finished.trans (start_unchanged_iff env jobId url clocks later s)
  | markVerificationRequired jobId type url instruction =>
    refine unchanged_finished.trans ?_
    unfold markVerificationRequired ServiceCall.LeavesTraces
    cases htype : verificationType env type with
    | error e =>
      refine iff_of_true (unchanged_of_eq rfl) fun h => ?_
      obtain ⟨parsed, hparsed⟩ := h.1
      cases htype.symm.trans hparsed
    | ok parsed =>
      refine (forbidden_unchanged_iff _ clocks s (by simp [ApplicationStatus.allowed])).trans
        (not_congr ?_)
      exact ⟨fun h => ⟨⟨parsed, htype⟩, h⟩, And.right⟩
  | markVerificationComplete jobId url =>
    refine unchanged_finished.trans (iff_of_true ?_ not_false)
    exact (transition_unchanged_iff env (.inProgress jobId url) clocks s).mpr fun _ =>
      check_bare env jobId url (by decide)
  | markNeedsReview | markReadyToSubmit | markSubmitted =>
    exact unchanged_finished.trans
      (forbidden_unchanged_iff _ clocks s (by simp [ApplicationStatus.allowed]))
  | markFailed jobId code message url =>
    refine unchanged_finished.trans ?_
    unfold markFailed ServiceCall.LeavesTraces
    cases hcode : applicationFailure env code with
    | error e =>
      refine iff_of_true (unchanged_of_eq rfl) fun h => ?_
      obtain ⟨failure, hfailure⟩ := h.1
      cases hcode.symm.trans hfailure
    | ok failure =>
      refine (transition_unchanged_iff env _ clocks s).trans ?_
      rw [check_failed]
      constructor
      · rintro h ⟨-, hsecret, hunattempted⟩
        rw [h hunattempted] at hsecret
        cases hsecret
      · intro h hunattempted
        by_contra hsecret
        exact h ⟨⟨failure, hcode⟩, Bool.not_eq_false _ ▸ hsecret, hunattempted⟩
  | updateCheckpoint jobId url stage =>
    exact iff_of_true (unchanged_finished.mpr (checkpoint_unchanged jobId url stage _ s)) not_false
  | saveAnswer jobId request =>
    exact iff_of_true (unchanged_finished.mpr (saveAnswer_unchanged jobId request clocks s))
      not_false
  | getCheckpoint jobId =>
    exact iff_of_true (unchanged_finished.mpr (getCheckpoint_unchanged jobId clocks s)) not_false
  | resetApplication jobId =>
    exact iff_of_true (unchanged_finished.mpr (reset_unchanged jobId clocks s)) not_false
  | getNextJob => exact iff_of_true (unchanged_finished.mpr (next_unchanged clocks s)) not_false
  | listByStatus status => exact iff_of_true unchanged_of_ok not_false

/-- A submission of a posting that was never applied to queues an attempt. -/
theorem submitted_unstarted :
    ¬∀ (env : ApplicationEnv) (cfg : Config) (S : Services) (db : Db) (steps : List ApplicationStep)
      (call : ServiceCall) (clocks : Clocks) (later : Time) (e : Str),
      let s := (ApplicationStore.start db).run env cfg S steps
      (call.run env clocks later s).1 = .error e →
        (call.run env clocks later s).2.applicationAttempts = s.applicationAttempts ∧
          (call.run env clocks later s).2.applicationAnswers = s.applicationAnswers := by
  intro h
  have hattempts := (h .plain sampleConfig .ascii openSample [] (.markSubmitted 1 none) ⟨0, 0⟩ 0
    (valueError "invalid application transition: queued -> submitted") (by decide +kernel)).1
  revert hattempts
  decide +kernel

end JobPing
