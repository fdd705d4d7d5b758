import JobPing.CheckpointStages

/-!
# The verification gate

`start_application`, its retries and `mark_verification_complete` ask for the same transition into
`IN_PROGRESS`, which is allowed from `QUEUED`, `FAILED` and `NEEDS_VERIFICATION`. A start takes an
attempt out of its verification, and the completion of a verification starts an attempt that has none;
without these two the gate holds (`verification_gate_iff`).
-/

namespace JobPing

open ApplicationStore

variable {env : ApplicationEnv} {cfg : Config} {S : Services}

/-- The status of the attempt of a posting. -/
def ApplicationStore.status (s : ApplicationStore) (jobId : ℤ) : Option ApplicationStatus :=
  (s.attempt jobId).map (·.status)

/-- `verification_completed_at` of the attempt of a posting. -/
def ApplicationStore.completedAt (s : ApplicationStore) (jobId : ℤ) : Option Time :=
  (s.attempt jobId).bind (·.verificationCompletedAt)

/-- The call is the completion of the verification of an attempt, its failure or its reset. -/
def ServiceCall.EndsVerification (jobId : ℤ) (call : ServiceCall) : Prop :=
  (∃ url, call = .markVerificationComplete jobId url) ∨
    (∃ code message url, call = .markFailed jobId code message url) ∨
    call = .resetApplication jobId

/-- What the gate promises of a call. -/
structure Gated (env : ApplicationEnv) (s : ApplicationStore) (call : ServiceCall)
    (clocks : Clocks) (later : Time) (kept : Bool) : Prop where
  leaves : ∀ jobId, s.status jobId = some .needsVerification →
    (s.settle kept (call.run env clocks later s)).status jobId ≠ some .needsVerification →
      call.EndsVerification jobId
  completes : ∀ jobId url, call = .markVerificationComplete jobId url →
    (call.run env clocks later s).1 = .ok () → s.status jobId = some .needsVerification
  stamps : ∀ jobId time,
    (s.settle kept (call.run env clocks later s)).completedAt jobId = some time →
      s.completedAt jobId = some time ∨ ∃ url, call = .markVerificationComplete jobId url

/-- The posting of a request is there and open. -/
def ApplicationStore.Open (s : ApplicationStore) (jobId : ℤ) : Prop :=
  0 < jobId ∧ (s.db.jobPostings.find? (·.id = jobId)).map (·.isClosed) = some false

/-- The call is a start of an attempt that awaits its verification, or the completion of the
verification of an attempt that does not. -/
def ServiceCall.Bypasses (env : ApplicationEnv) (s : ApplicationStore) (kept : Bool) :
    ServiceCall → Prop
  | startApplication jobId url =>
    s.Open jobId ∧ s.status jobId = some .needsVerification ∧
      (kept = true ∨ url.any (env.strip · = []) = false)
  | markVerificationComplete jobId _ =>
    0 < jobId ∧ s.isClosed jobId = false ∧
      (s.status jobId = some .queued ∨ s.status jobId = some .failed ∨
        s.status jobId = none ∧ s.Open jobId)
  | _ => False

variable {s s' : ApplicationStore} {kinds : List WriteKind} {kind : WriteKind} {jobId : ℤ}
  {attempt : ApplicationAttempt} {request : Transition} {status : ApplicationStatus}

/-! ## Writes -/

theorem attempt_update_other (hother : (attempt.jobId : ℤ) ≠ jobId) :
    (s.update attempt).attempt jobId = s.attempt jobId := by
  change List.find? _ (Table.replace _ _ _) = List.find? _ _
  rw [Table.find?_replace fun row _ hrow => by rw [hrow]]
  cases hfound : s.applicationAttempts.find? (·.jobId = jobId) with
  | none => rfl
  | some row =>
    have hrow : (row.jobId : ℤ) = jobId := by simpa using List.find?_some hfound
    rw [Option.map_some, if_neg]
    rintro heq
    exact hother (by rw [← heq, hrow])

theorem attempt_create_of_some (job : JobPosting) (clocks : Clocks)
    (hfound : s.attempt jobId = some attempt) :
    (s.create job clocks).attempt jobId = some attempt := by
  change List.find? _ (s.applicationAttempts ++ [_]) = _
  rw [List.find?_append]
  change (s.attempt jobId).or _ = _
  rw [hfound, Option.some_or]

/-- The kinds that may change the attempt of a posting. -/
def WriteKind.Changes (jobId : ℤ) : WriteKind → Prop
  | transition job _ | checkpoint job | reset job => job = jobId
  | create | answer => False

/-- **A write leaves the other attempts alone.** -/
theorem AttemptWrite.attempt_of_some (hwrite : AttemptWrite env s kind s')
    (hfound : s.attempt jobId = some attempt) (hkind : ¬kind.Changes jobId) :
    s'.attempt jobId = some attempt := by
  cases hwrite with
  | create job clocks hnone => exact attempt_create_of_some job clocks hfound
  | transition request now other hother hallowed =>
    rw [attempt_update_other (by rw [assign_jobId]; exact hkind)]
    exact hfound
  | checkpoint url stage now other hother hactive hstage =>
    rw [attempt_update_other (by exact hkind)]
    exact hfound
  | reset now other hother hstatus =>
    rw [attempt_update_other (by exact hkind)]
    exact hfound
  | answer record => exact hfound

/-- The kinds that take an attempt out of its verification. -/
def WriteKind.EndsVerification (jobId : ℤ) : WriteKind → Prop
  | transition job status => job = jobId ∧ (status = .inProgress ∨ status = .failed)
  | reset job => job = jobId
  | create | checkpoint _ | answer => False

theorem AttemptWrite.awaits (h : s.status jobId = some .needsVerification)
    (hwrite : AttemptWrite env s kind s') (hkind : ¬kind.EndsVerification jobId) :
    s'.status jobId = some .needsVerification := by
  obtain ⟨attempt, hfound, hstatus⟩ := Option.map_eq_some_iff.mp h
  by_cases hchanges : kind.Changes jobId
  · cases hwrite with
    | create | answer => exact absurd hchanges id
    | transition request now other hother hallowed =>
      obtain rfl : (other.jobId : ℤ) = jobId := hchanges
      obtain rfl : attempt = other := Option.some.inj (hfound.symm.trans hother)
      -- no other transition is allowed
      rw [hstatus] at hallowed
      have hends : request.newStatus = .inProgress ∨ request.newStatus = .failed := by
        simpa [ApplicationStatus.allowed] using hallowed
      exact absurd ⟨rfl, hends⟩ hkind
    | checkpoint url stage now other hother hactive hstage =>
      obtain rfl : (other.jobId : ℤ) = jobId := hchanges
      obtain rfl : attempt = other := Option.some.inj (hfound.symm.trans hother)
      have hafter : (s.update (checkpointed env url stage now attempt)).attempt attempt.jobId =
          some _ := attempt_update hother rfl
      rw [ApplicationStore.status, hafter]
      exact congrArg some hstatus
    | reset now other hother hne => exact absurd hchanges hkind
  · rw [ApplicationStore.status, hwrite.attempt_of_some hfound hchanges]
    exact congrArg some hstatus

theorem Writes.awaits (h : s.status jobId = some .needsVerification)
    (hwrites : Writes env kinds s s') (hkinds : ∀ kind ∈ kinds, ¬kind.EndsVerification jobId) :
    s'.status jobId = some .needsVerification := by
  induction hwrites with
  | refl => exact h
  | tail _ hwrite ih =>
    obtain ⟨kind, hkind, hwrite⟩ := hwrite
    exact hwrite.awaits ih (hkinds kind hkind)

/-- The completion of a posting's attempt after is the one before. -/
def Unstamped (jobId : ℤ) (s s' : ApplicationStore) : Prop :=
  ∀ time, s'.completedAt jobId = some time → s.completedAt jobId = some time

theorem Unstamped.trans {t : ApplicationStore} (h : Unstamped jobId s s')
    (h' : Unstamped jobId s' t) : Unstamped jobId s t := fun time ht => h time (h' time ht)

/-- An update that writes no completion, or is about another posting. -/
theorem unstamped_update {before : ApplicationAttempt} (hfound : s.attempt before.jobId = some before)
    (hjob : attempt.jobId = before.jobId)
    (hcompleted : (before.jobId : ℤ) = jobId → ∀ time,
      attempt.verificationCompletedAt = some time →
        before.verificationCompletedAt = some time) : Unstamped jobId s (s.update attempt) := by
  intro time h
  by_cases hsame : (before.jobId : ℤ) = jobId
  · rw [completedAt, ← hsame, attempt_update hfound hjob] at h
    rw [completedAt, ← hsame, hfound]
    exact hcompleted hsame time h
  · rwa [completedAt, attempt_update_other (by rwa [hjob])] at h

theorem assign_completed (now : Time)
    (h : request.newStatus = .inProgress → attempt.status ≠ .needsVerification) :
    (request.assign env now attempt).verificationCompletedAt =
      attempt.verificationCompletedAt := by
  unfold Transition.assign Transition.entered
  dsimp only
  rw [if_neg (fun hboth => h hboth.1 hboth.2)]
  split <;> split_ifs <;> rfl

theorem AttemptWrite.unstamped (hwrite : AttemptWrite env s kind s')
    (hkind : kind = .transition jobId .inProgress →
      s.status jobId ≠ some .needsVerification) : Unstamped jobId s s' := by
  cases hwrite with
  | create job clocks hnone =>
    intro time h
    cases hfound : s.attempt jobId with
    | some attempt =>
      rw [completedAt, attempt_create_of_some job clocks hfound] at h
      rwa [completedAt, hfound]
    | none =>
      change Option.bind (List.find? _ (s.applicationAttempts ++ [_])) _ = _ at h
      rw [List.find?_append] at h
      change Option.bind ((s.attempt jobId).or _) _ = _ at h
      rw [hfound] at h
      by_cases hjob : (job.id : ℤ) = jobId
      · simp [queuedAttempt, hjob] at h
      · simp [queuedAttempt, hjob] at h
  | transition request now other hother hallowed =>
    refine unstamped_update hother (assign_jobId ..) fun hjob time htime => ?_
    rwa [assign_completed now] at htime
    intro hnew hstatus
    refine hkind (by rw [hjob, hnew]) ?_
    rw [ApplicationStore.status, ← hjob, hother, Option.map_some, hstatus]
  | checkpoint url stage now other hother hactive hstage =>
    exact unstamped_update hother rfl fun _ _ htime => htime
  | reset now other hother hstatus =>
    refine unstamped_update hother rfl fun _ _ htime => ?_
    cases htime
  | answer record => exact fun _ h => h

theorem Writes.unstamped (hwrites : Writes env kinds s s')
    (hkinds : .transition jobId .inProgress ∉ kinds) : Unstamped jobId s s' := by
  induction hwrites with
  | refl => exact fun _ h => h
  | tail _ hwrite ih =>
    obtain ⟨kind, hkind, hwrite⟩ := hwrite
    exact ih.trans (hwrite.unstamped fun heq => absurd (heq ▸ hkind) hkinds)

/-! ## Transitions -/

variable (env) in
/-- The transition into `IN_PROGRESS` of an attempt of an open posting that may make it. -/
theorem inProgress_applies (hpositive : 0 < jobId) (hopen : s.isClosed jobId = false)
    (hstatus : s.status jobId = some status) (hallowed : .inProgress ∈ status.allowed)
    (url : Option Str) :
    ∃ attempt, (Transition.inProgress jobId url).Applies env s attempt ∧
      attempt.status = status := by
  obtain ⟨attempt, hattempt, rfl⟩ := Option.map_eq_some_iff.mp hstatus
  exact ⟨attempt, ⟨hpositive, hattempt, by simp [Transition.inProgress, hopen],
    check_bare env jobId url hallowed⟩, rfl⟩

theorem Open.isClosed (h : s.Open jobId) : s.isClosed jobId = false := by
  obtain ⟨job, hjob, hopen⟩ := Option.map_eq_some_iff.mp h.2
  rw [ApplicationStore.isClosed, hjob]
  exact hopen

/-- The transition into `IN_PROGRESS` for an open posting without an attempt. -/
theorem inProgress_created (hnone : s.status jobId = none) (h : s.Open jobId)
    (url : Option Str) (clocks : Clocks) :
    ∃ attempt s', s.transitionApplication env (.inProgress jobId url) clocks =
      (.ok attempt, s') := by
  obtain ⟨job, hjob, hopen⟩ := Option.map_eq_some_iff.mp h.2
  have hattempt : s.attempt jobId = none := by simpa [ApplicationStore.status] using hnone
  have hfirst : (Transition.inProgress jobId url).attempt clocks s =
      (.ok (s.queuedAttempt job clocks), s.create job clocks) := by
    have hpositive : ¬jobId ≤ 0 := Int.not_le.mpr h.1
    have hfound : s.getApplicationAttempt jobId = .ok none := by
      rw [getApplicationAttempt, if_neg hpositive, hattempt]
    have hread : s.getJobById jobId = .ok (some job) := by
      rw [getJobById, if_neg hpositive, hjob]
    simp [Transition.attempt, Transition.inProgress, hfound, hread, hopen]
  have hchecked : (Transition.inProgress jobId url).check env .queued = .ok () :=
    check_bare env jobId url (by decide)
  unfold transitionApplication
  rw [hfirst]
  dsimp only
  rw [show (s.queuedAttempt job clocks).status = .queued from rfl, hchecked]
  exact ⟨_, _, rfl⟩

variable (env) in
theorem start_of_not_open (h : ¬s.Open jobId) (url : Option Str) (clocks : Clocks) (later : Time) :
    ∃ e, startApplication env jobId url clocks later s = (.error e, s) := by
  unfold startApplication
  split
  next e _ => exact ⟨e, rfl⟩
  next => exact ⟨_, rfl⟩
  next job hread =>
    have hjob := getJobById_eq_ok hread
    have hpositive : 0 < jobId := by
      by_contra hle
      rw [getJobById, if_pos (by omega)] at hread
      cases hread
    rw [if_pos]
    · exact ⟨_, rfl⟩
    · by_contra hopen
      exact h ⟨hpositive, by simpa [hjob] using hopen⟩

variable (env request) in
theorem transition_unstamped (hstatus : s.status request.jobId ≠ some .needsVerification)
    (clocks : Clocks) (jobId : ℤ) :
    Unstamped jobId s (s.transitionApplication env request clocks).2 := by
  obtain ⟨s₁, hprepared, hrest⟩ := transitionApplication_spec env request clocks s
  have hfirst : Unstamped jobId s s₁ ∧ s₁.status request.jobId ≠ some .needsVerification := by
    rcases hprepared with rfl | ⟨job, clocks, hid, -, hnone, rfl⟩
    · exact ⟨fun _ h => h, hstatus⟩
    · have hwrite : AttemptWrite env s .create (s.create job clocks) := .create job clocks hnone
      refine ⟨hwrite.unstamped (by simp), ?_⟩
      rw [← hid, ApplicationStore.status, attempt_create hnone]
      simp [queuedAttempt]
  rcases hrest with ⟨e, heq⟩ | ⟨attempt, happlies, heq⟩
  · rw [heq]
    exact hfirst.1
  · rw [heq]
    refine hfirst.1.trans (AttemptWrite.unstamped (.transition request clocks.now attempt
      (attempt_self happlies.found) (check_eq_ok_allowed happlies.checked)) fun heq => ?_)
    have hjob : (attempt.jobId : ℤ) = jobId := by
      injection heq
    rw [← hjob, attempt_jobId happlies.found]
    exact hfirst.2

/-! ## Calls -/

theorem settle_awaits (h : s.status jobId = some .needsVerification) (kept : Bool)
    {result : Except Str Unit × ApplicationStore}
    (hresult : result.2.status jobId = some .needsVerification) :
    (s.settle kept result).status jobId = some .needsVerification := by
  obtain ⟨outcome, s'⟩ := result
  cases outcome with
  | ok => exact hresult
  | error e =>
    cases kept with
    | false => exact h
    | true => exact hresult

theorem settle_unstamped (kept : Bool) {result : Except Str Unit × ApplicationStore}
    (hresult : Unstamped jobId s result.2) : Unstamped jobId s (s.settle kept result) := by
  obtain ⟨outcome, s'⟩ := result
  cases outcome with
  | ok => exact hresult
  | error e =>
    cases kept with
    | false => exact fun _ h => h
    | true => exact hresult

/-- The calls that may take an attempt out of its verification. -/
theorem kinds_end (call : ServiceCall) (jobId : ℤ) :
    (∀ kind ∈ call.kinds, ¬kind.EndsVerification jobId) ∨ call.EndsVerification jobId ∨
      ∃ url, call = .startApplication jobId url := by
  cases call with
  | startApplication job url =>
    by_cases hjob : job = jobId
    · exact .inr (.inr ⟨url, by rw [hjob]⟩)
    · left
      simp [ServiceCall.kinds, WriteKind.EndsVerification, hjob]
  | markVerificationComplete job url =>
    by_cases hjob : job = jobId
    · exact .inr (.inl (.inl ⟨url, by rw [hjob]⟩))
    · left
      simp [ServiceCall.kinds, WriteKind.EndsVerification, hjob]
  | markFailed job code message url =>
    by_cases hjob : job = jobId
    · exact .inr (.inl (.inr (.inl ⟨code, message, url, by rw [hjob]⟩)))
    · left
      simp [ServiceCall.kinds, WriteKind.EndsVerification, hjob]
  | resetApplication job =>
    by_cases hjob : job = jobId
    · exact .inr (.inl (.inr (.inr (by rw [hjob]))))
    · left
      simp [ServiceCall.kinds, WriteKind.EndsVerification, hjob]
  | _ =>
    left
    simp [ServiceCall.kinds, WriteKind.EndsVerification]

/-- A start of an attempt in verification that changes it is a bypass. -/
theorem start_awaits {url : Option Str} {clocks : Clocks} {later : Time} {kept : Bool}
    (h : s.status jobId = some .needsVerification)
    (hno : ¬(ServiceCall.startApplication jobId url).Bypasses env s kept) :
    s.settle kept (finished (startApplication env jobId url clocks later s)) = s := by
  by_cases hopen : s.Open jobId
  · obtain ⟨job, hjob, -⟩ := Option.map_eq_some_iff.mp hopen.2
    obtain ⟨attempt, happlies, -⟩ :=
      inProgress_applies env hopen.1 (Open.isClosed hopen) h (by decide) url
    cases kept with
    | true => exact absurd ⟨hopen, h, .inl rfl⟩ hno
    | false =>
      cases hurl : url.any (env.strip · = []) with
      | false => exact absurd ⟨hopen, h, .inr hurl⟩ hno
      | true =>
        obtain ⟨e, heq⟩ := (start_of_applies later clocks hjob happlies).1 hurl
        rw [heq]
        rfl
  · obtain ⟨e, heq⟩ := start_of_not_open env hopen url clocks later
    rw [heq]
    cases kept <;> rfl

theorem start_unstamped {url : Option Str} {clocks : Clocks} {later : Time} {kept : Bool}
    (hno : ¬(ServiceCall.startApplication jobId url).Bypasses env s kept) (job : ℤ) :
    Unstamped job s (s.settle kept (finished (startApplication env jobId url clocks later s))) := by
  by_cases hstatus : s.status jobId = some .needsVerification
  · rw [start_awaits hstatus hno]
    exact fun _ h => h
  · refine settle_unstamped kept ?_
    change Unstamped job s (startApplication env jobId url clocks later s).2
    unfold startApplication
    split
    · exact fun _ h => h
    · exact fun _ h => h
    · split_ifs
      · exact fun _ h => h
      · have htransition := transition_unstamped env (.inProgress jobId url) hstatus clocks job
        split
        next heq =>
          rw [heq] at htransition
          exact htransition
        next heq =>
          rw [heq] at htransition
          exact htransition.trans ((checkpoint_writes ..).unstamped (by simp))

/-- A start that is a bypass puts the attempt in progress. -/
theorem start_leaves {url : Option Str} (clocks : Clocks) (later : Time) {kept : Bool}
    (h : (ServiceCall.startApplication jobId url).Bypasses env s kept) :
    (s.settle kept (finished (startApplication env jobId url clocks later s))).status jobId =
      some .inProgress := by
  obtain ⟨hopen, hstatus, hwritten⟩ := h
  obtain ⟨job, hjob, -⟩ := Option.map_eq_some_iff.mp hopen.2
  obtain ⟨attempt, happlies, -⟩ :=
    inProgress_applies env hopen.1 (Open.isClosed hopen) hstatus (by decide) url
  obtain ⟨herror, hok⟩ := start_of_applies later clocks hjob happlies
  have hassigned := assign_status env (.inProgress jobId url) clocks.now attempt
  have hfirst : (s.update ((Transition.inProgress jobId url).assign env clocks.now
      attempt)).attempt jobId = some _ :=
    attempt_update happlies.found (assign_jobId env (.inProgress jobId url) clocks.now attempt)
  cases hurl : url.any (env.strip · = []) with
  | true =>
    obtain ⟨e, heq⟩ := herror hurl
    obtain rfl : kept = true := hwritten.resolve_right (by simp [hurl])
    rw [heq]
    change (s.update _).status jobId = _
    rw [ApplicationStore.status, hfirst, Option.map_some, hassigned]
    rfl
  | false =>
    obtain ⟨attempt', hid, hnow, -, heq⟩ := hok hurl
    rw [heq]
    change ((s.update _).update attempt').status jobId = _
    rw [ApplicationStore.status, attempt_update hfirst (hid.trans (assign_jobId ..).symm),
      Option.map_some, hnow]

/-- A completion that is a bypass succeeds. -/
theorem completion_succeeds {url : Option Str} {kept : Bool} (clocks : Clocks)
    (h : (ServiceCall.markVerificationComplete jobId url).Bypasses env s kept) :
    (finished (s.transitionApplication env (.inProgress jobId url) clocks)).1 = .ok () := by
  have hok : ∃ attempt s', s.transitionApplication env (.inProgress jobId url) clocks =
      (.ok attempt, s') := by
    obtain ⟨hpositive, hopen, hstatus | hstatus | ⟨hnone, hposting⟩⟩ := h
    · obtain ⟨attempt, happlies, -⟩ :=
        inProgress_applies env hpositive hopen hstatus (by decide) url
      exact ⟨_, _, happlies.eq clocks⟩
    · obtain ⟨attempt, happlies, -⟩ :=
        inProgress_applies env hpositive hopen hstatus (by decide) url
      exact ⟨_, _, happlies.eq clocks⟩
    · exact inProgress_created hnone hposting url clocks
  obtain ⟨attempt, s', heq⟩ := hok
  rw [heq]
  rfl

/-- A completion that succeeds and is no bypass finds an attempt in verification. -/
theorem completion_awaits {url : Option Str} {clocks : Clocks} {kept : Bool}
    (hok : (finished (s.transitionApplication env (.inProgress jobId url) clocks)).1 = .ok ())
    (hno : ¬(ServiceCall.markVerificationComplete jobId url).Bypasses env s kept) :
    s.status jobId = some .needsVerification := by
  obtain ⟨s₁, hprepared, hrest⟩ :=
    transitionApplication_spec env (.inProgress jobId url) clocks s
  rcases hrest with ⟨e, heq⟩ | ⟨attempt, happlies, -⟩
  · rw [heq] at hok
    cases hok
  have hpositive : 0 < jobId := happlies.positive
  have hopened : s₁.isClosed jobId = false := by
    by_contra hclosed
    have hclosed : s₁.isClosed jobId = true := by simpa using hclosed
    cases happlies.opened hclosed
  rcases hprepared with rfl | ⟨job, clocks', hid, hjob, hnone, rfl⟩
  · have hfound : s₁.attempt jobId = some attempt := happlies.found
    have hstatus : s₁.status jobId = some attempt.status := by
      rw [ApplicationStore.status, hfound, Option.map_some]
    have hallowed := check_eq_ok_allowed happlies.checked
    cases hcase : attempt.status <;> rw [hcase] at hallowed hstatus <;>
      simp [ApplicationStatus.allowed, Transition.inProgress] at hallowed
    case queued => exact absurd ⟨hpositive, hopened, .inl hstatus⟩ hno
    case failed => exact absurd ⟨hpositive, hopened, .inr (.inl hstatus)⟩ hno
    exact hstatus
  · -- the attempt has just been queued
    have hclosed : s.isClosed jobId = false := hopened
    have hposting : s.Open jobId := by
      have hjob' : s.db.jobPostings.find? (·.id = jobId) = some job := hjob
      rw [ApplicationStore.isClosed, hjob'] at hclosed
      exact ⟨hpositive, by rw [hjob']; exact congrArg some hclosed⟩
    have hid' : (job.id : ℤ) = jobId := hid
    refine absurd ⟨hpositive, hclosed, .inr (.inr ⟨?_, hposting⟩)⟩ hno
    rw [ApplicationStore.status, ← hid', hnone]
    rfl

/-- A call that is no bypass stamps no completion, but for the completion of the posting's own
verification. -/
theorem call_unstamped {call : ServiceCall} {clocks : Clocks} {later : Time} {kept : Bool}
    (hno : ¬call.Bypasses env s kept)
    (hcompletes : ¬∃ url, call = .markVerificationComplete jobId url) :
    Unstamped jobId s (s.settle kept (call.run env clocks later s)) := by
  by_cases hstart : ∃ job url, call = .startApplication job url
  · obtain ⟨job, url, rfl⟩ := hstart
    exact start_unstamped hno jobId
  · refine settle_unstamped kept ((service_writes call clocks later s).unstamped ?_)
    cases call with
    | startApplication job url => exact absurd ⟨job, url, rfl⟩ hstart
    | markVerificationComplete job url =>
      have hjob : jobId ≠ job := by
        rintro rfl
        exact hcompletes ⟨url, rfl⟩
      simp [ServiceCall.kinds, hjob]
    | _ => simp [ServiceCall.kinds]

/-- **A call passes the gate** exactly when it does not bypass it. -/
theorem gated_iff (s : ApplicationStore) (call : ServiceCall) (clocks : Clocks) (later : Time)
    (kept : Bool) : Gated env s call clocks later kept ↔ ¬call.Bypasses env s kept := by
  constructor
  · intro hgated hbypass
    cases call with
    | startApplication jobId url =>
      have hends : ¬(ServiceCall.startApplication jobId url).EndsVerification jobId := by
        simp [ServiceCall.EndsVerification]
      refine hends (hgated.leaves jobId hbypass.2.1 ?_)
      refine fun hstill => ?_
      have hleft := start_leaves clocks later hbypass
      cases hstill.symm.trans hleft
    | markVerificationComplete jobId url =>
      have hawaits := hgated.completes jobId url rfl (completion_succeeds clocks hbypass)
      obtain ⟨-, -, hstatus⟩ := hbypass
      simp [hawaits] at hstatus
    | _ => exact hbypass
  · intro hno
    refine ⟨fun jobId hstatus hafter => ?_, ?_, fun jobId time h => ?_⟩
    · rcases kinds_end call jobId with hkinds | hends | ⟨url, rfl⟩
      · exact absurd (settle_awaits hstatus kept
          ((service_writes call clocks later s).awaits hstatus hkinds)) hafter
      · exact hends
      · exact absurd ((congrArg (·.status jobId) (start_awaits hstatus hno)).trans hstatus) hafter
    · rintro jobId url rfl hok
      exact completion_awaits hok hno
    · by_cases hcompletes : ∃ url, call = .markVerificationComplete jobId url
      · exact .inr hcompletes
      · exact .inl (call_unstamped hno hcompletes time h)

/-- **The verification gate** holds in a run exactly when no call of the service bypasses it. -/
theorem verification_gate_iff (env : ApplicationEnv) (cfg : Config) (S : Services) (db : Db)
    (steps : List ApplicationStep) :
    (∀ before call clocks later kept after,
      steps = before ++ .service call clocks later kept :: after →
        Gated env ((ApplicationStore.start db).run env cfg S before) call clocks later kept) ↔
      ∀ before call clocks later kept after,
        steps = before ++ .service call clocks later kept :: after →
          ¬call.Bypasses env ((ApplicationStore.start db).run env cfg S before) kept := by
  simp only [gated_iff]

/-- A start takes an attempt out of its verification, and the completion of a verification starts a
posting that has no attempt. -/
theorem verification_bypassed :
    let awaiting := (ApplicationStore.start openSample).run .plain sampleConfig .ascii
      [(ServiceCall.startApplication 1 none).at 0,
        (ServiceCall.markVerificationRequired 1 "captcha".toList [] []).at 1]
    awaiting.status 1 = some .needsVerification ∧
      ¬Gated .plain awaiting (.startApplication 1 none) ⟨2, 2⟩ 2 true ∧
      ¬Gated .plain (ApplicationStore.start openSample) (.markVerificationComplete 1 none)
        ⟨2, 2⟩ 2 true := by
  refine ⟨by decide +kernel, ?_, ?_⟩
  · rw [gated_iff, not_not]
    exact ⟨⟨by decide, by decide +kernel⟩, by decide +kernel, .inl rfl⟩
  · rw [gated_iff, not_not]
    exact ⟨by decide, by decide +kernel, .inr (.inr ⟨by decide, by decide, by decide +kernel⟩)⟩

end JobPing
