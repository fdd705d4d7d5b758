import JobPing.ApplicationLifecycle

/-!
# Checkpoint stages

The table `stage_statuses` is checked when a caller sets a stage. Every transition writes a stage of
its new status, but for the one into `IN_PROGRESS`: out of `FAILED` it keeps the stage `failed`, and
only `start_application` writes a stage after it (`stages_allowed_iff`).
-/

namespace JobPing

open ApplicationStore

variable {env : ApplicationEnv} {cfg : Config} {S : Services}

/-- The stage of an attempt is null, or one the table allows for its status. -/
def ApplicationAttempt.StageAllowed (attempt : ApplicationAttempt) : Prop :=
  ∀ stage, attempt.checkpointStage = some stage → attempt.status ∈ stage.stageStatuses

instance : DecidablePred ApplicationAttempt.StageAllowed := fun attempt =>
  decidable_of_iff (attempt.checkpointStage.all (attempt.status ∈ ·.stageStatuses) = true) <| by
    simp [ApplicationAttempt.StageAllowed, Option.all_eq_true]

/-- Every stage fits its status. -/
def ApplicationStore.StagesAllowed (s : ApplicationStore) : Prop :=
  ∀ attempt ∈ s.applicationAttempts, attempt.StageAllowed

instance : DecidablePred ApplicationStore.StagesAllowed := fun s =>
  inferInstanceAs (Decidable (∀ attempt ∈ s.applicationAttempts, attempt.StageAllowed))

/-- Every failed attempt is at the stage `failed`. -/
def ApplicationStore.FailedStages (s : ApplicationStore) : Prop :=
  ∀ attempt ∈ s.applicationAttempts,
    attempt.status = .failed → attempt.checkpointStage = some .failed

/-- A failed attempt whose posting is open. -/
def ApplicationStore.FailedOpen (s : ApplicationStore) (jobId : ℤ) : Prop :=
  0 < jobId ∧ s.isClosed jobId = false ∧ (s.attempt jobId).map (·.status) = some .failed

/-- The step puts a failed attempt in progress and writes no stage: the completion of a verification,
a bare transition, or a start whose blank URL raises after the transition, when that is kept. -/
def ApplicationStep.Revives (env : ApplicationEnv) (s : ApplicationStore) : ApplicationStep → Prop
  | service (.markVerificationComplete jobId _) _ _ _ => s.FailedOpen jobId
  | service (.startApplication jobId url) _ _ kept =>
    s.FailedOpen jobId ∧ (s.db.jobPostings.find? (·.id = jobId)).isSome = true ∧
      kept = true ∧ url.any (env.strip · = []) = true
  | repository (.transitionApplication request) _ _ =>
    s.FailedOpen request.jobId ∧ request.newStatus = .inProgress ∧
      request.check env .failed = .ok ()
  | _ => False

variable {s s' : ApplicationStore} {kinds : List WriteKind} {kind : WriteKind} {jobId : ℤ}
  {attempt : ApplicationAttempt} {request : Transition}

/-! ## Writes -/

theorem mem_of_attempt (h : s.attempt jobId = some attempt) : attempt ∈ s.applicationAttempts :=
  List.mem_of_find?_eq_some h

theorem mem_update {row : ApplicationAttempt}
    (h : row ∈ (s.update attempt).applicationAttempts) :
    row = attempt ∨ row ∈ s.applicationAttempts ∧ row.jobId ≠ attempt.jobId := by
  obtain ⟨old, hold, rfl⟩ := List.mem_map.mp h
  split_ifs with hid
  · exact .inl rfl
  · exact .inr ⟨hold, hid⟩

/-- Every allowed transition but the one out of `FAILED` leaves a stage of its new status. -/
theorem assign_stage (now : Time) (h : attempt.StageAllowed)
    (hallowed : request.newStatus ∈ attempt.status.allowed)
    (hnew : request.newStatus = .inProgress → attempt.status ≠ .failed) :
    (request.assign env now attempt).StageAllowed := by
  intro stage hstage
  have hold := h stage
  rw [assign_status]
  revert hstage hold
  cases hstatus : attempt.status <;> cases hstatus' : request.newStatus <;>
    simp only [hstatus, hstatus', ApplicationStatus.allowed, List.mem_cons, List.not_mem_nil,
      reduceCtorEq, or_false, or_self] at hallowed hnew <;>
    simp only [Transition.assign, Transition.entered, Transition.restarted, Transition.verified,
      hstatus, hstatus', List.mem_cons, List.not_mem_nil, reduceCtorEq, or_false, or_true, or_self,
      and_true, and_false, if_true, if_false] <;>
    intro hstage hold
  -- into `IN_PROGRESS` the stage stays, elsewhere it is written
  case queued.inProgress => exact absurd (hold hstage) (by cases stage <;> decide)
  case needsVerification.inProgress =>
    have := hold hstage
    revert this
    cases stage <;> decide
  case failed.inProgress => exact absurd rfl (hnew trivial)
  all_goals
    obtain rfl := Option.some.inj hstage
    decide

theorem AttemptWrite.stages (h : s.StagesAllowed) (hwrite : AttemptWrite env s kind s')
    (hkind : ∀ jobId, kind ≠ .transition jobId .inProgress) : s'.StagesAllowed := by
  cases hwrite with
  | create job clocks hnone =>
    intro row hrow
    rcases List.mem_append.mp hrow with hrow | hrow
    · exact h row hrow
    · obtain rfl := List.mem_singleton.mp hrow
      intro stage hstage
      cases hstage
  | transition request now attempt hattempt hallowed =>
    intro row hrow
    rcases mem_update hrow with rfl | ⟨hrow, -⟩
    · refine assign_stage now (h attempt (mem_of_attempt hattempt)) hallowed fun hnew => ?_
      exact absurd (congrArg _ hnew) (hkind attempt.jobId)
    · exact h row hrow
  | checkpoint url stage now attempt hattempt hactive hstage =>
    intro row hrow
    rcases mem_update hrow with rfl | ⟨hrow, -⟩
    · intro stage' hstage'
      cases stage with
      | none => exact h attempt (mem_of_attempt hattempt) stage' hstage'
      | some written =>
        obtain rfl : written = stage' := Option.some.inj hstage'
        exact hstage written rfl
    · exact h row hrow
  | reset now attempt hattempt hstatus =>
    intro row hrow
    rcases mem_update hrow with rfl | ⟨hrow, -⟩
    · intro stage hstage
      cases hstage
    · exact h row hrow
  | answer record => exact h

theorem Writes.stages (h : s.StagesAllowed) (hwrites : Writes env kinds s s')
    (hkinds : ∀ jobId, .transition jobId .inProgress ∉ kinds) : s'.StagesAllowed := by
  induction hwrites with
  | refl => exact h
  | tail _ hwrite ih =>
    obtain ⟨kind, hkind, hwrite⟩ := hwrite
    exact hwrite.stages ih fun jobId heq => hkinds jobId (heq ▸ hkind)

theorem assign_failed (now : Time) (hnew : request.newStatus = .failed) :
    (request.assign env now attempt).checkpointStage = some .failed := by
  unfold Transition.assign Transition.entered
  rw [hnew]

theorem AttemptWrite.failed_stages (h : s.FailedStages) (hwrite : AttemptWrite env s kind s') :
    s'.FailedStages := by
  cases hwrite with
  | create job clocks hnone =>
    intro row hrow hstatus
    rcases List.mem_append.mp hrow with hrow | hrow
    · exact h row hrow hstatus
    · obtain rfl := List.mem_singleton.mp hrow
      cases hstatus
  | transition request now attempt hattempt hallowed =>
    intro row hrow hstatus
    rcases mem_update hrow with rfl | ⟨hrow, -⟩
    · rw [assign_status] at hstatus
      exact assign_failed now hstatus
    · exact h row hrow hstatus
  | checkpoint url stage now attempt hattempt hactive hstage =>
    intro row hrow hstatus
    rcases mem_update hrow with rfl | ⟨hrow, -⟩
    · change attempt.status = .failed at hstatus
      rw [hstatus] at hactive
      simp [activeStatuses] at hactive
    · exact h row hrow hstatus
  | reset now attempt hattempt hne =>
    intro row hrow hstatus
    rcases mem_update hrow with rfl | ⟨hrow, -⟩
    · cases hstatus
    · exact h row hrow hstatus
  | answer record => exact h

theorem Writes.failed_stages (h : s.FailedStages) (hwrites : Writes env kinds s s') :
    s'.FailedStages := by
  induction hwrites with
  | refl => exact h
  | tail _ hwrite ih =>
    obtain ⟨kind, -, hwrite⟩ := hwrite
    exact hwrite.failed_stages ih

/-! ## Transitions into `IN_PROGRESS` -/

theorem stages_of_prepared (env : ApplicationEnv) (h : s.StagesAllowed) {s₁ : ApplicationStore}
    (hprepared : s.Prepared jobId s₁) : s₁.StagesAllowed := by
  rcases hprepared with rfl | ⟨job, clocks, -, -, hnone, rfl⟩
  · exact h
  · have hwrite : AttemptWrite env s .create (s.create job clocks) := .create job clocks hnone
    exact hwrite.stages h (by simp)

/-- A failed attempt that a transition finds was there before it. -/
theorem failed_open_of_applies {s₁ : ApplicationStore} (hprepared : s.Prepared request.jobId s₁)
    (happlies : request.Applies env s₁ attempt) (hnew : request.newStatus = .inProgress)
    (hstatus : attempt.status = .failed) : s.FailedOpen request.jobId := by
  rcases hprepared with rfl | ⟨job, clocks, hid, -, hnone, rfl⟩
  · refine ⟨happlies.positive, ?_, ?_⟩
    · by_contra hclosed
      have hfailed := happlies.opened (by simpa using hclosed)
      rw [hnew] at hfailed
      cases hfailed
    · rw [happlies.found, Option.map_some, hstatus]
  · have hfound := happlies.found
    rw [← hid, attempt_create hnone] at hfound
    obtain rfl := Option.some.inj hfound
    cases hstatus

variable (env request) in
theorem transition_stages (h : s.StagesAllowed) (clocks : Clocks)
    (hno : request.newStatus = .inProgress → request.check env .failed = .ok () →
      ¬s.FailedOpen request.jobId) :
    (s.transitionApplication env request clocks).2.StagesAllowed := by
  obtain ⟨s₁, hprepared, hrest⟩ := transitionApplication_spec env request clocks s
  have h₁ := stages_of_prepared env h hprepared
  rcases hrest with ⟨e, heq⟩ | ⟨attempt, happlies, heq⟩
  · rw [heq]
    exact h₁
  · rw [heq]
    intro row hrow
    rcases mem_update hrow with rfl | ⟨hrow, -⟩
    · refine assign_stage _ (h₁ attempt (mem_of_attempt happlies.found))
        (check_eq_ok_allowed happlies.checked) fun hnew hstatus => ?_
      exact hno hnew (hstatus ▸ happlies.checked)
        (failed_open_of_applies hprepared happlies hnew hstatus)
    · exact h₁ row hrow

/-- A bare transition of a failed attempt of an open posting. -/
theorem FailedOpen.applies (h : s.FailedOpen request.jobId)
    (hchecked : request.check env .failed = .ok ()) :
    ∃ attempt, request.Applies env s attempt ∧ attempt.status = .failed := by
  obtain ⟨hpositive, hclosed, hfound⟩ := h
  obtain ⟨attempt, hattempt, hstatus⟩ := Option.map_eq_some_iff.mp hfound
  exact ⟨attempt, ⟨hpositive, hattempt, by simp [hclosed], hstatus ▸ hchecked⟩, hstatus⟩

variable (env) in
/-- A transition without texts passes the checks on them. -/
theorem check_bare (jobId : ℤ) (url : Option Str) {previousStatus : ApplicationStatus}
    (h : .inProgress ∈ previousStatus.allowed) :
    Transition.check env (.inProgress jobId url) previousStatus = .ok () := by
  simp [Transition.check, Transition.inProgress, h, ApplicationEnv.hasCode,
    ApplicationEnv.containsVerificationSecret, pure, Except.pure]

/-- The stage a failed attempt keeps does not fit `IN_PROGRESS`. -/
theorem revived_stage (hfailed : s.FailedStages) (happlies : request.Applies env s attempt)
    (hstatus : attempt.status = .failed) (hnew : request.newStatus = .inProgress) (now : Time) :
    ¬(s.update (request.assign env now attempt)).StagesAllowed := by
  intro h
  have hattempt := mem_of_attempt happlies.found
  have hmem : request.assign env now attempt ∈
      (s.update (request.assign env now attempt)).applicationAttempts :=
    List.mem_map.mpr ⟨attempt, hattempt, if_pos (assign_jobId env ..).symm⟩
  have hstage : (request.assign env now attempt).checkpointStage = some .failed := by
    rw [← hfailed attempt hattempt hstatus]
    simp [Transition.assign, Transition.entered, Transition.restarted, hstatus, hnew]
  have hbad := h _ hmem .failed hstage
  rw [assign_status, hnew] at hbad
  revert hbad
  decide

/-! ## Steps and runs -/

theorem settle_stages (h : s.StagesAllowed) (kept : Bool)
    {result : Except Str Unit × ApplicationStore} (hresult : result.2.StagesAllowed) :
    (s.settle kept result).StagesAllowed := by
  obtain ⟨outcome, s'⟩ := result
  cases outcome with
  | ok => exact hresult
  | error e =>
    cases kept with
    | false => exact h
    | true => exact hresult

theorem settle_failed_stages (h : s.FailedStages) (kept : Bool)
    {result : Except Str Unit × ApplicationStore} (hresult : result.2.FailedStages) :
    (s.settle kept result).FailedStages := by
  obtain ⟨outcome, s'⟩ := result
  cases outcome with
  | ok => exact hresult
  | error e =>
    cases kept with
    | false => exact h
    | true => exact hresult

theorem ApplicationStep.failed_stages (h : s.FailedStages) (step : ApplicationStep) :
    (step.exec env cfg S s).FailedStages := by
  cases step with
  | service call clocks later kept =>
    exact settle_failed_stages h kept ((service_writes call clocks later s).failed_stages h)
  | repository call clocks kept =>
    exact settle_failed_stages h kept ((repository_writes call clocks s).failed_stages h)
  | ingest call => exact h

/-- A start keeps the stages unless it revives a failed attempt without a stage. -/
theorem start_stages (h : s.StagesAllowed) (url : Option Str) (clocks : Clocks) (later : Time)
    (kept : Bool)
    (hno : ¬ApplicationStep.Revives env s (.service (.startApplication jobId url) clocks later
      kept)) :
    (s.settle kept (finished (startApplication env jobId url clocks later s))).StagesAllowed := by
  by_cases hopen : s.FailedOpen jobId
  · cases hjob : s.db.jobPostings.find? (·.id = jobId) with
    | none =>
      -- the posting is not found
      refine settle_stages h kept ?_
      unfold startApplication
      rw [getJobById, if_neg (by have := hopen.1; omega), hjob]
      exact h
    | some job =>
      obtain ⟨attempt, happlies, -⟩ := FailedOpen.applies (by exact hopen)
        (check_bare env jobId url (by decide))
      obtain ⟨herror, hok⟩ := start_of_applies later clocks hjob happlies
      cases hurl : url.any (env.strip · = []) with
      | true =>
        obtain ⟨e, heq⟩ := herror hurl
        cases kept with
        | false =>
          rw [heq]
          exact h
        | true => exact absurd ⟨hopen, by simp [hjob], rfl, hurl⟩ hno
      | false =>
        obtain ⟨attempt', hid, hstatus, hstage, heq⟩ := hok hurl
        rw [heq]
        intro row hrow
        rcases mem_update hrow with rfl | ⟨hrow, hother⟩
        · intro stage hopened
          rw [hstage] at hopened
          obtain rfl := Option.some.inj hopened
          rw [hstatus]
          decide
        · rcases mem_update hrow with rfl | ⟨hrow, -⟩
          · exact absurd ((assign_jobId ..).trans hid.symm) hother
          · exact h row hrow
  · refine settle_stages h kept ?_
    change (startApplication env jobId url clocks later s).2.StagesAllowed
    unfold startApplication
    split
    · exact h
    · exact h
    · split_ifs
      · exact h
      · have htransition := transition_stages env (.inProgress jobId url) h clocks
          fun _ _ => hopen
        split
        next heq =>
          rw [heq] at htransition
          exact htransition
        next heq =>
          rw [heq] at htransition
          exact (checkpoint_writes ..).stages htransition (by simp)

/-- **A step keeps the stages** exactly when it does not put a failed attempt in progress without
writing a stage. -/
theorem step_stages_iff (hfailed : s.FailedStages) (h : s.StagesAllowed) (step : ApplicationStep) :
    (step.exec env cfg S s).StagesAllowed ↔ ¬step.Revives env s := by
  refine ⟨fun hafter hrevives => ?_, fun hno => ?_⟩
  · cases step with
    | service call clocks later kept =>
      cases call with
      | markVerificationComplete jobId url =>
        obtain ⟨attempt, happlies, hstatus⟩ :=
          FailedOpen.applies (by exact hrevives) (check_bare env jobId url (by decide))
        refine revived_stage hfailed happlies hstatus rfl clocks.now ?_
        change (s.settle kept (finished (s.transitionApplication env _ clocks))).StagesAllowed
          at hafter
        rw [happlies.eq clocks] at hafter
        exact hafter
      | startApplication jobId url =>
        obtain ⟨hopen, hjob, rfl, hurl⟩ := hrevives
        obtain ⟨job, hjob⟩ := Option.isSome_iff_exists.mp hjob
        obtain ⟨attempt, happlies, hstatus⟩ :=
          FailedOpen.applies (by exact hopen) (check_bare env jobId url (by decide))
        obtain ⟨e, heq⟩ := (start_of_applies later clocks hjob happlies).1 hurl
        refine revived_stage hfailed happlies hstatus rfl clocks.now ?_
        change (s.settle true (finished (startApplication env jobId url clocks later s))).StagesAllowed
          at hafter
        rw [heq] at hafter
        exact hafter
      | _ => exact hrevives
    | repository call clocks kept =>
      cases call with
      | transitionApplication request =>
        obtain ⟨hopen, hnew, hchecked⟩ := hrevives
        obtain ⟨attempt, happlies, hstatus⟩ := FailedOpen.applies hopen hchecked
        refine revived_stage hfailed happlies hstatus hnew clocks.now ?_
        change (s.settle kept (finished (s.transitionApplication env _ clocks))).StagesAllowed
          at hafter
        rw [happlies.eq clocks] at hafter
        exact hafter
      | _ => exact hrevives
    | ingest call => exact hrevives
  · cases step with
    | service call clocks later kept =>
      cases call with
      | startApplication jobId url => exact start_stages h url clocks later kept hno
      | markVerificationComplete jobId url =>
        exact settle_stages h kept (transition_stages env _ h clocks fun _ _ => hno)
      | _ =>
        exact settle_stages h kept
          ((service_writes _ clocks later s).stages h (by simp [ServiceCall.kinds]))
    | repository call clocks kept =>
      cases call with
      | transitionApplication request =>
        refine settle_stages h kept (transition_stages env _ h clocks fun hnew hchecked hopen => ?_)
        exact hno ⟨hopen, hnew, hchecked⟩
      | _ =>
        exact settle_stages h kept
          ((repository_writes _ clocks s).stages h (by simp [RepositoryCall.kinds]))
    | ingest call => exact h

theorem run_failed_stages (h : s.FailedStages) (steps : List ApplicationStep) :
    (s.run env cfg S steps).FailedStages := by
  induction steps generalizing s with
  | nil => exact h
  | cons step steps ih => exact ih (step.failed_stages h)

theorem run_append (s : ApplicationStore) (before after : List ApplicationStep) :
    s.run env cfg S (before ++ after) = (s.run env cfg S before).run env cfg S after :=
  List.foldl_append

/-- **The stage of every attempt fits its status** in every state of a run, exactly when no step puts
a failed attempt in progress without writing a stage. -/
theorem stages_allowed_iff (env : ApplicationEnv) (cfg : Config) (S : Services) (db : Db)
    (steps : List ApplicationStep) :
    (∀ n, ((ApplicationStore.start db).run env cfg S (steps.take n)).StagesAllowed) ↔
      ∀ before step after, steps = before ++ step :: after →
        ¬step.Revives env ((ApplicationStore.start db).run env cfg S before) := by
  have hstart : (ApplicationStore.start db).FailedStages := by simp [FailedStages, start]
  have hstep (before : List ApplicationStep) (step : ApplicationStep)
      (h : ((ApplicationStore.start db).run env cfg S before).StagesAllowed) :
      ((ApplicationStore.start db).run env cfg S (before ++ [step])).StagesAllowed ↔
        ¬step.Revives env ((ApplicationStore.start db).run env cfg S before) := by
    rw [run_append]
    exact step_stages_iff (run_failed_stages hstart before) h step
  constructor
  · rintro hall before step after rfl
    rw [← hstep]
    · have hnext := hall (before ++ [step]).length
      rwa [List.append_cons before step after, List.take_left] at hnext
    · simpa using hall before.length
  · intro hno n
    have hprefix (before after : List ApplicationStep) (heq : steps = before ++ after) :
        ((ApplicationStore.start db).run env cfg S before).StagesAllowed := by
      induction before using List.reverseRecOn generalizing after with
      | nil => simp [StagesAllowed, start, ApplicationStore.run]
      | append_singleton before step ih =>
        have heq' : steps = before ++ step :: after := by simpa using heq
        exact (hstep before step (ih _ heq')).mpr (hno before step after heq')
    exact hprefix _ (steps.drop n) (List.take_append_drop n steps).symm

/-- A failed application is put in progress by the completion of a verification, and stays at the
stage `failed`. -/
theorem failed_stage_kept :
    let s := (ApplicationStore.start openSample).run .plain sampleConfig .ascii
      [(ServiceCall.markFailed 1 "browser_error".toList none none).at 0,
        (ServiceCall.markVerificationComplete 1 none).at 1]
    s.applicationAttempts.map (fun attempt => (attempt.status, attempt.checkpointStage)) =
      [(.inProgress, some .failed)] ∧ ¬s.StagesAllowed := by
  decide +kernel

end JobPing
