import JobPing.Lifecycle

/-!
# What a decision does to a stored job

Under the lifecycle invariant the decision on an observation fixes its candidate
(`candidate_of_ne_ambiguous`), the transition of either path (`transitionOf_decision`) and the
details it is merged into (`detailsUpdate_of_decision`), hence when it can be delivered at all
(`deliverable_iff`).
-/

namespace JobPing

variable {cfg : Config} {S : Services} {path : WritePath}

/-! ## Decisions -/

/-- What a decision says about the closed flags of a job and its observation. -/
inductive Decided (job : NormalizedJob) : Option JobRows → OccurrenceDecision → Prop
  | discover : Decided job none .discover
  | update (b : JobRows) (h : b.posting.isClosed = job.isClosed) :
    Decided job (some b) .openUpdate
  | close (b : JobRows) (h : b.posting.isClosed = false) (hc : job.isClosed = true) :
    Decided job (some b) .close
  | reopen (b : JobRows) (h : b.posting.isClosed = true) (hc : job.isClosed = false) :
    Decided job (some b) .reopen
  | repost (b : JobRows) (h : b.posting.isClosed = true) (hc : job.isClosed = false) :
    Decided job (some b) .repost
  | ambiguous (b : JobRows) (h : b.posting.isClosed = true) (hc : job.isClosed = false) :
    Decided job (some b) .ambiguousReopen

theorem decision_of_last {b : JobRows} {last : JobOccurrence}
    (hlast : b.occurrences.getLast? = some last) (job : NormalizedJob) :
    decision S (some b) job = decideOccurrence S job (job.source.getD []) (some b.posting)
      (some (last, occurrenceIdentities S last b.observations)) := by
  simp [decision, JobRows.evidence, hlast]

/-- **Every decision** on a job that satisfies the invariant is one of these. -/
theorem decided (S : Services) {base : Option JobRows} (hlife : ∀ b, base = some b → b.Lifecycle)
    (job : NormalizedJob) : Decided job base (decision S base job) := by
  cases base with
  | none => exact .discover
  | some b =>
    obtain ⟨init, last, -, hlast⟩ := (hlife b rfl).chain.exists_last
    rw [decision_of_last hlast]
    by_cases hc : job.isClosed
    · by_cases hb : b.posting.isClosed
      · rw [decide_of_closed_candidate hb hc]
        exact .update b (hb.trans hc.symm)
      · rw [decide_of_open (by simpa using hb), if_pos hc]
        exact .close b (by simpa using hb) hc
    · rw [Bool.not_eq_true] at hc
      by_cases hb : b.posting.isClosed
      · rw [decide_of_closed hb hc (((hlife b rfl).closed last hlast).trans hb)]
        split_ifs
        · exact .reopen b hb hc
        · exact .repost b hb hc
        · exact .ambiguous b hb hc
      · rw [Bool.not_eq_true] at hb
        rw [decide_of_open hb, hc]
        exact .update b (hb.trans hc.symm)

/-! ## Candidates -/

/-- Unless the observation is ambiguous, the candidate is the observation itself. -/
theorem candidate_of_ne_ambiguous {base : Option JobRows} {job : NormalizedJob}
    (h : decision S base job ≠ .ambiguousReopen) :
    candidate S base job =
      { job with occurrenceKind := if decision S base job = .repost then some .reposted else none } := by
  unfold candidate prepareCandidate
  cases hd : decision S base job <;> first | rfl | exact absurd hd h

theorem candidate_kind (base : Option JobRows) (job : NormalizedJob) :
    (candidate S base job).occurrenceKind =
      if decision S base job = .repost then some .reposted else none := by
  unfold candidate prepareCandidate
  cases hd : decision S base job <;> cases base <;> rfl

theorem candidate_isClosed {base : Option JobRows} {job : NormalizedJob}
    (h : Decided job base (decision S base job)) :
    (candidate S base job).isClosed =
      (job.isClosed || decide (decision S base job = .ambiguousReopen)) := by
  unfold candidate prepareCandidate
  cases base with
  | none =>
    cases h' : decision S none job <;> rw [h'] at h <;> cases h
    simp
  | some b => cases decision S (some b) job <;> simp

/-! ## Transitions -/

/-- Whether the observation starts a new occurrence. -/
def startsOccurrence (S : Services) (base : Option JobRows) (job : NormalizedJob) : Bool :=
  match base with
  | none => true
  | some b => decision S (some b) job = .repost &&
      b.occurrences.getLast?.all fun last => !isSameRepostOccurrence S job last

/-- **A repost starts an occurrence**: the latest one is not the same repost, as neither its identity
nor its date and URL are the observation's. -/
theorem JobRows.Lifecycle.repost_starts {b : JobRows} (hlife : b.Lifecycle) {job : NormalizedJob}
    (h : decision S (some b) job = .repost) : startsOccurrence S (some b) job = true := by
  obtain ⟨init, last, -, hlast⟩ := hlife.chain.exists_last
  simp only [startsOccurrence, h, decide_true, Bool.true_and, hlast, Option.all_some,
    Bool.not_eq_true']
  have hdecided : Decided job (some b) (decision S (some b) job) :=
    decided S (fun c hc => Option.some.inj hc ▸ hlife) job
  rw [h] at hdecided
  cases hdecided with
  | repost _ hb hc =>
    have ho := (hlife.closed last hlast).trans hb
    rw [decision_of_last hlast, decide_of_closed hb hc ho] at h
    split_ifs at h with hidentity hrepost
    by_contra hsame
    rw [Bool.not_eq_false] at hsame
    rcases same_repost_cases hsame with ⟨identity, hid, hlastid⟩ | ⟨hnone, posted, hj, hl⟩
    · -- the identity of the occurrence is among the evidence
      refine hidentity ⟨identity, hid, ?_⟩
      simp only [occurrenceIdentities, List.mem_append, Option.mem_toList]
      rcases hlastid with hlastid | hlastid
      · exact .inl (.inr hlastid)
      · exact .inl (.inl hlastid)
    · -- without identities a repost has a later date
      rw [isRepostCandidate_of_dates hb hc ho (.inl hnone)] at hrepost
      simp only [dateAndUrlProveRepost, hj, hl, Option.some_or, lt_irrefl, decide_false,
        Bool.false_and, Bool.and_false, Bool.false_eq_true] at hrepost

/-- **The transition** of either path on a stored job. -/
theorem JobRows.Lifecycle.transitionOf_decision {b : JobRows} (hlife : b.Lifecycle)
    {last : JobOccurrence} (hlast : b.occurrences.getLast? = some last) (path : WritePath)
    (job : NormalizedJob) {posting : JobPosting}
    (hp : posting.isClosed = (candidate S (some b) job).isClosed) :
    transition S path (some b.posting) posting (some last) (candidate S (some b) job) =
      match decision S (some b) job with
      | .close => .close last
      | .reopen => .reopen last
      | .repost => if startsOccurrence S (some b) job then .create .reposted (some last) true
          else .reopen last
      | _ => .keep last := by
  have hdecided : Decided job (some b) (decision S (some b) job) :=
    decided S (fun c hc => Option.some.inj hc ▸ hlife) job
  have hkind := candidate_kind (S := S) (some b) job
  have hclosed := hlife.closed last hlast
  rw [candidate_isClosed hdecided] at hp
  rw [hlife.transition_eq hlast]
  cases hd : decision S (some b) job with
  | repost =>
    rw [hd] at hdecided hkind hp
    cases hdecided with
    | repost _ hb hc =>
      have hsame : isSameRepostOccurrence S (candidate S (some b) job) last =
          isSameRepostOccurrence S job last := by
        rw [candidate_of_ne_ambiguous (by rw [hd]; simp)]
        rfl
      simp only [hc, hb] at hp hclosed
      simp only [bulkTransition, hkind, hsame, hp, hclosed, startsOccurrence, hd, hlast]
      cases hs : isSameRepostOccurrence S job last <;> simp [hs]
  | _ =>
    rw [hd] at hdecided hkind hp
    cases hdecided <;> simp_all [bulkTransition]

/-! ## Details -/

/-- The details an observation is merged into: those of the latest occurrence, or none when it
starts a new one. -/
def previousDetails (S : Services) (base : Option JobRows) (job : NormalizedJob) :
    Option JobDetails :=
  if startsOccurrence S base job then none
  else (base.bind (·.occurrences.getLast?)).bind (·.details)

/-- The latest occurrence of a job, if it is stored. -/
def latest (base : Option JobRows) : Option JobOccurrence := base.bind (·.occurrences.getLast?)

theorem upsertRows_latest (path : WritePath) (posting_id : ℕ) (reposted : Bool)
    (values : PostingValues) (base : Option JobRows) :
    (upsertRows path posting_id reposted values base).occurrences.getLast? = latest base := by
  cases base <;> rfl

theorem upsertRows_isClosed (path : WritePath) (posting_id : ℕ) (reposted : Bool)
    (values : PostingValues) (base : Option JobRows) :
    (upsertRows path posting_id reposted values base).posting.isClosed = values.isClosed := by
  cases path <;> cases base <;> rfl

/-- The occurrence a delivery leaves: closed with the posting, and with the details the observation
is merged into. -/
theorem occurrenceOf_decision {base : Option JobRows} (hlife : ∀ b, base = some b → b.Lifecycle)
    (path : WritePath) (job : NormalizedJob) (id : ℕ) {posting : JobPosting}
    (hp : posting.isClosed = (candidate S base job).isClosed) :
    let step := transition S path (base.map (·.posting)) posting (latest base)
      (candidate S base job)
    let occurrence := step.occurrence S id posting (candidate S base job)
    occurrence.closedAt.isSome = posting.isClosed ∧
      occurrence.details = previousDetails S base job := by
  cases base with
  | none =>
    have hstep : transition S path none posting none (candidate S none job) =
        .create .discovered none (!posting.isClosed) := by cases path <;> rfl
    simp only [Option.map_none, latest, Option.bind_none, hstep]
    exact ⟨newOccurrence_closed .., rfl⟩
  | some b =>
    have hb := hlife b rfl
    obtain ⟨init, last, -, hlast⟩ := hb.chain.exists_last
    have hspec := bulkTransition_spec S (some b.posting) posting last (candidate S (some b) job) id
    have hstep := hb.transitionOf_decision hlast path job hp
    rw [← hb.transition_eq hlast path] at hspec
    simp only [Option.map_some, latest, Option.bind_some, hlast]
    refine ⟨hspec.1, ?_⟩
    rw [hstep]
    simp only [previousDetails, Option.bind_some, hlast]
    cases hd : decision S (some b) job with
    | repost =>
      simp only [startsOccurrence, hd]
      split_ifs <;> rfl
    | _ => simp [OccurrenceStep.occurrence, startsOccurrence, hd]

/-- **The details** an observation leaves; an ambiguous one is not merged at all. -/
theorem detailsUpdate_of_decision {base : Option JobRows}
    (hlife : ∀ b, base = some b → b.Lifecycle) (path : WritePath) (job : NormalizedJob) (id : ℕ)
    {posting : JobPosting} (hp : posting.isClosed = (candidate S base job).isClosed) :
    let step := transition S path (base.map (·.posting)) posting (latest base)
      (candidate S base job)
    detailsUpdate (step.occurrence S id posting (candidate S base job)) job =
      if decision S base job = .ambiguousReopen then some none
      else (mergeDetails (previousDetails S base job) job.details).map some := by
  intro step
  obtain ⟨hclosed, hdetails⟩ := occurrenceOf_decision hlife path job id hp
  have hdecided := decided S hlife job
  have hskip : ((step.occurrence S id posting (candidate S base job)).closedAt.isSome &&
      !job.isClosed) = decide (decision S base job = .ambiguousReopen) := by
    rw [hclosed, hp, candidate_isClosed hdecided]
    cases hd : decision S base job with
    | ambiguousReopen =>
      rw [hd] at hdecided
      cases hdecided with
      | ambiguous b h hc => simp [hc]
    | _ => simp
  simp only [detailsUpdate, hskip, decide_eq_true_eq]
  split_ifs
  · rfl
  · rw [hdetails]

/-- **An observation can be delivered** exactly when it is ambiguous or its details can be merged. -/
theorem deliverable_iff {base : Option JobRows} (hlife : ∀ b, base = some b → b.Lifecycle)
    (job : NormalizedJob) :
    Deliverable cfg S path base job ↔ decision S base job = .ambiguousReopen ∨
      (mergeDetails (previousDetails S base job) job.details).isSome := by
  have hone : ∀ ids, (deliverJob cfg S path ids base job).isSome = true ↔
      decision S base job = .ambiguousReopen ∨
        (mergeDetails (previousDetails S base job) job.details).isSome := fun ids => by
    simp only [deliverJob, writeJob, writeEffects, Option.isSome_map, upsertRows_latest]
    rw [detailsUpdate_of_decision hlife path job ids.occurrence (by rw [upsertRows_isClosed]; rfl)]
    split_ifs with h <;> simp [h]
  exact ⟨fun h => (hone ⟨0, 0, 0⟩).mp (h _), fun h ids => (hone ids).mpr h⟩

/-! ## Deliveries -/

/-- A delivery writes the status entry of a job exactly when it changes the lifecycle. -/
theorem statusValues_eq_nil_iff {base : Option JobRows} (hlife : ∀ b, base = some b → b.Lifecycle)
    {job : NormalizedJob} {posting : JobPosting}
    (hp : posting.isClosed = (candidate S base job).isClosed) :
    statusValues posting (base.map (·.posting.isClosed)) = [] ↔
      decision S base job = .openUpdate ∨ decision S base job = .ambiguousReopen := by
  have hdecided := decided S hlife job
  rw [candidate_isClosed hdecided] at hp
  cases hd : decision S base job <;> rw [hd] at hdecided hp <;> cases hdecided <;>
    simp_all [statusValues]

/-- The posting a delivery leaves, up to its details. -/
theorem deliverJob_posting {ids : WriteIds} {base : Option JobRows} {job : NormalizedJob}
    {rows : JobRows} {state : DeduplicationState}
    (h : deliverJob cfg S path ids base job = some (rows, state)) :
    let normalized := candidate S base job
    rows.posting = { (upsertRows path ids.posting (normalized.occurrenceKind = some .reposted)
      (PostingValues.of ids.company (effectiveJob S normalized (base.map (·.posting))))
        base).posting with details := rows.posting.details } := by
  obtain ⟨details, -, rfl, -⟩ := writeEffects_eq_some h
  rfl

theorem deliverJob_isClosed {ids : WriteIds} {base : Option JobRows} {job : NormalizedJob}
    {rows : JobRows} {state : DeduplicationState}
    (h : deliverJob cfg S path ids base job = some (rows, state)) :
    rows.posting.isClosed = (candidate S base job).isClosed := by
  rw [deliverJob_posting h]
  exact upsertRows_isClosed ..

theorem deliverJob_baseHash {ids : WriteIds} {base : Option JobRows} {job : NormalizedJob}
    {rows : JobRows} {state : DeduplicationState}
    (hbase : ∀ b, base = some b → b.posting.baseHash = job.baseHash)
    (h : deliverJob cfg S path ids base job = some (rows, state)) :
    rows.posting.baseHash = job.baseHash := by
  rw [deliverJob_posting h]
  cases base with
  | none => exact candidate_baseHash (S := S) none job
  | some b => cases path <;> exact hbase b rfl

/-- The columns of the posting a delivery leaves. -/
theorem deliverJob_columns {ids : WriteIds} {base : Option JobRows} {job : NormalizedJob}
    {rows : JobRows} {state : DeduplicationState}
    (h : deliverJob cfg S path ids base job = some (rows, state)) :
    let effective := effectiveJob S (candidate S base job) (base.map (·.posting))
    rows.posting.contentHash = effective.contentHash ∧
      rows.posting.applyUrl = effective.applyUrl ∧ rows.posting.location = effective.location ∧
      rows.posting.locationSource = effective.locationSource := by
  intro effective
  rw [deliverJob_posting h]
  cases path <;> cases base <;> exact ⟨rfl, rfl, rfl, rfl⟩

/-- An occurrence without its details. -/
def JobOccurrence.withoutDetails (o : JobOccurrence) : JobOccurrence := { o with details := none }

/-- **An observation that leaves the lifecycle alone** leaves everything of its job alone but the
posting, the details and the provenance. -/
theorem deliver_quiet {ids : WriteIds} {b : JobRows} (hlife : b.Lifecycle) {job : NormalizedJob}
    (hquiet : decision S (some b) job = .openUpdate ∨ decision S (some b) job = .ambiguousReopen)
    {rows : JobRows} {state : DeduplicationState}
    (h : deliverJob cfg S path ids (some b) job = some (rows, state)) :
    rows.occurrences.map (·.withoutDetails) = b.occurrences.map (·.withoutDetails) ∧
      rows.events = b.events ∧ rows.statusLogs = b.statusLogs ∧
      state = if contentChanged path (some b.posting) rows.posting then .roleUpdated
        else .noOp := by
  obtain ⟨init, last, hinit, hlast⟩ := hlife.chain.exists_last
  have hbase : ∀ c, some b = some c → c.Lifecycle := fun c hc => Option.some.inj hc ▸ hlife
  obtain ⟨details, -, hrows, hstate⟩ := writeEffects_eq_some h
  set upserted := upsertRows path ids.posting _ _ (some b)
  have hp : upserted.posting.isClosed = (candidate S (some b) job).isClosed :=
    upsertRows_isClosed ..
  have hlast' : upserted.occurrences.getLast? = some last := hlast
  have hstep : transition S path (some b.posting) upserted.posting (some last)
      (candidate S (some b) job) = .keep last := by
    rw [hlife.transitionOf_decision hlast path job hp]
    rcases hquiet with hd | hd <;> rw [hd]
  have hsame : upserted.posting.isClosed = b.posting.isClosed := by
    have hdecided := decided S hbase job
    rw [hp, candidate_isClosed hdecided]
    rcases hquiet with hd | hd <;> rw [hd] at hdecided ⊢ <;> cases hdecided <;> simp_all
  have hwas : previouslyClosed path (some b.posting) (some last) = some b.posting.isClosed := by
    cases path <;> simp [previouslyClosed, hlife.closed last hlast]
  have hcreated : created path (some b.posting) (some last) = false := by cases path <;> rfl
  have hlog : pathStatusValues path upserted.posting (some b.posting.isClosed) = [] := by
    cases path <;> simp [pathStatusValues, statusValues, hsame]
  simp only [Option.map_some, hlast', hstep, hwas, hcreated, hlog, hsame,
    OccurrenceStep.occurrence, OccurrenceStep.place, OccurrenceStep.eventRows,
    OccurrenceStep.createdRepost, List.append_nil, ite_self] at hrows hstate
  have hocc : upserted.occurrences = init ++ [last] := hinit
  subst hrows
  refine ⟨?_, rfl, rfl, ?_⟩
  · rw [hocc, hinit]
    simp [JobOccurrence.withoutDetails]
  · rw [hstate]
    cases path <;> cases b.posting.isClosed <;> simp [stateForPersistence, contentChanged]

end JobPing
