import JobPing.IngestedRows
import JobPing.Interleaving

/-!
# Leases of evidence checks

Workers, requests and ingestion transactions act on the store in any order (`EvidenceWorld.step`).
Each of them keeps the lease of a check with its target, drops it, or issues a new one
(`LeaseStep`). So a lease belongs to the claim that was handed out with its token (`LeaseBook`), and
a token that is not the lease of its check never is again.
-/

namespace JobPing

variable (S : Services) (E : EvidenceEnv) (cfg : Config)

/-! ## The system -/

/-- The store, the claims that were handed out, and the transactions of `EvidenceWorker.process`
that have loaded their occurrence, or the posting as well. -/
structure EvidenceWorld where
  store : EvidenceStore
  claims : List EvidenceClaim
  started : List EvidenceSession
  sessions : List EvidenceSession

/-- No check, no worker. -/
def EvidenceWorld.empty : EvidenceWorld := ⟨⟨.empty, [], []⟩, [], [], []⟩

inductive EvidenceAction
  | ingest (row : IngestedRow) (now : Time)
  /-- A request, or `backfill`, for rows that may have been loaded at any time. -/
  | enqueue (job : JobPosting) (occurrence : JobOccurrence) (request : EnqueueRequest)
  /-- `uuid4` gives a new token. -/
  | claim (locked : ℕ → Bool) (now : Time) (token : Str)
  | start (claim : EvidenceClaim)
  | load (session : EvidenceSession)
  | finish (session : EvidenceSession) (documents : List Document) (now : Time)
      (error : Option Str)
  | giveUp (session : EvidenceSession)

/-- The store after a transaction: an exception leaves it as it was. -/
def EvidenceStore.commit (w : EvidenceStore) (result : Except RepositoryError EvidenceStore) :
    EvidenceStore :=
  match result with
  | .ok w => w
  | .error _ => w

namespace EvidenceWorld

/-- A step, if its party can take it. -/
def step (action : EvidenceAction) (w : EvidenceWorld) : Option EvidenceWorld :=
  match action with
  | .ingest row now => some { w with store := w.store.commit (w.store.ingest S E cfg row now) }
  | .enqueue job occurrence request =>
    some { w with store := w.store.enqueue S E job occurrence request }
  | .claim locked now token =>
    if w.claims.any (·.token = token) then none
    else
      let claimed := w.store.claim locked now token
      some { w with
        store := claimed.1
        claims := w.claims ++ claimed.2.toList }
  | .start claim =>
    if claim ∈ w.claims then
      some { w with
        started := ⟨claim, w.store.db.occurrenceById claim.occurrenceId, none⟩ :: w.started }
    else none
  | .load session =>
    if session ∈ w.started then
      let job := session.occurrence.bind fun occurrence =>
        w.store.db.postingById occurrence.jobId
      some { w with
        started := w.started.erase session
        sessions := { session with job := job } :: w.sessions }
    else none
  | .finish session documents now error =>
    if session ∈ w.sessions then
      some { w with
        store := w.store.commit ((w.store.finish S E session documents now error).map (·.1))
        sessions := w.sessions.erase session }
    else none
  | .giveUp session =>
    some { w with
      started := w.started.erase session
      sessions := w.sessions.erase session }

/-- The state after a sequence of steps from no check and no worker. -/
def run (actions : List EvidenceAction) : Option EvidenceWorld :=
  Interleaving.run (step S E cfg) .empty actions

end EvidenceWorld

variable {S E cfg}

/-! ## What happens to a check -/

/-- The lease columns say the same as the status. -/
def EvidenceRow.Sound (check : EvidenceRow) : Prop :=
  check.status = .running ↔ check.leaseToken.isSome ∧ check.leaseUntil.isSome

/-- What may happen to the lease of a check: it is kept with its target, dropped, or issued. -/
inductive LeaseStep (issued : Option EvidenceClaim) (check check' : EvidenceRow) : Prop
  | kept (status : check'.status = check.status) (token : check'.leaseToken = check.leaseToken)
      (until_ : check'.leaseUntil = check.leaseUntil) (target : check'.target = check.target)
  | dropped (status : check'.status ≠ .running) (token : check'.leaseToken = none)
  | issued (token : Str) (claim : issued = some ⟨check.occurrenceId, token, check.target⟩)
      (status : check'.status = .running) (leaseToken : check'.leaseToken = some token)
      (until_ : check'.leaseUntil.isSome) (target : check'.target = check.target)

theorem LeaseStep.sound {issued : Option EvidenceClaim} {check check' : EvidenceRow}
    (h : LeaseStep issued check check') (hsound : check.Sound) : check'.Sound := by
  unfold EvidenceRow.Sound at *
  cases h with
  | kept hstatus htoken huntil => rw [hstatus, htoken, huntil, hsound]
  | dropped hstatus htoken => simp [hstatus, htoken]
  | issued token _ hstatus htoken huntil => simp [hstatus, htoken, huntil]

/-- The columns that a result publishes. -/
def EvidenceRow.published (check : EvidenceRow) : Option Projection × Option Time :=
  (check.projection, check.verifiedAt)

/-- Whether a result changes what is published of its check. -/
def EvidenceRow.publishes (check : EvidenceRow) (documents : List Document) (error : Option Str) :
    Bool :=
  !documents.isEmpty &&
    (check.projection.isNone || !truthy error && documents.all (·.complete))

namespace EvidenceRow

/-- **A locked row of `enqueue`** keeps what is published; its lease is dropped, or the target is
the one that was asked for. -/
theorem enqueued_spec (check : EvidenceRow) (target : Target) (request : EnqueueRequest) :
    let check' := check.enqueued E target request
    check'.occurrenceId = check.occurrenceId ∧ check'.published = check.published ∧
      LeaseStep none check check' ∧ (check'.leaseToken = none ∨ check.target = target) := by
  have hobserved : (check.observed E request).occurrenceId = check.occurrenceId ∧
      (check.observed E request).published = check.published ∧
      (check.observed E request).status = check.status ∧
      (check.observed E request).leaseToken = check.leaseToken ∧
      (check.observed E request).leaseUntil = check.leaseUntil ∧
      (check.observed E request).target = check.target := by
    unfold observed
    split <;> exact ⟨rfl, rfl, rfl, rfl, rfl, rfl⟩
  obtain ⟨hid, hpublished, hstatus, htoken, huntil, htarget⟩ := hobserved
  intro check'
  simp only [check', enqueued]
  split_ifs with hrequeue
  · exact ⟨hid, hpublished, .dropped (by simp [requeued]) rfl, .inl rfl⟩
  · refine ⟨hid, hpublished, .kept hstatus htoken huntil htarget, .inr ?_⟩
    simp only [Bool.or_eq_true, decide_eq_true_eq, not_or, not_not] at hrequeue
    exact hrequeue.1.1

/-- An incomplete result leaves an earlier projection in place. -/
theorem incomplete_published (check : EvidenceRow) (now : Time) (error : Option Str)
    {stated : Bool} (data : Projection) (ids : List ℕ)
    (h : (check.projection.isNone && stated) = false) :
    (check.incomplete now error stated data ids).published = check.published := by
  simp only [published, incomplete, h, Bool.false_eq_true, if_false]

end EvidenceRow

namespace EvidenceStore

variable {w w' : EvidenceStore}

theorem check_updateCheck (w : EvidenceStore) (id k : ℕ) {f : EvidenceRow → EvidenceRow}
    (hid : ∀ check, (f check).occurrenceId = check.occurrenceId) :
    (w.updateCheck id f).check k = if k = id then (w.check k).map f else w.check k := by
  unfold updateCheck check
  induction w.checks with
  | nil => simp
  | cons row rows ih =>
    simp only [List.map_cons, List.find?_cons]
    by_cases hrow : row.occurrenceId = id
    · by_cases hk : id = k
      · simp [hrow, hk, hid]
      · simp only [hrow, hid, hk, decide_false, if_true]
        exact ih
    · simp only [hrow, if_false]
      by_cases hk : row.occurrenceId = k
      · have hne : ¬k = id := fun h => hrow (hk.trans h)
        simp [hk, hne]
      · simp only [hk, decide_false]
        exact ih

theorem check_eq_some_id {k : ℕ} {check : EvidenceRow} (h : w.check k = some check) :
    check.occurrenceId = k := by
  simpa using List.find?_some h

/-- What is published of an occurrence. -/
def published (w : EvidenceStore) (id : ℕ) : Option Projection × Option Time :=
  ((w.check id).map EvidenceRow.published).getD (none, none)

/-- The details of a posting. -/
def details (w : EvidenceStore) (jobId : ℕ) : Option JobDetails :=
  (w.db.postingById jobId).bind (·.details)

/-- What an operation does to the leases. -/
structure Leased (issued : Option EvidenceClaim) (w w' : EvidenceStore) : Prop where
  keys : (w.checks.map (·.occurrenceId)).Nodup → (w'.checks.map (·.occurrenceId)).Nodup
  row : ∀ k check', w'.check k = some check' →
    (∃ check, w.check k = some check ∧ LeaseStep issued check check') ∨
    w.check k = none ∧ check'.status ≠ .running ∧ check'.leaseToken = none

theorem Leased.refl (issued : Option EvidenceClaim) (w : EvidenceStore) : w.Leased issued w where
  keys h := h
  row _ check h := .inl ⟨check, h, .kept rfl rfl rfl rfl⟩

/-- Other tables do not matter. -/
theorem Leased.of_checks {issued : Option EvidenceClaim} {w'' : EvidenceStore}
    (h : w.Leased issued w') (hchecks : w''.checks = w'.checks) : w.Leased issued w'' := by
  have hcheck : w''.check = w'.check := by
    funext k
    rw [check, check, hchecks]
  exact ⟨hchecks ▸ h.keys, hcheck ▸ h.row⟩

theorem published_of_checks {w'' : EvidenceStore} (hchecks : w''.checks = w'.checks) (k : ℕ) :
    w''.published k = w'.published k := by
  rw [published, published, check, check, hchecks]

/-- Updating the rows of one occurrence keeps the keys. -/
theorem updateCheck_keys (w : EvidenceStore) (id : ℕ) {f : EvidenceRow → EvidenceRow}
    (hid : ∀ check, (f check).occurrenceId = check.occurrenceId) :
    (w.updateCheck id f).checks.map (·.occurrenceId) = w.checks.map (·.occurrenceId) := by
  rw [updateCheck, List.map_map]
  refine List.map_congr_left fun check _ => ?_
  simp only [Function.comp_apply]
  split_ifs
  · exact hid check
  · rfl

/-- One row changes as `LeaseStep` says. -/
theorem updateCheck_leased (w : EvidenceStore) (id : ℕ) {f : EvidenceRow → EvidenceRow}
    (hid : ∀ check, (f check).occurrenceId = check.occurrenceId) {issued : Option EvidenceClaim}
    (hstep : ∀ check, w.check id = some check → LeaseStep issued check (f check)) :
    w.Leased issued (w.updateCheck id f) where
  keys h := by rwa [updateCheck_keys w id hid]
  row k check' hcheck := by
    rw [check_updateCheck w id k hid] at hcheck
    split_ifs at hcheck with hk
    · obtain ⟨found, hfound, rfl⟩ := Option.map_eq_some_iff.mp hcheck
      exact .inl ⟨found, hfound, hstep found (hk ▸ hfound)⟩
    · exact .inl ⟨check', hcheck, .kept rfl rfl rfl rfl⟩

/-! ## `enqueue` -/

/-- The checks after `enqueue`. -/
theorem check_enqueue (w : EvidenceStore) {job : JobPosting} {occurrence : JobOccurrence}
    (hjob : job.isClosed = false) (hoccurrence : occurrence.closedAt = none)
    (request : EnqueueRequest) (k : ℕ) :
    let target := targetFor S (E.companyName job.companyId) job occurrence
    (w.enqueue S E job occurrence request).check k =
      if k = occurrence.id then
        some (((w.check k).getD (.inserted occurrence.id target request.now)).enqueued E target
          request)
      else w.check k := by
  intro target
  have hid : ∀ check : EvidenceRow,
      (check.enqueued E target request).occurrenceId = check.occurrenceId := fun check =>
    (check.enqueued_spec target request).1
  have hopen : (job.isClosed || occurrence.closedAt.isSome) = false := by simp [hjob, hoccurrence]
  rw [enqueue, hopen, if_neg Bool.false_ne_true]
  simp only
  rw [check_updateCheck _ _ _ hid]
  by_cases hany : w.checks.any (·.occurrenceId = occurrence.id)
  · rw [if_pos hany]
    split_ifs with hk
    · obtain ⟨row, hrow, hrow_id⟩ := List.any_eq_true.mp hany
      have hsome : (w.check k).isSome := by
        rw [check, List.find?_isSome]
        exact ⟨row, hrow, by simpa [hk] using hrow_id⟩
      obtain ⟨found, hfound⟩ := Option.isSome_iff_exists.mp hsome
      rw [hfound]
      rfl
    · rfl
  · rw [if_neg hany]
    simp only [Bool.not_eq_true, List.any_eq_false, decide_eq_true_eq] at hany
    have hrows : ({ w with checks := w.checks ++
        [EvidenceRow.inserted occurrence.id target request.now] } : EvidenceStore).check k =
          (w.check k).or (if k = occurrence.id then
            some (.inserted occurrence.id target request.now) else none) := by
      rw [check, check, List.find?_append]
      congr 1
      by_cases hk : k = occurrence.id
      · simp [EvidenceRow.inserted, hk]
      · simp [EvidenceRow.inserted, hk, Ne.symm hk]
    rw [hrows]
    split_ifs with hk
    · have hnone : w.check k = none := by
        rw [check, List.find?_eq_none]
        exact fun row hrow => by simpa [hk] using hany row hrow
      rw [hnone]
      rfl
    · rw [Option.or_none]

theorem enqueue_keys (w : EvidenceStore) (job : JobPosting) (occurrence : JobOccurrence)
    (request : EnqueueRequest) (hkeys : (w.checks.map (·.occurrenceId)).Nodup) :
    ((w.enqueue S E job occurrence request).checks.map (·.occurrenceId)).Nodup := by
  have hid : ∀ target (check : EvidenceRow),
      (check.enqueued E target request).occurrenceId = check.occurrenceId := fun target check =>
    (check.enqueued_spec target request).1
  unfold enqueue
  split_ifs with hclosed hany
  · exact hkeys
  · rwa [updateCheck_keys _ _ (hid _)]
  · rw [updateCheck_keys _ _ (hid _), List.map_append, List.nodup_append]
    refine ⟨hkeys, by simp, fun id hmem id' hmem' => ?_⟩
    obtain ⟨check, hcheck, rfl⟩ := List.mem_map.mp hmem
    obtain rfl : id' = occurrence.id := by simpa [EvidenceRow.inserted] using hmem'
    simp only [Bool.not_eq_true, List.any_eq_false, decide_eq_true_eq] at hany
    exact hany check hcheck

/-- A closed posting, or a closed occurrence, is not queued. -/
theorem enqueue_closed (w : EvidenceStore) {job : JobPosting} {occurrence : JobOccurrence}
    (request : EnqueueRequest) (hclosed : ¬(job.isClosed = false ∧ occurrence.closedAt = none)) :
    w.enqueue S E job occurrence request = w := by
  rw [enqueue, if_pos]
  rw [not_and_or] at hclosed
  rcases hclosed with h | h
  · simp [h]
  · simp [Option.isSome_iff_ne_none, h]

theorem enqueue_leased (w : EvidenceStore) (job : JobPosting) (occurrence : JobOccurrence)
    (request : EnqueueRequest) : w.Leased none (w.enqueue S E job occurrence request) := by
  by_cases hopen : job.isClosed = false ∧ occurrence.closedAt = none
  · refine ⟨enqueue_keys w job occurrence request, fun k check' hcheck => ?_⟩
    rw [check_enqueue w hopen.1 hopen.2] at hcheck
    split_ifs at hcheck with hk
    · obtain rfl := Option.some.inj hcheck
      set target := targetFor S (E.companyName job.companyId) job occurrence
      cases hfound : w.check k with
      | some check =>
        exact .inl ⟨check, rfl, (check.enqueued_spec target request).2.2.1⟩
      | none =>
        refine .inr ⟨rfl, ?_⟩
        obtain ⟨-, -, hlease, -⟩ := (EvidenceRow.inserted occurrence.id target
          request.now).enqueued_spec (E := E) target request
        cases hlease with
        | kept hstatus htoken => exact ⟨hstatus.trans_ne CheckStatus.noConfusion, htoken⟩
        | dropped hstatus htoken => exact ⟨hstatus, htoken⟩
        | issued _ hnone => cases hnone
    · exact .inl ⟨check', hcheck, .kept rfl rfl rfl rfl⟩
  · rw [enqueue_closed w request hopen]
    exact .refl none w

theorem enqueue_published (w : EvidenceStore) (job : JobPosting) (occurrence : JobOccurrence)
    (request : EnqueueRequest) (k : ℕ) :
    (w.enqueue S E job occurrence request).published k = w.published k := by
  by_cases hopen : job.isClosed = false ∧ occurrence.closedAt = none
  · rw [published, published, check_enqueue w hopen.1 hopen.2]
    split_ifs with hk
    · simp only [Option.map_some, Option.getD_some]
      rw [(EvidenceRow.enqueued_spec ..).2.1]
      cases w.check k <;> rfl
    · rfl
  · rw [enqueue_closed w request hopen]

/-- After `enqueue` a lease is one for the target that was asked for. -/
theorem enqueue_target (w : EvidenceStore) {job : JobPosting} {occurrence : JobOccurrence}
    (hjob : job.isClosed = false) (hoccurrence : occurrence.closedAt = none)
    {request : EnqueueRequest} {check' : EvidenceRow} {token : Str}
    (hcheck : (w.enqueue S E job occurrence request).check occurrence.id = some check')
    (htoken : check'.leaseToken = some token) :
    check'.target = targetFor S (E.companyName job.companyId) job occurrence := by
  rw [check_enqueue w hjob hoccurrence, if_pos rfl] at hcheck
  obtain rfl := Option.some.inj hcheck
  set target := targetFor S (E.companyName job.companyId) job occurrence
  set check := (w.check occurrence.id).getD (.inserted occurrence.id target request.now)
  obtain ⟨-, -, hlease, hdone⟩ := check.enqueued_spec (E := E) target request
  rcases hdone with hnone | hsame
  · rw [hnone] at htoken
    cases htoken
  · cases hlease with
    | kept _ _ _ htarget => rw [htarget, hsame]
    | dropped _ hnone =>
      rw [hnone] at htoken
      cases htoken
    | issued _ hnone => cases hnone

theorem ingest_leased (hwf : w.db.WF) {row : IngestedRow} {now : Time}
    (h : w.ingest S E cfg row now = .ok w') :
    w.Leased none w' ∧ ∀ k, w'.published k = w.published k := by
  obtain ⟨posting, occurrence, -, hchecks⟩ := ingest_spec hwf h
  split_ifs at hchecks
  · exact ⟨(enqueue_leased w posting occurrence (row.request now)).of_checks hchecks, fun k =>
      (published_of_checks hchecks k).trans (enqueue_published w posting occurrence _ k)⟩
  · exact ⟨(Leased.refl none w).of_checks hchecks, published_of_checks hchecks⟩

/-! ## `claim` -/

/-- **A claim** is issued for the target of a check, or the store stays as it is. -/
theorem claim_spec (w : EvidenceStore) (locked : ℕ → Bool) (now : Time) (token : Str)
    (hkeys : (w.checks.map (·.occurrenceId)).Nodup) :
    let claimed := w.claim locked now token
    claimed.1.db = w.db ∧ w.Leased claimed.2 claimed.1 ∧
      (∀ k, claimed.1.published k = w.published k) ∧ ∀ claim ∈ claimed.2, claim.token = token := by
  set rows := (w.checks.filter fun check =>
    check.eligible now && !locked check.occurrenceId).insertionSort fun a b =>
      a.requestedAt < b.requestedAt ||
        a.requestedAt = b.requestedAt && a.occurrenceId ≤ b.occurrenceId with hrows
  intro claimed
  simp only [claimed, EvidenceStore.claim]
  rw [← hrows]
  cases hhead : rows.head? with
  | none => exact ⟨rfl, .refl none w, fun _ => rfl, by simp⟩
  | some row =>
    have hmem : row ∈ w.checks := by
      have := List.mem_of_head? hhead
      rw [hrows, List.mem_insertionSort] at this
      exact List.mem_of_mem_filter this
    have hfound : w.check row.occurrenceId = some row := Table.find?_key hkeys hmem
    have hid : ∀ check : EvidenceRow,
        (check.leased token now).occurrenceId = check.occurrenceId := fun _ => rfl
    have hlease : w.Leased (some ⟨row.occurrenceId, token, row.target⟩)
        (w.updateCheck row.occurrenceId (·.leased token now)) := by
      refine updateCheck_leased w row.occurrenceId hid fun check hcheck => ?_
      obtain rfl := Option.some.inj (hfound.symm.trans hcheck)
      exact .issued token rfl rfl rfl rfl rfl
    refine ⟨rfl, hlease, fun k => ?_, ?_⟩
    · rw [published, published]
      dsimp only
      rw [check_updateCheck w row.occurrenceId k hid]
      split_ifs
      · cases w.check k <;> rfl
      · rfl
    · intro claim hsome
      obtain rfl := Option.some.inj hsome
      rfl

/-! ## `finish` -/

/-- The rows that `finish` has in hand: those it loads under their locks, and that the lease is
current. -/
structure Holds (w : EvidenceStore) (session : EvidenceSession) (now : Time)
    (occurrence : JobOccurrence) (row : JobPosting) (check : EvidenceRow) : Prop where
  loaded : session.occurrence = some occurrence
  locked_row : w.db.postingById occurrence.jobId = some row
  locked_check : w.check session.claim.occurrenceId = some check
  token : check.leaseToken = some session.claim.token
  status : check.status = .running
  until_ : check.leaseUntil.any (now < ·) = true

/-- **What `finish` does**: nothing, the end of the lease, or a publication. -/
theorem finish_cases {session : EvidenceSession} {documents : List Document} {now : Time}
    {error : Option Str} {saved : Bool}
    (h : w.finish S E session documents now error = .ok (w', saved)) :
    w' = w ∨ w' = w.updateCheck session.claim.occurrenceId (·.blocked now) ∨
      ∃ occurrence row check, w.Holds session now occurrence row check ∧
        w.targetCurrent S E session row (session.job.getD row) occurrence check = true ∧
        w' = w.publish S E session (session.job.getD row) documents now error := by
  unfold finish at h
  cases hoccurrence : session.occurrence with
  | none =>
    simp only [hoccurrence, Except.ok.injEq, Prod.mk.injEq] at h
    exact .inl h.1.symm
  | some occurrence =>
    simp only [hoccurrence] at h
    cases hrow : w.db.postingById occurrence.jobId with
    | none =>
      simp only [hrow, Except.ok.injEq, Prod.mk.injEq] at h
      exact .inl h.1.symm
    | some row =>
      cases hcheck : w.check session.claim.occurrenceId with
      | none =>
        simp only [hrow, hcheck, Except.ok.injEq, Prod.mk.injEq] at h
        exact .inl h.1.symm
      | some check =>
        simp only [hrow, hcheck] at h
        split_ifs at h with hlost htarget hdocuments
        · cases h
          exact .inl rfl
        · cases h
          exact .inr (.inl rfl)
        · cases h
          simp only [ne_eq, Bool.or_eq_true, decide_eq_true_eq, Bool.not_eq_true', not_or,
            Bool.not_eq_false, not_not] at hlost htarget
          exact .inr (.inr ⟨occurrence, row, check,
            ⟨hoccurrence, hrow, hcheck, hlost.1.1, hlost.1.2, hlost.2⟩, htarget, rfl⟩)

/-- The details of the other postings stay as they are. -/
theorem setDetails_other (w : EvidenceStore) {jobId k : ℕ} (occurrenceId : ℕ)
    (newDetails : JobDetails) (hk : k ≠ jobId) :
    (w.setDetails jobId occurrenceId newDetails).details k = w.details k := by
  have hrows : ∀ rows : List JobPosting,
      (rows.map fun job => if job.id = jobId then { job with details := some newDetails }
        else job).find? (·.id = k) = rows.find? (·.id = k) := by
    intro rows
    induction rows with
    | nil => rfl
    | cons job rows ih =>
      rw [List.map_cons, List.find?_cons, List.find?_cons, ih]
      by_cases hjob : job.id = jobId
      · simp [hjob, Ne.symm hk]
      · simp [hjob]
  exact congrArg (Option.bind · JobPosting.details) (hrows w.db.jobPostings)

/-- **A publication** ends the lease of the check. What is published, and the details of the posting,
change only with a result that publishes. -/
theorem publish_spec (w : EvidenceStore) (session : EvidenceSession) (job : JobPosting)
    (documents : List Document) (now : Time) (error : Option Str) :
    ∃ f : EvidenceRow → EvidenceRow,
      (∀ check, (f check).occurrenceId = check.occurrenceId ∧ (f check).status ≠ .running ∧
        (f check).leaseToken = none) ∧
      (w.publish S E session job documents now error).checks =
        (w.updateCheck session.claim.occurrenceId f).checks ∧
      w.db.SameBare (w.publish S E session job documents now error).db ∧
      (∀ check, (f check).published ≠ check.published → check.publishes documents error = true) ∧
      ∀ k, (w.publish S E session job documents now error).details k ≠ w.details k →
        k = job.id ∧ ∀ check : EvidenceRow, check.publishes documents error = true := by
  set ids := (documents.foldl (storeDocument E session.claim.occurrenceId) (w.documents, [])).2
  set data := projection E.rules S.text (reconcile (extracted E.rules documents))
    session.claim.target.location
  by_cases hincomplete : truthy error || documents.isEmpty || !documents.all (·.complete)
  · refine ⟨fun check => check.incomplete now error (!documents.isEmpty) data ids,
      fun check => ⟨rfl, ?_, rfl⟩, ?_, ?_, fun check hne => ?_, fun k hne => ?_⟩
    · simp only [EvidenceRow.incomplete]
      split_ifs <;> exact CheckStatus.noConfusion
    · rw [publish, if_pos hincomplete]
      rfl
    · rw [publish, if_pos hincomplete]
      exact .refl _
    · -- the first documents of a check are published even if they are incomplete
      by_cases hfirst : check.projection.isNone && !documents.isEmpty
      · rw [Bool.and_eq_true] at hfirst
        rw [EvidenceRow.publishes, hfirst.1, hfirst.2]
        rfl
      · exact absurd (check.incomplete_published now error data ids (by simpa using hfirst)) hne
    · have hsame : (w.publish S E session job documents now error).details k = w.details k := by
        rw [publish, if_pos hincomplete]
        rfl
      exact absurd hsame hne
  · have hcomplete : documents.isEmpty = false ∧ truthy error = false ∧
        documents.all (·.complete) = true := by
      simp only [Bool.or_eq_true, not_or, Bool.not_eq_true, Bool.not_eq_false'] at hincomplete
      exact ⟨hincomplete.1.2, hincomplete.1.1, hincomplete.2⟩
    have hpublishes : ∀ check : EvidenceRow, check.publishes documents error = true := fun check => by
      rw [EvidenceRow.publishes, hcomplete.1, hcomplete.2.1, hcomplete.2.2]
      simp
    refine ⟨fun check => check.completed now data ids,
      fun check => ⟨rfl, CheckStatus.noConfusion, rfl⟩, ?_, ?_, fun check _ => hpublishes check,
      fun k hne => ⟨?_, hpublishes⟩⟩
    · rw [publish, if_neg hincomplete]
      simp only
      split_ifs <;> rfl
    · rw [publish, if_neg hincomplete]
      simp only
      split_ifs
      · refine ⟨rfl, ?_, ?_⟩
        · simp only [setDetails, updateCheck, List.map_map]
          refine List.map_congr_left fun posting _ => ?_
          simp only [Function.comp_apply]
          split_ifs <;> rfl
        · simp only [setDetails, updateCheck, List.map_map]
          refine List.map_congr_left fun occurrence _ => ?_
          simp only [Function.comp_apply]
          split_ifs <;> rfl
      · exact .refl _
    · by_contra hk
      refine hne ?_
      rw [publish, if_neg hincomplete]
      simp only
      split_ifs
      · exact setDetails_other _ _ _ hk
      · rfl

theorem finish_leased {session : EvidenceSession} {documents : List Document} {now : Time}
    {error : Option Str} {saved : Bool}
    (h : w.finish S E session documents now error = .ok (w', saved)) :
    w.Leased none w' ∧ w.db.SameBare w'.db ∧
      ∀ k, k ≠ session.claim.occurrenceId → w'.published k = w.published k := by
  have hupdate : ∀ f : EvidenceRow → EvidenceRow, (∀ check, (f check).occurrenceId =
      check.occurrenceId ∧ (f check).status ≠ .running ∧ (f check).leaseToken = none) →
      w.Leased none (w.updateCheck session.claim.occurrenceId f) ∧
        ∀ k, k ≠ session.claim.occurrenceId →
          (w.updateCheck session.claim.occurrenceId f).published k = w.published k := by
    intro f hf
    refine ⟨updateCheck_leased w _ (fun check => (hf check).1) fun check _ =>
      .dropped (hf check).2.1 (hf check).2.2, fun k hk => ?_⟩
    rw [published, published, check_updateCheck w _ k fun check => (hf check).1, if_neg hk]
  rcases finish_cases h with rfl | rfl | ⟨_, row, _, -, -, rfl⟩
  · exact ⟨.refl none w', .refl _, fun _ _ => rfl⟩
  · obtain ⟨hlease, hpublished⟩ := hupdate (·.blocked now) fun check =>
      ⟨rfl, CheckStatus.noConfusion, rfl⟩
    exact ⟨hlease, .refl _, hpublished⟩
  · obtain ⟨f, hf, hchecks, hdb, -⟩ := publish_spec (S := S) (E := E) w session
      (session.job.getD row) documents now error
    obtain ⟨hlease, hpublished⟩ := hupdate f hf
    exact ⟨hlease.of_checks hchecks, hdb, fun k hk =>
      (published_of_checks hchecks k).trans (hpublished k hk)⟩

end EvidenceStore

end JobPing
