import JobPing.EvidenceLeases
import JobPing.SourceIdentity

/-!
# Evidence fencing

A result is published under the current lease of its check, on the latest occurrence, for the
target of the check. That the posting is still open, and still has this target, is looked up in the
rows that `process` has loaded before it waits for the lock of the posting. An edit that commits in
between takes the lease away, since ingestion queues the new target (`Settled`); a closing does not
(`closed_posting_published`). Runs in which no result is finished after such a closing are fenced
(`evidence_fencing`).
-/

namespace JobPing

variable {S : Services} {E : EvidenceEnv} {cfg : Config}

namespace EvidenceStore

/-- The lease of its check is that of the claim. -/
def holding (w : EvidenceStore) (claim : EvidenceClaim) : Prop :=
  ∃ check, w.check claim.occurrenceId = some check ∧ check.leaseToken = some claim.token

/-! ## The book of the leases -/

/-- The leases are those of the claims that were handed out. -/
structure LeaseBook (w : EvidenceStore) (claims : List EvidenceClaim) : Prop where
  keys : (w.checks.map (·.occurrenceId)).Nodup
  sound : ∀ k check, w.check k = some check → check.Sound
  issued : ∀ k check token, w.check k = some check → check.leaseToken = some token →
    ⟨k, token, check.target⟩ ∈ claims
  tokens : (claims.map (·.token)).Nodup

/-- The claims that an operation hands out have new tokens. -/
def Fresh (claims : List EvidenceClaim) (issued : Option EvidenceClaim) : Prop :=
  ∀ claim ∈ issued, claim.token ∉ claims.map (·.token)

namespace LeaseBook

variable {w w' : EvidenceStore} {claims : List EvidenceClaim} {issued : Option EvidenceClaim}

theorem empty : LeaseBook ⟨.empty, [], []⟩ [] where
  keys := List.nodup_nil
  sound k check h := by cases h
  issued k check token h := by cases h
  tokens := List.nodup_nil

theorem step (hbook : w.LeaseBook claims) (hlease : w.Leased issued w')
    (hfresh : Fresh claims issued) : w'.LeaseBook (claims ++ issued.toList) where
  keys := hlease.keys hbook.keys
  sound k check' hcheck := by
    rcases hlease.row k check' hcheck with ⟨check, hfound, hstep⟩ | ⟨-, hstatus, htoken⟩
    · exact hstep.sound (hbook.sound k check hfound)
    · simp [EvidenceRow.Sound, hstatus, htoken]
  issued k check' token hcheck htoken := by
    rw [List.mem_append]
    rcases hlease.row k check' hcheck with ⟨check, hfound, hstep⟩ | ⟨-, -, hnone⟩
    · cases hstep with
      | kept _ hkept _ htarget =>
        exact .inl (htarget ▸ hbook.issued k check token hfound (hkept ▸ htoken))
      | dropped _ hnone =>
        rw [hnone] at htoken
        cases htoken
      | issued token' hclaim _ htoken' _ htarget =>
        obtain rfl := Option.some.inj (htoken'.symm.trans htoken)
        refine .inr ?_
        rw [hclaim, htarget, ← check_eq_some_id hfound]
        exact List.mem_singleton_self _
    · rw [hnone] at htoken
      cases htoken
  tokens := by
    rw [List.map_append, List.nodup_append]
    refine ⟨hbook.tokens, ?_, fun token hmem token' hmem' heq => ?_⟩
    · cases issued <;> simp
    · obtain ⟨claim, hclaim, rfl⟩ := List.mem_map.mp hmem'
      exact hfresh claim (Option.mem_toList.mp hclaim) (heq ▸ hmem)

/-- The lease of a claim is for its target. -/
theorem holding_target (hbook : w.LeaseBook claims) {claim : EvidenceClaim} (hclaim : claim ∈ claims)
    {check : EvidenceRow} (hcheck : w.check claim.occurrenceId = some check)
    (htoken : check.leaseToken = some claim.token) : check.target = claim.target := by
  have hissued := hbook.issued _ check _ hcheck htoken
  have heq := List.inj_on_of_nodup_map hbook.tokens hissued hclaim rfl
  exact congrArg EvidenceClaim.target heq

/-- **A claim that has lost its lease** does not get it back. -/
theorem holding_of_step (hlease : w.Leased issued w')
    (hfresh : Fresh claims issued) {claim : EvidenceClaim} (hclaim : claim ∈ claims)
    (h : w'.holding claim) : w.holding claim := by
  obtain ⟨check', hcheck', htoken⟩ := h
  rcases hlease.row _ check' hcheck' with ⟨check, hcheck, hstep⟩ | ⟨-, -, hnone⟩
  · cases hstep with
    | kept _ hkept => exact ⟨check, hcheck, hkept ▸ htoken⟩
    | dropped _ hnone =>
      rw [hnone] at htoken
      cases htoken
    | issued token hissued _ htoken' =>
      obtain rfl := Option.some.inj (htoken'.symm.trans htoken)
      have hnew := hfresh _ hissued
      exact absurd (List.mem_map_of_mem hclaim) hnew
  · rw [hnone] at htoken
    cases htoken

end LeaseBook

/-! ## Loaded rows -/

variable (S E) in
/-- If the rows that a session has loaded have its target, so have the committed ones, unless they
are closed. -/
def Settled (w : EvidenceStore) (session : EvidenceSession) : Prop :=
  ∀ occurrence current row, session.occurrence = some occurrence →
    w.db.occurrenceById session.claim.occurrenceId = some current →
    w.db.postingById occurrence.jobId = some row → w.holding session.claim →
    session.claim.target =
      targetFor S (E.companyName row.companyId) (session.job.getD row) occurrence →
    (w.db.latestOccurrence occurrence.jobId).map (·.id) = some session.claim.occurrenceId →
    row.isClosed = false → current.closedAt = none →
    session.claim.target = targetFor S (E.companyName row.companyId) row current

/-- The occurrence that a session has loaded is the one of its claim. -/
structure Loaded (w : EvidenceStore) (session : EvidenceSession) : Prop where
  occurrence : ∀ occurrence, session.occurrence = some occurrence →
    ∃ current, w.db.occurrenceById session.claim.occurrenceId = some current ∧
      occurrence.SameSource current
  job : ∀ occurrence job, session.occurrence = some occurrence → session.job = some job →
    job.id = occurrence.jobId

/-- The rows of a job that are the same up to their details. -/
structure SameJob (db db' : Db) (jobId : ℕ) : Prop where
  posting : (db'.postingById jobId).map JobPosting.bare =
    (db.postingById jobId).map JobPosting.bare
  latest : (db'.latestOccurrence jobId).map JobOccurrence.bare =
    (db.latestOccurrence jobId).map JobOccurrence.bare
  occurrence : ∀ id o, db.occurrenceById id = some o → o.jobId = jobId →
    ∃ o', db'.occurrenceById id = some o' ∧ o'.bare = o.bare

theorem SameJob.of_sameBare {db db' : Db} (h : db.SameBare db') (jobId : ℕ) :
    SameJob db db' jobId where
  posting := h.postingById jobId
  latest := h.latestOccurrence jobId
  occurrence id o ho _ := by
    have hbare := h.occurrenceById id
    rw [ho] at hbare
    obtain ⟨o', ho', heq⟩ := Option.map_eq_some_iff.mp hbare
    exact ⟨o', ho', heq⟩

variable {w w' : EvidenceStore} {session : EvidenceSession}

/-- A step that leaves the rows of the job alone. -/
theorem Settled.of_sameJob (h : w.Settled S E session) (hloaded : w.Loaded session)
    (hsame : ∀ occurrence, session.occurrence = some occurrence →
      SameJob w.db w'.db occurrence.jobId)
    (hholding : w'.holding session.claim → w.holding session.claim) : w'.Settled S E session := by
  intro occurrence current row hoccurrence hcurrent hrow hheld htarget hlatest hopen hstill
  have hjob := hsame occurrence hoccurrence
  obtain ⟨current₀, hcurrent₀, hsource⟩ := hloaded.occurrence occurrence hoccurrence
  obtain ⟨current', hcurrent', hbare⟩ := hjob.occurrence _ _ hcurrent₀ hsource.jobId
  obtain rfl := Option.some.inj (hcurrent'.symm.trans hcurrent)
  obtain ⟨row₀, hrow₀, hrow_bare⟩ : ∃ row₀, w.db.postingById occurrence.jobId = some row₀ ∧
      row₀.bare = row.bare := by
    have := hjob.posting
    rw [hrow, Option.map_some] at this
    exact Option.map_eq_some_iff.mp this.symm
  obtain ⟨-, hcompany, hclosed⟩ := JobPosting.columns_of_bare hrow_bare
  have htarget₀ := h occurrence current₀ row₀ hoccurrence hcurrent₀ hrow₀ (hholding hheld) ?_ ?_
    (hclosed.trans hopen) ((JobOccurrence.closedAt_of_bare hbare).symm.trans hstill)
  · rw [htarget₀, hcompany, targetFor_bare hrow_bare]
    exact (JobOccurrence.SameSource.of_bare hbare).targetFor _ _ |>.symm
  · rw [htarget, hcompany]
    cases session.job with
    | none => exact (targetFor_bare hrow_bare occurrence).symm
    | some job => rfl
  · have := congrArg (Option.map JobOccurrence.id) hjob.latest
    rw [Option.map_map, Option.map_map] at this
    exact this.symm.trans hlatest

/-- **An ingestion** that leaves the lease in place has written the same target, or a closed
posting. -/
theorem Settled.ingest (hqueue : cfg.evidenceWorkerEnabled = true) (hwf : w.db.WF)
    {claims : List EvidenceClaim} (hbook : w'.LeaseBook claims) (hclaim : session.claim ∈ claims)
    (h : w.Settled S E session) (hloaded : w.Loaded session)
    (hholding : w'.holding session.claim → w.holding session.claim) {row : IngestedRow} {now : Time}
    (hingest : w.ingest S E cfg row now = .ok w') : w'.Settled S E session := by
  obtain ⟨posting, written, hdb, hchecks⟩ := ingest_spec hwf hingest
  rw [if_pos hqueue] at hchecks
  intro occurrence current row' hoccurrence hcurrent hrow hheld htarget hlatest hopen hstill
  by_cases hjob : occurrence.jobId = posting.id
  · -- the posting is the one that was written, and its latest occurrence is the one of the claim
    obtain rfl : posting = row' := by
      rw [hjob, hdb.stored] at hrow
      exact Option.some.inj hrow
    obtain ⟨last, hlast, hlast_bare⟩ := Option.map_eq_some_iff.mp hdb.latest
    rw [hjob, hlast] at hlatest
    have hlast_id : last.id = session.claim.occurrenceId := Option.some.inj hlatest
    obtain rfl : last = current := by
      have := (Db.occurrenceById_eq_some hdb.wf).mpr
        ⟨(Db.latestOccurrence_mem hlast).1, hlast_id⟩
      exact Option.some.inj (this.symm.trans hcurrent)
    have hwritten_id : written.id = session.claim.occurrenceId :=
      (JobOccurrence.SameSource.of_bare hlast_bare).id.symm.trans hlast_id
    have hwritten_open : written.closedAt = none :=
      (JobOccurrence.closedAt_of_bare hlast_bare).symm.trans hstill
    obtain ⟨check, hcheck, htoken⟩ := hheld
    have hqueued : (w.enqueue S E posting written (row.request now)).check written.id =
        some check := by
      rw [EvidenceStore.check, ← hchecks, hwritten_id]
      exact hcheck
    rw [← hbook.holding_target hclaim hcheck htoken,
      enqueue_target w hopen hwritten_open hqueued htoken]
    exact ((JobOccurrence.SameSource.of_bare hlast_bare).targetFor _ _).symm
  · refine h.of_sameJob hloaded (fun o ho => ?_) hholding occurrence current row' hoccurrence
      hcurrent hrow hheld htarget hlatest hopen hstill
    obtain rfl := Option.some.inj (ho.symm.trans hoccurrence)
    obtain ⟨hposting, hlatest'⟩ := hdb.others _ hjob
    refine ⟨hposting, hlatest', fun id o' ho' hjob' => ?_⟩
    obtain ⟨o'', ho'', -, hbare⟩ := hdb.occurrences id o' ho'
    exact ⟨o'', ho'', hbare (hjob' ▸ hjob)⟩

end EvidenceStore

/-! ## The invariant -/

namespace EvidenceWorld

/-- **The invariant** of the runs. -/
structure Inv (S : Services) (E : EvidenceEnv) (cfg : Config) (w : EvidenceWorld) : Prop where
  wf : w.store.db.WF
  book : w.store.LeaseBook w.claims
  claims : ∀ session ∈ w.started ++ w.sessions, session.claim ∈ w.claims
  loaded : ∀ session ∈ w.started ++ w.sessions, w.store.Loaded session
  settled : cfg.evidenceWorkerEnabled = true → ∀ session ∈ w.sessions,
    w.store.Settled S E session

/-- What a step does to the store: an ingestion, or an operation that keeps all but the details of
the postings and their occurrences. -/
structure StoreStep (S : Services) (E : EvidenceEnv) (cfg : Config) (w w' : EvidenceWorld)
    (issued : Option EvidenceClaim) : Prop where
  leased : w.store.Leased issued w'.store
  fresh : EvidenceStore.Fresh w.claims issued
  claims : w'.claims = w.claims ++ issued.toList
  tables : w.store.db.SameBare w'.store.db ∨
    ∃ row now, w.store.ingest S E cfg row now = .ok w'.store

theorem StoreStep.refl (w w' : EvidenceWorld) (hstore : w'.store = w.store)
    (hclaims : w'.claims = w.claims) : StoreStep S E cfg w w' none where
  leased := hstore ▸ .refl none w.store
  fresh claim h := by cases h
  claims := by rw [hclaims, Option.toList_none, List.append_nil]
  tables := .inl (hstore ▸ .refl _)

variable {w w' : EvidenceWorld} {action : EvidenceAction} {issued : Option EvidenceClaim}

theorem StoreStep.wf (h : StoreStep S E cfg w w' issued) (hwf : w.store.db.WF) :
    w'.store.db.WF := by
  rcases h.tables with hbare | ⟨row, now, hingest⟩
  · exact hbare.wf hwf
  · obtain ⟨_, _, hdb, -⟩ := EvidenceStore.ingest_spec hwf hingest
    exact hdb.wf

/-- The sessions of the earlier state, after a step of the store. -/
theorem StoreStep.loaded (h : StoreStep S E cfg w w' issued) (hwf : w.store.db.WF)
    {session : EvidenceSession} (hloaded : w.store.Loaded session) : w'.store.Loaded session where
  job := hloaded.job
  occurrence o ho := by
    obtain ⟨current, hcurrent, hsource⟩ := hloaded.occurrence o ho
    rcases h.tables with hbare | ⟨row, now, hingest⟩
    · obtain ⟨current', hcurrent', heq⟩ :=
        (EvidenceStore.SameJob.of_sameBare hbare current.jobId).occurrence _ _ hcurrent rfl
      exact ⟨current', hcurrent', hsource.trans (.of_bare heq)⟩
    · obtain ⟨_, _, hdb, -⟩ := EvidenceStore.ingest_spec hwf hingest
      obtain ⟨current', hcurrent', hsame, -⟩ := hdb.occurrences _ _ hcurrent
      exact ⟨current', hcurrent', hsource.trans hsame⟩

theorem StoreStep.settled (h : StoreStep S E cfg w w' issued) (hinv : w.Inv S E cfg)
    (hqueue : cfg.evidenceWorkerEnabled = true) {session : EvidenceSession}
    (hsession : session ∈ w.sessions) : w'.store.Settled S E session := by
  have hmem := List.mem_append_right w.started hsession
  have hclaim := hinv.claims session hmem
  have hheld := EvidenceStore.LeaseBook.holding_of_step h.leased h.fresh hclaim
  have hsettled := hinv.settled hqueue session hsession
  rcases h.tables with hbare | ⟨row, now, hingest⟩
  · exact hsettled.of_sameJob (hinv.loaded session hmem)
      (fun o _ => .of_sameBare hbare o.jobId) hheld
  · have hbook := hinv.book.step h.leased h.fresh
    exact hsettled.ingest hqueue hinv.wf hbook (List.mem_append_left _ hclaim)
      (hinv.loaded session hmem) hheld hingest

/-- **What a step can do** to the store and to what is published. -/
theorem step_store (hwf : w.store.db.WF) (hkeys : (w.store.checks.map (·.occurrenceId)).Nodup)
    (h : step S E cfg action w = some w') :
    ∃ issued, StoreStep S E cfg w w' issued ∧
      ((∀ session documents now error, action ≠ .finish session documents now error) →
        ∀ k, w'.store.published k = w.store.published k) := by
  cases action with
  | ingest row now =>
    cases h
    cases hingest : w.store.ingest S E cfg row now with
    | error e => exact ⟨none, .refl w _ rfl (by rfl), fun _ _ => rfl⟩
    | ok store =>
      obtain ⟨hlease, hpublished⟩ := EvidenceStore.ingest_leased hwf hingest
      exact ⟨none, ⟨hlease, by simp [EvidenceStore.Fresh], by simp, .inr ⟨row, now, hingest⟩⟩,
        fun _ => hpublished⟩
  | enqueue job occurrence request =>
    cases h
    refine ⟨none, ⟨EvidenceStore.enqueue_leased .., by simp [EvidenceStore.Fresh], by simp,
      .inl ?_⟩, fun _ => EvidenceStore.enqueue_published w.store job occurrence request⟩
    simp only [EvidenceStore.enqueue_db]
    exact .refl _
  | claim locked now token =>
    simp only [step] at h
    split_ifs at h with hused
    cases h
    obtain ⟨hdb, hlease, hpublished, htoken⟩ :=
      EvidenceStore.claim_spec w.store locked now token hkeys
    refine ⟨(w.store.claim locked now token).2, ⟨hlease, fun claim hclaim hmem => ?_, rfl,
      .inl (hdb ▸ .refl _)⟩, fun _ => hpublished⟩
    rw [htoken claim hclaim] at hmem
    obtain ⟨other, hother, heq⟩ := List.mem_map.mp hmem
    exact hused (List.any_eq_true.mpr ⟨other, hother, by simpa using heq⟩)
  | start claim =>
    simp only [step] at h
    split_ifs at h
    cases h
    exact ⟨none, .refl w _ rfl rfl, fun _ _ => rfl⟩
  | load session =>
    simp only [step] at h
    split_ifs at h
    cases h
    exact ⟨none, .refl w _ rfl rfl, fun _ _ => rfl⟩
  | finish session documents now error =>
    simp only [step] at h
    split_ifs at h
    cases h
    refine ⟨none, ?_, fun hne => absurd rfl (hne session documents now error)⟩
    cases hfinish : w.store.finish S E session documents now error with
    | error e => exact .refl w _ rfl rfl
    | ok result =>
      obtain ⟨hlease, hbare, -⟩ := @EvidenceStore.finish_leased _ _ _ _ _ _ _ _ result.2 hfinish
      exact ⟨hlease, by simp [EvidenceStore.Fresh], by simp, .inl hbare⟩
  | giveUp session =>
    cases h
    exact ⟨none, .refl w _ rfl rfl, fun _ _ => rfl⟩

/-- Where the sessions of a step come from: they were there, have loaded their occurrence, or now
their posting as well. -/
theorem step_sessions (h : step S E cfg action w = some w') :
    (∀ session ∈ w'.started, session ∈ w.started ∨ w'.store = w.store ∧
      session.claim ∈ w.claims ∧ session.job = none ∧
      session.occurrence = w.store.db.occurrenceById session.claim.occurrenceId) ∧
    ∀ session ∈ w'.sessions, session ∈ w.sessions ∨ w'.store = w.store ∧
      ∃ earlier ∈ w.started, session = { earlier with
        job := earlier.occurrence.bind fun o => w.store.db.postingById o.jobId } := by
  cases action with
  | ingest | enqueue =>
    cases h
    exact ⟨fun _ => .inl, fun _ => .inl⟩
  | claim =>
    simp only [step] at h
    split_ifs at h
    cases h
    exact ⟨fun _ => .inl, fun _ => .inl⟩
  | start claim =>
    simp only [step] at h
    split_ifs at h with hclaim
    cases h
    refine ⟨fun session hmem => ?_, fun _ => .inl⟩
    rcases List.mem_cons.mp hmem with rfl | hmem
    · exact .inr ⟨rfl, hclaim, rfl, rfl⟩
    · exact .inl hmem
  | load earlier =>
    simp only [step] at h
    split_ifs at h with hstarted
    cases h
    refine ⟨fun _ hmem => .inl (List.mem_of_mem_erase hmem), fun session hmem => ?_⟩
    rcases List.mem_cons.mp hmem with rfl | hmem
    · exact .inr ⟨rfl, earlier, hstarted, rfl⟩
    · exact .inl hmem
  | finish =>
    simp only [step] at h
    split_ifs at h
    cases h
    exact ⟨fun _ => .inl, fun _ hmem => .inl (List.mem_of_mem_erase hmem)⟩
  | giveUp =>
    cases h
    exact ⟨fun _ hmem => .inl (List.mem_of_mem_erase hmem),
      fun _ hmem => .inl (List.mem_of_mem_erase hmem)⟩

/-- A session that has just loaded the posting. -/
theorem settled_of_load {store : EvidenceStore} {earlier : EvidenceSession}
    (hloaded : store.Loaded earlier) :
    store.Loaded { earlier with
      job := earlier.occurrence.bind fun o => store.db.postingById o.jobId } ∧
    store.Settled S E { earlier with
      job := earlier.occurrence.bind fun o => store.db.postingById o.jobId } := by
  refine ⟨⟨hloaded.occurrence, fun o job ho hjob => ?_⟩, ?_⟩
  · simp only at ho hjob
    rw [ho, Option.bind_some] at hjob
    simpa using List.find?_some hjob
  · intro o current row ho hcurrent hrow _ htarget _ _ _
    simp only at ho hcurrent htarget
    obtain ⟨current', hcurrent', hsource⟩ := hloaded.occurrence o ho
    obtain rfl := Option.some.inj (hcurrent'.symm.trans hcurrent)
    rw [ho, Option.bind_some, hrow, Option.getD_some] at htarget
    rw [hsource.targetFor]
    exact htarget

theorem Inv.empty : Inv S E cfg .empty where
  wf := Db.wf_empty
  book := .empty
  claims _ h := by cases h
  loaded _ h := by cases h
  settled _ _ h := by cases h

/-- **A step keeps the invariant.** -/
theorem Inv.step (hinv : w.Inv S E cfg) (h : step S E cfg action w = some w') :
    w'.Inv S E cfg := by
  obtain ⟨issued, hstore, -⟩ := step_store hinv.wf hinv.book.keys h
  obtain ⟨hstarted, hsessions⟩ := step_sessions h
  have hmono : ∀ claim ∈ w.claims, claim ∈ w'.claims := fun claim hmem => by
    rw [hstore.claims]
    exact List.mem_append_left _ hmem
  refine ⟨hstore.wf hinv.wf, hstore.claims ▸ hinv.book.step hstore.leased hstore.fresh,
    fun session hmem => ?_, fun session hmem => ?_, fun hqueue session hmem => ?_⟩
  · rcases List.mem_append.mp hmem with hmem | hmem
    · rcases hstarted session hmem with hold | ⟨-, hclaim, -⟩
      · exact hmono _ (hinv.claims session (List.mem_append_left _ hold))
      · exact hmono _ hclaim
    · rcases hsessions session hmem with hold | ⟨-, earlier, hearlier, rfl⟩
      · exact hmono _ (hinv.claims session (List.mem_append_right _ hold))
      · exact hmono _ (hinv.claims earlier (List.mem_append_left _ hearlier))
  · rcases List.mem_append.mp hmem with hmem | hmem
    · rcases hstarted session hmem with hold | ⟨hsame, -, hnone, hread⟩
      · exact hstore.loaded hinv.wf (hinv.loaded session (List.mem_append_left _ hold))
      · refine ⟨fun o ho => ⟨o, ?_, .refl o⟩, fun o job _ hjob => ?_⟩
        · rw [hsame, ← hread, ho]
        · rw [hnone] at hjob
          cases hjob
    · rcases hsessions session hmem with hold | ⟨hsame, earlier, hearlier, rfl⟩
      · exact hstore.loaded hinv.wf (hinv.loaded session (List.mem_append_right _ hold))
      · rw [hsame]
        exact (settled_of_load (S := S) (E := E)
          (hinv.loaded earlier (List.mem_append_left _ hearlier))).1
  · rcases hsessions session hmem with hold | ⟨hsame, earlier, hearlier, rfl⟩
    · exact hstore.settled hinv hqueue hold
    · rw [hsame]
      exact (settled_of_load (hinv.loaded earlier (List.mem_append_left _ hearlier))).2

/-- **Every run** keeps the invariant. -/
theorem Inv.run {actions : List EvidenceAction} (h : run S E cfg actions = some w) :
    w.Inv S E cfg :=
  Interleaving.run_invariant (I := Inv S E cfg) .empty
    (fun _ _ _ _ _ _ _ hstep hinv => hinv.step hstep) h

end EvidenceWorld

/-! ## Publications -/

namespace EvidenceStore

variable (S E) in
/-- The fence: the lease of the claim is current, and its target is that of the check and of the
posting, on the latest occurrence, with both open. -/
structure Fenced (w : EvidenceStore) (session : EvidenceSession) (now : Time) : Prop where
  lease : ∃ check, w.check session.claim.occurrenceId = some check ∧ check.status = .running ∧
    check.leaseToken = some session.claim.token ∧ check.leaseUntil.any (now < ·) = true ∧
    check.target = session.claim.target
  target : ∃ occurrence posting,
    w.db.occurrenceById session.claim.occurrenceId = some occurrence ∧
    w.db.postingById occurrence.jobId = some posting ∧
    w.db.latestOccurrence posting.id = some occurrence ∧
    posting.isClosed = false ∧ occurrence.closedAt = none ∧
    session.claim.target = targetFor S (E.companyName posting.companyId) posting occurrence

variable (S E cfg) in
/-- **Overtaken by a closing**: the lease is current and the rows that the session has loaded let
the result through, but the committed posting or its occurrence is closed; or it has another target,
which ingestion has not queued because its queue is off. -/
def overtaken (w : EvidenceStore) (session : EvidenceSession) (documents : List Document)
    (now : Time) (error : Option Str) : Bool :=
  session.occurrence.any fun occurrence =>
    (w.db.postingById occurrence.jobId).any fun row =>
      (w.check session.claim.occurrenceId).any fun check =>
        (w.db.occurrenceById session.claim.occurrenceId).any fun current =>
          check.leaseToken = some session.claim.token && check.status = .running &&
            check.leaseUntil.any (now < ·) &&
            w.targetCurrent S E session row (session.job.getD row) occurrence check &&
            check.publishes documents error &&
            (row.isClosed || current.closedAt.isSome || !cfg.evidenceWorkerEnabled &&
              session.claim.target ≠ targetFor S (E.companyName row.companyId) row current)

variable {w w' : EvidenceStore} {session : EvidenceSession}

/-- **A publication that is not overtaken** is fenced. -/
theorem fenced_of_publish {documents : List Document} {now : Time}
    {error : Option Str} {occurrence : JobOccurrence} {row : JobPosting} {check : EvidenceRow}
    (hwf : w.db.WF) (hloaded : w.Loaded session)
    (hsettled : cfg.evidenceWorkerEnabled = true → w.Settled S E session)
    (hholds : w.Holds session now occurrence row check)
    (hcurrent : w.targetCurrent S E session row (session.job.getD row) occurrence check = true)
    (hpublishes : check.publishes documents error = true)
    (htimely : w.overtaken S E cfg session documents now error = false) :
    w.Fenced S E session now ∧ ∃ current,
      w.db.occurrenceById session.claim.occurrenceId = some current ∧
        current.jobId = (session.job.getD row).id := by
  obtain ⟨hoccurrence, hrow, hcheck, htoken, hstatus, huntil⟩ := hholds
  obtain ⟨current, hfound, hsource⟩ := hloaded.occurrence occurrence hoccurrence
  have hrow_id : row.id = occurrence.jobId := by simpa using List.find?_some hrow
  have hjob_id : (session.job.getD row).id = occurrence.jobId := by
    cases hjob : session.job with
    | none => exact hrow_id
    | some job => exact hloaded.job occurrence job hoccurrence hjob
  have hcurrent' := hcurrent
  simp only [targetCurrent, Bool.and_eq_true, Option.any_eq_true, decide_eq_true_eq, hjob_id]
    at hcurrent'
  obtain ⟨⟨⟨⟨⟨last, hlast, hlast_id⟩, -⟩, -⟩, htarget⟩, hcheck_target⟩ := hcurrent'
  obtain rfl : last = current := by
    have := (Db.occurrenceById_eq_some hwf).mpr ⟨(Db.latestOccurrence_mem hlast).1, hlast_id⟩
    exact Option.some.inj (this.symm.trans hfound)
  simp only [overtaken, hoccurrence, hrow, hcheck, hfound, Option.any_some, htoken, hstatus, huntil,
    hcurrent, hpublishes, decide_true, Bool.true_and, Bool.or_eq_false_iff] at htimely
  obtain ⟨⟨hopen, hstill⟩, hqueue⟩ := htimely
  have hstill' : last.closedAt = none := by simpa using hstill
  refine ⟨⟨⟨check, hcheck, hstatus, htoken, huntil, hcheck_target⟩, last, row, hfound, ?_, ?_, hopen,
    hstill', ?_⟩, last, hfound, hsource.jobId.trans hjob_id.symm⟩
  · rw [hsource.jobId]
    exact hrow
  · rw [hrow_id]
    exact hlast
  · cases henabled : cfg.evidenceWorkerEnabled with
    | false => simpa [henabled] using hqueue
    | true =>
      exact hsettled henabled occurrence last row hoccurrence hfound hrow ⟨check, hcheck, htoken⟩
        htarget (by rw [hlast, Option.map_some, hlast_id]) hopen hstill'

theorem blocked_published (w : EvidenceStore) (id : ℕ) (now : Time) (k : ℕ) :
    (w.updateCheck id (·.blocked now)).published k = w.published k := by
  have hid : ∀ check : EvidenceRow, (check.blocked now).occurrenceId = check.occurrenceId :=
    fun _ => rfl
  rw [published, published, check_updateCheck w id k hid]
  split_ifs
  · cases w.check k <;> rfl
  · rfl

/-- **What `finish` publishes** is fenced, if no closing has overtaken it. -/
theorem finish_fenced {documents : List Document} {now : Time} {error : Option Str} {saved : Bool}
    (hwf : w.db.WF) (hloaded : w.Loaded session)
    (hsettled : cfg.evidenceWorkerEnabled = true → w.Settled S E session)
    (htimely : w.overtaken S E cfg session documents now error = false)
    (h : w.finish S E session documents now error = .ok (w', saved)) :
    (∀ k, w'.published k ≠ w.published k →
      k = session.claim.occurrenceId ∧ w.Fenced S E session now) ∧
    ∀ k, w'.details k ≠ w.details k → w.Fenced S E session now ∧
      ∃ current, w.db.occurrenceById session.claim.occurrenceId = some current ∧
        current.jobId = k := by
  obtain ⟨-, -, hothers⟩ := finish_leased h
  rcases finish_cases h with rfl | rfl | ⟨occurrence, row, check, hholds, hcurrent, rfl⟩
  · exact ⟨fun _ hne => absurd rfl hne, fun _ hne => absurd rfl hne⟩
  · exact ⟨fun k hne => absurd (blocked_published w _ now k) hne, fun _ hne => absurd rfl hne⟩
  · obtain ⟨f, hf, hchecks, -, hpublished, hdetails⟩ := publish_spec (S := S) (E := E) w session
      (session.job.getD row) documents now error
    have hfenced : check.publishes documents error = true → _ := fun hpublishes =>
      fenced_of_publish hwf hloaded hsettled hholds hcurrent hpublishes htimely
    refine ⟨fun k hne => ?_, fun k hne => ?_⟩
    · have hk : k = session.claim.occurrenceId := by
        by_contra hk
        exact hne (hothers k hk)
      subst hk
      refine ⟨rfl, (hfenced (hpublished check fun hsame => hne ?_)).1⟩
      rw [published_of_checks hchecks, published, published,
        check_updateCheck w _ _ fun check => (hf check).1, if_pos rfl, hholds.locked_check]
      simp only [Option.map_some, Option.getD_some, hsame]
    · obtain ⟨rfl, hpublishes⟩ := hdetails k hne
      exact hfenced (hpublishes check)

/-- Without the lease `finish` publishes nothing. -/
theorem finish_quiet {documents : List Document} {now : Time} {error : Option Str} {saved : Bool}
    (hlost : ¬w.holding session.claim)
    (h : w.finish S E session documents now error = .ok (w', saved)) :
    (∀ k, w'.published k = w.published k) ∧ ∀ k, w'.details k = w.details k := by
  rcases finish_cases h with rfl | rfl | ⟨occurrence, row, check, hholds, -, -⟩
  · exact ⟨fun _ => rfl, fun _ => rfl⟩
  · exact ⟨blocked_published w _ now, fun _ => rfl⟩
  · exact absurd ⟨check, hholds.locked_check, hholds.token⟩ hlost

end EvidenceStore

/-! ## Runs -/

variable (S E cfg) in
/-- No result of the run is finished after a closing, or an edit that was not queued, that commits
while `process` waits for the posting. -/
def TimelyRun (actions : List EvidenceAction) : Prop :=
  ∀ before session documents now error after w,
    actions = before ++ .finish session documents now error :: after →
    EvidenceWorld.run S E cfg before = some w →
    w.store.overtaken S E cfg session documents now error = false

theorem TimelyRun.of_unfinished {actions : List EvidenceAction}
    (h : ∀ action ∈ actions, ∀ session documents now error,
      action ≠ .finish session documents now error) : TimelyRun S E cfg actions := by
  intro before session documents now error after w hsplit
  exact absurd rfl (h (.finish session documents now error) (by rw [hsplit]; simp)
    session documents now error)

theorem TimelyRun.concat {actions : List EvidenceAction} {action : EvidenceAction}
    (h : TimelyRun S E cfg actions)
    (hlast : ∀ session documents now error w, action = .finish session documents now error →
      EvidenceWorld.run S E cfg actions = some w →
      w.store.overtaken S E cfg session documents now error = false) :
    TimelyRun S E cfg (actions ++ [action]) := by
  intro before session documents now error after w hsplit hrun
  rcases List.eq_nil_or_concat after with rfl | ⟨after', last, rfl⟩
  · obtain ⟨rfl, heq⟩ := List.append_inj' hsplit rfl
    exact hlast session documents now error w (List.cons.inj heq).1 hrun
  · rw [List.concat_eq_append, ← List.cons_append, ← List.append_assoc] at hsplit
    exact h before session documents now error after' w (List.append_inj' hsplit rfl).1 hrun

variable (S E cfg) in
/-- **Evidence fencing** of a run: the status of a check tells whether it is leased; only `finish`
publishes, or changes details without an ingestion, and what it publishes is fenced; and a claim
that has lost its lease publishes nothing. -/
structure FencedRun (actions : List EvidenceAction) : Prop where
  running : ∀ before after w, actions = before ++ after →
    EvidenceWorld.run S E cfg before = some w → ∀ check ∈ w.store.checks,
      (check.status = .running ↔ check.leaseToken.isSome ∧ check.leaseUntil.isSome)
  publishes : ∀ before action after w w', actions = before ++ action :: after →
    EvidenceWorld.run S E cfg before = some w → EvidenceWorld.step S E cfg action w = some w' →
    (∀ k, w'.store.published k ≠ w.store.published k → ∃ session documents now error,
      action = .finish session documents now error ∧ k = session.claim.occurrenceId ∧
        w.store.Fenced S E session now) ∧
    ∀ k, w'.store.details k ≠ w.store.details k → (∃ row now, action = .ingest row now) ∨
      ∃ session documents now error, action = .finish session documents now error ∧
        w.store.Fenced S E session now ∧ ∃ occurrence,
          w.store.db.occurrenceById session.claim.occurrenceId = some occurrence ∧
            occurrence.jobId = k
  superseded : ∀ before middle session documents now error after lost w w',
    actions = before ++ middle ++ .finish session documents now error :: after →
    EvidenceWorld.run S E cfg before = some lost → session.claim ∈ lost.claims →
    ¬lost.store.holding session.claim → EvidenceWorld.run S E cfg (before ++ middle) = some w →
    EvidenceWorld.step S E cfg (.finish session documents now error) w = some w' →
    (∀ k, w'.store.published k = w.store.published k) ∧
      ∀ k, w'.store.details k = w.store.details k

namespace EvidenceWorld

variable {w w' : EvidenceWorld}

/-- A finished result, committed or rolled back. -/
theorem finish_step {session : EvidenceSession} {documents : List Document} {now : Time}
    {error : Option Str} (h : step S E cfg (.finish session documents now error) w = some w') :
    session ∈ w.sessions ∧ (w'.store = w.store ∨ ∃ saved,
      w.store.finish S E session documents now error = .ok (w'.store, saved)) := by
  simp only [step] at h
  split_ifs at h with hsession
  cases h
  refine ⟨hsession, ?_⟩
  cases hfinish : w.store.finish S E session documents now error with
  | error e => exact .inl rfl
  | ok result => exact .inr ⟨result.2, rfl⟩

/-- Only an ingestion and a finished result change details. -/
theorem step_details {action : EvidenceAction} (h : step S E cfg action w = some w')
    (hingest : ∀ row now, action ≠ .ingest row now)
    (hfinish : ∀ session documents now error, action ≠ .finish session documents now error)
    (k : ℕ) : w'.store.details k = w.store.details k := by
  cases action with
  | ingest row now => exact absurd rfl (hingest row now)
  | finish session documents now error => exact absurd rfl (hfinish session documents now error)
  | enqueue job occurrence request =>
    cases h
    simp only [EvidenceStore.details, EvidenceStore.enqueue_db]
  | claim locked now token =>
    simp only [step] at h
    split_ifs at h
    cases h
    have hdb : (w.store.claim locked now token).1.db = w.store.db := by
      simp only [EvidenceStore.claim]
      split <;> rfl
    simp only [EvidenceStore.details, hdb]
  | start claim | load session =>
    simp only [step] at h
    split_ifs at h
    cases h
    rfl
  | giveUp session =>
    cases h
    rfl

/-- A claim without its lease stays without it. -/
theorem run_lost {before middle : List EvidenceAction} {lost : EvidenceWorld}
    {claim : EvidenceClaim} (hbefore : run S E cfg before = some lost)
    (hclaim : claim ∈ lost.claims) (hlost : ¬lost.store.holding claim)
    (h : run S E cfg (before ++ middle) = some w) : ¬w.store.holding claim := by
  have hmiddle : Interleaving.run (step S E cfg) lost middle = some w := by
    obtain ⟨c, hc, hrest⟩ := Interleaving.run_prefix h
    obtain rfl := Option.some.inj (hc.symm.trans hbefore)
    exact hrest
  have hall : w.Inv S E cfg ∧ claim ∈ w.claims ∧ ¬w.store.holding claim := by
    refine Interleaving.run_invariant
      (I := fun c => c.Inv S E cfg ∧ claim ∈ c.claims ∧ ¬c.store.holding claim)
      ⟨Inv.run hbefore, hclaim, hlost⟩ (fun _ _ _ c c' _ _ hstep hc => ?_) hmiddle
    obtain ⟨hinv, hmem, hnot⟩ := hc
    obtain ⟨issued, hstore, -⟩ := step_store hinv.wf hinv.book.keys hstep
    refine ⟨hinv.step hstep, ?_, fun hheld => hnot ?_⟩
    · rw [hstore.claims]
      exact List.mem_append_left _ hmem
    · exact EvidenceStore.LeaseBook.holding_of_step hstore.leased hstore.fresh hmem hheld
  exact hall.2.2

end EvidenceWorld

/-- **Evidence fencing.** -/
theorem evidence_fencing (S : Services) (E : EvidenceEnv) (cfg : Config)
    (actions : List EvidenceAction) (htimely : TimelyRun S E cfg actions) :
    FencedRun S E cfg actions where
  running before after w _ hrun check hcheck := by
    have hbook := (EvidenceWorld.Inv.run hrun).book
    exact hbook.sound _ check (Table.find?_key hbook.keys hcheck)
  publishes before action after w w' hsplit hrun hstep := by
    have hinv := EvidenceWorld.Inv.run hrun
    obtain ⟨_, hstore, hquiet⟩ := EvidenceWorld.step_store hinv.wf hinv.book.keys hstep
    by_cases hfinish : ∃ session documents now error,
        action = .finish session documents now error
    · obtain ⟨session, documents, now, error, rfl⟩ := hfinish
      have htimely := htimely before session documents now error after w hsplit hrun
      obtain ⟨hsession, hsame | ⟨saved, hsaved⟩⟩ := EvidenceWorld.finish_step hstep
      · exact ⟨fun k hne => absurd (by rw [hsame]) hne, fun k hne => absurd (by rw [hsame]) hne⟩
      · have hmem := List.mem_append_right w.started hsession
        obtain ⟨hpublished, hdetails⟩ := EvidenceStore.finish_fenced hinv.wf
          (hinv.loaded session hmem) (fun hqueue => hinv.settled hqueue session hsession) htimely
          hsaved
        refine ⟨fun k hne => ?_, fun k hne => .inr ?_⟩
        · obtain ⟨hk, hfenced⟩ := hpublished k hne
          exact ⟨session, documents, now, error, rfl, hk, hfenced⟩
        · obtain ⟨hfenced, hjob⟩ := hdetails k hne
          exact ⟨session, documents, now, error, rfl, hfenced, hjob⟩
    · have hne : ∀ session documents now error,
          action ≠ .finish session documents now error := fun session documents now error heq =>
        hfinish ⟨session, documents, now, error, heq⟩
      refine ⟨fun k hchanged => absurd (hquiet hne k) hchanged, fun k hchanged => .inl ?_⟩
      by_contra hingest
      exact hchanged (EvidenceWorld.step_details hstep
        (fun row now heq => hingest ⟨row, now, heq⟩) hne k)
  superseded before middle session documents now error after lost w w' _ hbefore hclaim hlost hrun
      hstep := by
    have hnot := EvidenceWorld.run_lost hbefore hclaim hlost hrun
    obtain ⟨-, hsame | ⟨saved, hsaved⟩⟩ := EvidenceWorld.finish_step hstep
    · exact ⟨fun k => by rw [hsame], fun k => by rw [hsame]⟩
    · exact EvidenceStore.finish_quiet hnot hsaved

/-! ## A closing while the worker waits -/

/-- Rules that find nothing, as in a text without assertions. -/
def silentRules : TextRules where
  clauses _ := []
  mentions _ _ := false
  policyValue _ _ := .unknown
  isConditional _ := false
  isFuture _ := false
  isCurrent _ := false
  restricts _ _ := false
  structuredRanges _ := []
  textRanges _ := []
  us _ := false
  foreign _ := false

def acmeEnv : EvidenceEnv where
  rules := silentRules
  companyName _ := "Acme".toList
  fingerprint _ := "details".toList
  checksum document := document.text

def evidenceConfig : Config := ⟨false, true⟩

/-- The ingestion of the sample, open and then closed. -/
def acmeRow (old : Option JobPosting) (isClosed : Bool) : IngestedRow :=
  let job := { sampleJob with isClosed := isClosed }
  { path := .single
    old := old
    companyName := some "Acme".toList
    reposted := false
    values := .of 1 job
    normalized := job
    observation := job }

def acmePosting : JobPosting := (PostingValues.of 1 sampleJob).insert 1

def acmeOccurrence : JobOccurrence :=
  newOccurrence .ascii 1 acmePosting sampleJob .discovered none

def acmeClaim : EvidenceClaim where
  occurrenceId := 1
  token := "token".toList
  target := targetFor .ascii "Acme".toList acmePosting acmeOccurrence

/-- A worker that has loaded the open rows. -/
def acmeSession : EvidenceSession := ⟨acmeClaim, some acmeOccurrence, some acmePosting⟩

def acmeDocument : Document where
  sourceUrl := sampleJob.applyUrl
  finalUrl := sampleJob.applyUrl
  kind := .posting
  text := "Software Engineer Intern".toList
  observedAt := 0
  roleIdentity := acmeClaim.target
  complete := true
  structuredPay := []
  location := some sampleJob.location
  source := "lever".toList

/-- The sample is ingested, claimed and loaded by a worker. -/
def acmeLoaded : List EvidenceAction :=
  [.ingest (acmeRow none false) 0, .claim (fun _ => false) (seconds 1) "token".toList,
    .start acmeClaim, .load { acmeSession with job := none }]

def acmeFinish : EvidenceAction := .finish acmeSession [acmeDocument] (seconds 30) none

def acmeClosing : EvidenceAction := .ingest (acmeRow (some acmePosting) true) (seconds 20)

/-- The closing commits while the worker waits, and its result is published all the same. -/
theorem closed_posting_published :
    ¬FencedRun .ascii acmeEnv evidenceConfig (acmeLoaded ++ [acmeClosing] ++ [acmeFinish]) := by
  intro hfenced
  have hclosed : (EvidenceWorld.run .ascii acmeEnv evidenceConfig
      (acmeLoaded ++ [acmeClosing])).map (fun w => (w.store.db.jobPostings.map (·.isClosed),
        (w.store.published 1).2)) = some ([true], none) := by decide +kernel
  have hpublished : ((EvidenceWorld.run .ascii acmeEnv evidenceConfig
      (acmeLoaded ++ [acmeClosing])).bind
        (EvidenceWorld.step .ascii acmeEnv evidenceConfig acmeFinish)).map
          (fun w => (w.store.published 1).2) = some (some (seconds 30)) := by decide +kernel
  obtain ⟨w, hw, hrows⟩ := Option.map_eq_some_iff.mp hclosed
  rw [hw, Option.bind_some] at hpublished
  obtain ⟨w', hw', hafter⟩ := Option.map_eq_some_iff.mp hpublished
  simp only [Prod.mk.injEq] at hrows
  have hchanged : w'.store.published 1 ≠ w.store.published 1 := fun hsame => by
    rw [hsame, hrows.2] at hafter
    cases hafter
  obtain ⟨session, documents, now, error, -, -, hfence⟩ :=
    (hfenced.publishes (acmeLoaded ++ [acmeClosing]) acmeFinish [] w w' rfl hw hw').1 1 hchanged
  obtain ⟨occurrence, posting, -, hposting, -, hopen, -⟩ := hfence.target
  have hmem : posting.isClosed ∈ w.store.db.jobPostings.map (·.isClosed) :=
    List.mem_map_of_mem (List.mem_of_find?_eq_some hposting)
  rw [hrows.1, hopen] at hmem
  simp at hmem

/-- Another worker takes the check over when the lease of the first one has expired. -/
def secondClaim : EvidenceClaim := { acmeClaim with token := "second".toList }

def secondSession : EvidenceSession := { acmeSession with claim := secondClaim }

def takenOver : List EvidenceAction :=
  acmeLoaded ++ [.claim (fun _ => false) (minutes 20) "second".toList, .start secondClaim,
    .load { secondSession with job := none }]

def lateFinish : EvidenceAction :=
  .finish acmeSession [acmeDocument] (minutes 20 + seconds 10) none

def secondFinish : EvidenceAction :=
  .finish secondSession [acmeDocument] (minutes 20 + seconds 30) none

/-- Without a closing the run is fenced: the first worker publishes nothing after it has lost its
lease, and the second one its result. -/
theorem open_posting_fenced :
    FencedRun .ascii acmeEnv evidenceConfig (takenOver ++ [lateFinish] ++ [secondFinish]) ∧
      (EvidenceWorld.run .ascii acmeEnv evidenceConfig (takenOver ++ [lateFinish])).map
        (fun w => (w.store.published 1).2) = some none ∧
      (EvidenceWorld.run .ascii acmeEnv evidenceConfig
        (takenOver ++ [lateFinish] ++ [secondFinish])).map (fun w => (w.store.published 1).2) =
          some (some (minutes 20 + seconds 30)) := by
  have htimely : TimelyRun .ascii acmeEnv evidenceConfig
      (takenOver ++ [lateFinish] ++ [secondFinish]) := by
    refine .concat (.concat (.of_unfinished ?_) fun session documents now error w heq hrun => ?_)
      fun session documents now error w heq hrun => ?_
    · intro action hmem session documents now error heq
      subst heq
      simp [takenOver, acmeLoaded] at hmem
    · cases heq
      have hprompt : (EvidenceWorld.run .ascii acmeEnv evidenceConfig takenOver).map
          (fun w => w.store.overtaken .ascii acmeEnv evidenceConfig acmeSession [acmeDocument]
            (minutes 20 + seconds 10) none) = some false := by decide +kernel
      rw [hrun] at hprompt
      exact Option.some.inj hprompt
    · cases heq
      have hprompt : (EvidenceWorld.run .ascii acmeEnv evidenceConfig
          (takenOver ++ [lateFinish])).map (fun w => w.store.overtaken .ascii acmeEnv
            evidenceConfig secondSession [acmeDocument] (minutes 20 + seconds 30) none) =
          some false := by decide +kernel
      rw [hrun] at hprompt
      exact Option.some.inj hprompt
  exact ⟨evidence_fencing .ascii acmeEnv evidenceConfig _ htimely, by decide +kernel,
    by decide +kernel⟩

end JobPing
