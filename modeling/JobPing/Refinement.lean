import JobPing.WellFormed

/-!
# The tables refine the jobs

Every statement of the two write paths acts on one job and leaves the rows of the others alone.
The posting statement acts as `upsertRows` (`upsert_posting_spec`, `save_posting_spec`), the rest
of a write as `writeEffects` (`effect_spec`), and a whole call of either path as `deliverJob` on
each of its jobs (`save_spec`, `bulk_spec`).
-/

namespace JobPing

variable {cfg : Config} {S : Services} {path : WritePath}

/-! ## The posting statement -/

/-- Insert a posting, or save the stored one with its new values. -/
def Db.putPosting (db : Db) (stored : Option JobPosting) (values : PostingValues)
    (update : JobPosting → JobPosting) : Db × JobPosting :=
  match stored with
  | none =>
    ({ db with
      jobPostings := db.jobPostings ++ [values.insert db.jobPostingSeq]
      jobPostingSeq := db.jobPostingSeq + 1 }, values.insert db.jobPostingSeq)
  | some stored =>
    ({ db with jobPostings := Table.replace JobPosting.id (update stored) db.jobPostings },
      update stored)

/-- The rows of a job after its posting was put. -/
def JobRows.put (base : Option JobRows) (posting : JobPosting) : JobRows :=
  match base with
  | none =>
    { posting := posting
      occurrences := []
      observations := []
      events := []
      statusLogs := [] }
  | some rows => { rows with posting := posting }

namespace Db

variable {db : Db}

/-- A posting id no row refers to yet. -/
theorem rowsOf_fresh (hwf : db.WF) {p : JobPosting} (hp : p.id = db.jobPostingSeq) :
    db.rowsOf p = JobRows.put none p := by
  have hlt : ∀ i ∈ db.postingKeys.map Prod.fst, i ≠ p.id := by
    intro i hi
    obtain ⟨key, hkey, rfl⟩ := List.mem_map.mp hi
    have := hwf.posting_lt key hkey
    omega
  have hocc : ∀ key ∈ db.occurrenceKeys, key.2 ≠ p.id := fun key hkey =>
    hlt _ (hwf.occurrence_job key hkey)
  simp only [rowsOf, JobRows.put, occurrencesOf, JobRows.mk.injEq, true_and]
  refine ⟨?_, ?_, ?_, ?_⟩ <;> refine Table.rowsOf_eq_nil fun r hr => ?_
  · exact hocc _ (mem_occurrenceKeys hr)
  · exact hocc _ (hwf.observation_ref r hr)
  · exact hocc _ (hwf.event_ref r hr)
  · exact hlt _ (hwf.log_job r hr)

/-- Putting a posting writes the rows of its job and of no other. -/
theorem putPosting_job (hwf : db.WF) (values : PostingValues) {update : JobPosting → JobPosting}
    (hid : ∀ p, (update p).id = p.id) (hhash : ∀ p, (update p).baseHash = p.baseHash) :
    let put := db.putPosting (db.postingByHash values.baseHash) values update
    put.2.baseHash = values.baseHash ∧ put.2 ∈ put.1.jobPostings ∧
      put.1.job values.baseHash = some (JobRows.put (db.job values.baseHash) put.2) ∧
      ∀ h, h ≠ values.baseHash → put.1.job h = db.job h := by
  intro put
  cases hs : db.postingByHash values.baseHash with
  | none =>
    have hput : put = db.putPosting none values update := by simp only [put, hs]
    have hnone := List.find?_eq_none.mp hs
    refine ⟨by rw [hput]; rfl, by rw [hput]; simp [putPosting], ?_, fun h hh => ?_⟩
    · have hfind : put.1.postingByHash values.baseHash = some put.2 := by
        rw [hput]
        simp only [putPosting, postingByHash, List.find?_append, List.find?_eq_none.mpr hnone]
        simp [PostingValues.insert]
      have hrows : put.1.rowsOf put.2 = db.rowsOf put.2 := by rw [hput]; rfl
      simp only [job, hfind, hs, Option.map_some, Option.map_none, hrows]
      exact congrArg some (rowsOf_fresh hwf (by rw [hput]; rfl))
    · have hfind : put.1.postingByHash h = db.postingByHash h := by
        rw [hput]
        simp only [putPosting, postingByHash, List.find?_append, PostingValues.insert]
        simp [Ne.symm hh]
      have hrows : put.1.rowsOf = db.rowsOf := by rw [hput]; rfl
      rw [job, job, hfind, hrows]
  | some stored =>
    have hput : put = db.putPosting (some stored) values update := by simp only [put, hs]
    obtain ⟨hmem, hh⟩ := postingByHash_mem hs
    have hput₁ : put.1 = { db with
        jobPostings := Table.replace JobPosting.id put.2 db.jobPostings } := by rw [hput]; rfl
    have hput₂ : put.2 = update stored := by rw [hput]; rfl
    have hid₂ : put.2.id = stored.id := by rw [hput₂, hid]
    have hhash₂ : put.2.baseHash = stored.baseHash := by rw [hput₂, hhash]
    have hsame : ∀ r ∈ db.jobPostings, r.id = put.2.id → r = stored := fun r hr hrid =>
      List.inj_on_of_nodup_map hwf.posting_id_nodup hr hmem (hrid.trans hid₂)
    have hfind : ∀ h, put.1.postingByHash h =
        (db.postingByHash h).map fun r => if r.id = put.2.id then put.2 else r := by
      intro h
      rw [hput₁]
      exact Table.find?_replace fun r hr hrid => by rw [hsame r hr hrid, hhash₂]
    have hrows : ∀ p, put.1.rowsOf p = db.rowsOf p := fun p => by rw [hput₁]; rfl
    refine ⟨hhash₂.trans hh, ?_, ?_, fun h hne => ?_⟩
    · rw [hput₁]
      exact List.mem_map.mpr ⟨stored, hmem, if_pos hid₂.symm⟩
    · simp only [job, hfind, hs, Option.map_some, if_pos hid₂.symm, hrows]
      simp only [rowsOf, JobRows.put, hid₂]
    · simp only [job, hfind]
      cases hq : db.postingByHash h with
      | none => rfl
      | some q =>
        obtain ⟨hqm, rfl⟩ := postingByHash_mem hq
        have : q.id ≠ put.2.id := fun hqid => hne (by rw [hsame q hqm hqid, hh])
        simp only [Option.map_some, if_neg this, hrows]

/-- Putting a posting keeps the tables well formed. -/
theorem putPosting_wf (hwf : db.WF) {values : PostingValues} {update : JobPosting → JobPosting}
    (hid : ∀ p, (update p).id = p.id) (hhash : ∀ p, (update p).baseHash = p.baseHash)
    (hcomp : ∀ p, (update p).companyId = values.companyId)
    (hfk : db.hasCompany values.companyId = true) :
    (db.putPosting (db.postingByHash values.baseHash) values update).1.WF := by
  cases hs : db.postingByHash values.baseHash with
  | none =>
    have hnone := List.find?_eq_none.mp hs
    have hkeys : (db.putPosting none values update).1.postingKeys =
        db.postingKeys ++ [(db.jobPostingSeq, values.baseHash)] := by
      simp [postingKeys, putPosting, PostingValues.insert]
    refine { hwf with
      posting_id := ?_, posting_hash := ?_, posting_lt := ?_, posting_company := ?_,
      occurrence_job := ?_, log_job := ?_ }
    · rw [hkeys, List.map_append]
      refine List.nodup_append.mpr ⟨hwf.posting_id, by simp, ?_⟩
      intro i hi j hj
      obtain ⟨key, hkey, rfl⟩ := List.mem_map.mp hi
      have := hwf.posting_lt key hkey
      simp only [List.map_cons, List.map_nil, List.mem_singleton] at hj
      omega
    · rw [hkeys, List.map_append]
      refine List.nodup_append.mpr ⟨hwf.posting_hash, by simp, ?_⟩
      intro h hh k hk
      obtain ⟨key, hkey, rfl⟩ := List.mem_map.mp hh
      obtain ⟨p, hp, rfl⟩ := List.mem_map.mp hkey
      simp only [List.map_cons, List.map_nil, List.mem_singleton] at hk
      exact hk ▸ by simpa using hnone p hp
    · rw [hkeys]
      intro key hkey
      simp only [List.mem_append, List.mem_singleton] at hkey
      simp only [putPosting]
      rcases hkey with hkey | rfl
      · have := hwf.posting_lt key hkey
        omega
      · simp
    · intro p hp
      simp only [putPosting, List.mem_append, List.mem_singleton] at hp
      rcases hp with hp | rfl
      · exact hwf.posting_company p hp
      · exact hfk
    · rw [hkeys, List.map_append]
      exact fun key hkey => List.mem_append_left _ (hwf.occurrence_job key hkey)
    · rw [hkeys, List.map_append]
      exact fun l hl => List.mem_append_left _ (hwf.log_job l hl)
  | some stored =>
    obtain ⟨hmem, hh⟩ := postingByHash_mem hs
    have hkeys : (db.putPosting (some stored) values update).1.postingKeys = db.postingKeys := by
      refine Table.map_replace fun r hr hrid => ?_
      rw [hid] at hrid
      rw [List.inj_on_of_nodup_map hwf.posting_id_nodup hr hmem hrid, hid, hhash]
    refine { hwf with
      posting_id := hkeys ▸ hwf.posting_id, posting_hash := hkeys ▸ hwf.posting_hash,
      posting_lt := ?_, posting_company := ?_, occurrence_job := ?_, log_job := ?_ }
    · rw [hkeys]; exact hwf.posting_lt
    · intro p hp
      rcases Table.mem_replace hp with rfl | hp
      · rw [hcomp]; exact hfk
      · exact hwf.posting_company p hp
    · rw [hkeys]; exact hwf.occurrence_job
    · rw [hkeys]; exact hwf.log_job

end Db

/-! ## The latest occurrence -/

/-- A step that writes no new occurrence writes the given one. -/
def OccurrenceStep.Targets (step : OccurrenceStep) (current : Option JobOccurrence) : Prop :=
  match step with
  | create _ _ _ => True
  | close occurrence | reopen occurrence | keep occurrence => current = some occurrence

theorem transition_targets (old : Option JobPosting) (posting : JobPosting)
    (current : Option JobOccurrence) (job : NormalizedJob) :
    (transition S path old posting current job).Targets current := by
  cases path with
  | single =>
    unfold transition singleTransition
    by_cases h : old.isNone
    · simp [h, OccurrenceStep.Targets]
    · cases current with
      | none => simp [h, OccurrenceStep.Targets]
      | some o =>
        simp only [h]
        split_ifs <;> trivial
  | bulk =>
    simp only [transition, bulkTransition]
    cases current with
    | none => simp only; split_ifs <;> trivial
    | some o => simp only; split_ifs <;> trivial

/-- The rows before the latest occurrence, after the step. -/
def OccurrenceStep.earlier (step : OccurrenceStep) (occurrences : List JobOccurrence) :
    List JobOccurrence :=
  match step with
  | create _ _ _ => occurrences
  | _ => occurrences.dropLast

theorem OccurrenceStep.place_eq (step : OccurrenceStep) (occurrences : List JobOccurrence)
    (occurrence : JobOccurrence) :
    step.place occurrences occurrence = step.earlier occurrences ++ [occurrence] := by
  cases step <;> rfl

/-- The keys of the occurrence a step inserts. -/
def OccurrenceStep.newKeys (step : OccurrenceStep) (id jobId : ℕ) : List (ℕ × ℕ) :=
  match step with
  | create _ _ _ => [(id, jobId)]
  | _ => []

namespace Db

variable {db : Db}

/-- The step writes the group of its job and no other. -/
theorem writeOccurrence_spec (hwf : db.WF) {posting : JobPosting} (normalized : NormalizedJob)
    {step : OccurrenceStep} (ht : step.Targets (db.occurrencesOf posting.id).getLast?) :
    let occurrence := step.occurrence S db.jobOccurrenceSeq posting normalized
    let db₁ := db.writeOccurrence step occurrence
    occurrence.jobId = posting.id ∧
      db₁.occurrencesOf posting.id = step.place (db.occurrencesOf posting.id) occurrence ∧
      (∀ k, k ≠ posting.id → db₁.occurrencesOf k = db.occurrencesOf k) ∧
      db₁.occurrenceKeys =
        db.occurrenceKeys ++ step.newKeys db.jobOccurrenceSeq posting.id ∧
      (occurrence.id, posting.id) ∈ db₁.occurrenceKeys := by
  intro occurrence db₁
  cases step with
  | create kind previous notify =>
    refine ⟨rfl, ?_, fun k hk => ?_, ?_, ?_⟩
    · simp [db₁, writeOccurrence, occurrencesOf, OccurrenceStep.place, occurrence,
        OccurrenceStep.occurrence, newOccurrence, Table.rowsOf]
    · exact Table.rowsOf_append_of_ne (by
        simpa [occurrence, OccurrenceStep.occurrence, newOccurrence] using hk.symm)
    · simp [db₁, writeOccurrence, occurrenceKeys, OccurrenceStep.newKeys, occurrence,
        OccurrenceStep.occurrence, newOccurrence]
    · simp [db₁, writeOccurrence, occurrenceKeys, occurrence,
        OccurrenceStep.occurrence, newOccurrence]
  | keep o =>
    obtain ⟨hmem, hjob⟩ := Table.mem_rowsOf.mp (List.mem_of_getLast? ht)
    refine ⟨hjob, ?_, fun _ _ => rfl, by simp [db₁, writeOccurrence, OccurrenceStep.newKeys], ?_⟩
    · exact (List.dropLast_append_getLast? _ ht).symm
    · exact hjob ▸ mem_occurrenceKeys hmem
  | close o | reopen o =>
    obtain ⟨hmem, hjob⟩ := Table.mem_rowsOf.mp (List.mem_of_getLast? ht)
    have hg := (List.dropLast_append_getLast? _ ht).symm
    obtain ⟨h₁, h₂⟩ := Table.rowsOf_replace_last occurrence hwf.occurrenceId_nodup hg rfl
      hjob
    have hkeys : db₁.occurrenceKeys = db.occurrenceKeys := Table.map_replace fun r hr hrid => by
      rw [List.inj_on_of_nodup_map hwf.occurrenceId_nodup hr hmem hrid]
      rfl
    refine ⟨hjob, h₁, h₂, by rw [hkeys]; simp [OccurrenceStep.newKeys], ?_⟩
    rw [hkeys, ← hjob]
    exact mem_occurrenceKeys (o := o) hmem

/-- Save the details of a posting and of its latest occurrence, if there are any to save. -/
def setDetails (db : Db) (posting : JobPosting) (occurrence : JobOccurrence)
    (details : Option (Option JobDetails)) : Db :=
  match details with
  | none => db
  | some details =>
    { db with
      jobOccurrences := Table.replace JobOccurrence.id
        { occurrence with details := details } db.jobOccurrences
      jobPostings := Table.replace JobPosting.id
        { posting with details := details } db.jobPostings }

/-- Without verified checks, the details are merged unless the observation is ambiguous. -/
theorem mergeJobDetails_eq (hu : ∀ c ∈ db.evidenceChecks, c.verifiedAt = none)
    (posting : JobPosting) (occurrence : JobOccurrence) (observation : NormalizedJob) :
    db.mergeJobDetails cfg posting occurrence observation =
      match detailsUpdate occurrence observation with
      | none => .error (.valueError "max() iterable argument is empty")
      | some details => .ok (db.setDetails posting occurrence details,
          { posting with details := details.getD posting.details }) := by
  have hv : db.evidenceVerified posting occurrence = false := by
    rw [evidenceVerified, List.any_eq_false]
    intro c hc
    simp [hu c hc]
  simp only [mergeJobDetails, detailsUpdate, hv, Bool.and_false, Bool.false_eq_true, if_false]
  split_ifs
  · rfl
  · cases mergeDetails occurrence.details observation.details <;> rfl

/-- Saving details writes the last occurrence of the job and its posting. -/
theorem setDetails_spec (hp : (db.jobPostings.map (·.id)).Nodup)
    (ho : (db.jobOccurrences.map (·.id)).Nodup) {posting : JobPosting}
    (hmem : posting ∈ db.jobPostings) {earlier : List JobOccurrence} {occurrence : JobOccurrence}
    (hg : db.occurrencesOf posting.id = earlier ++ [occurrence])
    (details : Option (Option JobDetails)) :
    let db₂ := db.setDetails posting occurrence details
    let posting' := { posting with details := details.getD posting.details }
    db₂.occurrencesOf posting.id =
        earlier ++ [{ occurrence with details := details.getD occurrence.details }] ∧
      (∀ k, k ≠ posting.id → db₂.occurrencesOf k = db.occurrencesOf k) ∧
      db₂.occurrenceKeys = db.occurrenceKeys ∧ db₂.postingKeys = db.postingKeys ∧
      (∀ h, db₂.postingByHash h = (db.postingByHash h).map fun r =>
        if r.id = posting.id then posting' else r) ∧
      ∀ r ∈ db₂.jobPostings, ∃ q ∈ db.jobPostings, r.companyId = q.companyId := by
  have hlast : occurrence ∈ db.occurrencesOf posting.id := by
    rw [hg]
    simp
  have hmem' : occurrence ∈ db.jobOccurrences ∧ occurrence.jobId = posting.id :=
    Table.mem_rowsOf.mp hlast
  have hsame : ∀ r ∈ db.jobPostings, r.id = posting.id → r = posting := fun r hr hid =>
    List.inj_on_of_nodup_map hp hr hmem hid
  cases details with
  | none =>
    refine ⟨hg, fun _ _ => rfl, rfl, rfl, fun h => ?_, fun r hr => ⟨r, hr, rfl⟩⟩
    change db.postingByHash h = _
    cases hq : db.postingByHash h with
    | none => rfl
    | some q =>
      simp only [Option.map_some, Option.some.injEq]
      split_ifs with hid
      · exact hsame q (postingByHash_mem hq).1 hid
      · rfl
  | some merged =>
    obtain ⟨h₁, h₂⟩ := Table.rowsOf_replace_last
      { occurrence with details := merged } ho hg rfl hmem'.2
    refine ⟨h₁, h₂, ?_, ?_, fun h => ?_, fun r hr => ?_⟩
    · exact Table.map_replace fun r hr hid => by
        rw [List.inj_on_of_nodup_map ho hr hmem'.1 hid]
    · exact Table.map_replace fun r hr hid => by rw [hsame r hr hid]
    · exact Table.find?_replace fun r hr hid => by rw [hsame r hr hid]
    · rcases Table.mem_replace hr with rfl | hr
      · exact ⟨posting, hmem, rfl⟩
      · exact ⟨r, hr, rfl⟩

/-- Queueing evidence only touches the checks, and verifies none. -/
theorem enqueueEvidence_spec (cfg : Config) (hu : ∀ c ∈ db.evidenceChecks, c.verifiedAt = none)
    (posting : JobPosting) (occurrence : JobOccurrence) :
    ∃ checks, db.enqueueEvidence cfg posting occurrence = { db with evidenceChecks := checks } ∧
      ∀ c ∈ checks, c.verifiedAt = none := by
  unfold enqueueEvidence
  split_ifs
  · exact ⟨db.evidenceChecks, rfl, hu⟩
  · refine ⟨_, rfl, fun c hc => ?_⟩
    obtain ⟨b, hb, rfl⟩ := List.mem_map.mp hc
    split_ifs <;> exact hu b hb
  · refine ⟨_, rfl, fun c hc => ?_⟩
    rcases List.mem_append.mp hc with hc | hc
    · exact hu c hc
    · rw [List.mem_singleton.mp hc]

end Db

/-! ## The rest of a write -/

/-- What a write does to the tables once its posting is in place. -/
def effect (cfg : Config) (S : Services) (path : WritePath) (db : Db) (old : Option JobPosting)
    (normalized observation : NormalizedJob) (posting : JobPosting)
    (current : Option JobOccurrence) : Except RepositoryError (Db × PersistedJobResult) := do
  let step := transition S path old posting current normalized
  let occurrence := step.occurrence S db.jobOccurrenceSeq posting normalized
  let wasClosed := previouslyClosed path old current
  let db := db.writeOccurrence step occurrence
  let (db, posting) ← db.mergeJobDetails cfg posting occurrence observation
  let db := db.enqueueEvidence cfg posting occurrence
  let db := { db with
    statusLogs := db.statusLogs ++ pathStatusValues path posting wasClosed }
  let db := db.recordSourceObservations
    (sourceObservationValues S posting occurrence observation)
  let db := db.recordDiscoveryRows cfg (step.eventRows posting occurrence)
  return (db, ⟨posting, stateForPersistence (created path old current) step.createdRepost
    wasClosed posting.isClosed (contentChanged path old posting)⟩)

/-- A write that touched the rows of one job only. -/
structure Db.WritesJob (db db' : Db) (baseHash : Digest) (rows : JobRows) : Prop where
  wf : db'.WF
  job : db'.job baseHash = some rows
  frame : ∀ h, h ≠ baseHash → db'.job h = db.job h
  companies : db'.companies = db.companies
  postingSeq : db.jobPostingSeq ≤ db'.jobPostingSeq
  occurrenceSeq : db.jobOccurrenceSeq ≤ db'.jobOccurrenceSeq

theorem sourceObservationValues_spec {posting : JobPosting} {occurrence : JobOccurrence}
    {job : NormalizedJob} {row : JobSourceObservation}
    (h : row ∈ sourceObservationValues S posting occurrence job) :
    row.jobId = posting.id ∧ row.occurrenceId = occurrence.id := by
  unfold sourceObservationValues at h
  split_ifs at h
  · simp at h
  · rw [List.mem_singleton.mp h]
    exact ⟨rfl, rfl⟩

theorem OccurrenceStep.eventRows_spec {step : OccurrenceStep} {posting : JobPosting}
    {occurrence : JobOccurrence} {e : DiscoveryEvent} (h : e ∈ step.eventRows posting occurrence) :
    e.jobId = posting.id ∧ e.occurrenceId = occurrence.id := by
  unfold OccurrenceStep.eventRows at h
  split at h
  · rw [List.mem_singleton.mp h]
    exact ⟨rfl, rfl⟩
  · simp at h

theorem pathStatusValues_job {posting : JobPosting} {wasClosed : Option Bool} {l : StatusLog}
    (h : l ∈ pathStatusValues path posting wasClosed) : l.jobId = posting.id := by
  cases path with
  | single => simp [pathStatusValues] at h
  | bulk =>
    simp only [pathStatusValues, statusValues] at h
    split_ifs at h
    · rw [List.mem_singleton.mp h]
    · simp at h

/-- An event refers to a new occurrence, so it never conflicts with a stored one. -/
theorem OccurrenceStep.foldl_insertNew {step : OccurrenceStep} {posting : JobPosting} {id : ℕ}
    {normalized : NormalizedJob} {events : List DiscoveryEvent}
    (h : ∀ e ∈ events, e.occurrenceId < id) :
    (step.eventRows posting (step.occurrence S id posting normalized)).foldl
        (Table.insertNew fun a b => a.occurrenceId = b.occurrenceId) events =
      events ++ step.eventRows posting (step.occurrence S id posting normalized) := by
  rcases step with ⟨kind, previous, _ | _⟩ | _ | _ | _
  · simp [eventRows]
  · simp only [eventRows, List.foldl_cons, List.foldl_nil]
    refine Table.insertNew_of_no_conflict fun e he => ?_
    have := h e he
    exact decide_eq_false (by simp only [occurrence, newOccurrence]; omega)
  all_goals simp [eventRows]

theorem Db.recordDiscoveryRows_eq (db : Db) (rows : List DiscoveryEvent) :
    db.recordDiscoveryRows cfg rows = { db with
      notificationEvents := if cfg.suppressNotifications then db.notificationEvents
        else rows.foldl (Table.insertNew fun a b => a.occurrenceId = b.occurrenceId)
          db.notificationEvents } := by
  unfold Db.recordDiscoveryRows
  split_ifs <;> rfl

namespace Db

variable {db : Db} {jobId : ℕ}

/-- An occurrence is written to the occurrences only. -/
theorem writeOccurrence_eq (db : Db) (step : OccurrenceStep) (occurrence : JobOccurrence) :
    db.writeOccurrence step occurrence = { db with
      jobOccurrences := (db.writeOccurrence step occurrence).jobOccurrences
      jobOccurrenceSeq := (db.writeOccurrence step occurrence).jobOccurrenceSeq } := by
  cases step <;> rfl

theorem writeOccurrence_seq (db : Db) (step : OccurrenceStep) (occurrence : JobOccurrence) :
    db.jobOccurrenceSeq ≤ (db.writeOccurrence step occurrence).jobOccurrenceSeq := by
  cases step <;> simp [writeOccurrence]

/-- A step inserts the next id. -/
theorem mem_newKeys {step : OccurrenceStep} (occurrence : JobOccurrence) {key : ℕ × ℕ}
    (h : key ∈ step.newKeys db.jobOccurrenceSeq jobId) :
    key.1 = db.jobOccurrenceSeq ∧ key.2 = jobId ∧
      key.1 < (db.writeOccurrence step occurrence).jobOccurrenceSeq := by
  cases step with
  | create kind previous notify =>
    obtain rfl := List.mem_singleton.mp h
    exact ⟨rfl, rfl, Nat.lt_succ_self _⟩
  | _ => cases h

/-- The ids after a step are in order. -/
theorem newKeys_sorted (hwf : db.WF) (step : OccurrenceStep) (jobId : ℕ) :
    ((db.occurrenceKeys ++ step.newKeys db.jobOccurrenceSeq jobId).map
      Prod.fst).Pairwise (· < ·) := by
  rw [List.map_append, List.pairwise_append]
  refine ⟨hwf.occurrenceId, ?_, fun i hi j hj => ?_⟩
  · cases step <;> simp [OccurrenceStep.newKeys]
  · obtain ⟨key, hk, rfl⟩ := List.mem_map.mp hi
    obtain ⟨key', hk', rfl⟩ := List.mem_map.mp hj
    cases step with
    | create kind previous notify =>
      obtain rfl := List.mem_singleton.mp hk'
      exact hwf.occurrence_lt key hk
    | _ => cases hk'

/-- Saving details changes the occurrences and the postings only. -/
theorem setDetails_eq (db : Db) (posting : JobPosting) (occurrence : JobOccurrence)
    (details : Option (Option JobDetails)) :
    db.setDetails posting occurrence details = { db with
      jobOccurrences := (db.setDetails posting occurrence details).jobOccurrences
      jobPostings := (db.setDetails posting occurrence details).jobPostings } := by
  cases details <;> rfl

end Db

/-- The rows that a write adds to a posting beside its occurrence. -/
structure AddedRows where
  observations : List JobSourceObservation
  events : List DiscoveryEvent
  logs : List StatusLog

/-- The tables after a write: a posting stands in the place of another, its occurrences are written,
and rows of it are added. -/
structure Db.Effected (db db' : Db) (posting posting' : JobPosting) (occurrenceId : ℕ)
    (newKeys : List (ℕ × ℕ)) (added : AddedRows) : Prop where
  rest : db' = { db with
    jobOccurrences := db'.jobOccurrences
    jobPostings := db'.jobPostings
    evidenceChecks := db'.evidenceChecks
    statusLogs := db.statusLogs ++ added.logs
    jobSourceObservations := added.observations.foldl
      (fun t row => Table.upsert JobSourceObservation.conflicts row t) db.jobSourceObservations
    notificationEvents := db.notificationEvents ++ added.events
    jobOccurrenceSeq := db'.jobOccurrenceSeq }
  stored : posting ∈ db.jobPostings
  find : ∀ h, db'.postingByHash h =
    (db.postingByHash h).map fun r => if r.id = posting.id then posting' else r
  companies : ∀ r ∈ db'.jobPostings, ∃ q ∈ db.jobPostings, r.companyId = q.companyId
  postingKeys : db'.postingKeys = db.postingKeys
  other_occurrences : ∀ k, k ≠ posting.id → db'.occurrencesOf k = db.occurrencesOf k
  keys : db'.occurrenceKeys = db.occurrenceKeys ++ newKeys
  keys_sorted : (db'.occurrenceKeys.map Prod.fst).Pairwise (· < ·)
  new_key : ∀ key ∈ newKeys, key.2 = posting.id ∧ key.1 < db'.jobOccurrenceSeq
  seq : db.jobOccurrenceSeq ≤ db'.jobOccurrenceSeq
  occurrence_key : (occurrenceId, posting.id) ∈ db'.occurrenceKeys
  unverified : ∀ c ∈ db'.evidenceChecks, c.verifiedAt = none
  observation_ref : ∀ row ∈ added.observations,
    row.jobId = posting.id ∧ row.occurrenceId = occurrenceId
  event_ref : ∀ e ∈ added.events, e.jobId = posting.id ∧ e.occurrenceId = occurrenceId
  log_job : ∀ l ∈ added.logs, l.jobId = posting.id

theorem JobSourceObservation.conflicts_job (row r : JobSourceObservation)
    (h : JobSourceObservation.conflicts row r = true) : r.jobId = row.jobId := by
  simp only [JobSourceObservation.conflicts, Bool.and_eq_true, decide_eq_true_eq] at h
  exact h.1.1.1.symm

namespace Db.Effected

variable {db db' : Db} {posting posting' : JobPosting} {occurrenceId : ℕ}
  {newKeys : List (ℕ × ℕ)} {added : AddedRows}

theorem observation_job (h : db.Effected db' posting posting' occurrenceId newKeys added) :
    ∀ row ∈ added.observations, row.jobId = posting.id :=
  fun row hr => (h.observation_ref row hr).1

/-- The tables stay well formed. -/
theorem wf (h : db.Effected db' posting posting' occurrenceId newKeys added) (hwf : db.WF) :
    db'.WF := by
  have hpid : posting.id ∈ db'.postingKeys.map Prod.fst := by
    rw [h.postingKeys]
    exact List.mem_map_of_mem (Db.mem_postingKeys h.stored)
  have hkept : ∀ key ∈ db.occurrenceKeys, key ∈ db'.occurrenceKeys := fun key hk => by
    rw [h.keys]
    exact List.mem_append_left _ hk
  exact
    { companyId := by rw [h.rest]; exact hwf.companyId
      companyName := by rw [h.rest]; exact hwf.companyName
      company_lt := by rw [h.rest]; exact hwf.company_lt
      posting_id := h.postingKeys ▸ hwf.posting_id
      posting_hash := h.postingKeys ▸ hwf.posting_hash
      posting_lt := by rw [h.postingKeys, h.rest]; exact hwf.posting_lt
      posting_company := fun r hr => by
        obtain ⟨q, hq, hc⟩ := h.companies r hr
        rw [hc, h.rest]
        exact hwf.posting_company q hq
      occurrenceId := h.keys_sorted
      occurrence_lt := fun key hk => by
        rw [h.keys, List.mem_append] at hk
        rcases hk with hk | hk
        · exact (hwf.occurrence_lt key hk).trans_le h.seq
        · exact (h.new_key key hk).2
      occurrence_job := fun key hk => by
        rw [h.keys, List.mem_append] at hk
        rcases hk with hk | hk
        · rw [h.postingKeys]
          exact hwf.occurrence_job key hk
        · rw [(h.new_key key hk).1]
          exact hpid
      observation_ref := fun b hb => by
        rw [h.rest] at hb
        rcases Table.mem_foldl_upsert hb with hb | hb
        · rw [(h.observation_ref b hb).1, (h.observation_ref b hb).2]
          exact h.occurrence_key
        · exact hkept _ (hwf.observation_ref b hb)
      event_ref := fun e he => by
        rw [h.rest] at he
        rcases List.mem_append.mp he with he | he
        · exact hkept _ (hwf.event_ref e he)
        · rw [(h.event_ref e he).1, (h.event_ref e he).2]
          exact h.occurrence_key
      log_job := fun l hl => by
        rw [h.rest] at hl
        rcases List.mem_append.mp hl with hl | hl
        · rw [h.postingKeys]
          exact hwf.log_job l hl
        · rw [h.log_job l hl]
          exact hpid
      unverified := h.unverified }

/-- The rows of the posting. -/
theorem job (h : db.Effected db' posting posting' occurrenceId newKeys added)
    (hid : posting'.id = posting.id) (hp : db.postingByHash posting.baseHash = some posting) :
    db'.job posting.baseHash = some
      { posting := posting'
        occurrences := db'.occurrencesOf posting.id
        observations := added.observations.foldl
          (fun t row => Table.upsert JobSourceObservation.conflicts row t)
          (db.rowsOf posting).observations
        events := (db.rowsOf posting).events ++ added.events
        statusLogs := (db.rowsOf posting).statusLogs ++ added.logs } := by
  rw [Db.job, h.find, hp]
  simp only [Option.map_some, if_true, Option.some.injEq, Db.rowsOf, JobRows.mk.injEq, hid,
    true_and]
  refine ⟨?_, ?_, ?_⟩
  · rw [h.rest]
    exact (Table.rowsOf_foldl_upsert JobSourceObservation.conflicts_job h.observation_job).1
  · rw [h.rest]
    rw [Table.rowsOf_append, Table.rowsOf_of_forall fun e he => (h.event_ref e he).1]
  · rw [h.rest]
    rw [Table.rowsOf_append, Table.rowsOf_of_forall h.log_job]

/-- The rows of another posting stay. -/
theorem rowsOf_ne (h : db.Effected db' posting posting' occurrenceId newKeys added)
    {q : JobPosting} (hq : q.id ≠ posting.id) : db'.rowsOf q = db.rowsOf q := by
  simp only [Db.rowsOf, JobRows.mk.injEq, true_and]
  refine ⟨h.other_occurrences q.id hq, ?_, ?_, ?_⟩
  · rw [h.rest]
    exact (Table.rowsOf_foldl_upsert JobSourceObservation.conflicts_job h.observation_job).2 q.id hq
  · rw [h.rest]
    exact Table.rowsOf_append_of_ne fun e he => (h.event_ref e he).1 ▸ hq.symm
  · rw [h.rest]
    exact Table.rowsOf_append_of_ne fun l hl => h.log_job l hl ▸ hq.symm

/-- So do the other jobs. -/
theorem frame (h : db.Effected db' posting posting' occurrenceId newKeys added) (hwf : db.WF)
    {baseHash : Digest} (hne : baseHash ≠ posting.baseHash) :
    db'.job baseHash = db.job baseHash := by
  rw [Db.job, Db.job, h.find]
  cases hq : db.postingByHash baseHash with
  | none => rfl
  | some q =>
    obtain ⟨hqm, rfl⟩ := Db.postingByHash_mem hq
    have hid : q.id ≠ posting.id := hwf.id_ne_of_hash_ne hqm h.stored hne
    simp only [Option.map_some, if_neg hid, h.rowsOf_ne hid]

end Db.Effected

/-- **The rest of a write** acts on the job of its posting as `writeEffects`. -/
theorem effect_spec (cfg : Config) (S : Services) (path : WritePath) {db : Db} (hwf : db.WF)
    {h : Digest} {rows : JobRows} (hj : db.job h = some rows) (old : Option JobPosting)
    (normalized observation : NormalizedJob) :
    match writeEffects cfg S path db.jobOccurrenceSeq rows old normalized observation with
    | none => ∃ e, effect cfg S path db old normalized observation rows.posting
        rows.occurrences.getLast? = .error e
    | some (rows', state) => ∃ db',
        effect cfg S path db old normalized observation rows.posting rows.occurrences.getLast? =
          .ok (db', ⟨rows'.posting, state⟩) ∧ db.WritesJob db' h rows' := by
  obtain ⟨p, hp, rfl⟩ := Option.map_eq_some_iff.mp hj
  obtain ⟨hpm, rfl⟩ := Db.postingByHash_mem hp
  -- the step, the occurrence it writes, and the tables after it
  set current := (db.rowsOf p).occurrences.getLast? with hcur
  set step := transition S path old p current normalized with hstep
  set occurrence := step.occurrence S db.jobOccurrenceSeq p normalized with hocc
  have ht : step.Targets (db.occurrencesOf p.id).getLast? := transition_targets ..
  obtain ⟨-, hg, hgo, hkeys, hkey⟩ := Db.writeOccurrence_spec (S := S) hwf normalized ht
  have hrest := db.writeOccurrence_eq step occurrence
  set db₁ := db.writeOccurrence step occurrence with hdb₁
  have hsorted : (db₁.occurrenceKeys.map Prod.fst).Pairwise (· < ·) :=
    hkeys ▸ Db.newKeys_sorted hwf step p.id
  have hnodup : (db₁.jobOccurrences.map (·.id)).Nodup := by
    rw [Db.occurrenceKeys, List.map_map] at hsorted
    exact hsorted.imp fun h => Nat.ne_of_lt h
  have hunverified : ∀ c ∈ db₁.evidenceChecks, c.verifiedAt = none := by
    rw [hrest]
    exact hwf.unverified
  have hwrite : writeEffects cfg S path db.jobOccurrenceSeq (db.rowsOf p) old normalized
      observation = (detailsUpdate occurrence observation).map fun details => _ := rfl
  rw [hwrite]
  cases hd : detailsUpdate occurrence observation with
  | none =>
    refine ⟨.valueError "max() iterable argument is empty", ?_⟩
    simp only [effect, ← hstep, Db.rowsOf, ← hocc, ← hdb₁,
      Db.mergeJobDetails_eq hunverified, hd]
    rfl
  | some details =>
    simp only [Option.map_some]
    -- the tables after the details are saved and their evidence is queued
    set p' : JobPosting := { p with details := details.getD p.details } with hp'
    have hpm₁ : p ∈ db₁.jobPostings := by
      rw [hrest]
      exact hpm
    obtain ⟨hg₂, hgo₂, hkeys₂, hpkeys₂, hfind₂, hcomp₂⟩ := Db.setDetails_spec
      (by rw [hrest]; exact hwf.posting_id_nodup) hnodup hpm₁ (hg.trans (step.place_eq _ _)) details
    have hrest₂ := db₁.setDetails_eq p occurrence details
    set db₂ := db₁.setDetails p occurrence details with hdb₂
    obtain ⟨checks, hchecks, hunverified₂⟩ := db₂.enqueueEvidence_spec cfg
      (by rw [hrest₂]; exact hunverified) p' occurrence
    set added : AddedRows :=
      { observations := sourceObservationValues S p occurrence observation
        events := if cfg.suppressNotifications then [] else step.eventRows p occurrence
        logs := pathStatusValues path p (previouslyClosed path old current) } with hadded
    set db' : Db := { db with
      jobOccurrences := db₂.jobOccurrences
      jobPostings := db₂.jobPostings
      evidenceChecks := checks
      statusLogs := db.statusLogs ++ added.logs
      jobSourceObservations := added.observations.foldl
        (fun t row => Table.upsert JobSourceObservation.conflicts row t) db.jobSourceObservations
      notificationEvents := db.notificationEvents ++ added.events
      jobOccurrenceSeq := db₁.jobOccurrenceSeq } with hdb'
    have heffected : db.Effected db' p p' occurrence.id
        (step.newKeys db.jobOccurrenceSeq p.id) added :=
      { rest := rfl
        stored := hpm
        find := fun h' => by
          rw [show db'.postingByHash h' = db₂.postingByHash h' from rfl, hfind₂, hrest]
          rfl
        companies := fun r hr => by
          obtain ⟨q, hq, hc⟩ := hcomp₂ r hr
          rw [hrest] at hq
          exact ⟨q, hq, hc⟩
        postingKeys := hpkeys₂.trans (by rw [hrest]; rfl)
        other_occurrences := fun k hk => (hgo₂ k hk).trans (hgo k hk)
        keys := hkeys₂.trans hkeys
        keys_sorted := by rw [show db'.occurrenceKeys = _ from hkeys₂]; exact hsorted
        new_key := fun key hk => (Db.mem_newKeys occurrence hk).2
        seq := db.writeOccurrence_seq step occurrence
        occurrence_key := by rw [show db'.occurrenceKeys = _ from hkeys₂]; exact hkey
        unverified := hunverified₂
        observation_ref := fun row hr => sourceObservationValues_spec hr
        event_ref := fun e he => by
          rw [hadded] at he
          split_ifs at he
          · cases he
          · exact OccurrenceStep.eventRows_spec he
        log_job := fun l hl => pathStatusValues_job hl }
    have hadd : ∀ events, (if cfg.suppressNotifications then events
        else events ++ step.eventRows p occurrence) = events ++ added.events := by
      intro events
      rw [hadded]
      split_ifs
      · rw [List.append_nil]
      · rfl
    refine ⟨db', ?_, heffected.wf hwf, ?_, fun h' hh' => heffected.frame hwf hh', rfl, le_rfl,
      heffected.seq⟩
    · have hevents : (step.eventRows p' occurrence).foldl
          (Table.insertNew fun a b => a.occurrenceId = b.occurrenceId) db.notificationEvents =
            db.notificationEvents ++ step.eventRows p occurrence :=
        OccurrenceStep.foldl_insertNew fun e he => hwf.occurrence_lt _ (hwf.event_ref e he)
      have hrest' : db₂ = { db with
          jobOccurrences := db₂.jobOccurrences, jobPostings := db₂.jobPostings,
          jobOccurrenceSeq := db₁.jobOccurrenceSeq } := by
        conv_lhs => rw [hrest₂, hrest]
      simp only [effect, ← hstep, Db.rowsOf, ← hocc, ← hdb₁, Db.mergeJobDetails_eq hunverified,
        hd]
      change Except.ok (_, _) = _
      rw [← hdb₂, ← hp', hchecks, Db.recordDiscoveryRows_eq, hdb', hrest']
      simp only [Db.recordSourceObservations]
      rw [hevents, hadd]
      rfl
    · have hplaced := hg₂.trans (step.place_eq _ _).symm
      rw [heffected.job rfl hp, show db'.occurrencesOf p.id = _ from hplaced]
      rw [← hadd]
      rfl

end JobPing
