import JobPing.Refinement

/-!
# The statements of a batch

The posting statement of either path acts on its job as `upsertRows` (`putPosting_spec`), and the
multi-row upsert on each of its jobs (`upsertPostings_spec`). The loop of the bulk path collects
its log rows and writes them at the end; as no statement reads them back, it acts on each of its
jobs as `writeEffects` (`writeRows_ok`, `writeRows_isOk`).
-/

namespace JobPing

variable {cfg : Config} {S : Services} {path : WritePath}

/-! ## The posting statements -/

namespace Db

variable {db : Db}

theorem savePosting_eq (existing : Option JobPosting) (values : PostingValues) :
    db.savePosting existing values =
      if !db.hasCompany values.companyId then .error .integrityError
      else .ok (db.putPosting existing values (·.assign values)) := by
  cases existing <;> rfl

theorem upsertPosting_eq (repostedHashes : List Digest) (values : PostingValues) :
    db.upsertPosting repostedHashes values =
      db.putPosting (db.postingByHash values.baseHash) values
        fun stored => stored.conflictUpdate (stored.baseHash ∈ repostedHashes) values := by
  unfold upsertPosting putPosting
  cases db.postingByHash values.baseHash <;> rfl

/-- The posting statement of a path. -/
def pathUpdate (path : WritePath) (reposted : Bool) (values : PostingValues)
    (posting : JobPosting) : JobPosting :=
  match path with
  | .single => posting.assign values
  | .bulk => posting.conflictUpdate reposted values

/-- **The posting statement** acts on its job as `upsertRows`. -/
theorem putPosting_spec (path : WritePath) (hwf : db.WF) (values : PostingValues)
    (hfk : db.hasCompany values.companyId = true) (update : JobPosting → JobPosting)
    (reposted : Bool)
    (hupdate : ∀ p, p.baseHash = values.baseHash → update p = pathUpdate path reposted values p)
    (hid : ∀ p, (update p).id = p.id) (hhash : ∀ p, (update p).baseHash = p.baseHash)
    (hcomp : ∀ p, (update p).companyId = values.companyId) :
    let put := db.putPosting (db.postingByHash values.baseHash) values update
    let rows := upsertRows path db.jobPostingSeq reposted values (db.job values.baseHash)
    put.2 = rows.posting ∧ put.2.baseHash = values.baseHash ∧
      db.WritesJob put.1 values.baseHash rows ∧
      put.1.jobOccurrenceSeq = db.jobOccurrenceSeq := by
  intro put rows
  obtain ⟨hh, -, hjob, hframe⟩ := putPosting_job hwf values hid hhash
  have hrows : JobRows.put (db.job values.baseHash) put.2 = rows ∧ put.2 = rows.posting := by
    cases hs : db.postingByHash values.baseHash with
    | none => simp [put, rows, job, hs, putPosting, JobRows.put, upsertRows]
    | some stored =>
      have hstored := hupdate stored (postingByHash_mem hs).2
      cases path <;>
        simp [put, rows, job, hs, putPosting, JobRows.put, upsertRows, rowsOf, hstored,
          pathUpdate]
  refine ⟨hrows.2, hh, ?_, ?_⟩
  · refine
      { wf := putPosting_wf hwf hid hhash hcomp hfk
        job := hjob.trans (congrArg some hrows.1)
        frame := hframe
        companies := ?_
        postingSeq := ?_
        occurrenceSeq := ?_ } <;>
      simp only [put, putPosting] <;> cases db.postingByHash values.baseHash <;> simp
  · simp only [put, putPosting]
    cases db.postingByHash values.baseHash <;> rfl

/-! ## Writing the log tables early or late -/

/-- Append to the three tables no statement of a write reads back. -/
def log (cfg : Config) (db : Db) (logs : List StatusLog) (observations : List JobSourceObservation)
    (events : List DiscoveryEvent) : Db :=
  (({ db with statusLogs := db.statusLogs ++ logs }).recordSourceObservations
    observations).recordDiscoveryRows cfg events

theorem log_eq (logs : List StatusLog) (observations : List JobSourceObservation)
    (events : List DiscoveryEvent) :
    db.log cfg logs observations events = { db with
      statusLogs := db.statusLogs ++ logs
      jobSourceObservations := observations.foldl
        (fun t row => Table.upsert JobSourceObservation.conflicts row t) db.jobSourceObservations
      notificationEvents := if cfg.suppressNotifications then db.notificationEvents
        else events.foldl (Table.insertNew fun a b => a.occurrenceId = b.occurrenceId)
          db.notificationEvents } := by
  rw [log, recordDiscoveryRows_eq]
  rfl

theorem log_log (l₁ l₂ : List StatusLog) (o₁ o₂ : List JobSourceObservation)
    (e₁ e₂ : List DiscoveryEvent) :
    (db.log cfg l₁ o₁ e₁).log cfg l₂ o₂ e₂ = db.log cfg (l₁ ++ l₂) (o₁ ++ o₂) (e₁ ++ e₂) := by
  simp only [log_eq, List.append_assoc, List.foldl_append]
  split_ifs <;> rfl

theorem log_writeOccurrence (l : List StatusLog) (o : List JobSourceObservation)
    (e : List DiscoveryEvent) (step : OccurrenceStep) (occurrence : JobOccurrence) :
    (db.log cfg l o e).writeOccurrence step occurrence =
      (db.writeOccurrence step occurrence).log cfg l o e := by
  simp only [log_eq]
  cases step <;> rfl

theorem log_mergeJobDetails (l : List StatusLog) (o : List JobSourceObservation)
    (e : List DiscoveryEvent) (posting : JobPosting) (occurrence : JobOccurrence)
    (observation : NormalizedJob) :
    (db.log cfg l o e).mergeJobDetails cfg posting occurrence observation =
      (db.mergeJobDetails cfg posting occurrence observation).map
        fun r => (r.1.log cfg l o e, r.2) := by
  have hv : (db.log cfg l o e).evidenceVerified posting occurrence =
      db.evidenceVerified posting occurrence := by rw [log_eq]; rfl
  simp only [mergeJobDetails, hv]
  split_ifs
  · rfl
  · rfl
  · cases mergeDetails occurrence.details observation.details with
    | none => rfl
    | some merged => simp only [log_eq]; rfl

theorem log_enqueueEvidence (l : List StatusLog) (o : List JobSourceObservation)
    (e : List DiscoveryEvent) (posting : JobPosting) (occurrence : JobOccurrence) :
    (db.log cfg l o e).enqueueEvidence cfg posting occurrence =
      (db.enqueueEvidence cfg posting occurrence).log cfg l o e := by
  simp only [enqueueEvidence, log_eq]
  split_ifs <;> rfl

end Db

/-! ## The loop of the bulk path -/

theorem effect_eq (db : Db) (old : Option JobPosting) (normalized observation : NormalizedJob)
    (posting : JobPosting) (current : Option JobOccurrence) :
    effect cfg S path db old normalized observation posting current =
      let step := transition S path old posting current normalized
      let occurrence := step.occurrence S db.jobOccurrenceSeq posting normalized
      let wasClosed := previouslyClosed path old current
      ((db.writeOccurrence step occurrence).mergeJobDetails cfg posting occurrence
        observation).map fun r =>
          ((r.1.enqueueEvidence cfg r.2 occurrence).log cfg
            (pathStatusValues path r.2 wasClosed)
            (sourceObservationValues S r.2 occurrence observation) (step.eventRows r.2 occurrence),
            ⟨r.2, stateForPersistence (created path old current) step.createdRepost
              wasClosed r.2.isClosed (contentChanged path old r.2)⟩) := by
  simp only [effect]
  cases (db.writeOccurrence _ _).mergeJobDetails cfg posting _ observation <;> rfl

/-- One round of the loop, its collected values flushed, is the rest of a write. -/
theorem writeRow_flush (cfg : Config) (S : Services) (state : BatchState) (row : BatchRow)
    (posting : JobPosting)
    (current : Option JobOccurrence) :
    (writeRow cfg S state row posting current).map (fun s => (s.flush cfg, s.resultByHash)) =
      (effect cfg S .bulk (state.flush cfg) row.old row.normalized row.observation posting
        current).map fun r => (r.1, state.resultByHash ++ [(r.2.posting.baseHash, r.2)]) := by
  have hflush : state.flush cfg =
      state.db.log cfg state.statusValues state.sourceValues state.eventValues := rfl
  have hseq : (state.flush cfg).jobOccurrenceSeq = state.db.jobOccurrenceSeq := by
    rw [hflush, Db.log_eq]
  rw [effect_eq, hseq]
  simp only [writeRow, hflush, Db.log_writeOccurrence, Db.log_mergeJobDetails,
    transition]
  cases (state.db.writeOccurrence _ _).mergeJobDetails cfg posting _ row.observation with
  | error e => rfl
  | ok r =>
    simp only [Except.map, bind, Except.bind, pure, Except.pure, Db.log_enqueueEvidence,
      Db.log_log]
    rfl

/-- A round of the loop succeeds or fails with `writeEffects`, and writes one job. -/
theorem writeRow_spec {state : BatchState} (hwf : (state.flush cfg).WF) (row : BatchRow)
    {h : Digest} {rows : JobRows} (hj : (state.flush cfg).job h = some rows) :
    match writeEffects cfg S .bulk (state.flush cfg).jobOccurrenceSeq rows row.old
        row.normalized row.observation with
    | none => ∃ e, writeRow cfg S state row rows.posting rows.occurrences.getLast? = .error e
    | some (rows', outcome) => ∃ state',
        writeRow cfg S state row rows.posting rows.occurrences.getLast? = .ok state' ∧
          state'.resultByHash = state.resultByHash ++ [(h, ⟨rows'.posting, outcome⟩)] ∧
          (state.flush cfg).WritesJob (state'.flush cfg) h rows' := by
  have hspec := effect_spec cfg S .bulk hwf hj row.old row.normalized
    row.observation
  have hflush := writeRow_flush cfg S state row rows.posting
    rows.occurrences.getLast?
  cases hw : writeEffects cfg S .bulk (state.flush cfg).jobOccurrenceSeq rows row.old
      row.normalized row.observation with
  | none =>
    simp only [hw] at hspec ⊢
    obtain ⟨e, he⟩ := hspec
    rw [he] at hflush
    cases hr : writeRow cfg S state row rows.posting rows.occurrences.getLast? with
    | error e' => exact ⟨e', rfl⟩
    | ok state' =>
      rw [hr] at hflush
      cases hflush
  | some r =>
    obtain ⟨rows', outcome⟩ := r
    simp only [hw] at hspec ⊢
    obtain ⟨db', he, hwrites⟩ := hspec
    rw [he] at hflush
    cases hr : writeRow cfg S state row rows.posting rows.occurrences.getLast? with
    | error e' =>
      rw [hr] at hflush
      cases hflush
    | ok state' =>
      rw [hr] at hflush
      simp only [Except.map, Except.ok.injEq, Prod.mk.injEq] at hflush
      obtain ⟨hdb, hres⟩ := hflush
      have hhash : rows'.posting.baseHash = h := by
        obtain ⟨p, hp, rfl⟩ := Option.map_eq_some_iff.mp hwrites.job
        exact (Db.postingByHash_mem hp).2
      exact ⟨state', rfl, by rw [hres, hhash], hdb ▸ hwrites⟩

/-- A write that touched the rows of some jobs only. -/
structure Db.WritesJobs (db db' : Db) (hashes : List Digest) : Prop where
  wf : db'.WF
  frame : ∀ h, h ∉ hashes → db'.job h = db.job h
  companies : db'.companies = db.companies
  postingSeq : db.jobPostingSeq ≤ db'.jobPostingSeq
  occurrenceSeq : db.jobOccurrenceSeq ≤ db'.jobOccurrenceSeq

theorem Db.WritesJobs.refl {db : Db} (hwf : db.WF) : db.WritesJobs db [] :=
  ⟨hwf, fun _ _ => rfl, rfl, le_rfl, le_rfl⟩

theorem Db.WritesJob.cons {db db' db'' : Db} {h : Digest} {rows : JobRows} {hashes : List Digest}
    (hfirst : db.WritesJob db' h rows) (hrest : db'.WritesJobs db'' hashes) :
    db.WritesJobs db'' (h :: hashes) where
  wf := hrest.wf
  frame k hk := by
    rw [hrest.frame k (List.not_mem_of_not_mem_cons hk), hfirst.frame k (List.ne_of_not_mem_cons hk)]
  companies := hrest.companies.trans hfirst.companies
  postingSeq := hfirst.postingSeq.trans hrest.postingSeq
  occurrenceSeq := hfirst.occurrenceSeq.trans hrest.occurrenceSeq

/-- One element of the loop's input and its result. -/
def RowWritten (cfg : Config) (S : Services) (db db' : Db)
    (read : BatchRow × JobPosting × Option JobOccurrence) (result : Digest × PersistedJobResult) :
    Prop :=
  ∃ id rows rows', db.jobOccurrenceSeq ≤ id ∧ db.job read.2.1.baseHash = some rows ∧
    writeEffects cfg S .bulk id rows read.1.old read.1.normalized read.1.observation =
      some (rows', result.2.state) ∧
    result.1 = read.2.1.baseHash ∧ result.2.posting = rows'.posting ∧
    db'.job read.2.1.baseHash = some rows'

/-- What the loop is given: the rows of each job as they are stored. -/
def RowRead (db : Db) (read : BatchRow × JobPosting × Option JobOccurrence) : Prop :=
  ∃ rows, db.job read.2.1.baseHash = some rows ∧ rows.posting = read.2.1 ∧
    rows.occurrences.getLast? = read.2.2

/-- **The loop** writes its jobs one after the other and leaves the others alone. -/
theorem writeRows_ok {reads : List (BatchRow × JobPosting × Option JobOccurrence)} :
    ∀ (state : BatchState) {state' : BatchState}, (state.flush cfg).WF →
      (reads.map (·.2.1.baseHash)).Nodup → (∀ read ∈ reads, RowRead (state.flush cfg) read) →
      writeRows cfg S state reads = .ok state' →
      (state.flush cfg).WritesJobs (state'.flush cfg) (reads.map (·.2.1.baseHash)) ∧
        ∃ results, state'.resultByHash = state.resultByHash ++ results ∧
          List.Forall₂ (RowWritten cfg S (state.flush cfg) (state'.flush cfg)) reads results := by
  induction reads with
  | nil =>
    intro state state' hwf _ _ h
    cases h
    exact ⟨.refl hwf, [], by simp, .nil⟩
  | cons read reads ih =>
    obtain ⟨row, posting, current⟩ := read
    intro state state' hwf hnd hreads h
    rw [List.map_cons, List.nodup_cons] at hnd
    obtain ⟨hnew, hnd⟩ := hnd
    obtain ⟨rows, hjob, rfl, rfl⟩ := hreads _ List.mem_cons_self
    have hrow := writeRow_spec (S := S) hwf row hjob
    simp only at hjob hnew
    simp only [writeRows, bind, Except.bind] at h
    cases hw : writeEffects cfg S .bulk (state.flush cfg).jobOccurrenceSeq rows row.old
        row.normalized row.observation with
    | none =>
      simp only [hw] at hrow
      obtain ⟨e, he⟩ := hrow
      rw [he] at h
      cases h
    | some r =>
      obtain ⟨rows', outcome⟩ := r
      simp only [hw] at hrow
      obtain ⟨state₁, he, hres, hwrites⟩ := hrow
      rw [he] at h
      -- the remaining jobs are read from rows this round did not touch
      have hne : ∀ read ∈ reads, read.2.1.baseHash ≠ rows.posting.baseHash :=
        fun read hr heq => hnew (heq ▸ List.mem_map_of_mem (f := (·.2.1.baseHash)) hr)
      have hreads' : ∀ read ∈ reads, RowRead (state₁.flush cfg) read := fun read hr => by
        obtain ⟨rows₂, hj₂, hread⟩ := hreads read (List.mem_cons_of_mem _ hr)
        exact ⟨rows₂, (hwrites.frame _ (hne read hr)).trans hj₂, hread⟩
      obtain ⟨hrest, results, hres', hall⟩ := ih state₁ hwrites.wf hnd hreads' h
      refine ⟨hwrites.cons hrest, (rows.posting.baseHash, ⟨rows'.posting, outcome⟩) :: results,
        by rw [hres', hres, List.append_assoc, List.singleton_append], .cons ?_ ?_⟩
      · exact ⟨_, rows, rows', le_rfl, hjob, hw, rfl, rfl,
          (hrest.frame _ hnew).trans hwrites.job⟩
      · refine Table.forall₂_imp_mem hall fun read hr result hwritten => ?_
        obtain ⟨id, rows₂, rows₂', hid, hj₂, hrest⟩ := hwritten
        exact ⟨id, rows₂, rows₂', hwrites.occurrenceSeq.trans hid,
          (hwrites.frame _ (hne read hr)).symm.trans hj₂, hrest⟩

/-- Whether the details can be merged does not depend on the ids. -/
theorem writeEffects_isSome (id id' : ℕ) (rows : JobRows) (old : Option JobPosting)
    (normalized observation : NormalizedJob) :
    (writeEffects cfg S path id rows old normalized observation).isSome =
      (writeEffects cfg S path id' rows old normalized observation).isSome := by
  simp only [writeEffects, Option.isSome_map, detailsUpdate]
  cases transition S path old rows.posting rows.occurrences.getLast? normalized <;> rfl

/-- The loop succeeds when every write does. -/
theorem writeRows_isOk {reads : List (BatchRow × JobPosting × Option JobOccurrence)} :
    ∀ {state : BatchState}, (state.flush cfg).WF →
      (reads.map (·.2.1.baseHash)).Nodup → (∀ read ∈ reads, RowRead (state.flush cfg) read) →
      (∀ read ∈ reads, ∀ rows, (state.flush cfg).job read.2.1.baseHash = some rows →
        ∃ id, (writeEffects cfg S .bulk id rows read.1.old read.1.normalized
          read.1.observation).isSome) →
      ∃ state', writeRows cfg S state reads = .ok state' := by
  induction reads with
  | nil => exact fun _ _ _ _ => ⟨_, rfl⟩
  | cons read reads ih =>
    obtain ⟨row, posting, current⟩ := read
    intro state hwf hnd hreads hsome
    rw [List.map_cons, List.nodup_cons] at hnd
    obtain ⟨hnew, hnd⟩ := hnd
    obtain ⟨rows, hjob, rfl, rfl⟩ := hreads _ List.mem_cons_self
    obtain ⟨id, hid⟩ := hsome _ List.mem_cons_self rows hjob
    rw [writeEffects_isSome id (state.flush cfg).jobOccurrenceSeq,
      Option.isSome_iff_exists] at hid
    obtain ⟨⟨rows', outcome⟩, hw⟩ := hid
    have hrow := writeRow_spec (S := S) hwf row hjob
    simp only [hw] at hrow
    obtain ⟨state₁, he, -, hwrites⟩ := hrow
    have hne : ∀ read ∈ reads, read.2.1.baseHash ≠ rows.posting.baseHash :=
      fun read hr heq => hnew (heq ▸ List.mem_map_of_mem (f := (·.2.1.baseHash)) hr)
    obtain ⟨state', h'⟩ := ih hwrites.wf hnd
      (fun read hr => by
        obtain ⟨rows₂, hj₂, hread⟩ := hreads read (List.mem_cons_of_mem _ hr)
        exact ⟨rows₂, (hwrites.frame _ (hne read hr)).trans hj₂, hread⟩)
      (fun read hr rows₂ hj₂ => hsome read (List.mem_cons_of_mem _ hr) rows₂
        ((hwrites.frame _ (hne read hr)).symm.trans hj₂))
    exact ⟨state', by simp only [writeRows, bind, Except.bind, he, h']⟩

/-! ## The multi-row upsert -/

namespace Db

variable {db : Db}

/-- The latest occurrence of a stored posting. -/
theorem latestOccurrence_of_job {h : Digest} {rows : JobRows} (hj : db.job h = some rows) :
    db.latestOccurrence rows.posting.id = rows.occurrences.getLast? := by
  obtain ⟨p, -, rfl⟩ := Option.map_eq_some_iff.mp hj
  rfl

theorem job_baseHash {h : Digest} {rows : JobRows} (hj : db.job h = some rows) :
    rows.posting.baseHash = h := by
  obtain ⟨p, hp, rfl⟩ := Option.map_eq_some_iff.mp hj
  exact (postingByHash_mem hp).2

theorem job_posting (h : Digest) : (db.job h).map (·.posting) = db.postingByHash h := by
  simp [job, rowsOf, Option.map_map, Function.comp_def]

/-- One row of the multi-row upsert and its returned posting. -/
def RowUpserted (reposted : Digest → Bool) (db db' : Db) (row : BatchRow)
    (persisted : BatchRow × JobPosting) : Prop :=
  ∃ id, db.jobPostingSeq ≤ id ∧ persisted.1 = row ∧
    let rows := upsertRows .bulk id (reposted row.values.baseHash) row.values
      (db.job row.values.baseHash)
    persisted.2 = rows.posting ∧ persisted.2.baseHash = row.values.baseHash ∧
      db'.job row.values.baseHash = some rows

/-- **The multi-row upsert** writes the posting of each row and nothing else. -/
theorem upsertPostings_spec (repostedHashes : List Digest) (rows : List BatchRow) :
    ∀ {db : Db}, db.WF → (rows.map (·.values.baseHash)).Nodup →
      (∀ row ∈ rows, db.hasCompany row.values.companyId = true) →
      let upserted := db.upsertPostings repostedHashes rows
      db.WritesJobs upserted.1 (rows.map (·.values.baseHash)) ∧
        upserted.1.jobOccurrenceSeq = db.jobOccurrenceSeq ∧
        List.Forall₂ (RowUpserted (fun h => h ∈ repostedHashes) db upserted.1) rows upserted.2 := by
  induction rows with
  | nil => exact fun hwf _ _ => ⟨.refl hwf, rfl, .nil⟩
  | cons row rows ih =>
    intro db hwf hnd hfk
    rw [List.map_cons, List.nodup_cons] at hnd
    obtain ⟨hnew, hnd⟩ := hnd
    obtain ⟨hposting, hhash, hwrites, hseq⟩ := putPosting_spec .bulk hwf row.values
      (hfk row List.mem_cons_self)
      (fun stored => stored.conflictUpdate (stored.baseHash ∈ repostedHashes) row.values)
      (row.values.baseHash ∈ repostedHashes)
      (fun p hp => by simp only [pathUpdate, hp]) (fun _ => rfl) (fun _ => rfl) (fun _ => rfl)
    rw [← upsertPosting_eq] at hposting hhash hwrites hseq
    set put := db.upsertPosting repostedHashes row.values with hput
    have hne : ∀ r ∈ rows, r.values.baseHash ≠ row.values.baseHash :=
      fun r hr heq => hnew (heq ▸ List.mem_map_of_mem (f := (·.values.baseHash)) hr)
    obtain ⟨hrest, hseq', hall⟩ := ih hwrites.wf hnd fun r hr => by
      rw [hasCompany, hwrites.companies]
      exact hfk r (List.mem_cons_of_mem _ hr)
    refine ⟨hwrites.cons hrest, hseq'.trans hseq, .cons ?_ ?_⟩
    · exact ⟨db.jobPostingSeq, le_rfl, rfl, hposting, hhash,
        (hrest.frame _ hnew).trans hwrites.job⟩
    · refine Table.forall₂_imp_mem hall fun r hr persisted hup => ?_
      obtain ⟨id, hid, hrow, hp, hh, hj⟩ := hup
      rw [hwrites.frame _ (hne r hr)] at hp hj
      exact ⟨id, hwrites.postingSeq.trans hid, hrow, hp, hh, hj⟩

end Db

end JobPing
