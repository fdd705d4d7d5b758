import JobPing.EvidenceStore

/-!
# What ingestion writes, seen by the evidence worker

The ingestion of a posting writes one posting and its latest occurrence
(`IngestedRow.write_spec`); merging the details changes nothing else (`mergeDetails_spec`). The
source of a stored occurrence never changes.
-/

namespace JobPing

variable {cfg : Config} {S : Services} {E : EvidenceEnv}

/-! ## Rows without their details -/

/-- A posting without its details. -/
def JobPosting.bare (posting : JobPosting) : JobPosting := { posting with details := none }

/-- An occurrence without its details. -/
def JobOccurrence.bare (occurrence : JobOccurrence) : JobOccurrence :=
  { occurrence with details := none }

/-- The columns of an occurrence that are written once. -/
structure JobOccurrence.SameSource (o o' : JobOccurrence) : Prop where
  id : o'.id = o.id
  jobId : o'.jobId = o.jobId
  source : o'.source = o.source
  sourceId : o'.sourceId = o.sourceId
  identityNamespace : o'.identityNamespace = o.identityNamespace
  externalJobId : o'.externalJobId = o.externalJobId

theorem JobOccurrence.SameSource.refl (o : JobOccurrence) : o.SameSource o :=
  ⟨rfl, rfl, rfl, rfl, rfl, rfl⟩

theorem JobOccurrence.SameSource.trans {o o' o'' : JobOccurrence} (h : o.SameSource o')
    (h' : o'.SameSource o'') : o.SameSource o'' :=
  ⟨h'.id.trans h.id, h'.jobId.trans h.jobId, h'.source.trans h.source,
    h'.sourceId.trans h.sourceId, h'.identityNamespace.trans h.identityNamespace,
    h'.externalJobId.trans h.externalJobId⟩

theorem JobOccurrence.SameSource.of_bare {o o' : JobOccurrence} (h : o'.bare = o.bare) :
    o.SameSource o' := by
  simp only [JobOccurrence.bare, JobOccurrence.mk.injEq] at h
  obtain ⟨hid, hjob, -, -, -, -, -, hnamespace, hexternal, hsource, hsource_id, -⟩ := h
  exact ⟨hid, hjob, hsource, hsource_id, hnamespace, hexternal⟩

theorem JobOccurrence.closedAt_of_bare {o o' : JobOccurrence} (h : o'.bare = o.bare) :
    o'.closedAt = o.closedAt := by
  have := congrArg JobOccurrence.closedAt h
  exact this

theorem JobPosting.columns_of_bare {job job' : JobPosting} (h : job'.bare = job.bare) :
    job'.id = job.id ∧ job'.companyId = job.companyId ∧ job'.isClosed = job.isClosed := by
  simp only [JobPosting.bare, JobPosting.mk.injEq] at h
  simp only [h, and_self]

/-- A target reads only the columns of an occurrence that are written once. -/
theorem JobOccurrence.SameSource.targetFor {o o' : JobOccurrence} (h : o.SameSource o')
    (company : Str) (job : JobPosting) :
    targetFor S company job o' = targetFor S company job o := by
  simp only [JobPing.targetFor, h.source, h.sourceId, h.identityNamespace, h.externalJobId]

theorem targetFor_bare {company : Str} {job job' : JobPosting} (h : job'.bare = job.bare)
    (occurrence : JobOccurrence) :
    targetFor S company job' occurrence = targetFor S company job occurrence := by
  simp only [JobPosting.bare, JobPosting.mk.injEq] at h
  simp only [targetFor, h]

/-! ## The tables -/

namespace Db

variable {db : Db}

theorem postingById_eq_some {id : ℕ} {posting : JobPosting} (hwf : db.WF) :
    db.postingById id = some posting ↔ posting ∈ db.jobPostings ∧ posting.id = id := by
  constructor
  · intro h
    exact ⟨List.mem_of_find?_eq_some h, by simpa using List.find?_some h⟩
  · rintro ⟨hmem, rfl⟩
    exact Table.find?_key hwf.posting_id_nodup hmem

theorem occurrenceById_eq_some {id : ℕ} {occurrence : JobOccurrence} (hwf : db.WF) :
    db.occurrenceById id = some occurrence ↔
      occurrence ∈ db.jobOccurrences ∧ occurrence.id = id := by
  constructor
  · intro h
    exact ⟨List.mem_of_find?_eq_some h, by simpa using List.find?_some h⟩
  · rintro ⟨hmem, rfl⟩
    exact Table.find?_key hwf.occurrenceId_nodup hmem

/-- The latest occurrence of a job is a stored one. -/
theorem latestOccurrence_mem {jobId : ℕ} {occurrence : JobOccurrence}
    (h : db.latestOccurrence jobId = some occurrence) :
    occurrence ∈ db.jobOccurrences ∧ occurrence.jobId = jobId :=
  Table.mem_rowsOf.mp (List.mem_of_getLast? h)

/-- Writing an occurrence of a stored posting keeps the tables well formed. -/
theorem writeOccurrence_wf (hwf : db.WF) {posting : JobPosting} (hmem : posting ∈ db.jobPostings)
    (normalized : NormalizedJob) {step : OccurrenceStep}
    (ht : step.Targets (db.occurrencesOf posting.id).getLast?) :
    (db.writeOccurrence step
      (step.occurrence S db.jobOccurrenceSeq posting normalized)).WF := by
  obtain ⟨-, -, -, hkeys, -⟩ := writeOccurrence_spec (S := S) hwf normalized ht
  set db₁ := db.writeOccurrence step (step.occurrence S db.jobOccurrenceSeq posting normalized)
    with hdb₁
  have hrest : db₁ = { db with
      jobOccurrences := db₁.jobOccurrences, jobOccurrenceSeq := db₁.jobOccurrenceSeq } := by
    rw [hdb₁]
    cases step <;> rfl
  have hseq : db.jobOccurrenceSeq ≤ db₁.jobOccurrenceSeq ∧
      ∀ key ∈ step.newKeys db.jobOccurrenceSeq posting.id, key.1 = db.jobOccurrenceSeq ∧
        key.2 = posting.id ∧ key.1 < db₁.jobOccurrenceSeq := by
    rw [hdb₁]
    cases step <;> simp [Db.writeOccurrence, OccurrenceStep.newKeys]
  have hmono : ∀ key ∈ db.occurrenceKeys, key ∈ db₁.occurrenceKeys := fun key hk => by
    rw [hkeys]
    exact List.mem_append_left _ hk
  have hpostings : db₁.postingKeys = db.postingKeys := by
    rw [hrest]
    rfl
  exact
    { companyId := by rw [hrest]; exact hwf.companyId
      companyName := by rw [hrest]; exact hwf.companyName
      company_lt := by rw [hrest]; exact hwf.company_lt
      posting_id := hpostings ▸ hwf.posting_id
      posting_hash := hpostings ▸ hwf.posting_hash
      posting_lt := by
        rw [hpostings, hrest]
        exact hwf.posting_lt
      posting_company := by rw [hrest]; exact hwf.posting_company
      occurrenceId := by
        rw [hkeys, List.map_append, List.pairwise_append]
        refine ⟨hwf.occurrenceId, ?_, ?_⟩
        · cases step <;> simp [OccurrenceStep.newKeys]
        · intro i hi j hj'
          obtain ⟨key, hk, rfl⟩ := List.mem_map.mp hi
          obtain ⟨key', hk', rfl⟩ := List.mem_map.mp hj'
          rw [(hseq.2 key' hk').1]
          exact hwf.occurrence_lt key hk
      occurrence_lt := fun key hk => by
        rw [hkeys, List.mem_append] at hk
        rcases hk with hk | hk
        · exact (hwf.occurrence_lt key hk).trans_le hseq.1
        · exact (hseq.2 key hk).2.2
      occurrence_job := fun key hk => by
        rw [hpostings]
        rw [hkeys, List.mem_append] at hk
        rcases hk with hk | hk
        · exact hwf.occurrence_job key hk
        · rw [(hseq.2 key hk).2.1]
          exact List.mem_map_of_mem (f := Prod.fst) (mem_postingKeys hmem)
      observation_ref := fun b hb => by
        rw [hrest] at hb
        exact hmono _ (hwf.observation_ref b hb)
      event_ref := fun e he => by
        rw [hrest] at he
        exact hmono _ (hwf.event_ref e he)
      log_job := by
        rw [hpostings, hrest]
        exact hwf.log_job
      unverified := by rw [hrest]; exact hwf.unverified }

/-- Tables with other postings and occurrences of the same keys. -/
theorem WF.of_keys (hwf : db.WF) {postings : List JobPosting} {occurrences : List JobOccurrence}
    (hpostings : (postings.map fun p => (p.id, p.baseHash)) = db.postingKeys)
    (hoccurrences : (occurrences.map fun o => (o.id, o.jobId)) = db.occurrenceKeys)
    (hcompany : ∀ p ∈ postings, ∃ q ∈ db.jobPostings, p.companyId = q.companyId) :
    ({ db with jobPostings := postings, jobOccurrences := occurrences } : Db).WF := by
  set db' : Db := { db with jobPostings := postings, jobOccurrences := occurrences } with hdb'
  have hp : db'.postingKeys = db.postingKeys := hpostings
  have ho : db'.occurrenceKeys = db.occurrenceKeys := hoccurrences
  exact { hwf with
    posting_id := hp ▸ hwf.posting_id
    posting_hash := hp ▸ hwf.posting_hash
    posting_lt := hp ▸ hwf.posting_lt
    posting_company := fun p hmem => by
      obtain ⟨q, hq, heq⟩ := hcompany p hmem
      rw [heq]
      exact hwf.posting_company q hq
    occurrenceId := ho ▸ hwf.occurrenceId
    occurrence_lt := ho ▸ hwf.occurrence_lt
    occurrence_job := by
      rw [ho, hp]
      exact hwf.occurrence_job
    observation_ref := ho ▸ hwf.observation_ref
    event_ref := ho ▸ hwf.event_ref
    log_job := hp ▸ hwf.log_job }

/-! ## Details -/

/-- Tables that differ in the details of postings and occurrences only. -/
structure SameBare (db db' : Db) : Prop where
  rest : db' = { db with
    jobPostings := db'.jobPostings
    jobOccurrences := db'.jobOccurrences }
  postings : db'.jobPostings.map JobPosting.bare = db.jobPostings.map JobPosting.bare
  occurrences :
    db'.jobOccurrences.map JobOccurrence.bare = db.jobOccurrences.map JobOccurrence.bare

theorem SameBare.refl (db : Db) : db.SameBare db := ⟨rfl, rfl, rfl⟩

namespace SameBare

variable {db' : Db} (h : db.SameBare db')
include h

theorem postingById (k : ℕ) :
    (db'.postingById k).map JobPosting.bare = (db.postingById k).map JobPosting.bare := by
  have hfind (postings : List JobPosting) :
      (postings.find? (·.id = k)).map JobPosting.bare =
        (postings.map JobPosting.bare).find? (·.id = k) := by
    rw [List.find?_map]
    rfl
  rw [Db.postingById, Db.postingById, hfind, hfind, h.postings]

theorem occurrenceById (k : ℕ) :
    (db'.occurrenceById k).map JobOccurrence.bare =
      (db.occurrenceById k).map JobOccurrence.bare := by
  have hfind (occurrences : List JobOccurrence) :
      (occurrences.find? (·.id = k)).map JobOccurrence.bare =
        (occurrences.map JobOccurrence.bare).find? (·.id = k) := by
    rw [List.find?_map]
    rfl
  rw [Db.occurrenceById, Db.occurrenceById, hfind, hfind, h.occurrences]

theorem latestOccurrence (k : ℕ) :
    (db'.latestOccurrence k).map JobOccurrence.bare =
      (db.latestOccurrence k).map JobOccurrence.bare := by
  have hlast (db : Db) : (db.latestOccurrence k).map JobOccurrence.bare =
      ((db.jobOccurrences.map JobOccurrence.bare).filter (·.jobId = k)).getLast? := by
    rw [List.filter_map, List.getLast?_map]
    rfl
  rw [hlast, hlast, h.occurrences]

theorem wf (hwf : db.WF) : db'.WF := by
  rw [h.rest]
  refine hwf.of_keys ?_ ?_ fun p hp => ?_
  · have := congrArg (List.map fun p : JobPosting => (p.id, p.baseHash)) h.postings
    rwa [List.map_map, List.map_map] at this
  · have := congrArg (List.map fun o : JobOccurrence => (o.id, o.jobId)) h.occurrences
    rwa [List.map_map, List.map_map] at this
  · have hbare : p.bare ∈ db.jobPostings.map JobPosting.bare := by
      rw [← h.postings]
      exact List.mem_map_of_mem hp
    obtain ⟨q, hq, heq⟩ := List.mem_map.mp hbare
    exact ⟨q, hq, (congrArg JobPosting.companyId heq).symm⟩

end SameBare

/-- Saving a row with other details over the stored one. -/
theorem map_bare_replace {ρ : Type*} {bare : ρ → ρ} {key : ρ → ℕ} {rows : List ρ} {row row' : ρ}
    (hkeys : (rows.map key).Nodup) (hrow : row ∈ rows) (hbare : bare row' = bare row)
    (hkey : key row' = key row) :
    (Table.replace key row' rows).map bare = rows.map bare := by
  refine Table.map_replace fun r hr hid => ?_
  rw [hbare, List.inj_on_of_nodup_map hkeys hr hrow (hid.trans hkey)]

/-! ## One ingested posting -/

/-- The posting of an ingestion, and the rows it leaves alone. -/
theorem putPosting_by_id (db : Db) {values : PostingValues} {update : JobPosting → JobPosting}
    (hid : ∀ p, (update p).id = p.id) :
    let put := db.putPosting (db.postingByHash values.baseHash) values update
    put.1.jobOccurrences = db.jobOccurrences ∧ put.2 ∈ put.1.jobPostings ∧
      ∀ k, k ≠ put.2.id → put.1.postingById k = db.postingById k := by
  intro put
  cases hs : db.postingByHash values.baseHash with
  | none =>
    have hput : put = db.putPosting none values update := by simp only [put, hs]
    rw [hput]
    refine ⟨rfl, by simp [putPosting], fun k hk => ?_⟩
    simp only [putPosting, postingById, List.find?_append]
    simp only [putPosting] at hk
    simp [Ne.symm hk]
  | some stored =>
    have hput : put = db.putPosting (some stored) values update := by simp only [put, hs]
    rw [hput]
    refine ⟨rfl, ?_, fun k hk => ?_⟩
    · exact List.mem_map.mpr ⟨stored, (postingByHash_mem hs).1, if_pos (hid stored).symm⟩
    · simp only [putPosting] at hk
      simp only [putPosting, postingById]
      rw [Table.find?_replace fun r _ hr => by rw [hr]]
      cases hfind : db.jobPostings.find? (·.id = k) with
      | none => rfl
      | some r =>
        have hr : r.id = k := by simpa using List.find?_some hfind
        rw [Option.map_some, if_neg fun heq => hk (hr ▸ heq)]

/-- Writing an occurrence keeps the sources of the stored ones, and the other jobs' occurrences. -/
theorem writeOccurrence_keeps (hwf : db.WF) {posting : JobPosting} (normalized : NormalizedJob)
    {step : OccurrenceStep} (ht : step.Targets (db.occurrencesOf posting.id).getLast?)
    {o : JobOccurrence} (ho : o ∈ db.jobOccurrences) :
    ∃ o' ∈ (db.writeOccurrence step
        (step.occurrence S db.jobOccurrenceSeq posting normalized)).jobOccurrences,
      o.SameSource o' ∧ (o.jobId ≠ posting.id → o' = o) := by
  cases step with
  | create kind previous notify =>
    exact ⟨o, List.mem_append_left _ ho, .refl o, fun _ => rfl⟩
  | keep current => exact ⟨o, ho, .refl o, fun _ => rfl⟩
  | close current | reopen current =>
    obtain ⟨hmem, hjob⟩ := Table.mem_rowsOf.mp (List.mem_of_getLast? ht)
    by_cases hid : o.id = current.id
    · obtain rfl : o = current :=
        List.inj_on_of_nodup_map hwf.occurrenceId_nodup ho hmem hid
      exact ⟨_, List.mem_map.mpr ⟨o, ho, if_pos rfl⟩, ⟨rfl, rfl, rfl, rfl, rfl, rfl⟩,
        fun hne => absurd hjob hne⟩
    · exact ⟨o, List.mem_map.mpr ⟨o, ho, if_neg hid⟩, .refl o, fun _ => rfl⟩

end Db

/-- **One ingested posting** is stored with its latest occurrence; nothing else changes, and the
occurrences keep their sources. -/
theorem IngestedRow.write_spec (S : Services) {db : Db} (hwf : db.WF) (row : IngestedRow)
    (hfk : db.hasCompany row.values.companyId = true) :
    let written := row.write S db
    written.1.WF ∧ written.2.1 ∈ written.1.jobPostings ∧
      written.1.latestOccurrence written.2.1.id = some written.2.2 ∧
      (∀ k, k ≠ written.2.1.id → written.1.postingById k = db.postingById k ∧
        written.1.occurrencesOf k = db.occurrencesOf k) ∧
      ∀ o ∈ db.jobOccurrences, ∃ o' ∈ written.1.jobOccurrences,
        o.SameSource o' ∧ (o.jobId ≠ written.2.1.id → o' = o) := by
  have hid : ∀ p, (row.update p).id = p.id := fun p => by
    unfold IngestedRow.update
    split <;> rfl
  have hhash : ∀ p, (row.update p).baseHash = p.baseHash := fun p => by
    unfold IngestedRow.update
    split <;> rfl
  have hcompany : ∀ p, (row.update p).companyId = row.values.companyId := fun p => by
    unfold IngestedRow.update
    split <;> rfl
  have hput_wf := Db.putPosting_wf hwf hid hhash hcompany hfk
  obtain ⟨hoccurrences, hmem, hothers⟩ := Db.putPosting_by_id db hid
  set put := db.putPosting (db.postingByHash row.values.baseHash) row.values row.update with hput
  set step := transition S row.path row.old put.2 (put.1.latestOccurrence put.2.id)
    row.normalized with hstep
  have ht : step.Targets (put.1.occurrencesOf put.2.id).getLast? := transition_targets ..
  obtain ⟨-, hplaced, hgroups, -, -⟩ := Db.writeOccurrence_spec (S := S) hput_wf row.normalized ht
  have hwritten : row.write S db = (put.1.writeOccurrence step
      (step.occurrence S put.1.jobOccurrenceSeq put.2 row.normalized), put.2,
      step.occurrence S put.1.jobOccurrenceSeq put.2 row.normalized) := rfl
  intro written
  simp only [written, hwritten]
  have hpostings : (put.1.writeOccurrence step
      (step.occurrence S put.1.jobOccurrenceSeq put.2 row.normalized)).jobPostings =
        put.1.jobPostings := by
    cases step <;> rfl
  refine ⟨Db.writeOccurrence_wf hput_wf hmem row.normalized ht, by rw [hpostings]; exact hmem, ?_,
    fun k hk => ⟨?_, ?_⟩, fun o ho => ?_⟩
  · rw [Db.latestOccurrence, hplaced, step.place_eq, List.getLast?_concat]
  · rw [Db.postingById, hpostings]
    exact hothers k hk
  · rw [hgroups k hk, Db.occurrencesOf, hoccurrences]
    rfl
  · exact Db.writeOccurrence_keeps hput_wf row.normalized ht (hoccurrences ▸ ho)

/-- Merging the details changes nothing else. -/
theorem EvidenceStore.mergeDetails_spec {w : EvidenceStore} (hwf : w.db.WF)
    {posting posting' : JobPosting} {occurrence : JobOccurrence} {observation : NormalizedJob}
    {db' : Db} (hmem : posting ∈ w.db.jobPostings)
    (hlatest : w.db.latestOccurrence posting.id = some occurrence)
    (h : w.mergeJobDetails cfg posting occurrence observation = .ok (db', posting')) :
    w.db.SameBare db' ∧ posting' ∈ db'.jobPostings ∧ posting'.bare = posting.bare := by
  unfold EvidenceStore.mergeJobDetails at h
  split_ifs at h
  · cases h
    exact ⟨.refl _, hmem, rfl⟩
  rw [Db.mergeJobDetails_eq hwf.unverified] at h
  cases hdetails : detailsUpdate occurrence observation with
  | none => simp [hdetails] at h
  | some details =>
    simp only [hdetails, Except.ok.injEq, Prod.mk.injEq] at h
    obtain ⟨rfl, rfl⟩ := h
    cases details with
    | none => exact ⟨.refl _, hmem, rfl⟩
    | some merged =>
      obtain ⟨homem, -⟩ := Db.latestOccurrence_mem hlatest
      refine ⟨⟨rfl, ?_, ?_⟩, List.mem_map.mpr ⟨posting, hmem, if_pos rfl⟩, rfl⟩
      · exact Db.map_bare_replace hwf.posting_id_nodup hmem rfl rfl
      · exact Db.map_bare_replace hwf.occurrenceId_nodup homem rfl rfl

theorem EvidenceStore.enqueue_db (w : EvidenceStore) (job : JobPosting)
    (occurrence : JobOccurrence) (request : EnqueueRequest) :
    (w.enqueue S E job occurrence request).db = w.db := by
  unfold EvidenceStore.enqueue
  split_ifs <;> rfl

/-- The queue reads no other table. -/
theorem EvidenceStore.enqueue_checks (w : EvidenceStore) (db : Db) (job : JobPosting)
    (occurrence : JobOccurrence) (request : EnqueueRequest) :
    (({ w with db := db } : EvidenceStore).enqueue S E job occurrence request).checks =
      (w.enqueue S E job occurrence request).checks := by
  unfold EvidenceStore.enqueue
  split_ifs <;> rfl

/-- What an ingestion of one posting leaves behind: the posting, with its latest occurrence. -/
structure Db.Ingested (db db' : Db) (posting : JobPosting) (occurrence : JobOccurrence) :
    Prop where
  wf : db'.WF
  stored : db'.postingById posting.id = some posting
  latest : (db'.latestOccurrence posting.id).map JobOccurrence.bare = some occurrence.bare
  others : ∀ k, k ≠ posting.id →
    (db'.postingById k).map JobPosting.bare = (db.postingById k).map JobPosting.bare ∧
    (db'.latestOccurrence k).map JobOccurrence.bare =
      (db.latestOccurrence k).map JobOccurrence.bare
  occurrences : ∀ id o, db.occurrenceById id = some o →
    ∃ o', db'.occurrenceById id = some o' ∧ o.SameSource o' ∧
      (o.jobId ≠ posting.id → o'.bare = o.bare)

/-- **An ingestion** writes one posting, and asks for evidence if the queue is on. -/
theorem EvidenceStore.ingest_spec {w w' : EvidenceStore} (hwf : w.db.WF) {row : IngestedRow}
    {now : Time} (h : w.ingest S E cfg row now = .ok w') :
    ∃ posting occurrence, w.db.Ingested w'.db posting occurrence ∧
      w'.checks = if cfg.evidenceWorkerEnabled then
        (w.enqueue S E posting occurrence (row.request now)).checks else w.checks := by
  unfold EvidenceStore.ingest at h
  set db := row.companyName.elim w.db w.db.insertCompany with hdb
  have hdb_wf : db.WF := by
    rw [hdb]
    cases row.companyName with
    | none => exact hwf
    | some name => exact Db.insertCompany_wf hwf name
  have hrows : db.jobPostings = w.db.jobPostings ∧
      db.jobOccurrences = w.db.jobOccurrences := by
    rw [hdb]
    cases row.companyName with
    | none => exact ⟨rfl, rfl⟩
    | some name =>
      simp only [Option.elim_some, Db.insertCompany]
      split_ifs <;> exact ⟨rfl, rfl⟩
  by_cases hfk : db.hasCompany row.values.companyId
  · rw [if_neg (by simp [hfk])] at h
    have hspec := row.write_spec S hdb_wf hfk
    simp only at h hspec
    generalize row.write S db = written at h hspec
    obtain ⟨hwritten_wf, hmem, hlatest, hothers, hkept⟩ := hspec
    cases hmerge : ({ w with db := written.1 } : EvidenceStore).mergeJobDetails cfg written.2.1
        written.2.2 row.observation with
    | error e =>
      simp only [hmerge] at h
      cases h
    | ok merged =>
      obtain ⟨db', posting⟩ := merged
      obtain ⟨hbare, hmem', hposting⟩ :=
        EvidenceStore.mergeDetails_spec (w := { w with db := written.1 }) hwritten_wf hmem hlatest
          hmerge
      have hid : posting.id = written.2.1.id := (JobPosting.columns_of_bare hposting).1
      have hwf' : db'.WF := hbare.wf hwritten_wf
      have hstore : w'.db = db' ∧ w'.checks = if cfg.evidenceWorkerEnabled then
          (w.enqueue S E posting written.2.2 (row.request now)).checks else w.checks := by
        simp only [hmerge] at h
        split_ifs at h with henabled
        · cases h
          exact ⟨EvidenceStore.enqueue_db ..,
            by rw [if_pos henabled]; exact EvidenceStore.enqueue_checks ..⟩
        · cases h
          exact ⟨rfl, by rw [if_neg henabled]⟩
      refine ⟨posting, written.2.2, ?_, hstore.2⟩
      rw [hstore.1]
      refine ⟨hwf', (Db.postingById_eq_some hwf').mpr ⟨hmem', rfl⟩, ?_, fun k hk => ⟨?_, ?_⟩,
        fun id o ho => ?_⟩
      · rw [hbare.latestOccurrence, hid]
        exact congrArg (Option.map JobOccurrence.bare) hlatest
      · rw [hbare.postingById]
        refine congrArg (Option.map JobPosting.bare) ((hothers k (hid ▸ hk)).1.trans ?_)
        rw [Db.postingById, Db.postingById, hrows.1]
      · rw [hbare.latestOccurrence]
        refine congrArg (fun group => (List.getLast? group).map JobOccurrence.bare)
          ((hothers k (hid ▸ hk)).2.trans ?_)
        rw [Db.occurrencesOf, Db.occurrencesOf, hrows.2]
      · obtain ⟨homem, hoid⟩ := (Db.occurrenceById_eq_some hwf).mp ho
        obtain ⟨o', ho', hsame, hfar⟩ := hkept o (hrows.2 ▸ homem)
        have hfind : written.1.occurrenceById id = some o' :=
          (Db.occurrenceById_eq_some hwritten_wf).mpr ⟨ho', hsame.id.trans hoid⟩
        have hmapped : (db'.occurrenceById id).map JobOccurrence.bare = some o'.bare :=
          (hbare.occurrenceById id).trans (congrArg (Option.map JobOccurrence.bare) hfind)
        obtain ⟨o'', ho'', heq⟩ := Option.map_eq_some_iff.mp hmapped
        refine ⟨o'', ho'', hsame.trans (.of_bare heq), fun hne => ?_⟩
        rw [heq, hfar (hid ▸ hne)]
  · rw [if_pos (by simp [hfk])] at h
    cases h

end JobPing
