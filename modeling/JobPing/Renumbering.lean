import JobPing.Repetition
import Mathlib.Logic.Equiv.Basic

/-!
# Row ids are names

Nothing is computed from the ids of rows but equality, so renumbering the rows a write starts from
renumbers the rows it leaves (`deliverJob_renumber`). Two deliveries of one observation that draw
different new ids therefore leave the same rows up to ids (`deliverJob_sameUpToIds`).
-/

namespace JobPing

variable {cfg : Config} {S : Services} {path : WritePath}

/-! ## Renumbering rows -/

/-- New numbers for posting ids and occurrence ids. -/
structure Renumbering where
  posting : Equiv.Perm ℕ
  occurrence : Equiv.Perm ℕ

variable (r : Renumbering)

def JobPosting.renumber (p : JobPosting) : JobPosting := { p with id := r.posting p.id }

def JobOccurrence.renumber (o : JobOccurrence) : JobOccurrence :=
  { o with
    id := r.occurrence o.id
    jobId := r.posting o.jobId
    previousOccurrenceId := o.previousOccurrenceId.map r.occurrence }

def JobSourceObservation.renumber (b : JobSourceObservation) : JobSourceObservation :=
  { b with jobId := r.posting b.jobId, occurrenceId := r.occurrence b.occurrenceId }

def DiscoveryEvent.renumber (e : DiscoveryEvent) : DiscoveryEvent :=
  { e with jobId := r.posting e.jobId, occurrenceId := r.occurrence e.occurrenceId }

def StatusLog.renumber (l : StatusLog) : StatusLog := { l with jobId := r.posting l.jobId }

def JobRows.renumber (rows : JobRows) : JobRows where
  posting := rows.posting.renumber r
  occurrences := rows.occurrences.map (·.renumber r)
  observations := rows.observations.map (·.renumber r)
  events := rows.events.map (·.renumber r)
  statusLogs := rows.statusLogs.map (·.renumber r)

def WriteIds.renumber (ids : WriteIds) : WriteIds :=
  { ids with posting := r.posting ids.posting, occurrence := r.occurrence ids.occurrence }

def OccurrenceStep.renumber (step : OccurrenceStep) : OccurrenceStep :=
  match step with
  | create kind previous notify => .create kind (previous.map (·.renumber r)) notify
  | close o => .close (o.renumber r)
  | reopen o => .reopen (o.renumber r)
  | keep o => .keep (o.renumber r)

/-! ## The pieces of a write -/

theorem occurrenceIdentities_renumber (o : JobOccurrence)
    (observations : List JobSourceObservation) :
    occurrenceIdentities S (o.renumber r) (observations.map (·.renumber r)) =
      occurrenceIdentities S o observations := by
  simp only [occurrenceIdentities, List.filter_map, List.filterMap_map]
  congr 2
  refine List.filter_congr fun b _ => ?_
  simp [JobOccurrence.renumber, JobSourceObservation.renumber]

theorem evidence_renumber (rows : JobRows) :
    (rows.renumber r).evidence S = (rows.evidence S).map fun e => (e.1.renumber r, e.2) := by
  simp only [JobRows.evidence, JobRows.renumber, List.getLast?_map, Option.map_map]
  cases rows.occurrences.getLast? with
  | none => rfl
  | some o => simp [occurrenceIdentities_renumber]

theorem decision_renumber (base : Option JobRows) (job : NormalizedJob) :
    decision S (base.map (·.renumber r)) job = decision S base job := by
  cases base with
  | none => rfl
  | some b =>
    simp only [decision, Option.map_some, Option.bind_some, evidence_renumber]
    cases b.evidence S <;> rfl

theorem candidate_renumber (base : Option JobRows) (job : NormalizedJob) :
    candidate S (base.map (·.renumber r)) job = candidate S base job := by
  simp only [candidate, decision_renumber]
  cases base with
  | none => rfl
  | some b => cases decision S (some b) job <;> rfl

theorem effectiveJob_renumber (job : NormalizedJob) (existing : Option JobPosting) :
    effectiveJob S job (existing.map (·.renumber r)) = effectiveJob S job existing := by
  cases existing <;> rfl

theorem upsertRows_renumber (posting_id : ℕ) (reposted : Bool) (values : PostingValues)
    (base : Option JobRows) :
    upsertRows path (r.posting posting_id) reposted values (base.map (·.renumber r)) =
      (upsertRows path posting_id reposted values base).renumber r := by
  cases base <;> cases path <;> rfl

theorem bulkTransition_renumber (old : Option JobPosting) (posting : JobPosting)
    (current : Option JobOccurrence) (job : NormalizedJob) :
    bulkTransition S (old.map (·.renumber r)) (posting.renumber r) (current.map (·.renumber r))
      job = (bulkTransition S old posting current job).renumber r := by
  cases current with
  | none => cases old <;> rfl
  | some o =>
    have hold : (old.map (·.renumber r)).isSome = old.isSome := Option.isSome_map
    simp only [bulkTransition, Option.map_some, hold, apply_ite (OccurrenceStep.renumber r)]
    rfl

theorem singleTransition_renumber (old : Option JobPosting) (posting : JobPosting)
    (current : Option JobOccurrence) (job : NormalizedJob) :
    singleTransition S (old.map (·.renumber r)) (posting.renumber r) (current.map (·.renumber r))
      job = (singleTransition S old posting current job).renumber r := by
  cases old with
  | none => rfl
  | some p =>
    cases current with
    | none => rfl
    | some o =>
      simp only [singleTransition, Option.map_some, Option.isNone_some, Bool.false_eq_true,
        if_false, apply_ite (OccurrenceStep.renumber r)]
      rfl

theorem transition_renumber (old : Option JobPosting) (posting : JobPosting)
    (current : Option JobOccurrence) (job : NormalizedJob) :
    transition S path (old.map (·.renumber r)) (posting.renumber r) (current.map (·.renumber r))
      job = (transition S path old posting current job).renumber r := by
  cases path with
  | single => exact singleTransition_renumber r old posting current job
  | bulk => exact bulkTransition_renumber r old posting current job

theorem OccurrenceStep.occurrence_renumber (step : OccurrenceStep) (id : ℕ) (posting : JobPosting)
    (job : NormalizedJob) :
    (step.renumber r).occurrence S (r.occurrence id) (posting.renumber r) job =
      (step.occurrence S id posting job).renumber r := by
  cases step with
  | create kind previous notify => cases previous <;> rfl
  | close o => rfl
  | reopen o => rfl
  | keep o => rfl

theorem OccurrenceStep.eventRows_renumber (step : OccurrenceStep) (posting : JobPosting)
    (o : JobOccurrence) :
    (step.renumber r).eventRows (posting.renumber r) (o.renumber r) =
      (step.eventRows posting o).map (·.renumber r) := by
  rcases step with ⟨kind, previous, _ | _⟩ | _ | _ | _ <;> rfl

theorem OccurrenceStep.place_renumber (step : OccurrenceStep) (occurrences : List JobOccurrence)
    (o : JobOccurrence) :
    (step.renumber r).place (occurrences.map (·.renumber r)) (o.renumber r) =
      (step.place occurrences o).map (·.renumber r) := by
  cases step <;> simp [OccurrenceStep.renumber, OccurrenceStep.place, List.map_dropLast]

theorem previouslyClosed_renumber (old : Option JobPosting) (current : Option JobOccurrence) :
    previouslyClosed path (old.map (·.renumber r)) (current.map (·.renumber r)) =
      previouslyClosed path old current := by
  cases path <;> cases old <;> cases current <;> rfl

theorem created_renumber (old : Option JobPosting) (current : Option JobOccurrence) :
    created path (old.map (·.renumber r)) (current.map (·.renumber r)) =
      created path old current := by
  cases path <;> cases old <;> cases current <;> rfl

theorem contentChanged_renumber (old : Option JobPosting) (posting : JobPosting) :
    contentChanged path (old.map (·.renumber r)) (posting.renumber r) =
      contentChanged path old posting := by
  cases path <;> cases old <;> rfl

theorem OccurrenceStep.createdRepost_renumber (step : OccurrenceStep) :
    (step.renumber r).createdRepost = step.createdRepost := by
  rcases step with ⟨_ | _, _, _⟩ | _ | _ | _ <;> rfl

theorem pathStatusValues_renumber (posting : JobPosting) (wasClosed : Option Bool) :
    pathStatusValues path (posting.renumber r) wasClosed =
      (pathStatusValues path posting wasClosed).map (·.renumber r) := by
  cases path with
  | single => rfl
  | bulk =>
    simp only [pathStatusValues, statusValues, apply_ite (List.map _)]
    rfl

theorem sourceObservationValues_renumber (posting : JobPosting) (o : JobOccurrence)
    (job : NormalizedJob) :
    sourceObservationValues S (posting.renumber r) (o.renumber r) job =
      (sourceObservationValues S posting o job).map (·.renumber r) := by
  unfold sourceObservationValues
  split_ifs <;> rfl

theorem JobSourceObservation.conflicts_iff {a b : JobSourceObservation} :
    a.conflicts b = true ↔ a.jobId = b.jobId ∧ a.occurrenceId = b.occurrenceId ∧
      a.source = b.source ∧ a.sourceId = b.sourceId := by
  simp [JobSourceObservation.conflicts, and_assoc]

theorem record_observations_renumber (rows observations : List JobSourceObservation) :
    (rows.map (·.renumber r)).foldl
        (fun t row => Table.upsert JobSourceObservation.conflicts row t)
        (observations.map (·.renumber r)) =
      (rows.foldl (fun t row => Table.upsert JobSourceObservation.conflicts row t)
        observations).map (·.renumber r) := by
  induction rows generalizing observations with
  | nil => rfl
  | cons row rows ih =>
    simp only [List.map_cons, List.foldl_cons]
    have hconflicts : ∀ a b : JobSourceObservation,
        (a.renumber r).conflicts (b.renumber r) = a.conflicts b := fun a b => by
      rw [Bool.eq_iff_iff, JobSourceObservation.conflicts_iff, JobSourceObservation.conflicts_iff]
      simp [JobSourceObservation.renumber]
    rw [Table.upsert_map hconflicts, ih]

theorem detailsUpdate_renumber (o : JobOccurrence) (observation : NormalizedJob) :
    detailsUpdate (o.renumber r) observation = detailsUpdate o observation := rfl

/-! ## A whole write -/

theorem writeEffects_renumber (id : ℕ) (rows : JobRows) (old : Option JobPosting)
    (normalized observation : NormalizedJob) :
    writeEffects cfg S path (r.occurrence id) (rows.renumber r) (old.map (·.renumber r))
        normalized observation =
      (writeEffects cfg S path id rows old normalized observation).map
        fun (rows, state) => (rows.renumber r, state) := by
  have hcurrent : (rows.renumber r).occurrences.getLast? =
      rows.occurrences.getLast?.map (·.renumber r) := List.getLast?_map
  have hposting : (rows.renumber r).posting = rows.posting.renumber r := rfl
  simp only [writeEffects, hcurrent, hposting, transition_renumber,
    OccurrenceStep.occurrence_renumber, detailsUpdate_renumber, previouslyClosed_renumber,
    created_renumber, contentChanged_renumber, OccurrenceStep.createdRepost_renumber,
    pathStatusValues_renumber, sourceObservationValues_renumber,
    OccurrenceStep.eventRows_renumber, Option.map_map, Function.comp_def]
  congr 1
  funext details
  have hobs := record_observations_renumber r (sourceObservationValues S rows.posting
    ((transition S path old rows.posting rows.occurrences.getLast? normalized).occurrence S id
      rows.posting normalized) observation) rows.observations
  set step := transition S path old rows.posting rows.occurrences.getLast? normalized
  set occurrence := step.occurrence S id rows.posting normalized
  have hplace := OccurrenceStep.place_renumber r step rows.occurrences
    { occurrence with details := details.getD occurrence.details }
  simp only [Prod.mk.injEq, JobRows.renumber, JobRows.mk.injEq, and_true, List.map_append]
  refine ⟨⟨rfl, hplace, hobs, ?_⟩, rfl⟩
  split_ifs
  · rfl
  · simp

/-- **Renumbering** the rows a delivery starts from renumbers the rows it leaves. -/
theorem deliverJob_renumber (ids : WriteIds) (base : Option JobRows) (job : NormalizedJob) :
    deliverJob cfg S path (ids.renumber r) (base.map (·.renumber r)) job =
      (deliverJob cfg S path ids base job).map fun (rows, state) => (rows.renumber r, state) := by
  have hold : (base.map (·.renumber r)).map (·.posting) =
      (base.map (·.posting)).map (·.renumber r) := by cases base <;> rfl
  simp only [deliverJob, writeJob, candidate_renumber, hold, effectiveJob_renumber,
    WriteIds.renumber, upsertRows_renumber, writeEffects_renumber]

/-! ## Ids a renumbering leaves alone -/

/-- The ids of the occurrences of a job. -/
def JobRows.occurrenceIds (rows : JobRows) : List ℕ := rows.occurrences.map (·.id)

/-- The rows of a job refer to its posting and its occurrences only. -/
structure JobRows.RefersInside (rows : JobRows) : Prop where
  job : ∀ o ∈ rows.occurrences, o.jobId = rows.posting.id
  previous : ∀ o ∈ rows.occurrences, ∀ i, o.previousOccurrenceId = some i →
    i ∈ rows.occurrenceIds
  observation : ∀ b ∈ rows.observations, b.jobId = rows.posting.id ∧
    b.occurrenceId ∈ rows.occurrenceIds
  event : ∀ e ∈ rows.events, e.jobId = rows.posting.id ∧ e.occurrenceId ∈ rows.occurrenceIds
  log : ∀ l ∈ rows.statusLogs, l.jobId = rows.posting.id

/-- Two renumberings that agree on the ids of a job renumber its rows alike. -/
theorem JobRows.RefersInside.renumber_congr {rows : JobRows} (h : rows.RefersInside)
    {r r' : Renumbering} (hp : r.posting rows.posting.id = r'.posting rows.posting.id)
    (ho : ∀ i ∈ rows.occurrenceIds, r.occurrence i = r'.occurrence i) :
    rows.renumber r = rows.renumber r' := by
  have hposting : rows.posting.renumber r = rows.posting.renumber r' := by
    simp only [JobPosting.renumber, hp]
  have hocc : ∀ o ∈ rows.occurrences, o.renumber r = o.renumber r' := fun o hmem => by
    have hid := ho _ (List.mem_map_of_mem (f := (·.id)) hmem)
    have hprev : o.previousOccurrenceId.map r.occurrence =
        o.previousOccurrenceId.map r'.occurrence := by
      cases hi : o.previousOccurrenceId with
      | none => rfl
      | some i => exact congrArg some (ho i (h.previous o hmem i hi))
    simp only [JobOccurrence.renumber, hid, h.job o hmem, hp, hprev]
  have hobs : ∀ b ∈ rows.observations, b.renumber r = b.renumber r' := fun b hmem => by
    obtain ⟨hjob, hid⟩ := h.observation b hmem
    simp only [JobSourceObservation.renumber, ho _ hid, hjob, hp]
  have hevent : ∀ e ∈ rows.events, e.renumber r = e.renumber r' := fun e hmem => by
    obtain ⟨hjob, hid⟩ := h.event e hmem
    simp only [DiscoveryEvent.renumber, ho _ hid, hjob, hp]
  have hlog : ∀ l ∈ rows.statusLogs, l.renumber r = l.renumber r' := fun l hmem => by
    simp only [StatusLog.renumber, h.log l hmem, hp]
  simp only [JobRows.renumber, hposting, List.map_congr_left hocc, List.map_congr_left hobs,
    List.map_congr_left hevent, List.map_congr_left hlog]

/-- The renumbering that changes no id. -/
def Renumbering.refl : Renumbering := ⟨Equiv.refl ℕ, Equiv.refl ℕ⟩

theorem JobRows.renumber_refl (rows : JobRows) : rows.renumber .refl = rows := by
  have hocc : ∀ o : JobOccurrence, o.renumber .refl = o := fun o => by
    simp [JobOccurrence.renumber, Renumbering.refl]
  simp only [JobRows.renumber, hocc, List.map_id']
  simp [JobPosting.renumber, JobSourceObservation.renumber, DiscoveryEvent.renumber,
    StatusLog.renumber, Renumbering.refl]

/-- A chain refers back to its own occurrences. -/
theorem OccurrenceChain.previous_mem {occurrences : List JobOccurrence}
    (h : OccurrenceChain occurrences) : ∀ o ∈ occurrences, ∀ i, o.previousOccurrenceId = some i →
      ∃ a ∈ occurrences, a.id = i := by
  obtain ⟨first, hfirst, -, hnone⟩ := h.first
  have htail : ∀ o ∈ occurrences.tail, ∃ a ∈ occurrences, o.previousOccurrenceId = some a.id := by
    have hchain := h.chain
    clear h hfirst
    induction hchain with
    | nil => simp
    | singleton a => simp
    | cons_cons hab _ ih =>
      intro o ho
      rcases List.mem_cons.mp ho with rfl | ho
      · exact ⟨_, List.mem_cons_self, hab.2.2.2⟩
      · obtain ⟨a, ha, hprev⟩ := ih o ho
        exact ⟨a, List.mem_cons_of_mem _ ha, hprev⟩
  intro o ho i hi
  cases occurrences with
  | nil => cases ho
  | cons a rest =>
    cases hfirst
    rcases List.mem_cons.mp ho with rfl | ho
    · rw [hnone] at hi
      cases hi
    · obtain ⟨a, ha, hprev⟩ := htail o ho
      rw [hprev, Option.some.injEq] at hi
      exact ⟨a, ha, hi⟩

/-- The rows of a stored job refer to each other only. -/
theorem Db.WF.refers_inside {db : Db} (hwf : db.WF) {h : Digest} {rows : JobRows}
    (hj : db.job h = some rows) (hlife : rows.Lifecycle) : rows.RefersInside := by
  obtain ⟨p, hp, rfl⟩ := Option.map_eq_some_iff.mp hj
  have hmem : ∀ {o : JobOccurrence} {i : ℕ}, o ∈ db.jobOccurrences → o.id = i → o.jobId = p.id →
      i ∈ (db.rowsOf p).occurrenceIds := fun {o i} ho hid hjob =>
    List.mem_map.mpr ⟨o, Table.mem_rowsOf.mpr ⟨ho, hjob⟩, hid⟩
  refine
    { job := fun o ho => (Table.mem_rowsOf.mp ho).2
      previous := fun o ho i hi => ?_
      observation := fun b hb => ?_
      event := fun e he => ?_
      log := fun l hl => (Table.mem_rowsOf.mp hl).2 }
  · obtain ⟨a, ha, hid⟩ := hlife.chain.previous_mem o ho i hi
    exact List.mem_map.mpr ⟨a, ha, hid⟩
  · obtain ⟨hb, hjob⟩ := Table.mem_rowsOf.mp hb
    obtain ⟨o, ho, hid, hojob⟩ := hwf.observation_occurrence hb
    exact ⟨hjob, hmem ho hid (hojob.trans hjob)⟩
  · obtain ⟨he, hjob⟩ := Table.mem_rowsOf.mp he
    obtain ⟨o, ho, hid, hojob⟩ := hwf.event_occurrence he
    exact ⟨hjob, hmem ho hid (hojob.trans hjob)⟩

/-- The ids of the rows are smaller than the next values of the sequences. -/
structure JobRows.IdsBelow (postingSeq occurrenceSeq : ℕ) (rows : JobRows) : Prop where
  inside : rows.RefersInside
  posting : rows.posting.id < postingSeq
  occurrence : ∀ i ∈ rows.occurrenceIds, i < occurrenceSeq

/-- The ids of a stored job were drawn earlier. -/
theorem Db.WF.ids_below {db : Db} (hwf : db.WF) {h : Digest} {rows : JobRows}
    (hj : db.job h = some rows) (hlife : rows.Lifecycle) :
    rows.IdsBelow db.jobPostingSeq db.jobOccurrenceSeq where
  inside := hwf.refers_inside hj hlife
  posting := by
    obtain ⟨p, hp, rfl⟩ := Option.map_eq_some_iff.mp hj
    exact hwf.posting_lt _ (Db.mem_postingKeys (Db.postingByHash_mem hp).1)
  occurrence i hi := by
    obtain ⟨o, ho, rfl⟩ := List.mem_map.mp hi
    exact hwf.fresh le_rfl rows hj o ho

/-- A renumbering of new ids leaves the stored rows alone. -/
theorem JobRows.IdsBelow.renumber_eq {postingSeq occurrenceSeq : ℕ} {rows : JobRows}
    (h : rows.IdsBelow postingSeq occurrenceSeq)
    (hp : ∀ i < postingSeq, r.posting i = i) (ho : ∀ i < occurrenceSeq, r.occurrence i = i) :
    rows.renumber r = rows :=
  (h.inside.renumber_congr (hp _ h.posting) fun i hi => ho i (h.occurrence i hi)).trans
    rows.renumber_refl

/-! ## The company of a posting -/

/-- The rows with another company. -/
def JobRows.withCompany (companyId : ℕ) (rows : JobRows) : JobRows :=
  { rows with posting := { rows.posting with companyId := companyId } }

/-- The company of a write ends up in its posting and nowhere else. -/
theorem deliverJob_company (cfg : Config) (S : Services) (path : WritePath) (ids : WriteIds)
    (companyId : ℕ) (base : Option JobRows) (job : NormalizedJob) :
    deliverJob cfg S path { ids with company := companyId } base job =
      (deliverJob cfg S path ids base job).map fun (rows, state) =>
        (rows.withCompany companyId, state) := by
  have hupsert : ∀ reposted effective, upsertRows path ids.posting reposted
      (PostingValues.of companyId effective) base = (upsertRows path ids.posting reposted
        (PostingValues.of ids.company effective) base).withCompany companyId :=
    fun reposted effective => by cases path <;> cases base <;> rfl
  simp only [deliverJob, writeJob, hupsert]
  set rows := upsertRows path ids.posting _ _ base
  have hclosed : (rows.withCompany companyId).posting.isClosed = rows.posting.isClosed := rfl
  simp only [writeEffects, Option.map_map, transition_congr hclosed]
  rfl

/-- The company of the posting a write leaves. -/
theorem deliverJob_companyId {ids : WriteIds} {base : Option JobRows} {job : NormalizedJob}
    {rows : JobRows} {state : DeduplicationState}
    (h : deliverJob cfg S path ids base job = some (rows, state)) :
    rows.posting.companyId = ids.company := by
  obtain ⟨details, -, rfl, -⟩ := writeEffects_eq_some h
  cases path <;> cases base <;> rfl

/-! ## Two deliveries -/

/-- The renumbering that exchanges the ids two writes draw. -/
def Renumbering.exchange (ids ids' : WriteIds) : Renumbering where
  posting := Equiv.swap ids.posting ids'.posting
  occurrence := Equiv.swap ids.occurrence ids'.occurrence

theorem swap_of_lt {i a b bound : ℕ} (hi : i < bound) (ha : bound ≤ a) (hb : bound ≤ b) :
    Equiv.swap a b i = i :=
  Equiv.swap_apply_of_ne_of_ne (by omega) (by omega)

/-- The same rows, up to ids and the company. -/
def JobRows.SameUpToIds (rows rows' : JobRows) : Prop :=
  ∃ r : Renumbering, rows' = (rows.renumber r).withCompany rows'.posting.companyId

/-- **Two deliveries** of one observation to the same rows leave the same rows up to ids, with the
same outcome. -/
theorem deliverJob_sameUpToIds {postingSeq occurrenceSeq : ℕ} {base : Option JobRows}
    (hbase : ∀ b, base = some b → b.IdsBelow postingSeq occurrenceSeq) {ids ids' : WriteIds}
    (hp : postingSeq ≤ ids.posting) (hp' : postingSeq ≤ ids'.posting)
    (ho : occurrenceSeq ≤ ids.occurrence) (ho' : occurrenceSeq ≤ ids'.occurrence)
    {job : NormalizedJob} {rows rows' : JobRows} {state state' : DeduplicationState}
    (h : deliverJob cfg S path ids base job = some (rows, state))
    (h' : deliverJob cfg S path ids' base job = some (rows', state')) :
    rows.SameUpToIds rows' ∧ state = state' := by
  set r := Renumbering.exchange ids ids'
  have hids : ids' = { ids.renumber r with company := ids'.company } := by
    simp [r, WriteIds.renumber, Renumbering.exchange]
  have hrows : base.map (·.renumber r) = base := by
    cases base with
    | none => rfl
    | some b =>
      exact congrArg some ((hbase b rfl).renumber_eq r (fun i hi => swap_of_lt hi hp hp')
        fun i hi => swap_of_lt hi ho ho')
  have hcompany := deliverJob_companyId h'
  rw [hids, deliverJob_company, ← hrows, deliverJob_renumber, h] at h'
  simp only [Option.map_some, Option.some.injEq, Prod.mk.injEq] at h'
  obtain ⟨hrows', hstate⟩ := h'
  exact ⟨⟨r, by rw [hcompany, hrows']⟩, hstate⟩

end JobPing
