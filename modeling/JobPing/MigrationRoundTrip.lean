import JobPing.OccurrenceMigration

/-!
# Nothing is lost in the migration

Both directions compute: on a database that meets its constraints no insert fails, and the result
is the database `upgraded` or `downgraded` (`upgrade_eq`, `downgrade_eq`). The occurrences of the
upgrade are numbered along the postings, so that occurrences and postings correspond one to one, and
the way back finds for every row the job it came from. In the other direction the order of the rows
makes the first row of a job the earliest.
-/

namespace JobPing

open Table

/-! ## The occurrences of the upgrade -/

/-- One occurrence for every posting, numbered from `next`. -/
def occurrencesFrom : ℕ → List PostingRow → List OccurrenceRow
  | _, [] => []
  | next, job :: jobs => job.occurrence next :: occurrencesFrom (next + 1) jobs

variable {job : PostingRow} {jobs postings : List PostingRow} {next : ℕ} {o o' : OccurrenceRow}

/-- Rows that share neither the id nor the pair. -/
theorem no_conflict {α β γ : Type*} [DecidableEq α] [DecidableEq β] [DecidableEq γ] {i i' : α}
    {s s' : β} {j j' : γ} (hid : i ≠ i') (hpair : (s, j) ≠ (s', j')) :
    (decide (i = i') || (decide (s = s') && decide (j = j'))) = false := by
  rw [decide_eq_false hid, Bool.false_or, ← Bool.decide_and]
  refine decide_eq_false fun hboth => ?_
  obtain ⟨rfl, rfl⟩ := hboth
  exact hpair rfl

theorem occurrencesFrom_jobIds (next : ℕ) (jobs : List PostingRow) :
    (occurrencesFrom next jobs).map (·.jobId) = jobs.map (·.id) := by
  induction jobs generalizing next with
  | nil => rfl
  | cons job jobs ih => exact congrArg (job.id :: ·) (ih (next + 1))

theorem le_of_mem_occurrencesFrom (h : o ∈ occurrencesFrom next jobs) : next ≤ o.id := by
  induction jobs generalizing next with
  | nil => cases h
  | cons job jobs ih =>
    rcases List.mem_cons.mp h with rfl | h
    · exact le_rfl
    · exact Nat.le_of_succ_le (ih h)

theorem occurrencesFrom_ids (next : ℕ) (jobs : List PostingRow) :
    ((occurrencesFrom next jobs).map (·.id)).Nodup := by
  induction jobs generalizing next with
  | nil => exact List.nodup_nil
  | cons job jobs ih =>
    refine List.nodup_cons.mpr ⟨fun hmem => ?_, ih (next + 1)⟩
    obtain ⟨o, ho, hid⟩ := List.mem_map.mp hmem
    exact absurd (le_of_mem_occurrencesFrom ho) (by rw [hid]; exact Nat.not_succ_le_self next)

/-- Every occurrence is that of a posting. -/
theorem mem_occurrencesFrom (h : o ∈ occurrencesFrom next jobs) :
    ∃ job ∈ jobs, o = job.occurrence o.id := by
  induction jobs generalizing next with
  | nil => cases h
  | cons job jobs ih =>
    rcases List.mem_cons.mp h with rfl | h
    · exact ⟨job, List.mem_cons_self, rfl⟩
    · obtain ⟨other, hother, ho⟩ := ih h
      exact ⟨other, List.mem_cons_of_mem _ hother, ho⟩

/-- The loop over the postings numbers them. -/
theorem backfill_eq {t : List OccurrenceRow} {d : List (ℕ × ℕ)}
    (hjobs : ∀ job ∈ jobs, job.id ∈ postings.map (·.id)) (ht : ∀ o ∈ t, o.id < next) :
    backfill postings next t d jobs = .ok (t ++ occurrencesFrom next jobs,
      ((occurrencesFrom next jobs).map fun o => (o.jobId, o.id)).foldl
        (fun d item => Dict.set item.1 item.2 d) d) := by
  induction jobs generalizing next t d with
  | nil => rw [backfill, occurrencesFrom, List.append_nil]; rfl
  | cons job jobs ih =>
    have hvalid : (postings.map (·.id)).contains (job.occurrence next).jobId = true :=
      List.contains_iff_mem.mpr (hjobs job List.mem_cons_self)
    have hnew : ∀ o ∈ t, decide ((job.occurrence next).id = o.id) = false := fun o ho =>
      decide_eq_false (ht o ho).ne'
    have hinsert : insertOccurrence postings t (job.occurrence next) =
        .ok (t ++ [job.occurrence next]) := insertRow_eq_ok hvalid hnew
    simp only [backfill, hinsert, bind, Except.bind]
    rw [ih (fun other hother => hjobs other (List.mem_cons_of_mem _ hother)), occurrencesFrom,
      List.append_assoc, List.singleton_append]
    · rfl
    · intro o ho
      rcases List.mem_append.mp ho with ho | ho
      · exact Nat.lt_succ_of_lt (ht o ho)
      · obtain rfl := List.mem_singleton.mp ho
        exact Nat.lt_succ_self next

namespace LegacyDb

variable {db : LegacyDb} {jobId : ℕ}

/-- The table `job_occurrences` after the upgrade. -/
def occurrences (db : LegacyDb) : List OccurrenceRow :=
  occurrencesFrom 1 (db.jobPostings.insertionSort (·.id ≤ ·.id))

/-- `occurrence_by_job`. -/
def occurrenceByJob (db : LegacyDb) : List (ℕ × ℕ) :=
  Dict.ofList (db.occurrences.map fun o => (o.jobId, o.id))

theorem backfill_postings (db : LegacyDb) :
    backfill db.jobPostings 1 [] [] (db.jobPostings.insertionSort (·.id ≤ ·.id)) =
      .ok (db.occurrences, db.occurrenceByJob) := by
  rw [backfill_eq]
  · rfl
  · intro job hjob
    exact List.mem_map_of_mem (List.mem_insertionSort _ |>.mp hjob)
  · intro o ho
    cases ho

theorem occurrence_jobIds (db : LegacyDb) :
    (db.occurrences.map (·.jobId)).Perm (db.jobPostings.map (·.id)) := by
  rw [occurrences, occurrencesFrom_jobIds]
  exact (List.perm_insertionSort _ _).map _

theorem occurrenceIds (db : LegacyDb) : (db.occurrences.map (·.id)).Nodup :=
  occurrencesFrom_ids 1 _

theorem posting_of_occurrence (h : o ∈ db.occurrences) :
    ∃ job ∈ db.jobPostings, o = job.occurrence o.id := by
  obtain ⟨job, hjob, ho⟩ := mem_occurrencesFrom h
  exact ⟨job, (List.mem_insertionSort _).mp hjob, ho⟩

theorem eq_of_occurrenceId (ho : o ∈ db.occurrences) (ho' : o' ∈ db.occurrences)
    (h : o.id = o'.id) : o = o' := List.inj_on_of_nodup_map db.occurrenceIds ho ho' h

/-- The id of the occurrence of a job. -/
def occurrenceOf (db : LegacyDb) (jobId : ℕ) : ℕ :=
  (Dict.get? jobId db.occurrenceByJob).getD 0

/-- Every posting has an occurrence, which is found under its id. -/
theorem Valid.occurrence (hdb : db.Valid) (h : jobId ∈ db.jobPostings.map (·.id)) :
    ∃ o ∈ db.occurrences, o.jobId = jobId ∧ o.id = db.occurrenceOf jobId ∧
      Dict.get? jobId db.occurrenceByJob = some o.id := by
  obtain ⟨o, ho, rfl⟩ := List.mem_map.mp (db.occurrence_jobIds.mem_iff.mpr h)
  have hkeys : ((db.occurrences.map fun o => (o.jobId, o.id)).map Prod.fst).Nodup := by
    rw [List.map_map]
    exact db.occurrence_jobIds.nodup_iff.mpr hdb.postings
  have hget : Dict.get? o.jobId db.occurrenceByJob = some o.id :=
    Dict.get?_ofList_of_mem hkeys (List.mem_map.mpr ⟨o, ho, rfl⟩)
  exact ⟨o, ho, rfl, by rw [occurrenceOf, hget]; rfl, hget⟩

theorem Valid.lookup_occurrence (hdb : db.Valid) (h : jobId ∈ db.jobPostings.map (·.id)) :
    lookup db.occurrenceByJob jobId = .ok (db.occurrenceOf jobId) := by
  obtain ⟨o, -, -, hid, hget⟩ := hdb.occurrence h
  rw [lookup, hget, ← hid]
  rfl

/-- Different postings have different occurrences. -/
theorem Valid.occurrenceOf_inj (hdb : db.Valid) {a b : ℕ} (ha : a ∈ db.jobPostings.map (·.id))
    (hb : b ∈ db.jobPostings.map (·.id)) (h : db.occurrenceOf a = db.occurrenceOf b) : a = b := by
  obtain ⟨o, ho, rfl, hid, -⟩ := hdb.occurrence ha
  obtain ⟨o', ho', rfl, hid', -⟩ := hdb.occurrence hb
  exact congrArg _ (eq_of_occurrenceId ho ho' (hid.trans (h.trans hid'.symm)))

/-! ## The upgraded database -/

/-- The event of the first occurrence. -/
def eventRow (db : LegacyDb) (row : LegacyEvent) : NotificationEvent :=
  ⟨db.occurrenceOf row.jobId, row.jobId, .discovered, row.discoveredAt.getD 0, row.processed⟩

def matchRow (db : LegacyDb) (row : LegacyMatch) : MatchRow :=
  ⟨⟨row.subscriberId, db.occurrenceOf row.jobId, row.jobId, .discovered, row.discoveredAt⟩,
    row.id⟩

/-- What the upgrade makes of a database. -/
def upgraded (db : LegacyDb) : LifecycleDb where
  jobPostings := db.jobPostings
  subscriberIds := db.subscriberIds
  jobOccurrences := db.occurrences
  notificationEvents :=
    (db.notificationEvents.insertionSort (·.jobId ≤ ·.jobId)).map db.eventRow
  notificationMatches := (db.notificationMatches.insertionSort (·.id ≤ ·.id)).map db.matchRow
  notificationDeliveries := db.notificationDeliveries.map (·.upgraded db.occurrenceByJob)

theorem perm_upgraded_events (db : LegacyDb) :
    db.upgraded.notificationEvents.Perm (db.notificationEvents.map db.eventRow) :=
  (List.perm_insertionSort _ _).map _

theorem perm_upgraded_matches (db : LegacyDb) :
    db.upgraded.notificationMatches.Perm (db.notificationMatches.map db.matchRow) :=
  (List.perm_insertionSort _ _).map _

theorem Valid.mem_occurrenceIds (hdb : db.Valid) (h : jobId ∈ db.jobPostings.map (·.id)) :
    db.occurrenceOf jobId ∈ db.occurrences.map (·.id) := by
  obtain ⟨o, ho, -, hid, -⟩ := hdb.occurrence h
  exact hid ▸ List.mem_map_of_mem ho

theorem Valid.upgraded_event_occurrences (hdb : db.Valid) :
    (db.upgraded.notificationEvents.map (·.occurrenceId)).Nodup := by
  rw [(db.perm_upgraded_events.map _).nodup_iff, List.map_map]
  refine List.pairwise_map.mpr ((List.pairwise_map.mp hdb.event_jobs).imp_of_mem ?_)
  intro a b ha hb hne heq
  exact hne (hdb.occurrenceOf_inj (hdb.event_postings a ha) (hdb.event_postings b hb) heq)

theorem Valid.upgraded_match_ids (hdb : db.Valid) :
    (db.upgraded.notificationMatches.map (·.id)).Nodup := by
  rw [(db.perm_upgraded_matches.map _).nodup_iff, List.map_map]
  exact hdb.match_ids

theorem Valid.upgraded_match_pairs (hdb : db.Valid) :
    (db.upgraded.notificationMatches.map fun m => (m.subscriberId, m.occurrenceId)).Nodup := by
  rw [(db.perm_upgraded_matches.map _).nodup_iff, List.map_map]
  refine List.pairwise_map.mpr ((List.pairwise_map.mp hdb.match_pairs).imp_of_mem ?_)
  intro a b ha hb hne heq
  obtain ⟨hsubscriber, hoccurrence⟩ := Prod.mk.injEq .. ▸ heq
  refine hne (Prod.ext hsubscriber ?_)
  exact hdb.occurrenceOf_inj (hdb.match_postings a ha) (hdb.match_postings b hb) hoccurrence

/-- The upgraded database meets its constraints. -/
theorem Valid.upgraded (hdb : db.Valid) : db.upgraded.Valid where
  postings := hdb.postings
  occurrences := db.occurrenceIds
  occurrence_postings o ho := db.occurrence_jobIds.mem_iff.mp (List.mem_map_of_mem ho)
  event_occurrences := hdb.upgraded_event_occurrences
  event_keys event hevent := by
    obtain ⟨row, hrow, rfl⟩ := List.mem_map.mp (db.perm_upgraded_events.mem_iff.mp hevent)
    have hposting := hdb.event_postings row hrow
    exact ⟨hdb.mem_occurrenceIds hposting, hposting⟩
  match_ids := hdb.upgraded_match_ids
  match_pairs := hdb.upgraded_match_pairs
  match_keys m hm := by
    obtain ⟨row, hrow, rfl⟩ := List.mem_map.mp (db.perm_upgraded_matches.mem_iff.mp hm)
    have hposting := hdb.match_postings row hrow
    exact ⟨hdb.mem_occurrenceIds hposting, hposting, hdb.match_subscribers row hrow⟩

theorem Valid.upgrade_events (hdb : db.Valid)
    (hnull : ∀ event ∈ db.notificationEvents, event.discoveredAt ≠ none) :
    copyRows (LegacyEvent.upgraded db.occurrenceByJob)
        (insertEvent db.jobPostings db.occurrences) []
        (db.notificationEvents.insertionSort (·.jobId ≤ ·.jobId)) =
      .ok db.upgraded.notificationEvents := by
  have hmem : ∀ row ∈ db.notificationEvents.insertionSort (·.jobId ≤ ·.jobId),
      row ∈ db.notificationEvents := fun row hrow => (List.mem_insertionSort _).mp hrow
  refine copyRows_eq_ok (fun row hrow => ?_) (fun row hrow => ?_) (fun r hr => ?_) ?_
  · obtain ⟨t, ht⟩ := Option.ne_none_iff_exists'.mp (hnull row (hmem row hrow))
    rw [LegacyEvent.upgraded, hdb.lookup_occurrence (hdb.event_postings row (hmem row hrow)),
      eventRow, ht]
    rfl
  · have hposting := hdb.event_postings row (hmem row hrow)
    exact Bool.and_eq_true_iff.mpr ⟨List.contains_iff_mem.mpr (hdb.mem_occurrenceIds hposting),
      List.contains_iff_mem.mpr hposting⟩
  · cases hr
  · have hnodup := List.pairwise_map.mp hdb.upgraded_event_occurrences
    exact (List.pairwise_map.mp hnodup).imp fun hne => decide_eq_false hne.symm

theorem Valid.upgrade_matches (hdb : db.Valid) :
    copyRows (LegacyMatch.upgraded db.occurrenceByJob)
        (insertMatch db.jobPostings db.subscriberIds db.occurrences) []
        (db.notificationMatches.insertionSort (·.id ≤ ·.id)) =
      .ok db.upgraded.notificationMatches := by
  have hmem : ∀ row ∈ db.notificationMatches.insertionSort (·.id ≤ ·.id),
      row ∈ db.notificationMatches := fun row hrow => (List.mem_insertionSort _).mp hrow
  refine copyRows_eq_ok (fun row hrow => ?_) (fun row hrow => ?_) (fun r hr => ?_) ?_
  · rw [LegacyMatch.upgraded, hdb.lookup_occurrence (hdb.match_postings row (hmem row hrow))]
    rfl
  · have hposting := hdb.match_postings row (hmem row hrow)
    have hoccurrence := hdb.mem_occurrenceIds hposting
    have hsubscriber := hdb.match_subscribers row (hmem row hrow)
    simp only [matchRow, Bool.and_eq_true, List.contains_iff_mem]
    exact ⟨⟨hoccurrence, hposting⟩, hsubscriber⟩
  · cases hr
  · have hids := List.pairwise_map.mp (List.pairwise_map.mp hdb.upgraded_match_ids)
    have hpairs := List.pairwise_map.mp (List.pairwise_map.mp hdb.upgraded_match_pairs)
    exact (hids.and hpairs).imp fun hne => no_conflict hne.1.symm hne.2.symm

/-- **The upgrade** of a database that meets its constraints. -/
theorem Valid.upgrade_eq (hdb : db.Valid)
    (hnull : ∀ event ∈ db.notificationEvents, event.discoveredAt ≠ none) :
    upgrade db = .ok db.upgraded := by
  have hevents := hdb.upgrade_events hnull
  have hmatches := hdb.upgrade_matches
  simp only [upgrade, db.backfill_postings, hevents, hmatches, bind, Except.bind]
  rfl

end LegacyDb

namespace LifecycleDb

variable {db : LifecycleDb} {occurrenceId jobId : ℕ}

/-! ## The downgraded database -/

/-- The occurrence is one of the job. -/
def IsJobOf (db : LifecycleDb) (occurrenceId jobId : ℕ) : Prop :=
  ∃ o ∈ db.jobOccurrences, o.id = occurrenceId ∧ o.jobId = jobId

/-- The job of an occurrence. -/
def jobOf (db : LifecycleDb) (occurrenceId : ℕ) : ℕ :=
  (Dict.get? occurrenceId (occurrenceJobs db)).getD 0

theorem Valid.get?_occurrenceJobs (hdb : db.Valid) (h : db.IsJobOf occurrenceId jobId) :
    Dict.get? occurrenceId (occurrenceJobs db) = some jobId := by
  obtain ⟨o, ho, rfl, rfl⟩ := h
  refine Dict.get?_ofList_of_mem ?_ (List.mem_map.mpr ⟨o, (List.mem_insertionSort _).mpr ho, rfl⟩)
  rw [List.map_map]
  exact ((List.perm_insertionSort _ _).map _).nodup_iff.mpr hdb.occurrences

theorem Valid.jobOf_eq (hdb : db.Valid) (h : db.IsJobOf occurrenceId jobId) :
    db.jobOf occurrenceId = jobId := by
  rw [jobOf, hdb.get?_occurrenceJobs h]
  rfl

theorem Valid.isJobOf_iff (hdb : db.Valid)
    (h : occurrenceId ∈ db.jobOccurrences.map (·.id)) :
    db.IsJobOf occurrenceId jobId ↔ db.jobOf occurrenceId = jobId := by
  obtain ⟨o, ho, hid⟩ := List.mem_map.mp h
  have hjob : db.IsJobOf occurrenceId o.jobId := ⟨o, ho, hid, rfl⟩
  refine ⟨hdb.jobOf_eq, fun heq => ?_⟩
  rwa [← heq, hdb.jobOf_eq hjob]

theorem Valid.lookup_job (hdb : db.Valid) (h : occurrenceId ∈ db.jobOccurrences.map (·.id)) :
    lookup (occurrenceJobs db) occurrenceId = .ok (db.jobOf occurrenceId) := by
  obtain ⟨o, ho, hid⟩ := List.mem_map.mp h
  rw [lookup, jobOf, hdb.get?_occurrenceJobs ⟨o, ho, hid, rfl⟩]
  rfl

theorem Valid.jobOf_mem (hdb : db.Valid) (h : occurrenceId ∈ db.jobOccurrences.map (·.id)) :
    db.jobOf occurrenceId ∈ db.jobPostings.map (·.id) := by
  obtain ⟨o, ho, hid⟩ := List.mem_map.mp h
  rw [hdb.jobOf_eq ⟨o, ho, hid, rfl⟩]
  exact hdb.occurrence_postings o ho

/-- The pair of a match: its subscriber and the job of its occurrence. -/
def pairOf (db : LifecycleDb) (row : MatchRow) : Str × ℕ :=
  (row.subscriberId, db.jobOf row.occurrenceId)

/-- What the downgrade makes of a database. -/
def downgraded (db : LifecycleDb) : LegacyDb where
  jobPostings := db.jobPostings
  subscriberIds := db.subscriberIds
  notificationEvents := (firsts (fun row => db.jobOf row.occurrenceId) db.eventsByTime).map
    fun row => row.legacy (db.jobOf row.occurrenceId)
  notificationMatches := (firsts db.pairOf db.matchesByTime).map
    fun row => row.legacy (db.pairOf row)
  notificationDeliveries := db.notificationDeliveries.map (·.toLegacyDelivery)

theorem mem_eventsByTime {row : NotificationEvent} :
    row ∈ db.eventsByTime ↔ row ∈ db.notificationEvents := List.mem_insertionSort _

theorem mem_matchesByTime {row : MatchRow} :
    row ∈ db.matchesByTime ↔ row ∈ db.notificationMatches := List.mem_insertionSort _

theorem Valid.downgrade_events (hdb : db.Valid) :
    copyFirst (fun row => lookup (occurrenceJobs db) row.occurrenceId) NotificationEvent.legacy
        (insertLegacyEvent db.jobPostings) [] [] db.eventsByTime =
      .ok db.downgraded.notificationEvents := by
  have hkeys : ∀ row ∈ db.eventsByTime, row.occurrenceId ∈ db.jobOccurrences.map (·.id) :=
    fun row hrow => (hdb.event_keys row (mem_eventsByTime.mp hrow)).1
  refine copyFirst_eq_ok (fun row hrow => hdb.lookup_job (hkeys row hrow)) (fun row hrow => ?_) ?_
  · exact List.contains_iff_mem.mpr (hdb.jobOf_mem (hkeys row hrow))
  · exact List.pairwise_of_forall fun _ _ hne => decide_eq_false hne

theorem Valid.downgrade_matches (hdb : db.Valid) :
    copyFirst (MatchRow.pair (occurrenceJobs db)) MatchRow.legacy
        (insertLegacyMatch db.jobPostings db.subscriberIds) [] [] db.matchesByTime =
      .ok db.downgraded.notificationMatches := by
  have hkeys := fun row hrow => hdb.match_keys row (mem_matchesByTime.mp hrow)
  have hpair : ∀ row ∈ db.matchesByTime,
      MatchRow.pair (occurrenceJobs db) row = .ok (db.pairOf row) := fun row hrow => by
    rw [MatchRow.pair, hdb.lookup_job (hkeys row hrow).1]
    rfl
  refine copyFirst_eq_ok hpair (fun row hrow => ?_) ?_
  · have hjob := hdb.jobOf_mem (hkeys row hrow).1
    simp only [MatchRow.legacy, pairOf, Bool.and_eq_true, List.contains_iff_mem]
    exact ⟨hjob, (hkeys row hrow).2.2⟩
  · have hids : db.matchesByTime.Pairwise fun a b => a.id ≠ b.id := by
      refine List.pairwise_map.mp (?_ : (db.matchesByTime.map (·.id)).Nodup)
      exact ((List.perm_insertionSort _ _).map _).nodup_iff.mpr hdb.match_ids
    exact hids.imp fun hid hne => no_conflict hid.symm hne

/-- **The downgrade** of a database that meets its constraints. -/
theorem Valid.downgrade_eq (hdb : db.Valid) : downgrade db = .ok db.downgraded := by
  have hevents := hdb.downgrade_events
  have hmatches := hdb.downgrade_matches
  simp only [downgrade, hevents, hmatches, bind, Except.bind]
  rfl

/-! ## The earliest rows -/

/-- One event is kept of every job that has any, the earliest, and one match of every subscriber
and job. Rows of one time are ordered by the ids that the downgrade reads them by. -/
structure KeepsEarliest (db : LifecycleDb) (restored : LegacyDb) : Prop where
  events_once : (restored.notificationEvents.map (·.jobId)).Nodup
  events_kept : ∀ event ∈ db.notificationEvents, ∃ row ∈ restored.notificationEvents,
    db.IsJobOf event.occurrenceId row.jobId
  events_earliest : ∀ row ∈ restored.notificationEvents, ∃ event ∈ db.notificationEvents,
    db.IsJobOf event.occurrenceId row.jobId ∧ row = event.legacy row.jobId ∧
      ∀ other ∈ db.notificationEvents, db.IsJobOf other.occurrenceId row.jobId →
        byBoth (·.discoveredAt) (·.occurrenceId) event other
  matches_once : (restored.notificationMatches.map fun m => (m.subscriberId, m.jobId)).Nodup
  matches_kept : ∀ m ∈ db.notificationMatches, ∃ row ∈ restored.notificationMatches,
    db.IsJobOf m.occurrenceId row.jobId ∧ m.subscriberId = row.subscriberId
  matches_earliest : ∀ row ∈ restored.notificationMatches, ∃ m ∈ db.notificationMatches,
    db.IsJobOf m.occurrenceId row.jobId ∧ row = m.legacy (m.subscriberId, row.jobId) ∧
      ∀ other ∈ db.notificationMatches, db.IsJobOf other.occurrenceId row.jobId →
        other.subscriberId = row.subscriberId → byBoth (·.discoveredAt) (·.id) m other

theorem Valid.keepsEarliest (hdb : db.Valid) : db.KeepsEarliest db.downgraded where
  events_once := by
    rw [downgraded, List.map_map]
    exact List.pairwise_map.mpr (pairwise_firsts _ _)
  events_kept event hevent := by
    have hkey := (hdb.event_keys event hevent).1
    have hjob := List.mem_map_of_mem (mem_eventsByTime.mpr hevent) (f := fun row =>
      db.jobOf row.occurrenceId)
    obtain ⟨row, hrow, heq⟩ := List.mem_map.mp (mem_map_firsts.mpr hjob)
    exact ⟨_, List.mem_map_of_mem hrow, (hdb.isJobOf_iff hkey).mpr heq.symm⟩
  events_earliest row hrow := by
    obtain ⟨event, hevent, rfl⟩ := List.mem_map.mp hrow
    have hmem := mem_eventsByTime.mp ((firsts_sublist _ _).subset hevent)
    refine ⟨event, hmem, (hdb.isJobOf_iff (hdb.event_keys event hmem).1).mpr rfl, rfl, ?_⟩
    intro other hother hjob
    rcases firsts_le (pairwise_sort_byBoth _ _ _) hevent (mem_eventsByTime.mpr hother)
      (hdb.jobOf_eq hjob) with rfl | hle
    · exact byBoth_refl _
    · exact hle
  matches_once := by
    rw [downgraded, List.map_map]
    exact List.pairwise_map.mpr (pairwise_firsts _ _)
  matches_kept m hm := by
    have hkey := (hdb.match_keys m hm).1
    have hpair := List.mem_map_of_mem (mem_matchesByTime.mpr hm) (f := db.pairOf)
    obtain ⟨row, hrow, heq⟩ := List.mem_map.mp (mem_map_firsts.mpr hpair)
    obtain ⟨hsubscriber, hjob⟩ := Prod.mk.injEq .. ▸ heq
    exact ⟨_, List.mem_map_of_mem hrow, (hdb.isJobOf_iff hkey).mpr hjob.symm, hsubscriber.symm⟩
  matches_earliest row hrow := by
    obtain ⟨m, hm, rfl⟩ := List.mem_map.mp hrow
    have hmem := mem_matchesByTime.mp ((firsts_sublist _ _).subset hm)
    refine ⟨m, hmem, (hdb.isJobOf_iff (hdb.match_keys m hmem).1).mpr rfl, rfl, ?_⟩
    intro other hother hjob hsubscriber
    rcases firsts_le (pairwise_sort_byBoth _ _ _) hm (mem_matchesByTime.mpr hother)
      (Prod.ext hsubscriber (hdb.jobOf_eq hjob)) with rfl | hle
    · exact byBoth_refl _
    · exact hle

end LifecycleDb

/-! ## There and back -/

namespace LegacyDb

variable {db : LegacyDb} {jobId : ℕ}

/-- One occurrence for every posting, a discovery that is closed where the posting is, and the
events there were. -/
structure Backfills (db : LegacyDb) (upgraded : LifecycleDb) : Prop where
  occurrence : ∀ job ∈ db.jobPostings, ∃ o, rowsOf (·.jobId) job.id upgraded.jobOccurrences = [o] ∧
    o.kind = .discovered ∧ o.closedAt.isSome = job.isClosed
  posting : ∀ o ∈ upgraded.jobOccurrences, ∃ job ∈ db.jobPostings, job.id = o.jobId
  events : (upgraded.notificationEvents.map fun e => e.legacy e.jobId).Perm db.notificationEvents

theorem legacy_eventRow {row : LegacyEvent} (h : row.discoveredAt ≠ none) :
    (db.eventRow row).legacy row.jobId = row := by
  obtain ⟨t, ht⟩ := Option.ne_none_iff_exists'.mp h
  cases row
  simp only at ht
  simp [eventRow, NotificationEvent.legacy, ht]

theorem Valid.backfills (hdb : db.Valid)
    (hnull : ∀ event ∈ db.notificationEvents, event.discoveredAt ≠ none) :
    db.Backfills db.upgraded where
  occurrence job hjob := by
    have hkeys : db.occurrences.Pairwise fun a b => a.jobId ≠ b.jobId :=
      List.pairwise_map.mp (db.occurrence_jobIds.nodup_iff.mpr hdb.postings)
    obtain ⟨o, ho, hid, -⟩ := hdb.occurrence (List.mem_map_of_mem hjob)
    obtain ⟨other, hother, heq⟩ := posting_of_occurrence ho
    have hsame : other = job := by
      refine List.inj_on_of_nodup_map hdb.postings hother hjob ?_
      rw [← hid, heq]
      rfl
    refine ⟨o, hid ▸ rowsOf_eq_singleton hkeys ho, ?_, ?_⟩
    · rw [heq]
      rfl
    · rw [heq, hsame, PostingRow.occurrence]
      cases job.isClosed <;> rfl
  posting o ho := List.mem_map.mp (db.occurrence_jobIds.mem_iff.mp (List.mem_map_of_mem ho))
  events := by
    refine (db.perm_upgraded_events.map _).trans ?_
    rw [List.map_map, List.map_congr_left (g := id), List.map_id]
    intro row hrow
    exact legacy_eventRow (hnull row hrow)

/-- In the upgraded database the occurrence of a job leads back to the job. -/
theorem Valid.jobOf_occurrenceOf (hdb : db.Valid) (h : jobId ∈ db.jobPostings.map (·.id)) :
    db.upgraded.jobOf (db.occurrenceOf jobId) = jobId := by
  obtain ⟨o, ho, hjob, hid, -⟩ := hdb.occurrence h
  exact hdb.upgraded.jobOf_eq ⟨o, ho, hid, hjob⟩

theorem Valid.events_round_trip (hdb : db.Valid)
    (hnull : ∀ event ∈ db.notificationEvents, event.discoveredAt ≠ none) :
    db.upgraded.downgraded.notificationEvents.Perm db.notificationEvents := by
  have hperm : db.upgraded.eventsByTime.Perm (db.notificationEvents.map db.eventRow) :=
    (List.perm_insertionSort _ _).trans db.perm_upgraded_events
  have hjob : ∀ row ∈ db.notificationEvents,
      db.upgraded.jobOf (db.eventRow row).occurrenceId = row.jobId := fun row hrow =>
    hdb.jobOf_occurrenceOf (hdb.event_postings row hrow)
  -- no two events have the same job
  have hkeys : (db.upgraded.eventsByTime.map
      fun row => db.upgraded.jobOf row.occurrenceId).Nodup := by
    rw [(hperm.map _).nodup_iff, List.map_map]
    exact (congrArg List.Nodup (List.map_congr_left hjob)).mpr hdb.event_jobs
  rw [LifecycleDb.downgraded, firsts_eq_self hkeys]
  refine (hperm.map _).trans ?_
  rw [List.map_map, List.map_congr_left (g := id), List.map_id]
  intro row hrow
  rw [Function.comp_apply, hjob row hrow]
  exact legacy_eventRow (hnull row hrow)

theorem Valid.matches_round_trip (hdb : db.Valid) :
    db.upgraded.downgraded.notificationMatches.Perm db.notificationMatches := by
  have hperm : db.upgraded.matchesByTime.Perm (db.notificationMatches.map db.matchRow) :=
    (List.perm_insertionSort _ _).trans db.perm_upgraded_matches
  have hpair : ∀ row ∈ db.notificationMatches,
      db.upgraded.pairOf (db.matchRow row) = (row.subscriberId, row.jobId) := fun row hrow =>
    congrArg (row.subscriberId, ·) (hdb.jobOf_occurrenceOf (hdb.match_postings row hrow))
  have hkeys : (db.upgraded.matchesByTime.map db.upgraded.pairOf).Nodup := by
    rw [(hperm.map _).nodup_iff, List.map_map]
    exact (congrArg List.Nodup (List.map_congr_left hpair)).mpr hdb.match_pairs
  rw [LifecycleDb.downgraded, firsts_eq_self hkeys]
  refine (hperm.map _).trans ?_
  rw [List.map_map, List.map_congr_left (g := id), List.map_id]
  intro row hrow
  rw [Function.comp_apply, hpair row hrow]
  rfl

end LegacyDb

/-- **The migration loses nothing.** Of a legacy database the upgrade makes one occurrence for every
posting and keeps the events, and the downgrade gives the events and matches back. Of any later
database the downgrade keeps the earliest event of every job and the earliest match of every
subscriber and job. -/
theorem occurrence_migration :
    (∀ db : LegacyDb, db.Valid →
      (∀ event ∈ db.notificationEvents, event.discoveredAt ≠ none) →
      ∃ upgraded, upgrade db = .ok upgraded ∧ db.Backfills upgraded ∧
        ∃ restored, downgrade upgraded = .ok restored ∧
          restored.notificationEvents.Perm db.notificationEvents ∧
          restored.notificationMatches.Perm db.notificationMatches) ∧
    ∀ db : LifecycleDb, db.Valid →
      ∃ restored, downgrade db = .ok restored ∧ db.KeepsEarliest restored := by
  refine ⟨fun db hdb hnull => ?_, fun db hdb => ?_⟩
  · exact ⟨db.upgraded, hdb.upgrade_eq hnull, hdb.backfills hnull, db.upgraded.downgraded,
      hdb.upgraded.downgrade_eq, hdb.events_round_trip hnull, hdb.matches_round_trip⟩
  · exact ⟨db.downgraded, hdb.downgrade_eq, hdb.keepsEarliest⟩

/-- A posting that was closed and posted again, with an event and a match for each time. -/
def repostedDb : LifecycleDb where
  jobPostings := [⟨7, "https://example.com/jobs/7".toList, none, 10, 20, false⟩]
  subscriberIds := ["alice".toList]
  jobOccurrences := [
    { PostingRow.occurrence ⟨7, "https://example.com/jobs/7".toList, none, 10, 20, true⟩ 1 with
      closedAt := some 15 },
    { PostingRow.occurrence ⟨7, "https://example.com/jobs/7".toList, none, 18, 20, false⟩ 2 with
      kind := .reposted
      previousOccurrenceId := some 1 }]
  notificationEvents := [⟨2, 7, .reposted, 18, false⟩, ⟨1, 7, .discovered, 10, true⟩]
  notificationMatches := [⟨⟨"alice".toList, 2, 7, .reposted, 18⟩, 4⟩,
    ⟨⟨"alice".toList, 1, 7, .discovered, 10⟩, 3⟩]
  notificationDeliveries := []

theorem repostedDb_valid : repostedDb.Valid where
  postings := by decide
  occurrences := by decide
  occurrence_postings := by simp [repostedDb, PostingRow.occurrence]
  event_occurrences := by decide
  event_keys := by simp [repostedDb, PostingRow.occurrence]
  match_ids := by decide
  match_pairs := by decide
  match_keys := by simp [repostedDb, PostingRow.occurrence]

/-- Its history before the second posting. -/
def postedDb : LegacyDb where
  jobPostings := [⟨7, "https://example.com/jobs/7".toList, none, 10, 15, true⟩]
  subscriberIds := ["alice".toList]
  notificationEvents := [⟨7, some 10, true⟩]
  notificationMatches := [⟨3, "alice".toList, 7, 10⟩]
  notificationDeliveries := []

theorem postedDb_valid : postedDb.Valid where
  postings := by decide
  event_jobs := by decide
  event_postings := by simp [postedDb]
  match_ids := by decide
  match_pairs := by decide
  match_postings := by simp [postedDb]
  match_subscribers := by simp [postedDb]

theorem reposted_migration :
    (∃ upgraded, upgrade postedDb = .ok upgraded ∧ postedDb.Backfills upgraded) ∧
      ∃ restored, downgrade repostedDb = .ok restored ∧ repostedDb.KeepsEarliest restored := by
  obtain ⟨hup, hdown⟩ := occurrence_migration
  have hnull : ∀ event ∈ postedDb.notificationEvents, event.discoveredAt ≠ none := by
    simp [postedDb]
  obtain ⟨upgraded, hupgrade, hbackfills, -⟩ := hup postedDb postedDb_valid hnull
  exact ⟨⟨upgraded, hupgrade, hbackfills⟩, hdown repostedDb repostedDb_valid⟩

example : (downgrade repostedDb).toOption.map (·.notificationEvents) =
    some postedDb.notificationEvents := by decide +kernel

end JobPing
