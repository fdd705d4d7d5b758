import JobPing.Dict
import JobPing.FirstRows
import JobPing.Notifications

/-!
# The migration to job occurrences

`alembic/versions/0006_reposted_job_lifecycle.py`. The upgrade gives every posting one occurrence
and moves the events and matches from the posting to its occurrence; the downgrade moves them back
and keeps the earliest of each job. A table is a list of rows, and an `INSERT` that violates a
constraint ends the migration.

* `upgrade_eq` and `downgrade_eq` compute both directions on a database that meets its
  constraints.
* `occurrence_migration` says that nothing is lost in either direction.

The columns that neither direction reads are left out, and so are the table
`job_source_observations`, which the upgrade creates empty, and the identity sequences.
-/

namespace JobPing

/-! ## The tables -/

/-- The columns of `job_postings` that the migration reads. -/
structure PostingRow where
  id : ℕ
  applyUrl : Str
  postedAt : Option Time
  createdAt : Time
  updatedAt : Time
  isClosed : Bool
  deriving DecidableEq

/-- A row of `job_occurrences` at this revision. -/
structure OccurrenceRow where
  id : ℕ
  jobId : ℕ
  kind : OccurrenceKind
  observedAt : Time
  postedAt : Option Time
  applyUrl : Str
  identityNamespace : Option Str
  externalJobId : Option Str
  source : Option Str
  sourceId : Option Str
  previousOccurrenceId : Option ℕ
  closedAt : Option Time
  deriving DecidableEq

/-- A row of `notification_events`, keyed by the job. -/
structure LegacyEvent where
  jobId : ℕ
  discoveredAt : Option Time
  processed : Bool
  deriving DecidableEq

/-- A row of `notification_matches`, one for a subscriber and a job. -/
structure LegacyMatch where
  id : ℕ
  subscriberId : Str
  jobId : ℕ
  discoveredAt : Time
  deriving DecidableEq

/-- A row of `notification_deliveries`. `job_ids` is a JSON column, here the list it holds, if it
holds one. -/
structure LegacyDelivery where
  id : Str
  kind : DeliveryKind
  jobIds : Option (List ℤ)
  deriving DecidableEq

/-- A row of `notification_matches`, one for a subscriber and an occurrence. -/
structure MatchRow extends JobMatch where
  id : ℕ
  deriving DecidableEq

structure DeliveryRow extends LegacyDelivery where
  occurrenceIds : List ℕ
  totalMatches : ℕ
  newCount : ℕ
  repostedCount : ℕ
  deriving DecidableEq

/-- The database before the upgrade. -/
structure LegacyDb where
  jobPostings : List PostingRow
  subscriberIds : List Str
  notificationEvents : List LegacyEvent
  notificationMatches : List LegacyMatch
  notificationDeliveries : List LegacyDelivery
  deriving DecidableEq

/-- The database after the upgrade. -/
structure LifecycleDb where
  jobPostings : List PostingRow
  subscriberIds : List Str
  jobOccurrences : List OccurrenceRow
  notificationEvents : List NotificationEvent
  notificationMatches : List MatchRow
  notificationDeliveries : List DeliveryRow
  deriving DecidableEq

/-- The primary keys, unique constraints and foreign keys before the upgrade. -/
structure LegacyDb.Valid (db : LegacyDb) : Prop where
  postings : (db.jobPostings.map (·.id)).Nodup
  event_jobs : (db.notificationEvents.map (·.jobId)).Nodup
  event_postings : ∀ event ∈ db.notificationEvents, event.jobId ∈ db.jobPostings.map (·.id)
  match_ids : (db.notificationMatches.map (·.id)).Nodup
  match_pairs : (db.notificationMatches.map fun m => (m.subscriberId, m.jobId)).Nodup
  match_postings : ∀ m ∈ db.notificationMatches, m.jobId ∈ db.jobPostings.map (·.id)
  match_subscribers : ∀ m ∈ db.notificationMatches, m.subscriberId ∈ db.subscriberIds

/-- The primary keys, unique constraints and foreign keys after the upgrade. -/
structure LifecycleDb.Valid (db : LifecycleDb) : Prop where
  postings : (db.jobPostings.map (·.id)).Nodup
  occurrences : (db.jobOccurrences.map (·.id)).Nodup
  occurrence_postings : ∀ o ∈ db.jobOccurrences, o.jobId ∈ db.jobPostings.map (·.id)
  event_occurrences : (db.notificationEvents.map (·.occurrenceId)).Nodup
  event_keys : ∀ event ∈ db.notificationEvents,
    event.occurrenceId ∈ db.jobOccurrences.map (·.id) ∧
      event.jobId ∈ db.jobPostings.map (·.id)
  match_ids : (db.notificationMatches.map (·.id)).Nodup
  match_pairs : (db.notificationMatches.map fun m => (m.subscriberId, m.occurrenceId)).Nodup
  match_keys : ∀ m ∈ db.notificationMatches, m.occurrenceId ∈ db.jobOccurrences.map (·.id) ∧
    m.jobId ∈ db.jobPostings.map (·.id) ∧ m.subscriberId ∈ db.subscriberIds

/-! ## `upgrade` -/

inductive MigrationError
  | KeyError (key : ℕ)
  | IntegrityError
  deriving DecidableEq

/-- `d[key]`. -/
def lookup (d : List (ℕ × ℕ)) (key : ℕ) : Except MigrationError ℕ :=
  (Dict.get? key d).elim (.error (.KeyError key)) .ok

/-- The first occurrence of a posting. -/
def PostingRow.occurrence (job : PostingRow) (id : ℕ) : OccurrenceRow where
  id := id
  jobId := job.id
  kind := .discovered
  observedAt := job.createdAt
  postedAt := job.postedAt
  applyUrl := job.applyUrl
  identityNamespace := none
  externalJobId := none
  source := none
  sourceId := none
  previousOccurrenceId := none
  closedAt := if job.isClosed then some job.updatedAt else none

def insertOccurrence (jobPostings : List PostingRow) :
    List OccurrenceRow → OccurrenceRow → Except MigrationError (List OccurrenceRow) :=
  Table.insertRow .IntegrityError (fun o => (jobPostings.map (·.id)).contains o.jobId)
    fun a b => a.id = b.id

/-- The loop over the postings, with `next_occurrence_id`, the table and `occurrence_by_job`. -/
def backfill (jobPostings : List PostingRow) (nextOccurrenceId : ℕ)
    (jobOccurrences : List OccurrenceRow) (occurrenceByJob : List (ℕ × ℕ)) :
    List PostingRow → Except MigrationError (List OccurrenceRow × List (ℕ × ℕ))
  | [] => .ok (jobOccurrences, occurrenceByJob)
  | job :: jobs => do
    let t ← insertOccurrence jobPostings jobOccurrences (job.occurrence nextOccurrenceId)
    backfill jobPostings (nextOccurrenceId + 1) t
      (Dict.set job.id nextOccurrenceId occurrenceByJob) jobs

/-- The event of the occurrence. Its `discovered_at` may not be `NULL`. -/
def LegacyEvent.upgraded (occurrenceByJob : List (ℕ × ℕ)) (row : LegacyEvent) :
    Except MigrationError NotificationEvent := do
  let occurrenceId ← lookup occurrenceByJob row.jobId
  match row.discoveredAt with
  | none => .error .IntegrityError
  | some discoveredAt => return ⟨occurrenceId, row.jobId, .discovered, discoveredAt,
      row.processed⟩

def insertEvent (jobPostings : List PostingRow) (jobOccurrences : List OccurrenceRow) :
    List NotificationEvent → NotificationEvent → Except MigrationError (List NotificationEvent) :=
  Table.insertRow .IntegrityError
    (fun event => (jobOccurrences.map (·.id)).contains event.occurrenceId &&
      (jobPostings.map (·.id)).contains event.jobId)
    fun a b => a.occurrenceId = b.occurrenceId

def LegacyMatch.upgraded (occurrenceByJob : List (ℕ × ℕ)) (row : LegacyMatch) :
    Except MigrationError MatchRow := do
  let occurrenceId ← lookup occurrenceByJob row.jobId
  return ⟨⟨row.subscriberId, occurrenceId, row.jobId, .discovered, row.discoveredAt⟩, row.id⟩

def insertMatch (jobPostings : List PostingRow) (subscriberIds : List Str)
    (jobOccurrences : List OccurrenceRow) :
    List MatchRow → MatchRow → Except MigrationError (List MatchRow) :=
  Table.insertRow .IntegrityError
    (fun m => (jobOccurrences.map (·.id)).contains m.occurrenceId &&
      (jobPostings.map (·.id)).contains m.jobId && subscriberIds.contains m.subscriberId)
    fun a b => a.id = b.id ||
      (a.subscriberId = b.subscriberId && a.occurrenceId = b.occurrenceId)

/-- `str(job_id).isdigit()` excludes the negative ids. -/
def LegacyDelivery.upgraded (occurrenceByJob : List (ℕ × ℕ)) (row : LegacyDelivery) :
    DeliveryRow :=
  let occurrenceIds := (row.jobIds.getD []).filterMap fun jobId =>
    if 0 ≤ jobId then Dict.get? jobId.toNat occurrenceByJob else none
  { row with
    occurrenceIds := occurrenceIds
    totalMatches := if row.kind = .recap then occurrenceIds.length else 0
    newCount := if row.kind = .recap then occurrenceIds.length else 0
    repostedCount := 0 }

/-- **`upgrade`**. -/
def upgrade (db : LegacyDb) : Except MigrationError LifecycleDb := do
  let (jobOccurrences, occurrenceByJob) ←
    backfill db.jobPostings 1 [] [] (db.jobPostings.insertionSort (·.id ≤ ·.id))
  let notificationEvents ← Table.copyRows (LegacyEvent.upgraded occurrenceByJob)
    (insertEvent db.jobPostings jobOccurrences) []
    (db.notificationEvents.insertionSort (·.jobId ≤ ·.jobId))
  let notificationMatches ← Table.copyRows (LegacyMatch.upgraded occurrenceByJob)
    (insertMatch db.jobPostings db.subscriberIds jobOccurrences) []
    (db.notificationMatches.insertionSort (·.id ≤ ·.id))
  return {
    jobPostings := db.jobPostings
    subscriberIds := db.subscriberIds
    jobOccurrences
    notificationEvents
    notificationMatches
    notificationDeliveries := db.notificationDeliveries.map (·.upgraded occurrenceByJob) }

/-! ## `downgrade` -/

def NotificationEvent.legacy (jobId : ℕ) (row : NotificationEvent) : LegacyEvent :=
  ⟨jobId, some row.discoveredAt, row.processed⟩

def insertLegacyEvent (jobPostings : List PostingRow) :
    List LegacyEvent → LegacyEvent → Except MigrationError (List LegacyEvent) :=
  Table.insertRow .IntegrityError (fun event => (jobPostings.map (·.id)).contains event.jobId)
    fun a b => a.jobId = b.jobId

/-- The subscriber and the job of a match. -/
def MatchRow.pair (occurrenceJobs : List (ℕ × ℕ)) (row : MatchRow) :
    Except MigrationError (Str × ℕ) := do
  let jobId ← lookup occurrenceJobs row.occurrenceId
  return (row.subscriberId, jobId)

def MatchRow.legacy (pair : Str × ℕ) (row : MatchRow) : LegacyMatch :=
  ⟨row.id, pair.1, pair.2, row.discoveredAt⟩

def insertLegacyMatch (jobPostings : List PostingRow) (subscriberIds : List Str) :
    List LegacyMatch → LegacyMatch → Except MigrationError (List LegacyMatch) :=
  Table.insertRow .IntegrityError
    (fun m => (jobPostings.map (·.id)).contains m.jobId && subscriberIds.contains m.subscriberId)
    fun a b => a.id = b.id || (a.subscriberId = b.subscriberId && a.jobId = b.jobId)

/-- `occurrence_jobs`. -/
def occurrenceJobs (db : LifecycleDb) : List (ℕ × ℕ) :=
  Dict.ofList ((db.jobOccurrences.insertionSort (·.id ≤ ·.id)).map fun row => (row.id, row.jobId))

/-- The events and the matches in the order the downgrade reads them. -/
def LifecycleDb.eventsByTime (db : LifecycleDb) : List NotificationEvent :=
  db.notificationEvents.insertionSort (Table.byBoth (·.discoveredAt) (·.occurrenceId))

def LifecycleDb.matchesByTime (db : LifecycleDb) : List MatchRow :=
  db.notificationMatches.insertionSort (Table.byBoth (·.discoveredAt) (·.id))

/-- **`downgrade`**. -/
def downgrade (db : LifecycleDb) : Except MigrationError LegacyDb := do
  let notificationEvents ← Table.copyFirst
    (fun row => lookup (occurrenceJobs db) row.occurrenceId) NotificationEvent.legacy
    (insertLegacyEvent db.jobPostings) [] [] db.eventsByTime
  let notificationMatches ← Table.copyFirst (MatchRow.pair (occurrenceJobs db)) MatchRow.legacy
    (insertLegacyMatch db.jobPostings db.subscriberIds) [] [] db.matchesByTime
  return {
    jobPostings := db.jobPostings
    subscriberIds := db.subscriberIds
    notificationEvents
    notificationMatches
    notificationDeliveries := db.notificationDeliveries.map (·.toLegacyDelivery) }

end JobPing
