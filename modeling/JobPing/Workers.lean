import JobPing.Decisions
import JobPing.Interleaving
import Mathlib.Logic.Function.Basic

/-!
# Concurrent workers

Any number of workers upsert batches with `bulk_upsert_job_postings_with_outcomes`, each in one
PostgreSQL transaction at `READ COMMITTED`. A worker executes the statements of the bulk path one
after the other; a statement treats the rows of a batch one by one, and each row of each statement
is one atomic step: the locking pre-read, the upsert, the read of the latest occurrence, and the
inserts and updates that follow. A pre-read locks the rows it finds and sees no row another
transaction has not committed. An upsert waits for the transaction that holds its row, or that is
inserting it; each statement sees what is committed when it starts. A transaction may roll back
between any two steps, also because a statement raised or another one waited for it in a circle.

The company statement of a batch is not a step: it only makes workers wait that name the same
company, and `company_id` is what it returned. The other statements and their effects are those of
the serial model, so that a worker whose pre-read found what its upsert overwrites makes the
delivery `deliverJob` (`Holds.delivered` in `Locking`).
-/

namespace JobPing

/-! ## The system -/

/-- How far a worker has come with one job of its batch. -/
inductive Stage
  | waiting
  /-- The rows the pre-read found and locked, if any. -/
  | preRead (found : Option JobRows)
  /-- The upserted posting, which is locked. -/
  | upserted (found : Option JobRows) (posting : JobPosting)
  /-- The rows of the job, read back after the upsert. -/
  | occurrenceRead (found : Option JobRows) (rows : JobRows)
  | written (rows : JobRows) (outcome : DeduplicationState)

/-- The number of statements that have treated the job. -/
def Stage.rank : Stage → ℕ
  | waiting => 0
  | preRead _ => 1
  | upserted _ _ => 2
  | occurrenceRead _ _ => 3
  | written _ _ => 4

inductive TransactionStatus
  | running
  | committed
  | rolledBack
  deriving DecidableEq

/-- The jobs of a call with distinct base hashes, and their companies: their own, or those the
company statement returned for their names. -/
structure Batch where
  jobs : List NormalizedJob
  unique : (jobs.map (·.baseHash)).Nodup
  companyId : Digest → ℕ

/-- A worker with its batch and its transaction. -/
structure Worker extends Batch where
  stage : Digest → Stage
  status : TransactionStatus

/-- The committed rows of every job, the row locks, and the workers. -/
structure Cluster (ι : Type*) where
  stored : Digest → Option JobRows
  lock : Digest → Option ι
  workers : ι → Worker
  postingSeq : ℕ
  occurrenceSeq : ℕ

/-- A step: the next statement of a worker for one row of its batch, or the end of its
transaction. -/
inductive Action (ι : Type*)
  | next (worker : ι) (baseHash : Digest)
  | commit (worker : ι)
  | rollback (worker : ι)

variable {ι : Type*} [DecidableEq ι] (cfg : Config) (S : Services)

namespace Worker

/-- The job of a batch with a base hash. -/
def job (worker : Worker) (baseHash : Digest) : Option NormalizedJob :=
  worker.jobs.find? (·.baseHash = baseHash)

/-- The earlier statements have treated every job of the batch. -/
def reached (worker : Worker) (rank : ℕ) : Bool :=
  worker.jobs.all fun job => rank ≤ (worker.stage job.baseHash).rank

/-- The rows the worker leaves for a job of its batch. -/
def writtenRows (worker : Worker) (baseHash : Digest) : Option JobRows :=
  match worker.job baseHash, worker.stage baseHash with
  | some _, .written rows _ => some rows
  | _, _ => none

/-- The outcome a worker reports for a job once its transaction is committed. -/
def reported (worker : Worker) (baseHash : Digest) : Option DeduplicationState :=
  match worker.status, worker.job baseHash, worker.stage baseHash with
  | .committed, some _, .written _ outcome => some outcome
  | _, _, _ => none

end Worker

/-- The rows of the bulk upsert of a job, over the rows then committed; the candidate was prepared
against the rows the pre-read found. -/
def upsertedRows (posting_id companyId : ℕ) (found stored : Option JobRows)
    (job : NormalizedJob) : JobRows :=
  upsertRows .bulk posting_id ((candidate S found job).occurrenceKind = some .reposted)
    (PostingValues.of companyId
      (effectiveJob S (candidate S found job) (found.map (·.posting)))) stored

/-- The rows a worker sees after its upsert: its own posting and what is committed. -/
def visibleRows (stored : Option JobRows) (posting : JobPosting) : JobRows :=
  match stored with
  | none =>
    { posting := posting
      occurrences := []
      observations := []
      events := []
      statusLogs := [] }
  | some rows => { rows with posting := posting }

namespace Cluster

variable (c : Cluster ι)

/-- No other worker holds the row. -/
def lockable (worker : ι) (baseHash : Digest) : Bool :=
  c.lock baseHash = none || c.lock baseHash = some worker

def takeLock (worker : ι) (baseHash : Digest) : Cluster ι :=
  { c with lock := Function.update c.lock baseHash (some worker) }

/-- A worker leaves its locks when its transaction ends. -/
def releaseLocks (worker : ι) : Cluster ι :=
  { c with lock := fun h => if c.lock h = some worker then none else c.lock h }

def setWorker (name : ι) (worker : Worker) : Cluster ι :=
  { c with workers := Function.update c.workers name worker }

def setStage (worker : ι) (baseHash : Digest) (stage : Stage) : Cluster ι :=
  c.setWorker worker { c.workers worker with
    stage := Function.update (c.workers worker).stage baseHash stage }

/-- The next statement of a worker for a job of its batch, when it need not wait. -/
def statement (worker : ι) (job : NormalizedJob) : Option (Cluster ι) :=
  let h := job.baseHash
  match (c.workers worker).stage h with
  | .waiting =>
    match c.stored h with
    | none => some (c.setStage worker h (.preRead none))
    | some rows =>
      if c.lockable worker h then
        some ((c.takeLock worker h).setStage worker h (.preRead (some rows)))
      else none
  | .preRead found =>
    if c.lockable worker h then
      let rows := upsertedRows S c.postingSeq ((c.workers worker).companyId h) found
        (c.stored h) job
      some ({ c.takeLock worker h with postingSeq := c.postingSeq + 1 }.setStage worker h
        (.upserted found rows.posting))
    else none
  | .upserted found posting =>
    some (c.setStage worker h (.occurrenceRead found (visibleRows (c.stored h) posting)))
  | .occurrenceRead found rows =>
    match writeEffects cfg S .bulk c.occurrenceSeq rows (found.map (·.posting))
        (candidate S found job) job with
    | none => none
    | some (rows', outcome) =>
      some ({ c with occurrenceSeq := c.occurrenceSeq + 1 }.setStage worker h
        (.written rows' outcome))
  | .written _ _ => none

/-- The state after a commit: the written rows are stored and the locks released. -/
def commit (worker : ι) : Cluster ι :=
  { c.releaseLocks worker with
    stored := fun h => ((c.workers worker).writtenRows h).or (c.stored h) }.setWorker worker
      { c.workers worker with status := .committed }

/-- The state after a rollback. -/
def rollback (worker : ι) : Cluster ι :=
  (c.releaseLocks worker).setWorker worker { c.workers worker with status := .rolledBack }

end Cluster

/-- The workers are called over the tables of a database. -/
def Cluster.start (db : Db) (batches : ι → Batch) : Cluster ι where
  stored := db.job
  lock _ := none
  workers name := { batches name with stage := fun _ => .waiting, status := .running }
  postingSeq := db.jobPostingSeq
  occurrenceSeq := db.jobOccurrenceSeq

/-- **One step** of the system, if it is enabled. -/
def Cluster.step (action : Action ι) (c : Cluster ι) : Option (Cluster ι) :=
  match action with
  | .next worker baseHash =>
    match (c.workers worker).status, (c.workers worker).job baseHash with
    | .running, some job =>
      if (c.workers worker).reached ((c.workers worker).stage baseHash).rank then
        c.statement cfg S worker job
      else none
    | _, _ => none
  | .commit worker =>
    if (c.workers worker).status = .running ∧ (c.workers worker).reached 4 then
      some (c.commit worker)
    else none
  | .rollback worker =>
    if (c.workers worker).status = .running then some (c.rollback worker) else none

/-! ## Sample schedules -/

/-- A batch of one job of a known company. -/
def Batch.ofJob (companyId : ℕ) (job : NormalizedJob) : Batch where
  jobs := [job]
  unique := by simp
  companyId _ := companyId

/-- The first statements of a worker with one job, without interruption. -/
def statements (n : ℕ) (worker : ι) (baseHash : Digest) : List (Action ι) :=
  List.replicate n (.next worker baseHash)

/-- A worker with one job, without interruption. -/
def wholeTransaction (worker : ι) (baseHash : Digest) : List (Action ι) :=
  statements 4 worker baseHash ++ [.commit worker]

end JobPing
