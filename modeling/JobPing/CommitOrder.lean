import JobPing.ContentHashes

/-!
# The order of the commits

`_process_commits` of `app/cli.py` processes the recent commits in the order `list_commits` returns
them, newest first, while `persist_results` lets a later result take the place of an earlier one. A
job in several commits therefore ends with its row in the oldest of them, which is the newest
commit's only where the policies make the same of both rows (`newest_commit_wins_iff`).
-/

namespace JobPing

variable {cfg : Config} {S : Services} {I : Ingestion}

/-- `_process_commits` without a sha, on the history of a branch from its newest commit on. -/
def processCommits (I : Ingestion) (repository : Option Db) (cache : Cache)
    (history : List SimplifySource) (limit : ℕ) : List PipelineResult :=
  (processAll I repository cache (history.take limit)).1

/-! ## What the policies make of a row -/

/-- The columns of a posting that tell what its row says. -/
structure RowColumns where
  location : Str
  isClosed : Bool
  postedAt : Option Time
  deriving DecidableEq

def JobPosting.rowColumns (posting : JobPosting) : RowColumns :=
  ⟨posting.location, posting.isClosed, posting.postedAt⟩

/-- What the lifecycle, URL and location policies make of one job alone: its effective location and
flag, and its date, merged with the stored one unless it is a repost. -/
def policyColumns (S : Services) (base : Option JobRows) (job : NormalizedJob) : RowColumns :=
  let effective := effectiveJob S (candidate S base job) (base.map (·.posting))
  { location := effective.location
    isClosed := effective.isClosed
    postedAt := base.elim effective.postedAt fun rows =>
      if decision S base job = .repost then effective.postedAt
      else earliestPostedAt rows.posting.postedAt effective.postedAt }

/-- **A delivery** leaves what the policies make of its job. -/
theorem deliver_rowColumns {ids : WriteIds} {base : Option JobRows} {job : NormalizedJob}
    {rows : JobRows} {state : DeduplicationState}
    (h : deliverJob cfg S .bulk ids base job = some (rows, state)) :
    rows.posting.rowColumns = policyColumns S base job := by
  rw [deliverJob_posting h]
  cases base with
  | none => rfl
  | some b =>
    have hkind : decide ((candidate S (some b) job).occurrenceKind = some .reposted) =
        decide (decision S (some b) job = .repost) := by
      rw [candidate_kind]
      split_ifs with hd <;> simp [hd]
    rw [hkind]
    simp only [JobPosting.rowColumns, policyColumns, upsertRows, JobPosting.conflictUpdate,
      JobPosting.overwrite, PostingValues.of, Option.map_some, Option.elim_some, decide_eq_true_eq]

/-- A row persisted alone ends with what the policies make of it. -/
theorem persisted_alone {db db' : Db} (hwf : db.WF) {job : NormalizedJob}
    {results : List PersistedJobResult}
    (h : bulkUpsertJobPostingsWithOutcomes cfg S db [job] = .ok (db', results)) :
    ∃ rows, db'.job job.baseHash = some rows ∧
      rows.posting.rowColumns = policyColumns S (db.job job.baseHash) job := by
  obtain ⟨result, -, ids, rows, -, -, -, hdel, -, hrows⟩ :=
    Table.forall₂_left (bulk_ok hwf h).delivered (List.mem_singleton_self job)
  exact ⟨rows, hrows, deliver_rowColumns hdel⟩

/-! ## The winning commit -/

/-- **The newest commit wins exactly when** the policies make the same of the rows the job has in the
newest and in the oldest commit with it. The first result with the job is that of the newest commit,
the last one that of the oldest. -/
theorem newest_commit_wins_iff {db : Db} (hreach : Reachable cfg I.toServices db)
    {repository : Option Db} {cache : Cache} {history : List SimplifySource} {limit : ℕ}
    {deduplicator : Option Cache} {persisted : Persisted}
    (h : persistResults cfg I db (processCommits I repository cache history limit)
      deduplicator = .ok persisted) {baseHash : Digest} {newest oldest : PipelineItem}
    (hnewest : (processCommits I repository cache history limit).findSome? (·.pick baseHash) =
      some newest)
    (holdest : (processCommits I repository cache history limit).reverse.findSome?
      (·.pick baseHash) = some oldest) :
    ∃ rows, persisted.db.job baseHash = some rows ∧
      (rows.posting.rowColumns = policyColumns I.toServices (db.job baseHash) newest.job ↔
        policyColumns I.toServices (db.job baseHash) oldest.job =
          policyColumns I.toServices (db.job baseHash) newest.job) := by
  have hwf := hreach.wf
  obtain rfl : oldest.job.baseHash = baseHash := by
    obtain ⟨result, -, hpick⟩ := List.exists_of_findSome?_eq_some holdest
    exact PipelineResult.pick_baseHash hpick
  have hmem : oldest ∈ winners (processCommits I repository cache history limit) :=
    mem_winners_iff.mpr holdest
  obtain ⟨result, -, ids, rows, -, -, -, hdel, -, hrows⟩ :=
    Table.forall₂_left (bulk_ok hwf (persistResults_ok h).1).delivered (List.mem_map_of_mem hmem)
  refine ⟨rows, hrows, ?_⟩
  rw [deliver_rowColumns hdel]

/-! ## A row that moved -/

/-- The sample job in two commits, newest first: its row has moved from Remote to the location. -/
def movedHistory (location : String) : List SimplifySource :=
  [sampleCommit "decade" [sampleTableRow "https://jobs.lever.co/acme/1" location false],
    sampleCommit "c0ffee" [sampleTableRow "https://jobs.lever.co/acme/1" "Remote" false]]

/-- The results of the two commits on empty tables. -/
def movedResults (location : String) : List PipelineResult :=
  processCommits .ascii (some .empty) (fun _ => none) (movedHistory location) 10

/-- The base hash of its row. -/
def movedHash : Digest :=
  Ingestion.ascii.generateBaseHash "Acme".toList "Software Engineer Intern".toList

/-- A job that moved to Berlin in the newer commit is stored in Remote. -/
theorem moved_row_undone : ∃ persisted newest rows,
    Reachable sampleConfig Ingestion.ascii.toServices .empty ∧
      persistResults sampleConfig .ascii .empty (movedResults "Berlin") none = .ok persisted ∧
      (movedResults "Berlin").findSome? (·.pick movedHash) = some newest ∧
      persisted.db.job movedHash = some rows ∧
      rows.posting.rowColumns ≠
        policyColumns Ingestion.ascii.toServices (Db.empty.job movedHash) newest.job := by
  have hrun : (persistResults sampleConfig .ascii .empty
      (movedResults "Berlin") none).toOption.any (fun persisted =>
        ((movedResults "Berlin").findSome? (·.pick movedHash)).any fun newest =>
          (persisted.db.job movedHash).any fun rows => rows.posting.rowColumns ≠
            policyColumns Ingestion.ascii.toServices (Db.empty.job movedHash) newest.job) =
      true := by decide +kernel
  obtain ⟨persisted, hpersisted, hrun⟩ := exists_ok_of_any hrun
  obtain ⟨newest, hnewest, hrun⟩ := (Option.any_eq_true _ _).mp hrun
  obtain ⟨rows, hrows, hne⟩ := (Option.any_eq_true _ _).mp hrun
  exact ⟨persisted, newest, rows, ⟨[], rfl⟩, hpersisted, hnewest, hrows, of_decide_eq_true hne⟩

/-- A job whose row stayed where it was. -/
theorem unmoved_row_kept : ∃ persisted newest rows,
    persistResults sampleConfig .ascii .empty (movedResults "Remote") none = .ok persisted ∧
      (movedResults "Remote").findSome? (·.pick movedHash) = some newest ∧
      persisted.db.job movedHash = some rows ∧
      rows.posting.rowColumns =
        policyColumns Ingestion.ascii.toServices (Db.empty.job movedHash) newest.job := by
  have hrun : (persistResults sampleConfig .ascii .empty
      (movedResults "Remote") none).toOption.any (fun _ =>
        ((movedResults "Remote").findSome? (·.pick movedHash)).any fun newest =>
          ((movedResults "Remote").reverse.findSome? (·.pick movedHash)).any fun oldest =>
            policyColumns Ingestion.ascii.toServices (Db.empty.job movedHash) oldest.job =
              policyColumns Ingestion.ascii.toServices (Db.empty.job movedHash) newest.job) =
      true := by decide +kernel
  obtain ⟨persisted, hpersisted, hpicks⟩ := exists_ok_of_any hrun
  obtain ⟨newest, hnewest, hpicks⟩ := (Option.any_eq_true _ _).mp hpicks
  obtain ⟨oldest, holdest, hagree⟩ := (Option.any_eq_true _ _).mp hpicks
  have hreach : Reachable sampleConfig Ingestion.ascii.toServices .empty := ⟨[], rfl⟩
  obtain ⟨rows, hrows, hiff⟩ := newest_commit_wins_iff hreach hpersisted hnewest holdest
  exact ⟨persisted, newest, rows, hpersisted, hnewest, hrows, hiff.mpr (of_decide_eq_true hagree)⟩

end JobPing
