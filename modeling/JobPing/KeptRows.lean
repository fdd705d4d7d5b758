import JobPing.Winners

/-!
# The rows a commit or file keeps

Which rows of a commit or file are kept, and with what job, does not depend on the cache
(`keptRows`); only the states do (`classifyCandidates_eq`). The states of one job depend on what its
own key of the cache held before (`statesOf`), and so does the job that wins its hash
(`winnerJob_eq`).
-/

namespace JobPing

variable {cfg : Config} {I : Ingestion}

/-! ## Rows without their states -/

/-- A row that is classified, with its job. -/
structure KeptRow where
  job : NormalizedJob
  source : SimplifyCandidate
  deriving DecidableEq

namespace KeptRow

/-- What is written to the deduplicator about a row. -/
def cacheWrite (row : KeptRow) : CacheWrite :=
  ⟨row.job.baseHash, row.job.contentHash, row.source.row.isClosed⟩

def signature (row : KeptRow) : Digest × Digest := (row.job.baseHash, row.job.contentHash)

end KeptRow

/-- One round of the loop over the rows, without the cache. -/
def keepRow (I : Ingestion) (simplify : SimplifyConfig) (repository : Option Db)
    (kept : List KeptRow) (candidate : SimplifyCandidate) : List KeptRow :=
  match candidate.job I simplify (storedPosting repository (candidate.row.baseHash I)) with
  | none => kept
  | some job =>
    if (job.baseHash, job.contentHash) ∈ kept.map (·.signature) then kept
    else kept ++ [⟨job, candidate⟩]

/-- The rows of a commit or file that are classified. -/
def keptRows (I : Ingestion) (repository : Option Db) (source : SimplifySource) : List KeptRow :=
  (source.candidates.filter (·.kind ≠ .removed)).foldl (keepRow I source.pipeline repository) []

/-- The items of the rows and the cache they leave. -/
def classifyRows : Cache → List KeptRow → List PipelineItem × Cache
  | cache, [] => ([], cache)
  | cache, row :: rows =>
    let classified := classifyAndUpdate cache row.cacheWrite
    let rest := classifyRows classified.2 rows
    (⟨classified.1, row.job, row.source⟩ :: rest.1, rest.2)

theorem classifyRows_concat (cache : Cache) (rows : List KeptRow) (row : KeptRow) :
    classifyRows cache (rows ++ [row]) =
      let before := classifyRows cache rows
      let classified := classifyAndUpdate before.2 row.cacheWrite
      (before.1 ++ [⟨classified.1, row.job, row.source⟩], classified.2) := by
  induction rows generalizing cache with
  | nil => rfl
  | cons first rows ih => simp only [List.cons_append, classifyRows, ih]

/-- **Classification is keeping the rows, then reading the cache.** -/
theorem classifyCandidates_eq (repository : Option Db) (cache : Cache) (source : SimplifySource) :
    classifyCandidates I repository cache source =
      let classified := classifyRows cache (keptRows I repository source)
      (⟨source.sha, source.url, classified.1⟩, classified.2) := by
  have hloop : ∀ candidates : List SimplifyCandidate,
      candidates.foldl (Classifying.add I source.pipeline repository) ⟨[], [], cache⟩ =
        let kept := candidates.foldl (keepRow I source.pipeline repository) []
        ⟨kept.map (·.signature), (classifyRows cache kept).1, (classifyRows cache kept).2⟩ := by
    intro candidates
    induction candidates using List.reverseRecOn with
    | nil => rfl
    | append_singleton candidates candidate ih =>
      rw [List.foldl_concat, ih, List.foldl_concat]
      set kept := candidates.foldl (keepRow I source.pipeline repository) []
      simp only [Classifying.add, keepRow]
      cases hjob : candidate.job I source.pipeline
          (storedPosting repository (candidate.row.baseHash I)) with
      | none => rfl
      | some job =>
        have hhash := (SimplifyCandidate.job_columns hjob).1
        simp only [← hhash]
        split_ifs with hseen
        · rfl
        · simp only [classifyRows_concat, List.map_append, List.map_singleton]
          rfl
  unfold classifyCandidates
  rw [hloop]
  rfl

/-- No two kept rows have the same hashes. -/
theorem nodup_keptRows (I : Ingestion) (repository : Option Db) (source : SimplifySource) :
    ((keptRows I repository source).map (·.signature)).Nodup := by
  unfold keptRows
  induction source.candidates.filter (·.kind ≠ .removed) using List.reverseRecOn with
  | nil => exact List.nodup_nil
  | append_singleton candidates candidate ih =>
    rw [List.foldl_concat, keepRow]
    split
    · exact ih
    · next job hjob =>
      split_ifs with hseen
      · exact ih
      · rw [List.map_append, List.nodup_append]
        refine ⟨ih, List.nodup_singleton _, fun a ha b hb hab => hseen ?_⟩
        obtain rfl : b = (job.baseHash, job.contentHash) := by simpa [KeptRow.signature] using hb
        exact hab ▸ ha

/-- A kept row has the job of its record. -/
theorem mem_keptRows {repository : Option Db} {source : SimplifySource} {row : KeptRow}
    (h : row ∈ keptRows I repository source) :
    row.source.job I source.pipeline (storedPosting repository (row.source.row.baseHash I)) =
      some row.job := by
  unfold keptRows at h
  generalize source.candidates.filter (·.kind ≠ .removed) = candidates at h
  induction candidates using List.reverseRecOn with
  | nil => cases h
  | append_singleton candidates candidate ih =>
    rw [List.foldl_concat, keepRow] at h
    split at h
    · exact ih h
    · next job hjob =>
      split_ifs at h
      · exact ih h
      · rcases List.mem_append.mp h with h | h
        · exact ih h
        · obtain rfl := List.mem_singleton.mp h
          exact hjob

/-- **The hashes of every job** are those of a kept row. -/
theorem signature_mem_keptRows {repository : Option Db} {source : SimplifySource}
    {candidate : SimplifyCandidate} {job : NormalizedJob} (hmem : candidate ∈ source.candidates)
    (hkind : candidate.kind ≠ .removed)
    (hjob : candidate.job I source.pipeline
      (storedPosting repository (candidate.row.baseHash I)) = some job) :
    (job.baseHash, job.contentHash) ∈ (keptRows I repository source).map (·.signature) := by
  have hlisted : candidate ∈ source.candidates.filter (·.kind ≠ .removed) :=
    List.mem_filter.mpr ⟨hmem, decide_eq_true hkind⟩
  unfold keptRows
  generalize source.candidates.filter (·.kind ≠ .removed) = candidates at hlisted ⊢
  induction candidates using List.reverseRecOn with
  | nil => cases hlisted
  | append_singleton candidates other ih =>
    rw [List.foldl_concat, keepRow]
    rcases List.mem_append.mp hlisted with hbefore | hlast
    · have hkept := ih hbefore
      split
      · exact hkept
      · split_ifs
        · exact hkept
        · rw [List.map_append]
          exact List.mem_append_left _ hkept
    · obtain rfl := List.mem_singleton.mp hlast
      rw [hjob]
      dsimp only
      split_ifs with hseen
      · exact hseen
      · rw [List.map_append]
        exact List.mem_append_right _ List.mem_cons_self

/-- The items are the kept rows with their states. -/
theorem classifyRows_items (cache : Cache) (rows : List KeptRow) :
    (classifyRows cache rows).1.map (fun item => (⟨item.job, item.source⟩ : KeptRow)) = rows := by
  induction rows generalizing cache with
  | nil => rfl
  | cons row rows ih => rw [classifyRows, List.map_cons, ih]

/-! ## One key of the cache -/

/-- The answer of the script depends on the key alone. -/
theorem classifyAndUpdate_key (cache : Cache) (write : CacheWrite) :
    (classifyAndUpdate cache write).1 =
      (classifyAndUpdate (fun _ => cache write.baseHash) write).1 := by
  unfold classifyAndUpdate
  cases cache write.baseHash with
  | none => rfl
  | some previous =>
    simp only
    split_ifs <;> rfl

/-- The items of the rows of one job, from what its key held before. -/
def statesOf : Option Str → List KeptRow → List PipelineItem
  | _, [] => []
  | previous, row :: rows =>
    ⟨(classifyAndUpdate (fun _ => previous) row.cacheWrite).1, row.job, row.source⟩ ::
      statesOf (some row.job.contentHash.hex) rows

/-- What the rows of one job leave under its key. -/
def leftBy (previous : Option Str) (rows : List KeptRow) : Option Str :=
  rows.getLast?.elim previous fun row => some row.job.contentHash.hex

theorem leftBy_cons (previous : Option Str) (row : KeptRow) (rows : List KeptRow) :
    leftBy previous (row :: rows) = leftBy (some row.job.contentHash.hex) rows := by
  cases rows with
  | nil => rfl
  | cons next rows => simp only [leftBy, List.getLast?_cons_cons]; rfl

/-- The rows of one job. -/
def rowsOfHash (h : Digest) (rows : List KeptRow) : List KeptRow :=
  rows.filter (·.job.baseHash = h)

/-- **The states of one job** come from its own key. -/
theorem classifyRows_hash (h : Digest) (cache : Cache) (rows : List KeptRow) :
    (classifyRows cache rows).1.filter (·.job.baseHash = h) =
        statesOf (cache h) (rowsOfHash h rows) ∧
      (classifyRows cache rows).2 h = leftBy (cache h) (rowsOfHash h rows) := by
  induction rows generalizing cache with
  | nil => exact ⟨rfl, rfl⟩
  | cons row rows ih =>
    obtain ⟨hitems, hcache⟩ := ih (classifyAndUpdate cache row.cacheWrite).2
    rw [classifyAndUpdate_cache] at hitems hcache
    simp only [classifyRows, rowsOfHash, List.filter_cons, classifyAndUpdate_cache]
    by_cases hrow : row.job.baseHash = h
    · subst hrow
      simp only [KeptRow.cacheWrite, Function.update_self] at hitems hcache
      simp only [decide_true, if_true, statesOf, leftBy_cons]
      refine ⟨List.cons_eq_cons.mpr ⟨?_, hitems⟩, hcache⟩
      rw [classifyAndUpdate_key]
      rfl
    · have hne : h ≠ row.cacheWrite.baseHash := fun hh => hrow hh.symm
      rw [Function.update_of_ne hne] at hitems hcache
      simpa only [hrow, decide_false, Bool.false_eq_true, if_false] using ⟨hitems, hcache⟩

/-! ## The winning job -/

/-- The last item, in the order of the states. -/
def lastListed (items : List PipelineItem) : Option PipelineItem :=
  (DeduplicationState.all.flatMap fun state => items.filter (·.state = state)).getLast?

theorem PipelineResult.pick_eq (h : Digest) (result : PipelineResult) :
    result.pick h = lastListed (result.items.filter (·.job.baseHash = h)) := by
  unfold PipelineResult.pick PipelineResult.listed PipelineResult.categorized lastListed
  rw [List.filter_flatMap]
  refine congrArg List.getLast? (List.flatMap_congr fun state _ => ?_)
  rw [List.filter_filter, List.filter_filter]
  exact List.filter_congr fun item _ => Bool.and_comm _ _

theorem mem_of_lastListed {items : List PipelineItem} {item : PipelineItem}
    (h : lastListed items = some item) : item ∈ items := by
  obtain ⟨state, -, hitem⟩ := List.mem_flatMap.mp (List.mem_of_getLast? h)
  exact (List.mem_filter.mp hitem).1

theorem lastListed_isSome {items : List PipelineItem} :
    (lastListed items).isSome ↔ items ≠ [] := by
  rw [lastListed, List.getLast?_isSome]
  simp only [ne_eq, List.flatMap_eq_nil_iff, List.filter_eq_nil_iff, not_forall]
  constructor
  · rintro ⟨state, -, item, hitem, -⟩ rfl
    cases hitem
  · intro hne
    obtain ⟨item, hitem⟩ := List.exists_mem_of_ne_nil _ hne
    exact ⟨item.state, DeduplicationState.mem_all _, item, hitem, by simp⟩

/-- The job that wins a hash, from the rows of the hash in each commit or file and what its key held
before the first of them. -/
def winningJob : Option Str → List (List KeptRow) → Option NormalizedJob
  | _, [] => none
  | previous, rows :: groups =>
    (winningJob (leftBy previous rows) groups).or
      ((lastListed (statesOf previous rows)).map (·.job))

/-- The job of a hash in the batch of the results. -/
def winnerJob (h : Digest) (results : List PipelineResult) : Option NormalizedJob :=
  (results.reverse.findSome? (·.pick h)).map (·.job)

/-- The rows a hash has in each commit or file. -/
def hashGroups (I : Ingestion) (repository : Option Db) (sources : List SimplifySource)
    (h : Digest) : List (List KeptRow) :=
  sources.map fun source => rowsOfHash h (keptRows I repository source)

/-- **The winner of a hash** depends on its own key of the cache only. -/
theorem winnerJob_eq (h : Digest) (repository : Option Db) (cache : Cache)
    (sources : List SimplifySource) :
    winnerJob h (processAll I repository cache sources).1 =
      winningJob (cache h) (hashGroups I repository sources h) := by
  induction sources generalizing cache with
  | nil => rfl
  | cons source sources ih =>
    obtain ⟨hitems, hcache⟩ := classifyRows_hash h cache (keptRows I repository source)
    have hrest := ih (classifyRows cache (keptRows I repository source)).2
    rw [hcache] at hrest
    simp only [processAll, classifyCandidates_eq, hashGroups, List.map_cons, winningJob]
    unfold winnerJob at hrest ⊢
    rw [List.reverse_cons, List.findSome?_append, Option.map_or, hrest]
    refine congrArg (Option.or _) ?_
    rw [List.findSome?_singleton, PipelineResult.pick_eq, hitems]

theorem winnerJob_baseHash {h : Digest} {results : List PipelineResult} {job : NormalizedJob}
    (hjob : winnerJob h results = some job) : job.baseHash = h := by
  obtain ⟨item, hitem, rfl⟩ := Option.map_eq_some_iff.mp hjob
  obtain ⟨result, -, hpick⟩ := List.exists_of_findSome?_eq_some hitem
  exact PipelineResult.pick_baseHash hpick

/-- The jobs of the batch are the winners of their hashes. -/
theorem mem_winner_jobs {results : List PipelineResult} {job : NormalizedJob} :
    job ∈ (winners results).map (·.job) ↔ winnerJob job.baseHash results = some job := by
  rw [List.mem_map]
  constructor
  · rintro ⟨item, hitem, rfl⟩
    exact congrArg (Option.map (·.job)) (mem_winners_iff.mp hitem)
  · intro hjob
    obtain ⟨item, hitem, rfl⟩ := Option.map_eq_some_iff.mp hjob
    exact ⟨item, mem_winners_iff.mpr hitem, rfl⟩

/-- **Two batches** have the same jobs exactly when every hash has the same winner. -/
theorem winners_perm_iff {results results' : List PipelineResult} :
    ((winners results).map (·.job)).Perm ((winners results').map (·.job)) ↔
      ∀ h, winnerJob h results = winnerJob h results' := by
  have hnodup : ∀ results : List PipelineResult, ((winners results).map (·.job)).Nodup :=
    fun results => List.Nodup.of_map (·.baseHash) (by
      rw [List.map_map]
      exact nodup_winners results)
  rw [List.perm_ext_iff_of_nodup (hnodup _) (hnodup _)]
  simp only [mem_winner_jobs]
  constructor
  · intro hall h
    refine Option.ext fun job => ?_
    constructor
    · intro hjob
      obtain rfl := winnerJob_baseHash hjob
      exact (hall job).mp hjob
    · intro hjob
      obtain rfl := winnerJob_baseHash hjob
      exact (hall job).mpr hjob
  · intro hall job
    rw [hall]

end JobPing
