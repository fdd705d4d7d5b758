import JobPing.SimplifyPipeline

/-!
# The items of a batch

What the items of the Simplify pipeline are (`PipelineItem.Classified`), and which of them
`persist_results` hands to the repository: one for every base hash, the last in the order of the
loops (`latestItems_get?`).
-/

namespace JobPing

variable {cfg : Config} {I : Ingestion}

/-! ## The job of a row -/

theorem SimplifyCandidate.normalize_eq_some {simplify : SimplifyConfig}
    {candidate : SimplifyCandidate} {job : NormalizedJob}
    (h : candidate.normalize I simplify = some job) :
    ∃ details, (candidate.fields I simplify details).validate I = some job := by
  simp only [SimplifyCandidate.normalize, Option.bind_eq_bind, Option.bind_eq_some_iff] at h
  obtain ⟨-, -, details, -, h⟩ := h
  exact ⟨details, h⟩

/-- Reconciling the URL changes nothing but URL and hash. -/
theorem reconcileExistingUrl_eq (job : NormalizedJob) (existing : Option JobPosting) :
    reconcileExistingUrl I job existing =
      { job with
        applyUrl := (reconcileExistingUrl I job existing).applyUrl
        contentHash := (reconcileExistingUrl I job existing).contentHash } := by
  cases existing <;> rfl

/-- The job of a row, without URL, hash, location and identity: these columns are the row's own. -/
theorem SimplifyCandidate.job_columns {simplify : SimplifyConfig} {existing : Option JobPosting}
    {candidate : SimplifyCandidate} {job : NormalizedJob}
    (h : candidate.job I simplify existing = some job) :
    job.baseHash = candidate.row.baseHash I ∧ job.isClosed = candidate.row.isClosed ∧
      job.source = some candidate.row.source ∧ job.sourceId = some candidate.row.sourceId := by
  obtain ⟨normalized, hnormalized, rfl⟩ := Option.map_eq_some_iff.mp h
  obtain ⟨details, hvalid⟩ := SimplifyCandidate.normalize_eq_some hnormalized
  rw [reconcileExistingUrl_eq, (NormalizedJob.validate_eq_some hvalid).2]
  exact ⟨rfl, rfl, rfl, rfl⟩

/-! ## Classified items -/

/-- What the pipeline makes of a row. -/
structure PipelineItem.Classified (I : Ingestion) (simplify : SimplifyConfig)
    (repository : Option Db) (item : PipelineItem) : Prop where
  job : item.source.job I simplify
    (storedPosting repository (item.source.row.baseHash I)) = some item.job
  not_reposted : item.state ≠ .roleReposted
  closed : item.state = .roleClosed → item.job.isClosed = true
  added : item.source.kind = .added

theorem PipelineItem.Classified.baseHash {simplify : SimplifyConfig} {repository : Option Db}
    {item : PipelineItem} (h : item.Classified I simplify repository) :
    item.job.baseHash = item.source.row.baseHash I :=
  (SimplifyCandidate.job_columns h.job).1

/-- One round of the loop classifies at most the row it looks at. -/
theorem Classifying.mem_add {simplify : SimplifyConfig} {repository : Option Db}
    {loop : Classifying} {candidate : SimplifyCandidate} {item : PipelineItem}
    (hadded : candidate.kind = .added)
    (h : item ∈ (loop.add I simplify repository candidate).items) :
    item ∈ loop.items ∨ item.source = candidate ∧ item.Classified I simplify repository := by
  unfold Classifying.add at h
  simp only at h
  split at h
  · exact .inl h
  · next job hjob =>
    split_ifs at h
    · exact .inl h
    · rcases List.mem_append.mp h with h | h
      · exact .inl h
      · obtain rfl := List.mem_singleton.mp h
        obtain ⟨hnot, hclosed⟩ := classifyAndUpdate_state loop.cache
          ⟨candidate.row.baseHash I, job.contentHash, candidate.row.isClosed⟩
        refine .inr ⟨rfl, hjob, hnot, fun h => ?_, hadded⟩
        exact (SimplifyCandidate.job_columns hjob).2.1.trans (hclosed h)

/-- **Every item** of a commit or file is a row of it, classified. -/
theorem classified_items {repository : Option Db} {cache : Cache} {source : SimplifySource}
    {item : PipelineItem}
    (h : item ∈ (classifyCandidates I repository cache source).1.items) :
    item.source ∈ source.candidates ∧ item.Classified I source.pipeline repository := by
  suffices hloop : ∀ (candidates : List SimplifyCandidate) (loop : Classifying),
      (∀ candidate ∈ candidates, candidate.kind = .added) →
      item ∈ (candidates.foldl (Classifying.add I source.pipeline repository) loop).items →
      item ∈ loop.items ∨
        item.source ∈ candidates ∧ item.Classified I source.pipeline repository by
    have hadded : ∀ candidate ∈ source.candidates.filter (·.kind ≠ .removed),
        candidate.kind = .added := fun candidate hc => by
      have hne := (List.mem_filter.mp hc).2
      cases hkind : candidate.kind with
      | added => rfl
      | removed => simp [hkind] at hne
    rcases hloop _ _ hadded h with h | ⟨hmem, h⟩
    · cases h
    · exact ⟨(List.mem_filter.mp hmem).1, h⟩
  intro candidates
  induction candidates with
  | nil => exact fun _ _ h => .inl h
  | cons candidate candidates ih =>
    intro loop hadded h
    have hrest := fun c hc => hadded c (List.mem_cons_of_mem _ hc)
    rcases ih _ hrest h with h | ⟨hmem, h⟩
    · rcases Classifying.mem_add (hadded candidate List.mem_cons_self) h with h | ⟨hsource, h⟩
      · exact .inl h
      · exact .inr ⟨hsource ▸ List.mem_cons_self, h⟩
    · exact .inr ⟨List.mem_cons_of_mem _ hmem, h⟩

/-- Every item of a call is a row of one of its commits or files, classified. -/
theorem processed_items {repository : Option Db} {sources : List SimplifySource} {cache : Cache}
    {result : PipelineResult} {item : PipelineItem}
    (hresult : result ∈ (processAll I repository cache sources).1) (hitem : item ∈ result.items) :
    ∃ source ∈ sources,
      item.source ∈ source.candidates ∧ item.Classified I source.pipeline repository := by
  induction sources generalizing cache with
  | nil => cases hresult
  | cons source sources ih =>
    rcases List.mem_cons.mp hresult with rfl | hresult
    · exact ⟨source, List.mem_cons_self, classified_items hitem⟩
    · obtain ⟨other, hmem, h⟩ := ih hresult
      exact ⟨other, List.mem_cons_of_mem _ hmem, h⟩

/-! ## The winning items -/

variable {results : List PipelineResult} {item : PipelineItem}

theorem DeduplicationState.mem_all (state : DeduplicationState) : state ∈ all := by
  cases state <;> decide

@[simp] theorem PipelineResult.mem_listed {result : PipelineResult} :
    item ∈ result.listed ↔ item ∈ result.items := by
  simp [PipelineResult.listed, PipelineResult.categorized, DeduplicationState.mem_all]

/-- The loops run over the items of the results, each under its hash. -/
theorem mem_listedItems {h : Digest} {index : ℕ} :
    (h, index, item) ∈ listedItems results ↔
      h = item.job.baseHash ∧ ∃ result, results[index]? = some result ∧ item ∈ result.items := by
  simp only [listedItems, List.mem_flatMap, List.mem_map, Prod.mk.injEq, Prod.exists]
  constructor
  · rintro ⟨result, i, hmem, found, hfound, rfl, rfl, rfl⟩
    exact ⟨rfl, result, List.mem_zipIdx_iff_getElem?.mp hmem, PipelineResult.mem_listed.mp hfound⟩
  · rintro ⟨rfl, result, hget, hitem⟩
    exact ⟨result, index, List.mem_zipIdx_iff_getElem?.mpr hget, item,
      PipelineResult.mem_listed.mpr hitem, rfl, rfl, rfl⟩

/-- **The winner** of a hash is its last item in the order of the loops. -/
theorem latestItems_get? (h : Digest) :
    Dict.get? h (latestItems results) =
      (((listedItems results).filter (·.1 = h)).getLast?).map (·.2) :=
  Dict.get?_ofList h _

/-- A winner is kept under its own hash. -/
theorem mem_latestItems {h : Digest} {index : ℕ} (hmem : (h, index, item) ∈ latestItems results) :
    h = item.job.baseHash ∧ ∃ result, results[index]? = some result ∧ item ∈ result.items :=
  mem_listedItems.mp (Dict.mem_ofList hmem)

/-- A winner is an item of some result. -/
theorem mem_winners (h : item ∈ winners results) :
    ∃ result ∈ results, item ∈ result.items := by
  obtain ⟨⟨key, index, found⟩, hmem, rfl⟩ := List.mem_map.mp h
  obtain ⟨-, result, hget, hitem⟩ := mem_latestItems hmem
  exact ⟨result, List.mem_of_getElem? hget, hitem⟩

/-- The batch has one job for every hash. -/
theorem winners_hashes (results : List PipelineResult) :
    (winners results).map (·.job.baseHash) = Dict.keys (latestItems results) := by
  rw [winners, List.map_map, Dict.keys]
  refine List.map_congr_left fun entry hmem => ?_
  exact (mem_latestItems hmem).1.symm

theorem nodup_winners (results : List PipelineResult) :
    ((winners results).map (·.job.baseHash)).Nodup := by
  rw [winners_hashes]
  exact Dict.nodup_keys_ofList _

/-- The last item of a hash in the loops over one result. -/
def PipelineResult.pick (h : Digest) (result : PipelineResult) : Option PipelineItem :=
  (result.listed.filter (·.job.baseHash = h)).getLast?

theorem PipelineResult.pick_baseHash {h : Digest} {result : PipelineResult}
    (hpick : result.pick h = some item) : item.job.baseHash = h :=
  of_decide_eq_true (List.mem_filter.mp (List.mem_of_getLast? hpick)).2

/-- **The winner of a hash** is the pick of the last result that has one. -/
theorem latestItems_pick (h : Digest) (results : List PipelineResult) :
    (Dict.get? h (latestItems results)).map (·.2) = results.reverse.findSome? (·.pick h) := by
  rw [latestItems_get?, Option.map_map, ← List.getLast?_map]
  have hitems : ((listedItems results).filter (·.1 = h)).map (·.2.2) =
      results.flatMap fun result => result.listed.filter (·.job.baseHash = h) := by
    have hzip : ∀ index : ℕ, ((results.zipIdx index).flatMap fun entry =>
        entry.1.listed.map fun item => (item.job.baseHash, entry.2, item)).map (·.2.2) =
          results.flatMap (·.listed) := by
      induction results with
      | nil => exact fun _ => rfl
      | cons result results ih =>
        intro index
        rw [List.zipIdx_cons, List.flatMap_cons, List.map_append, ih, List.flatMap_cons,
          List.map_map]
        exact congrArg (· ++ _) (List.map_id _)
    rw [← List.filter_flatMap, ← hzip 0, List.filter_map]
    refine congrArg _ (List.filter_congr fun entry hmem => ?_)
    obtain ⟨key, index, item⟩ := entry
    obtain ⟨rfl, -⟩ := mem_listedItems.mp hmem
    rfl
  exact (congrArg List.getLast? hitems).trans List.getLast?_flatMap

theorem mem_winners_iff :
    item ∈ winners results ↔
      results.reverse.findSome? (·.pick item.job.baseHash) = some item := by
  rw [← latestItems_pick]
  constructor
  · intro h
    obtain ⟨⟨key, index, found⟩, hmem, rfl⟩ := List.mem_map.mp h
    obtain ⟨rfl, -⟩ := mem_latestItems hmem
    have hget : Dict.get? found.job.baseHash (latestItems results) = some (index, found) :=
      Dict.get?_of_mem (Dict.nodup_keys_ofList _) hmem
    exact congrArg (Option.map (·.2)) hget
  · intro h
    obtain ⟨⟨index, found⟩, hget, rfl⟩ := Option.map_eq_some_iff.mp h
    obtain ⟨entry, hfind, hentry⟩ := Option.map_eq_some_iff.mp hget
    have hmem : entry ∈ latestItems results := List.mem_of_find?_eq_some hfind
    exact List.mem_map.mpr ⟨entry, hmem, congrArg Prod.snd hentry⟩

/-- **A call that succeeds** is one batch of the winning jobs. -/
theorem persistResults_ok {db : Db} {deduplicator : Option Cache} {persisted : Persisted}
    (h : persistResults cfg I db results deduplicator = .ok persisted) :
    bulkUpsertJobPostingsWithOutcomes cfg I.toServices db ((winners results).map (·.job)) =
        .ok (persisted.db, persisted.postings) ∧
      persisted.results = results.zipIdx.map fun (result, index) =>
        result.regroup I db (latestItems results) index := by
  unfold persistResults at h
  simp only at h
  cases hbulk : bulkUpsertJobPostingsWithOutcomes cfg I.toServices db
      ((winners results).map (·.job)) with
  | error e =>
    rw [hbulk] at h
    cases h
  | ok r =>
    rw [hbulk] at h
    cases h
    exact ⟨rfl, rfl⟩

/-- A call whose result passes a test succeeds. -/
theorem exists_ok_of_any {ε α : Type*} {call : Except ε α} {test : α → Bool}
    (h : call.toOption.any test = true) : ∃ result, call = .ok result ∧ test result = true := by
  cases call with
  | error e => cases h
  | ok result => exact ⟨result, rfl, h⟩

end JobPing
