import JobPing.TableSync
import JobPing.Winners

/-!
# The marker for no sponsorship

The pipeline labels its rows `simplify_github`, and the extractor looks for markers in the rows of
two other labels. A row has no description, so that its job never has details (`marker_lost`).
-/

namespace JobPing

variable {L : Libraries} {I : Ingestion} {now : Time}

/-- The services with the extraction of the source. -/
def Ingestion.withDetails (I : Ingestion) (L : Libraries) (now : Time) : Ingestion :=
  { I with
    extractJobDetails := fun raw =>
      ((JobPing.extractJobDetails L now raw).map (Option.map FoundDetails.details)).toOption }

/-- The details state that sponsorship is denied, with the marker as evidence. -/
def NormalizedJob.deniesSponsorship (job : NormalizedJob) : Bool :=
  job.details.any fun details =>
    (details.policies .sponsorship).any fun fact =>
      fact.value = .denied && fact.evidence.any (·.excerpt.contains '🛂')

/-! ## Details of a row -/

/-- The texts of a description that a row does not have. -/
theorem row_description (row : TableRow) (observedAt : Time) :
    (row.raw observedAt).description L = .ok "\n\n\n\n".toList := rfl

theorem statementEnd_newlines (T : CharTables) :
    (Pattern.statementEnd T).split "\n\n\n\n".toList = [[], [], [], [], []] := rfl

theorem newline_statements (raw : RawJobPayload) (key : PolicyKind) :
    raw.keyStatements L now "\n\n\n\n".toList key = .ok [] := by
  rw [RawJobPayload.keyStatements, statementEnd_newlines]
  rfl

/-- Nothing is stated by newlines. -/
theorem newline_policies (raw : RawJobPayload) :
    raw.textPolicies L now "\n\n\n\n".toList = .ok fun _ => none := by
  have hkeys : terms.mapM (fun key => (raw.keyStatements L now "\n\n\n\n".toList key).map
      (key, foundPolicy ·)) = .ok (terms.map fun key => (key, none)) := by
    simp only [newline_statements]
    rfl
  have hnone (key : PolicyKind) :
      ((terms.map fun key => (key, (none : Option PolicyFact))).lookup key).join = none := by
    cases key <;> rfl
  rw [RawJobPayload.textPolicies, hkeys]
  dsimp only [bind, Except.bind]
  simp only [hnone]
  rfl

/-- A row of a source without markers has no details. -/
theorem extractJobDetails_row {row : TableRow}
    (hsource : row.source ∉ RawJobPayload.markerSources)
    (hemployer : row.source ∉ RawJobPayload.employerSources) (observedAt : Time) :
    extractJobDetails L now (row.raw observedAt) = .ok none := by
  have hmarker : (row.raw observedAt).source ∉ RawJobPayload.markerSources := hsource
  have haggregator : (row.raw observedAt).source ∉ RawJobPayload.employerSources := hemployer
  have htext : (row.raw observedAt).payload.facts.text L "raw_row" [] = .ok row.rawRow := rfl
  have hpolicies : (row.raw observedAt).policies L now "\n\n\n\n".toList = .ok fun _ => none := by
    rw [RawJobPayload.policies, newline_policies]
    dsimp only [bind, Except.bind]
    rw [htext]
    simp only [hmarker, decide_false, Bool.false_and, Bool.false_eq_true, if_false]
    rfl
  rw [extractJobDetails, row_description]
  dsimp only [bind, Except.bind]
  rw [hpolicies]
  simp only [haggregator, not_false_eq_true, if_true]
  rfl

/-- The label of the pipeline is none of those. -/
theorem extract_simplify_row {row : TableRow} (hsource : row.source = "simplify_github".toList)
    (observedAt : Time) : extractJobDetails L now (row.raw observedAt) = .ok none := by
  refine extractJobDetails_row ?_ ?_ observedAt
  · rw [hsource]
    decide
  · rw [hsource]
    decide

/-! ## Details of a job -/

/-- The details of a job are those of its row. -/
theorem SimplifyCandidate.job_details {simplify : SimplifyConfig} {existing : Option JobPosting}
    {candidate : SimplifyCandidate} {job : NormalizedJob}
    (h : candidate.job I simplify existing = some job) :
    I.extractJobDetails (candidate.row.raw candidate.observedAt) = some job.details := by
  obtain ⟨normalized, hnormalized, rfl⟩ := Option.map_eq_some_iff.mp h
  simp only [SimplifyCandidate.normalize, Option.bind_eq_bind, Option.bind_eq_some_iff]
    at hnormalized
  obtain ⟨-, -, details, hdetails, hvalid⟩ := hnormalized
  rw [hdetails, reconcileExistingUrl_eq, (NormalizedJob.validate_eq_some hvalid).2]
  rfl

/-- An item of a row with the label of the pipeline has no details. -/
theorem PipelineItem.Classified.no_details {simplify : SimplifyConfig} {repository : Option Db}
    {item : PipelineItem} (h : item.Classified (I.withDetails L now) simplify repository)
    (hsource : item.source.row.source = "simplify_github".toList) : item.job.details = none := by
  have hdetails := SimplifyCandidate.job_details h.job
  change ((extractJobDetails L now (item.source.row.raw item.source.observedAt)).map
    (Option.map FoundDetails.details)).toOption = some item.job.details at hdetails
  rw [extract_simplify_row hsource] at hdetails
  exact (Option.some.inj hdetails).symm

/-! ## The marker -/

/-- **The marker is lost**: no row that contains it, in a file or in the patches of a commit, makes
a job whose details deny sponsorship. -/
theorem marker_lost (L : Libraries) (I : Ingestion) (now : Time) (input : SyncInput) :
    (∀ path text result cache,
      processFullSync L (I.withDetails L now) input path text = .ok (result, cache) →
        ∀ item ∈ result.items, item.source.row.rawRow.contains '🛂' →
          item.job.deniesSponsorship = false) ∧
      ∀ files targets result cache,
        processDetail L (I.withDetails L now) input files targets = .ok (result, cache) →
          ∀ item ∈ result.items, item.source.row.rawRow.contains '🛂' →
            item.job.deniesSponsorship = false := by
  have hitems {candidates : List SimplifyCandidate}
      (hsource : ∀ candidate ∈ candidates, candidate.row.source = "simplify_github".toList)
      {item : PipelineItem}
      (hitem : item ∈ (input.classify (I.withDetails L now) candidates).1.items) :
      item.job.deniesSponsorship = false := by
    obtain ⟨hmem, hclassified⟩ := classified_items hitem
    rw [NormalizedJob.deniesSponsorship, hclassified.no_details (hsource _ hmem)]
    rfl
  constructor
  · intro path text result cache h item hitem _
    obtain ⟨reading, hreading, heq⟩ := Raising.map_eq_ok.mp h
    have hresult : (input.classify (I.withDetails L now) reading.candidates).1 = result :=
      congrArg Prod.fst heq
    rw [← hresult] at hitem
    exact hitems (readRows_source hreading) hitem
  · intro files targets result cache h item hitem _
    obtain ⟨readings, hreadings, heq⟩ := Raising.map_eq_ok.mp h
    have hresult : (input.classify (I.withDetails L now)
        (readings.flatMap (·.candidates))).1 = result := congrArg Prod.fst heq
    rw [← hresult] at hitem
    refine hitems (fun candidate hmem => ?_) hitem
    obtain ⟨reading, hreading, hmem⟩ := List.mem_flatMap.mp hmem
    obtain ⟨parsedPatch, -, hread⟩ := Raising.exists_of_mapM hreadings hreading
    exact readRows_source hread candidate hmem

/-- A file with one row, which has the marker. -/
def markedReadme : Str :=
  "| Acme 🛂 | Intern | Remote | [Apply](https://acme.test/1) | 1d |".toList

/-- The items of a file. -/
def syncedItems (L : Libraries) (I : Ingestion) (input : SyncInput) (text : Str) :
    List PipelineItem :=
  ((processFullSync L I input "README.md".toList text).map (·.1.items)).toOption.getD []

/-- The row of the sample file becomes a job that does not deny sponsorship. -/
theorem sample_marker_lost :
    ∃ item ∈ syncedItems .ascii (Ingestion.ascii.withDetails .ascii 0) sampleSync markedReadme,
      item.source.row.rawRow.contains '🛂' ∧ item.job.deniesSponsorship = false := by
  decide +kernel

end JobPing
