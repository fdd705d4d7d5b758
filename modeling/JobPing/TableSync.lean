import JobPing.MarkdownParser
import JobPing.Raising
import JobPing.Winners

/-!
# Commits and files of tables

`process_detail` and `process_full_sync` of `app/pipelines/simplify_pipeline.py`: the rows of the
patches of a commit, or of a file, are parsed with one parser a file (`readRows`) and classified.
-/

namespace JobPing

variable (L : Libraries) (I : Ingestion)

/-- What the loop over the rows of a file carries. -/
structure Reading where
  parser : TableParser
  candidates : List SimplifyCandidate

/-- `MarkdownTableParser(...)`. -/
def Reading.start : Reading := ⟨⟨none, none⟩, []⟩

/-- One round of the loop: a `ValidationError` or a `ValueError` rejects the row. -/
def Reading.add (origin : RowOrigin) (observedAt : Time) (filename : Str) (reading : Reading)
    (line : ChangedLine) : Except Raised Reading :=
  match reading.parser.parse L origin line.content with
  | .error e => if e = .validationError ∨ e = .valueError then .ok reading else .error e
  | .ok (none, parser) => .ok { reading with parser := parser }
  | .ok (some row, parser) =>
    .ok ⟨parser, reading.candidates ++ [⟨row, observedAt, line.kind, filename⟩]⟩

/-- The rows of a file. -/
def readRows (origin : RowOrigin) (observedAt : Time) (filename : Str)
    (rows : List ChangedLine) : Except Raised Reading :=
  rows.foldlM (Reading.add L origin observedAt filename) .start

/-- The origin of the rows of a file: `f"{sha}:{filename}"`. -/
def simplifyOrigin (sha filename : Str) : RowOrigin where
  source := "simplify_github".toList
  source_ne := simplify_source_ne
  sourceId := sha ++ ':' :: filename
  sourceId_ne := List.append_ne_nil_of_right_ne_nil _ (List.cons_ne_nil _ _)

/-- A commit or a blob that is processed, with the pipeline that processes it. -/
structure SyncInput where
  pipeline : SimplifyConfig
  repository : Option Db
  cache : Cache
  sha : Str
  url : Str
  observedAt : Time

/-- The rows of a file with a text. -/
def textRows (text : Str) : List ChangedLine :=
  coalesceHtmlTableRows L.toCharTables ((splitlines text).map (⟨.added, ·⟩))

/-- The classification of the rows. -/
def SyncInput.classify (input : SyncInput) (candidates : List SimplifyCandidate) :
    PipelineResult × Cache :=
  classifyCandidates I input.repository input.cache
    ⟨input.pipeline, input.sha, input.url, candidates⟩

/-- The items of the rows of a file. -/
def SyncInput.items (input : SyncInput) (candidates : List SimplifyCandidate) :
    List PipelineItem :=
  (input.classify I candidates).1.items

/-- **`process_full_sync`**, of a file with its text. -/
def processFullSync (input : SyncInput) (path text : Str) :
    Except Raised (PipelineResult × Cache) :=
  (readRows L (simplifyOrigin input.sha path) input.observedAt path (textRows L text)).map
    fun reading => input.classify I reading.candidates

/-- The rows of a patch. -/
def ParsedPatch.read (input : SyncInput) (parsedPatch : ParsedPatch) : Except Raised Reading :=
  let filename :=
    if truthy parsedPatch.filename then parsedPatch.filename.getD [] else "README.md".toList
  readRows L (simplifyOrigin input.sha filename) input.observedAt filename
    (coalesceHtmlTableRows L.toCharTables parsedPatch.lines)

/-- **`process_detail`**, of a commit with its files. -/
def processDetail (input : SyncInput) (files : List FilePatch) (targets : Option (List Str)) :
    Except Raised (PipelineResult × Cache) :=
  ((parseFiles L.toUnicode files targets).mapM (ParsedPatch.read L input)).map fun readings =>
    input.classify I (readings.flatMap (·.candidates))

/-- The job that a row becomes which comes after some rows of a file; `none` when it is no record,
is rejected or repeats an earlier job. -/
def jobAt (origin : RowOrigin) (input : SyncInput) (filename : Str) (before : List ChangedLine)
    (line : ChangedLine) : Option PipelineItem :=
  match readRows L origin input.observedAt filename before,
    readRows L origin input.observedAt filename (before ++ [line]) with
  | .ok reading, .ok reading' =>
    if input.items I reading'.candidates = input.items I reading.candidates then none
    else (input.items I reading'.candidates).getLast?
  | _, _ => none

/-- A file of the sample commit, for a pipeline without a repository and with an empty cache. -/
def sampleSync : SyncInput := ⟨⟨2026, .internship⟩, none, fun _ => none, "c0ffee".toList, [], 0⟩

/-! ## What is read -/

variable {L} {origin : RowOrigin}

theorem TableRow.validate_eq {row checked : TableRow} (h : row.validate = .ok checked) :
    checked = row := by
  unfold TableRow.validate at h
  split_ifs at h
  exact (Except.ok.inj h).symm

/-- A record has the label of its table, the text of its row and what its cells say. -/
theorem MappedRow.record_eq {text : Str} {mapped : MappedRow} {row : TableRow}
    (h : mapped.record L origin text = .ok (some row)) :
    row.source = origin.source ∧ row.rawRow = text ∧ row.company = mapped.company L ∧
      mapped.company L ≠ [] ∧ mapped.namesColumns L = false ∧ row.title = mapped.title L ∧
      row.location = mapped.location L ∧
      some row.applyUrl = extractUrl L ((mapped.get .applyUrl).getD []) ∧
      row.isClosed = mapped.isClosed L := by
  unfold MappedRow.record at h
  by_cases hcomplete : mapped.isComplete = true
  swap
  · rw [if_neg hcomplete] at h
    cases h
  rw [if_pos hcomplete] at h
  split at h
  · cases h
  · cases h
  next applyUrl _ hurl =>
  split at h
  · cases h
  next hshown =>
  rw [not_or, not_or, not_or, Bool.not_eq_true] at hshown
  split at h
  · cases h
  obtain ⟨checked, hchecked, heq⟩ := Raising.map_eq_ok.mp h
  obtain rfl := Option.some.inj heq
  obtain rfl := TableRow.validate_eq hchecked
  dsimp only
  exact ⟨rfl, rfl, rfl, hshown.1, hshown.2.2.2, rfl, rfl, hurl.symm, rfl⟩

theorem parseMarkdownTableRow_eq {headers : Option (List Str)} {text : Str} {row : TableRow} :
    parseMarkdownTableRow L origin headers text = .ok (some row) ↔
      ∃ mapped, mappedRow L headers text = .ok (some mapped) ∧
        mapped.record L origin text = .ok (some row) := by
  unfold parseMarkdownTableRow
  rw [Raising.bind_eq_ok]
  constructor
  · rintro ⟨mapped, hmapped, h⟩
    cases mapped with
    | none => cases h
    | some mapped => exact ⟨mapped, hmapped, h⟩
  · rintro ⟨mapped, hmapped, h⟩
    exact ⟨some mapped, hmapped, h⟩

/-- What the parser makes of a row that has a record. -/
theorem TableParser.parse_record {parser : TableParser} {text : Str} {raw : TableRow}
    (hheader : headerCells L text = .ok none)
    (hraw : parseMarkdownTableRow L origin parser.headers text = .ok (some raw)) :
    parser.parse L origin text = .ok
      (if L.strip raw.company = continuationMarker then
        (parser.lastCompany.map fun company => { raw with company := company }, parser)
      else (some raw, { parser with lastCompany := some (L.strip raw.company) })) := by
  unfold TableParser.parse
  rw [hheader]
  dsimp only [bind, Except.bind]
  rw [hraw]
  dsimp only
  split_ifs
  · cases parser.lastCompany <;> rfl
  · rfl

/-- **The record of a row**, and where its company is from. -/
theorem TableParser.parse_eq_some {parser parser' : TableParser} {text : Str} {row : TableRow}
    (h : parser.parse L origin text = .ok (some row, parser')) :
    headerCells L text = .ok none ∧ ∃ raw,
      parseMarkdownTableRow L origin parser.headers text = .ok (some raw) ∧
        row = { raw with company := row.company } ∧
        if L.strip raw.company = continuationMarker then
          parser.lastCompany = some row.company ∧ parser' = parser
        else row = raw ∧ parser' = { parser with lastCompany := some (L.strip raw.company) } := by
  have hparse := h
  unfold TableParser.parse at h
  obtain ⟨header, hheader, h⟩ := Raising.bind_eq_ok.mp h
  cases header with
  | some header => cases h
  | none =>
  obtain ⟨raw, hraw, h⟩ := Raising.bind_eq_ok.mp h
  cases raw with
  | none => cases h
  | some raw =>
  rw [TableParser.parse_record hheader hraw, Except.ok.injEq] at hparse
  refine ⟨hheader, raw, hraw, ?_⟩
  split_ifs at hparse ⊢
  · obtain ⟨company, hcompany, rfl⟩ := Option.map_eq_some_iff.mp (congrArg Prod.fst hparse)
    exact ⟨rfl, hcompany, (congrArg Prod.snd hparse).symm⟩
  · obtain rfl := Option.some.inj (congrArg Prod.fst hparse)
    exact ⟨rfl, rfl, (congrArg Prod.snd hparse).symm⟩

/-- The rows before the last one are read first. -/
theorem readRows_concat {observedAt : Time} {filename : Str} {rows : List ChangedLine}
    {line : ChangedLine} {reading : Reading} :
    readRows L origin observedAt filename (rows ++ [line]) = .ok reading ↔
      ∃ before, readRows L origin observedAt filename rows = .ok before ∧
        before.add L origin observedAt filename line = .ok reading := by
  rw [readRows, List.foldlM_append, Raising.bind_eq_ok]
  simp only [List.foldlM_cons, List.foldlM_nil, bind_pure]
  rfl

/-- Every candidate of a file has the label of its table. -/
theorem readRows_source {observedAt : Time} {filename : Str} {rows : List ChangedLine}
    {reading : Reading} (h : readRows L origin observedAt filename rows = .ok reading) :
    ∀ candidate ∈ reading.candidates, candidate.row.source = origin.source := by
  suffices hloop : ∀ start : Reading,
      (∀ candidate ∈ start.candidates, candidate.row.source = origin.source) →
      rows.foldlM (Reading.add L origin observedAt filename) start = .ok reading →
      ∀ candidate ∈ reading.candidates, candidate.row.source = origin.source from
    hloop .start (fun _ hmem => absurd hmem List.not_mem_nil) h
  clear h
  induction rows with
  | nil =>
    intro start hstart h
    obtain rfl := Except.ok.inj h
    exact hstart
  | cons line rows ih =>
    intro start hstart h
    rw [List.foldlM_cons] at h
    obtain ⟨next, hnext, h⟩ := Raising.bind_eq_ok.mp h
    refine ih next (fun candidate hmem => ?_) h
    unfold Reading.add at hnext
    split at hnext
    · split_ifs at hnext
      obtain rfl := Except.ok.inj hnext
      exact hstart candidate hmem
    · obtain rfl := Except.ok.inj hnext
      exact hstart candidate hmem
    · next row parser hparse =>
      obtain rfl := Except.ok.inj hnext
      rcases List.mem_append.mp hmem with hmem | hmem
      · exact hstart candidate hmem
      · obtain rfl := List.mem_singleton.mp hmem
        obtain ⟨-, raw, hraw, hrow, -⟩ := TableParser.parse_eq_some hparse
        obtain ⟨mapped, -, hrecord⟩ := parseMarkdownTableRow_eq.mp hraw
        change row.source = origin.source
        rw [hrow]
        exact (MappedRow.record_eq hrecord).1

/-! ## Jobs by their rows -/

variable {I} {input : SyncInput} {filename : Str}

/-- The company of a job is that of its row. -/
theorem SimplifyCandidate.job_company {simplify : SimplifyConfig} {existing : Option JobPosting}
    {candidate : SimplifyCandidate} {job : NormalizedJob}
    (h : candidate.job I simplify existing = some job) :
    job.companyName = some candidate.row.company := by
  obtain ⟨normalized, hnormalized, rfl⟩ := Option.map_eq_some_iff.mp h
  obtain ⟨details, hvalid⟩ := SimplifyCandidate.normalize_eq_some hnormalized
  rw [reconcileExistingUrl_eq, (NormalizedJob.validate_eq_some hvalid).2]
  rfl

/-- One more candidate makes at most one more item. -/
theorem SyncInput.items_concat (I : Ingestion) (input : SyncInput)
    (candidates : List SimplifyCandidate) (candidate : SimplifyCandidate) :
    input.items I (candidates ++ [candidate]) = input.items I candidates ∨
      ∃ item, input.items I (candidates ++ [candidate]) = input.items I candidates ++ [item] ∧
        item.source = candidate ∧ candidate.job I input.pipeline
          (storedPosting input.repository (candidate.row.baseHash I)) = some item.job := by
  unfold SyncInput.items SyncInput.classify classifyCandidates
  dsimp only
  rw [List.filter_append, List.foldl_append]
  by_cases hkind : candidate.kind ≠ .removed
  swap
  · rw [List.filter_cons_of_neg (by simpa using hkind)]
    exact .inl rfl
  rw [List.filter_cons_of_pos (by simpa using hkind), List.filter_nil, List.foldl_cons,
    List.foldl_nil]
  generalize List.foldl _ _ _ = loop
  rw [Classifying.add]
  dsimp only
  split
  · exact .inl rfl
  next job hjob =>
    split_ifs
    · exact .inl rfl
    · exact .inr ⟨_, rfl, rfl, hjob⟩

/-- A row adds at most a candidate. -/
theorem Reading.add_candidates {observedAt : Time} {reading reading' : Reading}
    {line : ChangedLine}
    (h : reading.add L origin observedAt filename line = .ok reading') :
    reading'.candidates = reading.candidates ∨
      ∃ row parser, reading.parser.parse L origin line.content = .ok (some row, parser) ∧
        reading'.candidates = reading.candidates ++ [⟨row, observedAt, line.kind, filename⟩] := by
  unfold Reading.add at h
  split at h
  · split_ifs at h
    exact .inl (by rw [← Except.ok.inj h])
  · exact .inl (by rw [← Except.ok.inj h])
  · next row parser hparse => exact .inr ⟨row, parser, hparse, by rw [← Except.ok.inj h]⟩

/-- **The job of a row**: the row is a record, and its candidate is an item. -/
theorem jobAt_eq_some {before : List ChangedLine} {line : ChangedLine} {item : PipelineItem}
    (h : jobAt L I origin input filename before line = some item) :
    ∃ reading row parser, readRows L origin input.observedAt filename before = .ok reading ∧
      reading.parser.parse L origin line.content = .ok (some row, parser) ∧
      item.source = ⟨row, input.observedAt, line.kind, filename⟩ ∧
      item.source.job I input.pipeline
        (storedPosting input.repository (item.source.row.baseHash I)) = some item.job := by
  unfold jobAt at h
  split at h
  swap
  · cases h
  next reading reading' hbefore hread =>
  obtain ⟨start, hstart, hadd⟩ := readRows_concat.mp hread
  obtain rfl := Except.ok.inj (hbefore.symm.trans hstart)
  rcases Reading.add_candidates hadd with hsame | ⟨row, parser, hparse, hcandidates⟩
  · rw [hsame, if_pos rfl] at h
    cases h
  rw [hcandidates] at h
  rcases SyncInput.items_concat I input reading.candidates
    ⟨row, input.observedAt, line.kind, filename⟩ with hsame | ⟨other, hitems, hsource, hjob⟩
  · rw [hsame, if_pos rfl] at h
    cases h
  rw [hitems, if_neg (by simp), List.getLast?_concat, Option.some.injEq] at h
  obtain rfl := h
  exact ⟨reading, row, parser, hbefore, hparse, hsource, by rw [hsource]; exact hjob⟩

/-- The items of some rows are the jobs of these rows. -/
theorem mem_items_iff {rows : List ChangedLine} {reading : Reading} {item : PipelineItem}
    (h : readRows L origin input.observedAt filename rows = .ok reading) :
    item ∈ input.items I reading.candidates ↔ ∃ before line after, rows = before ++ line :: after ∧
      jobAt L I origin input filename before line = some item := by
  induction rows using List.reverseRecOn generalizing reading with
  | nil =>
    obtain rfl := Except.ok.inj h
    constructor
    · intro hmem
      cases hmem
    · rintro ⟨before, line, after, heq, -⟩
      exact absurd heq.symm (List.append_ne_nil_of_right_ne_nil _ (List.cons_ne_nil _ _))
  | append_singleton rows line ih =>
    obtain ⟨start, hstart, hadd⟩ := readRows_concat.mp h
    -- the last row, or one before it
    have hsplit : (∃ before other after, rows ++ [line] = before ++ other :: after ∧
        jobAt L I origin input filename before other = some item) ↔
        item ∈ input.items I start.candidates ∨
          jobAt L I origin input filename rows line = some item := by
      rw [ih hstart]
      constructor
      · rintro ⟨before, other, after, heq, hjob⟩
        rcases List.eq_nil_or_concat after with rfl | ⟨after, last, rfl⟩
        · obtain ⟨rfl, hlast⟩ := List.append_inj' heq rfl
          obtain rfl := List.singleton_inj.mp hlast
          exact .inr hjob
        · rw [List.concat_eq_append, ← List.cons_append, ← List.append_assoc] at heq
          exact .inl ⟨before, other, after, (List.append_inj' heq rfl).1, hjob⟩
      · rintro (⟨before, other, after, rfl, hjob⟩ | hjob)
        · exact ⟨before, other, after ++ [line], by simp, hjob⟩
        · exact ⟨rows, line, [], rfl, hjob⟩
    rw [hsplit, jobAt, hstart, h]
    dsimp only
    rcases Reading.add_candidates hadd with hsame | ⟨row, parser, -, hcandidates⟩
    · rw [hsame, if_pos rfl]
      simp
    rw [hcandidates]
    rcases SyncInput.items_concat I input start.candidates
      ⟨row, input.observedAt, line.kind, filename⟩ with hsame | ⟨other, hitems, -, -⟩
    · rw [hsame, if_pos rfl]
      simp
    · rw [hitems, if_neg (by simp), List.getLast?_concat, List.mem_append, List.mem_singleton,
        Option.some.injEq]
      exact or_congr_right eq_comm

/-- **The items of a file** are the jobs of its rows. -/
theorem full_sync_items {path text : Str} {result : PipelineResult × Cache} {item : PipelineItem}
    (h : processFullSync L I input path text = .ok result) :
    item ∈ result.1.items ↔ ∃ before line after, textRows L text = before ++ line :: after ∧
      jobAt L I (simplifyOrigin input.sha path) input path before line = some item := by
  obtain ⟨reading, hreading, rfl⟩ := Raising.map_eq_ok.mp h
  exact mem_items_iff hreading

end JobPing
