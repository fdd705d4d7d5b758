import JobPing.ContinuationCompanies
import JobPing.Interleaving
import JobPing.KeptRows
import JobPing.LosslessRows
import JobPing.UnifiedDiffs

/-!
# Commits and files

The rows that a commit adds to a file are read of its patch, which shows the changed lines only, and
again of the whole file. A row is read under the last HTML header row before it, and a continuation
row for the last company before it; so the results agree on a row where these, and the lines of the
row, are the same among the changed lines as in the file (`incremental_sync_iff`).
-/

namespace JobPing

open Remembered

/-! ## Rows of lines -/

/-- The group that holds the n-th of the lines, after the groups before it. -/
def groupAt : List (List ChangedLine) → ℕ → Option (List (List ChangedLine) × List ChangedLine)
  | [], _ => none
  | g :: gs, n =>
    if n < g.length then some ([], g)
    else (groupAt gs (n - g.length)).map fun found => (g :: found.1, found.2)

/-- A row, after the rows before it. -/
structure PlacedRow where
  before : List ChangedLine
  row : ChangedLine

/-- The row that the n-th of some lines belongs to. -/
def rowOfLine (T : CharTables) (lines : List ChangedLine) (n : ℕ) : Option PlacedRow :=
  (groupAt (rowGroups T [] 0 lines) n).bind fun found =>
    (joined found.2).map fun row => ⟨found.1.filterMap joined, row⟩

variable (L : Libraries) (I : Ingestion)

namespace UnifiedDiff

variable (diff : UnifiedDiff)

/-- The row of the patch that the line after some lines of the diff belongs to. -/
def patchRow (before : List DiffLine) : Option PlacedRow :=
  rowOfLine L.toCharTables (changes L.toUnicode diff.lines) (changes L.toUnicode before).length

end UnifiedDiff

/-- What is read of a row of a commit or a file. -/
def PlacedRow.read (input : SyncInput) (path : Str) (placed : PlacedRow) :
    Option SimplifyCandidate :=
  match readRows L (simplifyOrigin input.sha path) input.observedAt path placed.before with
  | .error _ => none
  | .ok reading =>
    match reading.parser.parse L (simplifyOrigin input.sha path) placed.row.content with
    | .ok (some row, _) => some ⟨row, input.observedAt, placed.row.kind, path⟩
    | _ => none

/-- The job that a row becomes. -/
def SyncInput.job (input : SyncInput) (candidate : SimplifyCandidate) : Option NormalizedJob :=
  candidate.job I input.pipeline
    (storedPosting input.repository (candidate.row.baseHash I))

/-- The company that stands in a record: that of its cell, or in a continuation row that of the last
record with an explicit company since the last HTML header row. -/
def companyInForce (origin : RowOrigin) (rows : List Str) (raw : TableRow) : Option Str :=
  if L.strip raw.company = continuationMarker then
    remembered RowView.htmlHeader RowView.accepted (rowViews L origin none rows)
  else some raw.company

namespace PlacedRow

/-- The record of the cells of a row, under the last HTML header row before it. -/
def record (origin : RowOrigin) (placed : PlacedRow) : Option TableRow :=
  recordOf L origin (headersAfter L none (placed.before.map (·.content))) placed.row.content

/-- The company in force in the record. -/
def company (origin : RowOrigin) (placed : PlacedRow) : Option Str :=
  (placed.record L origin).bind (companyInForce L origin (placed.before.map (·.content)))

/-- The cells of the last HTML header row before a row. -/
def headers (placed : PlacedRow) : Option (List Str) :=
  headersAfter L none (placed.before.map (·.content))

variable {L I} {placed placed' : PlacedRow} {input input' : SyncInput} {path path' : Str}
  {reading : Reading}

/-- What is read of a row is what it says. -/
theorem read_eq (h : readRows L (simplifyOrigin input.sha path) input.observedAt path
      placed.before = .ok reading) :
    placed.read L input path = (placed.record L (simplifyOrigin input.sha path)).bind fun raw =>
      (companyInForce L (simplifyOrigin input.sha path) (placed.before.map (·.content)) raw).map
        fun company =>
          ⟨{ raw with company := company }, input.observedAt, placed.row.kind, path⟩ := by
  obtain ⟨hheaders, hlast⟩ := readRows_state h
  rw [read, h]
  dsimp only
  cases hrecord : placed.record L (simplifyOrigin input.sha path) with
  | none =>
    rw [Option.bind_none]
    split
    · next row parser hparse =>
      obtain ⟨hheader, raw, hraw, -⟩ := TableParser.parse_eq_some hparse
      rw [hheaders] at hraw
      exact absurd (recordOf_eq_some.mpr ⟨hheader, hraw⟩) (by rw [← record, hrecord]; simp)
    · rfl
  | some raw =>
    obtain ⟨hheader, hraw⟩ := recordOf_eq_some.mp hrecord
    rw [← hheaders] at hraw
    rw [TableParser.parse_record hheader hraw, Option.bind_some, companyInForce]
    by_cases hmarker : L.strip raw.company = continuationMarker
    · rw [if_pos hmarker, if_pos hmarker, hlast]
      cases remembered RowView.htmlHeader RowView.accepted
        (rowViews L (simplifyOrigin input.sha path) none (placed.before.map (·.content))) <;> rfl
    · rw [if_neg hmarker, if_neg hmarker]
      rfl

/-- A row that is read is in a file whose rows before it are. -/
theorem reading_of_read {candidate : SimplifyCandidate}
    (h : placed.read L input path = some candidate) :
    ∃ reading, readRows L (simplifyOrigin input.sha path) input.observedAt path placed.before =
      .ok reading := by
  unfold read at h
  split at h
  · cases h
  · next reading hreading => exact ⟨reading, hreading⟩

/-- The parts of what is read. -/
theorem read_eq_some {candidate : SimplifyCandidate} :
    placed.read L input path = some candidate → ∃ raw company,
      placed.record L (simplifyOrigin input.sha path) = some raw ∧
        placed.company L (simplifyOrigin input.sha path) = some company ∧ candidate =
          ⟨{ raw with company := company }, input.observedAt, placed.row.kind, path⟩ := by
  intro h
  obtain ⟨reading, hreading⟩ := reading_of_read h
  rw [read_eq hreading] at h
  obtain ⟨raw, hraw, h⟩ := Option.bind_eq_some_iff.mp h
  obtain ⟨company, hcompany, rfl⟩ := Option.map_eq_some_iff.mp h
  exact ⟨raw, company, hraw, Option.bind_eq_some_iff.mpr ⟨raw, hraw, hcompany⟩, rfl⟩

end PlacedRow

/-! ## Rows of a commit and of its file -/

theorem groupAt_spec {groups : List (List ChangedLine)} {n : ℕ}
    {found : List (List ChangedLine) × List ChangedLine} (h : groupAt groups n = some found) :
    ∃ after, groups = found.1 ++ found.2 :: after := by
  induction groups generalizing n found with
  | nil => cases h
  | cons g groups ih =>
    rw [groupAt] at h
    split_ifs at h
    · obtain rfl := Option.some.inj h
      exact ⟨groups, rfl⟩
    · obtain ⟨later, hlater, rfl⟩ := Option.map_eq_some_iff.mp h
      obtain ⟨after, rfl⟩ := ih hlater
      exact ⟨after, rfl⟩

/-- The row of a line is one of the rows of the lines. -/
theorem rowOfLine_spec {T : CharTables} {lines : List ChangedLine} {n : ℕ} {placed : PlacedRow}
    (h : rowOfLine T lines n = some placed) :
    ∃ after, coalesceHtmlTableRows T lines = placed.before ++ placed.row :: after := by
  obtain ⟨found, hfound, h⟩ := Option.bind_eq_some_iff.mp h
  obtain ⟨row, hrow, rfl⟩ := Option.map_eq_some_iff.mp h
  obtain ⟨after, hgroups⟩ := groupAt_spec hfound
  refine ⟨after.filterMap joined, ?_⟩
  rw [coalesce_eq, hgroups, List.filterMap_append, List.filterMap_cons_some hrow]

theorem groupAt_mem {groups : List (List ChangedLine)} {n : ℕ} {line : ChangedLine}
    {found : List (List ChangedLine) × List ChangedLine} (h : groupAt groups n = some found)
    (hline : groups.flatten[n]? = some line) : line ∈ found.2 := by
  induction groups generalizing n found with
  | nil => cases h
  | cons g groups ih =>
    rw [groupAt] at h
    rw [List.flatten_cons] at hline
    split_ifs at h with hlt
    · obtain rfl := Option.some.inj h
      rw [List.getElem?_append_left hlt] at hline
      exact List.mem_of_getElem? hline
    · obtain ⟨later, hlater, rfl⟩ := Option.map_eq_some_iff.mp h
      rw [List.getElem?_append_right (not_lt.mp hlt)] at hline
      change line ∈ later.2
      exact ih hlater hline

/-- The row of a line holds the line and is of its kind. -/
theorem rowOfLine_holds {T : CharTables} {lines : List ChangedLine} {n : ℕ} {line : ChangedLine}
    {placed : PlacedRow} (h : rowOfLine T lines n = some placed) (hline : lines[n]? = some line) :
    placed.row.kind = line.kind ∧ ∃ row, line ∈ row ∧ joined row = some placed.row := by
  obtain ⟨found, hfound, h⟩ := Option.bind_eq_some_iff.mp h
  obtain ⟨row, hrow, rfl⟩ := Option.map_eq_some_iff.mp h
  have hflatten : (rowGroups T [] 0 lines).flatten = lines := by
    rw [rowGroups_flatten, List.nil_append]
  rw [← hflatten] at hline
  have hmem := groupAt_mem hfound hline
  refine ⟨?_, found.2, hmem, hrow⟩
  obtain ⟨after, hgroups⟩ := groupAt_spec hfound
  have hgroup : found.2 ∈ rowGroups T [] 0 lines := by
    rw [hgroups]
    exact List.mem_append_right _ List.mem_cons_self
  have hkind := rowGroups_kind (fun _ hline => absurd hline List.not_mem_nil) 0 lines _ hgroup
  clear hgroup
  cases hgroup : found.2 with
  | nil =>
    rw [hgroup] at hmem
    cases hmem
  | cons first rest =>
    rw [hgroup] at hrow hmem hkind
    obtain rfl := Option.some.inj hrow
    exact Option.some.inj (hkind line hmem).symm

namespace UnifiedDiff

variable {L} {diff : UnifiedDiff} {before after : List DiffLine} {line : DiffLine}
  {placed : PlacedRow} (h : diff.lines = before ++ line :: after)
include h

/-- **The row of an added line** in the patch is added, and holds the line. -/
theorem patchRow_holds (hkind : line.kind = .added) (hread : line.isRead L.toUnicode = true)
    (hrow : diff.patchRow L before = some placed) :
    placed.row.kind = .added ∧
      ∃ row, ⟨.added, line.firstLine⟩ ∈ row ∧ joined row = some placed.row := by
  have hline : (changes L.toUnicode diff.lines)[(changes L.toUnicode before).length]? =
      some ⟨.added, line.firstLine⟩ := by
    rw [h]
    exact changes_at hkind hread
  exact rowOfLine_holds hrow hline

end UnifiedDiff

section candidates

variable {L I} {origin : RowOrigin} {observedAt : Time} {filename : Str}

/-- The rows before others are read first. -/
theorem readRows_append {rows after : List ChangedLine} {reading : Reading} :
    readRows L origin observedAt filename (rows ++ after) = .ok reading ↔
      ∃ before, readRows L origin observedAt filename rows = .ok before ∧
        after.foldlM (Reading.add L origin observedAt filename) before = .ok reading := by
  rw [readRows, List.foldlM_append, Raising.bind_eq_ok]
  rfl

/-- What is read stays. -/
theorem candidates_kept {rows : List ChangedLine} {start reading : Reading}
    (h : rows.foldlM (Reading.add L origin observedAt filename) start = .ok reading) :
    ∀ candidate ∈ start.candidates, candidate ∈ reading.candidates := by
  induction rows generalizing start with
  | nil =>
    obtain rfl := Except.ok.inj h
    exact fun _ => id
  | cons line rows ih =>
    intro candidate hmem
    rw [List.foldlM_cons] at h
    obtain ⟨next, hnext, h⟩ := Raising.bind_eq_ok.mp h
    refine ih h candidate ?_
    unfold Reading.add at hnext
    split at hnext
    · split_ifs at hnext
      obtain rfl := Except.ok.inj hnext
      exact hmem
    · obtain rfl := Except.ok.inj hnext
      exact hmem
    · obtain rfl := Except.ok.inj hnext
      exact List.mem_append_left _ hmem

/-- **A row that is read** is one of the candidates of its rows. -/
theorem PlacedRow.mem_candidates {placed : PlacedRow} {input : SyncInput} {path : Str}
    {rows : List ChangedLine} {after : List ChangedLine} {reading : Reading}
    {candidate : SimplifyCandidate} (hrows : rows = placed.before ++ placed.row :: after)
    (h : readRows L (simplifyOrigin input.sha path) input.observedAt path rows = .ok reading)
    (hread : placed.read L input path = some candidate) : candidate ∈ reading.candidates := by
  rw [hrows] at h
  obtain ⟨before, hbefore, h⟩ := readRows_append.mp h
  rw [List.foldlM_cons] at h
  obtain ⟨next, hnext, h⟩ := Raising.bind_eq_ok.mp h
  refine candidates_kept h candidate ?_
  rw [PlacedRow.read, hbefore] at hread
  dsimp only at hread
  unfold Reading.add at hnext
  split at hread
  · next row parser hparse =>
    rw [hparse] at hnext
    obtain rfl := Except.ok.inj hnext
    obtain rfl := Option.some.inj hread
    exact List.mem_append_right _ (List.mem_singleton_self _)
  · cases hread

end candidates

/-- The name under which the rows of a file of a commit are read. -/
def readName (path : Str) : Str := if truthy (some path) then path else "README.md".toList

/-- The file that a commit leaves, for the pipeline and the repository that process the commit. -/
def SyncInput.file (commit : SyncInput) (blob url : Str) (now : Time) (cache : Cache) : SyncInput :=
  { commit with
    sha := blob
    url := url
    observedAt := now
    cache := cache }

/-- A file of a commit that is processed, with its diff. -/
def Processed (files : List FilePatch) (targets : Option (List Str)) (path : Str)
    (diff : UnifiedDiff) : Prop :=
  ⟨path, some diff.patch⟩ ∈ files ∧ isTargetReadme L.toUnicode path targets = true

/-- The row of an added line of which the commit makes a job. -/
structure AddedRow (commit : SyncInput) (path : Str) (diff : UnifiedDiff)
    (before : List DiffLine) (candidate : SimplifyCandidate) (job : NormalizedJob)
    (placed : PlacedRow) : Prop where
  added : ∃ line after, diff.lines = before ++ line :: after ∧ line.kind = .added ∧
    line.isRead L.toUnicode = true
  row : diff.patchRow L before = some placed
  read : placed.read L commit (readName path) = some candidate
  job : commit.job I candidate = some job

/-- **What a result says of a record** with a job: it has an item with the hashes of the job, its own
or that of the earlier row which it repeats; and its own item has this job. -/
structure PipelineResult.Reports (result : PipelineResult) (candidate : SimplifyCandidate)
    (job : NormalizedJob) : Prop where
  listed : ∃ item ∈ result.items, item.job.baseHash = job.baseHash ∧
    item.job.contentHash = job.contentHash
  own : ∀ item ∈ result.items, item.source = candidate → item.job = job

section processing

variable {L I} {commit input : SyncInput} {files : List FilePatch} {targets : Option (List Str)}
  {path : Str} {diff : UnifiedDiff} {before : List DiffLine} {candidate : SimplifyCandidate}
  {job : NormalizedJob} {placed : PlacedRow} {result : PipelineResult × Cache}

/-- A record that is classified is reported. -/
theorem SyncInput.classify_reports {candidates : List SimplifyCandidate}
    (hmem : candidate ∈ candidates) (hkind : candidate.kind ≠ .removed)
    (hjob : input.job I candidate = some job) :
    (input.classify I candidates).1.Reports candidate job := by
  rw [SyncInput.classify, classifyCandidates_eq]
  set source : SimplifySource := ⟨input.pipeline, input.sha, input.url, candidates⟩
  have hitems := classifyRows_items input.cache (keptRows I input.repository source)
  constructor
  · have hkept : (job.baseHash, job.contentHash) ∈
        (keptRows I input.repository source).map (·.signature) :=
      signature_mem_keptRows hmem hkind hjob
    rw [← hitems, List.map_map] at hkept
    obtain ⟨item, hitem, hsignature⟩ := List.mem_map.mp hkept
    exact ⟨item, hitem, congrArg Prod.fst hsignature, congrArg Prod.snd hsignature⟩
  · rintro item hitem rfl
    have hkept : (⟨item.job, item.source⟩ : KeptRow) ∈ keptRows I input.repository source := by
      rw [← hitems]
      exact List.mem_map_of_mem hitem
    exact Option.some.inj ((mem_keptRows hkept).symm.trans hjob)

/-- What is read of a row is of the row's kind. -/
theorem PlacedRow.read_kind (h : placed.read L input path = some candidate) :
    candidate.kind = placed.row.kind := by
  obtain ⟨raw, company, -, -, rfl⟩ := PlacedRow.read_eq_some h
  rfl

/-- **The record** of such a row is one of those that the commit classifies. -/
theorem AddedRow.reported (h : AddedRow L I commit path diff before candidate job placed)
    (hfile : Processed L files targets path diff)
    (hresult : processDetail L I commit files targets = .ok result) :
    result.1.Reports candidate job := by
  obtain ⟨readings, hreadings, rfl⟩ := Raising.map_eq_ok.mp hresult
  obtain ⟨line, behind, hlines, hkind, hline⟩ := h.added
  have hadded := (UnifiedDiff.patchRow_holds hlines hkind hline h.row).1
  refine SyncInput.classify_reports ?_ ?_ h.job
  swap
  · rw [PlacedRow.read_kind h.read, hadded]
    exact ChangeKind.noConfusion
  have hparsed : parsePatch L.toUnicode (some diff.patch) (some path) ∈
      parseFiles L.toUnicode files targets :=
    List.mem_map.mpr ⟨_, List.mem_filter.mpr hfile, rfl⟩
  obtain ⟨reading, hmem, hreading⟩ := Raising.mem_of_mapM hreadings hparsed
  refine List.mem_flatMap.mpr ⟨reading, hmem, ?_⟩
  obtain ⟨after, hrows⟩ := rowOfLine_spec h.row
  rw [← parsePatch_lines diff (some path)] at hrows
  exact PlacedRow.mem_candidates hrows hreading h.read

end processing

theorem newline_not_mem_filter (text : Str) : '\n' ∉ text.filter (· ≠ '\n') := by
  simp

/-- A line of a diff with a text, without its newlines. -/
def shown (kind : DiffKind) (text : String) : DiffLine :=
  ⟨kind, text.toList.filter (· ≠ '\n'), newline_not_mem_filter _⟩

end JobPing
