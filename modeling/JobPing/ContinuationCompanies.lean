import JobPing.Remembered
import JobPing.TableSync
import JobPing.Winners

/-!
# The companies of continuation rows

The parser remembers the company of the last record, and forgets it at an HTML header row. A
continuation row is of the company of the nearest row with an explicit company, which need not be a
record, and header rows of Markdown tables end a table too: the two agree under `CompanyKept`.
-/

namespace JobPing

open Remembered

variable (L : Libraries) (I : Ingestion) (origin : RowOrigin)

/-! ## What the rows show -/

/-- The cells of an HTML header row. -/
def htmlHeader (text : Str) : Option (List Str) :=
  match headerCells L text with
  | .ok header => header
  | .error _ => none

/-- The mapped cells of a row that is no HTML header row. -/
def shownCells (headers : Option (List Str)) (text : Str) : Option MappedRow :=
  match htmlHeader L text, mappedRow L headers text with
  | none, .ok mapped => mapped
  | _, _ => none

/-- The record of a row, with its company cell. -/
def recordOf (headers : Option (List Str)) (text : Str) : Option TableRow :=
  match headerCells L text, parseMarkdownTableRow L origin headers text with
  | .ok none, .ok raw => raw
  | _, _ => none

/-- What a row says of the companies of rows after it. -/
structure RowView where
  /-- It is an HTML header row. -/
  htmlHeader : Bool
  /-- It is a header row: an HTML one, or its cells name columns. -/
  header : Bool
  /-- Its explicit company cell. -/
  company : Option Str
  /-- The explicit company of its record. -/
  accepted : Option Str

/-- A company cell that is explicit. -/
def explicitCompany (company : Str) : Option Str :=
  if company = [] ∨ L.strip company = continuationMarker then none else some (L.strip company)

/-- The view of a row under the headers before it. -/
def rowView (headers : Option (List Str)) (text : Str) : RowView where
  htmlHeader := (htmlHeader L text).isSome
  header := (htmlHeader L text).isSome ||
    (shownCells L headers text).any (·.namesColumns L)
  company := (shownCells L headers text).bind fun mapped =>
    if mapped.namesColumns L then none else explicitCompany L (mapped.company L)
  accepted := (recordOf L origin headers text).bind fun raw => explicitCompany L raw.company

/-- The headers after some rows. -/
def headersAfter (headers : Option (List Str)) (rows : List Str) : Option (List Str) :=
  rows.foldl (fun headers text => (htmlHeader L text).or headers) headers

/-- The views of rows, each under the headers before it. -/
def rowViews (headers : Option (List Str)) : List Str → List RowView
  | [] => []
  | text :: rows =>
    rowView L origin headers text :: rowViews ((htmlHeader L text).or headers) rows

/-- The company of the nearest row with an explicit company cell since the last header row. -/
def nearestCompany (rows : List Str) : Option Str :=
  remembered RowView.header RowView.company (rowViews L origin none rows)

/-- The condition on the rows before a continuation row. After the last record with an explicit
company there is no header row and no row with an explicit company, or the nearest such row since
the last header row is of the same company. -/
def CompanyKept (views : List RowView) : Prop :=
  ∃ older row newer name, views = older ++ row :: newer ∧ row.accepted = some name ∧
    (∀ other ∈ newer, other.htmlHeader = false ∧ other.accepted = none) ∧
      ((∀ other ∈ newer, other.header = false ∧ other.company = none) ∨
        remembered RowView.header RowView.company newer = some name)

variable {L I origin}

/-! ## What the parser remembers -/

theorem headersAfter_concat (headers : Option (List Str)) (rows : List Str) (text : Str) :
    headersAfter L headers (rows ++ [text]) =
      (htmlHeader L text).or (headersAfter L headers rows) := by
  rw [headersAfter, List.foldl_append]
  rfl

theorem rowViews_concat (headers : Option (List Str)) (rows : List Str) (text : Str) :
    rowViews L origin headers (rows ++ [text]) = rowViews L origin headers rows ++
      [rowView L origin (headersAfter L headers rows) text] := by
  induction rows generalizing headers with
  | nil => rfl
  | cons row rows ih =>
    rw [List.cons_append, rowViews, rowViews, ih, List.cons_append]
    rfl

section parser

variable {headers : Option (List Str)} {text : Str} {observedAt : Time} {filename : Str}
  {rows : List ChangedLine} {line : ChangedLine} {reading reading' : Reading} {raw : TableRow}

theorem recordOf_eq_some :
    recordOf L origin headers text = some raw ↔ headerCells L text = .ok none ∧
      parseMarkdownTableRow L origin headers text = .ok (some raw) := by
  unfold recordOf
  cases hheader : headerCells L text with
  | error e => simp
  | ok header =>
    cases header with
    | some cells => simp
    | none => cases hraw : parseMarkdownTableRow L origin headers text <;> simp

/-- A row without a record is not accepted. -/
theorem accepted_eq_none (h : recordOf L origin headers text = none) :
    (rowView L origin headers text).accepted = none := by
  rw [rowView, h]
  rfl

/-- The company that the record of a row states. -/
theorem accepted_record (hheader : headerCells L text = .ok none)
    (hraw : parseMarkdownTableRow L origin headers text = .ok (some raw)) :
    (rowView L origin headers text).accepted =
      if L.strip raw.company = continuationMarker then none else some (L.strip raw.company) := by
  have hcompany : raw.company ≠ [] := by
    obtain ⟨mapped, -, hmapped⟩ := parseMarkdownTableRow_eq.mp hraw
    obtain ⟨-, -, hsame, hne, -⟩ := MappedRow.record_eq hmapped
    rw [hsame]
    exact hne
  rw [rowView, recordOf_eq_some.mpr ⟨hheader, hraw⟩]
  simp only [Option.bind_some, explicitCompany, hcompany, false_or]

/-- A row that raises is no header row, and has no record. -/
theorem TableParser.parse_raised {parser : TableParser} {e : Raised}
    (h : parser.parse L origin text = .error e) :
    htmlHeader L text = none ∧ recordOf L origin parser.headers text = none := by
  unfold htmlHeader recordOf
  cases hheader : headerCells L text with
  | error e => exact ⟨rfl, rfl⟩
  | ok header =>
  cases header with
  | some cells =>
    rw [TableParser.parse, hheader] at h
    cases h
  | none =>
  cases hraw : parseMarkdownTableRow L origin parser.headers text with
  | error e => exact ⟨rfl, rfl⟩
  | ok raw =>
  cases raw with
  | none => exact ⟨rfl, rfl⟩
  | some raw =>
    rw [TableParser.parse_record hheader hraw] at h
    cases h

/-- **One row** for the parser: an HTML header row makes it forget, an explicit company of a record
makes it remember. -/
theorem TableParser.parse_state {parser parser' : TableParser} {row : Option TableRow}
    (h : parser.parse L origin text = .ok (row, parser')) :
    parser'.headers = (htmlHeader L text).or parser.headers ∧
      parser'.lastCompany =
        if (htmlHeader L text).isSome then none
        else (rowView L origin parser.headers text).accepted.or parser.lastCompany := by
  cases hheader : headerCells L text with
  | error e =>
    rw [TableParser.parse, hheader] at h
    cases h
  | ok header =>
  cases header with
  | some cells =>
    rw [TableParser.parse, hheader] at h
    obtain ⟨-, rfl⟩ := Prod.mk.inj (Except.ok.inj h)
    rw [htmlHeader, hheader]
    exact ⟨rfl, rfl⟩
  | none =>
  have hnone : htmlHeader L text = none := by rw [htmlHeader, hheader]
  rw [hnone, Option.isSome_none, if_neg Bool.false_ne_true, Option.none_or]
  cases hraw : parseMarkdownTableRow L origin parser.headers text with
  | error e =>
    rw [TableParser.parse, hheader] at h
    dsimp only [bind, Except.bind] at h
    rw [hraw] at h
    cases h
  | ok raw =>
  cases raw with
  | none =>
    rw [TableParser.parse, hheader] at h
    dsimp only [bind, Except.bind] at h
    rw [hraw] at h
    obtain ⟨-, rfl⟩ := Prod.mk.inj (Except.ok.inj h)
    rw [accepted_eq_none (by rw [recordOf, hheader, hraw])]
    exact ⟨rfl, rfl⟩
  | some raw =>
    rw [TableParser.parse_record hheader hraw] at h
    rw [accepted_record hheader hraw]
    split_ifs at h ⊢
    · obtain ⟨-, rfl⟩ := Prod.mk.inj (Except.ok.inj h)
      exact ⟨rfl, rfl⟩
    · obtain ⟨-, rfl⟩ := Prod.mk.inj (Except.ok.inj h)
      exact ⟨rfl, rfl⟩

/-- A row that raises leaves the parser of a reading as it was. -/
theorem Reading.add_parser (h : reading.add L origin observedAt filename line = .ok reading') :
    (∃ e, reading.parser.parse L origin line.content = .error e ∧
      reading'.parser = reading.parser) ∨
      ∃ row, reading.parser.parse L origin line.content = .ok (row, reading'.parser) := by
  unfold Reading.add at h
  split at h
  · rename_i e hparse
    split_ifs at h
    exact .inl ⟨e, hparse, by rw [← Except.ok.inj h]⟩
  · rename_i parser hparse
    exact .inr ⟨none, by rw [hparse, ← Except.ok.inj h]⟩
  · rename_i row parser hparse
    exact .inr ⟨some row, by rw [hparse, ← Except.ok.inj h]⟩

/-- **One row** of the loop. -/
theorem Reading.add_state (h : reading.add L origin observedAt filename line = .ok reading') :
    reading'.parser.headers = (htmlHeader L line.content).or reading.parser.headers ∧
      reading'.parser.lastCompany =
        if (htmlHeader L line.content).isSome then none
        else (rowView L origin reading.parser.headers line.content).accepted.or
          reading.parser.lastCompany := by
  rcases Reading.add_parser h with ⟨e, hparse, hsame⟩ | ⟨row, hparse⟩
  · obtain ⟨hheader, hrecord⟩ := TableParser.parse_raised hparse
    rw [hsame, hheader, accepted_eq_none hrecord]
    exact ⟨rfl, rfl⟩
  · exact TableParser.parse_state hparse

/-- **The parser after some rows**: the headers of the last HTML header row, and the company of the
last record since. -/
theorem readRows_state (h : readRows L origin observedAt filename rows = .ok reading) :
    reading.parser.headers = headersAfter L none (rows.map (·.content)) ∧
      reading.parser.lastCompany =
        remembered RowView.htmlHeader RowView.accepted
          (rowViews L origin none (rows.map (·.content))) := by
  induction rows using List.reverseRecOn generalizing reading with
  | nil =>
    obtain rfl := Except.ok.inj h
    exact ⟨rfl, rfl⟩
  | append_singleton rows line ih =>
    obtain ⟨before, hbefore, hadd⟩ := readRows_concat.mp h
    obtain ⟨hheaders, hlast⟩ := ih hbefore
    obtain ⟨hheaders', hlast'⟩ := Reading.add_state hadd
    rw [List.map_append, List.map_singleton, headersAfter_concat, rowViews_concat, remembered_concat,
      hheaders', hlast', hlast, hheaders]
    exact ⟨rfl, rfl⟩

end parser

/-! ## The nearest company -/

/-- An accepted company is explicit, and not in a header row. -/
theorem accepted_company {headers : Option (List Str)} {text name : Str}
    (h : (rowView L origin headers text).accepted = some name) :
    (rowView L origin headers text).company = some name ∧
      (rowView L origin headers text).header = false ∧
      (rowView L origin headers text).htmlHeader = false := by
  obtain ⟨raw, hrecord, hexplicit⟩ := Option.bind_eq_some_iff.mp h
  obtain ⟨hheader, hraw⟩ := recordOf_eq_some.mp hrecord
  obtain ⟨mapped, hmapped, hmade⟩ := parseMarkdownTableRow_eq.mp hraw
  obtain ⟨-, -, hcompany, -, hnames, -⟩ := MappedRow.record_eq hmade
  have hnone : htmlHeader L text = none := by rw [htmlHeader, hheader]
  have hshown : shownCells L headers text = some mapped := by rw [shownCells, hnone, hmapped]
  rw [rowView, hshown, hnone, Option.bind_some, if_neg (by rw [hnames]; exact Bool.false_ne_true),
    ← hcompany]
  exact ⟨hexplicit, by rw [Option.any_some, hnames]; rfl, rfl⟩

/-- Every view is that of a row. -/
theorem mem_rowViews {headers : Option (List Str)} {rows : List Str} {view : RowView}
    (h : view ∈ rowViews L origin headers rows) :
    ∃ headers text, view = rowView L origin headers text := by
  induction rows generalizing headers with
  | nil => cases h
  | cons text rows ih =>
    rcases List.mem_cons.mp h with rfl | h
    · exact ⟨headers, text, rfl⟩
    · exact ih h

/-- **The nearest company** is the one the parser remembers under the condition, and only then. -/
theorem nearestCompany_iff {rows : List Str} {name : Str}
    (h : remembered RowView.htmlHeader RowView.accepted (rowViews L origin none rows) = some name) :
    nearestCompany L origin rows = some name ↔ CompanyKept (rowViews L origin none rows) := by
  -- what the nearest company is after a record with an explicit company
  have hnearest {older newer : List RowView} {row : RowView} {accepted : Str}
      (hviews : rowViews L origin none rows = older ++ row :: newer)
      (haccepted : row.accepted = some accepted) :
      nearestCompany L origin rows =
        if newer.any RowView.header then remembered RowView.header RowView.company newer
        else (remembered RowView.header RowView.company newer).or (some accepted) := by
    have hmem : row ∈ rowViews L origin none rows := by rw [hviews]; simp
    obtain ⟨headers, text, rfl⟩ := mem_rowViews hmem
    obtain ⟨hcompany, hheader, -⟩ := accepted_company haccepted
    rw [nearestCompany, hviews, List.append_cons, remembered_append, remembered_concat, hheader,
      hcompany, if_neg Bool.false_ne_true, Option.some_or]
  constructor
  · intro hname
    obtain ⟨older, row, newer, hviews, haccepted, -, hnewer⟩ := remembered_eq_some.mp h
    refine ⟨older, row, newer, name, hviews, haccepted, hnewer, ?_⟩
    rw [hnearest hviews haccepted] at hname
    split_ifs at hname with hany
    · exact .inr hname
    · have hheader : ∀ other ∈ newer, other.header = false := by simpa using hany
      cases hrecall : remembered RowView.header RowView.company newer with
      | none =>
        have hcompany := (remembered_eq_none hheader).mp hrecall
        exact .inl fun other ho => ⟨hheader other ho, hcompany other ho⟩
      | some other =>
        rw [hrecall, Option.some_or] at hname
        exact .inr hname
  · rintro ⟨older, row, newer, accepted, hviews, haccepted, hnewer, hbetween⟩
    have hsame : remembered RowView.htmlHeader RowView.accepted (rowViews L origin none rows) =
        some accepted := by
      have hmem : row ∈ rowViews L origin none rows := by rw [hviews]; simp
      obtain ⟨headers, text, rfl⟩ := mem_rowViews hmem
      exact remembered_eq_some.mpr
        ⟨older, _, newer, hviews, haccepted, (accepted_company haccepted).2.2, hnewer⟩
    obtain rfl := Option.some.inj (h.symm.trans hsame)
    rw [hnearest hviews haccepted]
    rcases hbetween with hnothing | hrecall
    · have hheader : ∀ other ∈ newer, other.header = false := fun other ho => (hnothing other ho).1
      rw [if_neg (by simpa using hheader),
        (remembered_eq_none hheader).mpr fun other ho => (hnothing other ho).2, Option.none_or]
    · rw [hrecall, Option.some_or, ite_self]

/-! ## Continuation rows -/

variable (L) in
/-- The company cell of a row is the marker. -/
def isContinuation (headers : Option (List Str)) (text : Str) : Bool :=
  match mappedRow L headers text with
  | .ok (some mapped) => L.strip (mapped.company L) = continuationMarker
  | _ => false

/-- The job of a continuation row is of the company that the parser remembers. -/
theorem continuation_company {input : SyncInput} {filename : Str} {before : List ChangedLine}
    {line : ChangedLine} {item : PipelineItem}
    (hjob : jobAt L I origin input filename before line = some item)
    (hcontinues : isContinuation L (headersAfter L none (before.map (·.content))) line.content) :
    ∃ name, item.job.companyName = some name ∧
      remembered RowView.htmlHeader RowView.accepted
        (rowViews L origin none (before.map (·.content))) = some name := by
  obtain ⟨reading, row, parser, hread, hparse, hsource, hitem⟩ := jobAt_eq_some hjob
  obtain ⟨hheaders, hlast⟩ := readRows_state hread
  obtain ⟨-, raw, hraw, -, hcompany⟩ := TableParser.parse_eq_some hparse
  rw [hheaders] at hraw
  obtain ⟨mapped, hmapped, hmade⟩ := parseMarkdownTableRow_eq.mp hraw
  have hmarker : L.strip raw.company = continuationMarker := by
    rw [isContinuation, hmapped] at hcontinues
    rw [(MappedRow.record_eq hmade).2.2.1]
    exact of_decide_eq_true hcontinues
  rw [if_pos hmarker] at hcompany
  refine ⟨row.company, ?_, hlast.symm.trans hcompany.1⟩
  rw [SimplifyCandidate.job_company hitem, hsource]

variable (L I) in
/-- An item of a file is the job of a continuation row that comes after some rows. -/
def ContinuesAfter (input : SyncInput) (path text : Str) (item : PipelineItem)
    (before : List ChangedLine) : Prop :=
  ∃ line after, textRows L text = before ++ line :: after ∧
    jobAt L I (simplifyOrigin input.sha path) input path before line = some item ∧
    isContinuation L (headersAfter L none (before.map (·.content))) line.content

/-- **Continuation rows.** The items of the continuation rows of a file are of the nearest explicit
company since the last header row exactly when, before each of them, no header row and no rejected
row has come between it and the last record that could change that company. -/
theorem continuation_companies_iff (L : Libraries) (I : Ingestion) (input : SyncInput)
    (path text : Str) :
    (∀ result, processFullSync L I input path text = .ok result →
      ∀ item ∈ result.1.items, ∀ before, ContinuesAfter L I input path text item before →
        item.job.companyName =
          nearestCompany L (simplifyOrigin input.sha path) (before.map (·.content))) ↔
      ∀ result, processFullSync L I input path text = .ok result →
        ∀ item ∈ result.1.items, ∀ before, ContinuesAfter L I input path text item before →
          CompanyKept (rowViews L (simplifyOrigin input.sha path) none
            (before.map (·.content))) := by
  refine forall₂_congr fun result hresult => forall₂_congr fun item hitem =>
    forall₂_congr fun before hcontinues => ?_
  obtain ⟨line, after, -, hjob, hcontinues⟩ := hcontinues
  obtain ⟨name, hname, hrecall⟩ := continuation_company hjob hcontinues
  rw [hname, eq_comm]
  exact nearestCompany_iff hrecall

/-- The items of continuation rows are among those of the result. -/
theorem ContinuesAfter.mem {input : SyncInput} {path text : Str} {item : PipelineItem}
    {before : List ChangedLine} {result : PipelineResult × Cache}
    (h : ContinuesAfter L I input path text item before)
    (hresult : processFullSync L I input path text = .ok result) : item ∈ result.1.items := by
  obtain ⟨line, after, hrows, hjob, -⟩ := h
  exact (full_sync_items hresult).mpr ⟨before, line, after, hrows, hjob⟩

/-- A file where the row of the second company has no link. -/
def staleReadme : Str :=
  ("| Acme | Intern | Remote | [Apply](https://acme.test/1) | 1d |\n" ++
    "| Beta | Intern | Remote | 🔒 | 1d |\n" ++
    "| ↳ | Data Intern | Boston | [Apply](https://beta.test/2) | 1d |").toList

/-- The item of the continuation row of the sample file is of the first company, though the nearest
row is of the second. -/
theorem stale_company : ∃ result item before,
    processFullSync .ascii .ascii sampleSync "README.md".toList staleReadme = .ok result ∧
      item ∈ result.1.items ∧
      ContinuesAfter .ascii .ascii sampleSync "README.md".toList staleReadme item before ∧
      item.job.companyName = some "Acme".toList ∧
      nearestCompany .ascii (simplifyOrigin sampleSync.sha "README.md".toList)
        (before.map (·.content)) = some "Beta".toList := by
  have hok : (processFullSync .ascii .ascii sampleSync "README.md".toList staleReadme).isOk := by
    decide +kernel
  have hname : (jobAt .ascii .ascii (simplifyOrigin sampleSync.sha "README.md".toList) sampleSync
      "README.md".toList ((textRows .ascii staleReadme).take 2)
        ((textRows .ascii staleReadme).getD 2 ⟨.added, []⟩)).map (·.job.companyName) =
      some (some "Acme".toList) := by decide +kernel
  obtain ⟨result, hresult⟩ := Raising.isOk_iff.mp hok
  obtain ⟨item, hjob, hcompany⟩ := Option.map_eq_some_iff.mp hname
  have hcontinues : ContinuesAfter .ascii .ascii sampleSync "README.md".toList staleReadme item
      ((textRows .ascii staleReadme).take 2) :=
    ⟨_, [], by decide +kernel, hjob, by decide +kernel⟩
  exact ⟨result, item, _, hresult, hcontinues.mem hresult, hcontinues, hcompany, by decide +kernel⟩

end JobPing
