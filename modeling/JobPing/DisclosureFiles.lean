import JobPing.CompanyMatching
import JobPing.DetailExtraction
import JobPing.DistinctCounts
import JobPing.EmployerHistory

/-!
# Disclosure files

`parse_official_csv` and `prepare_dol_directory` of `app/services/employer_history.py`: the official
rows of one file or of the files of a directory, counted by employer and mapped to companies. A file
is what `csv.DictReader`, `zipfile` and `iterparse` make of it. Two columns of a workbook may have
one header.
-/

namespace JobPing

/-! ## Outside the repository -/

/-- A URL that pydantic accepts. -/
structure HttpUrl where
  text : Str
  scheme : Str
  host : Str
  deriving DecidableEq

/-- What the imports call outside the repository. -/
structure DisclosureLibraries extends Python where
  upper : Str → Str
  digit : Char → Option ℕ
  isWord : Char → Bool
  /-- `str.isdigit` of one character. -/
  isDigit : Char → Bool
  /-- `int(text)`. -/
  int : Str → Except Raised ℤ
  /-- `HttpUrl(text)`. -/
  httpUrl : Str → Option HttpUrl

variable (L : DisclosureLibraries)

/-- The tables that patterns read. -/
def DisclosureLibraries.tables : CharTables :=
  { toUnicode := L.toUnicode, digit := L.digit, isWord := L.isWord }

/-! ## Files -/

/-- A cell of a worksheet: its attributes, the text of its only child where that is a `v`, and the
text in it. -/
structure SheetCell where
  r : Option Str
  t : Option Str
  onlyV : Option (Option Str)
  itertext : Str

/-- A shared string: the text of its only child where that is a `t`, and the text in it. -/
structure SharedString where
  onlyT : Option (Option Str)
  itertext : Str

/-- The members of an archive, its shared strings, and the rows of a member. -/
structure Workbook where
  names : List Str
  sharedStrings : Except Raised (List SharedString)
  rows : Str → Except Raised (List (List SheetCell))

/-- A file: `csv.DictReader` gives its rows as a table, and `zipfile` its content as an archive. -/
structure DisclosureFile where
  name : Str
  isFile : Bool
  size : ℕ
  table : Except Raised (List (List (Option Str × Option Str)))
  workbook : Except Raised Workbook

/-- A directory, in the order in which its entries are listed. -/
structure DisclosureDirectory where
  isDir : Bool
  files : List DisclosureFile
  names_nodup : (files.map (·.name)).Nodup

namespace DisclosureFile

variable (file : DisclosureFile)

/-- The last point of the name is inside of it. -/
def hasSuffix : Bool :=
  let (before, found, after) := rpartition '.' file.name
  found && before ≠ [] && after ≠ []

/-- `path.stem`. -/
def stem : Str := if file.hasSuffix then (rpartition '.' file.name).1 else file.name

/-- `path.suffix`. -/
def suffix : Str := if file.hasSuffix then '.' :: (rpartition '.' file.name).2.2 else []

end DisclosureFile

/-- The group of a fiscal year. -/
inductive FiscalGroup
  | year
  deriving DecidableEq

/-- `_FY_RE`. -/
def fiscalYearPattern : Regex Char FiscalGroup :=
  let one (c : Char) : Regex Char FiscalGroup := .set fun x => fold x = c
  let digit : Regex Char FiscalGroup := .set fun c => (L.digit c).isSome
  .seq (.alt (.notBehind [fun _ => true]) (.set fun c => !(fold c).isAlphanum)) <|
    .seq (one 'f') <| .seq (one 'y') <| .seq (.many 0 none (.set L.isSpace)) <|
    .seq (.group .year (.many 2 (some 4) digit)) (.ahead false digit)

/-- `infer_fiscal_year`. -/
def inferFiscalYear (file : DisclosureFile) : Option ℕ := do
  let found ← (fiscalYearPattern L).first file.stem
  let digits ← found.group .year
  let raw ← digitsValue L.tables digits
  let year := if raw < 100 then 2000 + raw else raw
  if 2000 ≤ year ∧ year ≤ 2100 then some year else none

/-! ## Rows -/

/-- `str(key).strip().upper().replace(" ", "_")`. -/
def headerName (key : Str) : Str :=
  (L.upper (L.strip key)).map fun c => if c = ' ' then '_' else c

/-- `_cell_text`. -/
def cellText (cell : SheetCell) (sharedStrings : List Str) : Except Raised Str :=
  let rawVal := L.strip (match cell.onlyV with
    | some text => text.getD []
    | none => cell.itertext)
  if cell.t = some "s".toList ∧ rawVal ≠ [] ∧ rawVal.all L.isDigit then
    (L.int rawVal).map fun idx => (sharedStrings[idx.toNat]?).getD rawVal
  else .ok rawVal

/-- The column of a cell. -/
def SheetCell.col (cell : SheetCell) : Str :=
  ((cell.r.getD []).reverse.dropWhile "0123456789".toList.contains).reverse

/-- `col_to_header`. -/
def headerColumns (targetHeaders sharedStrings : List Str) (row : List SheetCell) :
    Except Raised (List (Str × Str)) :=
  row.foldlM (fun columns cell =>
    if cell.col = [] then .ok columns
    else (cellText L cell sharedStrings).map fun val =>
      let header := headerName L val
      if header ∈ targetHeaders then Dict.set cell.col header columns else columns) []

/-- `row_values`; a row that is full is left. -/
def rowValues (colToHeader : List (Str × Str)) (sharedStrings : List Str)
    (row : List SheetCell) : Except Raised (List (Str × Str)) :=
  row.foldlM (fun values cell =>
    if values.length = colToHeader.length then .ok values
    else
      match Dict.get? cell.col colToHeader with
      | none => .ok values
      | some header => (cellText L cell sharedStrings).map fun text =>
        Dict.set header text values) []

/-- `_iter_xlsx_rows`. -/
def iterXlsxRows (workbook : Workbook) (targetHeaders : List Str) :
    Except Raised (List (List (Str × Str))) := do
  let sheets := (workbook.names.filter fun name =>
    "xl/worksheets/sheet".toList.isPrefixOf name &&
      ".xml".toList.isSuffixOf name).insertionSort (· ≤ ·)
  match sheets with
  | [] => .error .valueError
  | sheet :: _ =>
    let shared ←
      if "xl/sharedStrings.xml".toList ∈ workbook.names then workbook.sharedStrings else .ok []
    let sharedStrings := shared.map fun si =>
      match si.onlyT with
      | some text => text.getD []
      | none => si.itertext
    match ← workbook.rows sheet with
    | [] => .ok []
    | header :: rows =>
      let colToHeader ← headerColumns L targetHeaders sharedStrings header
      if colToHeader = [] then .error .valueError
      else (rows.mapM (rowValues L colToHeader sharedStrings)).map (·.filter (· ≠ []))

/-- The providers of official records. -/
inductive DisclosureProvider
  | dol
  | uscis
  deriving DecidableEq

/-- `target_headers`. -/
def DisclosureProvider.targetHeaders : DisclosureProvider → List Str
  | dol => ["CASE_NUMBER", "CASE_STATUS", "VISA_CLASS", "EMPLOYER_NAME"].map String.toList
  | uscis =>
    ["FISCAL_YEAR", "EMPLOYER_NAME", "INITIAL_APPROVAL", "CONTINUING_APPROVAL"].map String.toList

/-- `_iter_official_rows`. -/
def iterOfficialRows (file : DisclosureFile) (provider : DisclosureProvider) :
    Except Raised (List (List (Str × Str))) :=
  if L.casefold file.suffix = ".xlsx".toList then
    file.workbook.bind fun workbook => iterXlsxRows L workbook provider.targetHeaders
  else
    file.table.map fun rows => rows.map fun row => Dict.ofList <| row.filterMap fun item =>
      item.1.map fun key => (headerName L key, item.2.getD [])

/-- `values.get(header) or ""`, stripped. -/
def officialField (values : List (Str × Str)) (header : String) : Str :=
  L.strip ((Dict.get? header.toList values).getD [])

/-- The case and the employer of a certified H-1B row that has both. -/
def certifiedCase (values : List (Str × Str)) : Option (Str × Str) :=
  let visaClass := L.upper (officialField L values "VISA_CLASS")
  let caseStatus := L.casefold (officialField L values "CASE_STATUS")
  if visaClass ≠ "H-1B".toList ∨ caseStatus ≠ "certified".toList then none
  else
    let name := officialField L values "EMPLOYER_NAME"
    let case := officialField L values "CASE_NUMBER"
    if name = [] ∨ case = [] then none else some (case, name)

/-- `int(text.replace(",", ""))` of a number of approvals. -/
def approvals (values : List (Str × Str)) (header : String) : Except Raised ℤ :=
  let text := (Dict.get? header.toList values).getD []
  L.int ((if text = [] then ['0'] else text).filter (· ≠ ','))

/-! ## Counting -/

/-- What the loops carry: the cases that were seen, and the counts. -/
abbrev CaseCounts := List Str × List (Str × ℕ)

/-- A row of the loop of `parse_official_csv`. -/
def countRow (provider : DisclosureProvider) (year : ℕ) (counted : CaseCounts)
    (values : List (Str × Str)) : Except Raised CaseCounts :=
  match provider with
  | .dol =>
    match certifiedCase L values with
    | none => .ok counted
    | some (case, name) =>
      .ok (if case ∈ counted.1 then counted
        else (case :: counted.1,
          Dict.set name ((Dict.get? name counted.2).getD 0 + 1) counted.2))
  | .uscis => do
    let fiscalYear ←
      match Dict.get? "FISCAL_YEAR".toList values with
      | none => .ok (year : ℤ)
      | some text => L.int text
    let name := officialField L values "EMPLOYER_NAME"
    if fiscalYear ≠ year ∨ name = [] then .ok counted
    else do
      let initial ← approvals L values "INITIAL_APPROVAL"
      let continuing ← approvals L values "CONTINUING_APPROVAL"
      let count := (initial + continuing).toNat
      return if count = 0 then counted
        else (counted.1, Dict.set name ((Dict.get? name counted.2).getD 0 + count) counted.2)

/-- The state of the loop of `prepare_dol_directory`. -/
structure DirectoryCounts where
  seenCasesByYear : ℕ → List Str
  countsByYear : List ((ℕ × Str) × ℕ)
  allEmployerNames : List Str

/-- A row of a file. -/
def DirectoryCounts.add (year : ℕ) (counted : DirectoryCounts) (values : List (Str × Str)) :
    DirectoryCounts :=
  match certifiedCase L values with
  | none => counted
  | some (case, name) =>
    if case ∈ counted.seenCasesByYear year then counted
    else
      { seenCasesByYear := Function.update counted.seenCasesByYear year
          (case :: counted.seenCasesByYear year)
        countsByYear := Dict.set (year, name)
          ((Dict.get? (year, name) counted.countsByYear).getD 0 + 1) counted.countsByYear
        allEmployerNames := counted.allEmployerNames.insert name }

/-- A file of the directory. -/
def DirectoryCounts.read (counted : DirectoryCounts) (file : DisclosureFile) :
    Except Raised DirectoryCounts :=
  match inferFiscalYear L file with
  | none => .ok counted
  | some year =>
    if 500000000 < file.size then .error .valueError
    else (iterOfficialRows L file .dol).map fun rows =>
      rows.foldl (DirectoryCounts.add L year) counted

/-! ## Records -/

/-- The host of the official source of a kind. -/
def HistoryKind.host : HistoryKind → Str
  | .h1bFilings => "dol.gov".toList
  | .h1bApprovals => "uscis.gov".toList
  | .cptHistory | .optHistory | .stemOptHistory => "ice.gov".toList
  | .eVerify => "e-verify.gov".toList

/-- `official_source`. -/
def officialSource (kind : HistoryKind) (url : HttpUrl) : Bool :=
  url.scheme = "https".toList && (url.host = kind.host || ('.' :: kind.host).isSuffixOf url.host)

/-- What the records of a call have in common. -/
structure RecordOrigin where
  kind : HistoryKind
  sourceUrl : Str
  now : Time

/-- `EmployerRecord(...)`. -/
def RecordOrigin.record (origin : RecordOrigin) (year : ℕ) (name : Str) (count : ℕ) :
    Except Raised HistoryRecord :=
  match L.httpUrl origin.sourceUrl with
  | none => .error .validationError
  | some url =>
    if h : (2000 ≤ year ∧ year ≤ 2100) ∧ (1 ≤ count ∧ count ≤ 100000000) ∧
        (1 ≤ name.length ∧ name.length ≤ 255) then
      if officialSource origin.kind url then
        .ok ⟨origin.kind, year, count, name, url.text, origin.now, h.1, h.2.1, h.2.2⟩
      else .error .validationError
    else .error .validationError

/-- `MappedEmployerRecord(...)`. -/
def RecordOrigin.mapped (origin : RecordOrigin) (company : Str) (year : ℕ) (name : Str)
    (count : ℕ) : Except Raised MappedEmployerRecord :=
  (origin.record L year name count).bind fun record =>
    if h : 1 ≤ company.length ∧ company.length ≤ 255 then .ok ⟨company, record, h⟩
    else .error .validationError

/-- `EmployerImport(...)`. -/
def employerImport (records : List MappedEmployerRecord) : Except Raised EmployerImport :=
  if h : 1 ≤ records.length ∧ records.length ≤ 100000 then .ok ⟨records, h⟩
  else .error .validationError

/-- `resolved_aliases`. -/
def resolvedAliases (names : List Str) (aliases : Option (List (Str × Str)))
    (companies : Option (List Str)) : List (Str × Str) :=
  match companies with
  | some companies => matchCompanyAliases L.toPython names companies aliases
  | none => aliases.getD []

/-- **`parse_official_csv`**. -/
def parseOfficialCsv (file : DisclosureFile) (provider : DisclosureProvider) (year : ℕ)
    (sourceUrl : Str) (aliases : Option (List (Str × Str))) (companies : Option (List Str))
    (now : Time) : Except Raised EmployerImport :=
  if 500000000 < file.size then .error .valueError
  else do
    let rows ← iterOfficialRows L file provider
    let counted ← rows.foldlM (countRow L provider year) ([], [])
    let resolved := resolvedAliases L (Dict.keys counted.2) aliases companies
    let origin : RecordOrigin :=
      ⟨if provider = .dol then .h1bFilings else .h1bApprovals, sourceUrl, now⟩
    let records ← ((counted.2.insertionSort (·.1 ≤ ·.1)).filterMap fun entry =>
      (Dict.get? entry.1 resolved).map (·, entry)).mapM fun item =>
        origin.mapped L item.1 year item.2.1 item.2.2
    employerImport records

/-- `files`. -/
def disclosureFiles (directory : DisclosureDirectory) : List DisclosureFile :=
  (directory.files.filter fun file =>
    file.isFile && L.casefold file.suffix ∈ [".csv".toList, ".xlsx".toList]).insertionSort
      (·.name ≤ ·.name)

/-- **`prepare_dol_directory`**; the order in which a set is iterated over does not matter to
`match_company_aliases`. -/
def prepareDolDirectory (directory : DisclosureDirectory) (aliases : Option (List (Str × Str)))
    (companies : Option (List Str)) (sourceUrl : Str) (now : Time) :
    Except Raised EmployerImport :=
  if !directory.isDir || (disclosureFiles L directory).isEmpty then .error .valueError
  else do
    let counted ← (disclosureFiles L directory).foldlM (DirectoryCounts.read L)
      ⟨fun _ => [], [], []⟩
    let resolved := resolvedAliases L counted.allEmployerNames aliases companies
    let origin : RecordOrigin := ⟨.h1bFilings, sourceUrl, now⟩
    let records ← ((counted.countsByYear.insertionSort fun a b =>
      toLex a.1 ≤ toLex b.1).filterMap fun entry =>
        (Dict.get? entry.1.2 resolved).map (·, entry)).mapM fun item =>
          origin.mapped L item.1 item.2.1.1 item.2.1.2 item.2.2
    employerImport records

end JobPing
