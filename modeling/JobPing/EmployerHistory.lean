import JobPing.LatestWins
import JobPing.Schema
import Mathlib.Data.Char
import Mathlib.Data.List.Lex
import Mathlib.Data.Prod.Lex

/-!
# Imports of employer history

`import_employer_history` of `app/services/employer_history.py`, on the `immigration_records` of the
companies. A company has a register for each kind, year and employer, so imports converge to the
latest records of all (`import_converges`). What is stored as JSON is read back as it was.
-/

namespace JobPing

/-- The kinds of `EmployerRecord`. -/
inductive HistoryKind
  | h1bFilings
  | h1bApprovals
  | cptHistory
  | optHistory
  | stemOptHistory
  | eVerify
  deriving DecidableEq

def HistoryKind.value : HistoryKind → String
  | h1bFilings => "h1b_filings"
  | h1bApprovals => "h1b_approvals"
  | cptHistory => "cpt_history"
  | optHistory => "opt_history"
  | stemOptHistory => "stem_opt_history"
  | eVerify => "e_verify"

/-- `EmployerRecord`; `official_source` checks the host of its URL. -/
structure HistoryRecord where
  kind : HistoryKind
  year : ℕ
  count : ℕ
  employerName : Str
  sourceUrl : Str
  observedAt : Time
  year_bounds : 2000 ≤ year ∧ year ≤ 2100
  count_bounds : 1 ≤ count ∧ count ≤ 100000000
  name_bounds : 1 ≤ employerName.length ∧ employerName.length ≤ 255
  deriving DecidableEq

/-- `(record.kind, record.year, record.employer_name)`. -/
def HistoryRecord.key (record : HistoryRecord) : Str ×ₗ ℕ ×ₗ Str :=
  toLex (record.kind.value.toList, toLex (record.year, record.employerName))

/-- `MappedEmployerRecord`. -/
structure MappedEmployerRecord where
  company : Str
  record : HistoryRecord
  company_bounds : 1 ≤ company.length ∧ company.length ≤ 255

/-- `EmployerImport`. -/
structure EmployerImport where
  records : List MappedEmployerRecord
  bounds : 1 ≤ records.length ∧ records.length ≤ 100000

/-- The `immigration_records` of the companies, by their unique names. -/
abbrev CompanyRecords := Str → Option (List HistoryRecord)

/-! ## The import -/

/-- The body of the loop, on the records of the company. -/
def mergeRecord (records : List HistoryRecord) (record : HistoryRecord) : List HistoryRecord :=
  let existing := records.find? (·.key = record.key)
  if existing.any (record.observedAt < ·.observedAt) then records
  else (records.filter (·.key ≠ record.key) ++ [record]).insertionSort (·.key ≤ ·.key)

/-- The loop, over companies that are all there. -/
def mergeRecords (companies : CompanyRecords) (items : List MappedEmployerRecord) :
    CompanyRecords :=
  items.foldl (fun companies item =>
    Function.update companies item.company
      (some (mergeRecord ((companies item.company).getD []) item.record))) companies

/-- **`import_employer_history`**: the companies, and the number of records. -/
def importEmployerHistory (data : EmployerImport) (companies : CompanyRecords) :
    Except Str (CompanyRecords × ℕ) :=
  if data.records.any fun item => (companies item.company).isNone then
    .error "History mapping contains companies absent from JobPing".toList
  else .ok (mergeRecords companies data.records, data.records.length)

/-- The companies after a call; one that raises changes nothing. -/
def importCall (companies : CompanyRecords) (data : EmployerImport) : CompanyRecords :=
  match importEmployerHistory data companies with
  | .ok result => result.1
  | .error _ => companies

/-- The companies after some calls. -/
def importCalls (companies : CompanyRecords) (imports : List EmployerImport) : CompanyRecords :=
  imports.foldl importCall companies

/-- Companies without records. -/
def noHistory (names : List Str) : CompanyRecords := fun name =>
  if name ∈ names then some [] else none

/-- What the imports hold for a company, in their order. -/
def imported (imports : List EmployerImport) (name : Str) : List HistoryRecord :=
  ((imports.flatMap (·.records)).filter (·.company = name)).map (·.record)

/-- All companies of an import are known. -/
def EmployerImport.Known (data : EmployerImport) (names : List Str) : Prop :=
  ∀ item ∈ data.records, item.company ∈ names

/-! ## Registers -/

variable {companies : CompanyRecords} {names : List Str} {imports : List EmployerImport}
  {data : EmployerImport} {items : List MappedEmployerRecord} {name : Str}
  {records : List HistoryRecord}

/-- A company is merged with its own records. -/
theorem mergeRecords_some (h : companies name = some records) (items : List MappedEmployerRecord) :
    mergeRecords companies items name =
      some (((items.filter (·.company = name)).map (·.record)).foldl mergeRecord records) := by
  induction items generalizing companies records with
  | nil => exact h
  | cons item items ih =>
    rw [mergeRecords, List.foldl_cons, List.filter_cons]
    by_cases hname : item.company = name
    · subst hname
      rw [if_pos (decide_eq_true rfl), List.map_cons, List.foldl_cons]
      refine ih ?_
      rw [Function.update_self, h]
      rfl
    · rw [if_neg (by simpa using hname)]
      refine ih ?_
      rw [Function.update_of_ne (Ne.symm hname), h]

/-- Others are left as they are. -/
theorem mergeRecords_other (h : ∀ item ∈ items, item.company ≠ name) :
    mergeRecords companies items name = companies name := by
  induction items generalizing companies with
  | nil => rfl
  | cons item items ih =>
    rw [mergeRecords, List.foldl_cons]
    refine (ih fun other hother => h other (List.mem_cons_of_mem item hother)).trans ?_
    exact Function.update_of_ne (h item List.mem_cons_self).symm _ _

/-- The companies that a state knows. -/
def CompanyRecords.Knows (companies : CompanyRecords) (names : List Str) : Prop :=
  ∀ name, (companies name).isSome ↔ name ∈ names

theorem noHistory_knows (names : List Str) : (noHistory names).Knows names := by
  intro name
  unfold noHistory
  split_ifs with h <;> simp [h]

/-- An import of known companies is merged. -/
theorem import_known (hknows : companies.Knows names) (h : data.Known names) :
    importEmployerHistory data companies =
      .ok (mergeRecords companies data.records, data.records.length) := by
  refine if_neg fun habsent => ?_
  obtain ⟨item, hitem, hnone⟩ := List.any_eq_true.mp habsent
  have hsome := (hknows item.company).mpr (h item hitem)
  rw [Option.isNone_iff_eq_none.mp hnone] at hsome
  cases hsome

/-- An import of a company that is not known raises. -/
theorem import_unknown (hknows : companies.Knows names) (h : ¬data.Known names) :
    importEmployerHistory data companies =
      .error "History mapping contains companies absent from JobPing".toList := by
  refine if_pos (List.any_eq_true.mpr ?_)
  simp only [EmployerImport.Known, not_forall] at h
  obtain ⟨item, hitem, hname⟩ := h
  refine ⟨item, hitem, Option.isNone_iff_eq_none.mpr ?_⟩
  exact Option.not_isSome_iff_eq_none.mp fun hsome => hname ((hknows item.company).mp hsome)

theorem importCall_known (hknows : companies.Knows names) (h : data.Known names) :
    importCall companies data = mergeRecords companies data.records := by
  rw [importCall, import_known hknows h]

theorem Knows.mergeRecords (hknows : companies.Knows names)
    (h : ∀ item ∈ items, item.company ∈ names) :
    (JobPing.mergeRecords companies items).Knows names := by
  intro name
  cases hname : companies name with
  | some records =>
    rw [mergeRecords_some hname, ← hknows name, hname]
    rfl
  | none =>
    have hunknown : name ∉ names := by
      rw [← hknows name, hname]
      exact Bool.false_ne_true
    have hothers : ∀ item ∈ items, item.company ≠ name := by
      rintro item hitem rfl
      exact hunknown (h item hitem)
    rw [mergeRecords_other hothers, hname]
    exact ⟨fun hsome => (by cases hsome), fun hmem => absurd hmem hunknown⟩

/-- **A run of imports**: each company has merged all that was imported for it. -/
theorem importCalls_spec (hknown : ∀ data ∈ imports, data.Known names) :
    (importCalls (noHistory names) imports).Knows names ∧
      ∀ name ∈ names, importCalls (noHistory names) imports name =
        some ((imported imports name).foldl mergeRecord []) := by
  induction imports using List.reverseRecOn with
  | nil => exact ⟨noHistory_knows names, fun name hname => if_pos hname⟩
  | append_singleton imports data ih =>
    obtain ⟨hknows, hmerged⟩ := ih fun data hdata => hknown data (by simp [hdata])
    have hdata : data.Known names := hknown data (by simp)
    have hcall : importCalls (noHistory names) (imports ++ [data]) =
        mergeRecords (importCalls (noHistory names) imports) data.records := by
      rw [importCalls, List.foldl_concat]
      exact importCall_known hknows hdata
    rw [hcall]
    refine ⟨Knows.mergeRecords hknows hdata, fun name hname => ?_⟩
    have himported : imported (imports ++ [data]) name = imported imports name ++
        (data.records.filter (·.company = name)).map (·.record) := by
      simp [imported, List.flatMap_append]
    rw [mergeRecords_some (hmerged name hname), himported, List.foldl_append]

theorem sorted_nil : LatestWins.Sorted HistoryRecord.key [] := List.Pairwise.nil

/-- What a company holds is sorted. -/
theorem sorted_merged (written : List HistoryRecord) :
    LatestWins.Sorted HistoryRecord.key (written.foldl mergeRecord []) :=
  sorted_nil.foldl_insert written

/-- **The record of a key** is the latest of those imported for it. -/
theorem merged_key {written : List HistoryRecord} {record : HistoryRecord}
    (hrecord : record ∈ written) :
    ∃ r, (written.foldl mergeRecord []).filter (·.key = record.key) = [r] ∧
      LatestWins.IsLatest HistoryRecord.observedAt (written.filter (·.key = record.key)) r := by
  have hne : written.filter (·.key = record.key) ≠ [] :=
    List.ne_nil_of_mem (List.mem_filter.mpr ⟨hrecord, by simp⟩)
  obtain ⟨r, hr⟩ : ∃ r, LatestWins.IsLatest HistoryRecord.observedAt
      (written.filter (·.key = record.key)) r := LatestWins.exists_isLatest hne
  exact ⟨r, (sorted_merged written).filter_eq
    ((sorted_nil.find_foldl written record.key).trans hr.foldl_write), hr⟩

/-- What a company holds was imported for it. -/
theorem mem_of_merged {written : List HistoryRecord} {record : HistoryRecord}
    (h : record ∈ written.foldl mergeRecord []) : record ∈ written := by
  have hfind : (written.filter (·.key = record.key)).foldl
      (LatestWins.write HistoryRecord.observedAt) none = some record :=
    (sorted_nil.find_foldl written record.key).symm.trans
      ((sorted_merged written).find_eq_some.mpr ⟨h, rfl⟩)
  exact List.mem_of_mem_filter (LatestWins.foldl_write_iff.mp hfind).mem

/-- A second merge of the same records changes nothing. -/
theorem mergeRecords_twice (hsorted : ∀ name records, companies name = some records →
    LatestWins.Sorted HistoryRecord.key records) (hknows : companies.Knows names)
    (h : ∀ item ∈ items, item.company ∈ names) :
    mergeRecords (mergeRecords companies items) items = mergeRecords companies items := by
  funext name
  cases hname : companies name with
  | some records =>
    rw [mergeRecords_some (mergeRecords_some hname items), mergeRecords_some hname items]
    exact congrArg some ((hsorted name records hname).foldl_insert_twice _)
  | none =>
    have hothers : ∀ item ∈ items, item.company ≠ name := by
      rintro item hitem rfl
      have hsome := (hknows item.company).mpr (h item hitem)
      rw [hname] at hsome
      cases hsome
    rw [mergeRecords_other hothers]

/-- **Imports converge**: a company holds, for each key that was imported for it, the latest record
alone, in the order of the keys; a second import of the same records changes nothing, and one of an
unknown company raises and changes nothing. -/
theorem import_converges {names : List Str} {imports : List EmployerImport}
    (hknown : ∀ data ∈ imports, data.Known names) :
    (∀ name ∈ names, ∃ records, importCalls (noHistory names) imports name = some records ∧
      records.Pairwise (·.key < ·.key) ∧ (∀ record ∈ records, record ∈ imported imports name) ∧
      ∀ record ∈ imported imports name, ∃ r, records.filter (·.key = record.key) = [r] ∧
        LatestWins.IsLatest HistoryRecord.observedAt
          ((imported imports name).filter (·.key = record.key)) r) ∧
      (∀ data, data.Known names →
        importCalls (noHistory names) (imports ++ [data, data]) =
          importCalls (noHistory names) (imports ++ [data])) ∧
      ∀ data, ¬data.Known names →
        importEmployerHistory data (importCalls (noHistory names) imports) =
            .error "History mapping contains companies absent from JobPing".toList ∧
          importCalls (noHistory names) (imports ++ [data]) =
            importCalls (noHistory names) imports := by
  obtain ⟨hknows, hmerged⟩ := importCalls_spec hknown
  have hsorted : ∀ name records, importCalls (noHistory names) imports name = some records →
      LatestWins.Sorted HistoryRecord.key records := by
    intro name records hrecords
    have hname : name ∈ names := by
      rw [← hknows name, hrecords]
      rfl
    rw [hmerged name hname] at hrecords
    cases hrecords
    exact sorted_merged _
  refine ⟨fun name hname => ?_, fun data hdata => ?_, fun data hdata => ⟨?_, ?_⟩⟩
  · exact ⟨_, hmerged name hname, sorted_merged _, fun record => mem_of_merged,
      fun record => merged_key⟩
  · have hafter := Knows.mergeRecords hknows hdata
    rw [importCalls, importCalls, List.foldl_append, List.foldl_append]
    change importCall (importCall (importCalls (noHistory names) imports) data) data =
      importCall (importCalls (noHistory names) imports) data
    rw [importCall_known hknows hdata, importCall_known hafter hdata]
    exact mergeRecords_twice hsorted hknows hdata
  · exact import_unknown hknows hdata
  · rw [importCalls, List.foldl_concat]
    change importCall (importCalls (noHistory names) imports) data = _
    rw [importCall, import_unknown hknows hdata]

theorem acme_year_bounds : 2000 ≤ 2025 ∧ 2025 ≤ 2100 := by decide

theorem acme_count_bounds : 1 ≤ 2 ∧ 2 ≤ 100000000 := by decide

theorem acme_name_bounds : 1 ≤ "ACME LLC".toList.length ∧ "ACME LLC".toList.length ≤ 255 := by
  decide

theorem acme_company_bounds : 1 ≤ "Acme".toList.length ∧ "Acme".toList.length ≤ 255 := by decide

/-- The filings of an employer, as of a day. -/
def acmeFilings (observedAt : Time) : HistoryRecord where
  kind := .h1bFilings
  year := 2025
  count := 2
  employerName := "ACME LLC".toList
  sourceUrl := "https://www.dol.gov/data".toList
  observedAt := observedAt
  year_bounds := acme_year_bounds
  count_bounds := acme_count_bounds
  name_bounds := acme_name_bounds

theorem acmeImport_bounds (item : MappedEmployerRecord) :
    1 ≤ [item].length ∧ [item].length ≤ 100000 := by simp

def acmeImport (observedAt : Time) : EmployerImport :=
  ⟨[⟨"Acme".toList, acmeFilings observedAt, acme_company_bounds⟩], acmeImport_bounds _⟩

/-- An older import after a newer one is merged with it. -/
theorem acme_imports :
    ∃ records, importCalls (noHistory ["Acme".toList]) [acmeImport 2, acmeImport 1]
        "Acme".toList = some records ∧ records.Pairwise (·.key < ·.key) ∧
      (∀ record ∈ records, record ∈ imported [acmeImport 2, acmeImport 1] "Acme".toList) ∧
      ∀ record ∈ imported [acmeImport 2, acmeImport 1] "Acme".toList,
        ∃ r, records.filter (·.key = record.key) = [r] ∧
          LatestWins.IsLatest HistoryRecord.observedAt
            ((imported [acmeImport 2, acmeImport 1] "Acme".toList).filter
              (·.key = record.key)) r := by
  refine (import_converges (fun data hdata item hitem => ?_)).1 _ List.mem_cons_self
  rcases List.mem_cons.mp hdata with rfl | hdata
  · rw [List.mem_singleton.mp hitem]
    exact List.mem_cons_self
  · rw [List.mem_singleton.mp hdata] at hitem
    rw [List.mem_singleton.mp hitem]
    exact List.mem_cons_self

end JobPing
