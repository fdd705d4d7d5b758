import JobPing.Pages
import JobPing.Screening
import JobPing.SqlLogic
import JobPing.UrlParse
import Mathlib.Data.Prod.Lex

/-!
# Listing jobs

`list_jobs` of `app/api/v1/jobs.py`, on the postings with their companies. The columns in JSON hold
what their models accept. The pages of a query are what it matches, in one order, each posting once
(`list_jobs_pages`), in whatever order the database finds the rows.
-/

namespace JobPing

/-! ## The query -/

/-- `lower` of the database. -/
structure Collation where
  lower : Str → Str

/-- A posting with the columns of its company. -/
structure ListedJob where
  job : JobPosting
  createdAt : Time
  company : Company
  immigrationRecords : List EmployerRecord

/-- The parameters of `list_jobs`, with the checks of `PageQuery` and `PageSizeQuery`. -/
structure JobQuery where
  search : Option Str
  company : Option Str
  active : Option Bool
  page : ℕ
  pageSize : ℕ
  policy : Option PolicyKind
  policyValue : PolicyValue
  h1bHistory : Bool
  salaryReported : Bool
  minimumPay : Option ℚ
  payCurrency : Str
  payInterval : PayInterval
  one_le_page : 1 ≤ page
  size_bounds : 1 ≤ pageSize ∧ pageSize ≤ 100

namespace JobQuery

variable (P : Python) (db : Collation) (query : JobQuery) (row : ListedJob)

/-- `icontains(term, autoescape=True)`. -/
def icontains (column term : Str) : Sql.Truth := some (db.lower term <:+: db.lower column)

/-- `_apply_filters`. -/
def applyFilters : List Sql.Truth :=
  (match query.search.map P.strip with
    | none => []
    | some [] => []
    | some term =>
      [Sql.or_ [icontains db row.job.title term, icontains db row.company.name term]]) ++
  (match query.company.map P.strip with
    | none => []
    | some [] => []
    | some companyName =>
      [Sql.eq (some (db.lower row.company.name)) (some (P.lower companyName))]) ++
  match query.active with
  | none => []
  | some active => [Sql.eq (some row.job.isClosed) (some !active)]

/-- `coalesce(details["policies"][policy]["value"], "unknown")`. -/
def policyColumn (policy : PolicyKind) : Option PolicyValue :=
  Sql.coalesce ((row.job.details.bind fun details => details.policies policy).map (·.value))
    .unknown

/-- `active_h1b_sponsor`. -/
def activeH1bSponsor : Sql.Truth :=
  Sql.exists_ (Sql.filter row.immigrationRecords fun record => Sql.and_
    [Sql.in_ record.kind h1bKinds, Sql.compare (some record.year) (2023 ≤ ·),
      Sql.compare (some record.count) (1 ≤ ·)])

/-- The filter for a policy: an employer that sponsors is taken to allow what it does not state. -/
def policyFilter (policy : PolicyKind) : Sql.Truth :=
  if policy ∈ [.sponsorship, .futureSponsorship] ∧ query.policyValue = .allowed then
    Sql.or_
      [Sql.eq (policyColumn row policy) (some .allowed),
        Sql.and_
          [Sql.in_ (policyColumn row .sponsorship) [.unknown, .allowed],
            Sql.in_ (policyColumn row .futureSponsorship) [.unknown, .allowed],
            activeH1bSponsor row]]
  else Sql.eq (policyColumn row policy) (some query.policyValue)

/-- The filter for pay. -/
def payFilter : Sql.Truth :=
  let pay := (row.job.details.map JobDetails.compensation).getD []
  match query.minimumPay with
  | none => Sql.exists_ pay
  | some minimumPay =>
    Sql.exists_ (Sql.filter pay fun range => Sql.and_
      [Sql.eq (some range.currency) (some query.payCurrency),
        Sql.eq (some range.interval) (some query.payInterval),
        Sql.compare range.minimum (minimumPay ≤ ·)])

/-- `_discovery_filters`. -/
def discoveryFilters : List Sql.Truth :=
  (query.policy.map (query.policyFilter row)).toList ++
  (if query.h1bHistory then
    [Sql.exists_ (Sql.filter row.immigrationRecords fun record => Sql.in_ record.kind h1bKinds)]
  else []) ++
  if query.salaryReported || query.minimumPay.isSome then [query.payFilter row] else []

/-- The condition of both statements. -/
def condition : Sql.Truth := Sql.and_ (query.applyFilters P db row ++ query.discoveryFilters row)

end JobQuery

/-- The columns of `ORDER BY`. -/
def ListedJob.order (row : ListedJob) : Time ×ₗ ℕ :=
  toLex (row.job.postedAt.getD row.createdAt, row.job.id)

/-- `PaginatedJobResponse`. -/
structure PaginatedJobs where
  items : List ListedJob
  total : ℕ
  page : ℕ
  pageSize : ℕ

namespace PaginatedJobs

def totalPages (response : PaginatedJobs) : ℕ :=
  (response.total + response.pageSize - 1) / response.pageSize

def hasNext (response : PaginatedJobs) : Bool := response.page < response.totalPages

def hasPrevious (response : PaginatedJobs) : Bool := 1 < response.page && 0 < response.totalPages

end PaginatedJobs

variable (P : Python) (db : Collation)

/-- The rows of a query, the latest first. -/
def orderedJobs (query : JobQuery) (rows : List ListedJob) : List ListedJob :=
  (Sql.filter rows (query.condition P db)).mergeSort fun a b => b.order ≤ a.order

/-- **`list_jobs`**. -/
def listJobs (query : JobQuery) (rows : List ListedJob) : PaginatedJobs :=
  { items := ((orderedJobs P db query rows).drop ((query.page - 1) * query.pageSize)).take
      query.pageSize
    total := (Sql.filter rows (query.condition P db)).length
    page := query.page
    pageSize := query.pageSize }

/-- The same query for another page, counted from zero. -/
def JobQuery.atPage (query : JobQuery) (n : ℕ) : JobQuery :=
  { query with page := n + 1, one_le_page := Nat.le_add_left 1 n }

/-! ## The pages of a query -/

variable {P db} {query : JobQuery} {rows rows' : List ListedJob}

/-- The page of a response is a page of the ordered rows. -/
theorem items_atPage (n : ℕ) : (listJobs P db (query.atPage n) rows).items =
    Pages.page query.pageSize n (orderedJobs P db query rows) := rfl

theorem orderedJobs_perm : (orderedJobs P db query rows).Perm
    (Sql.filter rows (query.condition P db)) := List.mergeSort_perm _ _

/-- **The order is strict**: the ids are. -/
theorem orderedJobs_pairwise (hids : (rows.map (·.job.id)).Nodup) :
    (orderedJobs P db query rows).Pairwise fun a b => b.order < a.order := by
  have hsorted : (orderedJobs P db query rows).Pairwise fun a b => b.order ≤ a.order := by
    have hpairwise := @List.pairwise_mergeSort ListedJob (fun a b => decide (b.order ≤ a.order))
      (fun a b c hab hbc => by simpa using (of_decide_eq_true hbc).trans (of_decide_eq_true hab))
      (fun a b => by simpa using le_total b.order a.order)
      (Sql.filter rows (query.condition P db))
    exact hpairwise.imp fun h => of_decide_eq_true h
  have hsub : (Sql.filter rows (query.condition P db)).Sublist rows := List.filter_sublist
  have hnodup : ((orderedJobs P db query rows).map (·.job.id)).Nodup :=
    (orderedJobs_perm.map _).nodup_iff.mpr (hids.sublist (hsub.map _))
  refine (hsorted.and (List.pairwise_map.mp hnodup)).imp fun ⟨hle, hne⟩ => ?_
  exact lt_of_le_of_ne hle fun heq => hne (congrArg (fun key => (ofLex key).2) heq).symm

/-- **The order of the rows does not matter.** -/
theorem orderedJobs_congr (hids : (rows.map (·.job.id)).Nodup) (hperm : rows.Perm rows') :
    orderedJobs P db query rows' = orderedJobs P db query rows := by
  have hids' : (rows'.map (·.job.id)).Nodup := (hperm.map _).nodup_iff.mp hids
  have hsame : (orderedJobs P db query rows').Perm (orderedJobs P db query rows) :=
    orderedJobs_perm.trans ((hperm.symm.filter _).trans orderedJobs_perm.symm)
  exact hsame.eq_of_pairwise (fun a b _ _ hab hba => absurd hab hba.asymm)
    (orderedJobs_pairwise hids') (orderedJobs_pairwise hids)

variable (P db query)

/-- **The pages of a query**: they do not depend on the order of the rows; together they are the
rows that the query matches, each once, the latest first; and there is a next page if and only if it
is not empty. -/
theorem list_jobs_pages (hids : (rows.map (·.job.id)).Nodup) (hperm : rows.Perm rows') :
    (∀ n, listJobs P db (query.atPage n) rows' = listJobs P db (query.atPage n) rows) ∧
    ((List.range (listJobs P db query rows).totalPages).flatMap fun n =>
      (listJobs P db (query.atPage n) rows).items).Perm
        (rows.filter fun row => query.condition P db row = some true) ∧
    ((List.range (listJobs P db query rows).totalPages).flatMap fun n =>
      (listJobs P db (query.atPage n) rows).items).Pairwise (fun a b => b.order < a.order) ∧
    ∀ n, (listJobs P db (query.atPage n) rows).hasNext = true ↔
      (listJobs P db (query.atPage (n + 1)) rows).items ≠ [] := by
  have hsize : 0 < query.pageSize := query.size_bounds.1
  have hlength : (orderedJobs P db query rows).length =
      (Sql.filter rows (query.condition P db)).length := orderedJobs_perm.length_eq
  have hall : ((List.range (listJobs P db query rows).totalPages).flatMap fun n =>
      (listJobs P db (query.atPage n) rows).items) = orderedJobs P db query rows := by
    have hpages := Pages.flatMap_page hsize (orderedJobs P db query rows)
    rw [hlength] at hpages
    exact hpages
  refine ⟨fun n => ?_, ?_, ?_, fun n => ?_⟩
  · have hsame : orderedJobs P db (query.atPage n) rows' =
        orderedJobs P db (query.atPage n) rows := orderedJobs_congr hids hperm
    unfold listJobs
    rw [hsame]
    have htotal : (Sql.filter rows' ((query.atPage n).condition P db)).length =
        (Sql.filter rows ((query.atPage n).condition P db)).length :=
      (hperm.symm.filter _).length_eq
    rw [htotal]
  · rw [hall]
    exact orderedJobs_perm
  · rw [hall]
    exact orderedJobs_pairwise hids
  · rw [items_atPage, Pages.page_ne_nil_iff hsize, hlength]
    exact decide_eq_true_iff

/-! ### Two open postings -/

def lowerCollation : Collation := ⟨fun s => s.map Char.toLower⟩

def zeroDigest : Digest := ⟨List.replicate 64 '0', by decide⟩

/-- A posting of one company. -/
def openPosting (id : ℕ) (postedAt : Option Time) : ListedJob where
  job :=
    { id := id
      companyId := 1
      title := "Intern".toList
      baseHash := zeroDigest
      contentHash := zeroDigest
      applyUrl := "https://jobs.example/1".toList
      location := "Remote".toList
      locationSource := none
      details := none
      season := 2026
      jobType := .internship
      isClosed := false
      postedAt := postedAt }
  createdAt := 5
  company := ⟨1, "Acme".toList⟩
  immigrationRecords := []

/-- Open postings at "acme", one a page. -/
def acmeQuery : JobQuery where
  search := some " INTERN ".toList
  company := some "acme".toList
  active := some true
  page := 1
  pageSize := 1
  policy := none
  policyValue := .allowed
  h1bHistory := false
  salaryReported := false
  minimumPay := none
  payCurrency := "USD".toList
  payInterval := .year
  one_le_page := by decide
  size_bounds := by decide

/-- Two postings of one time. -/
def foundPostings : List ListedJob := [openPosting 1 (some 5), openPosting 2 none]

/-- They are on two pages, found in either order. -/
theorem two_postings_pages :
    (listJobs .ascii lowerCollation acmeQuery foundPostings).totalPages = 2 ∧
    (∀ n, listJobs .ascii lowerCollation (acmeQuery.atPage n) foundPostings.reverse =
      listJobs .ascii lowerCollation (acmeQuery.atPage n) foundPostings) ∧
    ∀ n,
      (listJobs .ascii lowerCollation (acmeQuery.atPage n) foundPostings).hasNext = true ↔
        (listJobs .ascii lowerCollation (acmeQuery.atPage (n + 1)) foundPostings).items ≠
          [] := by
  have hids : (foundPostings.map (·.job.id)).Nodup := by decide
  have hpages := list_jobs_pages .ascii lowerCollation acmeQuery hids
    (List.reverse_perm foundPostings).symm
  exact ⟨by decide +kernel, hpages.1, hpages.2.2.2⟩

end JobPing
