import JobPing.Json
import JobPing.SourceIdentity

/-!
# The ingestion boundary

The raw rows of `app/schemas/job.py` and the checks of `NormalizedJob`. The texts of a raw row are
stripped already (`str_strip_whitespace`). Pydantic's `HttpUrl` is a parameter, and so are the
extraction of advertised facts and the reading of source dates, which decide no hash, URL or
lifecycle state.
-/

namespace JobPing

/-! ## Raw rows -/

/-- `location: str | list[str] | None`. -/
inductive RawLocation
  | text (value : Str)
  | list (values : List Str)
  | missing

/-- `is_closed: bool | str | int | None`. -/
inductive RawClosed
  | bool (value : Bool)
  | int (value : ℤ)
  | text (value : Str)
  | missing

/-- What the pipelines read from a payload: its dates, where `posted` may be present without a
text, its identity, and the entries facts are extracted from. -/
structure RawPayload where
  posted : Option (Option Str)
  datePosted : Option Str
  identity : IdentityPayload
  facts : Entries

/-- An unprocessed record of a scraper. -/
structure RawJobPayload where
  source : Str
  sourceId : Option Str
  company : Option Str
  title : Option Str
  applyUrl : Option Str
  location : RawLocation
  jobType : Option Str
  isClosed : RawClosed
  observedAt : Option Time
  payload : RawPayload

/-- The record the table parser makes of a row. Its source has a name, and its id names a commit or
blob and a file. -/
structure TableRow where
  source : Str
  source_ne : source ≠ []
  sourceId : Str
  sourceId_ne : sourceId ≠ []
  company : Str
  title : Str
  applyUrl : Str
  location : Str
  isClosed : Bool
  rawRow : Str
  datePosted : Option Str
  deriving DecidableEq

/-- A table row with the time its source was observed, as a raw record. -/
def TableRow.raw (row : TableRow) (observedAt : Time) : RawJobPayload where
  source := row.source
  sourceId := some row.sourceId
  company := some row.company
  title := some row.title
  applyUrl := some row.applyUrl
  location := .text row.location
  jobType := none
  isClosed := .bool row.isClosed
  observedAt := some observedAt
  payload := ⟨none, row.datePosted, .empty, [("raw_row".toList, .str row.rawRow)]⟩

/-! ## Services of the pipelines -/

/-- The functions the pipelines use beyond those of the lifecycle. -/
structure Ingestion extends Services where
  /-- `generate_base_hash`. -/
  generateBaseHash : Str → Str → Digest
  /-- A content hash sees its URL through the canonical form only. -/
  contentHash_canonical : ∀ baseHash {a b : Str} location isClosed,
    canonicalizeApplyUrl a = canonicalizeApplyUrl b →
      generateContentHash baseHash a location isClosed =
        generateContentHash baseHash b location isClosed
  /-- So does a posting identity. -/
  identity_canonical : ∀ source sourceId {a b : Str},
    canonicalizeApplyUrl a = canonicalizeApplyUrl b →
      stablePostingIdentity source sourceId a = stablePostingIdentity source sourceId b
  /-- Whether the URL parser accepts a URL; `hasher.py` raises `ValueError` otherwise. -/
  urlParses : Str → Bool
  /-- `stable_posting_identity`, with the payload of the row. -/
  postingIdentity : Option Str → Option Str → Str → IdentityPayload → Option Identity
  /-- `str(HttpUrl(·))`; `none` is the `ValidationError`. -/
  httpUrl : Str → Option Str
  /-- `extract_job_details`; the outer `none` is a `ValidationError`. -/
  extractJobDetails : RawJobPayload → Option (Option JobDetails)
  /-- `parse_source_posted_at(value, observed_at=)`. -/
  parseSourcePostedAt : Option Str → Time → Option Time

variable (I : Ingestion)

/-! ## Validation -/

/-- `Field(min_length=, max_length=)`. -/
def fits (low high : ℕ) (value : Str) : Bool := low ≤ value.length && value.length ≤ high

/-- The bounds on the fields of a job. -/
def NormalizedJob.inBounds (job : NormalizedJob) : Bool :=
  job.companyName.all (fits 1 255) && fits 1 500 job.title && fits 1 500 job.location &&
    job.locationSource.all (fits 0 100) && 2026 ≤ job.season && job.season ≤ 2027 &&
    job.source.all (fits 0 100) && job.sourceId.all (fits 0 500) &&
    job.identityNamespace.all (fits 0 255) && job.externalJobId.all (fits 0 255)

/-- `NormalizedJob(...)`, on the unchecked fields; `none` is the `ValidationError`. -/
def NormalizedJob.validate (fields : NormalizedJob) : Option NormalizedJob :=
  (I.httpUrl fields.applyUrl).bind fun applyUrl =>
    let job := { fields with
      applyUrl := applyUrl
      identityNamespace := fields.identityNamespace.map I.text.strip
      externalJobId := fields.externalJobId.map I.text.strip }
    if job.inBounds then some job else none

variable {I}

/-- Validation normalises the URL and strips the identity. -/
theorem NormalizedJob.validate_eq_some {fields job : NormalizedJob}
    (h : fields.validate I = some job) :
    I.httpUrl fields.applyUrl = some job.applyUrl ∧
      job = { fields with
        applyUrl := job.applyUrl
        identityNamespace := job.identityNamespace
        externalJobId := job.externalJobId } := by
  obtain ⟨applyUrl, hurl, hjob⟩ := Option.bind_eq_some_iff.mp h
  simp only [Option.ite_none_right_eq_some, Option.some.injEq] at hjob
  obtain ⟨-, rfl⟩ := hjob
  exact ⟨hurl, rfl⟩

/-! ## The services of the source -/

/-- `generate_content_hash`, which sees a URL the parser rejects as it is. -/
def contentDigest (P : Python) (sha256 : Str → Digest) (baseHash : Digest)
    (applyUrl location : Str) (isClosed : Bool) : Digest :=
  let fields := [baseHash.hex, (canonicalizeApplyUrl P applyUrl).getD applyUrl,
    normalizeLocation P location, if isClosed then "true".toList else "false".toList]
  sha256 (fields.flatMap lengthPrefixed)

theorem contentDigest_eq {P : Python} {sha256 : Str → Digest} {baseHash : Digest}
    {applyUrl location : Str} {isClosed : Bool} {digest : Digest}
    (h : generateContentHash P sha256 baseHash applyUrl location isClosed = some digest) :
    contentDigest P sha256 baseHash applyUrl location isClosed = digest := by
  obtain ⟨canonicalUrl, hurl, hdigest⟩ := Option.bind_eq_some_iff.mp h
  simp only [contentDigest, hurl, Option.getD_some]
  exact Option.some.inj hdigest

/-- `stable_posting_identity` without a payload, likewise. -/
def canonicalIdentity (P : Python) (source sourceId : Option Str) (applyUrl : Str) :
    Option Identity :=
  (urlsplit P ((canonicalizeApplyUrl P applyUrl).getD applyUrl)).bind fun parts =>
    identityOfParts P source sourceId parts .empty

theorem canonicalIdentity_eq {P : Python} {source sourceId : Option Str} {applyUrl : Str}
    {identity : Option Identity}
    (h : stablePostingIdentity P source sourceId applyUrl .empty = some identity) :
    canonicalIdentity P source sourceId applyUrl = identity := by
  rw [stablePostingIdentity_eq, Option.map_eq_some_iff] at h
  obtain ⟨parts, hparts, rfl⟩ := h
  obtain ⟨canonical, hcanonical, hparts⟩ := Option.bind_eq_some_iff.mp hparts
  simp only [canonicalIdentity, hcanonical, Option.getD_some, hparts, Option.bind_some]

/-- The services of the source, where every function sees a URL through its canonical form. -/
def Services.canonical (P : Python) (sha256 : Str → Digest) : Services :=
  { Services.ofSource P sha256 with
    generateContentHash := contentDigest P sha256
    stablePostingIdentity := canonicalIdentity P
    identity_nonempty := fun h => by
      obtain ⟨parts, -, h⟩ := Option.bind_eq_some_iff.mp h
      exact identityOfParts_proper h }

theorem Services.canonical_canonicalize (P : Python) (sha256 : Str → Digest) :
    (Services.canonical P sha256).canonicalizeApplyUrl =
      fun url => (JobPing.canonicalizeApplyUrl P url).getD url := rfl

theorem Services.canonical_contentHash (P : Python) (sha256 : Str → Digest) :
    (Services.canonical P sha256).generateContentHash = contentDigest P sha256 := rfl

theorem Services.canonical_stable_identity (P : Python) (sha256 : Str → Digest) :
    (Services.canonical P sha256).stablePostingIdentity = canonicalIdentity P := by
  unfold Services.canonical
  with_reducible rfl

/-- The functions of `hasher.py` and `source_identity.py`, with the parameters of the boundary. -/
def Ingestion.ofSource (P : Python) (sha256 : Str → Digest) (httpUrl : Str → Option Str)
    (extractJobDetails : RawJobPayload → Option (Option JobDetails))
    (parseSourcePostedAt : Option Str → Time → Option Time) : Ingestion where
  toServices := .canonical P sha256
  generateBaseHash := JobPing.generateBaseHash P sha256
  contentHash_canonical baseHash a b location isClosed h := by
    simp only [Services.canonical_canonicalize] at h
    simp only [Services.canonical_contentHash, contentDigest, h]
  identity_canonical source sourceId a b h := by
    simp only [Services.canonical_canonicalize] at h
    simp only [Services.canonical_stable_identity, canonicalIdentity, h]
  urlParses url := (canonicalizeApplyUrl P url).isSome
  postingIdentity source sourceId applyUrl payload :=
    (JobPing.stablePostingIdentity P source sourceId applyUrl payload).getD none
  httpUrl := httpUrl
  extractJobDetails := extractJobDetails
  parseSourcePostedAt := parseSourcePostedAt

/-! ## A sample boundary -/

/-- A digest of the code points of a text, in place of SHA-256. -/
def sampleDigest (text : Str) : Digest :=
  let n := text.foldl (fun n c => (n * 131 + c.toNat) % 16 ^ 64) 0
  { hex := (List.range 64).map fun i => Nat.digitChar (n / 16 ^ i % 16)
    valid := by
      refine ⟨by simp, List.all_eq_true.mpr fun c hc => ?_⟩
      obtain ⟨i, -, rfl⟩ := List.mem_map.mp hc
      have hlt : n / 16 ^ i % 16 < 16 := Nat.mod_lt _ (by decide)
      generalize n / 16 ^ i % 16 = digit at hlt
      revert digit
      decide }

/-- An absolute URL gets a path, the part of `HttpUrl` that matters for the samples. -/
def sampleHttpUrl (url : Str) : Option Str :=
  (urlsplit .ascii url).bind fun parts =>
    if parts.hostname .ascii = none then none
    else some (urlunsplit { parts with path := if parts.path = [] then ['/'] else parts.path })

/-- The boundary over ASCII texts, without advertised facts and dates. -/
def Ingestion.ascii : Ingestion :=
  .ofSource .ascii sampleDigest sampleHttpUrl (fun _ => some none) (fun _ _ => none)

end JobPing
