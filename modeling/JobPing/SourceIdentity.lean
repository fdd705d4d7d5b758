import JobPing.Hasher

/-!
# Stable posting identities

`app/services/source_identity.py`, and the `Services` that the lifecycle consults.
-/

namespace JobPing

variable (P : Python)

/-- Match the provider domain or one of its real subdomains. -/
def onDomain (host : Str) (domain : String) : Bool :=
  host = domain.toList || ('.' :: domain.toList).isSuffixOf host

/-- The path segments of a URL, unquoted. -/
def pathSegments (parts : SplitResult) : List Str :=
  ((parts.path.splitOn '/').filter (· ≠ [])).map unquote

/-! ## Requisition numbers -/

/-- `R-\d+` or `JR\d+`, without regard to case. -/
def isRequisition : Str → Bool
  | r :: c :: digits =>
    ((r ∈ ['R', 'r'] && c = '-') || (r ∈ ['J', 'j'] && c ∈ ['R', 'r'])) && digits ≠ [] &&
      digits.all P.isDecimal
  | _ => false

/-- The text up to the end `$` matches: a final line break does not count. -/
def beforeEnd (s : Str) : Str := if s.getLast? = some '\n' then s.dropLast else s

/-- The requisition after a `_` or `-`. -/
def requisitionAfterSeparator : Str → Option Str
  | [] => none
  | c :: rest =>
    if c ∈ ['_', '-'] && isRequisition P (beforeEnd rest) then some (beforeEnd rest)
    else requisitionAfterSeparator rest

/-- `_WORKDAY_REQUISITION_SUFFIX.search`. -/
def workdayRequisition (externalId : Str) : Option Str :=
  if isRequisition P (beforeEnd externalId) then some (beforeEnd externalId)
  else requisitionAfterSeparator P externalId

/-! ## Identities in URLs -/

/-- A tenant and an external id of a provider, when the host is one of its domain. -/
def tenantIdentity (provider domain : String) (host tenant externalId : Str) : Option Identity :=
  if onDomain host domain then
    some (provider.toList ++ ':' :: P.casefold tenant, externalId.take 255)
  else none

/-- The segment after the first one that is a key; the last segment is none. -/
def segmentAfter (key : Str → Bool) : List Str → Option Str
  | segment :: next :: rest => if key segment then some next else segmentAfter key (next :: rest)
  | _ => none

def greenhouseIdentity (host : Str) : List Str → Option Identity
  | tenant :: kind :: externalId :: _ =>
    if kind ∈ ["jobs".toList, "job".toList] then
      tenantIdentity P "greenhouse" "greenhouse.io" host tenant externalId
    else none
  | _ => none

def leverOrAshbyIdentity (host : Str) : List Str → Option Identity
  | tenant :: externalId :: _ =>
    (tenantIdentity P "lever" "lever.co" host tenant externalId).or
      (tenantIdentity P "ashby" "ashbyhq.com" host tenant externalId)
  | _ => none

def amazonIdentity (host : Str) (path : List Str) : Option Identity :=
  if onDomain host "amazon.jobs" then
    (segmentAfter (fun s => P.casefold s = "jobs".toList) path).map fun externalId =>
      ("amazon:".toList ++ host, externalId.take 255)
  else none

def metaIdentity (host : Str) (path : List Str) (query : Str) : Option Identity :=
  if onDomain host "metacareers.com" then
    (((parseQsl false query).lookup "job_id".toList).or
      (match path.reverse with
        | externalId :: key :: _ => if P.casefold key = "jobs".toList then some externalId else none
        | _ => none)).map fun externalId => ("meta:metacareers.com".toList, externalId.take 255)
  else none

/-- `_identity_from_url`, after the URL is canonicalised and split. -/
def identityFromParts (parts : SplitResult) : Option Identity :=
  let host := removeprefix "www.".toList (P.casefold ((parts.hostname P).getD []))
  let path := pathSegments parts
  let workdayId :=
    if onDomain host "myworkdayjobs.com" then
      segmentAfter (fun s => P.casefold s ∈ ["job".toList, "jobs".toList]) path
    else none
  (greenhouseIdentity P host path).or <| (leverOrAshbyIdentity P host path).or <|
    match workdayId with
    | some externalId =>
      -- title-only slugs are mutable and must not count as requisition identity
      (workdayRequisition P externalId).map fun requisition =>
        ("workday:".toList ++ host, requisition.take 255)
    | none => (amazonIdentity P host path).or (metaIdentity P host path parts.query)

/-- `_identity_from_url`; the outer `none` is the exception. -/
def identityFromUrl (value : Str) : Option (Option Identity) := do
  let canonical ← canonicalizeApplyUrl P value
  let parts ← urlsplit P canonical
  return identityFromParts P parts

/-- `_tenant_from_url`; the outer `none` is the exception. -/
def tenantFromUrl (value : Str) : Option (Option Str) := do
  let canonical ← canonicalizeApplyUrl P value
  let parts ← urlsplit P canonical
  let host := P.casefold ((parts.hostname P).getD [])
  return match pathSegments parts with
    | [] => none
    | tenant :: _ =>
      if onDomain host "lever.co" || onDomain host "greenhouse.io" then some tenant else none

/-! ## Identities of source rows -/

def directAtsSources : List Str :=
  ["greenhouse", "lever", "workday", "ashby", "amazon", "meta"].map String.toList

/-- What `stable_posting_identity` reads from a payload: the text of a true `id`, and a `site` that
is a text. -/
structure IdentityPayload where
  id : Option Str
  site : Option Str

/-- The empty payload. -/
def IdentityPayload.empty : IdentityPayload := ⟨none, none⟩

/-- `greenhouse`, as `re.IGNORECASE` matches it: `s` also matches the long s. -/
def isGreenhouse (s : Str) : Bool :=
  s.length = 10 && (s.zip "greenhouse".toList).all fun (c, d) =>
    c = d || c = d.toUpper || (d = 's' && c = Char.ofNat 0x17F)

/-- `re.fullmatch(r"greenhouse:([^:]+):([^:]+)", ·)`. -/
def greenhouseSourceId (s : Str) : Option (Str × Str) :=
  match s.splitOn ':' with
  | [provider, tenant, externalId] =>
    if isGreenhouse provider && tenant ≠ [] && externalId ≠ [] then some (tenant, externalId)
    else none
  | _ => none

/-- `[A-Za-z0-9_-]{1,200}`. -/
def isSite (s : Str) : Bool :=
  1 ≤ s.length && s.length ≤ 200 && s.all fun c => c.isAlphanum || c ∈ ['_', '-']

/-- The tenant and external id of a source row whose URL has no identity. -/
def sourceTenant (source sourceId : Str) (urlTenant : Option Str) (payload : IdentityPayload) :
    Option Str × Str :=
  let externalId := P.strip (payload.id.getD sourceId)
  if source = "greenhouse".toList then
    match (greenhouseSourceId sourceId).or (greenhouseSourceId externalId) with
    | some (tenant, externalId) => (some tenant, externalId)
    | none => (urlTenant, externalId)
  else if source = "lever".toList && urlTenant.isNone then
    (payload.site.filter isSite, externalId)
  else (urlTenant, externalId)

/-- Return a provider/tenant-scoped ATS key when the evidence is stable; the outer `none` is the
exception. -/
def stablePostingIdentity (source sourceId : Option Str) (applyUrl : Str)
    (payload : IdentityPayload) : Option (Option Identity) := do
  let urlIdentity ← identityFromUrl P applyUrl
  if urlIdentity.isSome then return urlIdentity
  let source := P.casefold (P.strip (source.getD []))
  let sourceId := sourceId.getD []
  if source ∉ directAtsSources || sourceId = [] then return none
  if "http://".toList.isPrefixOf sourceId || "https://".toList.isPrefixOf sourceId then return none
  let urlTenant ← tenantFromUrl P applyUrl
  let (tenant, externalId) := sourceTenant P source sourceId urlTenant payload
  return tenant.bind fun tenant =>
    if tenant = [] || externalId = [] || 255 < externalId.length then none
    else some (source ++ ':' :: P.casefold tenant, externalId)

/-! ## Identities are not empty -/

/-- Both parts of an identity are texts. -/
def Identity.Proper (identity : Identity) : Prop := identity.1 ≠ [] ∧ identity.2 ≠ []

variable {P}

theorem take_ne_nil {s : Str} (h : s ≠ []) : s.take 255 ≠ [] := by
  cases s with
  | nil => exact absurd rfl h
  | cons c s => simp

theorem segments_ne_nil (parts : SplitResult) : ∀ s ∈ pathSegments parts, s ≠ [] := by
  intro s hs
  obtain ⟨t, ht, rfl⟩ := List.mem_map.mp hs
  exact unquote_ne_nil (by simpa using (List.mem_filter.mp ht).2)

theorem segmentAfter_mem {key : Str → Bool} {path : List Str} {s : Str}
    (h : segmentAfter key path = some s) : s ∈ path := by
  induction path with
  | nil => cases h
  | cons a path ih =>
    cases path with
    | nil => cases h
    | cons b path =>
      rw [segmentAfter] at h
      split_ifs at h
      · cases h
        simp
      · exact List.mem_cons_of_mem _ (ih h)

theorem tenantIdentity_proper {provider domain : String} {host tenant externalId : Str}
    (he : externalId ≠ []) {i : Identity}
    (h : tenantIdentity P provider domain host tenant externalId = some i) : i.Proper := by
  simp only [tenantIdentity, Option.ite_none_right_eq_some, Option.some.injEq] at h
  obtain ⟨-, rfl⟩ := h
  exact ⟨by simp, take_ne_nil he⟩

theorem greenhouseIdentity_proper {host : Str} {path : List Str} (hp : ∀ s ∈ path, s ≠ [])
    {i : Identity} (h : greenhouseIdentity P host path = some i) : i.Proper := by
  unfold greenhouseIdentity at h
  split at h
  · split_ifs at h
    exact tenantIdentity_proper (hp _ (by simp)) h
  · cases h

theorem leverOrAshbyIdentity_proper {host : Str} {path : List Str} (hp : ∀ s ∈ path, s ≠ [])
    {i : Identity} (h : leverOrAshbyIdentity P host path = some i) : i.Proper := by
  unfold leverOrAshbyIdentity at h
  split at h
  · rcases Option.or_eq_some_iff.mp h with h | ⟨-, h⟩ <;>
      exact tenantIdentity_proper (hp _ (by simp)) h
  · cases h

theorem isRequisition_ne_nil {s : Str} (h : isRequisition P s = true) : s ≠ [] := by
  rintro rfl
  cases h

theorem workdayRequisition_ne_nil {externalId s : Str}
    (h : workdayRequisition P externalId = some s) : s ≠ [] := by
  unfold workdayRequisition at h
  split_ifs at h with hr
  · cases h
    exact isRequisition_ne_nil hr
  · clear hr
    induction externalId with
    | nil => cases h
    | cons c rest ih =>
      rw [requisitionAfterSeparator] at h
      split_ifs at h with hr
      · cases h
        rw [Bool.and_eq_true] at hr
        exact isRequisition_ne_nil hr.2
      · exact ih h

theorem amazonIdentity_proper {host : Str} {path : List Str} (hp : ∀ s ∈ path, s ≠ [])
    {i : Identity} (h : amazonIdentity P host path = some i) : i.Proper := by
  simp only [amazonIdentity, Option.ite_none_right_eq_some, Option.map_eq_some_iff] at h
  obtain ⟨-, s, hs, rfl⟩ := h
  exact ⟨by simp, take_ne_nil (hp s (segmentAfter_mem hs))⟩

/-- A value of a query without blank values is a text. -/
theorem parseQsl_value_ne_nil {query name value : Str}
    (h : (name, value) ∈ parseQsl false query) : value ≠ [] := by
  obtain ⟨nameValue, -, hpair⟩ := List.mem_filterMap.mp h
  simp only [Bool.false_or, Option.ite_none_right_eq_some, decide_eq_true_eq, Option.some.injEq,
    Prod.mk.injEq] at hpair
  obtain ⟨hne, -, rfl⟩ := hpair
  exact unquote_ne_nil (by simpa using hne)

theorem mem_of_lookup {pairs : List (Str × Str)} {name value : Str}
    (h : pairs.lookup name = some value) : (name, value) ∈ pairs := by
  induction pairs with
  | nil => cases h
  | cons pair pairs ih =>
    obtain ⟨a, b⟩ := pair
    rw [List.lookup_cons] at h
    cases hab : name == a with
    | true =>
      rw [hab] at h
      obtain rfl : name = a := by simpa using hab
      cases h
      simp
    | false =>
      rw [hab] at h
      exact List.mem_cons_of_mem _ (ih h)

theorem metaIdentity_proper {host : Str} {path : List Str} {query : Str}
    (hp : ∀ s ∈ path, s ≠ []) {i : Identity} (h : metaIdentity P host path query = some i) :
    i.Proper := by
  simp only [metaIdentity, Option.ite_none_right_eq_some, Option.map_eq_some_iff] at h
  obtain ⟨-, s, hs, rfl⟩ := h
  refine ⟨by simp, take_ne_nil ?_⟩
  rcases Option.or_eq_some_iff.mp hs with hs | ⟨-, hs⟩
  · exact parseQsl_value_ne_nil (mem_of_lookup hs)
  · split at hs
    case h_1 externalId key rest hpath =>
      rw [Option.ite_none_right_eq_some, Option.some.injEq] at hs
      exact hs.2 ▸ hp _ (List.mem_reverse.mp (by rw [hpath]; simp))
    case h_2 => cases hs

theorem identityFromParts_proper {parts : SplitResult} {i : Identity}
    (h : identityFromParts P parts = some i) : i.Proper := by
  have hp := segments_ne_nil parts
  simp only [identityFromParts] at h
  rcases Option.or_eq_some_iff.mp h with h | ⟨-, h⟩
  · exact greenhouseIdentity_proper hp h
  rcases Option.or_eq_some_iff.mp h with h | ⟨-, h⟩
  · exact leverOrAshbyIdentity_proper hp h
  split at h
  · obtain ⟨s, hs, rfl⟩ := Option.map_eq_some_iff.mp h
    exact ⟨by simp, take_ne_nil (workdayRequisition_ne_nil hs)⟩
  · rcases Option.or_eq_some_iff.mp h with h | ⟨-, h⟩
    · exact amazonIdentity_proper hp h
    · exact metaIdentity_proper hp h

/-! ## Identities of canonical URLs -/

variable (P)

/-- The tenant of a canonical URL. -/
def tenantFromParts (parts : SplitResult) : Option Str :=
  let host := P.casefold ((parts.hostname P).getD [])
  match pathSegments parts with
  | [] => none
  | tenant :: _ =>
    if onDomain host "lever.co" || onDomain host "greenhouse.io" then some tenant else none

theorem tenantFromUrl_eq (value : Str) :
    tenantFromUrl P value =
      ((canonicalizeApplyUrl P value).bind (urlsplit P)).map (tenantFromParts P) := by
  unfold tenantFromUrl
  cases canonicalizeApplyUrl P value with
  | none => rfl
  | some canonical =>
    simp only [Option.bind_eq_bind, Option.bind_some]
    cases urlsplit P canonical <;> rfl

/-- The identity of a source row, from the parts of its canonical URL. -/
def identityOfParts (source sourceId : Option Str) (parts : SplitResult)
    (payload : IdentityPayload) : Option Identity :=
  let source := P.casefold (P.strip (source.getD []))
  let sourceId := sourceId.getD []
  if (identityFromParts P parts).isSome then identityFromParts P parts
  else if source ∉ directAtsSources || sourceId = [] then none
  else if "http://".toList.isPrefixOf sourceId || "https://".toList.isPrefixOf sourceId then none
  else
    let (tenant, externalId) :=
      sourceTenant P source sourceId (tenantFromParts P parts) payload
    tenant.bind fun tenant =>
      if tenant = [] || externalId = [] || 255 < externalId.length then none
      else some (source ++ ':' :: P.casefold tenant, externalId)

/-- The identity of a source row sees its URL through the canonical form only. -/
theorem stablePostingIdentity_eq (source sourceId : Option Str) (applyUrl : Str)
    (payload : IdentityPayload) :
    stablePostingIdentity P source sourceId applyUrl payload =
      ((canonicalizeApplyUrl P applyUrl).bind (urlsplit P)).map fun parts =>
        identityOfParts P source sourceId parts payload := by
  unfold stablePostingIdentity identityFromUrl
  rw [tenantFromUrl_eq]
  generalize canonicalizeApplyUrl P applyUrl = canonical
  cases canonical with
  | none => rfl
  | some canonical =>
    simp only [Option.bind_eq_bind, Option.bind_some]
    generalize urlsplit P canonical = parts
    cases parts with
    | none => rfl
    | some parts =>
      simp only [Option.bind_some, pure, Option.map_some]
      unfold identityOfParts
      dsimp only
      split_ifs <;> rfl

variable {P}

theorem identityOfParts_proper {source sourceId : Option Str} {parts : SplitResult}
    {payload : IdentityPayload} {i : Identity}
    (h : identityOfParts P source sourceId parts payload = some i) : i.Proper := by
  unfold identityOfParts at h
  dsimp only at h
  split_ifs at h
  · exact identityFromParts_proper h
  · obtain ⟨tenant, -, h⟩ := Option.bind_eq_some_iff.mp h
    rw [Option.ite_none_left_eq_some] at h
    obtain ⟨hne, h⟩ := h
    cases h
    simp only [Bool.or_eq_true, decide_eq_true_eq, not_or] at hne
    exact ⟨by simp, hne.1.2⟩

/-- **Every identity** is a namespace and an external id. -/
theorem stablePostingIdentity_proper {source sourceId : Option Str} {applyUrl : Str}
    {payload : IdentityPayload} {i : Identity}
    (h : stablePostingIdentity P source sourceId applyUrl payload = some (some i)) :
    i.Proper := by
  rw [stablePostingIdentity_eq, Option.map_eq_some_iff] at h
  obtain ⟨parts, -, h⟩ := h
  exact identityOfParts_proper h

/-! ## The services of the source -/

theorem canonicalizeApplyUrl_nil (P : Python) : canonicalizeApplyUrl P [] = some [] := by
  have hstrip : P.strip [] = [] := rfl
  simp only [canonicalizeApplyUrl, P.nfkc_nil, hstrip]
  simp [urlsplit, splitScheme, splitNetloc, partition, checkNetloc, SplitResult.hostname,
    SplitResult.hostinfo, rpartition, canonicalUrlParts, P.lower_nil, parseQsl, urlencode,
    urlunsplit, List.splitOn]

/-- The functions of `hasher.py` and `source_identity.py`. Where the URL parser raises, which it
does not on a `str(HttpUrl)`, the URL is left as it is. -/
def Services.ofSource (P : Python) (sha256 : Str → Digest) : Services where
  text := P.toUnicode
  canonicalizeApplyUrl url := (JobPing.canonicalizeApplyUrl P url).getD url
  canonicalize_empty := by rw [canonicalizeApplyUrl_nil]; rfl
  urlPreference url := (JobPing.urlPreference P url).getD 3
  generateContentHash baseHash applyUrl location isClosed :=
    (JobPing.generateContentHash P sha256 baseHash applyUrl location isClosed).getD baseHash
  stablePostingIdentity source sourceId applyUrl :=
    (JobPing.stablePostingIdentity P source sourceId applyUrl .empty).getD none
  identity_nonempty := fun {source sourceId applyUrl identity} h => by
    cases hid : JobPing.stablePostingIdentity P source sourceId applyUrl .empty with
    | none => simp [hid] at h
    | some i =>
      rw [hid, Option.getD_some] at h
      exact stablePostingIdentity_proper (h ▸ hid)

/-! ## A sample observation -/

def sampleHash (c : Char) (h : (c.isDigit || ('a' ≤ c && c ≤ 'f')) = true) : Digest where
  hex := List.replicate 64 c
  valid := ⟨by simp, by simp [h]⟩

/-- The services over ASCII texts, where no digest is computed. -/
def Services.ascii : Services := .ofSource .ascii fun _ => sampleHash '0' rfl

/-- An open row of a board of Lever. -/
def sampleJob : NormalizedJob where
  companyId := none
  details := none
  companyName := some "Acme".toList
  title := "Software Engineer Intern".toList
  baseHash := sampleHash 'a' rfl
  contentHash := sampleHash 'b' rfl
  applyUrl := "https://jobs.lever.co/acme/1".toList
  location := "Remote".toList
  locationSource := some "lever".toList
  season := 2026
  jobType := .internship
  isClosed := false
  postedAt := none
  observedAt := none
  source := some "lever".toList
  sourceId := some "1".toList
  identityNamespace := none
  externalJobId := none
  occurrenceKind := none

end JobPing
