import JobPing.Services
import JobPing.UrlParse
import Mathlib.Data.List.DropRight

/-!
# Identity hashing and URL selection

`app/services/hasher.py`. `none` stands for a `ValueError` of the URL parser, which does not occur
on a `str(HttpUrl)`; SHA-256 is a parameter.
-/

namespace JobPing

variable (P : Python)

/-! ## Tables -/

def trackingParameterNames : List Str :=
  ["fbclid", "gclid", "mc_cid", "mc_eid", "msclkid", "referrer", "yclid"].map String.toList

def trackingParameterPrefixes : List Str := ["utm_".toList]

def atsHostAliases : List (Str × Str) :=
  [("boards.greenhouse.io".toList, "job-boards.greenhouse.io".toList),
    ("job-boards.greenhouse.io".toList, "job-boards.greenhouse.io".toList),
    ("jobs.eu.lever.co".toList, "jobs.lever.co".toList),
    ("jobs.lever.co".toList, "jobs.lever.co".toList)]

def knownRedirectHosts : List Str :=
  ["applyguy.ai", "www.applyguy.ai", "simplify.jobs", "www.simplify.jobs"].map String.toList

/-! ## Identity fields -/

/-- `[^\w\s]`, and `_`. -/
def isSpecial (c : Char) : Bool := !P.isAlnum c && !P.isSpace c

/-- Runs of white space become one blank, as `\s+` is replaced, and the ends are stripped. -/
def normalizeIdentityField (value : Str) : Str :=
  P.squeeze ((P.strip (P.casefold (P.nfkc value))).map fun c => if isSpecial P c then ' ' else c)

/-- `f"{len(field)}:{field}"`. -/
def lengthPrefixed (field : Str) : Str := Nat.toDigits 10 field.length ++ ':' :: field

/-- The text of an identity: the normalized fields, each with its length. -/
def identityText (companyName jobTitle : Str) : Str :=
  lengthPrefixed (normalizeIdentityField P companyName) ++
    lengthPrefixed (normalizeIdentityField P jobTitle)

/-- Generate the SHA-256 identity digest for a company and job title. -/
def generateBaseHash (sha256 : Str → Digest) (companyName jobTitle : Str) : Digest :=
  sha256 (lengthPrefixed (normalizeIdentityField P companyName) ++
    lengthPrefixed (normalizeIdentityField P jobTitle))

/-! ## Application URLs -/

/-- A query key that does not identify a different application. -/
def isTrackingParameter (key : Str) : Bool :=
  P.casefold key ∈ trackingParameterNames ||
    trackingParameterPrefixes.any fun start => start.isPrefixOf (P.casefold key)

/-- Return normalized URL parts while removing only known tracking keys. -/
def canonicalUrlParts (parts : SplitResult) (netloc : Option Str) : SplitResult where
  scheme := P.lower parts.scheme
  netloc := netloc.getD parts.netloc
  path :=
    let path := parts.path.rdropWhile (· = '/')
    if path ≠ [] then path else if parts.path ≠ [] then ['/'] else []
  query := urlencode ((parseQsl true parts.query).filter fun pair => !isTrackingParameter P pair.1)
  fragment := parts.fragment

/-- The user information of a network location, with its `@`. -/
def canonicalUserInfo (parts : SplitResult) : Str :=
  match parts.userinfo with
  | (some username, password) =>
    username ++ (match password with | some password => ':' :: password | none => []) ++ ['@']
  | (none, _) => []

/-- The host of a network location, aliases folded. -/
def canonicalHost (hostname : Str) : Str :=
  let host := (atsHostAliases.lookup (P.lower hostname)).getD (P.lower hostname)
  if host.contains ':' then '[' :: host ++ [']'] else host

/-- Canonicalize an application URL without discarding application state. -/
def canonicalizeApplyUrl (applyUrl : Str) : Option Str := do
  let parts ← urlsplit P (P.strip (P.nfkc applyUrl))
  match parts.hostname P with
  | none => return urlunsplit (canonicalUrlParts P parts none)
  | some hostname =>
    let port ← parts.port
    let netloc := canonicalUserInfo parts ++ canonicalHost P hostname ++
      (match port with | some port => ':' :: Nat.toDigits 10 port | none => [])
    return urlunsplit (canonicalUrlParts P parts (some netloc))

/-- Rank URLs from direct ATS/employer links to source redirects. -/
def urlPreference (applyUrl : Str) : Option ℕ := do
  let parts ← urlsplit P applyUrl
  let host := removeprefix "www.".toList (P.casefold ((parts.hostname P).getD []))
  let endsWith (domain : String) : Bool := domain.toList.isSuffixOf host
  return if host ∈ knownRedirectHosts then 1
    else if endsWith "greenhouse.io" || endsWith "lever.co" then 4
    else if endsWith "myworkdayjobs.com" || endsWith "workday.com" then 4
    else if endsWith "amazon.jobs" || endsWith "ashbyhq.com" then 4
    else 3

/-- Normalize human-readable location text while preserving punctuation. -/
def normalizeLocation (location : Str) : Str :=
  P.squeeze (P.strip (P.casefold (P.nfkc location)))

/-- Generate a SHA-256 digest representing a job posting's current state. A base hash is a digest,
hence canonical. -/
def generateContentHash (sha256 : Str → Digest) (baseHash : Digest) (applyUrl location : Str)
    (isClosed : Bool) : Option Digest := do
  let canonicalUrl ← canonicalizeApplyUrl P applyUrl
  let fields := [baseHash.hex, canonicalUrl, normalizeLocation P location,
    if isClosed then "true".toList else "false".toList]
  return sha256 (fields.flatMap lengthPrefixed)

/-- Validate and canonicalize a hexadecimal SHA-256 digest; `none` is the `ValueError`. -/
def canonicalizeBaseHash (baseHash : Str) : Option Str :=
  let canonicalHash := P.lower (P.strip baseHash)
  if canonicalHash.length = 64 ∧ canonicalHash.all fun c => (hexValue c).isSome then
    some canonicalHash
  else none

/-- The text of a state, with any text as base hash. -/
def contentState (baseHash applyUrl location : Str) (isClosed : Bool) : Option Str := do
  let canonicalHash ← canonicalizeBaseHash P baseHash
  let canonicalUrl ← canonicalizeApplyUrl P applyUrl
  let fields := [canonicalHash, canonicalUrl, normalizeLocation P location,
    if isClosed then "true".toList else "false".toList]
  return fields.flatMap lengthPrefixed

/-- `generate_content_hash`, with any text as base hash. -/
def generateContentHashOfText (sha256 : Str → Digest) (baseHash applyUrl location : Str)
    (isClosed : Bool) : Option Digest :=
  (contentState P baseHash applyUrl location isClosed).map sha256

end JobPing
