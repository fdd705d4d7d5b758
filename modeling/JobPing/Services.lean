import JobPing.Schema

/-!
# The URL and identity services

The lifecycle code consults `app/services/hasher.py` and `app/services/source_identity.py` through
a few pure functions. `Services` collects them with the facts about them that the lifecycle
relies on, so that the development above holds for any such functions;
`choose_canonical_apply_url` and `trustworthy_posting_date_source` are built from them.
-/

namespace JobPing

/-- The pure functions behind URL selection, content hashing and posting identity. -/
structure Services where
  text : Unicode
  canonicalizeApplyUrl : Str → Str
  canonicalize_empty : canonicalizeApplyUrl [] = []
  /-- `_url_preference`. -/
  urlPreference : Str → ℕ
  /-- `generate_content_hash(base_hash, apply_url, location, is_closed)`. -/
  generateContentHash : Digest → Str → Str → Bool → Digest
  /-- `stable_posting_identity(source=, source_id=, apply_url=, payload={})`. -/
  stablePostingIdentity : Option Str → Option Str → Str → Option Identity
  identity_nonempty : ∀ {source sourceId applyUrl identity},
    stablePostingIdentity source sourceId applyUrl = some identity →
      identity.1 ≠ [] ∧ identity.2 ≠ []

namespace Services

variable (S : Services)

/-- Choose the better URL while retaining a deterministic existing winner. -/
def chooseCanonicalApplyUrl (currentUrl incomingUrl : Str) : Str :=
  let current := S.canonicalizeApplyUrl currentUrl
  let incoming := S.canonicalizeApplyUrl incomingUrl
  if current = [] then incoming
  else if incoming = [] then current
  else if S.urlPreference current < S.urlPreference incoming then incoming
  else current

@[simp] theorem choose_nil (incomingUrl : Str) :
    S.chooseCanonicalApplyUrl [] incomingUrl = S.canonicalizeApplyUrl incomingUrl := by
  simp [chooseCanonicalApplyUrl, S.canonicalize_empty]

/-- A URL is canonical when canonicalisation leaves it alone. -/
def Canonical (url : Str) : Prop := S.canonicalizeApplyUrl url = url

variable {S}

theorem choose_self {url : Str} (h : S.Canonical url) :
    S.chooseCanonicalApplyUrl url url = url := by
  unfold Canonical at h
  simp only [chooseCanonicalApplyUrl, h]
  split_ifs <;> rfl

/-- The chosen URL is the canonical form of one of the two. -/
theorem choose_eq_or (currentUrl incomingUrl : Str) :
    S.chooseCanonicalApplyUrl currentUrl incomingUrl = S.canonicalizeApplyUrl currentUrl ∨
      S.chooseCanonicalApplyUrl currentUrl incomingUrl =
        S.canonicalizeApplyUrl incomingUrl := by
  simp only [chooseCanonicalApplyUrl]
  split_ifs <;> simp

/-- **Choosing again keeps the choice**: the incoming URL does not beat the winner it was
compared with. -/
theorem choose_choose {currentUrl incomingUrl : Str}
    (hc : S.Canonical (S.canonicalizeApplyUrl currentUrl))
    (hi : S.Canonical (S.canonicalizeApplyUrl incomingUrl)) :
    S.chooseCanonicalApplyUrl (S.chooseCanonicalApplyUrl currentUrl incomingUrl)
        incomingUrl = S.chooseCanonicalApplyUrl currentUrl incomingUrl := by
  unfold Canonical at hc hi
  simp only [chooseCanonicalApplyUrl]
  split_ifs <;> (simp_all; try omega)

/-- The sources whose dates may authorise the URL and date fallback. -/
def trustworthyPostingDateSource (source : Str) : Bool :=
  S.text.casefold (S.text.strip source) ∈
    ["greenhouse".toList, "lever".toList, "workday".toList, "ashby".toList, "amazon".toList,
      "meta".toList]

end Services

end JobPing
