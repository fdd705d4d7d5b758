import JobPing.Preferences
import JobPing.SourceIdentity

/-!
# URL selection

The fold of `choose_canonical_apply_url` over the links of a job keeps the first of the best by
`_url_preference` (`chooseAll_eq_argmax`). That preference gives the rank of a direct link to every
host that ends in the name of a provider, while `_on_domain` asks for the domain itself or a
subdomain. So the fold keeps the right link exactly where no such look-alike takes over
(`url_selection_iff`).
-/

namespace JobPing

variable (P : Python)

/-- Choose the better URL while retaining a deterministic existing winner; `none` is a `ValueError`
of the URL parser. -/
def chooseCanonicalApplyUrl (currentUrl incomingUrl : Str) : Option Str := do
  let current ← canonicalizeApplyUrl P currentUrl
  let incoming ← canonicalizeApplyUrl P incomingUrl
  if current = [] then return incoming
  if incoming = [] then return current
  let incomingPreference ← urlPreference P incoming
  let currentPreference ← urlPreference P current
  return if currentPreference < incomingPreference then incoming else current

/-- The link that is stored after some observations, from no link on. -/
def chooseAll (urls : List Str) : Option Str := urls.foldlM (chooseCanonicalApplyUrl P) []

/-! ## Ranks -/

/-- The domains whose links are direct. -/
def providerDomains : List String :=
  ["greenhouse.io", "lever.co", "myworkdayjobs.com", "workday.com", "amazon.jobs", "ashbyhq.com"]

/-- The host `_url_preference` looks at. -/
def preferenceHost (url : Str) : Option Str :=
  (urlsplit P url).map fun parts =>
    removeprefix "www.".toList (P.casefold ((parts.hostname P).getD []))

/-- The rank of a link by the rule of `_on_domain`. -/
def domainPreference (url : Str) : Option ℕ :=
  (preferenceHost P url).map fun host =>
    if host ∈ knownRedirectHosts then 1
    else if providerDomains.any (onDomain host) then 4
    else 3

/-- The rank the code gives to a link. -/
def codeRank (url : Str) : ℕ := (urlPreference P url).getD 0

/-- The rank by domains. -/
def domainRank (url : Str) : ℕ := (domainPreference P url).getD 0

/-- The host ends in the name of a provider, but is neither its domain nor a subdomain. -/
def lookAlike (url : Str) : Bool :=
  (preferenceHost P url).any fun host => host ∉ knownRedirectHosts &&
    (providerDomains.any fun domain => domain.toList.isSuffixOf host) &&
    !providerDomains.any (onDomain host)

/-- The host is the domain of a provider or a subdomain. -/
def direct (url : Str) : Bool :=
  (preferenceHost P url).any fun host => host ∉ knownRedirectHosts &&
    providerDomains.any (onDomain host)

/-- The host only redirects. -/
def redirects (url : Str) : Bool := (preferenceHost P url).any (· ∈ knownRedirectHosts)

variable {P} {url : Str} {canonical urls : List Str}

/-- The preference, by the host. -/
theorem urlPreference_eq : urlPreference P url = (preferenceHost P url).map fun host =>
    if host ∈ knownRedirectHosts then 1
    else if providerDomains.any (fun domain => domain.toList.isSuffixOf host) then 4
    else 3 := by
  unfold urlPreference preferenceHost
  cases urlsplit P url with
  | none => rfl
  | some parts =>
    simp only [Option.bind_eq_bind, Option.bind_some, Option.map_some, Option.pure_def,
      providerDomains, List.any_cons, List.any_nil, Bool.or_false]
    split_ifs <;> simp_all

/-- A subdomain ends in the domain. -/
theorem suffix_of_onDomain {host : Str} {domain : String} (h : onDomain host domain = true) :
    domain.toList.isSuffixOf host = true := by
  simp only [onDomain, Bool.or_eq_true, decide_eq_true_eq, List.isSuffixOf_iff_suffix] at h ⊢
  rcases h with rfl | h
  · exact List.suffix_refl _
  · exact (List.suffix_cons _ _).trans h

/-- The two ranks of a link by the kind of its host. -/
theorem ranks_of_host {host : Str} (hhost : preferenceHost P url = some host) :
    (redirects P url = true ∧ domainRank P url = 1 ∧ codeRank P url = 1) ∨
      (redirects P url = false ∧ direct P url = true ∧ lookAlike P url = false ∧
        domainRank P url = 4 ∧ codeRank P url = 4) ∨
      (redirects P url = false ∧ direct P url = false ∧ lookAlike P url = true ∧
        domainRank P url = 3 ∧ codeRank P url = 4) ∨
      (redirects P url = false ∧ direct P url = false ∧ lookAlike P url = false ∧
        domainRank P url = 3 ∧ codeRank P url = 3) := by
  unfold redirects direct lookAlike domainRank codeRank domainPreference
  rw [urlPreference_eq, hhost]
  simp only [Option.map_some, Option.getD_some, Option.any_some]
  by_cases hredirect : host ∈ knownRedirectHosts
  · simp [hredirect]
  · by_cases hdomain : providerDomains.any (onDomain host) = true
    · obtain ⟨domain, hmem, hon⟩ := List.any_eq_true.mp hdomain
      have hsuffix : (providerDomains.any fun domain => domain.toList.isSuffixOf host) = true :=
        List.any_eq_true.mpr ⟨domain, hmem, suffix_of_onDomain hon⟩
      simp [hredirect, hdomain, hsuffix]
    · rw [Bool.not_eq_true] at hdomain
      cases providerDomains.any fun domain => domain.toList.isSuffixOf host with
      | false => simp [hredirect, hdomain]
      | true => simp [hredirect, hdomain]

/-- A link without a host has no rank. -/
theorem ranks_of_none (hhost : preferenceHost P url = none) :
    lookAlike P url = false ∧ domainRank P url = 0 ∧ codeRank P url = 0 := by
  unfold lookAlike domainRank codeRank domainPreference
  rw [urlPreference_eq, hhost]
  exact ⟨rfl, rfl, rfl⟩

theorem codeRank_le (url : Str) : codeRank P url ≤ 4 := by
  cases hhost : preferenceHost P url with
  | none =>
    have := (ranks_of_none hhost).2.2
    omega
  | some host => rcases ranks_of_host hhost with h | h | h | h <;> omega

/-- The code ranks a link as its domain does, or a look-alike at the top instead of right below. -/
theorem domainRank_cases (url : Str) : domainRank P url = codeRank P url ∨
    codeRank P url = 4 ∧ domainRank P url + 1 = 4 := by
  cases hhost : preferenceHost P url with
  | none =>
    have := ranks_of_none hhost
    omega
  | some host => rcases ranks_of_host hhost with h | h | h | h <;> omega

/-! ## The fold -/

/-- A link as it is stored: canonical, not empty, with a rank. -/
structure Accepted (P : Python) (url : Str) : Prop where
  canonical : canonicalizeApplyUrl P url = some url
  nonempty : url ≠ []
  ranked : (urlPreference P url).isSome = true

theorem choose_of_accepted {current incoming incomingUrl : Str} (hcurrent : Accepted P current)
    (hcanonical : canonicalizeApplyUrl P incomingUrl = some incoming)
    (hincoming : Accepted P incoming) : chooseCanonicalApplyUrl P current incomingUrl =
      some (if codeRank P current < codeRank P incoming then incoming else current) := by
  obtain ⟨rank, hrank⟩ := Option.isSome_iff_exists.mp hcurrent.ranked
  obtain ⟨rank', hrank'⟩ := Option.isSome_iff_exists.mp hincoming.ranked
  simp [chooseCanonicalApplyUrl, hcurrent.canonical, hcanonical, hcurrent.nonempty,
    hincoming.nonempty, hrank, hrank', codeRank]

theorem choose_nil_of_canonical {incoming incomingUrl : Str}
    (hcanonical : canonicalizeApplyUrl P incomingUrl = some incoming) :
    chooseCanonicalApplyUrl P [] incomingUrl = some incoming := by
  simp [chooseCanonicalApplyUrl, canonicalizeApplyUrl_nil, hcanonical]

/-- **The fold keeps the first of the best**, by the ranks of the code. -/
theorem chooseAll_eq_argmax
    (hcanonical : urls.map (canonicalizeApplyUrl P) = canonical.map some)
    (haccepted : ∀ c ∈ canonical, Accepted P c) :
    chooseAll P urls = some ((canonical.argmax (codeRank P)).getD []) := by
  induction urls using List.reverseRecOn generalizing canonical with
  | nil =>
    obtain rfl := List.map_eq_nil_iff.mp hcanonical.symm
    rfl
  | append_singleton urls url ih =>
    rw [List.map_append] at hcanonical
    obtain ⟨before, last, rfl, hbefore, hlast⟩ := List.map_eq_append_iff.mp hcanonical.symm
    obtain ⟨c, rfl, hc⟩ := List.map_eq_singleton_iff.mp hlast
    have hall : ∀ c ∈ before, Accepted P c := fun c hc => haccepted c (List.mem_append_left _ hc)
    have hlast : Accepted P c := haccepted c (List.mem_append_right _ List.mem_cons_self)
    have hfold := ih hbefore.symm hall
    unfold chooseAll at hfold ⊢
    rw [List.foldlM_append, hfold, List.argmax_concat]
    cases hwinner : before.argmax (codeRank P) with
    | none => simpa using choose_nil_of_canonical hc.symm
    | some winner =>
      have hstep := choose_of_accepted (hall winner (List.argmax_mem hwinner)) hc.symm hlast
      simp only [Option.bind_eq_bind, Option.bind_some, Option.getD_some, List.foldlM_cons,
        List.foldlM_nil, hstep]
      split_ifs <;> rfl

/-! ## Look-alikes -/

/-- No look-alike takes over: each stands behind a direct link or another look-alike, or no link is
direct and only redirecting ones stand before it. -/
def LookAlikesLose (P : Python) (urls : List Str) : Prop :=
  ∀ before url after, urls = before ++ url :: after → lookAlike P url = true →
    (∃ other ∈ before, direct P other = true ∨ lookAlike P other = true) ∨
      (∀ other ∈ urls, direct P other = false) ∧ ∀ other ∈ before, redirects P other = true

theorem host_of_accepted (h : Accepted P url) : ∃ host, preferenceHost P url = some host := by
  obtain ⟨rank, hrank⟩ := Option.isSome_iff_exists.mp h.ranked
  rw [urlPreference_eq] at hrank
  obtain ⟨host, hhost, -⟩ := Option.map_eq_some_iff.mp hrank
  exact ⟨host, hhost⟩

/-- What the ranks of an accepted link say of its host. -/
theorem ranks_of_accepted (h : Accepted P url) :
    (domainRank P url ≠ codeRank P url ↔ lookAlike P url = true) ∧
      (codeRank P url = 4 ↔ direct P url = true ∨ lookAlike P url = true) ∧
      (domainRank P url ≠ 4 ↔ direct P url = false) ∧
      (domainRank P url + 1 < 4 ↔ redirects P url = true) := by
  obtain ⟨host, hhost⟩ := host_of_accepted h
  have hredirecting : redirects P url = true → direct P url = false ∧ lookAlike P url = false := by
    unfold redirects direct lookAlike
    rw [hhost]
    simp only [Option.any_some, decide_eq_true_eq]
    intro hmem
    simp [hmem]
  rcases ranks_of_host hhost with ⟨hr, h₁, h₂⟩ | ⟨hr, hd, hl, h₁, h₂⟩ | ⟨hr, hd, hl, h₁, h₂⟩ |
    ⟨hr, hd, hl, h₁, h₂⟩
  · obtain ⟨hd, hl⟩ := hredirecting hr
    simp [hr, hd, hl, h₁, h₂]
  all_goals simp [hr, hd, hl, h₁, h₂]

/-- **URL selection.** For the links of a job that are accepted, the fold keeps the first of those
of the highest rank by domains exactly where no look-alike takes over. -/
theorem url_selection_iff (P : Python) (urls canonical : List Str) (hne : urls ≠ [])
    (hcanonical : urls.map (canonicalizeApplyUrl P) = canonical.map some)
    (haccepted : ∀ c ∈ canonical, Accepted P c) :
    (∃ winner, canonical.argmax (domainRank P) = some winner ∧
      chooseAll P urls = some winner) ↔ LookAlikesLose P canonical := by
  have hcanonical_ne : canonical ≠ [] := by
    rintro rfl
    exact hne (List.map_eq_nil_iff.mp hcanonical)
  obtain ⟨chosen, hchosen⟩ : ∃ chosen, canonical.argmax (codeRank P) = some chosen :=
    Option.ne_none_iff_exists'.mp fun hnone => hcanonical_ne (List.argmax_eq_none.mp hnone)
  have hfold : chooseAll P urls = some chosen := by
    rw [chooseAll_eq_argmax hcanonical haccepted, hchosen, Option.getD_some]
  have hwinner : (∃ winner, canonical.argmax (domainRank P) = some winner ∧
      chooseAll P urls = some winner) ↔ canonical.argmax (domainRank P) = some chosen := by
    constructor
    · rintro ⟨winner, hargmax, hsame⟩
      rw [hargmax, ← hsame, hfold]
    · intro h
      exact ⟨chosen, h, hfold⟩
  rw [hwinner, argmax_raised_iff codeRank_le domainRank_cases hchosen]
  refine forall₃_congr fun before url after => forall_congr' fun hsplit => ?_
  have hbefore : ∀ other ∈ before, Accepted P other := fun other hother =>
    haccepted other (hsplit ▸ List.mem_append_left _ hother)
  have hurl : Accepted P url :=
    haccepted url (hsplit ▸ List.mem_append_right _ List.mem_cons_self)
  refine imp_congr (ranks_of_accepted hurl).1 (or_congr ?_ (and_congr ?_ ?_))
  · exact exists_congr fun other => and_congr_right fun hother =>
      (ranks_of_accepted (hbefore other hother)).2.1
  · exact forall₂_congr fun other hother => (ranks_of_accepted (haccepted other hother)).2.2.1
  · exact forall₂_congr fun other hother => (ranks_of_accepted (hbefore other hother)).2.2.2

/-- The links of a job that a redirect, an employer and a look-alike of a provider report. -/
def sampleLinks : List Str :=
  ["https://simplify.jobs/p/1", "https://acme.com/jobs/1", "https://evilgreenhouse.io/jobs/1"].map
    String.toList

theorem sampleLinks_accepted : ∀ url ∈ sampleLinks, Accepted .ascii url := by
  have hall : sampleLinks.all (fun url => canonicalizeApplyUrl .ascii url = some url &&
      url ≠ [] && (urlPreference .ascii url).isSome) = true := by decide +kernel
  intro url hurl
  have h := List.all_eq_true.mp hall url hurl
  simp only [Bool.and_eq_true, decide_eq_true_eq] at h
  exact ⟨h.1.1, h.1.2, h.2⟩

/-- The look-alike takes the place of the link of the employer. -/
theorem look_alike_wins :
    sampleLinks.map (canonicalizeApplyUrl .ascii) = sampleLinks.map some ∧
      (∀ url ∈ sampleLinks, Accepted .ascii url) ∧
      sampleLinks.argmax (domainRank .ascii) = some "https://acme.com/jobs/1".toList ∧
      chooseAll .ascii sampleLinks = some "https://evilgreenhouse.io/jobs/1".toList := by
  exact ⟨by decide +kernel, sampleLinks_accepted, by decide +kernel, by decide +kernel⟩

/-- Without the look-alike the employer's link is kept. -/
theorem employer_link_kept :
    chooseAll .ascii (sampleLinks.take 2) = some "https://acme.com/jobs/1".toList := by
  have hlose : LookAlikesLose .ascii (sampleLinks.take 2) := by
    intro before url after hsplit hlook
    have hnone : ∀ url ∈ sampleLinks.take 2, lookAlike .ascii url = false := by decide +kernel
    have hmem : url ∈ sampleLinks.take 2 := hsplit ▸ List.mem_append_right _ List.mem_cons_self
    exact absurd hlook (by simp [hnone url hmem])
  obtain ⟨winner, hwinner, hfold⟩ := (url_selection_iff .ascii (sampleLinks.take 2)
    (sampleLinks.take 2) (by decide) (by decide +kernel)
    fun url hurl => sampleLinks_accepted url (List.mem_of_mem_take hurl)).mpr hlose
  have hemployer : (sampleLinks.take 2).argmax (domainRank .ascii) =
      some "https://acme.com/jobs/1".toList := by decide +kernel
  rw [hfold, ← hwinner, hemployer]

end JobPing
