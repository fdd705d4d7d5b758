import JobPing.Dict
import JobPing.Interleaving
import JobPing.TokenBuckets
import JobPing.UrlParse
import Mathlib.Data.List.DropRight
import Mathlib.Data.Rat.Floor

/-!
# Outbound rates

`DomainRateLimiter` of `app/utils/rate_limiter.py`: the buckets are in a table of bounded size, the
least recently looked up one goes first, and a waiter keeps the bucket it has found. A domain whose
bucket has gone gets a full one. While every bucket of the domain made before would be full by then,
and no waiter holds one, the buckets of the domain account for its grants as one (`Inv`), which
bounds what is granted in any interval (`domain_rate`); otherwise both are drawn on
(`evicted_burst`).
-/

namespace JobPing

/-! ## Model -/

/-- `RateLimit`, with the check of `__post_init__`. -/
structure RateLimit extends TokenLimit ℚ where
  one_le_capacity : 1 ≤ capacity

/-- `RateLimit(rate, capacity)`. -/
def RateLimit.of (rate capacity : ℚ) (hrate : 0 < rate) (hcapacity : 1 ≤ capacity) : RateLimit :=
  ⟨⟨rate, capacity, hrate, zero_le_one.trans hcapacity⟩, hcapacity⟩

/-- `_normalize_domain`; `none` stands for a `ValueError`. -/
def normalizeDomain (P : Python) (value : Str) : Option Str :=
  let candidate := P.lower (P.strip value)
  if candidate = [] then none
  else
    let url := if "://".toList <:+: candidate then candidate else "//".toList ++ candidate
    ((urlsplit P url).bind fun parsed => parsed.hostname P).map fun hostname =>
      hostname.rdropWhile (· = '.')

/-- `DomainRateLimiter`, with the check of `__init__`; the keys of `domains` are normalized. -/
structure DomainRateLimiter where
  default : RateLimit
  domains : List (Str × RateLimit)
  maxDomains : ℕ
  maxDomains_pos : 1 ≤ maxDomains

namespace DomainRateLimiter

variable (P : Python) (limiter : DomainRateLimiter)

/-- `DomainRateLimiter(default, domains=domains, max_domains=max_domains)`. -/
def create (default : RateLimit) (domains : List (Str × RateLimit)) (maxDomains : ℕ) :
    Option DomainRateLimiter :=
  if h : 1 ≤ maxDomains then
    (domains.mapM fun item => (normalizeDomain P item.1).map fun key => (key, item.2)).map
      fun items => ⟨default, Dict.ofList items, maxDomains, h⟩
  else none

/-- `self.domains.get(domain, self.default)`. -/
def limit (domain : Str) : RateLimit := (Dict.get? domain limiter.domains).getD limiter.default

end DomainRateLimiter

/-- How far a call of `acquire` has come. -/
inductive AcquirePhase
  | looking
  | waiting (bucket : ℕ)
  | granted
  | cancelled
  deriving DecidableEq

/-- A call of `acquire`. -/
structure Acquire where
  domain : Str
  tokens : ℚ
  phase : AcquirePhase

/-- The limiter: the buckets in the order in which they were made, with their domains, the table
from the least recently looked up, and the calls; then what was granted, the latest first. -/
structure RateState where
  buckets : List (Str × TokenBucket ℚ)
  table : List (Str × ℕ)
  calls : List Acquire
  clock : ℚ
  granted : List (Str × ℚ × ℚ)

/-- What happens next. A waiter may wake at any time. -/
inductive AcquireAction
  | acquire (urlOrDomain : Str) (tokens : ℚ)
  | lookup (call : ℕ)
  | update (call : ℕ)
  | cancel (call : ℕ)

/-- The call that looks its bucket up. -/
def AcquireAction.looking : AcquireAction → Option ℕ
  | lookup call => some call
  | _ => none

namespace RateState

variable (P : Python) (limiter : DomainRateLimiter)

def start (clock : ℚ) : RateState := ⟨[], [], [], clock, []⟩

/-- The grants of a domain. -/
def grants (s : RateState) (domain : Str) : List (ℚ × ℚ) :=
  (s.granted.filter (·.1 = domain)).map (·.2)

/-- The start of `acquire`; a call that raises changes nothing. -/
def acquire (urlOrDomain : Str) (tokens : ℚ) (s : RateState) : RateState :=
  if tokens ≤ 0 then s
  else
    match normalizeDomain P urlOrDomain with
    | none => s
    | some domain =>
      if (limiter.limit domain).capacity < tokens then s
      else { s with calls := s.calls ++ [⟨domain, tokens, .looking⟩] }

/-- The table with room for one more bucket. -/
def trimmed (s : RateState) : List (Str × ℕ) :=
  if limiter.maxDomains ≤ s.table.length then s.table.tail else s.table

/-- `_bucket`, for a call. -/
def lookup (call : ℕ) (request : Acquire) (s : RateState) : RateState :=
  match Dict.get? request.domain s.table with
  | some bucket =>
    { s with
      table := s.table.filter (·.1 ≠ request.domain) ++ [(request.domain, bucket)]
      calls := s.calls.set call { request with phase := .waiting bucket } }
  | none =>
    { s with
      buckets := s.buckets ++
        [(request.domain, .full (limiter.limit request.domain).toTokenLimit s.clock)]
      table := s.trimmed limiter ++ [(request.domain, s.buckets.length)]
      calls := s.calls.set call { request with phase := .waiting s.buckets.length } }

/-- What a waiter does while it has the lock of its bucket. -/
def update (call : ℕ) (request : Acquire) (bucket : ℕ) (found : TokenBucket ℚ) (s : RateState) :
    RateState :=
  let refilled := found.refill (limiter.limit request.domain).toTokenLimit s.clock
  if request.tokens ≤ refilled.tokens then
    { s with
      buckets := s.buckets.set bucket (request.domain, refilled.take request.tokens)
      calls := s.calls.set call { request with phase := .granted }
      granted := (request.domain, s.clock, request.tokens) :: s.granted }
  else { s with buckets := s.buckets.set bucket (request.domain, refilled) }

/-- A step at a time. -/
def step (action : ℚ × AcquireAction) (s : RateState) : Option RateState :=
  if action.1 < s.clock then none
  else
    let s : RateState := { s with clock := action.1 }
    match action.2 with
    | .acquire urlOrDomain tokens => some (s.acquire P limiter urlOrDomain tokens)
    | .lookup call =>
      match s.calls[call]? with
      | some ⟨domain, tokens, .looking⟩ => some (s.lookup limiter call ⟨domain, tokens, .looking⟩)
      | _ => none
    | .update call =>
      match s.calls[call]? with
      | some ⟨domain, tokens, .waiting bucket⟩ =>
        (s.buckets[bucket]?).map fun found =>
          s.update limiter call ⟨domain, tokens, .waiting bucket⟩ bucket found.2
      | _ => none
    | .cancel call =>
      (s.calls[call]?).map fun request =>
        { s with calls := s.calls.set call { request with phase := .cancelled } }

/-- The state after some steps. -/
def run (clock : ℚ) (actions : List (ℚ × AcquireAction)) : Option RateState :=
  Interleaving.run (step P limiter) (start clock) actions

/-- At a time a new bucket of a domain may take the place of those made before: no waiter holds one
of them, and they would be full. -/
def Renewable (s : RateState) (domain : Str) (now : ℚ) : Prop :=
  ∀ (bucket : ℕ) found, s.buckets[bucket]? = some (domain, found) →
    (∀ request ∈ s.calls, request.phase ≠ .waiting bucket) ∧
      (limiter.limit domain).capacity ≤
        (found.refill (limiter.limit domain).toTokenLimit now).tokens

/-- A step makes a new bucket of a domain only where it may. -/
def Renews (s : RateState) (action : ℚ × AcquireAction) : Prop :=
  ∀ call domain tokens, action.2 = .lookup call → s.calls[call]? = some ⟨domain, tokens, .looking⟩ →
    Dict.get? domain s.table = none → s.Renewable limiter domain action.1

/-! ## The invariant -/

/-- A domain has no bucket yet, or one that accounts for its grants: the others are not drawn on. -/
def Metered (s : RateState) (domain : Str) : Prop :=
  ((∀ (bucket : ℕ) found, s.buckets[bucket]? ≠ some (domain, found)) ∧ s.grants domain = []) ∨
    ∃ (bucket : ℕ) (found : _), s.buckets[bucket]? = some (domain, found) ∧
      found.updatedAt ≤ s.clock ∧
      found.Accounts (limiter.limit domain).toTokenLimit (s.grants domain) ∧
      (∀ other, (domain, other) ∈ s.table → other = bucket) ∧
      ∀ request ∈ s.calls, request.domain = domain → ∀ other, request.phase = .waiting other →
        other = bucket

structure Inv (s : RateState) : Prop where
  /-- The table has buckets of its domains. -/
  table : ∀ domain bucket, (domain, bucket) ∈ s.table →
    ∃ found, s.buckets[bucket]? = some (domain, found)
  /-- So have the waiters. -/
  held : ∀ request ∈ s.calls, ∀ bucket, request.phase = .waiting bucket →
    ∃ found, s.buckets[bucket]? = some (request.domain, found)
  positive : ∀ request ∈ s.calls, 0 < request.tokens
  metered : ∀ domain, s.Metered limiter domain

variable {P limiter} {s s' : RateState} {call bucket : ℕ} {request : Acquire} {domain : Str}
  {found : TokenBucket ℚ}

theorem inv_start (clock : ℚ) : (start clock).Inv limiter where
  table _ _ h := by cases h
  held _ h := by cases h
  positive _ h := by cases h
  metered _ := .inl ⟨fun _ _ h => (by cases h), rfl⟩

theorem renewable_iff {now : ℚ} : s.Renewable limiter domain now ↔
    ∀ bucket < s.buckets.length, ∀ entry ∈ s.buckets[bucket]?, entry.1 = domain →
      (∀ request ∈ s.calls, request.phase ≠ .waiting bucket) ∧
        (limiter.limit domain).capacity ≤
          (entry.2.refill (limiter.limit domain).toTokenLimit now).tokens := by
  unfold Renewable
  constructor
  · intro hall bucket _ entry hentry hdomain
    refine hall bucket entry.2 ?_
    rw [← hdomain]
    exact hentry
  · intro hall bucket found hfound
    exact hall bucket (List.getElem?_eq_some_iff.mp hfound).1 (domain, found) hfound rfl

instance (s : RateState) (domain : Str) (now : ℚ) : Decidable (s.Renewable limiter domain now) :=
  decidable_of_iff' _ renewable_iff

instance (s : RateState) (action : ℚ × AcquireAction) : Decidable (s.Renews limiter action) :=
  decidable_of_iff (∀ call ∈ action.2.looking, ∀ request ∈ s.calls[call]?,
      request.phase = .looking → Dict.get? request.domain s.table = none →
        s.Renewable limiter request.domain action.1) <| by
    constructor
    · intro hall call domain tokens hlookup hcall hget
      exact hall call (by rw [hlookup]; rfl) _ hcall rfl hget
    · rintro hall call hcall ⟨domain, tokens, phase⟩ hrequest rfl hget
      refine hall call domain tokens ?_ hrequest hget
      unfold AcquireAction.looking at hcall
      split at hcall
      next haction =>
        obtain rfl := Option.some.inj hcall
        exact haction
      · cases hcall

/-- What other domains do does not change the account of a domain. -/
theorem Metered.frame (h : s.Metered limiter domain)
    (hbuckets : ∀ (i : ℕ) found,
      s'.buckets[i]? = some (domain, found) ↔ s.buckets[i]? = some (domain, found))
    (htable : ∀ other, (domain, other) ∈ s'.table → (domain, other) ∈ s.table)
    (hcalls : ∀ request ∈ s'.calls, request.domain = domain → ∀ other,
      request.phase = .waiting other → request ∈ s.calls)
    (hclock : s.clock ≤ s'.clock) (hgrants : s'.grants domain = s.grants domain) :
    s'.Metered limiter domain := by
  rcases h with ⟨hnone, hempty⟩ | ⟨bucket, found, hfound, hpast, haccounts, hold, hheld⟩
  · exact .inl ⟨fun i f hf => hnone i f ((hbuckets i f).mp hf), hgrants.trans hempty⟩
  · refine .inr ⟨bucket, found, (hbuckets bucket found).mpr hfound, hpast.trans hclock, ?_,
      fun other hother => hold other (htable other hother), ?_⟩
    · rw [hgrants]
      exact haccounts
    · intro request hrequest hdomain other hother
      exact hheld request (hcalls request hrequest hdomain other hother) hdomain other hother

/-- Time passes. -/
theorem Inv.wait (h : s.Inv limiter) {now : ℚ} (hnow : s.clock ≤ now) :
    Inv limiter { s with clock := now } where
  table := h.table
  held := h.held
  positive := h.positive
  metered domain := (h.metered domain).frame (fun _ _ => Iff.rfl) (fun _ h => h)
    (fun _ h _ _ _ => h) hnow rfl

/-- A new call waits for nothing yet. -/
theorem Inv.acquire (h : s.Inv limiter) (urlOrDomain : Str) (tokens : ℚ) :
    (s.acquire P limiter urlOrDomain tokens).Inv limiter := by
  unfold RateState.acquire
  split_ifs with hpositive
  · exact h
  split
  · exact h
  next domain _ =>
    split_ifs with hcapacity
    · exact h
    have hmem : ∀ request ∈ s.calls ++ [⟨domain, tokens, .looking⟩],
        request ∈ s.calls ∨ request = ⟨domain, tokens, .looking⟩ := fun request hrequest => by
      simpa using hrequest
    refine ⟨h.table, fun request hrequest bucket hwaiting => ?_, fun request hrequest => ?_,
      fun other => (h.metered other).frame (fun _ _ => Iff.rfl) (fun _ h => h) ?_ le_rfl rfl⟩
    · rcases hmem request hrequest with hold | rfl
      · exact h.held request hold bucket hwaiting
      · cases hwaiting
    · rcases hmem request hrequest with hold | rfl
      · exact h.positive request hold
      · exact not_le.mp hpositive
    · intro request hrequest _ bucket hwaiting
      rcases hmem request hrequest with hold | rfl
      · exact hold
      · cases hwaiting

/-- A call that is cancelled waits for nothing. -/
theorem Inv.cancel (h : s.Inv limiter) (hrequest : request ∈ s.calls) :
    Inv limiter { s with calls := s.calls.set call { request with phase := .cancelled } } where
  table := h.table
  held other hother bucket hwaiting := by
    rcases List.mem_or_eq_of_mem_set hother with hother | rfl
    · exact h.held other hother bucket hwaiting
    · cases hwaiting
  positive other hother := by
    rcases List.mem_or_eq_of_mem_set hother with hother | rfl
    · exact h.positive other hother
    · exact h.positive request hrequest
  metered domain := by
    refine (h.metered domain).frame (fun _ _ => Iff.rfl) (fun _ h => h) ?_ le_rfl rfl
    intro other hother _ bucket hwaiting
    rcases List.mem_or_eq_of_mem_set hother with hother | rfl
    · exact hother
    · cases hwaiting

/-! ### Looking a bucket up -/

theorem mem_table_of_get? (h : Dict.get? domain s.table = some bucket) :
    (domain, bucket) ∈ s.table := by
  obtain ⟨item, hitem, rfl⟩ := Option.map_eq_some_iff.mp h
  have hkey : item.1 = domain := by simpa using List.find?_some hitem
  rw [← hkey]
  exact List.mem_of_find?_eq_some hitem

/-- A call that has found the bucket of its domain waits for it. -/
theorem Inv.lookup_found (h : s.Inv limiter) (hrequest : request ∈ s.calls)
    (hget : Dict.get? request.domain s.table = some bucket) :
    (s.lookup limiter call request).Inv limiter := by
  have hentry := mem_table_of_get? hget
  have htable : ∀ domain other,
      (domain, other) ∈ s.table.filter (·.1 ≠ request.domain) ++ [(request.domain, bucket)] →
        (domain, other) ∈ s.table := by
    intro domain other hmem
    rcases List.mem_append.mp hmem with hmem | hmem
    · exact List.mem_of_mem_filter hmem
    · rw [List.mem_singleton.mp hmem]
      exact hentry
  rw [RateState.lookup, hget]
  dsimp only
  refine ⟨fun domain other hmem => h.table domain other (htable domain other hmem), ?_, ?_, ?_⟩
  · intro other hother i hwaiting
    rcases List.mem_or_eq_of_mem_set hother with hother | rfl
    · exact h.held other hother i hwaiting
    · cases hwaiting
      exact h.table request.domain bucket hentry
  · intro other hother
    rcases List.mem_or_eq_of_mem_set hother with hother | rfl
    · exact h.positive other hother
    · exact h.positive request hrequest
  · intro domain
    by_cases hdomain : domain = request.domain
    · subst hdomain
      rcases h.metered request.domain with ⟨hnone, -⟩ | ⟨live, found, hfound, hpast, haccounts,
        hold, hheld⟩
      · obtain ⟨found, hfound⟩ := h.table request.domain bucket hentry
        exact absurd hfound (hnone bucket found)
      · refine .inr ⟨live, found, hfound, hpast, haccounts,
          fun other hother => hold other (htable _ other hother), ?_⟩
        intro other hother hdomain i hwaiting
        rcases List.mem_or_eq_of_mem_set hother with hother | rfl
        · exact hheld other hother hdomain i hwaiting
        · cases hwaiting
          exact hold bucket hentry
    · refine (h.metered domain).frame (fun _ _ => Iff.rfl) (fun other => htable domain other) ?_
        le_rfl rfl
      intro other hother hother' i _
      rcases List.mem_or_eq_of_mem_set hother with hother | rfl
      · exact hother
      · exact absurd hother'.symm hdomain

/-- **A new bucket** where it may take the place of those made before. -/
theorem Inv.lookup_new (h : s.Inv limiter) (hrequest : request ∈ s.calls)
    (hget : Dict.get? request.domain s.table = none)
    (hrenewable : s.Renewable limiter request.domain s.clock) :
    (s.lookup limiter call request).Inv limiter := by
  have hold : ∀ (i : ℕ) (entry : Str × TokenBucket ℚ) fresh, s.buckets[i]? = some entry →
      (s.buckets ++ [fresh])[i]? = some entry := by
    intro i entry fresh hi
    rw [List.getElem?_append_left (List.getElem?_eq_some_iff.mp hi).1]
    exact hi
  have htrimmed : s.trimmed limiter ⊆ s.table := by
    unfold trimmed
    split_ifs
    · exact List.tail_subset _
    · exact List.Subset.refl _
  have habsent : ∀ other, (request.domain, other) ∉ s.table := by
    intro other hmem
    have hnone := List.find?_eq_none.mp (Option.map_eq_none_iff.mp hget) _ hmem
    simp at hnone
  rw [RateState.lookup, hget]
  dsimp only
  refine ⟨fun domain other hmem => ?_, fun other hother i hwaiting => ?_,
    fun other hother => ?_, fun domain => ?_⟩
  · rcases List.mem_append.mp hmem with hmem | hmem
    · obtain ⟨found, hfound⟩ := h.table domain other (htrimmed hmem)
      exact ⟨found, hold _ _ _ hfound⟩
    · cases List.mem_singleton.mp hmem
      exact ⟨_, List.getElem?_concat_length⟩
  · rcases List.mem_or_eq_of_mem_set hother with hother | rfl
    · obtain ⟨found, hfound⟩ := h.held other hother i hwaiting
      exact ⟨found, hold _ _ _ hfound⟩
    · cases hwaiting
      exact ⟨_, List.getElem?_concat_length⟩
  · rcases List.mem_or_eq_of_mem_set hother with hother | rfl
    · exact h.positive other hother
    · exact h.positive request hrequest
  · by_cases hdomain : domain = request.domain
    · subst hdomain
      refine .inr ⟨s.buckets.length, _, List.getElem?_concat_length, le_rfl, ?_, ?_, ?_⟩
      · rcases h.metered request.domain with ⟨-, hempty⟩ | ⟨live, found, hfound, hpast, haccounts,
          -, -⟩
        · change TokenBucket.Accounts _ _ (s.grants request.domain)
          rw [hempty]
          exact TokenBucket.accounts_full _ _
        · exact haccounts.renew hpast (hrenewable live found hfound).2
      · intro other hother
        rcases List.mem_append.mp hother with hother | hother
        · exact absurd (htrimmed hother) (habsent other)
        · cases List.mem_singleton.mp hother
          rfl
      · intro other hother hdomain i hwaiting
        rcases List.mem_or_eq_of_mem_set hother with hother | rfl
        · -- a waiter of the domain holds a bucket of it
          obtain ⟨found, hfound⟩ := h.held other hother i hwaiting
          rw [hdomain] at hfound
          exact absurd hwaiting ((hrenewable i found hfound).1 other hother)
        · cases hwaiting
          rfl
    · refine (h.metered domain).frame (fun i found => ⟨fun hi => ?_, hold i _ _⟩)
        (fun other hother => ?_) (fun other hother hother' i _ => ?_) le_rfl rfl
      · rcases lt_or_ge i s.buckets.length with hlt | hge
        · rwa [List.getElem?_append_left hlt] at hi
        · rw [List.getElem?_append_right hge, List.getElem?_singleton] at hi
          split_ifs at hi
          cases hi
          exact absurd rfl hdomain
      · rcases List.mem_append.mp hother with hother | hother
        · exact htrimmed hother
        · cases List.mem_singleton.mp hother
          exact absurd rfl hdomain
      · rcases List.mem_or_eq_of_mem_set hother with hother | rfl
        · exact hother
        · exact absurd hother'.symm hdomain

/-! ### Drawing on a bucket -/

theorem grants_cons (s : RateState) (granted : Str × ℚ × ℚ) (domain : Str) :
    grants { s with granted := granted :: s.granted } domain =
      if granted.1 = domain then granted.2 :: s.grants domain else s.grants domain := by
  unfold grants
  rw [List.filter_cons]
  simp only [decide_eq_true_eq]
  split_ifs <;> rfl

/-- A state in which a waiter has drawn on its bucket, or has refilled it only. -/
theorem Inv.drawn (h : s.Inv limiter) (hrequest : request ∈ s.calls)
    (hphase : request.phase = .waiting bucket)
    (hfound : s.buckets[bucket]? = some (request.domain, found)) {left : TokenBucket ℚ}
    (hleft : left.updatedAt ≤ s'.clock)
    (haccounts : found.Accounts (limiter.limit request.domain).toTokenLimit
        (s.grants request.domain) →
      left.Accounts (limiter.limit request.domain).toTokenLimit (s'.grants request.domain))
    (hbuckets : s'.buckets = s.buckets.set bucket (request.domain, left))
    (htable : s'.table = s.table)
    (hcalls : ∀ other ∈ s'.calls, other ∈ s.calls ∨ other = { request with phase := .granted })
    (hclock : s'.clock = s.clock)
    (hgrants : ∀ domain, domain ≠ request.domain → s'.grants domain = s.grants domain) :
    s'.Inv limiter := by
  have hset : ∀ i : ℕ, s'.buckets[i]? =
      if i = bucket then some (request.domain, left) else s.buckets[i]? := by
    intro i
    rw [hbuckets, List.getElem?_set]
    have hlt := (List.getElem?_eq_some_iff.mp hfound).1
    by_cases hi : i = bucket
    · rw [if_pos hi, if_pos hi.symm, if_pos hlt]
    · rw [if_neg hi, if_neg fun heq => hi heq.symm]
  have hkept : ∀ (i : ℕ) domain f, s.buckets[i]? = some (domain, f) →
      ∃ f', s'.buckets[i]? = some (domain, f') := by
    intro i domain f hi
    rw [hset]
    split_ifs with heq
    · rw [heq, hfound] at hi
      cases hi
      exact ⟨left, rfl⟩
    · exact ⟨f, hi⟩
  refine ⟨fun domain other hmem => ?_, fun other hother i hwaiting => ?_,
    fun other hother => ?_, fun domain => ?_⟩
  · obtain ⟨f, hf⟩ := h.table domain other (htable ▸ hmem)
    exact hkept _ _ _ hf
  · rcases hcalls other hother with hother | rfl
    · obtain ⟨f, hf⟩ := h.held other hother i hwaiting
      exact hkept _ _ _ hf
    · cases hwaiting
  · rcases hcalls other hother with hother | rfl
    · exact h.positive other hother
    · exact h.positive request hrequest
  · by_cases hdomain : domain = request.domain
    · subst hdomain
      rcases h.metered request.domain with ⟨hnone, -⟩ | ⟨live, f, hlive, -, hf, hold, hheld⟩
      · exact absurd hfound (hnone bucket found)
      · obtain rfl := hheld request hrequest rfl bucket hphase
        rw [hfound] at hlive
        cases hlive
        refine .inr ⟨bucket, left, by rw [hset, if_pos rfl], hleft, haccounts hf,
          fun other hother => hold other (htable ▸ hother), ?_⟩
        intro other hother hdomain i hwaiting
        rcases hcalls other hother with hother | rfl
        · exact hheld other hother hdomain i hwaiting
        · cases hwaiting
    · refine (h.metered domain).frame (fun i f => ?_) (fun other hother => htable ▸ hother)
        (fun other hother hother' i hwaiting => ?_) hclock.ge (hgrants domain hdomain)
      · rw [hset]
        split_ifs with heq
        · rw [heq, hfound]
          constructor
          · intro hi
            cases hi
            exact absurd rfl hdomain
          · intro hi
            cases hi
            exact absurd rfl hdomain
        · rfl
      · rcases hcalls other hother with hother | rfl
        · exact hother
        · cases hwaiting

/-- **A waiter** at the lock of its bucket. -/
theorem Inv.update (h : s.Inv limiter) (hrequest : request ∈ s.calls)
    (hphase : request.phase = .waiting bucket)
    (hfound : s.buckets[bucket]? = some (request.domain, found)) :
    (s.update limiter call request bucket found).Inv limiter := by
  have hpast : found.updatedAt ≤ s.clock := by
    rcases h.metered request.domain with ⟨hnone, -⟩ | ⟨live, f, hlive, hpast, -, -, hheld⟩
    · exact absurd hfound (hnone bucket found)
    · obtain rfl := hheld request hrequest rfl bucket hphase
      rw [hfound] at hlive
      cases hlive
      exact hpast
  unfold RateState.update
  dsimp only
  split_ifs with henough
  · refine h.drawn hrequest hphase hfound le_rfl (fun haccounts => ?_) rfl rfl
      (fun other hother => List.mem_or_eq_of_mem_set hother) rfl fun domain hdomain => ?_
    · have htake := (haccounts.refill hpast).take (h.positive request hrequest).le henough
      refine (congrArg (TokenBucket.Accounts _ _) ?_).mpr htake
      exact (grants_cons s _ _).trans (if_pos rfl)
    · exact (grants_cons s _ _).trans (if_neg fun heq => hdomain heq.symm)
  · exact h.drawn hrequest hphase hfound le_rfl (fun haccounts => haccounts.refill hpast) rfl rfl
      (fun _ hother => .inl hother) rfl fun _ _ => rfl

/-- **One step** keeps the invariant, unless it makes a bucket where it may not. -/
theorem Inv.step (h : s.Inv limiter) {action : ℚ × AcquireAction}
    (hrenews : s.Renews limiter action) (hstep : s.step P limiter action = some s') :
    s'.Inv limiter := by
  unfold RateState.step at hstep
  split_ifs at hstep with hpast
  have hwait := h.wait (not_lt.mp hpast)
  dsimp only at hstep
  split at hstep
  next urlOrDomain tokens _ =>
    cases hstep
    exact hwait.acquire urlOrDomain tokens
  next call haction =>
    split at hstep
    next domain tokens hcall =>
      cases hstep
      have hrequest : ⟨domain, tokens, .looking⟩ ∈ s.calls := List.mem_of_getElem? hcall
      cases hget : Dict.get? domain s.table with
      | some bucket => exact hwait.lookup_found hrequest hget
      | none =>
        exact hwait.lookup_new hrequest hget (hrenews call domain tokens haction hcall hget)
    next => cases hstep
  next call _ =>
    split at hstep
    next domain tokens bucket hcall =>
      obtain ⟨entry, hentry, rfl⟩ := Option.map_eq_some_iff.mp hstep
      have hrequest : ⟨domain, tokens, .waiting bucket⟩ ∈ s.calls := List.mem_of_getElem? hcall
      obtain ⟨found, hfound⟩ := h.held _ hrequest bucket rfl
      change s.buckets[bucket]? = some entry at hentry
      rw [hfound] at hentry
      cases hentry
      exact hwait.update hrequest rfl hfound
    next => cases hstep
  next call _ =>
    obtain ⟨request, hrequest, rfl⟩ := Option.map_eq_some_iff.mp hstep
    exact hwait.cancel (List.mem_of_getElem? hrequest)

/-- **Outbound rates**: while each new bucket of a domain is made where those before would be full
and are not held, what a domain is granted in any interval is within its limit. -/
theorem domain_rate (P : Python) (limiter : DomainRateLimiter) {clock : ℚ}
    {actions : List (ℚ × AcquireAction)} {s : RateState}
    (hrun : run P limiter clock actions = some s)
    (hrenews : ∀ before action after c, actions = before ++ action :: after →
      run P limiter clock before = some c → c.Renews limiter action) :
    ∀ domain a b, a ≤ b → TokenBucket.spent (s.grants domain) a b ≤
      (limiter.limit domain).capacity + (limiter.limit domain).rate * (b - a) := by
  have hinv : s.Inv limiter :=
    Interleaving.run_invariant (inv_start clock)
      (fun before action after c c' hactions hc hstep h =>
        h.step (hrenews before action after c hactions hc) hstep) hrun
  intro domain a b hab
  rcases hinv.metered domain with ⟨-, hempty⟩ | ⟨_, _, -, -, haccounts, -⟩
  · rw [hempty]
    exact (TokenBucket.accounts_full (limiter.limit domain).toTokenLimit 0).within a b hab
  · exact haccounts.within a b hab

/-! ## An eviction -/

theorem sample_rate_pos : (0 : ℚ) < 1 := by decide

theorem one_le_sample_capacity : (1 : ℚ) ≤ 5 := by decide

/-- A limiter with one bucket, of five tokens and one more each second. -/
def oneBucket : DomainRateLimiter where
  default := .of 1 5 sample_rate_pos one_le_sample_capacity
  domains := []
  maxDomains := 1
  maxDomains_pos := le_rfl

/-- A burst of a domain, the call of another domain that evicts its bucket, and a second burst. -/
def twoBursts : List (ℚ × AcquireAction) :=
  [(0, .acquire "a.example".toList 5), (0, .lookup 0), (0, .update 0),
    (0, .acquire "b.example".toList 1), (0, .lookup 1),
    (0, .acquire "a.example".toList 5), (0, .lookup 2), (0, .update 2)]

theorem evicted_burst :
    ¬∀ (limiter : DomainRateLimiter) (clock : ℚ) (actions : List (ℚ × AcquireAction))
      (s : RateState), run .ascii limiter clock actions = some s → ∀ domain a b, a ≤ b →
        TokenBucket.spent (s.grants domain) a b ≤
          (limiter.limit domain).capacity + (limiter.limit domain).rate * (b - a) := by
  intro h
  obtain ⟨s, hs⟩ : ∃ s, run .ascii oneBucket 0 twoBursts = some s :=
    Option.isSome_iff_exists.mp (by decide +kernel)
  have hspent : (run .ascii oneBucket 0 twoBursts).map (fun s =>
      TokenBucket.spent (s.grants "a.example".toList) 0 0) = some 10 := by decide +kernel
  rw [hs, Option.map_some, Option.some.injEq] at hspent
  have hle := h oneBucket 0 twoBursts s hs "a.example".toList 0 0 le_rfl
  rw [hspent] at hle
  revert hle
  decide +kernel

/-- A burst of a domain and a call that waits for two more tokens, a call of another domain that
evicts its bucket, one that is cancelled, and a call that makes a bucket when the first one would be
full again. -/
def spacedBursts : List (ℚ × AcquireAction) :=
  [(0, .acquire "a.example".toList 5), (0, .lookup 0), (0, .update 0),
    (0, .acquire "a.example".toList 2), (0, .lookup 1), (0, .update 1), (2, .update 1),
    (3, .acquire "b.example".toList 1), (3, .lookup 2), (3, .update 2),
    (4, .acquire "a.example".toList 1), (4, .cancel 3),
    (7, .acquire "a.example".toList 4), (7, .lookup 4), (7, .update 4)]

theorem spaced_bursts_within :
    ∃ s, run .ascii oneBucket 0 spacedBursts = some s ∧
      s.grants "a.example".toList = [(7, 4), (2, 2), (0, 5)] ∧
      ∀ domain a b, a ≤ b → TokenBucket.spent (s.grants domain) a b ≤
        (oneBucket.limit domain).capacity + (oneBucket.limit domain).rate * (b - a) := by
  have hgrants : (run .ascii oneBucket 0 spacedBursts).map (·.grants "a.example".toList) =
      some [(7, 4), (2, 2), (0, 5)] := by decide +kernel
  obtain ⟨s, hs, hgrants⟩ := Option.map_eq_some_iff.mp hgrants
  have hrenews : ∀ before action after, spacedBursts = before ++ action :: after →
      ∀ c ∈ run .ascii oneBucket 0 before, c.Renews oneBucket action :=
    Interleaving.forall_split_iff.mpr (by decide +kernel)
  exact ⟨s, hs, hgrants, domain_rate .ascii oneBucket hs
    fun before action after c hactions hc => hrenews before action after hactions c hc⟩

end RateState

end JobPing
