import JobPing.Interleaving
import JobPing.Notifications
import JobPing.TokenBuckets
import Mathlib.Data.Rat.Floor

/-!
# Request rates

`TOKEN_BUCKET` of `app/request_limits/scripts.py` and the decisions of `RequestLimiter.check`, in
exact arithmetic. A key that expires would be full: whether it is there or not, the script finds the
bucket that was left, refilled (`current_written`).
-/

namespace JobPing

/-! ## The script -/

/-- The hash of a key, its fields `tokens` and `at`, and the time of the key. -/
structure BucketKey where
  state : Option (TokenBucket ℚ)
  expires : Option ℤ

namespace BucketKey

def missing : BucketKey := ⟨none, none⟩

/-- The key has expired, in milliseconds. -/
def gone (key : BucketKey) (now : Time) : Bool := key.expires.any (· < now / 1000)

/-- The hash at a time. -/
def find (key : BucketKey) (now : Time) : BucketKey := if key.gone now then missing else key

end BucketKey

/-- The reply `{allowed, retry}` of the script. -/
structure BucketReply where
  allowed : Bool
  retry : ℤ
  deriving DecidableEq

/-- `TIME`, in seconds. -/
def serverClock (now : Time) : ℚ := now / 1000000

/-- The time that `EXPIRE` gives the key of a bucket. -/
def bucketExpiry (rate burst : ℚ) (now : Time) : ℤ := now / 1000 + 1000 * max 1 ⌈burst / rate⌉

/-- **`TOKEN_BUCKET`**. -/
def tokenBucket (rate burst : ℚ) (now : Time) (key : BucketKey) : BucketReply × BucketKey :=
  let clock := serverClock now
  let state := (key.find now).state
  let tokens := (state.map (·.tokens)).getD burst
  let updatedAt := (state.map (·.updatedAt)).getD clock
  let tokens := min burst (tokens + max 0 (clock - updatedAt) * rate)
  let expires := some (bucketExpiry rate burst now)
  if 1 ≤ tokens then (⟨true, 0⟩, ⟨some ⟨tokens - 1, clock⟩, expires⟩)
  else (⟨false, ⌈(1 - tokens) / rate⌉⟩, ⟨some ⟨tokens, clock⟩, expires⟩)

/-- The script without `EXPIRE`: its bucket is never deleted. -/
def tokenBucketKept (rate burst : ℚ) (now : Time) (key : BucketKey) : BucketReply × BucketKey :=
  let result := tokenBucket rate burst now key
  (result.1, { result.2 with expires := none })

structure Decision where
  allowed : Bool
  retryAfter : ℤ
  deriving DecidableEq

/-- The `result` of `RequestLimiter.check`, which is returned unless the limiter is in shadow. -/
def BucketReply.decision (reply : BucketReply) : Decision :=
  ⟨reply.allowed, if reply.allowed then 0 else max 1 reply.retry⟩

/-! ## Requests -/

/-- The key of a subject, the time of the server, and the decisions so far, the latest first. -/
structure RateWorld where
  key : BucketKey
  clock : Time
  log : List (Time × Decision)

namespace RateWorld

def start (clock : Time) : RateWorld := ⟨.missing, clock, []⟩

/-- A request at a time of the server, on the key a script leaves. -/
def step (script : Time → BucketKey → BucketReply × BucketKey) (now : Time) (w : RateWorld) :
    Option RateWorld :=
  if now < w.clock then none
  else
    let result := script now w.key
    some ⟨result.2, now, (now, result.1.decision) :: w.log⟩

/-- The state after requests at some times. -/
def run (script : Time → BucketKey → BucketReply × BucketKey) (clock : Time) (times : List Time) :
    Option RateWorld :=
  Interleaving.run (step script) (start clock) times

/-- The requests that were allowed, as grants of a token. -/
def grants (log : List (Time × Decision)) : List (ℚ × ℚ) :=
  ((log.filter (·.2.allowed)).map fun entry => serverClock entry.1).map fun t => (t, 1)

/-- The number of requests allowed in a window, in seconds. -/
def allowedWithin (log : List (Time × Decision)) (a b : ℚ) : ℕ :=
  log.countP fun entry => entry.2.allowed && a ≤ serverClock entry.1 && serverClock entry.1 ≤ b

end RateWorld

theorem serverClock_le {now later : Time} (h : now ≤ later) :
    serverClock now ≤ serverClock later := by
  unfold serverClock
  have hcast : (now : ℚ) ≤ later := Int.cast_le.mpr h
  linarith

theorem spent_grants (log : List (Time × Decision)) (a b : ℚ) :
    TokenBucket.spent (RateWorld.grants log) a b = RateWorld.allowedWithin log a b := by
  rw [RateWorld.grants, TokenBucket.spent_eq_countP, RateWorld.allowedWithin, List.countP_map,
    List.countP_filter]
  congr 1
  refine List.countP_congr fun entry _ => ?_
  simp only [Function.comp, Bool.and_eq_true, decide_eq_true_eq]
  tauto

/-! ## The bucket of a key -/

variable {rate burst : ℚ} {limit : TokenLimit ℚ} {now later : Time} {key : BucketKey}
  {bucket : TokenBucket ℚ}

/-- The bucket that a request finds. -/
def BucketKey.current (limit : TokenLimit ℚ) (now : Time) (key : BucketKey) : TokenBucket ℚ :=
  match (key.find now).state with
  | none => .full limit (serverClock now)
  | some bucket => bucket.refill limit (serverClock now)

/-- What a request leaves. -/
def BucketKey.written (limit : TokenLimit ℚ) (now : Time) (bucket : TokenBucket ℚ) : BucketKey :=
  ⟨some bucket, some (bucketExpiry limit.rate limit.capacity now)⟩

/-- **The script on the bucket it finds.** -/
theorem tokenBucket_eq (limit : TokenLimit ℚ) (now : Time) (key : BucketKey) :
    tokenBucket limit.rate limit.capacity now key =
      if 1 ≤ (key.current limit now).tokens then
        (⟨true, 0⟩, .written limit now ((key.current limit now).take 1))
      else
        (⟨false, ⌈(1 - (key.current limit now).tokens) / limit.rate⌉⟩,
          .written limit now (key.current limit now)) := by
  unfold tokenBucket BucketKey.current
  cases (key.find now).state with
  | none =>
    have hfull : min limit.capacity (limit.capacity +
        max 0 (serverClock now - serverClock now) * limit.rate) = limit.capacity := by
      rw [sub_self, max_self, zero_mul, add_zero, min_self]
    simp only [Option.map_none, Option.getD_none, hfull]
    rfl
  | some bucket => rfl

/-- Milliseconds are counted from before `now`, and an expired key is past them. -/
theorem waited_of_expired {now later ttl : ℤ} (h : now / 1000 + 1000 * ttl < later / 1000) :
    ttl * 1000000 ≤ later - now := by
  omega

/-- A key does not expire before its bucket is full. -/
theorem full_of_gone (limit : TokenLimit ℚ)
    (h : bucketExpiry limit.rate limit.capacity now < later / 1000) :
    limit.capacity ≤ (serverClock later - serverClock now) * limit.rate := by
  have hceil : limit.capacity / limit.rate ≤ (max 1 ⌈limit.capacity / limit.rate⌉ : ℤ) :=
    (Int.le_ceil _).trans (Int.cast_le.mpr (le_max_right _ _))
  set ttl : ℤ := max 1 ⌈limit.capacity / limit.rate⌉
  have hwait : ttl * 1000000 ≤ later - now := waited_of_expired h
  have hseconds : (ttl : ℚ) ≤ serverClock later - serverClock now := by
    have hcast : ((ttl * 1000000 : ℤ) : ℚ) ≤ ((later - now : ℤ) : ℚ) := Int.cast_le.mpr hwait
    push_cast at hcast
    unfold serverClock
    linarith
  rw [← div_le_iff₀ limit.rate_pos]
  exact hceil.trans hseconds

/-- **A written key is found refilled**, whether or not it has expired. -/
theorem current_written (hnonneg : 0 ≤ bucket.tokens)
    (hbucket : bucket.updatedAt = serverClock now) (later : Time) :
    (BucketKey.written limit now bucket).current limit later =
      bucket.refill limit (serverClock later) := by
  unfold BucketKey.current BucketKey.find
  split_ifs with hgone
  · have hexpired : bucketExpiry limit.rate limit.capacity now < later / 1000 := by
      simpa [BucketKey.gone, BucketKey.written] using hgone
    have hlong := full_of_gone limit hexpired
    rw [← hbucket] at hlong
    exact (TokenBucket.refill_eq_full hnonneg hlong).symm
  · rfl

/-! ## Runs -/

/-- The key of a state accounts for what was allowed. -/
inductive RateWorld.Sound (limit : TokenLimit ℚ) : RateWorld → Prop
  | start (clock : Time) : Sound limit (.start clock)
  | written (bucket : TokenBucket ℚ) (clock : Time) (log : List (Time × Decision))
      (hclock : bucket.updatedAt = serverClock clock)
      (haccounts : bucket.Accounts limit (grants log)) :
      Sound limit ⟨.written limit clock bucket, clock, log⟩

/-- The bucket that a later request finds accounts for it too. -/
theorem RateWorld.Sound.current {w : RateWorld} (h : w.Sound limit) (hnow : w.clock ≤ now) :
    (w.key.current limit now).updatedAt = serverClock now ∧
      (w.key.current limit now).Accounts limit (grants w.log) := by
  cases h with
  | start clock => exact ⟨rfl, TokenBucket.accounts_full limit _⟩
  | written bucket clock log hclock haccounts =>
    change ((BucketKey.written limit clock bucket).current limit now).updatedAt = _ ∧
      ((BucketKey.written limit clock bucket).current limit now).Accounts limit (grants log)
    rw [current_written haccounts.nonneg hclock]
    refine ⟨rfl, haccounts.refill ?_⟩
    rw [hclock]
    exact serverClock_le hnow

/-- **A request** keeps the key sound. -/
theorem RateWorld.Sound.step {w w' : RateWorld} (h : w.Sound limit)
    (hstep : RateWorld.step (tokenBucket limit.rate limit.capacity) now w = some w') :
    w'.Sound limit := by
  unfold RateWorld.step at hstep
  split_ifs at hstep with hpast
  obtain ⟨hclock, haccounts⟩ := h.current (not_lt.mp hpast)
  obtain rfl := Option.some.inj hstep
  rw [tokenBucket_eq]
  split_ifs with hallowed
  · refine .written _ now _ hclock ?_
    have htake := haccounts.take zero_le_one hallowed
    rw [hclock] at htake
    exact htake
  · exact .written _ now _ hclock haccounts

theorem RateWorld.Sound.run {clock : Time} {times : List Time} {w : RateWorld}
    (hrun : RateWorld.run (tokenBucket limit.rate limit.capacity) clock times = some w) :
    w.Sound limit :=
  Interleaving.run_invariant (.start clock) (fun _ _ _ _ _ _ _ hstep h => h.step hstep) hrun

/-- The state with a key that is never deleted, next to the one with a key that expires. -/
structure RateWorld.Agree (limit : TokenLimit ℚ) (w w' : RateWorld) : Prop where
  sound : w.Sound limit
  clock : w'.clock = w.clock
  log : w'.log = w.log
  found : ∀ now, w'.key.current limit now = w.key.current limit now

theorem RateWorld.Agree.step {w w₁ w' : RateWorld} (h : w.Agree limit w')
    (hstep : RateWorld.step (tokenBucket limit.rate limit.capacity) now w = some w₁) :
    ∃ w₁', RateWorld.step (tokenBucketKept limit.rate limit.capacity) now w' = some w₁' ∧
      w₁.Agree limit w₁' := by
  have hsound := h.sound.step hstep
  unfold RateWorld.step at hstep ⊢
  split_ifs at hstep with hpast
  obtain ⟨hclock, haccounts⟩ := h.sound.current (not_lt.mp hpast)
  obtain rfl := Option.some.inj hstep
  rw [h.clock, if_neg hpast]
  refine ⟨_, rfl, hsound, rfl, ?_, fun later => ?_⟩
  · dsimp only [tokenBucketKept]
    rw [tokenBucket_eq, tokenBucket_eq, h.found, h.log]
  · dsimp only [tokenBucketKept]
    rw [tokenBucket_eq, tokenBucket_eq, h.found]
    split_ifs with hallowed
    · have hleft := (haccounts.take zero_le_one hallowed).nonneg
      exact (current_written hleft hclock later).symm
    · exact (current_written haccounts.nonneg hclock later).symm

/-- **The expiry of the key changes no decision.** -/
theorem kept_run {clock : Time} {times : List Time} {w : RateWorld}
    (hrun : RateWorld.run (tokenBucket limit.rate limit.capacity) clock times = some w) :
    ∃ w', RateWorld.run (tokenBucketKept limit.rate limit.capacity) clock times = some w' ∧
      w.Agree limit w' :=
  Interleaving.run_simulation ⟨.start clock, rfl, rfl, fun _ => rfl⟩
    (fun _ _ _ _ hstep h => h.step hstep) hrun

/-- **An honest retry**: a denied request is allowed after the time it is told to wait. -/
theorem retry_allowed (hcapacity : 1 ≤ limit.capacity) {w w₁ : RateWorld} (h : w.Sound limit)
    (hstep : RateWorld.step (tokenBucket limit.rate limit.capacity) now w = some w₁) {retry : ℤ}
    (hdenied : w₁.log.head? = some (now, ⟨false, retry⟩)) :
    ∃ w₂, RateWorld.step (tokenBucket limit.rate limit.capacity) (now + seconds retry) w₁ =
        some w₂ ∧
      w₂.log.head? = some (now + seconds retry, ⟨true, 0⟩) := by
  unfold RateWorld.step at hstep
  split_ifs at hstep with hpast
  obtain ⟨hclock, haccounts⟩ := h.current (not_lt.mp hpast)
  obtain rfl := Option.some.inj hstep
  dsimp only at hdenied ⊢
  rw [tokenBucket_eq] at hdenied ⊢
  split_ifs at hdenied ⊢ with hallowed
  · simp [BucketReply.decision] at hdenied
  set bucket := w.key.current limit now
  have hlacks : 0 < (1 - bucket.tokens) / limit.rate :=
    div_pos (sub_pos.mpr (not_le.mp hallowed)) limit.rate_pos
  have hretry : retry = ⌈(1 - bucket.tokens) / limit.rate⌉ := by
    have hone : 1 ≤ ⌈(1 - bucket.tokens) / limit.rate⌉ := Int.one_le_ceil_iff.mpr hlacks
    simp only [List.head?_cons, Option.some.injEq, Prod.mk.injEq, BucketReply.decision,
      Decision.mk.injEq, Bool.false_eq_true, if_false, true_and, max_eq_right hone] at hdenied
    exact hdenied.symm
  have hlater : now ≤ now + seconds retry := by
    have hpos : 0 < retry := hretry ▸ Int.ceil_pos.mpr hlacks
    exact le_add_of_nonneg_right (mul_nonneg hpos.le (by decide))
  have henough : 1 ≤ (bucket.refill limit (serverClock (now + seconds retry))).tokens := by
    refine TokenBucket.le_refill_tokens hcapacity ?_
    have hwaited : serverClock (now + seconds retry) - bucket.updatedAt = retry := by
      rw [hclock]
      unfold serverClock seconds
      push_cast
      ring
    have hceil : (1 - bucket.tokens) / limit.rate ≤ retry := hretry ▸ Int.le_ceil _
    rw [div_le_iff₀ limit.rate_pos] at hceil
    rw [hwaited]
    linarith
  have hfound : (BucketKey.written limit now bucket).current limit (now + seconds retry) =
      bucket.refill limit (serverClock (now + seconds retry)) :=
    current_written haccounts.nonneg hclock _
  refine ⟨_, by rw [RateWorld.step, if_neg (not_lt.mpr hlater)], ?_⟩
  dsimp only
  rw [tokenBucket_eq, hfound, if_pos henough]
  rfl

/-- **Token buckets**: a window has at most a burst and what its time brings, the expiry of the key
changes nothing, and a denied request is allowed after its retry. -/
theorem token_bucket_rate {rate burst : ℚ} (hrate : 0 < rate) (hburst : 1 ≤ burst) {clock : Time}
    {times : List Time} {w : RateWorld}
    (hrun : RateWorld.run (tokenBucket rate burst) clock times = some w) :
    (∀ a b : ℚ, a ≤ b → (RateWorld.allowedWithin w.log a b : ℚ) ≤ burst + rate * (b - a)) ∧
      (∃ w', RateWorld.run (tokenBucketKept rate burst) clock times = some w' ∧
        w'.log = w.log) ∧
      ∀ (now : Time) (retry : ℤ) (w₁ : RateWorld),
        RateWorld.step (tokenBucket rate burst) now w = some w₁ →
        w₁.log.head? = some (now, ⟨false, retry⟩) →
        ∃ w₂, RateWorld.step (tokenBucket rate burst) (now + seconds retry) w₁ = some w₂ ∧
          w₂.log.head? = some (now + seconds retry, ⟨true, 0⟩) := by
  let limit : TokenLimit ℚ := ⟨rate, burst, hrate, zero_le_one.trans hburst⟩
  have hsound : w.Sound limit := RateWorld.Sound.run hrun
  refine ⟨fun a b hab => ?_, ?_, fun now retry w₁ hstep hdenied => ?_⟩
  · rw [← spent_grants]
    exact (hsound.current le_rfl).2.within a b hab
  · obtain ⟨w', hrun', hagree⟩ := @kept_run limit clock times w hrun
    exact ⟨w', hrun', hagree.log⟩
  · exact retry_allowed hburst hsound hstep hdenied

/-- A second request at the same time, with a burst of one. -/
theorem one_per_second :
    ∃ w, RateWorld.run (tokenBucket 1 1) 0 [0, 0] = some w ∧
      (∀ a b : ℚ, a ≤ b → (RateWorld.allowedWithin w.log a b : ℚ) ≤ 1 + 1 * (b - a)) ∧
      w.log = [(0, ⟨false, 1⟩), (0, ⟨true, 0⟩)] :=
  ⟨_, rfl, (@token_bucket_rate 1 1 one_pos le_rfl 0 [0, 0] _ rfl).1, by decide +kernel⟩

end JobPing
