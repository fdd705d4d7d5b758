import JobPing.Interleaving
import JobPing.Notifications
import JobPing.SortedSets

/-!
# Stream leases

`app/request_limits/leases.py` and its scripts: a connection holds a token in the sorted set of its
address and in the global one, with the time at which the lease ends as the score, and renews it while
it lasts. The server runs one script at a time, at its own time. `uuid4` gives new tokens, and a
digest never reads `global`. Scores are whole microseconds.
-/

namespace JobPing

inductive LimitMode
  | off
  | shadow
  | enforce
  deriving DecidableEq

/-- The settings that the leases read, with the checks of `__post_init__`. -/
structure LimitSettings where
  mode : LimitMode
  secret : Str
  streamsPerIp : ℕ
  streamsTotal : ℕ
  leaseSeconds : ℕ
  per_ip_bounds : 1 ≤ streamsPerIp ∧ streamsPerIp ≤ 10000
  total_bounds : 1 ≤ streamsTotal ∧ streamsTotal ≤ 100000
  lease_bounds : 6 ≤ leaseSeconds ∧ leaseSeconds ≤ 300

/-- The sorted sets of the server. -/
abbrev Redis := Keyspace Str Str

/-! ## The scripts -/

/-- `LEASE_ACQUIRE`. -/
def leaseAcquire (now : Time) (keys : Str × Str) (token : Str) (ttl ipLimit globalLimit : ℕ)
    (redis : Redis) : Redis × Bool :=
  let redis := [keys.1, keys.2].foldl (fun redis key => redis.zremrangebyscore now key now) redis
  if 0 < ipLimit && ipLimit ≤ redis.zcard now keys.1 ||
      0 < globalLimit && globalLimit ≤ redis.zcard now keys.2 then (redis, false)
  else
    ([keys.1, keys.2].foldl (fun redis key =>
      (redis.zadd now key (now + seconds ttl) token).expire now key (2 * ttl)) redis, true)

/-- `LEASE_RENEW`. -/
def leaseRenew (now : Time) (keys : Str × Str) (token : Str) (ttl : ℕ) (redis : Redis) :
    Redis × Bool :=
  if [keys.1, keys.2].any fun key => (redis.zscore now key token).all (· ≤ now) then (redis, false)
  else
    ([keys.1, keys.2].foldl (fun redis key =>
      (redis.zadd now key (now + seconds ttl) token).expire now key (2 * ttl)) redis, true)

/-- `LEASE_RELEASE`. -/
def leaseRelease (now : Time) (keys : Str × Str) (token : Str) (redis : Redis) : Redis :=
  [keys.1, keys.2].foldl (fun redis key => redis.zrem now key token) redis

/-! ## `StreamLeases` -/

structure Lease where
  keys : Str × Str
  token : Str
  deriving DecidableEq

variable (hmac : Str → Str → Digest)

/-- `opaque_key`, with the digest of a secret and a text. -/
def opaqueKey (secret kind value : Str) : Str :=
  "jobping:ratelimit:v1:".toList ++ kind ++ ":".toList ++
    (hmac secret (kind ++ ":".toList ++ value)).hex

def globalKey : Str := "jobping:ratelimit:v1:streams:global".toList

/-- The lease that `acquire` asks for. -/
def LimitSettings.lease (settings : LimitSettings) (address token : Str) : Lease :=
  ⟨(opaqueKey hmac settings.secret "streams".toList address, globalKey), token⟩

/-- The server, and the leases that `acquire` has been granted or refused. -/
structure LeaseWorld where
  redis : Redis
  clock : Time
  granted : List Lease
  refused : List Lease

def LeaseWorld.empty (clock : Time) : LeaseWorld := ⟨fun _ => .missing, clock, [], []⟩

/-- What connections do, each at a time of the server. -/
inductive LeaseCall
  | wait
  /-- The first script of `acquire`. -/
  | acquire (address token : Str)
  /-- The second one, which only a limiter in shadow runs. -/
  | reserve (lease : Lease)
  | renew (lease : Lease)
  | release (lease : Lease)

namespace LeaseWorld

/-- A call, if its connection can make it. -/
def step (settings : LimitSettings) (action : Time × LeaseCall) (w : LeaseWorld) :
    Option LeaseWorld :=
  let now := action.1
  if now < w.clock then none
  else
    let w := { w with clock := now }
    match action.2 with
    | .wait => some w
    | .acquire address token =>
      if (w.granted ++ w.refused).any (·.token = token) then none
      else
        let lease := settings.lease hmac address token
        let result := leaseAcquire now lease.keys token settings.leaseSeconds
          settings.streamsPerIp settings.streamsTotal w.redis
        if result.2 then some { w with redis := result.1, granted := lease :: w.granted }
        else some { w with redis := result.1, refused := lease :: w.refused }
    | .reserve lease =>
      if settings.mode = .shadow && lease ∈ w.refused then
        some { w with
          redis := (leaseAcquire now lease.keys lease.token settings.leaseSeconds 0 0 w.redis).1
          granted := lease :: w.granted
          refused := w.refused.erase lease }
      else none
    | .renew lease =>
      if lease ∈ w.granted then
        some { w with
          redis := (leaseRenew now lease.keys lease.token settings.leaseSeconds w.redis).1 }
      else none
    | .release lease =>
      if lease ∈ w.granted then
        some { w with redis := leaseRelease now lease.keys lease.token w.redis }
      else none

/-- The state after a sequence of calls, from a time on. -/
def run (settings : LimitSettings) (start : Time) (actions : List (Time × LeaseCall)) :
    Option LeaseWorld :=
  Interleaving.run (step hmac settings) (.empty start) actions

end LeaseWorld

/-! ## What the scripts do -/

variable {now : Time} {keys : Str × Str} {token : Str} {ttl : ℕ} {redis : Redis}

/-- No lease of the server lasts longer than one that is taken now. -/
def Redis.Bounded (redis : Redis) (now : Time) (ttl : ℕ) : Prop :=
  ∀ key m x, (redis key).score m = some x → x ≤ now + seconds ttl

/-- The time of a key is after the end of a lease that is taken with it. -/
theorem lease_end_le (now : ℤ) {ttl : ℕ} (hpos : 0 < ttl) :
    now + seconds ttl ≤ 1000 * (now / 1000 + 1000 * (2 * ttl : ℕ)) := by
  unfold seconds
  push_cast
  omega

theorem lt_lease_end (now : ℤ) {ttl : ℕ} (hpos : 0 < ttl) : now < now + seconds ttl := by
  unfold seconds
  omega

/-- One key is given the token. -/
theorem hold_spec (hout : redis.Outlives) (hbound : redis.Bounded now ttl) (hpos : 0 < ttl)
    (key : Str) (token : Str) :
    (redis.hold now key (now + seconds ttl) token (2 * ttl)).Outlives ∧
      Redis.Bounded (redis.hold now key (now + seconds ttl) token (2 * ttl)) now ttl := by
  have hlong := lease_end_le now hpos
  refine ⟨hout.hold hlong fun m x hx => (hbound key m x hx).trans hlong, fun k m x hx => ?_⟩
  rcases Keyspace.score_of_hold hx with rfl | hx
  · exact le_rfl
  · exact hbound k m x hx

/-- Both keys are given the token. -/
def Redis.held (redis : Redis) (now : Time) (keys : Str × Str) (token : Str) (ttl : ℕ) : Redis :=
  Keyspace.hold (redis.hold now keys.1 (now + seconds ttl) token (2 * ttl)) now keys.2
    (now + seconds ttl) token (2 * ttl)

variable (keys token) in
/-- **A lease** is live in both sets, and the keys outlive it. -/
theorem held_spec (hout : redis.Outlives) (hbound : redis.Bounded now ttl) (hpos : 0 < ttl) :
    (redis.held now keys token ttl).Outlives ∧ (redis.held now keys token ttl).Bounded now ttl ∧
      ∀ key m x, now < x → (((redis.held now keys token ttl) key).score m = some x ↔
        if (key = keys.1 ∨ key = keys.2) ∧ m = token then now + seconds ttl = x
        else (redis key).score m = some x) := by
  obtain ⟨hout₁, hbound₁⟩ := hold_spec hout hbound hpos keys.1 token
  obtain ⟨hout₂, hbound₂⟩ := hold_spec hout₁ hbound₁ hpos keys.2 token
  refine ⟨hout₂, hbound₂, fun key m x hx => ?_⟩
  rw [Redis.held, Keyspace.score_hold hout₁ hx, Keyspace.score_hold hout hx]
  by_cases hm : m = token
  · by_cases h₂ : key = keys.2
    · simp [hm, h₂]
    · simp [hm, h₂]
  · simp [hm]

/-- The expired tokens of both sets are gone. -/
def Redis.purged (redis : Redis) (now : Time) (keys : Str × Str) : Redis :=
  Keyspace.zremrangebyscore (redis.zremrangebyscore now keys.1 now) now keys.2 now

variable (keys) in
theorem purged_spec (hout : redis.Outlives) (hbound : redis.Bounded now ttl) :
    (redis.purged now keys).Outlives ∧ (redis.purged now keys).Bounded now ttl ∧
      (∀ key m x, now < x → (((redis.purged now keys) key).score m = some x ↔
        (redis key).score m = some x)) ∧
      (redis.purged now keys).zcard now keys.1 = (redis.live now keys.1).card ∧
      (redis.purged now keys).zcard now keys.2 = (redis.live now keys.2).card := by
  have hout₁ : (redis.zremrangebyscore now keys.1 now).Outlives := hout.purge
  have hscore : ∀ key m x, now < x → (((redis.purged now keys) key).score m = some x ↔
      (redis key).score m = some x) := fun key m x hx => by
    rw [Redis.purged, Keyspace.score_purge hout₁ hx, Keyspace.score_purge hout hx]
  have hout₂ : (redis.purged now keys).Outlives := hout₁.purge
  have hlive : ∀ key, (redis.purged now keys).live now key = redis.live now key := fun key => by
    ext m
    rw [hout₂.mem_live, hout.mem_live]
    exact exists_congr fun x => and_congr_left fun hx => hscore key m x hx
  have hcard : ∀ key, (∀ m x, ((redis.purged now keys) key).score m = some x → now < x) →
      (redis.purged now keys).zcard now key = (redis.live now key).card := fun key hall => by
    rw [← hlive key]
    exact SortedSet.card_eq_live fun m x hx => hall m x (Keyspace.score_of_find hx)
  refine ⟨hout₂, fun key m x hx => ?_, hscore, hcard keys.1 fun m x hx => ?_,
    hcard keys.2 fun m x hx => Keyspace.purged hx⟩
  · exact hbound key m x (Keyspace.score_of_keep_write (Keyspace.score_of_keep_write hx))
  · exact Keyspace.purged (Keyspace.score_of_keep_write hx)

/-- **`LEASE_ACQUIRE`** grants a lease if both sets have room for it. -/
theorem leaseAcquire_eq (now : Time) (keys : Str × Str) (token : Str)
    (ttl ipLimit globalLimit : ℕ) (redis : Redis) :
    leaseAcquire now keys token ttl ipLimit globalLimit redis =
      if 0 < ipLimit && ipLimit ≤ (redis.purged now keys).zcard now keys.1 ||
          0 < globalLimit && globalLimit ≤ (redis.purged now keys).zcard now keys.2 then
        (redis.purged now keys, false)
      else ((redis.purged now keys).held now keys token ttl, true) := rfl

/-- **`LEASE_RENEW`** renews a lease that is live in both sets. -/
theorem leaseRenew_eq (now : Time) (keys : Str × Str) (token : Str) (ttl : ℕ) (redis : Redis) :
    leaseRenew now keys token ttl redis =
      if [keys.1, keys.2].any fun key => (redis.zscore now key token).all (· ≤ now) then
        (redis, false)
      else (redis.held now keys token ttl, true) := rfl

variable (keys token) in
theorem leaseRelease_spec (hout : redis.Outlives) (hbound : redis.Bounded now ttl) :
    Keyspace.Outlives (leaseRelease now keys token redis) ∧
      Redis.Bounded (leaseRelease now keys token redis) now ttl ∧
      ∀ key m x, now < x → ((leaseRelease now keys token redis key).score m = some x ↔
        (redis key).score m = some x ∧ ¬((key = keys.1 ∨ key = keys.2) ∧ m = token)) := by
  have hrelease : leaseRelease now keys token redis =
      Keyspace.zrem (redis.zrem now keys.1 token) now keys.2 token := rfl
  have hout₁ : (redis.zrem now keys.1 token).Outlives := hout.zrem token
  rw [hrelease]
  refine ⟨hout₁.zrem token, fun key m x hx => ?_, fun key m x hx => ?_⟩
  · exact hbound key m x (Keyspace.score_of_keep_write (Keyspace.score_of_keep_write hx))
  · rw [Keyspace.score_zrem hout₁ hx, Keyspace.score_zrem hout hx]
    tauto

end JobPing
