import JobPing.Dict
import JobPing.Interleaving
import JobPing.Rotation
import JobPing.UrlParse
import Mathlib.Algebra.Order.Ring.Rat
import Mathlib.Data.Rat.Defs
import Mathlib.Logic.Function.Basic
import Mathlib.Tactic.NormNum

/-!
# The proxy pool

`ProxyManager` of `app/scrapers/proxy.py`, in exact arithmetic: the endpoints are handed out in
turn, and one that was blocked rests, longer with every failure in a row. The lock makes one step of
every call. A proxy that rests is not handed out (`blocked_proxy_rests`), one that does not is
handed out in its turn (`proxy_in_turn`), and the pool has one unless all were blocked of late
(`exhausted_pool_was_blocked`).
-/

namespace JobPing

/-! ## Endpoints -/

structure ProxyEndpoint where
  scheme : Str
  host : Str
  port : ℕ
  username : Option Str
  password : Option Str
  deriving DecidableEq

/-- `_ALLOWED_SCHEMES`. -/
def proxySchemes : List Str := ["http", "https", "socks5"].map String.toList

/-- `ProxyEndpoint.parse`; `none` stands for a `ValueError`. -/
def ProxyEndpoint.parse (P : Python) (value : Str) : Option ProxyEndpoint :=
  (urlsplit P (P.strip value)).bind fun parsed =>
    match parsed.hostname P, parsed.port with
    | some hostname, some (some port) =>
      if P.casefold parsed.scheme ∉ proxySchemes || hostname = [] then none
      else if port < 1 || 65535 < port || parsed.path ∉ [[], ['/']] || parsed.query ≠ [] ||
          parsed.fragment ≠ [] then none
      else
        some ⟨P.casefold parsed.scheme, hostname, port, parsed.userinfo.1.map unquote,
          parsed.userinfo.2.map unquote⟩
    | _, _ => none

/-! ## The pool -/

structure ProxyHealth where
  successes : ℕ
  failures : ℕ
  consecutiveFailures : ℕ
  cooldownUntil : ℚ
  dead : Bool

/-- `ProxyHealth()`. -/
def ProxyHealth.new : ProxyHealth := ⟨0, 0, 0, 0, false⟩

/-- A dead endpoint whose rest is over is given another chance. -/
def ProxyHealth.revived (now : ℚ) (health : ProxyHealth) : ProxyHealth :=
  if health.dead && health.cooldownUntil ≤ now then
    { health with dead := false, consecutiveFailures := 0 }
  else health

/-- `ProxyManager`, with the checks of `__init__`. -/
structure ProxyManager where
  endpoints : List ProxyEndpoint
  baseCooldown : ℚ
  maxCooldown : ℚ
  maxFailures : ℕ
  nodup : endpoints.Nodup
  base_pos : 0 < baseCooldown
  base_le : baseCooldown ≤ maxCooldown
  failures_pos : 1 ≤ maxFailures

/-- `ProxyManager(proxies, base_cooldown=…, max_cooldown=…, max_failures=…)`. -/
def ProxyManager.create (P : Python) (proxies : List (Str ⊕ ProxyEndpoint))
    (baseCooldown maxCooldown : ℚ) (maxFailures : ℕ) : Option ProxyManager :=
  if h : 0 < baseCooldown ∧ baseCooldown ≤ maxCooldown ∧ 1 ≤ maxFailures then
    (proxies.mapM (Sum.elim (ProxyEndpoint.parse P) some)).map fun endpoints =>
      { endpoints := Dict.keys (Dict.ofList (endpoints.map fun endpoint => (endpoint, ())))
        baseCooldown := baseCooldown
        maxCooldown := maxCooldown
        maxFailures := maxFailures
        nodup := Dict.nodup_keys_ofList _
        base_pos := h.1
        base_le := h.2.1
        failures_pos := h.2.2 }
  else none

inductive PoolCall
  | acquire
  | reportSuccess (endpoint : ProxyEndpoint)
  | reportFailure (endpoint : ProxyEndpoint) (statusCode : Option ℕ)

/-- What has come of a call; `exhausted` stands for a `NoProxyAvailableError`. -/
inductive PoolEvent
  | granted (endpoint : ProxyEndpoint)
  | exhausted
  | succeeded (endpoint : ProxyEndpoint)
  | failed (endpoint : ProxyEndpoint) (statusCode : Option ℕ)
  deriving DecidableEq

/-- The answer to an `acquire`. -/
def PoolEvent.answers : PoolEvent → Bool
  | .granted _ => true
  | .exhausted => true
  | _ => false

/-- The pool, the time, and what has happened, the latest first. -/
structure PoolState where
  health : ProxyEndpoint → ProxyHealth
  cursor : ℕ
  clock : ℚ
  log : List (ℚ × PoolEvent)

/-- The answers of a site that blocks a proxy. -/
def blockedStatuses : List ℕ := [403, 429, 503]

/-- `2 ** exponent` does not fit into a `float` from this exponent on. -/
def overflowingExponent : ℕ := 1024

namespace ProxyManager

variable (manager : ProxyManager)

def start (clock : ℚ) : PoolState := ⟨fun _ => .new, 0, clock, []⟩

/-- The loop of `acquire` over the indices it has not come to. -/
def ask (now : ℚ) : List ℕ → (ProxyEndpoint → ProxyHealth) →
    (ProxyEndpoint → ProxyHealth) × Option (ℕ × ProxyEndpoint)
  | [], health => (health, none)
  | index :: rest, health =>
    match manager.endpoints[index]? with
    | none => ask now rest health
    | some endpoint =>
      let found := (health endpoint).revived now
      let health := Function.update health endpoint found
      if !found.dead && found.cooldownUntil ≤ now then (health, some (index, endpoint))
      else ask now rest health

def acquire (s : PoolState) : PoolState :=
  let total := manager.endpoints.length
  match manager.ask s.clock (Rotation.order total s.cursor) s.health with
  | (health, some (index, endpoint)) =>
    ⟨health, (index + 1) % total, s.clock, (s.clock, .granted endpoint) :: s.log⟩
  | (health, none) => ⟨health, s.cursor, s.clock, (s.clock, .exhausted) :: s.log⟩

/-- How long an endpoint rests after so many failures in a row. -/
def delay (failures : ℕ) : ℚ :=
  min manager.maxCooldown (manager.baseCooldown * 2 ^ (failures - 1))

/-- The health after a report of success. -/
def succeed (health : ProxyHealth) : ProxyHealth :=
  { health with successes := health.successes + 1, consecutiveFailures := 0, cooldownUntil := 0,
                dead := false }

/-- The health after a report of a failure; the delay of too many in a row raises. -/
def fail (now : ℚ) (statusCode : Option ℕ) (health : ProxyHealth) : ProxyHealth :=
  let counted := { health with
    failures := health.failures + 1
    consecutiveFailures := health.consecutiveFailures + 1 }
  if statusCode.any (· ∈ blockedStatuses) &&
      counted.consecutiveFailures - 1 < overflowingExponent then
    { counted with
      cooldownUntil := now + manager.delay counted.consecutiveFailures
      dead := manager.maxFailures ≤ counted.consecutiveFailures }
  else counted

/-- A call at a time; one about an endpoint of another pool raises. -/
def step (action : ℚ × PoolCall) (s : PoolState) : Option PoolState :=
  if action.1 < s.clock then none
  else
    let s := { s with clock := action.1 }
    match action.2 with
    | .acquire => some (manager.acquire s)
    | .reportSuccess endpoint =>
      if endpoint ∈ manager.endpoints then
        some { s with
          health := Function.update s.health endpoint (succeed (s.health endpoint))
          log := (s.clock, .succeeded endpoint) :: s.log }
      else some s
    | .reportFailure endpoint statusCode =>
      if endpoint ∈ manager.endpoints then
        some { s with
          health :=
            Function.update s.health endpoint (manager.fail s.clock statusCode (s.health endpoint))
          log := (s.clock, .failed endpoint statusCode) :: s.log }
      else some s

/-- The state after some calls. -/
def run (clock : ℚ) (actions : List (ℚ × PoolCall)) : Option PoolState :=
  Interleaving.run manager.step (start clock) actions

/-! ## What a call does -/

variable {manager} {s t u : PoolState} {now : ℚ} {endpoint : ProxyEndpoint} {call : PoolCall}

/-- A slot whose endpoint does not rest. -/
def rested (manager : ProxyManager) (now : ℚ) (health : ProxyEndpoint → ProxyHealth)
    (index : ℕ) : Bool :=
  manager.endpoints[index]?.any fun endpoint => (health endpoint).cooldownUntil ≤ now

theorem revived_of_lt {health : ProxyHealth} (h : now < health.cooldownUntil) :
    health.revived now = health := by
  rw [ProxyHealth.revived, if_neg]
  simp [h]

theorem dead_revived {health : ProxyHealth} (h : health.cooldownUntil ≤ now) :
    (health.revived now).dead = false := by
  unfold ProxyHealth.revived
  split_ifs with hdead
  · rfl
  · simpa [h] using hdead

theorem cooldownUntil_revived (health : ProxyHealth) :
    (health.revived now).cooldownUntil = health.cooldownUntil := by
  unfold ProxyHealth.revived
  split_ifs <;> rfl

/-- **The loop picks the first slot that is rested**, and changes the health of its endpoint
only. -/
theorem ask_cases (manager : ProxyManager) (now : ℚ) (indices : List ℕ)
    (health : ProxyEndpoint → ProxyHealth) :
    (indices.find? (manager.rested now health) = none ∧
      manager.ask now indices health = (health, none)) ∨
    ∃ index endpoint, indices.find? (manager.rested now health) = some index ∧
      manager.endpoints[index]? = some endpoint ∧ (health endpoint).cooldownUntil ≤ now ∧
      manager.ask now indices health =
        (Function.update health endpoint ((health endpoint).revived now),
          some (index, endpoint)) := by
  induction indices with
  | nil => exact .inl ⟨rfl, rfl⟩
  | cons index rest ih =>
    rw [ask, List.find?_cons]
    cases hget : manager.endpoints[index]? with
    | none =>
      have hrested : manager.rested now health index = false := by
        rw [rested, hget]
        rfl
      rw [hrested]
      exact ih
    | some endpoint =>
      dsimp only
      by_cases hready : (health endpoint).cooldownUntil ≤ now
      · have hrested : manager.rested now health index = true := by
          rw [rested, hget]
          simpa using hready
        have htest : (!((health endpoint).revived now).dead &&
            decide (((health endpoint).revived now).cooldownUntil ≤ now)) = true := by
          rw [dead_revived hready, cooldownUntil_revived]
          simpa using hready
        rw [if_pos htest, hrested]
        exact .inr ⟨index, endpoint, rfl, hget, hready, rfl⟩
      · have hrested : manager.rested now health index = false := by
          rw [rested, hget]
          simpa using hready
        have hlt := not_le.mp hready
        rw [revived_of_lt hlt, Function.update_eq_self, if_neg (by simp [hlt]), hrested]
        exact ih

/-- What `acquire` does. -/
theorem acquire_cases (manager : ProxyManager) (s : PoolState) :
    (Rotation.pick manager.endpoints.length s.cursor (manager.rested s.clock s.health) = none ∧
      manager.acquire s = ⟨s.health, s.cursor, s.clock, (s.clock, .exhausted) :: s.log⟩) ∨
    ∃ index endpoint,
      Rotation.pick manager.endpoints.length s.cursor (manager.rested s.clock s.health) =
        some index ∧
      manager.endpoints[index]? = some endpoint ∧ (s.health endpoint).cooldownUntil ≤ s.clock ∧
      manager.acquire s =
        ⟨Function.update s.health endpoint ((s.health endpoint).revived s.clock),
          (index + 1) % manager.endpoints.length, s.clock,
          (s.clock, .granted endpoint) :: s.log⟩ := by
  rcases ask_cases manager s.clock
    (Rotation.order manager.endpoints.length s.cursor) s.health with
    ⟨hnone, hask⟩ | ⟨index, endpoint, hpick, hget, hready, hask⟩
  · refine .inl ⟨hnone, ?_⟩
    rw [acquire, hask]
  · refine .inr ⟨index, endpoint, hpick, hget, hready, ?_⟩
    rw [acquire, hask]

/-- **What a call does**: nothing, or it appends an event that says how it changed the health. -/
theorem step_cases (hstep : manager.step (now, call) s = some t) : s.clock ≤ now ∧
    (t = { s with clock := now } ∨
    (call = .acquire ∧
      Rotation.pick manager.endpoints.length s.cursor (manager.rested now s.health) = none ∧
      t = ⟨s.health, s.cursor, now, (now, .exhausted) :: s.log⟩) ∨
    (∃ index endpoint, call = .acquire ∧
      Rotation.pick manager.endpoints.length s.cursor (manager.rested now s.health) = some index ∧
      manager.endpoints[index]? = some endpoint ∧ (s.health endpoint).cooldownUntil ≤ now ∧
      t = ⟨Function.update s.health endpoint ((s.health endpoint).revived now),
        (index + 1) % manager.endpoints.length, now, (now, .granted endpoint) :: s.log⟩) ∨
    (∃ endpoint ∈ manager.endpoints, call = .reportSuccess endpoint ∧
      t = ⟨Function.update s.health endpoint (succeed (s.health endpoint)), s.cursor, now,
        (now, .succeeded endpoint) :: s.log⟩) ∨
    ∃ endpoint ∈ manager.endpoints, ∃ statusCode, call = .reportFailure endpoint statusCode ∧
      t = ⟨Function.update s.health endpoint (manager.fail now statusCode (s.health endpoint)),
        s.cursor, now, (now, .failed endpoint statusCode) :: s.log⟩) := by
  unfold step at hstep
  split_ifs at hstep with hclock
  refine ⟨not_lt.mp hclock, ?_⟩
  cases call with
  | acquire =>
    cases hstep
    rcases acquire_cases manager { s with clock := now } with
      ⟨hpick, hacquire⟩ | ⟨index, endpoint, hpick, hget, hready, hacquire⟩
    · exact .inr (.inl ⟨rfl, hpick, hacquire⟩)
    · exact .inr (.inr (.inl ⟨index, endpoint, rfl, hpick, hget, hready, hacquire⟩))
  | reportSuccess endpoint =>
    dsimp only at hstep
    split_ifs at hstep with hknown
    · cases hstep
      exact .inr (.inr (.inr (.inl ⟨endpoint, hknown, rfl, rfl⟩)))
    · cases hstep
      exact .inl rfl
  | reportFailure endpoint statusCode =>
    dsimp only at hstep
    split_ifs at hstep with hknown
    · cases hstep
      exact .inr (.inr (.inr (.inr ⟨endpoint, hknown, statusCode, rfl, rfl⟩)))
    · cases hstep
      exact .inl rfl

theorem clock_step (hstep : manager.step (now, call) s = some t) :
    s.clock ≤ now ∧ t.clock = now := by
  obtain ⟨hclock, hcases⟩ := step_cases hstep
  refine ⟨hclock, ?_⟩
  rcases hcases with rfl | ⟨-, -, rfl⟩ | ⟨_, _, -, -, -, -, rfl⟩ | ⟨_, -, -, rfl⟩ |
    ⟨_, -, _, -, rfl⟩ <;> rfl

/-! ## A blocked proxy rests -/

theorem delay_mono {failures failures' : ℕ} (h : failures ≤ failures') :
    manager.delay failures ≤ manager.delay failures' := by
  have hpow : (2 : ℚ) ^ (failures - 1) ≤ 2 ^ (failures' - 1) :=
    pow_le_pow_right₀ one_le_two (by omega)
  exact min_le_min le_rfl (mul_le_mul_of_nonneg_left hpow manager.base_pos.le)

theorem consecutiveFailures_fail (statusCode : Option ℕ) (health : ProxyHealth) :
    (manager.fail now statusCode health).consecutiveFailures =
      health.consecutiveFailures + 1 := by
  unfold fail
  dsimp only
  split_ifs <;> rfl

/-- A failure is no block, or one for whose delay there is no `float`, or it sets the rest. -/
theorem cooldownUntil_fail (manager : ProxyManager) (now : ℚ) (statusCode : Option ℕ)
    (health : ProxyHealth) :
    (manager.fail now statusCode health).cooldownUntil = health.cooldownUntil ∨
      (∃ status ∈ blockedStatuses, statusCode = some status) ∧
      (manager.fail now statusCode health).cooldownUntil =
        now + manager.delay (health.consecutiveFailures + 1) := by
  unfold fail
  dsimp only
  split_ifs with hblocked
  · rw [Bool.and_eq_true, Option.any_eq_true] at hblocked
    obtain ⟨⟨status, hstatus, hmem⟩, -⟩ := hblocked
    exact .inr ⟨⟨status, by simpa using hmem, hstatus⟩, rfl⟩
  · exact .inl rfl

/-- An endpoint that has failed so often in a row rests until a time, or that is over. -/
def Resting (endpoint : ProxyEndpoint) (failures : ℕ) (stop : ℚ) (s : PoolState) : Prop :=
  failures ≤ (s.health endpoint).consecutiveFailures ∧
    stop ≤ (s.health endpoint).cooldownUntil ∨ stop ≤ s.clock

/-- What other endpoints do does not end a rest. -/
theorem Resting.frame {failures : ℕ} {stop : ℚ} (h : Resting endpoint failures stop s)
    (hhealth : t.health endpoint = s.health endpoint) (hclock : s.clock ≤ t.clock) :
    Resting endpoint failures stop t := by
  unfold Resting
  rw [hhealth]
  exact h.imp_right fun hstop => hstop.trans hclock

/-- **Only a success or the time ends a rest.** -/
theorem Resting.step {failures : ℕ} {since : ℚ}
    (h : Resting endpoint failures (since + manager.delay failures) s) (hsince : since ≤ s.clock)
    (hcall : call ≠ .reportSuccess endpoint) (hstep : manager.step (now, call) s = some t) :
    Resting endpoint failures (since + manager.delay failures) t ∧
      (t.log = s.log ∨ ∃ event, t.log = (now, event) :: s.log ∧
        (event = .granted endpoint → since + manager.delay failures ≤ now)) := by
  obtain ⟨hclock, hcases⟩ := step_cases hstep
  rcases hcases with rfl | ⟨-, -, rfl⟩ | ⟨index, other, -, -, -, hready, rfl⟩ |
    ⟨other, -, rfl, rfl⟩ | ⟨other, -, statusCode, -, rfl⟩
  · exact ⟨h.frame rfl hclock, .inl rfl⟩
  · exact ⟨h.frame rfl hclock, .inr ⟨_, rfl, fun hgranted => nomatch hgranted⟩⟩
  · by_cases hother : endpoint = other
    · subst hother
      have hstop : since + manager.delay failures ≤ now := by
        rcases h with ⟨-, hstop⟩ | hstop
        · exact hstop.trans hready
        · exact hstop.trans hclock
      exact ⟨.inr hstop, .inr ⟨_, rfl, fun _ => hstop⟩⟩
    · refine ⟨h.frame (Function.update_of_ne hother _ _) hclock,
        .inr ⟨_, rfl, fun hgranted => absurd ?_ hother⟩⟩
      cases hgranted
      rfl
  · have hother : endpoint ≠ other := fun heq => hcall (by rw [heq])
    exact ⟨h.frame (Function.update_of_ne hother _ _) hclock,
      .inr ⟨_, rfl, fun hgranted => nomatch hgranted⟩⟩
  · refine ⟨?_, .inr ⟨_, rfl, fun hgranted => nomatch hgranted⟩⟩
    by_cases hother : endpoint = other
    · subst hother
      rcases h with ⟨hfailures, hstop⟩ | hstop
      · refine .inl ?_
        dsimp only
        rw [Function.update_self, consecutiveFailures_fail]
        refine ⟨Nat.le_succ_of_le hfailures, ?_⟩
        rcases cooldownUntil_fail manager now statusCode (s.health endpoint) with
          hkept | ⟨-, hset⟩
        · rw [hkept]
          exact hstop
        · rw [hset]
          exact add_le_add (hsince.trans hclock) (delay_mono (Nat.le_succ_of_le hfailures))
      · exact .inr (hstop.trans hclock)
    · exact h.frame (Function.update_of_ne hother _ _) hclock

/-- The health after a block. -/
theorem resting_of_block {status : ℕ} (hendpoint : endpoint ∈ manager.endpoints)
    (hstatus : status ∈ blockedStatuses)
    (hfew : (s.health endpoint).consecutiveFailures < overflowingExponent)
    (hstep : manager.step (now, .reportFailure endpoint (some status)) s = some t) :
    t.clock = now ∧ Resting endpoint ((s.health endpoint).consecutiveFailures + 1)
      (now + manager.delay ((s.health endpoint).consecutiveFailures + 1)) t := by
  unfold step at hstep
  split_ifs at hstep
  dsimp only at hstep
  rw [if_pos hendpoint] at hstep
  cases hstep
  refine ⟨rfl, .inl ?_⟩
  have hblocked : ((some status).any (· ∈ blockedStatuses) &&
      decide ((s.health endpoint).consecutiveFailures + 1 - 1 < overflowingExponent)) = true := by
    simpa [hstatus] using hfew
  dsimp only
  rw [Function.update_self, fail, if_pos hblocked]
  exact ⟨le_rfl, le_rfl⟩

/-- **A blocked proxy rests**: an endpoint that was blocked is not handed out until the delay of its
failures in a row is over, unless a success is reported, whatever else is reported and asked. -/
theorem blocked_proxy_rests {status : ℕ} {after : List (ℚ × PoolCall)} {new : List (ℚ × PoolEvent)}
    (hendpoint : endpoint ∈ manager.endpoints) (hstatus : status ∈ blockedStatuses)
    (hfew : (s.health endpoint).consecutiveFailures < overflowingExponent)
    (hblock : manager.step (now, .reportFailure endpoint (some status)) s = some t)
    (hafter : ∀ time, (time, .reportSuccess endpoint) ∉ after)
    (hrun : Interleaving.run manager.step t after = some u) (hnew : u.log = new ++ t.log)
    {time : ℚ} (hgranted : (time, .granted endpoint) ∈ new) :
    now + min manager.maxCooldown
      (manager.baseCooldown * 2 ^ (s.health endpoint).consecutiveFailures) ≤ time := by
  obtain ⟨hclock, hrests⟩ := resting_of_block hendpoint hstatus hfew hblock
  set failures := (s.health endpoint).consecutiveFailures + 1 with hfailures
  have hinv : now ≤ u.clock ∧ Resting endpoint failures (now + manager.delay failures) u ∧
      ∃ new, u.log = new ++ t.log ∧ ∀ time, (time, .granted endpoint) ∈ new →
        now + manager.delay failures ≤ time := by
    refine Interleaving.run_invariant (I := fun c => now ≤ c.clock ∧
      Resting endpoint failures (now + manager.delay failures) c ∧
        ∃ new, c.log = new ++ t.log ∧ ∀ time, (time, .granted endpoint) ∈ new →
          now + manager.delay failures ≤ time) ⟨hclock.ge, hrests, [], rfl, ?_⟩ ?_ hrun
    · intro time htime
      cases htime
    · rintro before ⟨time, call⟩ later c c' hsplit - hstep ⟨hpast, hrests, new, hlog, hlate⟩
      have hcall : call ≠ .reportSuccess endpoint := by
        rintro rfl
        exact hafter time (by rw [hsplit]; simp)
      obtain ⟨hrests', hlog'⟩ := hrests.step hpast hcall hstep
      refine ⟨(clock_step hstep).2 ▸ hpast.trans (clock_step hstep).1, hrests', ?_⟩
      rcases hlog' with heq | ⟨event, heq, hevent⟩
      · exact ⟨new, heq.trans hlog, hlate⟩
      · refine ⟨(time, event) :: new, by rw [heq, hlog]; rfl, fun τ hτ => ?_⟩
        rcases List.mem_cons.mp hτ with htop | hold
        · cases htop
          exact hevent rfl
        · exact hlate τ hold
  obtain ⟨-, -, new', hlog', hlate⟩ := hinv
  have hsame : new' = new := List.append_cancel_right (hlog'.symm.trans hnew)
  subst hsame
  exact hlate time hgranted

def firstProxy : ProxyEndpoint := ⟨"http".toList, "one.example".toList, 8080, none, none⟩

def secondProxy : ProxyEndpoint := ⟨"http".toList, "two.example".toList, 8080, none, none⟩

theorem twoProxies_nodup : [firstProxy, secondProxy].Nodup := by decide

theorem twoProxies_base_pos : (0 : ℚ) < 30 := by norm_num

theorem twoProxies_base_le : (30 : ℚ) ≤ 900 := by norm_num

/-- Two endpoints with the default configuration. -/
def twoProxies : ProxyManager where
  endpoints := [firstProxy, secondProxy]
  baseCooldown := 30
  maxCooldown := 900
  maxFailures := 5
  nodup := twoProxies_nodup
  base_pos := twoProxies_base_pos
  base_le := twoProxies_base_le
  failures_pos := Nat.one_le_ofNat

/-- The first endpoint is blocked at 10, so at 20 it is passed over, and it is back at 45. -/
theorem first_proxy_rests : ∃ t u,
    twoProxies.step (10, .reportFailure firstProxy (some 429)) (start 0) = some t ∧
    Interleaving.run twoProxies.step t [(20, .acquire), (45, .acquire)] = some u ∧
    (10 : ℚ) + min twoProxies.maxCooldown (twoProxies.baseCooldown *
      2 ^ ((start 0).health firstProxy).consecutiveFailures) ≤ 45 := by
  have hlogs : ((twoProxies.step (10, .reportFailure firstProxy (some 429)) (start 0)).bind
      fun t => (Interleaving.run twoProxies.step t [(20, .acquire), (45, .acquire)]).map
        fun u => (t.log, u.log)) =
      some ([(10, .failed firstProxy (some 429))],
        [(45, .granted firstProxy), (20, .granted secondProxy),
          (10, .failed firstProxy (some 429))]) := by decide +kernel
  obtain ⟨t, ht, hlogs⟩ := Option.bind_eq_some_iff.mp hlogs
  obtain ⟨u, hu, hlogs⟩ := Option.map_eq_some_iff.mp hlogs
  obtain ⟨hlog, hlog'⟩ := Prod.mk.inj hlogs
  have hnew : u.log = [(45, .granted firstProxy), (20, .granted secondProxy)] ++ t.log := by
    rw [hlog, hlog']
    rfl
  refine ⟨t, u, ht, hu, blocked_proxy_rests (by decide) (by decide) (by decide) ht ?_ hu hnew
    List.mem_cons_self⟩
  intro time
  simp

/-! ## A rested proxy gets its turn -/

theorem cursor_step (h : s.cursor < manager.endpoints.length)
    (hstep : manager.step (now, call) s = some t) : t.cursor < manager.endpoints.length := by
  obtain ⟨-, hcases⟩ := step_cases hstep
  rcases hcases with rfl | ⟨-, -, rfl⟩ | ⟨_, _, -, -, -, -, rfl⟩ | ⟨_, -, -, rfl⟩ |
    ⟨_, -, _, -, rfl⟩
  · exact h
  · exact h
  · exact Nat.mod_lt _ (Nat.zero_lt_of_lt h)
  · exact h
  · exact h

/-- A rested endpoint is rested until it is blocked. -/
theorem rested_step (hzero : 0 ≤ s.clock) (h : (s.health endpoint).cooldownUntil ≤ s.clock)
    (hcall : ∀ status ∈ blockedStatuses, call ≠ .reportFailure endpoint (some status))
    (hstep : manager.step (now, call) s = some t) :
    (t.health endpoint).cooldownUntil ≤ now := by
  obtain ⟨hclock, hcases⟩ := step_cases hstep
  have hold : (s.health endpoint).cooldownUntil ≤ now := h.trans hclock
  rcases hcases with rfl | ⟨-, -, rfl⟩ | ⟨_, other, -, -, -, -, rfl⟩ | ⟨other, -, -, rfl⟩ |
    ⟨other, -, statusCode, rfl, rfl⟩
  · exact hold
  · exact hold
  all_goals
    dsimp only
    by_cases hother : endpoint = other
    swap
    · rw [Function.update_of_ne hother]
      exact hold
    subst hother
    rw [Function.update_self]
  · rw [cooldownUntil_revived]
    exact hold
  · exact hzero.trans hclock
  · rcases cooldownUntil_fail manager now statusCode (s.health endpoint) with
      hkept | ⟨⟨status, hstatus, rfl⟩, -⟩
    · rw [hkept]
      exact hold
    · exact absurd rfl (hcall status hstatus)

/-- A rested endpoint has been handed out, or so many answers have passed over it that its turn is
near. -/
def Nearing (manager : ProxyManager) (slot : ℕ) (endpoint : ProxyEndpoint)
    (new : List (ℚ × PoolEvent)) (s : PoolState) : Prop :=
  (∃ time, (time, .granted endpoint) ∈ new) ∨
    s.cursor < manager.endpoints.length ∧ (s.health endpoint).cooldownUntil ≤ s.clock ∧
    new.countP (·.2.answers) + Rotation.wait manager.endpoints.length s.cursor slot <
      manager.endpoints.length

/-- **An answer that is not the endpoint brings its turn nearer.** -/
theorem Nearing.step {slot : ℕ} {new : List (ℚ × PoolEvent)}
    (hslot : manager.endpoints[slot]? = some endpoint) (h : Nearing manager slot endpoint new s)
    (hzero : 0 ≤ s.clock)
    (hcall : ∀ status ∈ blockedStatuses, call ≠ .reportFailure endpoint (some status))
    (hstep : manager.step (now, call) s = some t) :
    (t.log = s.log ∧ Nearing manager slot endpoint new t) ∨
      ∃ event, t.log = (now, event) :: s.log ∧
        Nearing manager slot endpoint ((now, event) :: new) t := by
  have hlength : slot < manager.endpoints.length := (List.getElem?_eq_some_iff.mp hslot).1
  obtain ⟨hclock, hcases⟩ := step_cases hstep
  rcases h with ⟨time, hgranted⟩ | ⟨hcursor, hready, hnear⟩
  · have hkept : ∀ event, Nearing manager slot endpoint ((now, event) :: new) t := fun event =>
      .inl ⟨time, List.mem_cons_of_mem _ hgranted⟩
    rcases hcases with rfl | ⟨-, -, rfl⟩ | ⟨_, _, -, -, -, -, rfl⟩ | ⟨_, -, -, rfl⟩ |
      ⟨_, -, _, -, rfl⟩
    · exact .inl ⟨rfl, .inl ⟨time, hgranted⟩⟩
    all_goals exact .inr ⟨_, rfl, hkept _⟩
  have hready' := rested_step hzero hready hcall hstep
  have hrested : manager.rested now s.health slot = true := by
    rw [rested, hslot]
    simpa using hready.trans hclock
  rcases hcases with rfl | ⟨-, hpick, rfl⟩ | ⟨index, other, -, hpick, hget, -, rfl⟩ |
    ⟨other, -, -, rfl⟩ | ⟨other, -, statusCode, -, rfl⟩
  · exact .inl ⟨rfl, .inr ⟨hcursor, hready', hnear⟩⟩
  · have hnone := (Rotation.pick_eq_none_iff hcursor).mp hpick slot hlength
    rw [hrested] at hnone
    cases hnone
  · refine .inr ⟨_, rfl, ?_⟩
    by_cases hother : endpoint = other
    · subst hother
      exact .inl ⟨now, List.mem_cons_self⟩
    · have hindex : slot ≠ index := by
        rintro rfl
        exact hother (Option.some.inj (hslot.symm.trans hget))
      have hwait := Rotation.wait_lt_of_pick hcursor hpick hlength hrested hindex
      refine .inr ⟨Nat.mod_lt _ (Nat.zero_lt_of_lt hcursor), hready', ?_⟩
      rw [List.countP_cons_of_pos (by rfl)]
      dsimp only
      omega
  all_goals
    refine .inr ⟨_, rfl, .inr ⟨hcursor, hready', ?_⟩⟩
    rw [List.countP_cons_of_neg (by simp [PoolEvent.answers])]
    exact hnear

/-- **A rested proxy gets its turn**: while it is not blocked, it is handed out before the pool has
answered as often as it has endpoints. -/
theorem proxy_in_turn {clock : ℚ} {before after : List (ℚ × PoolCall)}
    {new : List (ℚ × PoolEvent)} (hclock : 0 ≤ clock) (hendpoint : endpoint ∈ manager.endpoints)
    (hbefore : manager.run clock before = some s)
    (hready : (s.health endpoint).cooldownUntil ≤ s.clock)
    (hafter : ∀ time, ∀ status ∈ blockedStatuses,
      (time, .reportFailure endpoint (some status)) ∉ after)
    (hrun : Interleaving.run manager.step s after = some t) (hnew : t.log = new ++ s.log)
    (hmany : manager.endpoints.length ≤ new.countP (·.2.answers)) :
    ∃ time, (time, .granted endpoint) ∈ new := by
  obtain ⟨slot, hslot⟩ := List.mem_iff_getElem?.mp hendpoint
  obtain ⟨hzero, hcursor⟩ : 0 ≤ s.clock ∧ s.cursor < manager.endpoints.length := by
    refine Interleaving.run_invariant (I := fun c => 0 ≤ c.clock ∧
      c.cursor < manager.endpoints.length) ⟨hclock, List.length_pos_of_mem hendpoint⟩ ?_ hbefore
    rintro _ ⟨time, call⟩ _ c c' - - hstep ⟨hzero, hcursor⟩
    obtain ⟨htime, hclock'⟩ := clock_step hstep
    exact ⟨hclock' ▸ hzero.trans htime, cursor_step hcursor hstep⟩
  have hlength : slot < manager.endpoints.length := (List.getElem?_eq_some_iff.mp hslot).1
  have hinv : 0 ≤ t.clock ∧ ∃ new, t.log = new ++ s.log ∧
      Nearing manager slot endpoint new t := by
    refine Interleaving.run_invariant (I := fun c => 0 ≤ c.clock ∧ ∃ new, c.log = new ++ s.log ∧
      Nearing manager slot endpoint new c) ⟨hzero, [], rfl, .inr ⟨hcursor, hready, ?_⟩⟩ ?_ hrun
    · rw [List.countP_nil, Nat.zero_add]
      exact Rotation.wait_lt hlength
    · rintro first ⟨time, call⟩ later c c' hsplit - hstep ⟨hzero, new, hlog, hnear⟩
      have hcall : ∀ status ∈ blockedStatuses,
          call ≠ .reportFailure endpoint (some status) := by
        rintro status hstatus rfl
        exact hafter time status hstatus (by rw [hsplit]; simp)
      refine ⟨(clock_step hstep).2 ▸ hzero.trans (clock_step hstep).1, ?_⟩
      rcases hnear.step hslot hzero hcall hstep with ⟨heq, hnear'⟩ | ⟨event, heq, hnear'⟩
      · exact ⟨new, heq.trans hlog, hnear'⟩
      · exact ⟨(time, event) :: new, by rw [heq, hlog]; rfl, hnear'⟩
  obtain ⟨-, new', hlog', hnear⟩ := hinv
  have hsame : new' = new := List.append_cancel_right (hlog'.symm.trans hnew)
  subst hsame
  rcases hnear with hgranted | ⟨-, -, hfew⟩
  · exact hgranted
  · exact absurd (Nat.lt_of_le_of_lt (Nat.le_add_right _ _) hfew) (not_lt.mpr hmany)

/-- The second endpoint is handed out after the first one. -/
theorem second_proxy_in_turn : ∃ t, twoProxies.run 0 [(1, .acquire), (2, .acquire)] = some t ∧
    ∃ time, (time, .granted secondProxy) ∈ t.log := by
  have hlogs : ((twoProxies.run 0 [(1, .acquire), (2, .acquire)]).map fun t => t.log) =
      some [(2, .granted secondProxy), (1, .granted firstProxy)] := by decide +kernel
  obtain ⟨t, ht, hlog⟩ := Option.map_eq_some_iff.mp hlogs
  have hbefore : twoProxies.run 0 [] = some (start 0) := rfl
  refine ⟨t, ht, proxy_in_turn (le_refl 0) (by decide) hbefore le_rfl ?_ ht
    (List.append_nil _).symm ?_⟩
  · intro time status hstatus
    simp
  · rw [hlog]
    decide

/-! ## When the pool has none -/

/-- Since the last success of an endpoint, it was blocked at a time. -/
def BlockedAt (endpoint : ProxyEndpoint) (log : List (ℚ × PoolEvent)) (time : ℚ) : Prop :=
  ∃ recent past, ∃ status ∈ blockedStatuses,
    log = recent ++ (time, .failed endpoint (some status)) :: past ∧
    ∀ later, (later, .succeeded endpoint) ∉ recent

/-- What rests was blocked, and not longer ago than the longest delay. -/
def RestsAreBlocks (manager : ProxyManager) (s : PoolState) : Prop :=
  ∀ endpoint, (s.health endpoint).cooldownUntil ≤ 0 ∨
    ∃ time, BlockedAt endpoint s.log time ∧
      (s.health endpoint).cooldownUntil ≤ time + manager.maxCooldown

theorem BlockedAt.cons {log : List (ℚ × PoolEvent)} {time : ℚ} {event : PoolEvent}
    (h : BlockedAt endpoint log time) (hevent : event ≠ .succeeded endpoint) :
    BlockedAt endpoint ((now, event) :: log) time := by
  obtain ⟨recent, past, status, hstatus, rfl, hnone⟩ := h
  refine ⟨(now, event) :: recent, past, status, hstatus, rfl, fun later hlater => ?_⟩
  rcases List.mem_cons.mp hlater with htop | hold
  · cases htop
    exact hevent rfl
  · exact hnone later hold

theorem RestsAreBlocks.step (h : RestsAreBlocks manager s)
    (hstep : manager.step (now, call) s = some t) : RestsAreBlocks manager t := by
  have hframe : ∀ endpoint event, event ≠ .succeeded endpoint →
      ∀ health : ProxyHealth, health.cooldownUntil = (s.health endpoint).cooldownUntil →
      health.cooldownUntil ≤ 0 ∨ ∃ time, BlockedAt endpoint ((now, event) :: s.log) time ∧
        health.cooldownUntil ≤ time + manager.maxCooldown := by
    intro endpoint event hevent health hhealth
    rw [hhealth]
    exact (h endpoint).imp_right fun ⟨time, hblocked, hstop⟩ =>
      ⟨time, hblocked.cons hevent, hstop⟩
  obtain ⟨-, hcases⟩ := step_cases hstep
  intro endpoint
  rcases hcases with rfl | ⟨-, -, rfl⟩ | ⟨_, other, -, -, -, -, rfl⟩ | ⟨other, -, -, rfl⟩ |
    ⟨other, -, statusCode, -, rfl⟩
  · exact h endpoint
  · exact hframe endpoint .exhausted (by simp) _ rfl
  · refine hframe endpoint (.granted other) (by simp) _ ?_
    dsimp only
    by_cases hother : endpoint = other
    · subst hother
      rw [Function.update_self, cooldownUntil_revived]
    · rw [Function.update_of_ne hother]
  · dsimp only
    by_cases hother : endpoint = other
    · subst hother
      rw [Function.update_self]
      exact .inl le_rfl
    · rw [Function.update_of_ne hother]
      exact hframe endpoint (.succeeded other) (by simpa using Ne.symm hother) _ rfl
  · dsimp only
    by_cases hother : endpoint = other
    · subst hother
      rw [Function.update_self]
      rcases cooldownUntil_fail manager now statusCode (s.health endpoint) with
        hkept | ⟨⟨status, hstatus, rfl⟩, hset⟩
      · exact hframe endpoint (.failed endpoint statusCode) (by simp) _ hkept
      · refine .inr ⟨now, ⟨[], s.log, status, hstatus, rfl, fun later hlater => ?_⟩, ?_⟩
        · cases hlater
        · rw [hset]
          exact add_le_add le_rfl (min_le_left _ _)
    · rw [Function.update_of_ne hother]
      exact hframe endpoint (.failed other statusCode) (by simp) _ rfl

/-- What an empty answer says of an endpoint. -/
theorem blocked_of_exhausted (hzero : 0 ≤ now) (hcursor : s.cursor < manager.endpoints.length)
    (hrests : RestsAreBlocks manager s) (hendpoint : endpoint ∈ manager.endpoints)
    (hpick : Rotation.pick manager.endpoints.length s.cursor (manager.rested now s.health) = none) :
    ∃ time, BlockedAt endpoint s.log time ∧ now < time + manager.maxCooldown := by
  obtain ⟨slot, hslot⟩ := List.mem_iff_getElem?.mp hendpoint
  have hlength : slot < manager.endpoints.length := (List.getElem?_eq_some_iff.mp hslot).1
  have hrested := (Rotation.pick_eq_none_iff hcursor).mp hpick slot hlength
  rw [rested, hslot] at hrested
  have hlate : now < (s.health endpoint).cooldownUntil := by simpa using hrested
  rcases hrests endpoint with hnever | ⟨time, hblocked, hstop⟩
  · exact absurd hlate (not_lt.mpr (hnever.trans hzero))
  · exact ⟨time, hblocked, hlate.trans_le hstop⟩

/-- **The pool has none only where all were blocked of late**: each endpoint within the longest
delay, and none of them was reported as working since. -/
theorem exhausted_pool_was_blocked {clock : ℚ} {actions : List (ℚ × PoolCall)}
    {recent past : List (ℚ × PoolEvent)} (hclock : 0 ≤ clock)
    (hrun : manager.run clock actions = some s)
    (hlog : s.log = recent ++ (now, .exhausted) :: past)
    (hendpoint : endpoint ∈ manager.endpoints) :
    ∃ time, BlockedAt endpoint past time ∧ now < time + manager.maxCooldown := by
  have hinv : 0 ≤ s.clock ∧ RestsAreBlocks manager s ∧ s.cursor < manager.endpoints.length ∧
      ∀ recent now past, s.log = recent ++ (now, .exhausted) :: past →
        ∃ time, BlockedAt endpoint past time ∧ now < time + manager.maxCooldown := by
    refine Interleaving.run_invariant (I := fun c => 0 ≤ c.clock ∧ RestsAreBlocks manager c ∧
      c.cursor < manager.endpoints.length ∧ ∀ recent now past,
        c.log = recent ++ (now, .exhausted) :: past →
          ∃ time, BlockedAt endpoint past time ∧ now < time + manager.maxCooldown)
      ⟨hclock, fun _ => .inl le_rfl, List.length_pos_of_mem hendpoint, ?_⟩ ?_ hrun
    · intro recent now past hlog
      exact absurd hlog.symm (List.append_ne_nil_of_right_ne_nil _ (List.cons_ne_nil _ _))
    · rintro before ⟨time, call⟩ later c c' - - hstep ⟨hzero, hrests, hcursor, hpast⟩
      obtain ⟨htime, hclock'⟩ := clock_step hstep
      refine ⟨hclock' ▸ hzero.trans htime, hrests.step hstep, cursor_step hcursor hstep, ?_⟩
      have hcons : ∀ event, c'.log = (time, event) :: c.log →
          (event = .exhausted → ∃ stop, BlockedAt endpoint c.log stop ∧
            time < stop + manager.maxCooldown) →
          ∀ recent now past, c'.log = recent ++ (now, .exhausted) :: past →
            ∃ time, BlockedAt endpoint past time ∧ now < time + manager.maxCooldown := by
        intro event hlog hevent recent now past hsplit
        rw [hlog] at hsplit
        cases recent with
        | nil =>
          cases hsplit
          exact hevent rfl
        | cons top recent => exact hpast recent now past (List.cons.inj hsplit).2
      obtain ⟨-, hcases⟩ := step_cases hstep
      rcases hcases with rfl | ⟨-, hpick, rfl⟩ | ⟨_, other, -, -, -, -, rfl⟩ | ⟨other, -, -, rfl⟩ |
        ⟨other, -, statusCode, -, rfl⟩
      · exact hpast
      · exact hcons .exhausted rfl fun _ =>
          blocked_of_exhausted (hzero.trans htime) hcursor hrests hendpoint hpick
      all_goals exact hcons _ rfl fun hevent => nomatch hevent
  exact hinv.2.2.2 recent now past hlog

/-- Both endpoints were blocked before the pool has none. -/
theorem two_proxies_exhausted : ∃ s,
    twoProxies.run 0 [(10, .reportFailure firstProxy (some 429)),
      (11, .reportFailure secondProxy (some 403)), (12, .acquire)] = some s ∧
    ∃ time, BlockedAt firstProxy (s.log.drop 1) time ∧
      (12 : ℚ) < time + twoProxies.maxCooldown := by
  have hlogs : ((twoProxies.run 0 [(10, .reportFailure firstProxy (some 429)),
      (11, .reportFailure secondProxy (some 403)), (12, .acquire)]).map fun s => s.log) =
      some [(12, .exhausted), (11, .failed secondProxy (some 403)),
        (10, .failed firstProxy (some 429))] := by decide +kernel
  obtain ⟨s, hs, hlog⟩ := Option.map_eq_some_iff.mp hlogs
  have hlast : s.log = [] ++ (12, .exhausted) :: s.log.drop 1 := by
    rw [hlog]
    rfl
  exact ⟨s, hs, exhausted_pool_was_blocked le_rfl hs hlast (by decide)⟩

end ProxyManager

end JobPing
