import JobPing.StreamCapacity
import Mathlib.Tactic.Linarith

/-!
# Supervised streams

`serve_stream` of `app/request_limits/streams.py` and `renew_until_lost` of
`app/request_limits/leases.py`, for any number of streams over one server: a stream asks for its
lease, renews it after every third of its time, and is cancelled when its renewal ends. A call of
the limiter returns or raises within its timeout; its script may have run all the same, or may run
late. The clocks of the server and of the event loop run alike, and what is due is done within a
lag.

While the timeouts and the lag are short enough, no stream is served without its lease
(`served_streams_leased`): two renewals can fail before the lease ends, not three.
-/

namespace JobPing

/-- The timeout of the limiter as well, in microseconds. -/
structure StreamSettings extends LimitSettings where
  timeout : ℕ
  timeout_bounds : 0 < timeout ∧ timeout ≤ 5000000

/-! ## Streams -/

/-- Where a stream is in `acquire` or in `renew_until_lost`. A script that has run has a result,
which may not arrive. -/
inductive StreamPhase
  | acquiring (result : Option Bool)
  | sleeping (failures : ℕ)
  | renewing (failures : ℕ) (result : Option Bool)
  | ended
  deriving DecidableEq

namespace StreamPhase

/-- The connection is served. -/
def serving : StreamPhase → Bool
  | sleeping _ => true
  | renewing _ _ => true
  | _ => false

/-- The server has run the script. -/
def ran (result : Bool) : StreamPhase → StreamPhase
  | acquiring none => acquiring (some result)
  | renewing failures none => renewing failures (some result)
  | phase => phase

/-- `evaluate` has returned. -/
def returned : StreamPhase → Option StreamPhase
  | acquiring (some true) => some (sleeping 0)
  | acquiring (some false) => some ended
  | renewing _ (some true) => some (sleeping 0)
  | renewing _ (some false) => some ended
  | _ => none

/-- `evaluate` has raised `LimiterUnavailable`. -/
def raised : StreamPhase → Option StreamPhase
  | acquiring _ => some ended
  | renewing failures _ =>
    some (if 2 ≤ failures + 1 then ended else sleeping (failures + 1))
  | _ => none

/-- `asyncio.sleep` has returned. -/
def woken : StreamPhase → Option StreamPhase
  | sleeping failures => some (renewing failures none)
  | _ => none

/-- The task is cancelled, or its connection is done. -/
def closed : StreamPhase → Option StreamPhase
  | ended => none
  | _ => some ended

/-- Three times the time that a phase takes. -/
def lasts (settings : StreamSettings) : StreamPhase → ℤ
  | acquiring _ => 3 * settings.timeout
  | sleeping _ => seconds settings.leaseSeconds
  | renewing _ _ => 3 * settings.timeout
  | ended => 0

end StreamPhase

/-- A stream, with the time at which its phase began. -/
structure Stream where
  address : Str
  phase : StreamPhase
  since : Time
  deriving DecidableEq

/-- The next phase should have begun. -/
def Stream.overdue (settings : StreamSettings) (lag : ℕ) (now : Time) (stream : Stream) : Bool :=
  stream.phase ≠ .ended && stream.phase.lasts settings + 3 * lag < 3 * (now - stream.since)

inductive StreamEvent
  | connect (address : Str)
  | script
  | reply
  | unavailable
  | wake
  | close

/-- A stream goes on, or the server runs a script that no stream waits for: of a stream that is
over, of a call that was given up, or of another process. -/
inductive StreamCall
  | stream (token : Str) (event : StreamEvent)
  | other (call : LeaseCall)

/-- The server with its leases, and the streams under their tokens. -/
structure StreamState where
  world : LeaseWorld
  streams : List (Str × Stream)

namespace StreamState

def empty (clock : Time) : StreamState := ⟨.empty clock, []⟩

variable (hmac : Str → Str → Digest) (settings : StreamSettings) (lag : ℕ)

/-- What a script returns. -/
def result (now : Time) (call : LeaseCall) (redis : Redis) : Bool :=
  match call with
  | .acquire address token =>
    (leaseAcquire now (settings.lease hmac address token).keys token settings.leaseSeconds
      settings.streamsPerIp settings.streamsTotal redis).2
  | .renew lease => (leaseRenew now lease.keys lease.token settings.leaseSeconds redis).2
  | _ => true

/-- The script that a stream waits for. -/
def awaited (token : Str) (stream : Stream) : Option LeaseCall :=
  match stream.phase with
  | .acquiring none => some (.acquire stream.address token)
  | .renewing _ none => some (.renew (settings.lease hmac stream.address token))
  | _ => none

/-- The phase after an event that is not a script. -/
def next (now : Time) (event : StreamEvent) (stream : Stream) : Option StreamPhase :=
  match event with
  | .reply => stream.phase.returned
  | .unavailable => stream.phase.raised
  | .wake =>
    if stream.phase.lasts settings ≤ 3 * (now - stream.since) then stream.phase.woken else none
  | .close => stream.phase.closed
  | _ => none

/-- A stream under the token is over, if there is one. -/
def finished (token : Str) (s : StreamState) : Bool :=
  (Dict.get? token s.streams).all (·.phase = .ended)

/-- A script that no stream waits for; `release` comes after the stream. -/
def mayRun (s : StreamState) : LeaseCall → Bool
  | .acquire _ token => s.finished token
  | .release lease => s.finished lease.token
  | _ => true

/-- A call, at a time at which no stream is overdue. -/
def step (action : Time × StreamCall) (s : StreamState) : Option StreamState :=
  let now := action.1
  if s.streams.any fun item => item.2.overdue settings lag now then none
  else
    match action.2 with
    | .stream token (.connect address) =>
      if (Dict.get? token s.streams).isSome then none
      else (LeaseWorld.step hmac settings.toLimitSettings (now, .wait) s.world).map fun world =>
        ⟨world, Dict.set token ⟨address, .acquiring none, now⟩ s.streams⟩
    | .stream token .script =>
      (Dict.get? token s.streams).bind fun stream =>
        (awaited hmac settings token stream).bind fun call =>
          (LeaseWorld.step hmac settings.toLimitSettings (now, call) s.world).map fun world =>
            ⟨world, Dict.set token { stream with
              phase := stream.phase.ran (result hmac settings now call s.world.redis) } s.streams⟩
    | .stream token event =>
      (Dict.get? token s.streams).bind fun stream =>
        (next settings now event stream).bind fun phase =>
          (LeaseWorld.step hmac settings.toLimitSettings (now, .wait) s.world).map fun world =>
            ⟨world, Dict.set token { stream with phase := phase, since := now } s.streams⟩
    | .other call =>
      if s.mayRun call then
        (LeaseWorld.step hmac settings.toLimitSettings (now, call) s.world).map fun world =>
          { s with world := world }
      else none

/-- The state after a sequence of calls, from a time on. -/
def run (start : Time) (actions : List (Time × StreamCall)) : Option StreamState :=
  Interleaving.run (step hmac settings lag) (.empty start) actions

/-- The connection of a token is served, for an address. -/
def Serves (s : StreamState) (token address : Str) : Prop :=
  ∃ stream, Dict.get? token s.streams = some stream ∧ stream.address = address ∧
    stream.phase.serving = true

end StreamState

/-! ## Scores -/

namespace LeaseWorld

variable {hmac : Str → Str → Digest} {settings : LimitSettings} {w w' : LeaseWorld} {now x : Time}
  {key m token : Str} {keys : Str × Str} {lease other : Lease}

/-- `LEASE_ACQUIRE` keeps the other tokens. -/
theorem Inv.score_acquire (h : w.Inv hmac settings) {ipLimit globalLimit : ℕ} (hne : m ≠ token)
    (hlive : w.clock < x) :
    ((leaseAcquire w.clock keys token settings.leaseSeconds ipLimit globalLimit w.redis).1
      key).score m = some x ↔ (w.redis key).score m = some x := by
  obtain ⟨hout, hbound, hpurged, -, -⟩ := purged_spec keys h.outlives h.bounded
  rw [leaseAcquire_eq]
  split_ifs with hfull
  · exact hpurged key m x hlive
  · rw [held_scores hout hbound key m x hlive, if_neg fun hheld => hne hheld.2]
    exact hpurged key m x hlive

/-- A lease that ends later than now is renewed. -/
theorem Inv.renew_eq (h : w.Inv hmac settings) (hlease : lease ∈ w.granted)
    (hx : (w.redis globalKey).score lease.token = some x) (hlive : w.clock < x) :
    leaseRenew w.clock lease.keys lease.token settings.leaseSeconds w.redis =
      (w.redis.held w.clock lease.keys lease.token settings.leaseSeconds, true) := by
  obtain ⟨hne, hglobal⟩ := h.lease_keys hlease
  have hscore : (w.redis lease.keys.1).score lease.token = some x :=
    (h.agree _ hne _ x hlive).mpr ⟨hx, lease, hlease, rfl, rfl⟩
  have hfound : ∀ key, (w.redis key).score lease.token = some x →
      w.redis.zscore w.clock key lease.token = some x := fun key hkey =>
    (h.outlives.find_score hlive).mpr hkey
  rw [leaseRenew_eq, if_neg]
  simp only [List.any_cons, List.any_nil, hglobal, hfound _ hscore, hfound _ hx, Option.all_some,
    decide_eq_false (not_le.mpr hlive)]
  decide

/-- **The end of a lease** never moves back while it is not released. -/
theorem Inv.score_step (h : w.Inv hmac settings) (henforce : settings.mode = .enforce)
    (hlease : lease ∈ w.granted) (hx : (w.redis globalKey).score lease.token = some x)
    {call : LeaseCall} (hstep : LeaseWorld.step hmac settings (now, call) w = some w')
    (hlive : now < x)
    (hkeep : ∀ other, call = .release other → other.token ≠ lease.token) :
    ∃ x', x ≤ x' ∧ (w'.redis globalKey).score lease.token = some x' := by
  simp only [LeaseWorld.step] at hstep
  split_ifs at hstep with hpast
  have hwait := h.wait (not_lt.mp hpast)
  cases call with
  | wait =>
    cases hstep
    exact ⟨x, le_rfl, hx⟩
  | acquire address token =>
    simp only at hstep
    split_ifs at hstep with hused hgranted
    all_goals
      cases hstep
      have hne : lease.token ≠ token := fun heq =>
        hused (List.any_eq_true.mpr ⟨lease, List.mem_append_left _ hlease, by simpa using heq⟩)
      exact ⟨x, le_rfl, (hwait.score_acquire hne hlive).mpr hx⟩
  | reserve other =>
    simp only [henforce] at hstep
    simp at hstep
  | renew other =>
    simp only at hstep
    split_ifs at hstep with hother
    cases hstep
    rw [leaseRenew_eq]
    split_ifs with hlost
    · exact ⟨x, le_rfl, hx⟩
    · by_cases hsame : (globalKey = other.keys.1 ∨ globalKey = other.keys.2) ∧
        lease.token = other.token
      · refine ⟨now + seconds settings.leaseSeconds, hwait.bounded _ _ x hx, ?_⟩
        refine (held_scores hwait.outlives hwait.bounded _ _ _
          (lt_lease_end now (leaseSeconds_pos settings))).mpr ?_
        rw [if_pos hsame]
      · refine ⟨x, le_rfl, (held_scores hwait.outlives hwait.bounded _ _ x hlive).mpr ?_⟩
        rwa [if_neg hsame]
  | release other =>
    simp only at hstep
    split_ifs at hstep with hother
    cases hstep
    obtain ⟨-, -, hscore⟩ := leaseRelease_spec other.keys other.token hwait.outlives hwait.bounded
    exact ⟨x, le_rfl, (hscore _ _ x hlive).mpr
      ⟨hx, fun hsame => hkeep other rfl hsame.2.symm⟩⟩

/-- A granted lease ends after its whole time. -/
theorem Inv.score_granted (h : w.Inv hmac settings) {address : Str} {ipLimit globalLimit : ℕ}
    (hgranted : (leaseAcquire w.clock (settings.lease hmac address token).keys token
      settings.leaseSeconds ipLimit globalLimit w.redis).2 = true) :
    ((leaseAcquire w.clock (settings.lease hmac address token).keys token settings.leaseSeconds
      ipLimit globalLimit w.redis).1 globalKey).score token =
        some (w.clock + seconds settings.leaseSeconds) := by
  obtain ⟨hout, hbound, -, -, -⟩ :=
    purged_spec (settings.lease hmac address token).keys h.outlives h.bounded
  rw [leaseAcquire_eq] at hgranted ⊢
  split_ifs at hgranted ⊢
  refine (held_scores hout hbound _ _ _ (lt_lease_end w.clock (leaseSeconds_pos settings))).mpr ?_
  rw [if_pos ⟨.inr rfl, rfl⟩]

theorem clock_of_step {call : LeaseCall}
    (hstep : LeaseWorld.step hmac settings (now, call) w = some w') :
    w'.clock = now ∧ w.clock ≤ now := by
  simp only [LeaseWorld.step] at hstep
  split_ifs at hstep with hpast
  refine ⟨?_, not_lt.mp hpast⟩
  cases call with
  | wait =>
    cases hstep
    rfl
  | acquire address token =>
    simp only at hstep
    split_ifs at hstep
    all_goals
      cases hstep
      rfl
  | reserve other =>
    simp only at hstep
    split_ifs at hstep
    all_goals
      cases hstep
      rfl
  | renew other =>
    simp only at hstep
    split_ifs at hstep
    all_goals
      cases hstep
      rfl
  | release other =>
    simp only at hstep
    split_ifs at hstep
    all_goals
      cases hstep
      rfl

end LeaseWorld

/-! ## Timeliness -/

/-- The lease ends later than two renewals that fail in a row. -/
def StreamSettings.InTime (settings : StreamSettings) (lag : ℕ) : Prop :=
  9 * settings.timeout + 15 * lag < seconds settings.leaseSeconds

namespace StreamPhase

/-- The server has granted a lease for it. -/
def leased : StreamPhase → Bool
  | acquiring result => result = some true
  | sleeping _ => true
  | renewing _ _ => true
  | ended => false

/-- Three times the longest time from the last script of the lease to the beginning of the phase,
which is before a script that has run in it. -/
def begun (settings : StreamSettings) (lag : ℕ) : StreamPhase → ℤ
  | sleeping failures => 3 * (settings.timeout + lag) +
      failures * (seconds settings.leaseSeconds + 3 * lag + 3 * (settings.timeout + lag))
  | renewing failures none => 3 * (settings.timeout + lag) +
      failures * (seconds settings.leaseSeconds + 3 * lag + 3 * (settings.timeout + lag)) +
      (seconds settings.leaseSeconds + 3 * lag)
  | _ => 0

theorem leased_of_serving {phase : StreamPhase} (h : phase.serving = true) :
    phase.leased = true := by
  cases phase <;> first | rfl | cases h

/-- No two renewals in a row have failed, and none says that the lease is lost. -/
def sound : StreamPhase → Bool
  | sleeping failures => failures ≤ 1
  | renewing failures result => failures ≤ 1 && result ≠ some false
  | _ => true

end StreamPhase

theorem seconds_nonneg (n : ℕ) : 0 ≤ seconds n := by
  unfold seconds
  omega

section timing

variable {settings : StreamSettings} {lag : ℕ} {now last : Time} {stream : Stream}
  {phase : StreamPhase} {event : StreamEvent}

theorem le_of_not_overdue (hdue : stream.overdue settings lag now = false)
    (hover : stream.phase ≠ .ended) :
    3 * (now - stream.since) ≤ stream.phase.lasts settings + 3 * lag := by
  simpa [Stream.overdue, hover] using hdue

/-- **The lease has not ended**, two failures in. -/
theorem lt_end_of_begun (hin : settings.InTime lag) (hleased : stream.phase.leased = true)
    (hbegun : 3 * (stream.since - last) ≤ stream.phase.begun settings lag)
    (hsound : stream.phase.sound = true) (hdue : stream.overdue settings lag now = false) :
    now < last + seconds settings.leaseSeconds := by
  have hnow := le_of_not_overdue hdue (fun hover => by rw [hover] at hleased; cases hleased)
  have hpos := seconds_nonneg settings.leaseSeconds
  unfold StreamSettings.InTime at hin
  cases hphase : stream.phase with
  | acquiring result =>
    rw [hphase] at hbegun hnow
    simp only [StreamPhase.begun, StreamPhase.lasts] at hbegun hnow
    linarith
  | sleeping failures =>
    rw [hphase] at hbegun hnow hsound
    simp only [StreamPhase.begun, StreamPhase.lasts, StreamPhase.sound, decide_eq_true_eq]
      at hbegun hnow hsound
    obtain rfl | rfl : failures = 0 ∨ failures = 1 := by omega
    all_goals
      push_cast at hbegun
      linarith
  | renewing failures result =>
    rw [hphase] at hbegun hnow hsound
    simp only [StreamPhase.lasts, StreamPhase.sound, Bool.and_eq_true, decide_eq_true_eq]
      at hnow hsound
    cases result with
    | none =>
      simp only [StreamPhase.begun] at hbegun
      obtain rfl | rfl : failures = 0 ∨ failures = 1 := by omega
      all_goals
        push_cast at hbegun
        linarith
    | some renewed =>
      simp only [StreamPhase.begun] at hbegun
      linarith
  | ended =>
    rw [hphase] at hleased
    cases hleased

/-- **An event of a stream** that keeps its lease is in time as well. -/
theorem next_spec (last : Time) (hnext : StreamState.next settings now event stream = some phase)
    (hdue : stream.overdue settings lag now = false) (hleased : phase.leased = true) :
    stream.phase.leased = true ∧
      (3 * (stream.since - last) ≤ stream.phase.begun settings lag →
        stream.phase.sound = true →
          3 * (now - last) ≤ phase.begun settings lag ∧ phase.sound = true) := by
  have hpos := seconds_nonneg settings.leaseSeconds
  obtain ⟨address, current, since⟩ := stream
  have hnow : current ≠ .ended → 3 * (now - since) ≤ current.lasts settings + 3 * lag :=
    le_of_not_overdue hdue
  cases event with
  | connect address => cases hnext
  | script => cases hnext
  | reply =>
    cases current with
    | acquiring result =>
      rcases result with _ | _ | _ <;> cases hnext
      · cases hleased
      · refine ⟨rfl, fun hbegun _ => ⟨?_, rfl⟩⟩
        have hnow := hnow fun hover => by cases hover
        simp only [StreamPhase.begun, StreamPhase.lasts] at hbegun hnow ⊢
        push_cast
        linarith
    | sleeping failures => cases hnext
    | renewing failures result =>
      rcases result with _ | _ | _ <;> cases hnext
      · cases hleased
      · refine ⟨rfl, fun hbegun _ => ⟨?_, rfl⟩⟩
        have hnow := hnow fun hover => by cases hover
        simp only [StreamPhase.begun, StreamPhase.lasts] at hbegun hnow ⊢
        push_cast
        linarith
    | ended => cases hnext
  | unavailable =>
    cases current with
    | acquiring result =>
      cases hnext
      cases hleased
    | sleeping failures => cases hnext
    | renewing failures result =>
      obtain rfl := Option.some.inj hnext
      split_ifs at hleased ⊢ with hlast
      · cases hleased
      · obtain rfl : failures = 0 := by omega
        refine ⟨rfl, fun hbegun _ => ⟨?_, rfl⟩⟩
        have hnow := hnow fun hover => by cases hover
        cases result <;>
          · simp only [StreamPhase.begun, StreamPhase.lasts] at hbegun hnow ⊢
            push_cast at hbegun ⊢
            linarith
    | ended => cases hnext
  | wake =>
    unfold StreamState.next at hnext
    simp only at hnext
    split_ifs at hnext
    cases current with
    | acquiring result => cases hnext
    | sleeping failures =>
      cases hnext
      refine ⟨rfl, fun hbegun hsound => ⟨?_, ?_⟩⟩
      · have hnow := hnow fun hover => by cases hover
        simp only [StreamPhase.begun, StreamPhase.lasts] at hbegun hnow ⊢
        linarith
      · simpa [StreamPhase.sound] using hsound
    | renewing failures result => cases hnext
    | ended => cases hnext
  | close =>
    cases current <;> cases hnext
    all_goals cases hleased

end timing

/-! ## Every run -/

variable {hmac : Str → Str → Digest} {settings : StreamSettings} {lag : ℕ} {now last : Time}
  {token address : Str} {stream : Stream} {w w' : LeaseWorld}

variable (hmac settings lag) in
/-- **The lease of a stream** is granted, it ends after its whole time from its last script on, and
the phase has begun in time. -/
structure Stream.Leased (w : LeaseWorld) (token : Str) (stream : Stream) (last : Time) : Prop where
  granted : settings.lease hmac stream.address token ∈ w.granted
  score : ∃ x, last + seconds settings.leaseSeconds ≤ x ∧
    (w.redis globalKey).score token = some x
  begun : 3 * (stream.since - last) ≤ stream.phase.begun settings lag
  sound : stream.phase.sound = true

namespace Stream

theorem Leased.now_lt (h : Leased hmac settings lag w token stream last)
    (hin : settings.InTime lag) (hleased : stream.phase.leased = true)
    (hdue : stream.overdue settings lag now = false) :
    now < last + seconds settings.leaseSeconds :=
  lt_end_of_begun hin hleased h.begun h.sound hdue

/-- A call that does not release a lease keeps it. -/
theorem Leased.kept (h : Leased hmac settings lag w token stream last)
    (hinv : w.Inv hmac settings.toLimitSettings) (henforce : settings.mode = .enforce)
    {call : LeaseCall}
    (hstep : LeaseWorld.step hmac settings.toLimitSettings (now, call) w = some w')
    (hnow : now < last + seconds settings.leaseSeconds)
    (hkeep : ∀ other, call = .release other → other.token ≠ token) :
    Leased hmac settings lag w' token stream last := by
  obtain ⟨x, hle, hx⟩ := h.score
  obtain ⟨x', hle', hx'⟩ :=
    hinv.score_step henforce h.granted hx hstep (hnow.trans_le hle) hkeep
  exact ⟨(hinv.step henforce hstep).2.1 _ h.granted, ⟨x', hle.trans hle', hx'⟩, h.begun, h.sound⟩

end Stream

namespace StreamState

variable {s s' : StreamState}

variable (hmac settings lag) in
/-- **The invariant** of the streams. -/
structure Inv (s : StreamState) : Prop where
  world : s.world.Inv hmac settings.toLimitSettings
  due : ∀ token stream, Dict.get? token s.streams = some stream →
    stream.since ≤ s.world.clock ∧ stream.overdue settings lag s.world.clock = false
  leased : ∀ token stream, Dict.get? token s.streams = some stream → stream.phase.leased = true →
    ∃ last, Stream.Leased hmac settings lag s.world token stream last

theorem Inv.empty (start : Time) : Inv hmac settings lag (.empty start) where
  world := LeaseWorld.Inv.empty start
  due _ _ hfound := by cases hfound
  leased _ _ hfound := by cases hfound

/-- A phase that has just begun is not overdue. -/
theorem fresh_not_overdue (address : Str) (phase : StreamPhase) (now : Time) :
    Stream.overdue settings lag now ⟨address, phase, now⟩ = false := by
  have hpos : 0 ≤ phase.lasts settings := by
    have := seconds_nonneg settings.leaseSeconds
    cases phase <;> simp only [StreamPhase.lasts] <;> omega
  have hlate : ¬phase.lasts settings + 3 * lag < 3 * (now - now) := by
    rw [sub_self, mul_zero, not_lt]
    exact add_nonneg hpos (by positivity)
  simp only [Stream.overdue, hlate, decide_false, Bool.and_false]

/-- The script that a stream waits for **grants or renews its lease now**. -/
theorem leased_of_ran (h : s.Inv hmac settings lag) (hin : settings.InTime lag)
    (hfound : Dict.get? token s.streams = some stream)
    (hdue : stream.overdue settings lag now = false) {call : LeaseCall}
    (hcall : awaited hmac settings token stream = some call)
    (hstep : LeaseWorld.step hmac settings.toLimitSettings (now, call) s.world = some w')
    (hleased : (stream.phase.ran (result hmac settings now call s.world.redis)).leased = true) :
    Stream.Leased hmac settings lag w' token
      { stream with phase := stream.phase.ran (result hmac settings now call s.world.redis) }
      now := by
  have hclock := (LeaseWorld.clock_of_step hstep).2
  have hwait := h.world.wait hclock
  have hsince : 3 * (stream.since - now) ≤ 0 := by
    have := (h.due token stream hfound).1
    linarith
  obtain ⟨address, phase, since⟩ := stream
  simp only [awaited] at hcall
  simp only at hleased hsince ⊢
  cases phase with
  | acquiring outcome =>
    cases outcome with
    | none =>
      cases hcall
      simp only [LeaseWorld.step, hclock.not_gt, if_false] at hstep
      split_ifs at hstep with hused hgranted
      · cases hstep
        have hran : result hmac settings now (.acquire address token) s.world.redis = true :=
          hgranted
        rw [hran]
        exact ⟨List.mem_cons_self, ⟨_, le_rfl, hwait.score_granted hgranted⟩, hsince, rfl⟩
      · -- a refused lease is no lease
        have hran : result hmac settings now (.acquire address token) s.world.redis = false :=
          Bool.not_eq_true _ ▸ hgranted
        rw [hran] at hleased
        cases hleased
    | some outcome => cases hcall
  | sleeping failures => cases hcall
  | renewing failures outcome =>
    cases outcome with
    | none =>
      cases hcall
      obtain ⟨last, hlease⟩ := h.leased token _ hfound rfl
      obtain ⟨x, hle, hx⟩ := hlease.score
      have hlive : now < x := (hlease.now_lt hin rfl hdue).trans_le hle
      have hrenew := hwait.renew_eq hlease.granted hx hlive
      have hran : result hmac settings now (.renew (settings.lease hmac address token))
          s.world.redis = true := congrArg Prod.snd hrenew
      simp only [LeaseWorld.step, hclock.not_gt, if_false, if_pos hlease.granted] at hstep
      cases hstep
      rw [hran]
      refine ⟨hlease.granted, ⟨now + seconds settings.leaseSeconds, le_rfl, ?_⟩, hsince, ?_⟩
      · have hredis := congrArg Prod.fst hrenew
        simp only at hredis ⊢
        rw [hredis]
        refine (LeaseWorld.held_scores hwait.outlives hwait.bounded globalKey token _
          (lt_lease_end now (LeaseWorld.leaseSeconds_pos settings.toLimitSettings))).mpr ?_
        rw [if_pos ⟨.inr rfl, rfl⟩]
      · simpa [StreamPhase.sound, StreamPhase.ran] using hlease.sound
    | some outcome => cases hcall
  | ended => cases hcall

theorem awaited_ne_release {lease : Lease} :
    awaited hmac settings token stream ≠ some (.release lease) := by
  unfold awaited
  split <;> simp

theorem ran_overdue (outcome : Bool) :
    Stream.overdue settings lag now { stream with phase := stream.phase.ran outcome } =
      stream.overdue settings lag now := by
  obtain ⟨address, phase, since⟩ := stream
  cases phase with
  | acquiring known => cases known <;> rfl
  | sleeping failures => rfl
  | renewing failures known => cases known <;> rfl
  | ended => rfl

/-- **The streams that a call is not of** keep their leases. -/
theorem Inv.kept (h : s.Inv hmac settings lag) (henforce : settings.mode = .enforce)
    (hin : settings.InTime lag)
    (htimely : ∀ item ∈ s.streams, item.2.overdue settings lag now = false) {call : LeaseCall}
    (hstep : LeaseWorld.step hmac settings.toLimitSettings (now, call) s.world = some w')
    (hfound : Dict.get? token s.streams = some stream)
    (hkeep : stream.phase.leased = true → ∀ other, call = .release other → other.token ≠ token) :
    (stream.since ≤ w'.clock ∧ stream.overdue settings lag w'.clock = false) ∧
      (stream.phase.leased = true →
        ∃ last, Stream.Leased hmac settings lag w' token stream last) := by
  obtain ⟨hclock, hpast⟩ := LeaseWorld.clock_of_step hstep
  have hdue := htimely _ (Dict.mem_of_get? hfound)
  rw [hclock]
  refine ⟨⟨(h.due token stream hfound).1.trans hpast, hdue⟩, fun hleased => ?_⟩
  obtain ⟨last, hlease⟩ := h.leased token stream hfound hleased
  exact ⟨last, hlease.kept h.world henforce hstep (hlease.now_lt hin hleased hdue)
    (hkeep hleased)⟩

/-- A call of one stream, which gets a new phase. -/
theorem Inv.set (h : s.Inv hmac settings lag) (henforce : settings.mode = .enforce)
    (hin : settings.InTime lag)
    (htimely : ∀ item ∈ s.streams, item.2.overdue settings lag now = false) {call : LeaseCall}
    (hstep : LeaseWorld.step hmac settings.toLimitSettings (now, call) s.world = some w')
    (hkeep : ∀ other, call ≠ .release other) {token : Str} {stream : Stream}
    (hdue : stream.since ≤ now ∧ stream.overdue settings lag now = false)
    (hleased : stream.phase.leased = true →
      ∃ last, Stream.Leased hmac settings lag w' token stream last) :
    Inv hmac settings lag ⟨w', Dict.set token stream s.streams⟩ := by
  have hclock := (LeaseWorld.clock_of_step hstep).1
  have hothers : ∀ other known, Dict.get? other (Dict.set token stream s.streams) = some known →
      (known.since ≤ w'.clock ∧ known.overdue settings lag w'.clock = false) ∧
        (known.phase.leased = true →
          ∃ last, Stream.Leased hmac settings lag w' other known last) := by
    intro other known hknown
    rw [Dict.get?_set] at hknown
    split_ifs at hknown with hsame
    · cases hknown
      rw [hclock]
      exact ⟨hdue, hsame ▸ hleased⟩
    · exact h.kept henforce hin htimely hstep hknown fun _ other heq => absurd heq (hkeep other)
  exact ⟨(h.world.step henforce hstep).1, fun other known hknown => (hothers other known hknown).1,
    fun other known hknown => (hothers other known hknown).2⟩

/-- **A step** keeps the invariant. -/
theorem Inv.step (h : s.Inv hmac settings lag) (henforce : settings.mode = .enforce)
    (hin : settings.InTime lag) {action : Time × StreamCall}
    (hstep : StreamState.step hmac settings lag action s = some s') : s'.Inv hmac settings lag := by
  obtain ⟨now, call⟩ := action
  unfold StreamState.step at hstep
  simp only at hstep
  split_ifs at hstep with hlate
  have htimely : ∀ item ∈ s.streams, item.2.overdue settings lag now = false := fun item hitem =>
    Bool.eq_false_iff.mpr fun heq => hlate (List.any_eq_true.mpr ⟨item, hitem, heq⟩)
  -- an event that is not a script begins a phase now
  have hbegin : ∀ {token : Str} {stream : Stream} {event : StreamEvent} {phase : StreamPhase},
      Dict.get? token s.streams = some stream → next settings now event stream = some phase →
      ∀ {world : LeaseWorld}, LeaseWorld.step hmac settings.toLimitSettings (now, .wait) s.world =
        some world → Inv hmac settings lag
          ⟨world, Dict.set token { stream with phase := phase, since := now } s.streams⟩ := by
    intro token stream event phase hfound hnext world hwait
    refine h.set henforce hin htimely hwait (fun _ => LeaseCall.noConfusion)
      ⟨le_rfl, fresh_not_overdue stream.address phase now⟩ fun hleased => ?_
    have hdue := htimely _ (Dict.mem_of_get? hfound)
    have hbefore := (next_spec now hnext hdue hleased).1
    obtain ⟨last, hlease⟩ := h.leased _ stream hfound hbefore
    obtain ⟨hbegun, hsound⟩ :=
      (next_spec last hnext hdue hleased).2 hlease.begun hlease.sound
    have hkept := hlease.kept h.world henforce hwait (hlease.now_lt hin hbefore hdue)
      fun _ heq => by cases heq
    exact ⟨last, hkept.granted, hkept.score, hbegun, hsound⟩
  cases call with
  | stream token event =>
    cases event with
    | connect address =>
      simp only at hstep
      split_ifs at hstep with hknown
      obtain ⟨world, hwait, rfl⟩ := Option.map_eq_some_iff.mp hstep
      exact h.set henforce hin htimely hwait (fun _ => LeaseCall.noConfusion)
        ⟨le_rfl, fresh_not_overdue address _ now⟩ fun hleased => by cases hleased
    | script =>
      obtain ⟨stream, hfound, hstep⟩ := Option.bind_eq_some_iff.mp hstep
      obtain ⟨call, hcall, hstep⟩ := Option.bind_eq_some_iff.mp hstep
      obtain ⟨world, hrun, rfl⟩ := Option.map_eq_some_iff.mp hstep
      have hdue := htimely _ (Dict.mem_of_get? hfound)
      have hpast := (LeaseWorld.clock_of_step hrun).2
      refine h.set henforce hin htimely hrun (fun other heq => ?_)
        ⟨(h.due token stream hfound).1.trans hpast, ?_⟩
        fun hleased => ⟨now, leased_of_ran h hin hfound hdue hcall hrun hleased⟩
      · subst heq
        exact awaited_ne_release hcall
      · exact (ran_overdue _).trans hdue
    | reply | unavailable | wake | close =>
      obtain ⟨stream, hfound, hstep⟩ := Option.bind_eq_some_iff.mp hstep
      obtain ⟨phase, hnext, hstep⟩ := Option.bind_eq_some_iff.mp hstep
      obtain ⟨world, hwait, rfl⟩ := Option.map_eq_some_iff.mp hstep
      exact hbegin hfound hnext hwait
  | other call =>
    simp only at hstep
    split_ifs at hstep with hmay
    obtain ⟨world, hrun, rfl⟩ := Option.map_eq_some_iff.mp hstep
    have hkept := fun token stream (hfound : Dict.get? token s.streams = some stream) =>
      h.kept henforce hin htimely hrun hfound fun hleased other heq hsame => by
        -- a release comes after the stream
        subst heq
        have hover : stream.phase = .ended := by
          have hfinished : s.finished other.token = true := hmay
          rw [hsame, finished, hfound] at hfinished
          simpa using hfinished
        rw [hover] at hleased
        cases hleased
    exact ⟨(h.world.step henforce hrun).1, fun token stream hfound => (hkept token stream hfound).1,
      fun token stream hfound => (hkept token stream hfound).2⟩

end StreamState

/-! ## Served streams -/

/-- **No stream is served without its lease**: while the timeouts and the lag are short enough, the
token of every stream that is served is live in both sets, and so no more streams are served than
the limits permit. -/
theorem served_streams_leased (hmac : Str → Str → Digest) (settings : StreamSettings) (lag : ℕ)
    (henforce : settings.mode = .enforce)
    (hin : 9 * settings.timeout + 15 * lag < seconds settings.leaseSeconds) (start : Time)
    (actions : List (Time × StreamCall)) (s : StreamState)
    (hrun : StreamState.run hmac settings lag start actions = some s) :
    (∀ token address, s.Serves token address →
      token ∈ s.world.redis.live s.world.clock
        (opaqueKey hmac settings.secret "streams".toList address) ∧
      token ∈ s.world.redis.live s.world.clock globalKey) ∧
    (∀ address (tokens : Finset Str), (∀ token ∈ tokens, s.Serves token address) →
      tokens.card ≤ settings.streamsPerIp) ∧
    ∀ tokens : Finset Str, (∀ token ∈ tokens, ∃ address, s.Serves token address) →
      tokens.card ≤ settings.streamsTotal := by
  have hinv : s.Inv hmac settings lag :=
    Interleaving.run_invariant (I := StreamState.Inv hmac settings lag) (.empty start)
      (fun _ _ _ _ _ _ _ hstep h => h.step henforce hin hstep) hrun
  have hlive : ∀ token address, s.Serves token address →
      token ∈ s.world.redis.live s.world.clock
        (opaqueKey hmac settings.secret "streams".toList address) ∧
      token ∈ s.world.redis.live s.world.clock globalKey := by
    rintro token address ⟨stream, hfound, rfl, hserving⟩
    have hleased : stream.phase.leased = true := StreamPhase.leased_of_serving hserving
    obtain ⟨last, hlease⟩ := hinv.leased token stream hfound hleased
    obtain ⟨x, hle, hx⟩ := hlease.score
    have hglobal : token ∈ s.world.redis.live s.world.clock globalKey :=
      hinv.world.outlives.mem_live.mpr
        ⟨x, hx, (hlease.now_lt hin hleased (hinv.due token stream hfound).2).trans_le hle⟩
    exact ⟨(hinv.world.live_iff hlease.granted).mpr hglobal, hglobal⟩
  refine ⟨hlive, fun address tokens hserved => ?_, fun tokens hserved => ?_⟩
  · have hsub : tokens ⊆ s.world.redis.live s.world.clock
        (opaqueKey hmac settings.secret "streams".toList address) := fun token hmem =>
      (hlive token address (hserved token hmem)).1
    exact (Finset.card_le_card hsub).trans
      (hinv.world.per_ip _ (opaqueKey_ne_global hmac settings.secret address))
  · have hsub : tokens ⊆ s.world.redis.live s.world.clock globalKey := fun token hmem => by
      obtain ⟨address, hserves⟩ := hserved token hmem
      exact (hlive token address hserves).2
    exact (Finset.card_le_card hsub).trans hinv.world.total

/-- One stream of an address, with a quarter of a second for each call. -/
def narrowStreamsSettings : StreamSettings := { narrowSettings with
  timeout := 250000
  timeout_bounds := by decide }

def narrowAddress : Str := "203.0.113.7".toList

/-- A stream whose first renewal fails. -/
def failedRenewal : List (Time × StreamCall) :=
  [(0, .stream "a".toList (.connect narrowAddress)), (0, .stream "a".toList .script),
    (250000, .stream "a".toList .reply), (seconds 20 + 250000, .stream "a".toList .wake),
    (seconds 20 + 500000, .stream "a".toList .unavailable),
    (seconds 40 + 500000, .stream "a".toList .wake),
    (seconds 40 + 750000, .stream "a".toList .script)]

/-- It is served, and its lease is live. -/
theorem failed_renewal_leased : ∃ s,
    StreamState.run (fun _ _ => addressDigest) narrowStreamsSettings 1000 0 failedRenewal =
      some s ∧ s.Serves "a".toList narrowAddress ∧
      "a".toList ∈ s.world.redis.live s.world.clock globalKey := by
  have hphase : (StreamState.run (fun _ _ => addressDigest) narrowStreamsSettings 1000 0
      failedRenewal).bind (fun s => Dict.get? "a".toList s.streams) =
        some ⟨narrowAddress, .renewing 1 (some true), seconds 40 + 500000⟩ := by decide +kernel
  obtain ⟨s, hrun, hfound⟩ := Option.bind_eq_some_iff.mp hphase
  have hserves : s.Serves "a".toList narrowAddress := ⟨_, hfound, rfl, rfl⟩
  have hleased := (served_streams_leased (fun _ _ => addressDigest) narrowStreamsSettings 1000
    rfl (by decide) 0 failedRenewal s hrun).1
  exact ⟨s, hrun, hserves, (hleased _ _ hserves).2⟩

/-- The checks of the settings permit timeouts for which two failures take longer than a lease. -/
example : (StreamState.run (fun _ _ => addressDigest)
    { narrowSettings with
      leaseSeconds := 6
      lease_bounds := by decide
      timeout := 5000000
      timeout_bounds := by decide } 0 0
    [(0, .stream "a".toList (.connect narrowAddress)), (0, .stream "a".toList .script),
      (seconds 4, .stream "a".toList .reply), (seconds 6, .stream "a".toList .wake),
      (seconds 7, .other .wait)]).map (fun s =>
        ((Dict.get? "a".toList s.streams).map (·.phase),
          (s.world.redis.live s.world.clock globalKey).card)) =
      some (some (.renewing 0 none), 0) := by decide +kernel

end JobPing
