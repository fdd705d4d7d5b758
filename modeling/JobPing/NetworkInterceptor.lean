import JobPing.IndexedQueues
import JobPing.Interleaving
import JobPing.Json
import JobPing.Schema
import JobPing.UrlParse

/-!
# Captured responses

`app/scrapers/network_interceptor.py`: a task reads the body of a response, leaves it if its
fingerprint is retained, and adds it under the condition. A task is suspended at the condition only
while another one has it, and none has it while it is suspended, so the test and the addition are one
step; calls that wait for payloads release the condition before they wait. Hence the retained
payloads, their fingerprints and their size stay in step in every run (`interceptor_bookkeeping`).
-/

namespace JobPing

/-! ## Payloads -/

/-- What the interceptor calls besides the standard library's URLs. -/
structure InterceptorEnv extends Python where
  /-- `json.dumps(·, sort_keys=True, separators=(",", ":"), ensure_ascii=False)`. -/
  dumps : Json → Str
  /-- `hashlib.sha256(·.encode()).hexdigest()`. -/
  sha256 : Str → Str

/-- A response of the browser. The body is `None` where `response.json()` raises, or `encode` does on
half of a surrogate pair in it. -/
structure BrowserResponse where
  url : Str
  status : ℕ
  method : Str
  resourceType : Str
  headers : List (Str × Str)
  body : Option Json

structure CapturedPayload where
  url : Str
  status : ℕ
  method : Str
  capturedAt : Time
  payload : Json
  contentType : Str
  estimatedBytes : ℕ

/-- The arguments of `NetworkInterceptor`, with its checks. -/
structure InterceptorConfig where
  /-- One of `url_patterns` is found in a URL. -/
  urlMatch : Str → Bool
  maxPayloads : ℕ
  maxEstimatedBytes : Option ℕ
  redactKeys : List Str
  maxPayloads_pos : 0 < maxPayloads
  maxBytes_pos : ∀ bytes ∈ maxEstimatedBytes, 0 < bytes

variable (env : InterceptorEnv) (config : InterceptorConfig)

namespace BrowserResponse

/-- `_content_type(response.headers)`. -/
def contentType (response : BrowserResponse) : Str :=
  env.casefold (((response.headers.lookup "content-type".toList).or
    (response.headers.lookup "Content-Type".toList)).getD [])

/-- `_is_relevant`. -/
def isRelevant (response : BrowserResponse) : Bool :=
  let urlMatch := config.urlMatch response.url
  let resourceMatch :=
    response.resourceType = "xhr".toList || response.resourceType = "fetch".toList
  let contentType := response.contentType env
  let jsonType := "json".toList <:+: contentType || "graphql".toList <:+: contentType
  200 ≤ response.status && response.status < 300 && (urlMatch || resourceMatch) &&
    (jsonType || urlMatch)

/-- `_redact_url`; `none` stands for a `ValueError`. -/
def redactUrl (url : Str) : Option Str :=
  (urlsplit env.toPython url).map fun parts =>
    let query := urlencode ((parseQsl true parts.query).map fun item =>
      (item.1, if env.casefold item.1 ∈ config.redactKeys then "[REDACTED]".toList else item.2))
    urlunsplit { parts with query := query }

/-- The text that is hashed. -/
def hashed (method url : Str) (status : ℕ) (encoded : Str) : Str :=
  method ++ '\x00' :: url ++ '\x00' :: (toString status).toList ++ '\x00' :: encoded

end BrowserResponse

/-- `_fingerprint`. -/
def CapturedPayload.fingerprint (item : CapturedPayload) : Str :=
  env.sha256 (BrowserResponse.hashed item.method item.url item.status (env.dumps item.payload))

/-- What `_capture` does before it acquires the condition, if it gets there: a response that is not
read, has a bad URL or is retained already is left. The values of `response.json()` are those of
JSON, which `_validate_json` returns as they are. -/
def BrowserResponse.captured (response : BrowserResponse) (fingerprints : Finset Str) (now : Time) :
    Option CapturedPayload :=
  response.body.bind fun payload =>
    (BrowserResponse.redactUrl env config response.url).bind fun url =>
      let encoded := env.dumps payload
      let fingerprint :=
        env.sha256 (BrowserResponse.hashed response.method url response.status encoded)
      if fingerprint ∈ fingerprints then none
      else some
        { url := url
          status := response.status
          method := response.method
          capturedAt := now
          payload := payload
          contentType := response.contentType env
          estimatedBytes := (encoded.flatMap utf8Encode).length }

/-! ## The interceptor -/

/-- What a task does while it has the condition. -/
inductive LockedSection
  /-- `_capture` adds a payload. -/
  | add (captured : CapturedPayload)
  /-- `wait_for_payloads` looks for payloads. -/
  | check (count : ℕ) (predicate : CapturedPayload → Bool)

/-- A task of `_capture`, or a call of `wait_for_payloads`. -/
inductive InterceptorTask
  /-- At `await response.json()`. -/
  | reading (response : BrowserResponse)
  /-- Suspended at the condition, which another task has. -/
  | acquiring (body : LockedSection)
  /-- In `self._condition.wait_for`, with the condition released. -/
  | waiting (count : ℕ) (predicate : CapturedPayload → Bool)
  /-- Notified, or not begun: the condition is acquired next. -/
  | checking (count : ℕ) (predicate : CapturedPayload → Bool)
  | done

/-- `notify_all`. -/
def InterceptorTask.notified : InterceptorTask → InterceptorTask
  | waiting count predicate => checking count predicate
  | task => task

/-- The task is in the queue of the lock. -/
def InterceptorTask.isAcquiring : InterceptorTask → Bool
  | acquiring _ => true
  | _ => false

/-- The payloads with their fingerprints and size, the tasks, whether the condition is acquired, and
whether `_trim` has raised. -/
structure Interceptor where
  retained : IndexedQueue CapturedPayload Str
  tasks : List InterceptorTask
  locked : Bool
  closed : Bool
  raised : Bool

inductive InterceptorAction
  | onResponse (response : BrowserResponse)
  | read (task : ℕ) (now : Time)
  | waitForPayloads (count : ℕ) (predicate : CapturedPayload → Bool)
  | wake (task : ℕ)
  /-- A task in the queue of the lock gets it. -/
  | acquire (task : ℕ)
  | cancel (task : ℕ)
  | drain
  | aclose

namespace Interceptor

def start : Interceptor := ⟨.empty, [], false, false, false⟩

/-- The condition of the loop of `_trim`. -/
def overLimits (payloads : ℕ) (estimatedBytes : ℤ) : Bool :=
  config.maxPayloads < payloads ||
    config.maxEstimatedBytes.any fun bytes => bytes < estimatedBytes

/-- The body of `async with self._condition` in `_capture`: the payload is added, `_trim` runs, and
the calls that wait are notified unless it raises. -/
def add (captured : CapturedPayload) (s : Interceptor) : Interceptor :=
  let result :=
    s.retained.push (·.fingerprint env) (·.estimatedBytes) (overLimits config) captured
  { s with
    retained := result.1
    tasks := if result.2.isSome then s.tasks else s.tasks.map InterceptorTask.notified
    raised := s.raised || result.2.isSome }

/-- What a task does with the condition, up to its next suspension or its end. A predicate that raises
ends the call as one that is satisfied does. -/
def perform (task : ℕ) (body : LockedSection) (s : Interceptor) : Interceptor :=
  match body with
  | .add captured =>
    let s := s.add env config captured
    { s with tasks := s.tasks.set task .done }
  | .check count predicate =>
    if count ≤ (s.retained.items.filter predicate).length then
      { s with tasks := s.tasks.set task .done }
    else { s with tasks := s.tasks.set task (.waiting count predicate) }

/-- The lock is acquired and, at the next suspension or at the end, released. -/
def withCondition (task : ℕ) (body : LockedSection) (s : Interceptor) : Interceptor :=
  { perform env config task body { s with locked := true } with locked := false }

/-- `async with self._condition`: a task is suspended where the lock is taken or others wait for it,
and goes on at once where it is free. -/
def enter (task : ℕ) (body : LockedSection) (s : Interceptor) : Interceptor :=
  if s.locked || s.tasks.any InterceptorTask.isAcquiring then
    { s with tasks := s.tasks.set task (.acquiring body) }
  else s.withCondition env config task body

/-- A step of the event loop: a task runs up to its next suspension. -/
def step (action : InterceptorAction) (s : Interceptor) : Option Interceptor :=
  match action with
  | .onResponse response =>
    if s.closed || !response.isRelevant env config then some s
    else some { s with tasks := s.tasks ++ [.reading response] }
  | .read task now =>
    match s.tasks[task]? with
    | some (.reading response) =>
      match response.captured env config s.retained.keys now with
      | some captured => some (s.enter env config task (.add captured))
      | none => some { s with tasks := s.tasks.set task .done }
    | _ => none
  | .waitForPayloads count predicate =>
    if count = 0 then some s else some { s with tasks := s.tasks ++ [.checking count predicate] }
  | .wake task =>
    match s.tasks[task]? with
    | some (.checking count predicate) => some (s.enter env config task (.check count predicate))
    | _ => none
  | .acquire task =>
    match s.tasks[task]? with
    | some (.acquiring body) =>
      if s.locked then none else some (s.withCondition env config task body)
    | _ => none
  | .cancel task => some { s with tasks := s.tasks.set task .done }
  | .drain => some { s with retained := .empty }
  | .aclose => some { s with closed := true, tasks := s.tasks.map fun _ => .done }

/-- The state after some steps. -/
def run (actions : List InterceptorAction) : Option Interceptor :=
  Interleaving.run (step env config) start actions

/-- The payloads have different fingerprints, `_fingerprints` and `_estimated_bytes` are theirs,
both limits hold, and `_trim` has not raised. -/
structure Consistent (s : Interceptor) : Prop where
  retained : s.retained.Consistent (·.fingerprint env) (·.estimatedBytes) (overLimits config)
  never_raised : s.raised = false

/-- **Between steps the condition is free**, and no task is suspended at it. -/
structure Free (s : Interceptor) : Prop where
  unlocked : s.locked = false
  no_queue : ∀ task ∈ s.tasks, task.isAcquiring = false

/-- What every step keeps. -/
structure Sound (s : Interceptor) : Prop where
  consistent : s.Consistent env config
  free : s.Free

variable {env config} {s s' : Interceptor} {action : InterceptorAction} {task : ℕ}
  {tasks : List InterceptorTask} {body : LockedSection} {captured : CapturedPayload}

theorem overLimits_zero : overLimits config 0 0 = false := by
  unfold overLimits
  rw [Bool.or_eq_false_iff, decide_eq_false_iff_not]
  refine ⟨Nat.not_lt_zero _, ?_⟩
  cases config.maxEstimatedBytes with
  | none => rfl
  | some bytes => exact decide_eq_false (not_lt.mpr (Int.natCast_nonneg bytes))

theorem sound_start : (start : Interceptor).Sound env config where
  consistent := ⟨IndexedQueue.empty_consistent overLimits_zero, rfl⟩
  free := ⟨rfl, fun _ h => absurd h List.not_mem_nil⟩

/-! ### Tasks -/

theorem isAcquiring_notified (task : InterceptorTask) :
    task.notified.isAcquiring = task.isAcquiring := by
  cases task <;> rfl

/-- A task that goes on is not in the queue of the lock. -/
theorem no_queue_set (h : ∀ other ∈ tasks, other.isAcquiring = false) {next : InterceptorTask}
    (hnext : next.isAcquiring = false) :
    ∀ other ∈ tasks.set task next, other.isAcquiring = false := by
  intro other hother
  rcases List.mem_or_eq_of_mem_set hother with hother | rfl
  · exact h other hother
  · exact hnext

/-- Other tasks, and the same payloads. -/
theorem Sound.of_tasks (h : s.Sound env config)
    (htasks : ∀ other ∈ tasks, other.isAcquiring = false) :
    Sound env config { s with tasks := tasks } where
  consistent := ⟨h.consistent.retained, h.consistent.never_raised⟩
  free := ⟨h.free.unlocked, htasks⟩

/-- What passes the test has a fingerprint that is not retained. -/
theorem captured_fresh {response : BrowserResponse} {fingerprints : Finset Str} {now : Time}
    (h : response.captured env config fingerprints now = some captured) :
    captured.fingerprint env ∉ fingerprints := by
  obtain ⟨payload, -, h⟩ := Option.bind_eq_some_iff.mp h
  obtain ⟨url, -, h⟩ := Option.bind_eq_some_iff.mp h
  dsimp only at h
  split_ifs at h with hmem
  obtain rfl := Option.some.inj h
  exact hmem

/-! ### Sections -/

/-- A payload is added whose fingerprint is not retained. -/
theorem Consistent.add (h : s.Consistent env config)
    (hfresh : captured.fingerprint env ∉ s.retained.keys) :
    (s.add env config captured).Consistent env config := by
  obtain ⟨hnone, hretained⟩ :=
    (IndexedQueue.push_consistent_iff overLimits_zero h.retained).mpr hfresh
  refine ⟨hretained, Bool.or_eq_false_iff.mpr ⟨h.never_raised, ?_⟩⟩
  exact congrArg Option.isSome hnone

/-- **A task with the condition** keeps the bookkeeping and releases the condition. -/
theorem Sound.withCondition (h : s.Sound env config)
    (hfresh : ∀ captured, body = .add captured →
      captured.fingerprint env ∉ s.retained.keys) :
    (s.withCondition env config task body).Sound env config := by
  cases body with
  | add captured =>
    have hadd : (Interceptor.add env config captured { s with locked := true }).Consistent env
        config :=
      Consistent.add (s := { s with locked := true })
        ⟨h.consistent.retained, h.consistent.never_raised⟩ (hfresh captured rfl)
    refine ⟨⟨hadd.retained, hadd.never_raised⟩, rfl, ?_⟩
    refine no_queue_set (fun other hother => ?_) rfl
    unfold Interceptor.add at hother
    dsimp only at hother
    split_ifs at hother
    · exact h.free.no_queue other hother
    · obtain ⟨before, hbefore, rfl⟩ := List.mem_map.mp hother
      rw [isAcquiring_notified]
      exact h.free.no_queue before hbefore
  | check count predicate =>
    unfold Interceptor.withCondition perform
    dsimp only
    split_ifs
    · exact ⟨⟨h.consistent.retained, h.consistent.never_raised⟩, rfl,
        no_queue_set h.free.no_queue rfl⟩
    · exact ⟨⟨h.consistent.retained, h.consistent.never_raised⟩, rfl,
        no_queue_set h.free.no_queue rfl⟩

/-- **The condition is acquired at once**, where it is free. -/
theorem Free.enter (h : s.Free) :
    s.enter env config task body = s.withCondition env config task body := by
  have hqueue : s.tasks.any InterceptorTask.isAcquiring = false :=
    List.any_eq_false.mpr fun task htask => by simp [h.no_queue task htask]
  rw [Interceptor.enter, h.unlocked, hqueue]
  rfl

/-- **One step** keeps the bookkeeping. -/
theorem Sound.step (h : s.Sound env config) (hstep : s.step env config action = some s') :
    s'.Sound env config := by
  cases action with
  | onResponse response =>
    unfold Interceptor.step at hstep
    dsimp only at hstep
    split_ifs at hstep <;> cases hstep
    · exact h
    · refine h.of_tasks fun other hother => ?_
      rcases List.mem_append.mp hother with hother | hother
      · exact h.free.no_queue other hother
      · rw [List.mem_singleton.mp hother]
        rfl
  | read task now =>
    unfold Interceptor.step at hstep
    dsimp only at hstep
    split at hstep
    · split at hstep
      next captured hcaptured =>
        -- the test and the addition, with no other step in between
        cases hstep
        rw [h.free.enter]
        refine h.withCondition fun other hother => ?_
        cases hother
        exact captured_fresh hcaptured
      · cases hstep
        exact h.of_tasks (no_queue_set h.free.no_queue rfl)
    · cases hstep
  | waitForPayloads count predicate =>
    unfold Interceptor.step at hstep
    dsimp only at hstep
    split_ifs at hstep <;> cases hstep
    · exact h
    · refine h.of_tasks fun other hother => ?_
      rcases List.mem_append.mp hother with hother | hother
      · exact h.free.no_queue other hother
      · rw [List.mem_singleton.mp hother]
        rfl
  | wake task =>
    unfold Interceptor.step at hstep
    dsimp only at hstep
    split at hstep
    · cases hstep
      rw [h.free.enter]
      exact h.withCondition fun other hother => by cases hother
    · cases hstep
  | acquire task =>
    unfold Interceptor.step at hstep
    dsimp only at hstep
    split at hstep
    next body htask =>
      -- nobody is in the queue
      have hnot := h.free.no_queue _ (List.mem_of_getElem? htask)
      cases hnot
    · cases hstep
  | cancel task =>
    cases hstep
    exact h.of_tasks (no_queue_set h.free.no_queue rfl)
  | drain =>
    cases hstep
    exact ⟨⟨sound_start.consistent.retained, h.consistent.never_raised⟩, h.free.unlocked,
      h.free.no_queue⟩
  | aclose =>
    cases hstep
    refine ⟨⟨h.consistent.retained, h.consistent.never_raised⟩, h.free.unlocked,
      fun other hother => ?_⟩
    obtain ⟨-, -, rfl⟩ := List.mem_map.mp hother
    rfl

theorem Consistent.length_le (h : s.Consistent env config) :
    s.retained.items.length ≤ config.maxPayloads :=
  not_lt.mp (of_decide_eq_false (Bool.or_eq_false_iff.mp h.retained.within).1)

/-- **The bookkeeping of a run** is right in every state it reaches. -/
theorem interceptor_bookkeeping (env : InterceptorEnv) (config : InterceptorConfig)
    {actions : List InterceptorAction} {s : Interceptor} (hrun : run env config actions = some s) :
    s.Consistent env config := by
  have hsound : s.Sound env config :=
    Interleaving.run_invariant (I := fun s => s.Sound env config) sound_start
      (fun _ _ _ _ _ _ _ hstep h => h.step hstep) hrun
  exact hsound.consistent

end Interceptor

/-! ## The same response twice -/

open Interceptor

/-- ASCII texts that are their own digests. -/
def InterceptorEnv.plain : InterceptorEnv where
  toPython := .ascii
  dumps _ := "{}".toList
  sha256 text := text

theorem sample_maxBytes_pos : ∀ bytes ∈ (none : Option ℕ), 0 < bytes := by simp

/-- An interceptor of API responses that retains at most a number of payloads. -/
def apiConfig (maxPayloads : ℕ) (h : 0 < maxPayloads) : InterceptorConfig where
  urlMatch url := "/api/".toList <:+: url
  maxPayloads := maxPayloads
  maxEstimatedBytes := none
  redactKeys := []
  maxPayloads_pos := h
  maxBytes_pos := sample_maxBytes_pos

/-- A page of the API. -/
def apiResponse (page : String) : BrowserResponse where
  url := "https://acme.example/api/jobs/".toList ++ page.toList
  status := 200
  method := "GET".toList
  resourceType := "fetch".toList
  headers := [("content-type".toList, "application/json".toList)]
  body := some (.dict [])

/-- A call waits for two payloads. Two tasks read the first page, and then two others the second and
the third one. -/
def apiActions : List InterceptorAction :=
  [.waitForPayloads 2 fun _ => true, .wake 0, .onResponse (apiResponse "1"),
    .onResponse (apiResponse "1"), .read 1 0, .read 2 0, .wake 0, .onResponse (apiResponse "2"),
    .read 3 1, .wake 0, .onResponse (apiResponse "3"), .read 4 2]

/-- The page that is read twice is added once, and trimmed when the third page comes. -/
theorem first_page_trimmed :
    ∃ s, run .plain (apiConfig 2 two_pos) apiActions = some s ∧
      s.retained.items.map (·.url) = ["2", "3"].map (fun page => (apiResponse page).url) ∧
      s.Consistent .plain (apiConfig 2 two_pos) ∧ s.retained.items.length ≤ 2 := by
  have hurls : (run .plain (apiConfig 2 two_pos) apiActions).map
      (fun s => s.retained.items.map (·.url)) =
        some (["2", "3"].map fun page => (apiResponse page).url) := by decide +kernel
  obtain ⟨s, hs, hitems⟩ := Option.map_eq_some_iff.mp hurls
  have hconsistent := interceptor_bookkeeping .plain (apiConfig 2 two_pos) hs
  exact ⟨s, hs, hitems, hconsistent, hconsistent.length_le⟩

end JobPing
