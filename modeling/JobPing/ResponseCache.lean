import JobPing.Dict
import JobPing.RequestRates
import JobPing.StreamLeases
import Mathlib.Data.List.Infix

/-!
# The public cache

`PublicCache` and `RequestLimitMiddleware` of `app/request_limits`, on requests that interleave.
What the limiter finds is any reply of its script; a stream is left to its lease. The application
sends what ASGI allows: the start of a response, then parts of a body up to the last one. Bytes of
headers are characters here.
-/

namespace JobPing

/-! ## `PublicCache` -/

abbrev Headers := List (Str × Str)

structure CachedResponse where
  expires : ℚ
  headers : Headers
  body : List UInt8
  deriving DecidableEq

namespace PublicCache

/-- The entries, from the least recently used one. -/
abbrev Entries := List (Str × CachedResponse)

def capacity : ℕ := 2

def get (now : ℚ) (path : Str) (entries : Entries) : Entries × Option CachedResponse :=
  match Dict.get? path entries with
  | none => (entries, none)
  | some value =>
    if value.expires ≤ now then (entries.filter (·.1 ≠ path), none)
    else (entries.filter (·.1 ≠ path) ++ [(path, value)], some value)

def lower (name : Str) : Str := name.map Char.toLower

/-- A response that may be kept: small, and without cookies. -/
def cacheable (seconds : ℕ) (headers : Headers) (body : List UInt8) : Bool :=
  seconds ≠ 0 && body.length ≤ 262144 && !headers.any fun item => lower item.1 = "set-cookie".toList

/-- The headers that do not depend on the origin of a request. -/
def responseHeaders (headers : Headers) : Headers :=
  headers.filter fun item => !("access-control-".toList).isPrefixOf (lower item.1)

def put (seconds : ℕ) (now : ℚ) (path : Str) (headers : Headers) (body : List UInt8)
    (entries : Entries) : Entries :=
  if cacheable seconds headers body then
    let entries := entries.filter (·.1 ≠ path) ++
      [(path, ⟨now + seconds, responseHeaders headers, body⟩)]
    entries.drop (entries.length - capacity)
  else entries

end PublicCache

/-! ## The middleware -/

/-- The settings that the middleware reads, with the checks of `__post_init__`. -/
structure MiddlewareSettings extends LimitSettings where
  cacheSeconds : ℕ
  httpConcurrency : ℕ
  cache_bounds : cacheSeconds ≤ 60
  concurrency_bounds : 1 ≤ httpConcurrency ∧ httpConcurrency ≤ 1000

inductive ScopeType
  | http
  | websocket
  deriving DecidableEq

structure RequestScope where
  type : ScopeType
  path : Str
  method : Option Str
  queryString : Str
  headers : Headers
  client : Option Str

/-- A message of the application. -/
inductive AppMessage
  | start (status : ℕ) (headers : Headers)
  | body (body : List UInt8) (moreBody : Bool)
  deriving DecidableEq

/-- `family`. -/
def family (path method : Str) : Str :=
  if method = "OPTIONS".toList then "preflight".toList
  else if path ∈ ["/api/v1/ws/live".toList, "/api/v1/sse/feed".toList] then "connect".toList
  else if "/api/v1/notifications/webhooks/".toList <+: path then "webhook".toList
  else if "/api/v1/notifications/unsubscribe/".toList <+: path then "unsubscribe".toList
  else if "/api/v1/me/".toList <+: path ∨ "/api/v1/analytics/".toList <+: path then
    if path = "/api/v1/analytics/events".toList then "analytics".toList
    else if method ∈ ["GET".toList, "HEAD".toList] then "private_read".toList
    else "private_write".toList
  else "public".toList

/-- `private_family`. -/
def privateFamily (value : Str) : Bool :=
  value ∈ ["private_read", "private_write", "analytics"].map String.toList

namespace RequestScope

variable (scope : RequestScope)

def operation : Str := family scope.path (scope.method.getD "GET".toList)

/-- A health check of the machine itself. -/
def localHealth : Bool :=
  scope.path = "/api/v1/health".toList && scope.method = some "GET".toList &&
    scope.client.getD [] ∈ ["127.0.0.1".toList, "::1".toList]

/-- The policies that are checked in turn. -/
def policies : List Str :=
  ["aggregate".toList, "ingress".toList] ++
    if privateFamily scope.operation then [] else [scope.operation]

/-- A request whose answer may come from the cache: it is anonymous. -/
def eligible : Bool :=
  scope.type = .http && scope.method = some "GET".toList &&
    scope.path ∈ ["/api/v1/companies".toList, "/api/v1/stats".toList] &&
    scope.queryString = [] &&
    !scope.headers.any fun item =>
      PublicCache.lower item.1 ∈ ["authorization".toList, "cookie".toList]

end RequestScope

/-- `RequestLimiter.check` on a reply of the script; the outer `none` is a `LimiterUnavailable`. -/
def LimitMode.check (mode : LimitMode) (reply : Option BucketReply) : Option Decision :=
  match reply with
  | none => if mode = .shadow then some ⟨true, 0⟩ else none
  | some reply => if mode = .shadow then some ⟨true, 0⟩ else some reply.decision

/-- How far a request has come. -/
inductive RequestPhase
  | checking (policies : List Str)
  /-- The application has it, and the middleware takes no part. -/
  | bypassed
  | streaming
  | forwarding
  | capturing (start : Option (ℕ × Headers))
  | replaying
  | finished

/-- A request that is counted as active. -/
def RequestPhase.active : RequestPhase → Bool
  | .forwarding => true
  | .capturing _ => true
  | .replaying => true
  | _ => false

structure ServedRequest where
  scope : RequestScope
  phase : RequestPhase

/-- What is sent for a request, and what is put into the cache: the response as it was sent. -/
inductive ServedEvent
  | sent (message : AppMessage)
  | stored (path : Str) (headers : Headers) (body : List UInt8)
  | replayed (path : Str) (headers : Headers) (body : List UInt8)
  | rejected (status : ℕ) (retry : ℤ)
  deriving DecidableEq

/-- The middleware and its requests, and what has happened, the latest first. -/
structure ServerState where
  requests : List ServedRequest
  activeHttp : ℕ
  cache : PublicCache.Entries
  clock : ℚ
  log : List (ℚ × ℕ × ServedEvent)

inductive ServerAction
  | arrive (scope : RequestScope)
  /-- A check of the limiter; `none` is an error of the server or a timeout. -/
  | check (request : ℕ) (reply : Option BucketReply)
  | send (request : ℕ) (message : AppMessage)
  /-- The handling of a request returns or raises, or it is cancelled. -/
  | finish (request : ℕ)

/-- What the application has sent for a request, the latest first. -/
def sentMessages (i : ℕ) (log : List (ℚ × ℕ × ServedEvent)) : List AppMessage :=
  log.filterMap fun entry =>
    match entry.2.2 with
    | .sent message => if entry.2.1 = i then some message else none
    | _ => none

/-- ASGI allows a message after others. -/
def allows : List AppMessage → AppMessage → Bool
  | [], .start _ _ => true
  | .start _ _ :: _, .body _ _ => true
  | .body _ true :: _, .body _ _ => true
  | _, _ => false

namespace ServerState

variable (settings : MiddlewareSettings)

def start (clock : ℚ) : ServerState := ⟨[], 0, [], clock, []⟩

def move (i : ℕ) (request : ServedRequest) (phase : RequestPhase) (s : ServerState) : ServerState :=
  { s with requests := s.requests.set i { request with phase := phase } }

def note (i : ℕ) (event : ServedEvent) (s : ServerState) : ServerState :=
  { s with log := (s.clock, i, event) :: s.log }

/-- `reject`. -/
def reject (i : ℕ) (request : ServedRequest) (status : ℕ) (retry : ℤ) (s : ServerState) :
    ServerState :=
  (s.move i request .finished).note i (.rejected status (max 1 retry))

/-- `cached_request`, up to where it waits. -/
def cachedRequest (i : ℕ) (request : ServedRequest) (s : ServerState) : ServerState :=
  if request.scope.eligible then
    match PublicCache.get s.clock request.scope.path s.cache with
    | (cache, some value) =>
      ({ s with cache := cache }.move i request .replaying).note i
        (.replayed request.scope.path value.headers value.body)
    | (cache, none) => { s with cache := cache }.move i request (.capturing none)
  else s.move i request .forwarding

/-- After the checks. -/
def letIn (i : ℕ) (request : ServedRequest) (s : ServerState) : ServerState :=
  if request.scope.operation = "connect".toList then s.move i request .streaming
  else if settings.httpConcurrency ≤ s.activeHttp && settings.mode = .enforce then
    s.reject i request 503 1
  else { s with activeHttp := s.activeHttp + 1 }.cachedRequest i request

/-- A check of a policy, with those that are left. -/
def check (i : ℕ) (request : ServedRequest) (rest : List Str) (reply : Option BucketReply)
    (s : ServerState) : ServerState :=
  match settings.mode.check reply with
  | none => s.reject i request 503 1
  | some decision =>
    if !decision.allowed then s.reject i request 429 decision.retryAfter
    else
      match rest with
      | [] => s.letIn settings i request
      | policy :: rest => s.move i request (.checking (policy :: rest))

/-- `capture`, where a message is sent. -/
def capture (i : ℕ) (request : ServedRequest) (start : Option (ℕ × Headers))
    (message : AppMessage) (s : ServerState) : ServerState :=
  match message, start with
  | .start status headers, _ => s.move i request (.capturing (some (status, headers)))
  | .body body false, some (200, headers) =>
    let path := request.scope.path
    let s := { s with
      cache := PublicCache.put settings.cacheSeconds s.clock path headers body s.cache }
    if PublicCache.cacheable settings.cacheSeconds headers body then
      s.note i (.stored request.scope.path headers body)
    else s
  | .body _ true, some (200, _) => s.move i request (.capturing none)
  | .body _ _, _ => s

/-- A step of a request, at the time of the state. -/
def advance (i : ℕ) (request : ServedRequest) (action : ServerAction) (s : ServerState) :
    Option ServerState :=
  match action, request.phase with
  | .check _ reply, .checking (_ :: rest) => some (s.check settings i request rest reply)
  | .send _ message, .forwarding =>
    if allows (sentMessages i s.log) message then some (s.note i (.sent message)) else none
  | .send _ message, .capturing start =>
    if allows (sentMessages i s.log) message then
      some ((s.note i (.sent message)).capture settings i request start message)
    else none
  | .finish _, .finished => none
  | .finish _, phase =>
    some ({ s with activeHttp := if phase.active then s.activeHttp - 1 else s.activeHttp }.move i
      request .finished)
  | _, _ => none

/-- The start of `__call__`. -/
def arrive (scope : RequestScope) : RequestPhase :=
  if settings.mode = .off || scope.localHealth then .bypassed else .checking scope.policies

end ServerState

/-- The request that goes on. -/
def ServerAction.request : ServerAction → Option ℕ
  | .arrive _ => none
  | .check request _ => some request
  | .send request _ => some request
  | .finish request => some request

namespace ServerState

variable (settings : MiddlewareSettings)

/-- A step at a time. -/
def step (action : ℚ × ServerAction) (s : ServerState) : Option ServerState :=
  if action.1 < s.clock then none
  else
    let s := { s with clock := action.1 }
    match action.2 with
    | .arrive scope => some { s with requests := s.requests ++ [⟨scope, arrive settings scope⟩] }
    | action =>
      match action.request with
      | none => none
      | some i => (s.requests[i]?).bind fun request => s.advance settings i request action

/-- The state after some steps. -/
def run (clock : ℚ) (actions : List (ℚ × ServerAction)) : Option ServerState :=
  Interleaving.run (step settings) (start clock) actions

variable {settings} {s t : ServerState} {i : ℕ} {request : ServedRequest} {phase : RequestPhase}

/-- The scope of a request. -/
def scope (s : ServerState) (i : ℕ) : Option RequestScope := (s.requests[i]?).map (·.scope)

/-! ## What comes from the cache -/

/-- A response that is put into the cache was sent as a whole, for an anonymous request. -/
def Stores (settings : MiddlewareSettings) (s : ServerState) (i : ℕ) (path : Str)
    (headers : Headers) (body : List UInt8) (past : List (ℚ × ℕ × ServedEvent)) : Prop :=
  ∃ scope, s.scope i = some scope ∧ scope.eligible = true ∧ scope.path = path ∧
    PublicCache.cacheable settings.cacheSeconds headers body = true ∧
    sentMessages i past = [.body body false, .start 200 headers]

/-- An entry is the response that was put last for its path. -/
def Latest (settings : MiddlewareSettings) (path : Str) (value : CachedResponse)
    (log : List (ℚ × ℕ × ServedEvent)) : Prop :=
  ∃ between time i headers past,
    log = between ++ (time, i, .stored path headers value.body) :: past ∧
    value.expires = time + settings.cacheSeconds ∧
    value.headers = PublicCache.responseHeaders headers ∧
    ∀ entry ∈ between, ∀ headers body, entry.2.2 ≠ .stored path headers body

/-- A response that is served from the cache is the one that was put last for the path, and it is
not too old. -/
def Replays (settings : MiddlewareSettings) (s : ServerState) (time : ℚ) (i : ℕ) (path : Str)
    (headers : Headers) (body : List UInt8) (past : List (ℚ × ℕ × ServedEvent)) : Prop :=
  (∃ scope, s.scope i = some scope ∧ scope.eligible = true ∧ scope.path = path) ∧
    ∃ expires, Latest settings path ⟨expires, headers, body⟩ past ∧ time < expires

/-- What the application has sent when a whole response may have been kept. -/
def Captured (i : ℕ) (headers : Headers) (log : List (ℚ × ℕ × ServedEvent)) : Prop :=
  sentMessages i log = [.start 200 headers] ∨
    ∃ body, sentMessages i log = [.body body false, .start 200 headers]

structure Sound (settings : MiddlewareSettings) (s : ServerState) : Prop where
  capturing : ∀ i request start, s.requests[i]? = some request → request.phase = .capturing start →
    request.scope.eligible = true ∧
      ∀ headers, start = some (200, headers) → Captured i headers s.log
  cache : ∀ path value, (path, value) ∈ s.cache → Latest settings path value s.log
  stored : ∀ time i path headers body past,
    ((time, i, .stored path headers body) :: past) <:+ s.log →
    Stores settings s i path headers body past
  replayed : ∀ time i path headers body past,
    ((time, i, .replayed path headers body) :: past) <:+ s.log →
    Replays settings s time i path headers body past

theorem sound_start (clock : ℚ) : (start clock).Sound settings where
  capturing _ _ _ h := by cases h
  cache _ _ h := by cases h
  stored _ _ _ _ _ _ h := by cases List.suffix_nil.mp h
  replayed _ _ _ _ _ _ h := by cases List.suffix_nil.mp h

theorem Stores.mono {path : Str} {headers : Headers} {body : List UInt8}
    {past : List (ℚ × ℕ × ServedEvent)} (h : Stores settings s i path headers body past)
    (hscope : ∀ scope, s.scope i = some scope → t.scope i = some scope) :
    Stores settings t i path headers body past := by
  obtain ⟨scope, hi, hrest⟩ := h
  exact ⟨scope, hscope scope hi, hrest⟩

theorem Replays.mono {time : ℚ} {path : Str} {headers : Headers} {body : List UInt8}
    {past : List (ℚ × ℕ × ServedEvent)} (h : Replays settings s time i path headers body past)
    (hscope : ∀ scope, s.scope i = some scope → t.scope i = some scope) :
    Replays settings t time i path headers body past := by
  obtain ⟨⟨scope, hi, hrest⟩, hlatest⟩ := h
  exact ⟨⟨scope, hscope scope hi, hrest⟩, hlatest⟩

/-- Another event does not make a response less recent. -/
theorem Latest.cons {path : Str} {value : CachedResponse} {log : List (ℚ × ℕ × ServedEvent)}
    (h : Latest settings path value log) {entry : ℚ × ℕ × ServedEvent}
    (hentry : ∀ headers body, entry.2.2 ≠ .stored path headers body) :
    Latest settings path value (entry :: log) := by
  obtain ⟨between, time, i, headers, past, rfl, hexpires, hheaders, hnone⟩ := h
  refine ⟨entry :: between, time, i, headers, past, rfl, hexpires, hheaders, ?_⟩
  intro other hother
  rcases List.mem_cons.mp hother with rfl | hold
  · exact hentry
  · exact hnone other hold

theorem scope_move (hrequest : s.requests[i]? = some request) (j : ℕ) :
    (s.move i request phase).scope j = s.scope j := by
  change ((s.requests.set i { request with phase := phase })[j]?).map (·.scope) = s.scope j
  rw [List.getElem?_set, scope]
  split_ifs with hij hlength
  · rw [← hij, hrequest]
    rfl
  · exact absurd (hij ▸ (List.getElem?_eq_some_iff.mp hrequest).1) hlength
  · rfl

/-- The requests after one has gone on. -/
theorem request_move {j : ℕ} {other : ServedRequest}
    (h : (s.move i request phase).requests[j]? = some other) :
    i = j ∧ { request with phase := phase } = other ∨ i ≠ j ∧ s.requests[j]? = some other := by
  have hset : (s.requests.set i { request with phase := phase })[j]? = some other := h
  rw [List.getElem?_set] at hset
  split_ifs at hset with hij hlength
  · exact .inl ⟨hij, Option.some.inj hset⟩
  · exact .inr ⟨hij, hset⟩

/-- A request goes on. -/
theorem Sound.move (h : s.Sound settings) (hrequest : s.requests[i]? = some request)
    (hphase : ∀ start, phase = .capturing start → request.scope.eligible = true ∧
      ∀ headers, start = some (200, headers) → Captured i headers s.log) :
    (s.move i request phase).Sound settings where
  capturing j other start hother hstart := by
    rcases request_move hother with ⟨rfl, rfl⟩ | ⟨-, hold⟩
    · exact hphase start hstart
    · exact h.capturing j other start hold hstart
  cache := h.cache
  stored time j path headers body past hpast :=
    (h.stored time j path headers body past hpast).mono fun scope hj =>
      (scope_move hrequest j).trans hj
  replayed time j path headers body past hpast :=
    (h.replayed time j path headers body past hpast).mono fun scope hj =>
      (scope_move hrequest j).trans hj

/-- Entries of the cache go. -/
theorem Sound.evict (h : s.Sound settings) {cache : PublicCache.Entries}
    (hcache : ∀ entry ∈ cache, entry ∈ s.cache) : Sound settings { s with cache := cache } where
  capturing := h.capturing
  cache path value hmem := h.cache path value (hcache _ hmem)
  stored := h.stored
  replayed := h.replayed

/-- A request goes on with an event that is no message: it is recorded as it may be. -/
theorem Sound.note (h : s.Sound settings) {event : ServedEvent}
    (hsent : ∀ message, event ≠ .sent message)
    (hstored : ∀ path headers body, event ≠ .stored path headers body)
    (hreplayed : ∀ path headers body, event = .replayed path headers body →
      Replays settings s s.clock i path headers body s.log) :
    (s.note i event).Sound settings where
  capturing j request start hrequest hstart := by
    obtain ⟨heligible, hcaptured⟩ := h.capturing j request start hrequest hstart
    refine ⟨heligible, fun headers heq => ?_⟩
    have hmessages : sentMessages j (s.note i event).log = sentMessages j s.log := by
      cases event with
      | sent message => exact absurd rfl (hsent message)
      | stored path headers body => rfl
      | replayed path headers body => rfl
      | rejected status retry => rfl
    rw [Captured, hmessages]
    exact hcaptured headers heq
  cache path value hmem := (h.cache path value hmem).cons (hstored path)
  stored time j path headers body past hpast := by
    rcases List.suffix_cons_iff.mp hpast with htop | hold
    · cases htop
      exact absurd rfl (hstored path headers body)
    · exact h.stored time j path headers body past hold
  replayed time j path headers body past hpast := by
    rcases List.suffix_cons_iff.mp hpast with htop | hold
    · cases htop
      exact hreplayed path headers body rfl
    · exact h.replayed time j path headers body past hold

theorem sentMessages_cons (i : ℕ) (time : ℚ) (message : AppMessage)
    (log : List (ℚ × ℕ × ServedEvent)) :
    sentMessages i ((time, i, .sent message) :: log) = message :: sentMessages i log := by
  simp [sentMessages]

theorem sentMessages_cons_of_ne {i j : ℕ} (h : i ≠ j) (time : ℚ) (message : AppMessage)
    (log : List (ℚ × ℕ × ServedEvent)) :
    sentMessages j ((time, i, .sent message) :: log) = sentMessages j log := by
  simp [sentMessages, h]

/-- The application sends a message, and the request goes on. -/
theorem Sound.sent (h : s.Sound settings) (hrequest : s.requests[i]? = some request)
    (message : AppMessage)
    (hphase : ∀ start, phase = .capturing start → request.scope.eligible = true ∧
      ∀ headers, start = some (200, headers) →
        Captured i headers ((s.clock, i, .sent message) :: s.log)) :
    ((s.note i (.sent message)).move i request phase).Sound settings where
  capturing j other start hother hstart := by
    rcases request_move hother with ⟨rfl, rfl⟩ | ⟨hne, hold⟩
    · exact hphase start hstart
    · obtain ⟨heligible, hcaptured⟩ := h.capturing j other start hold hstart
      refine ⟨heligible, fun headers heq => ?_⟩
      have hmessages : sentMessages j ((s.clock, i, .sent message) :: s.log) =
          sentMessages j s.log := sentMessages_cons_of_ne hne _ _ _
      change Captured j headers ((s.clock, i, .sent message) :: s.log)
      rw [Captured, hmessages]
      exact hcaptured headers heq
  cache path value hmem := (h.cache path value hmem).cons fun headers body hevent => by cases hevent
  stored time j path headers body past hpast := by
    rcases List.suffix_cons_iff.mp hpast with htop | hold
    · cases htop
    · exact (h.stored time j path headers body past hold).mono fun scope hj =>
        (scope_move (s := s) hrequest j).trans hj
  replayed time j path headers body past hpast := by
    rcases List.suffix_cons_iff.mp hpast with htop | hold
    · cases htop
    · exact (h.replayed time j path headers body past hold).mono fun scope hj =>
        (scope_move (s := s) hrequest j).trans hj

/-- **A whole response is put into the cache**, in the place of what was there for its path. -/
theorem Sound.store {path : Str} {headers : Headers} {body : List UInt8} (h : s.Sound settings)
    (hstores : Stores settings s i path headers body s.log)
    (hcacheable : PublicCache.cacheable settings.cacheSeconds headers body = true) :
    (ServerState.note i (.stored path headers body)
      { s with
        cache := PublicCache.put settings.cacheSeconds s.clock path headers body s.cache }).Sound
      settings where
  capturing j request start hrequest hstart := h.capturing j request start hrequest hstart
  cache other value hmem := by
    have hput : (other, value) ∈
        PublicCache.put settings.cacheSeconds s.clock path headers body s.cache := hmem
    rw [PublicCache.put, if_pos hcacheable] at hput
    rcases List.mem_append.mp (List.mem_of_mem_drop hput) with hold | hnew
    · rw [List.mem_filter] at hold
      refine (h.cache other value hold.1).cons fun headers' body' hevent => ?_
      cases hevent
      simp at hold
    · cases List.mem_singleton.mp hnew
      exact ⟨[], s.clock, i, headers, s.log, rfl, rfl, rfl, fun _ hnil => nomatch hnil⟩
  stored time j other headers' body' past hpast := by
    rcases List.suffix_cons_iff.mp hpast with htop | hold
    · cases htop
      exact hstores
    · exact h.stored time j other headers' body' past hold
  replayed time j other headers' body' past hpast := by
    rcases List.suffix_cons_iff.mp hpast with htop | hold
    · cases htop
    · exact h.replayed time j other headers' body' past hold

/-- What is found in the cache was there, and has not expired. -/
theorem get_cases (now : ℚ) (path : Str) (entries : PublicCache.Entries) :
    (∀ entry ∈ (PublicCache.get now path entries).1, entry ∈ entries) ∧
      ∀ value, (PublicCache.get now path entries).2 = some value →
        (path, value) ∈ entries ∧ now < value.expires := by
  unfold PublicCache.get
  cases hget : Dict.get? path entries with
  | none => exact ⟨fun _ hentry => hentry, fun _ hvalue => nomatch hvalue⟩
  | some value =>
    have hmem : (path, value) ∈ entries := by
      obtain ⟨⟨key, found⟩, hfind, rfl⟩ := Option.map_eq_some_iff.mp hget
      have hkey : key = path := by simpa using List.find?_some hfind
      exact hkey ▸ List.mem_of_find?_eq_some hfind
    dsimp only
    split_ifs with hexpired
    · exact ⟨fun _ hentry => List.mem_of_mem_filter hentry, fun _ hvalue => nomatch hvalue⟩
    · refine ⟨fun entry hentry => ?_, fun other hother => ?_⟩
      · rcases List.mem_append.mp hentry with hold | hnew
        · exact List.mem_of_mem_filter hold
        · exact List.mem_singleton.mp hnew ▸ hmem
      · cases hother
        exact ⟨hmem, not_le.mp hexpired⟩

theorem Sound.reject (h : s.Sound settings) (hrequest : s.requests[i]? = some request) (status : ℕ)
    (retry : ℤ) : (s.reject i request status retry).Sound settings := by
  have hmoved : (s.move i request .finished).Sound settings :=
    h.move hrequest fun _ hstart => nomatch hstart
  exact hmoved.note (fun _ hevent => nomatch hevent) (fun _ _ _ hevent => nomatch hevent)
    fun _ _ _ hevent => nomatch hevent

/-- **What is found in the cache is served.** -/
theorem Sound.cachedRequest (h : s.Sound settings) (hrequest : s.requests[i]? = some request) :
    (s.cachedRequest i request).Sound settings := by
  unfold ServerState.cachedRequest
  split_ifs with heligible
  · obtain ⟨hsub, hfound⟩ := get_cases s.clock request.scope.path s.cache
    split
    next cache value hget =>
      rw [hget] at hsub hfound
      obtain ⟨hmem, hfresh⟩ := hfound value rfl
      have hmoved : ({ s with cache := cache }.move i request .replaying).Sound settings :=
        (h.evict hsub).move hrequest fun _ hstart => nomatch hstart
      refine hmoved.note (fun _ hevent => nomatch hevent) (fun _ _ _ hevent => nomatch hevent) ?_
      intro path headers body hevent
      cases hevent
      refine ⟨⟨request.scope, ?_, heligible, rfl⟩, value.expires, h.cache _ _ hmem, hfresh⟩
      rw [scope_move (s := { s with cache := cache }) hrequest, scope]
      exact congrArg (Option.map _) hrequest
    next cache hget =>
      rw [hget] at hsub
      refine (h.evict hsub).move hrequest fun start hstart => ⟨heligible, fun headers heq => ?_⟩
      cases hstart
      cases heq
  · exact h.move hrequest fun _ hstart => nomatch hstart

theorem Sound.count (h : s.Sound settings) (activeHttp : ℕ) :
    Sound settings { s with activeHttp := activeHttp } where
  capturing := h.capturing
  cache := h.cache
  stored := h.stored
  replayed := h.replayed

theorem Sound.check (h : s.Sound settings) (hrequest : s.requests[i]? = some request)
    (rest : List Str) (reply : Option BucketReply) :
    (s.check settings i request rest reply).Sound settings := by
  unfold ServerState.check
  split
  · exact h.reject hrequest 503 1
  next decision _ =>
    split_ifs
    · exact h.reject hrequest 429 decision.retryAfter
    · split
      · unfold ServerState.letIn
        split_ifs
        · exact h.move hrequest fun _ hstart => nomatch hstart
        · exact h.reject hrequest 503 1
        · exact (h.count (s.activeHttp + 1)).cachedRequest hrequest
      · exact h.move hrequest fun _ hstart => nomatch hstart

theorem move_self (hrequest : s.requests[i]? = some request) :
    s.move i request request.phase = s := by
  obtain ⟨hlength, hget⟩ := List.getElem?_eq_some_iff.mp hrequest
  have hset : s.requests.set i request = s.requests := by
    rw [← hget]
    exact List.set_getElem_self hlength
  unfold ServerState.move
  rw [show ({ request with phase := request.phase } : ServedRequest) = request from rfl, hset]

/-- The application sends a message, and the request stays where it is. -/
theorem Sound.sent_kept (h : s.Sound settings) (hrequest : s.requests[i]? = some request)
    (message : AppMessage)
    (hphase : ∀ start, request.phase = .capturing start → request.scope.eligible = true ∧
      ∀ headers, start = some (200, headers) →
        Captured i headers ((s.clock, i, .sent message) :: s.log)) :
    (s.note i (.sent message)).Sound settings := by
  have hsent : ((s.note i (.sent message)).move i request request.phase).Sound settings :=
    h.sent hrequest message hphase
  rwa [move_self (s := s.note i (.sent message)) hrequest] at hsent

/-- **What `capture` puts into the cache is a whole response.** -/
theorem Sound.capture (h : s.Sound settings) (hrequest : s.requests[i]? = some request)
    {start : Option (ℕ × Headers)} (hphase : request.phase = .capturing start)
    {message : AppMessage} (hallows : allows (sentMessages i s.log) message = true) :
    ((s.note i (.sent message)).capture settings i request start message).Sound settings := by
  obtain ⟨heligible, hcaptured⟩ := h.capturing i request start hrequest hphase
  have hkept : (∀ headers, start = some (200, headers) →
      Captured i headers ((s.clock, i, .sent message) :: s.log)) →
      (s.note i (.sent message)).Sound settings := by
    intro hmessages
    refine h.sent_kept hrequest message fun start' hstart => ⟨heligible, fun headers heq => ?_⟩
    cases hphase.symm.trans hstart
    exact hmessages headers heq
  unfold ServerState.capture
  split
  next status headers _ =>
    have hempty : sentMessages i s.log = [] := by
      cases hsent : sentMessages i s.log with
      | nil => rfl
      | cons top rest =>
        rw [hsent] at hallows
        cases top with
        | start status headers => cases hallows
        | body body moreBody => cases moreBody <;> cases hallows
    refine h.sent hrequest _ fun start hstart => ⟨heligible, fun headers' heq => .inl ?_⟩
    cases hstart
    cases heq
    rw [sentMessages_cons, hempty]
  next body headers =>
    have hsent : sentMessages i s.log = [.start 200 headers] := by
      rcases hcaptured headers rfl with hsent | ⟨body', hsent⟩
      · exact hsent
      · rw [hsent] at hallows
        cases hallows
    have hwhole : sentMessages i ((s.clock, i, .sent (.body body false)) :: s.log) =
        [.body body false, .start 200 headers] := by
      rw [sentMessages_cons, hsent]
    have hsound := hkept fun headers' heq => by
      cases heq
      exact .inr ⟨body, hwhole⟩
    dsimp only
    split_ifs with hcacheable
    · refine hsound.store ⟨request.scope, ?_, heligible, rfl, hcacheable, hwhole⟩ hcacheable
      exact congrArg (Option.map _) hrequest
    · rw [PublicCache.put, if_neg hcacheable]
      exact hsound
  · refine h.sent hrequest _ fun start hstart => ⟨heligible, fun headers heq => ?_⟩
    cases hstart
    cases heq
  next body moreBody hwhole hpart =>
    refine hkept fun headers heq => ?_
    cases moreBody with
    | false => exact absurd rfl (hwhole headers heq)
    | true => exact absurd rfl (hpart headers heq)

theorem Sound.advance {action : ServerAction} (h : s.Sound settings)
    (hrequest : s.requests[i]? = some request)
    (hadvance : s.advance settings i request action = some t) : t.Sound settings := by
  unfold ServerState.advance at hadvance
  split at hadvance
  next reply policy rest hphase =>
    cases hadvance
    exact h.check hrequest rest reply
  next message hphase =>
    split_ifs at hadvance
    cases hadvance
    refine h.sent_kept hrequest message fun start hstart => ?_
    cases hphase.symm.trans hstart
  next message start hphase =>
    split_ifs at hadvance with hallows
    cases hadvance
    exact h.capture hrequest hphase hallows
  · cases hadvance
  · cases hadvance
    exact (h.count _).move hrequest fun _ hstart => nomatch hstart
  · cases hadvance

theorem Sound.step {now : ℚ} {action : ServerAction} (h : s.Sound settings)
    (hstep : step settings (now, action) s = some t) : t.Sound settings := by
  have hnow : Sound settings { s with clock := now } :=
    ⟨h.capturing, h.cache, h.stored, h.replayed⟩
  unfold ServerState.step at hstep
  split_ifs at hstep with hclock
  dsimp only at hstep
  split at hstep
  next scope =>
    cases hstep
    have hscope : ∀ j found, s.scope j = some found →
        ((s.requests ++ [⟨scope, arrive settings scope⟩])[j]?).map (·.scope) = some found := by
      intro j found hfound
      obtain ⟨request, hrequest, hsame⟩ := Option.map_eq_some_iff.mp hfound
      rw [List.getElem?_append_left (List.getElem?_eq_some_iff.mp hrequest).1, hrequest,
        Option.map_some, hsame]
    refine ⟨fun j request start hrequest hstart => ?_, h.cache, ?_, ?_⟩
    · rcases lt_or_ge j s.requests.length with hlt | hge
      · rw [List.getElem?_append_left hlt] at hrequest
        exact h.capturing j request start hrequest hstart
      · rw [List.getElem?_append_right hge] at hrequest
        rw [List.mem_singleton.mp (List.mem_of_getElem? hrequest)] at hstart
        dsimp only at hstart
        unfold arrive at hstart
        split_ifs at hstart
    · exact fun time j path headers body past hpast =>
        (h.stored time j path headers body past hpast).mono (hscope j)
    · exact fun time j path headers body past hpast =>
        (h.replayed time j path headers body past hpast).mono (hscope j)
  · split at hstep
    · cases hstep
    next i _ =>
      obtain ⟨request, hrequest, hadvance⟩ := Option.bind_eq_some_iff.mp hstep
      exact hnow.advance hrequest hadvance

variable (settings)

/-- **What the cache serves**: to an anonymous request, the response that was put last for its path,
less than `cache_seconds` ago; it was sent as a whole and with success for an anonymous request for
that path, it is small, and it sets no cookie. -/
theorem cached_response_sound {clock now : ℚ} {actions : List (ℚ × ServerAction)} {path : Str}
    {headers : Headers} {body : List UInt8} {past : List (ℚ × ℕ × ServedEvent)}
    (hrun : run settings clock actions = some s)
    (hreplayed : ((now, i, .replayed path headers body) :: past) <:+ s.log) :
    (∃ scope, s.scope i = some scope ∧ scope.eligible = true ∧ scope.path = path) ∧
    ∃ between time j sent earlier, past = between ++ (time, j, .stored path sent body) :: earlier ∧
      (∀ entry ∈ between, ∀ headers body, entry.2.2 ≠ .stored path headers body) ∧
      now < time + settings.cacheSeconds ∧ headers = PublicCache.responseHeaders sent ∧
      Stores settings s j path sent body earlier := by
  have hsound : s.Sound settings := by
    refine Interleaving.run_invariant (I := fun s => s.Sound settings) (sound_start clock) ?_ hrun
    · rintro _ ⟨now, action⟩ _ c c' - - hstep h
      exact h.step hstep
  obtain ⟨hscope, expires, hlatest, hfresh⟩ :=
    hsound.replayed now i path headers body past hreplayed
  refine ⟨hscope, ?_⟩
  obtain ⟨between, time, j, sent, earlier, hpast, hexpires, hheaders, hnone⟩ := hlatest
  refine ⟨between, time, j, sent, earlier, hpast, hnone, ?_, hheaders, ?_⟩
  · rw [← hexpires]
    exact hfresh
  · refine hsound.stored time j path sent body earlier (List.IsSuffix.trans ?_ hreplayed)
    rw [hpast]
    exact (List.suffix_append between _).trans (List.suffix_cons _ _)

/-- Limits with enforcement, for one request at a time. -/
def oneRequest : MiddlewareSettings where
  mode := .enforce
  secret := "0123456789abcdef0123456789abcdef".toList
  streamsPerIp := 20
  streamsTotal := 150
  leaseSeconds := 45
  cacheSeconds := 30
  httpConcurrency := 1
  per_ip_bounds := by decide
  total_bounds := by decide
  lease_bounds := by decide
  cache_bounds := by decide
  concurrency_bounds := by decide

/-- A request for the companies. -/
def companiesRequest : RequestScope where
  type := .http
  path := "/api/v1/companies".toList
  method := some "GET".toList
  queryString := []
  headers := [("accept".toList, "application/json".toList)]
  client := some "203.0.113.7".toList

/-- The checks of a request that is admitted. -/
def admitted (time : ℚ) (request : ℕ) : List (ℚ × ServerAction) :=
  List.replicate 3 (time, .check request (some ⟨true, 0⟩))

/-- A request is answered by the application, and then another one from the cache. -/
def twoRequests : List (ℚ × ServerAction) :=
  (0, .arrive companiesRequest) :: admitted 1 0 ++
    [(2, .send 0 (.start 200 [("access-control-allow-origin".toList, ['*'])])),
      (3, .send 0 (.body [91, 93] false)), (4, .finish 0), (32, .arrive companiesRequest)] ++
    admitted 32 1

theorem second_response_sound : ∃ s, run oneRequest 0 twoRequests = some s ∧
    ((32, 1, .replayed "/api/v1/companies".toList [] [91, 93]) :: s.log.tail) <:+ s.log ∧
    ∃ between time j sent earlier, s.log.tail = between ++
        ((time, j, .stored "/api/v1/companies".toList sent [91, 93]) : ℚ × ℕ × ServedEvent) ::
          earlier ∧
      (∀ entry ∈ between, ∀ headers body,
        entry.2.2 ≠ .stored "/api/v1/companies".toList headers body) ∧
      32 < time + oneRequest.cacheSeconds ∧ [] = PublicCache.responseHeaders sent ∧
      Stores oneRequest s j "/api/v1/companies".toList sent [91, 93] earlier := by
  have hlog : (run oneRequest 0 twoRequests).bind (·.log.head?) =
      some (32, 1, .replayed "/api/v1/companies".toList [] [91, 93]) := by decide +kernel
  obtain ⟨s, hs, hlog⟩ := Option.bind_eq_some_iff.mp hlog
  have hreplayed : ((32, 1, .replayed "/api/v1/companies".toList [] [91, 93]) :: s.log.tail) <:+
      s.log := by
    cases hsplit : s.log with
    | nil =>
      rw [hsplit] at hlog
      cases hlog
    | cons entry rest =>
      rw [hsplit] at hlog
      cases hlog
      exact List.suffix_rfl
  exact ⟨s, hs, hreplayed, (cached_response_sound oneRequest hs hreplayed).2⟩

variable {settings}

/-! ## The requests in flight -/

/-- The requests that are counted, and the size of the cache. -/
structure Counted (settings : MiddlewareSettings) (s : ServerState) : Prop where
  active : s.activeHttp = s.requests.countP (·.phase.active)
  bounded : settings.mode = .enforce → s.activeHttp ≤ settings.httpConcurrency
  cache : s.cache.length ≤ PublicCache.capacity

/-- The number of active requests after one has gone on. -/
theorem active_move (phase : RequestPhase) (hrequest : s.requests[i]? = some request) :
    (s.move i request phase).requests.countP (·.phase.active) +
        (if request.phase.active then 1 else 0) =
      s.requests.countP (·.phase.active) + if phase.active then 1 else 0 := by
  obtain ⟨hlength, hget⟩ := List.getElem?_eq_some_iff.mp hrequest
  change (s.requests.set i { request with phase := phase }).countP (·.phase.active) + _ = _
  rw [List.countP_set hlength, hget]
  have hcounted : (if request.phase.active = true then 1 else 0) ≤
      s.requests.countP (·.phase.active) := by
    rw [← hget]
    exact List.boole_getElem_le_countP (p := fun other => other.phase.active) hlength
  dsimp only
  omega

/-- A request goes on without a change of what is counted. -/
theorem Counted.move (h : s.Counted settings) (hrequest : s.requests[i]? = some request)
    (hphase : phase.active = request.phase.active) : (s.move i request phase).Counted settings where
  active := by
    have hcount := active_move phase hrequest
    rw [hphase] at hcount
    exact h.active.trans (Nat.add_right_cancel hcount).symm
  bounded := h.bounded
  cache := h.cache

theorem length_get (now : ℚ) (path : Str) (entries : PublicCache.Entries) :
    (PublicCache.get now path entries).1.length ≤ entries.length := by
  unfold PublicCache.get
  cases hget : Dict.get? path entries with
  | none => exact le_rfl
  | some value =>
    dsimp only
    split_ifs with hexpired
    · exact List.length_filter_le _ _
    · rw [List.length_append, List.length_singleton]
      obtain ⟨⟨key, found⟩, hfind, -⟩ := Option.map_eq_some_iff.mp hget
      have hlt : (entries.filter (·.1 ≠ path)).length < entries.length := by
        refine List.length_filter_lt_length_iff_exists.mpr
          ⟨(key, found), List.mem_of_find?_eq_some hfind, ?_⟩
        simpa using List.find?_some hfind
      exact hlt

theorem length_put {seconds : ℕ} {now : ℚ} {path : Str} {headers : Headers} {body : List UInt8}
    {entries : PublicCache.Entries} (h : entries.length ≤ PublicCache.capacity) :
    (PublicCache.put seconds now path headers body entries).length ≤ PublicCache.capacity := by
  unfold PublicCache.put
  split_ifs
  · dsimp only
    rw [List.length_drop]
    omega
  · exact h

/-- A request that is admitted is counted. -/
theorem Counted.cachedRequest (h : s.Counted settings) (hrequest : s.requests[i]? = some request)
    (hphase : request.phase.active = false)
    (hroom : settings.mode = .enforce → s.activeHttp < settings.httpConcurrency) :
    ({ s with activeHttp := s.activeHttp + 1 }.cachedRequest i request).Counted settings := by
  have hmoved : ∀ phase cache, phase.active = true → cache.length ≤ PublicCache.capacity →
      Counted settings (ServerState.move i request phase
        { s with activeHttp := s.activeHttp + 1, cache := cache }) := by
    intro phase cache hactive hcache
    refine ⟨?_, fun hmode => hroom hmode, hcache⟩
    have hcount := active_move phase hrequest
    rw [hphase, hactive] at hcount
    change s.activeHttp + 1 = (s.move i request phase).requests.countP (·.phase.active)
    rw [h.active]
    exact hcount.symm
  unfold ServerState.cachedRequest
  split_ifs
  · have hlength := length_get s.clock request.scope.path s.cache
    split
    next cache value hget =>
      rw [show PublicCache.get s.clock request.scope.path s.cache = (cache, some value) from hget]
        at hlength
      obtain ⟨hactive, hbounded, hcache⟩ := hmoved .replaying cache rfl (hlength.trans h.cache)
      exact ⟨hactive, hbounded, hcache⟩
    next cache hget =>
      rw [show PublicCache.get s.clock request.scope.path s.cache = (cache, none) from hget]
        at hlength
      exact hmoved (.capturing none) cache rfl (hlength.trans h.cache)
  · exact hmoved .forwarding s.cache rfl h.cache

theorem Counted.note (h : s.Counted settings) (i : ℕ) (event : ServedEvent) :
    (s.note i event).Counted settings := ⟨h.active, h.bounded, h.cache⟩

theorem Counted.reject (h : s.Counted settings) (hrequest : s.requests[i]? = some request)
    (hphase : request.phase.active = false) (status : ℕ) (retry : ℤ) :
    (s.reject i request status retry).Counted settings := by
  have hmoved : (s.move i request .finished).Counted settings := h.move hrequest hphase.symm
  exact hmoved.note i _

theorem Counted.check (h : s.Counted settings) (hrequest : s.requests[i]? = some request)
    (hphase : request.phase.active = false) (rest : List Str) (reply : Option BucketReply) :
    (s.check settings i request rest reply).Counted settings := by
  unfold ServerState.check
  split
  · exact h.reject hrequest hphase 503 1
  next decision _ =>
    split_ifs
    · exact h.reject hrequest hphase 429 decision.retryAfter
    · split
      · unfold ServerState.letIn
        split_ifs with hconnect hfull
        · exact h.move hrequest hphase.symm
        · exact h.reject hrequest hphase 503 1
        · refine h.cachedRequest hrequest hphase fun hmode => ?_
          rw [hmode] at hfull
          simpa using hfull
      · exact h.move hrequest hphase.symm

theorem Counted.capture (h : s.Counted settings) (hrequest : s.requests[i]? = some request)
    {start : Option (ℕ × Headers)} (hphase : request.phase = .capturing start)
    (message : AppMessage) : (s.capture settings i request start message).Counted settings := by
  have hactive : request.phase.active = true := by rw [hphase]; rfl
  unfold ServerState.capture
  split
  · exact h.move hrequest hactive.symm
  next body headers =>
    have hput : Counted settings { s with
        cache := PublicCache.put settings.cacheSeconds s.clock request.scope.path headers body
          s.cache } := ⟨h.active, h.bounded, length_put h.cache⟩
    dsimp only
    split_ifs
    · exact hput.note i _
    · exact hput
  · exact h.move hrequest hactive.symm
  · exact h

theorem Counted.advance {action : ServerAction} (h : s.Counted settings)
    (hrequest : s.requests[i]? = some request)
    (hadvance : s.advance settings i request action = some t) : t.Counted settings := by
  unfold ServerState.advance at hadvance
  split at hadvance
  next reply policy rest hphase =>
    cases hadvance
    exact h.check hrequest (by rw [hphase]; rfl) rest reply
  · split_ifs at hadvance
    cases hadvance
    exact h.note i _
  next message start hphase =>
    split_ifs at hadvance
    cases hadvance
    exact (h.note i _).capture hrequest hphase message
  · cases hadvance
  · cases hadvance
    have hcount := active_move .finished hrequest
    have hle : (if request.phase.active then s.activeHttp - 1 else s.activeHttp) ≤
        s.activeHttp := by
      split_ifs
      · exact Nat.sub_le _ _
      · exact le_rfl
    refine ⟨?_, fun hmode => hle.trans (h.bounded hmode), h.cache⟩
    change (if request.phase.active then s.activeHttp - 1 else s.activeHttp) =
      (s.move i request .finished).requests.countP (·.phase.active)
    rw [h.active]
    change _ + _ = _ + 0 at hcount
    split_ifs at hcount ⊢ <;> omega
  · cases hadvance

theorem Counted.step {now : ℚ} {action : ServerAction} (h : s.Counted settings)
    (hstep : step settings (now, action) s = some t) : t.Counted settings := by
  have hnow : Counted settings { s with clock := now } := ⟨h.active, h.bounded, h.cache⟩
  unfold ServerState.step at hstep
  split_ifs at hstep with hclock
  dsimp only at hstep
  split at hstep
  next scope =>
    cases hstep
    refine ⟨?_, h.bounded, h.cache⟩
    have hnew : (arrive settings scope).active = false := by
      unfold arrive
      split_ifs <;> rfl
    rw [List.countP_append, List.countP_singleton, hnew]
    exact h.active
  · split at hstep
    · cases hstep
    next i _ =>
      obtain ⟨request, hrequest, hadvance⟩ := Option.bind_eq_some_iff.mp hstep
      exact hnow.advance hrequest hadvance

variable (settings)

/-- **No more requests than there may be**: the counter is the number of requests whose handling has
begun and not ended, and where limits are enforced it stays within `http_concurrency`; the cache
stays small. -/
theorem active_http_bounded {clock : ℚ} {actions : List (ℚ × ServerAction)}
    (hrun : run settings clock actions = some s) :
    s.activeHttp = s.requests.countP (·.phase.active) ∧
      (settings.mode = .enforce → s.activeHttp ≤ settings.httpConcurrency) ∧
      s.cache.length ≤ PublicCache.capacity := by
  have hcounted : s.Counted settings := by
    refine Interleaving.run_invariant (I := fun s => s.Counted settings)
      ⟨rfl, fun _ => Nat.zero_le _, Nat.zero_le _⟩ ?_ hrun
    rintro _ ⟨now, action⟩ _ c c' - - hstep h
    exact h.step hstep
  exact ⟨hcounted.active, hcounted.bounded, hcounted.cache⟩

/-- While the first request is with the application, there is no room for another one. -/
theorem first_request_counted :
    ∃ s, run oneRequest 0 ((0, .arrive companiesRequest) :: admitted 1 0) = some s ∧
      1 = s.requests.countP (·.phase.active) ∧ s.cache.length ≤ PublicCache.capacity := by
  have hactive : (run oneRequest 0 ((0, .arrive companiesRequest) :: admitted 1 0)).map
      (·.activeHttp) = some 1 := by decide +kernel
  obtain ⟨s, hs, hactive⟩ := Option.map_eq_some_iff.mp hactive
  obtain ⟨hcount, -, hcache⟩ := active_http_bounded oneRequest hs
  exact ⟨s, hs, hactive ▸ hcount, hcache⟩

end ServerState

end JobPing
