import JobPing.Interleaving
import JobPing.PublicHtml
import Mathlib.Algebra.Order.Ring.Rat
import Mathlib.Data.Rat.Defs
import Mathlib.Logic.Function.Basic

/-!
# Outbound retrieval

`Fetcher` and `PublicTransport` of `app/evidence/fetch.py`: any number of calls of `get` at once,
with any resolutions and answers. A step is what a call does between two points at which it waits:
for the lock of its domain, a resolution, an answer, a part of the body or the end of a pause.
`httpx.URL` and `is_global` of `ipaddress` are those of any libraries; `httpx` gives the headers
under names in lower case.
-/

namespace JobPing

/-! ## The transport -/

/-- A URL as `httpx` reads it. -/
structure HttpxUrl where
  text : Str
  scheme : Str
  host : Str
  port : Option ℕ
  userinfo : Str

/-- `httpx.URL`, where `none` stands for its exceptions, and `ip_address(address).is_global`. -/
structure Network where
  url : Str → Option HttpxUrl
  isGlobal : Str → Bool

/-- The codes of `FetchError`, and any other exception. -/
inductive FetchFailure
  | unsupportedDestination
  | credentialsInUrl
  | dnsUnavailable
  | nonPublicDestination
  | providerCooldown
  | invalidRedirect
  | httpUnavailable
  | documentTooLarge
  | transportUnavailable
  | tooManyRedirects
  | uncaught
  deriving DecidableEq

/-- A connection: the address it is pinned to, one of those to which the host was resolved. -/
structure Connection where
  scheme : Str
  port : ℕ
  resolved : List Str
  address : Str
  sniHostname : Str
  deriving DecidableEq

/-- A connection goes to a public address of a web server. -/
structure Connection.Public (net : Network) (connection : Connection) : Prop where
  scheme : connection.scheme ∈ ["http".toList, "https".toList]
  port : connection.port = 80 ∨ connection.port = 443
  pinned : connection.address ∈ connection.resolved
  isGlobal : ∀ address ∈ connection.resolved, net.isGlobal address = true

namespace PublicTransport

/-- `request.url.port or (443 if request.url.scheme == "https" else 80)`. -/
def port (url : HttpxUrl) : ℕ :=
  match url.port with
  | none => if url.scheme = "https".toList then 443 else 80
  | some 0 => if url.scheme = "https".toList then 443 else 80
  | some port => port

/-- `handle_async_request` up to the resolution. -/
def check (url : HttpxUrl) : Except FetchFailure ℕ :=
  if url.scheme ∉ ["http".toList, "https".toList] || port url ∉ [80, 443] then
    .error .unsupportedDestination
  else if url.userinfo ≠ [] then .error .credentialsInUrl
  else .ok (port url)

/-- `handle_async_request` after the resolution; `none` stands for an `OSError`. -/
def pin (net : Network) (url : HttpxUrl) (addresses : Option (List Str)) :
    Except FetchFailure Connection :=
  match addresses with
  | none => .error .dnsUnavailable
  | some [] => .error .nonPublicDestination
  | some (address :: others) =>
    if (address :: others).any fun address => !net.isGlobal address then
      .error .nonPublicDestination
    else .ok ⟨url.scheme, port url, address :: others, address, url.host⟩

end PublicTransport

/-! ## Calls -/

structure FetchedPage where
  url : Str
  body : List UInt8
  contentType : Str
  headers : List (Str × Str)
  deriving DecidableEq

/-- Where a call of `get` waits. -/
inductive FetchPhase
  | waiting (domain : Str)
  | resolving (domain : Str) (attempt : ℕ) (target : HttpxUrl)
  | connected (domain : Str) (attempt : ℕ) (target : HttpxUrl)
  | reading (domain : Str) (attempt : ℕ) (target : HttpxUrl) (headers : List (Str × Str))
      (content : List UInt8)
  | sleeping (domain : Str) (attempt : ℕ)
  | finished (result : Except FetchFailure FetchedPage)

/-- The domain whose lock a call has. -/
def FetchPhase.held : FetchPhase → Option Str
  | .waiting _ => none
  | .resolving domain _ _ => some domain
  | .connected domain _ _ => some domain
  | .reading domain _ _ _ _ => some domain
  | .sleeping domain _ => some domain
  | .finished _ => none

/-- The page that a call has returned. -/
def FetchPhase.page : FetchPhase → Option FetchedPage
  | .finished (.ok page) => some page
  | _ => none

theorem FetchPhase.finished_of_page {phase : FetchPhase} {page : FetchedPage}
    (h : phase.page = some page) : phase = .finished (.ok page) := by
  unfold FetchPhase.page at h
  split at h
  · rw [Option.some.inj h]
  · cases h

/-- A call of `get`, on its way to a URL. -/
structure FetchCall where
  maxBytes : ℕ
  url : Str
  hop : ℕ
  phase : FetchPhase

/-- What the transport below answers. -/
structure FetchHead where
  statusCode : ℕ
  headers : List (Str × Str)

/-- The next part of a body, its end, or an `HTTPError`. -/
inductive BodyPart
  | chunk (bytes : List UInt8)
  | complete
  | broken

namespace FetchCall

variable (P : Python) (net : Network)

/-- The checks of a URL, with the domain. -/
def domain (url : Str) : Except FetchFailure Str :=
  match urlsplit P url with
  | none => .error .uncaught
  | some parts =>
    if parts.scheme ∉ ["http".toList, "https".toList] then .error .unsupportedDestination
    else
      match parts.hostname P with
      | none => .error .unsupportedDestination
      | some hostname =>
        if parts.userinfo.1.getD [] ≠ [] || parts.userinfo.2.getD [] ≠ [] then
          .error .unsupportedDestination
        else
          match parts.port with
          | none => .error .uncaught
          | some port =>
            if port ∉ [none, some 80, some 443] || 2048 < url.length then
              .error .unsupportedDestination
            else .ok (P.casefold hostname)

/-- A round of the outer loop up to the lock. -/
def enter (maxBytes : ℕ) (url : Str) (hop : ℕ) : FetchCall :=
  if 6 ≤ hop then ⟨maxBytes, url, hop, .finished (.error .tooManyRedirects)⟩
  else
    match domain P url with
    | .error failure => ⟨maxBytes, url, hop, .finished (.error failure)⟩
    | .ok domain => ⟨maxBytes, url, hop, .waiting domain⟩

/-- An attempt up to the resolution. -/
def attempt (call : FetchCall) (domain : Str) (attempt : ℕ) : FetchPhase :=
  match net.url call.url with
  | none => .finished (.error .uncaught)
  | some target =>
    match PublicTransport.check target with
    | .error failure => .finished (.error failure)
    | .ok _ => .resolving domain attempt target

/-- After an `HTTPError`. -/
def broken (domain : Str) (attempt : ℕ) : FetchPhase :=
  if attempt = 2 then .finished (.error .transportUnavailable) else .sleeping domain attempt

/-- A status after which the domain is left alone. -/
def cools (statusCode : ℕ) : Bool := statusCode ∈ [429, 503]

/-- After an answer. -/
def answer (call : FetchCall) (domain : Str) (attempt : ℕ) (target : HttpxUrl) (head : FetchHead) :
    FetchCall :=
  if cools head.statusCode then { call with phase := .finished (.error .providerCooldown) }
  else if 500 ≤ head.statusCode && attempt < 2 then
    { call with phase := .sleeping domain attempt }
  else if 300 ≤ head.statusCode && head.statusCode ≤ 399 then
    match (Dict.get? "location".toList head.headers).getD [] with
    | [] => { call with phase := .finished (.error .invalidRedirect) }
    | c :: destination =>
      match urljoin P call.url (c :: destination) with
      | none => { call with phase := .finished (.error .uncaught) }
      | some url => enter P call.maxBytes url (call.hop + 1)
  else if head.statusCode ≠ 200 then
    { call with phase := .finished (.error .httpUnavailable) }
  else { call with phase := .reading domain attempt target head.headers [] }

/-- The headers that a page keeps. -/
def keptHeaders : List Str := ["content-type", "content-security-policy"].map String.toList

/-- After a part of the body. -/
def read (call : FetchCall) (domain : Str) (attempt : ℕ) (target : HttpxUrl)
    (headers : List (Str × Str)) (content : List UInt8) (part : BodyPart) : FetchPhase :=
  match part with
  | .chunk bytes =>
    if call.maxBytes < (content ++ bytes).length then .finished (.error .documentTooLarge)
    else .reading domain attempt target headers (content ++ bytes)
  | .complete =>
    .finished (.ok ⟨target.text, content, (Dict.get? "content-type".toList headers).getD [],
      headers.filter fun item => item.1 ∈ keptHeaders⟩)
  | .broken => broken domain attempt

end FetchCall

/-! ## The fetcher -/

inductive FetchEvent
  | connected (domain : Str) (connection : Connection)
  | answered (domain : Str) (statusCode : ℕ)
  deriving DecidableEq

def FetchEvent.connects : FetchEvent → Bool
  | .connected _ _ => true
  | .answered _ _ => false

/-- The fetcher: its calls, who has the lock of a domain, and the cooldowns; then the time, and what
the calls have sent and received, the latest first. -/
structure FetchState where
  calls : List FetchCall
  holder : Str → Option ℕ
  cooldowns : Str → ℚ
  clock : ℚ
  log : List (ℚ × ℕ × FetchEvent)

/-- What happens next: a call begins, or one goes on. -/
inductive FetchAction
  | get (url : Str) (maxBytes : ℕ)
  | lock (call : ℕ)
  | resolve (call : ℕ) (addresses : Option (List Str))
  /-- `none` stands for an `HTTPError`. -/
  | respond (call : ℕ) (head : Option FetchHead)
  | read (call : ℕ) (part : BodyPart)
  | wake (call : ℕ)
  /-- An exception that the call does not catch, where it waits. -/
  | cancel (call : ℕ)

namespace FetchState

variable (P : Python) (net : Network)

def start (clock : ℚ) : FetchState := ⟨[], fun _ => none, fun _ => 0, clock, []⟩

/-- A call goes on, with the lock of its new phase. -/
def put (i : ℕ) (call next : FetchCall) (s : FetchState) : FetchState :=
  { s with
    calls := s.calls.set i next
    holder := fun domain =>
      if next.phase.held = some domain then some i
      else if call.phase.held = some domain then none
      else s.holder domain }

/-- An event of a call, now. -/
def note (i : ℕ) (event : FetchEvent) (s : FetchState) : FetchState :=
  { s with log := (s.clock, i, event) :: s.log }

/-- A domain that asks for it is left alone for a minute. -/
def cool (domain : Str) (statusCode : ℕ) (s : FetchState) : FetchState :=
  if FetchCall.cools statusCode then
    { s with cooldowns := Function.update s.cooldowns domain (s.clock + 60) }
  else s

/-- What a call does, at the time of the state. -/
def advance (i : ℕ) (call : FetchCall) (action : FetchAction) (s : FetchState) :
    Option FetchState :=
  match action, call.phase with
  | .lock _, .waiting domain =>
    if s.holder domain ≠ none then none
    else if s.clock < s.cooldowns domain then
      some (s.put i call { call with phase := .finished (.error .providerCooldown) })
    else some (s.put i call { call with phase := call.attempt net domain 0 })
  | .resolve _ addresses, .resolving domain attempt target =>
    match PublicTransport.pin net target addresses with
    | .error failure => some (s.put i call { call with phase := .finished (.error failure) })
    | .ok connection =>
      some ((s.put i call { call with phase := .connected domain attempt target }).note i
        (.connected domain connection))
  | .respond _ none, .connected domain attempt _ =>
    some (s.put i call { call with phase := FetchCall.broken domain attempt })
  | .respond _ (some head), .connected domain attempt target =>
    some (((s.cool domain head.statusCode).put i call
      (call.answer P domain attempt target head)).note i (.answered domain head.statusCode))
  | .read _ part, .reading domain attempt target headers content =>
    some (s.put i call
      { call with phase := call.read domain attempt target headers content part })
  | .wake _, .sleeping domain attempt =>
    some (s.put i call { call with phase := call.attempt net domain (attempt + 1) })
  | .cancel _, .finished _ => none
  | .cancel _, _ => some (s.put i call { call with phase := .finished (.error .uncaught) })
  | _, _ => none

end FetchState

/-- The call that goes on. -/
def FetchAction.call : FetchAction → Option ℕ
  | .get _ _ => none
  | .lock call => some call
  | .resolve call _ => some call
  | .respond call _ => some call
  | .read call _ => some call
  | .wake call => some call
  | .cancel call => some call

namespace FetchState

variable (P : Python) (net : Network)

/-- A step at a time. -/
def step (action : ℚ × FetchAction) (s : FetchState) : Option FetchState :=
  if action.1 < s.clock then none
  else
    let s := { s with clock := action.1 }
    match action.2 with
    | .get url maxBytes => some { s with calls := s.calls ++ [FetchCall.enter P maxBytes url 0] }
    | action =>
      match action.call with
      | none => none
      | some i => (s.calls[i]?).bind fun call => s.advance P net i call action

/-- The state after some steps. -/
def run (clock : ℚ) (actions : List (ℚ × FetchAction)) : Option FetchState :=
  Interleaving.run (step P net) (start clock) actions

variable {P net} {s t : FetchState} {i : ℕ} {call next : FetchCall} {domain : Str}

/-- What a call does: it fails, or goes on in one of six ways. -/
inductive Advances (P : Python) (net : Network) (s : FetchState) (i : ℕ) (call : FetchCall) :
    FetchState → Prop
  | fail (failure : FetchFailure) :
    Advances P net s i call (s.put i call { call with phase := .finished (.error failure) })
  | lock (domain : Str) (hphase : call.phase = .waiting domain) (hfree : s.holder domain = none)
      (hcool : s.cooldowns domain ≤ s.clock) :
    Advances P net s i call (s.put i call { call with phase := call.attempt net domain 0 })
  | connect (domain : Str) (attempt : ℕ) (target : HttpxUrl) (addresses : Option (List Str))
      (connection : Connection) (hphase : call.phase = .resolving domain attempt target)
      (hpin : PublicTransport.pin net target addresses = .ok connection) :
    Advances P net s i call ((s.put i call
      { call with phase := .connected domain attempt target }).note i
        (.connected domain connection))
  | broken (domain : Str) (attempt : ℕ) (target : HttpxUrl)
      (hphase : call.phase = .connected domain attempt target) :
    Advances P net s i call (s.put i call { call with phase := FetchCall.broken domain attempt })
  | answer (domain : Str) (attempt : ℕ) (target : HttpxUrl) (head : FetchHead)
      (hphase : call.phase = .connected domain attempt target) :
    Advances P net s i call (((s.cool domain head.statusCode).put i call
      (call.answer P domain attempt target head)).note i (.answered domain head.statusCode))
  | read (domain : Str) (attempt : ℕ) (target : HttpxUrl) (headers : List (Str × Str))
      (content : List UInt8) (part : BodyPart)
      (hphase : call.phase = .reading domain attempt target headers content) :
    Advances P net s i call (s.put i call
      { call with phase := call.read domain attempt target headers content part })
  | wake (domain : Str) (attempt : ℕ) (hphase : call.phase = .sleeping domain attempt) :
    Advances P net s i call (s.put i call
      { call with phase := call.attempt net domain (attempt + 1) })

theorem advances {action : FetchAction} (h : s.advance P net i call action = some t) :
    Advances P net s i call t := by
  unfold advance at h
  split at h
  next domain hphase =>
    split_ifs at h with hheld hcool
    · cases h
      exact .fail _
    · cases h
      exact .lock domain hphase (by simpa using hheld) (not_lt.mp hcool)
  next addresses domain attempt target hphase =>
    cases hpin : PublicTransport.pin net target addresses with
    | error failure =>
      rw [hpin] at h
      cases h
      exact .fail failure
    | ok connection =>
      rw [hpin] at h
      cases h
      exact .connect domain attempt target addresses connection hphase hpin
  next domain attempt target hphase =>
    cases h
    exact .broken domain attempt target hphase
  next head domain attempt target hphase =>
    cases h
    exact .answer domain attempt target head hphase
  next part domain attempt target headers content hphase =>
    cases h
    exact .read domain attempt target headers content part hphase
  next domain attempt hphase =>
    cases h
    exact .wake domain attempt hphase
  · cases h
  · cases h
    exact .fail _
  · cases h

/-- **A step**: a new call, or one that goes on. -/
theorem step_cases {now : ℚ} {action : FetchAction} (h : step P net (now, action) s = some t) :
    s.clock ≤ now ∧
    ((∃ url maxBytes,
      t = { s with clock := now, calls := s.calls ++ [FetchCall.enter P maxBytes url 0] }) ∨
    ∃ i call, s.calls[i]? = some call ∧ Advances P net { s with clock := now } i call t) := by
  unfold step at h
  split_ifs at h with hclock
  refine ⟨not_lt.mp hclock, ?_⟩
  dsimp only at h
  split at h
  next url maxBytes =>
    cases h
    exact .inl ⟨url, maxBytes, rfl⟩
  · split at h
    · cases h
    next i _ =>
      obtain ⟨call, hcall, h⟩ := Option.bind_eq_some_iff.mp h
      exact .inr ⟨i, call, hcall, advances h⟩

/-! ## One call for each domain, and none while it cools -/

/-- A connection to a domain that asked to be left alone is a minute later. -/
def Respects (later earlier : ℚ × ℕ × FetchEvent) : Prop :=
  ∀ domain connection status, later.2.2 = .connected domain connection →
    earlier.2.2 = .answered domain status → FetchCall.cools status = true →
    earlier.1 + 60 ≤ later.1

structure Exclusive (s : FetchState) : Prop where
  /-- A call with the lock of a domain is the only one, and the domain does not cool. -/
  held : ∀ i call domain, s.calls[i]? = some call → call.phase.held = some domain →
    s.holder domain = some i ∧ s.cooldowns domain ≤ s.clock
  cooled : ∀ time i domain status, (time, i, .answered domain status) ∈ s.log →
    FetchCall.cools status = true → time + 60 ≤ s.cooldowns domain
  past : ∀ entry ∈ s.log, entry.1 ≤ s.clock
  respects : s.log.Pairwise Respects

theorem exclusive_start (clock : ℚ) : (start clock).Exclusive where
  held _ _ _ h := by cases h
  cooled _ _ _ _ h := by cases h
  past _ h := by cases h
  respects := .nil

/-- Time passes. -/
theorem Exclusive.wait (h : s.Exclusive) {now : ℚ} (hnow : s.clock ≤ now) :
    Exclusive { s with clock := now } where
  held i call domain hcall hheld :=
    (h.held i call domain hcall hheld).imp_right fun hcool => hcool.trans hnow
  cooled := h.cooled
  past entry hentry := (h.past entry hentry).trans hnow
  respects := h.respects

theorem cool_calls (domain : Str) (status : ℕ) (s : FetchState) :
    (s.cool domain status).calls = s.calls := by
  unfold cool
  split_ifs <;> rfl

theorem cool_holder (domain : Str) (status : ℕ) (s : FetchState) :
    (s.cool domain status).holder = s.holder := by
  unfold cool
  split_ifs <;> rfl

theorem cool_clock (domain : Str) (status : ℕ) (s : FetchState) :
    (s.cool domain status).clock = s.clock := by
  unfold cool
  split_ifs <;> rfl

theorem cool_log (domain : Str) (status : ℕ) (s : FetchState) :
    (s.cool domain status).log = s.log := by
  unfold cool
  split_ifs <;> rfl

/-- Whether a domain is left alone does not depend on where the call goes on. -/
theorem put_cool (domain : Str) (status : ℕ) :
    (s.cool domain status).put i call next = (s.put i call next).cool domain status := by
  unfold cool
  split_ifs <;> rfl

theorem call_put {j : ℕ} {other : FetchCall} (h : (s.put i call next).calls[j]? = some other) :
    i = j ∧ next = other ∨ i ≠ j ∧ s.calls[j]? = some other := by
  have hset : (s.calls.set i next)[j]? = some other := h
  rw [List.getElem?_set] at hset
  split_ifs at hset with hij hlength
  · exact .inl ⟨hij, Option.some.inj hset⟩
  · exact .inr ⟨hij, hset⟩

theorem call_append {calls : List FetchCall} {j : ℕ} {other : FetchCall}
    (h : (calls ++ [next])[j]? = some other) : calls[j]? = some other ∨ next = other := by
  rcases lt_or_ge j calls.length with hlt | hge
  · rw [List.getElem?_append_left hlt] at h
    exact .inl h
  · rw [List.getElem?_append_right hge] at h
    exact .inr (List.mem_singleton.mp (List.mem_of_getElem? h)).symm

theorem holder_put (h : next.phase.held ≠ some domain) (hcall : call.phase.held ≠ some domain) :
    (s.put i call next).holder domain = s.holder domain := by
  change (if _ then _ else if _ then _ else _) = _
  rw [if_neg h, if_neg hcall]

/-- A call goes on with the lock it has, without it, or with one that nobody has. -/
theorem Exclusive.put (h : s.Exclusive) (hcall : s.calls[i]? = some call)
    (hnext : ∀ domain, next.phase.held = some domain → call.phase.held = some domain ∨
      s.holder domain = none ∧ s.cooldowns domain ≤ s.clock) :
    (s.put i call next).Exclusive where
  held j other domain hother hheld := by
    rcases call_put hother with ⟨rfl, rfl⟩ | ⟨hne, hother⟩
    · refine ⟨if_pos hheld, ?_⟩
      rcases hnext domain hheld with hold | ⟨-, hcool⟩
      · exact (h.held i call domain hcall hold).2
      · exact hcool
    · obtain ⟨hj, hcool⟩ := h.held j other domain hother hheld
      have hcall_ne : call.phase.held ≠ some domain := fun hold =>
        hne (Option.some.inj ((h.held i call domain hcall hold).1.symm.trans hj))
      have hnext_ne : next.phase.held ≠ some domain := fun hnew => by
        rcases hnext domain hnew with hold | ⟨hfree, -⟩
        · exact hcall_ne hold
        · rw [hfree] at hj
          cases hj
      exact ⟨(holder_put hnext_ne hcall_ne).trans hj, hcool⟩
  cooled := h.cooled
  past := h.past
  respects := h.respects

/-- A call connects to the domain whose lock it has. -/
theorem Exclusive.connected (h : s.Exclusive) (hcall : s.calls[i]? = some call)
    (hheld : call.phase.held = some domain) (connection : Connection) :
    (s.note i (.connected domain connection)).Exclusive where
  held := h.held
  cooled time j other status hmem hcools := by
    rcases List.mem_cons.mp hmem with htop | hold
    · cases htop
    · exact h.cooled time j other status hold hcools
  past entry hentry := by
    rcases List.mem_cons.mp hentry with rfl | hold
    · exact le_rfl
    · exact h.past entry hold
  respects := by
    refine List.pairwise_cons.mpr ⟨?_, h.respects⟩
    intro earlier hearlier other _ status hother hanswered hcools
    cases hother
    obtain ⟨time, j, event⟩ := earlier
    cases hanswered
    exact (h.cooled time j domain status hearlier hcools).trans (h.held i call domain hcall hheld).2

/-- An answer to a call that has let the lock go, if the domain is to be left alone. -/
theorem Exclusive.answered (h : s.Exclusive) (status : ℕ)
    (hfree : FetchCall.cools status = true →
      ∀ (j : ℕ) call, s.calls[j]? = some call → call.phase.held ≠ some domain) :
    ((s.cool domain status).note i (.answered domain status)).Exclusive := by
  have hcooled : (s.cool domain status).cooldowns =
      if FetchCall.cools status then Function.update s.cooldowns domain (s.clock + 60)
      else s.cooldowns := by
    unfold cool
    split_ifs <;> rfl
  refine ⟨fun j call other hcall hheld => ?_, fun time j other status' hmem hcools' => ?_,
    fun entry hentry => ?_, ?_⟩
  · have hcall' : s.calls[j]? = some call := cool_calls domain status s ▸ hcall
    obtain ⟨hholder, hcool⟩ := h.held j call other hcall' hheld
    refine ⟨(cool_holder domain status s).symm ▸ hholder, ?_⟩
    change (s.cool domain status).cooldowns other ≤ (s.cool domain status).clock
    rw [hcooled, cool_clock]
    split_ifs with hcools
    · have hother : other ≠ domain := by
        rintro rfl
        exact hfree hcools j call hcall' hheld
      rw [Function.update_of_ne hother]
      exact hcool
    · exact hcool
  · change time + 60 ≤ (s.cool domain status).cooldowns other
    rw [hcooled]
    rcases List.mem_cons.mp hmem with htop | hold
    · cases htop
      rw [if_pos hcools', Function.update_self, cool_clock]
    · rw [cool_log] at hold
      have hcool := h.cooled time j other status' hold hcools'
      split_ifs with hcools
      · by_cases heq : other = domain
        · subst heq
          rw [Function.update_self]
          exact add_le_add (h.past _ hold) le_rfl
        · rw [Function.update_of_ne heq]
          exact hcool
      · exact hcool
  · change entry.1 ≤ (s.cool domain status).clock
    rw [cool_clock]
    rcases List.mem_cons.mp hentry with rfl | hold
    · exact (cool_clock domain status s).le
    · exact h.past entry (cool_log domain status s ▸ hold)
  · refine List.pairwise_cons.mpr ⟨fun _ _ _ _ _ hconnected => ?_, ?_⟩
    · cases hconnected
    · rw [cool_log]
      exact h.respects

theorem held_enter (maxBytes : ℕ) (url : Str) (hop : ℕ) :
    (FetchCall.enter P maxBytes url hop).phase.held = none := by
  unfold FetchCall.enter
  split_ifs
  · rfl
  · split <;> rfl

theorem held_attempt {n : ℕ} {other : Str}
    (h : (call.attempt net domain n).held = some other) : domain = other := by
  unfold FetchCall.attempt at h
  split at h
  · cases h
  · split at h
    · cases h
    · exact Option.some.inj h

theorem held_broken {n : ℕ} {other : Str} (h : (FetchCall.broken domain n).held = some other) :
    domain = other := by
  unfold FetchCall.broken at h
  split_ifs at h
  · cases h
  · exact Option.some.inj h

theorem held_read {n : ℕ} {target : HttpxUrl} {headers : List (Str × Str)} {content : List UInt8}
    {part : BodyPart} {other : Str}
    (h : (call.read domain n target headers content part).held = some other) : domain = other := by
  unfold FetchCall.read at h
  split at h
  · split_ifs at h
    · cases h
    · exact Option.some.inj h
  · cases h
  · exact held_broken h

/-- An answer ends the call, or leads to another URL, or the call keeps its lock. -/
theorem held_answer {n : ℕ} {target : HttpxUrl} {head : FetchHead} {other : Str}
    (h : (call.answer P domain n target head).phase.held = some other) :
    domain = other ∧ FetchCall.cools head.statusCode = false := by
  unfold FetchCall.answer at h
  split_ifs at h with hcools
  · cases h
  · exact ⟨Option.some.inj h, by simpa using hcools⟩
  · split at h
    · cases h
    · split at h
      · cases h
      · rw [held_enter] at h
        cases h
  · cases h
  · exact ⟨Option.some.inj h, by simpa using hcools⟩

theorem Exclusive.advance (h : s.Exclusive) (hcall : s.calls[i]? = some call)
    (hadvances : Advances P net s i call t) : t.Exclusive := by
  cases hadvances with
  | fail failure => exact h.put hcall fun other hheld => by cases hheld
  | lock domain hphase hfree hcool =>
    exact h.put hcall fun other hheld => held_attempt hheld ▸ .inr ⟨hfree, hcool⟩
  | connect domain attempt target addresses connection hphase hpin =>
    have hheld : call.phase.held = some domain := by rw [hphase]; rfl
    have hput : (s.put i call
        { call with phase := .connected domain attempt target }).Exclusive :=
      h.put hcall fun other hother => .inl (hheld.trans hother)
    have hmoved := List.getElem?_set_self (List.getElem?_eq_some_iff.mp hcall).1
      (a := { call with phase := .connected domain attempt target })
    exact hput.connected hmoved rfl connection
  | broken domain attempt target hphase =>
    refine h.put hcall fun other hheld => .inl ?_
    rw [hphase, ← held_broken hheld]
    rfl
  | answer domain attempt target head hphase =>
    have hheld : call.phase.held = some domain := by rw [hphase]; rfl
    have hput : (s.put i call (call.answer P domain attempt target head)).Exclusive :=
      h.put hcall fun other hother => .inl ((held_answer hother).1 ▸ hheld)
    rw [put_cool]
    refine hput.answered head.statusCode fun hcools j other hother hheld' => ?_
    rcases call_put hother with ⟨rfl, rfl⟩ | ⟨hne, hother⟩
    · rw [(held_answer hheld').2] at hcools
      cases hcools
    · have hj := (h.held j other domain hother hheld').1
      exact hne (Option.some.inj ((h.held i call domain hcall hheld).1.symm.trans hj))
  | read domain attempt target headers content part hphase =>
    refine h.put hcall fun other hheld => .inl ?_
    rw [hphase, ← held_read hheld]
    rfl
  | wake domain attempt hphase =>
    refine h.put hcall fun other hheld => .inl ?_
    rw [hphase, ← held_attempt hheld]
    rfl

theorem Exclusive.step {now : ℚ} {action : FetchAction} (h : s.Exclusive)
    (hstep : step P net (now, action) s = some t) : t.Exclusive := by
  obtain ⟨hclock, ⟨url, maxBytes, rfl⟩ | ⟨i, call, hcall, hadvances⟩⟩ := step_cases hstep
  · refine ⟨fun j other domain hother hheld => ?_, h.cooled,
      fun entry hentry => (h.past entry hentry).trans hclock, h.respects⟩
    rcases call_append hother with hold | hnew
    · exact (h.wait hclock).held j other domain hold hheld
    · rw [← hnew, held_enter] at hheld
      cases hheld
  · exact (h.wait hclock).advance hcall hadvances

variable (P net)

/-- **A cooling domain is left alone**: however the calls interleave, at most one of them has a
domain's lock, and none connects to a domain within a minute after it answered 429 or 503. -/
theorem cooldown_respected {clock : ℚ} {actions : List (ℚ × FetchAction)}
    (hrun : run P net clock actions = some s) :
    (∀ (i j : ℕ) (call other : FetchCall) domain, s.calls[i]? = some call →
      s.calls[j]? = some other → call.phase.held = some domain →
      other.phase.held = some domain → i = j) ∧
    s.log.Pairwise Respects := by
  have hinv : s.Exclusive := by
    refine Interleaving.run_invariant (exclusive_start clock) ?_ hrun
    rintro _ ⟨now, action⟩ _ c c' - - hstep h
    exact h.step hstep
  refine ⟨fun i j call other domain hi hj hheld hheld' => ?_, hinv.respects⟩
  exact Option.some.inj
    ((hinv.held i call domain hi hheld).1.symm.trans (hinv.held j other domain hj hheld').1)

/-- URLs as they are read above, and the addresses of one test network are private. -/
def sampleNetwork : Network where
  url text := (urlsplit .ascii text).map fun parts =>
    ⟨text, parts.scheme, (parts.hostname .ascii).getD [], parts.port.getD none, []⟩
  isGlobal address := !("192.0.2.".toList).isPrefixOf address

/-- The first call is told to leave the domain alone, the second one does, and the third one is late
enough. -/
def threeFetches : List (ℚ × FetchAction) :=
  [(0, .get "http://a.example/".toList 100), (0, .lock 0),
    (1, .resolve 0 (some ["93.184.216.34".toList])), (2, .respond 0 (some ⟨429, []⟩)),
    (3, .get "http://a.example/b".toList 100), (3, .lock 1),
    (62, .get "http://a.example/c".toList 100), (62, .lock 2),
    (63, .resolve 2 (some ["93.184.216.34".toList])),
    (64, .respond 2 (some ⟨200, [("content-type".toList, "text/html".toList)]⟩)),
    (65, .read 2 (.chunk [104, 105])), (66, .read 2 .complete)]

theorem three_fetches_apart : ∃ s, run .ascii sampleNetwork 0 threeFetches = some s ∧
    s.log.length = 4 ∧ s.log.Pairwise Respects := by
  have hlength : (run .ascii sampleNetwork 0 threeFetches).map (·.log.length) = some 4 := by
    decide +kernel
  obtain ⟨s, hs, hlength⟩ := Option.map_eq_some_iff.mp hlength
  exact ⟨s, hs, hlength, (cooldown_respected .ascii sampleNetwork hs).2⟩

variable {P net}

/-! ## What a call may do -/

/-- The connections of a call. -/
def connections (i : ℕ) (log : List (ℚ × ℕ × FetchEvent)) : ℕ :=
  log.countP fun entry => entry.2.1 = i && entry.2.2.connects

/-- A call was answered with success. -/
def Answered (i : ℕ) (log : List (ℚ × ℕ × FetchEvent)) : Prop :=
  ∃ time domain, (time, i, .answered domain 200) ∈ log

/-- A call has made at most three connections for each URL, and reads no more than it may. -/
def Within (i : ℕ) (log : List (ℚ × ℕ × FetchEvent)) (call : FetchCall) : Prop :=
  match call.phase with
  | .waiting _ => call.hop < 6 ∧ connections i log ≤ 3 * call.hop
  | .resolving _ attempt target =>
    call.hop < 6 ∧ attempt ≤ 2 ∧ connections i log ≤ 3 * call.hop + attempt ∧
      PublicTransport.check target = .ok (PublicTransport.port target)
  | .connected _ attempt _ =>
    call.hop < 6 ∧ attempt ≤ 2 ∧ connections i log ≤ 3 * call.hop + attempt + 1
  | .reading _ attempt _ _ content =>
    call.hop < 6 ∧ attempt ≤ 2 ∧ connections i log ≤ 3 * call.hop + attempt + 1 ∧
      content.length ≤ call.maxBytes ∧ Answered i log
  | .sleeping _ attempt =>
    call.hop < 6 ∧ attempt < 2 ∧ connections i log ≤ 3 * call.hop + attempt + 1
  | .finished result =>
    connections i log ≤ 18 ∧
      ∀ page, result = .ok page → page.body.length ≤ call.maxBytes ∧ Answered i log

structure Bounded (s : FetchState) (net : Network) : Prop where
  calls : ∀ i call, s.calls[i]? = some call → Within i s.log call
  fresh : ∀ i, s.calls.length ≤ i → connections i s.log = 0
  connected : ∀ time i domain connection, (time, i, .connected domain connection) ∈ s.log →
    connection.Public net

theorem bounded_start (clock : ℚ) : (start clock).Bounded net where
  calls _ _ h := by cases h
  fresh _ _ := rfl
  connected _ _ _ _ h := by cases h

theorem Within.connections_le {log : List (ℚ × ℕ × FetchEvent)} (h : Within i log call) :
    connections i log ≤ 18 := by
  unfold Within at h
  split at h <;> omega

/-- What others do does not count. -/
theorem Within.frame {log : List (ℚ × ℕ × FetchEvent)} (h : Within i log call) {j : ℕ}
    (hj : j ≠ i) (time : ℚ) (event : FetchEvent) : Within i ((time, j, event) :: log) call := by
  have hcount : connections i ((time, j, event) :: log) = connections i log :=
    List.countP_cons_of_neg (by simp [hj])
  have hanswered : Answered i log → Answered i ((time, j, event) :: log) :=
    fun ⟨time', domain, hmem⟩ => ⟨time', domain, List.mem_cons_of_mem _ hmem⟩
  unfold Within at h ⊢
  rw [hcount]
  split at h
  · exact h
  · exact h
  · exact h
  · exact ⟨h.1, h.2.1, h.2.2.1, h.2.2.2.1, hanswered h.2.2.2.2⟩
  · exact h
  · exact ⟨h.1, fun page hpage => (h.2 page hpage).imp_right hanswered⟩

/-- A call goes on without an event. -/
theorem Bounded.put (h : s.Bounded net) (hnext : Within i s.log next) :
    (s.put i call next).Bounded net where
  calls j other hother := by
    rcases call_put hother with ⟨rfl, rfl⟩ | ⟨-, hold⟩
    · exact hnext
    · exact h.calls j other hold
  fresh j hj := by
    refine h.fresh j ?_
    rwa [FetchState.put, List.length_set] at hj
  connected := h.connected

/-- A call goes on with an event. -/
theorem Bounded.note_put (h : s.Bounded net) (hcall : s.calls[i]? = some call) {event : FetchEvent}
    (hnext : Within i ((s.clock, i, event) :: s.log) next)
    (hevent : ∀ domain connection, event = .connected domain connection →
      connection.Public net) :
    ((s.put i call next).note i event).Bounded net where
  calls j other hother := by
    have hput : (s.put i call next).calls[j]? = some other := hother
    rcases call_put hput with ⟨rfl, rfl⟩ | ⟨hne, hold⟩
    · exact hnext
    · exact (h.calls j other hold).frame hne _ _
  fresh j hj := by
    have hlength : s.calls.length ≤ j := by
      rwa [FetchState.note, FetchState.put, List.length_set] at hj
    have hne : i ≠ j := by
      rintro rfl
      exact absurd (List.getElem?_eq_some_iff.mp hcall).1 (not_lt.mpr hlength)
    exact (List.countP_cons_of_neg (by simp [hne])).trans (h.fresh j hlength)
  connected time j domain connection hmem := by
    rcases List.mem_cons.mp hmem with htop | hold
    · cases htop
      exact hevent domain connection rfl
    · exact h.connected time j domain connection hold

/-! ### The moves of a call -/

theorem check_ok {target : HttpxUrl} {port : ℕ} (h : PublicTransport.check target = .ok port) :
    port = PublicTransport.port target ∧ target.scheme ∈ ["http".toList, "https".toList] ∧
      (port = 80 ∨ port = 443) := by
  unfold PublicTransport.check at h
  split_ifs at h with hdestination
  cases h
  rw [Bool.not_eq_true, Bool.or_eq_false_iff, decide_eq_false_iff_not, decide_eq_false_iff_not,
    not_not, not_not] at hdestination
  exact ⟨rfl, hdestination.1, by simpa using hdestination.2⟩

theorem public_of_pin {target : HttpxUrl} {addresses : Option (List Str)} {connection : Connection}
    (hcheck : PublicTransport.check target = .ok (PublicTransport.port target))
    (h : PublicTransport.pin net target addresses = .ok connection) : connection.Public net := by
  obtain ⟨-, hscheme, hport⟩ := check_ok hcheck
  unfold PublicTransport.pin at h
  split at h
  · cases h
  · cases h
  next address others =>
    split_ifs at h with hprivate
    cases h
    refine ⟨hscheme, hport, List.mem_cons_self, fun other hother => ?_⟩
    by_contra hlocal
    exact hprivate (List.any_eq_true.mpr ⟨other, hother, by simpa using hlocal⟩)

theorem within_attempt {log : List (ℚ × ℕ × FetchEvent)} {n : ℕ} (hhop : call.hop < 6)
    (hn : n ≤ 2) (hcount : connections i log ≤ 3 * call.hop + n) :
    Within i log { call with phase := call.attempt net domain n } := by
  have hfailed : ∀ failure : FetchFailure,
      Within i log { call with phase := .finished (.error failure) } := fun failure =>
    ⟨by omega, fun page hpage => nomatch hpage⟩
  unfold FetchCall.attempt
  split
  · exact hfailed _
  · split
    · exact hfailed _
    next target _ port hcheck =>
      exact ⟨hhop, hn, hcount, hcheck.trans (by rw [(check_ok hcheck).1])⟩

theorem within_broken {log : List (ℚ × ℕ × FetchEvent)} {n : ℕ} (hhop : call.hop < 6)
    (hn : n ≤ 2) (hcount : connections i log ≤ 3 * call.hop + n + 1) :
    Within i log { call with phase := FetchCall.broken domain n } := by
  unfold FetchCall.broken
  split_ifs with hlast
  · exact ⟨by omega, fun page hpage => nomatch hpage⟩
  · exact ⟨hhop, by omega, hcount⟩

theorem within_enter {log : List (ℚ × ℕ × FetchEvent)} {maxBytes hop : ℕ} {url : Str}
    (hhop : hop ≤ 6) (hcount : connections i log ≤ 3 * hop) :
    Within i log (FetchCall.enter P maxBytes url hop) := by
  unfold FetchCall.enter
  split_ifs with hlast
  · exact ⟨by omega, fun page hpage => nomatch hpage⟩
  · split
    · exact ⟨by omega, fun page hpage => nomatch hpage⟩
    · exact ⟨not_le.mp hlast, hcount⟩

theorem within_answer {log : List (ℚ × ℕ × FetchEvent)} {n : ℕ} {target : HttpxUrl}
    {head : FetchHead} (hhop : call.hop < 6) (hn : n ≤ 2)
    (hcount : connections i log ≤ 3 * call.hop + n + 1)
    (hanswered : head.statusCode = 200 → Answered i log) :
    Within i log (call.answer P domain n target head) := by
  have hfailed : ∀ failure : FetchFailure,
      Within i log { call with phase := .finished (.error failure) } := fun failure =>
    ⟨by omega, fun page hpage => nomatch hpage⟩
  unfold FetchCall.answer
  split_ifs with hcools hagain hredirect hstatus
  · exact hfailed _
  · refine ⟨hhop, ?_, hcount⟩
    rw [Bool.and_eq_true, decide_eq_true_iff, decide_eq_true_iff] at hagain
    exact hagain.2
  · split
    · exact hfailed _
    · split
      · exact hfailed _
      · exact within_enter (by omega) (by omega)
  · exact hfailed _
  · exact ⟨hhop, hn, hcount, Nat.zero_le _, hanswered (not_not.mp hstatus)⟩

theorem within_read {log : List (ℚ × ℕ × FetchEvent)} {n : ℕ} {target : HttpxUrl}
    {headers : List (Str × Str)} {content : List UInt8} {part : BodyPart} (hhop : call.hop < 6)
    (hn : n ≤ 2) (hcount : connections i log ≤ 3 * call.hop + n + 1)
    (hcontent : content.length ≤ call.maxBytes) (hanswered : Answered i log) :
    Within i log { call with phase := call.read domain n target headers content part } := by
  unfold FetchCall.read
  split
  · split_ifs with hlarge
    · exact ⟨by omega, fun page hpage => nomatch hpage⟩
    · exact ⟨hhop, hn, hcount, not_lt.mp hlarge, hanswered⟩
  · refine ⟨by omega, fun page hpage => ?_⟩
    cases hpage
    exact ⟨hcontent, hanswered⟩
  · exact within_broken hhop hn hcount

/-- One more event of a call. -/
theorem connections_cons (i : ℕ) (time : ℚ) (event : FetchEvent)
    (log : List (ℚ × ℕ × FetchEvent)) :
    connections i ((time, i, event) :: log) =
      connections i log + if event.connects then 1 else 0 := by
  rw [connections, List.countP_cons]
  simp [connections]

theorem Bounded.advance (h : s.Bounded net) (hcall : s.calls[i]? = some call)
    (hadvances : Advances P net s i call t) : t.Bounded net := by
  have hwithin := h.calls i call hcall
  cases hadvances with
  | fail failure => exact h.put ⟨hwithin.connections_le, fun page hpage => nomatch hpage⟩
  | lock domain hphase hfree hcool =>
    rw [Within, hphase] at hwithin
    exact h.put (within_attempt hwithin.1 (Nat.zero_le _) hwithin.2)
  | connect domain attempt target addresses connection hphase hpin =>
    rw [Within, hphase] at hwithin
    obtain ⟨hhop, hattempt, hcount, hcheck⟩ := hwithin
    refine h.note_put hcall ⟨hhop, hattempt, ?_⟩ fun other connection' hevent => ?_
    · rw [connections_cons]
      exact Nat.add_le_add hcount le_rfl
    · cases hevent
      exact public_of_pin hcheck hpin
  | broken domain attempt target hphase =>
    rw [Within, hphase] at hwithin
    exact h.put (within_broken hwithin.1 hwithin.2.1 hwithin.2.2)
  | answer domain attempt target head hphase =>
    rw [Within, hphase] at hwithin
    have hcooled : (s.cool domain head.statusCode).Bounded net := by
      unfold cool
      split_ifs
      · exact ⟨h.calls, h.fresh, h.connected⟩
      · exact h
    have hcall' : (s.cool domain head.statusCode).calls[i]? = some call :=
      (cool_calls domain head.statusCode s).symm ▸ hcall
    refine hcooled.note_put hcall' ?_ fun _ _ hevent => nomatch hevent
    rw [cool_log]
    refine within_answer hwithin.1 hwithin.2.1 ?_ fun hstatus => ?_
    · rw [connections_cons]
      exact hwithin.2.2
    · exact ⟨_, domain, List.mem_cons.mpr (.inl (by rw [hstatus]))⟩
  | read domain attempt target headers content part hphase =>
    rw [Within, hphase] at hwithin
    obtain ⟨hhop, hattempt, hcount, hcontent, hanswered⟩ := hwithin
    exact h.put (within_read hhop hattempt hcount hcontent hanswered)
  | wake domain attempt hphase =>
    rw [Within, hphase] at hwithin
    exact h.put (within_attempt hwithin.1 (by omega) (by omega))

theorem Bounded.step {now : ℚ} {action : FetchAction} (h : s.Bounded net)
    (hstep : step P net (now, action) s = some t) : t.Bounded net := by
  obtain ⟨-, ⟨url, maxBytes, rfl⟩ | ⟨i, call, hcall, hadvances⟩⟩ := step_cases hstep
  · refine ⟨fun j other hother => ?_, fun j hj => h.fresh j ?_, h.connected⟩
    · rcases lt_or_ge j s.calls.length with hlt | hge
      · rw [List.getElem?_append_left hlt] at hother
        exact h.calls j other hother
      · rw [List.getElem?_append_right hge] at hother
        rw [List.mem_singleton.mp (List.mem_of_getElem? hother)]
        exact within_enter (Nat.zero_le _) (h.fresh j hge).le
    · rw [List.length_append] at hj
      exact (Nat.le_add_right _ _).trans hj
  · have hnow : Bounded { s with clock := now } net := ⟨h.calls, h.fresh, h.connected⟩
    exact hnow.advance hcall hadvances

variable (P net)

/-- **What a call may do**: every connection goes to a public address, where all that its host was
resolved to is public; a call makes at most 18 of them, and a page it returns is no longer than it
may be and came with a success. -/
theorem calls_bounded {clock : ℚ} {actions : List (ℚ × FetchAction)}
    (hrun : run P net clock actions = some s) :
    (∀ time i domain connection, (time, i, .connected domain connection) ∈ s.log →
      connection.Public net) ∧
    ∀ i, connections i s.log ≤ 18 ∧
      ∀ call page, s.calls[i]? = some call → call.phase.page = some page →
        page.body.length ≤ call.maxBytes ∧ Answered i s.log := by
  have hinv : s.Bounded net := by
    refine Interleaving.run_invariant (I := fun s => s.Bounded net) (bounded_start clock) ?_ hrun
    rintro _ ⟨now, action⟩ _ c c' - - hstep h
    exact h.step hstep
  refine ⟨hinv.connected, fun i => ⟨?_, fun call page hcall hpage => ?_⟩⟩
  · cases hcall : s.calls[i]? with
    | none =>
      rw [hinv.fresh i (List.getElem?_eq_none_iff.mp hcall)]
      exact Nat.zero_le _
    | some call => exact (hinv.calls i call hcall).connections_le
  · have hwithin := hinv.calls i call hcall
    rw [Within, FetchPhase.finished_of_page hpage] at hwithin
    exact hwithin.2 page rfl

def thirdPage : FetchedPage :=
  ⟨"http://a.example/c".toList, [104, 105], "text/html".toList,
    [("content-type".toList, "text/html".toList)]⟩

/-- The third call returns the page that it was sent. -/
theorem third_fetch_bounded : ∃ s, run .ascii sampleNetwork 0 threeFetches = some s ∧
    connections 2 s.log ≤ 18 ∧ thirdPage.body.length ≤ 100 := by
  have hcall : ((run .ascii sampleNetwork 0 threeFetches).bind fun s => (s.calls[2]?).map
      fun call => (call.maxBytes, call.phase.page)) = some (100, some thirdPage) := by
    decide +kernel
  obtain ⟨s, hs, hcall⟩ := Option.bind_eq_some_iff.mp hcall
  obtain ⟨call, hcall, hpage⟩ := Option.map_eq_some_iff.mp hcall
  obtain ⟨hmax, hpage⟩ := Prod.mk.inj hpage
  have hbounded := (calls_bounded .ascii sampleNetwork hs).2 2
  refine ⟨s, hs, hbounded.1, ?_⟩
  rw [← hmax]
  exact (hbounded.2 call _ hcall hpage).1

end FetchState

end JobPing
