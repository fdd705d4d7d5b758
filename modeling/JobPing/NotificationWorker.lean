import JobPing.Notifications
import Mathlib.Data.Char
import Mathlib.Data.List.Lex

/-!
# Sending

The second half of `app/notifications/worker.py`. A worker claims a delivery in one transaction,
calls the provider without one, and writes the outcome back in another: `claim` and `writeBack` are
separate steps, with the call between them (`Send`).
-/

namespace JobPing

variable (env : NotificationEnv)

/-! ## Claims -/

/-- A claimed delivery whose outcome is not written back: what `claim` returns, with the account of
the key and the `now` of `send_one`. -/
structure Send where
  deliveryId : Str
  key : Str
  body : Payload
  account : Str
  now : Time
  deriving DecidableEq

/-- The account a subscriber sends with. -/
def Subscriber.account (user : Subscriber) : Str :=
  if user.provider = .shared then "shared".toList else user.id

/-- **`budget`**. -/
def budget (t : NotificationTables) (account : Str) (kind : DeliveryKind) (now : Time) : Bool :=
  if (t.account account).any fun state => state.blockedUntil.any (now < ·) then false
  else
    let recaps := t.notificationSubscribers.countP fun user =>
      (if account = "shared".toList then user.provider = .shared else user.id = account) &&
        user.recap && user.verified && !user.suppressed
    let count (n : ℤ) := t.notificationDeliveries.countP fun item =>
      item.account = some account && item.firstAttempt.any (now - days n ≤ ·)
    let reserveDaily := if kind ≠ .recap then recaps else 0
    let reserveMonth := if kind ≠ .recap then recaps * 31 else 0
    count 1 < 90 - reserveDaily && count 31 < 2900 - reserveMonth

/-- What a claim makes of one candidate. -/
inductive ClaimDecision
  /-- A new status, with its error code. -/
  | setStatus (status : DeliveryStatus) (errorCode : Option Str)
  /-- Leave the delivery alone. -/
  | skip
  /-- Another try in five minutes. -/
  | postpone (errorCode : Str)
  /-- The recipient is not the verified owner of the address any more. -/
  | unverify
  /-- The key or the texts are not configured. -/
  | misconfigured
  | send (key : Str) (body : Payload)

/-- The key of a subscriber's account. -/
def Subscriber.apiKey (user : Subscriber) : Option Str :=
  if user.provider = .byok then user.keyCiphertext.bind env.decrypt else env.resendApiKey

/-- The body of `item`, which is frozen when it is first claimed. -/
def frozenPayload (db : Db) (item : EmailDelivery) (user : Subscriber) : Option Payload :=
  match item.payload with
  | some body => some body
  | none => (env.render db item user).map fun content => ⟨[user.email], content⟩

/-- Whether a first claim of an alert finds it cancelled or expired. -/
def staleAlert (db : Db) (now : Time) (item : EmailDelivery) : Option DeliveryStatus :=
  if item.kind ≠ .alert || item.firstAttempt.isSome then none
  else
    match item.occurrenceIds.head? with
    | none => some .cancelled
    | some occurrenceId =>
      if (db.jobOccurrences.find? (·.id = occurrenceId)).all (·.closedAt.isSome) then
        some .cancelled
      else if hours 24 ≤ now - item.createdAt then some .expired
      else none

/-- The checks on one candidate. `verify` is the answer of `verify_recipient`, `none` its exception. -/
def claimDecision (db : Db) (t : NotificationTables) (verify : Str → Str → Option Bool)
    (now : Time) (item : EmailDelivery) (user : Subscriber) : ClaimDecision :=
  if user.suppressed || !user.verified || (item.kind = .alert && !user.alerts) ||
      (item.kind = .recap && !user.recap) then
    .setStatus .cancelled item.errorCode
  else if truthy item.connectionVersion &&
      item.connectionVersion ≠ some user.connectionVersion then
    .setStatus (if item.firstAttempt.isSome then .reconcile else .cancelled) item.errorCode
  else if (user.status = .senderError || user.status = .needsTest) && item.kind ≠ .test then .skip
  else if item.firstAttempt.any fun first => hours 23 ≤ now - first then
    .setStatus .reconcile (some "idempotency_window_expired".toList)
  else
    match staleAlert db now item with
    | some status => .setStatus status item.errorCode
    | none =>
      if item.firstAttempt.isNone && !budget t user.account item.kind now then
        .postpone "quota_paused".toList
      else
        match verify user.id user.email with
        | none => .postpone "recipient_verification_unavailable".toList
        | some false => .unverify
        | some true =>
          match user.apiKey env, frozenPayload env db item user with
          | some key, some body => .send key body
          | _, _ => .misconfigured

/-- The assignments of a claim on its delivery. -/
def EmailDelivery.claimed (user : Subscriber) (body : Payload) (now : Time) (item : EmailDelivery) :
    EmailDelivery :=
  { item with
    payload := some body
    account := some user.account
    connectionVersion := some user.connectionVersion
    firstAttempt := some (item.firstAttempt.getD now)
    attempts := item.attempts + 1
    status := .sending
    leaseUntil := some (now + minutes 2) }

/-- One round of the loop over the candidates. -/
def claimItem (db : Db) (verify : Str → Str → Option Bool) (now : Time) (t : NotificationTables)
    (item : EmailDelivery) : NotificationTables × Option Send :=
  match t.subscriber item.subscriberId with
  | none => (t, none)
  | some user =>
    match claimDecision env db t verify now item user with
    | .setStatus status errorCode =>
      (t.updateDelivery item.id ({ · with status := status, errorCode := errorCode }), none)
    | .skip => (t, none)
    | .postpone errorCode =>
      (t.updateDelivery item.id
        ({ · with errorCode := some errorCode, dueAt := now + minutes 5 }), none)
    | .unverify =>
      ((t.updateSubscriber user.id ({ · with verified := false })).updateDelivery item.id
        ({ · with status := .cancelled }), none)
    | .misconfigured =>
      (t.updateSubscriber user.id ({ · with status := .configurationError }), none)
    | .send key body =>
      (t.updateDelivery item.id (·.claimed user body now),
        some ⟨item.id, key, body, user.account, now⟩)

/-- The loop over the candidates, up to the first one that is claimed. -/
def claimItems (db : Db) (verify : Str → Str → Option Bool) (now : Time) :
    NotificationTables → List EmailDelivery → NotificationTables × Option Send
  | t, [] => (t, none)
  | t, item :: items =>
    match claimItem env db verify now t item with
    | (t, some send) => (t, some send)
    | (t, none) => claimItems db verify now t items

/-- The last charged delivery of a subscriber. -/
def lastAttempt (t : NotificationTables) (subscriberId : Str) : Option Time :=
  ((t.notificationDeliveries.filter (·.subscriberId = subscriberId)).filterMap
    (·.firstAttempt)).max?

/-- Recaps first, then the recipients in rotation. -/
def claimLe (t : NotificationTables) (a b : EmailDelivery) : Bool :=
  if (a.kind = .recap) ≠ (b.kind = .recap) then a.kind = .recap
  else
    match lastAttempt t a.subscriberId, lastAttempt t b.subscriberId with
    | none, some _ => true
    | some _, none => false
    | lastA, lastB =>
      if lastA ≠ lastB then lastA.getD 0 < lastB.getD 0
      else if a.createdAt ≠ b.createdAt then a.createdAt < b.createdAt
      else a.id ≤ b.id

/-- Whether a delivery may be claimed. -/
def EmailDelivery.claimable (now : Time) (item : EmailDelivery) : Bool :=
  (item.status = .pending || item.status = .sending) && item.dueAt ≤ now &&
    item.leaseUntil.all (· ≤ now)

/-- The candidates, in the order of the loop. -/
def candidates (now : Time) (t : NotificationTables) : List EmailDelivery :=
  let rows := (t.notificationDeliveries.filter (·.claimable now)).insertionSort fun a b =>
    if (a.kind = .recap) ≠ (b.kind = .recap) then a.kind = .recap else a.createdAt ≤ b.createdAt
  (rows.take 500).insertionSort fun a b => claimLe t a b

/-- **`claim`**. -/
def claim (db : Db) (verify : Str → Str → Option Bool) (now : Time) (t : NotificationTables) :
    NotificationTables × Option Send :=
  claimItems env db verify now t (candidates now t)

/-! ## Outcomes -/

/-- The `code` of `send_one`. -/
inductive SendCode
  | accepted
  | networkError
  | providerError
  | dailyQuotaExceeded
  | monthlyQuotaExceeded
  | rateLimitExceeded
  | invalidApiKey
  | restrictedApiKey
  | validationError
  | invalidFromAddress
  | invalidAccess
  | invalidIdempotentRequest
  deriving DecidableEq

def SendCode.text : SendCode → Str
  | accepted => "accepted".toList
  | networkError => "network_error".toList
  | providerError => "provider_error".toList
  | dailyQuotaExceeded => "daily_quota_exceeded".toList
  | monthlyQuotaExceeded => "monthly_quota_exceeded".toList
  | rateLimitExceeded => "rate_limit_exceeded".toList
  | invalidApiKey => "invalid_api_key".toList
  | restrictedApiKey => "restricted_api_key".toList
  | validationError => "validation_error".toList
  | invalidFromAddress => "invalid_from_address".toList
  | invalidAccess => "invalid_access".toList
  | invalidIdempotentRequest => "invalid_idempotent_request".toList

/-- The error names that are recorded as they are. -/
def SendCode.known : List SendCode :=
  [.dailyQuotaExceeded, .monthlyQuotaExceeded, .rateLimitExceeded, .invalidApiKey,
    .restrictedApiKey, .validationError, .invalidFromAddress, .invalidAccess,
    .invalidIdempotentRequest]

def SendCode.ofName (name : Str) : SendCode :=
  (SendCode.known.find? (·.text = name)).getD .providerError

/-- What `response.json()` gives. -/
inductive ResponseBody
  /-- Not JSON: a `ValueError`. -/
  | invalid
  | notAnObject
  /-- An object: the text of its `id` if that is true, and of its `name`. -/
  | object (id : Option Str) (name : Str)
  deriving DecidableEq

/-- An answer of the provider; `none` in a header is a text that is no number. -/
structure Response where
  statusCode : ℕ
  body : ResponseBody
  retryAfter : Option ℤ
  dailyQuota : Option ℤ
  monthlyQuota : Option ℤ
  deriving DecidableEq

/-- The header `retry-after`, bounded. -/
def Response.retry (response : Response) : ℤ :=
  match response.retryAfter with
  | some value => min 86400 (max 1 value)
  | none => 30

/-- A client error that another try would not change. -/
def Response.refused (response : Response) : Bool :=
  400 ≤ response.statusCode && response.statusCode < 500 && response.statusCode ≠ 429 &&
    response.statusCode ≠ 409

/-- What `send_one` reads from a response; no response is an `httpx.HTTPError`. -/
def readResponse : Option Response → SendCode × Option Str × ℤ
  | none => (.networkError, none, 30)
  | some response =>
    match response.body with
    | .invalid => (.networkError, none, 30)
    | .notAnObject => (.networkError, none, response.retry)
    | .object id name =>
      if 200 ≤ response.statusCode && response.statusCode < 300 && truthy id then
        (.accepted, id, response.retry)
      else (.ofName name, none, response.retry)

/-- The outcome of a write-back for its delivery. -/
inductive SendOutcome
  | accepted (providerId : Option Str)
  | quota (delay : ℤ)
  | failed
  | retry (delay : ℤ)
  deriving DecidableEq

/-- The branches of the write-back. -/
def sendOutcome (attempts : ℕ) (response : Option Response) : SendOutcome :=
  let (code, providerId, retry) := readResponse response
  if code = .accepted then .accepted providerId
  else if code = .dailyQuotaExceeded then .quota (days 1)
  else if code = .monthlyQuotaExceeded then .quota (days 31)
  else if response.any (·.refused) then .failed
  else .retry (seconds (max retry (min 3600 (15 * 2 ^ min attempts 8))))

/-- The assignments of a write-back on its delivery. -/
def EmailDelivery.writtenBack (now : Time) (response : Option Response) (item : EmailDelivery) :
    EmailDelivery :=
  let code : SendCode := (readResponse response).1
  let item : EmailDelivery :=
    { item with
      leaseUntil := none
      errorCode := if code = .accepted then none else some code.text }
  match sendOutcome item.attempts response with
  | .accepted providerId =>
    { item with
      providerId := providerId
      status :=
        if item.status = .delivered ∨ item.status = .bounced ∨ item.status = .complained then
          item.status
        else .accepted }
  | .quota delay => { item with status := .pending, dueAt := now + delay }
  | .failed => { item with status := .failed }
  | .retry delay => { item with status := .pending, dueAt := now + delay }

/-- The subscriber after a write-back. -/
def Subscriber.writtenBack (item : EmailDelivery) (response : Option Response)
    (user : Subscriber) : Subscriber :=
  if item.connectionVersion ≠ some user.connectionVersion then user
  else
    match sendOutcome item.attempts response with
    | .accepted _ => if item.kind = .test then { user with status := .ready } else user
    | .failed => { user with status := .senderError }
    | _ => user

/-- A quota of the account that is used up blocks it for a while. -/
def blockQuota (now : Time) (account : Str) (t : NotificationTables) :
    Option ℤ × ℤ × ℤ → NotificationTables
  | (used, threshold, delay) =>
    if used.any (threshold ≤ ·) then
      t.blockAccount account fun state =>
        if state.blockedUntil.all (· < now + delay) then
          { state with
            blockedUntil := some (now + delay)
            errorCode := some "quota_paused".toList }
        else state
    else t

/-- The blocks a response puts on the account: the refused quota, and the used up ones. -/
def accountBlocks (now : Time) (item : EmailDelivery) (response : Option Response)
    (t : NotificationTables) : NotificationTables :=
  let account := item.account.getD []
  let t :=
    match sendOutcome item.attempts response with
    | .quota delay => t.blockAccount account fun state =>
        { state with
          blockedUntil := some (now + delay)
          errorCode := some (readResponse response).1.text }
    | _ => t
  match response with
  | none => t
  | some response =>
    [(response.dailyQuota, 90, days 1), (response.monthlyQuota, 2900, days 31)].foldl
      (blockQuota now account) t

/-- **The write-back** of `send_one`. -/
def writeBack (send : Send) (response : Option Response) (t : NotificationTables) :
    NotificationTables :=
  match t.delivery send.deliveryId with
  | none => t
  | some item =>
    accountBlocks send.now item response
      ((t.updateDelivery item.id (·.writtenBack send.now response)).updateSubscriber
        item.subscriberId (·.writtenBack item response))

section frame

variable {now : Time} {item : EmailDelivery} {response : Option Response} {t : NotificationTables}

variable (now item response) in
/-- A write-back changes the status and the outcome of a delivery. -/
theorem writtenBack_frame : ∃ status dueAt providerId errorCode,
    item.writtenBack now response = { item with
      status := status, dueAt := dueAt, leaseUntil := none, providerId := providerId,
      errorCode := errorCode } := by
  unfold EmailDelivery.writtenBack
  dsimp only
  split <;> exact ⟨_, _, _, _, rfl⟩

variable (item response) in
theorem subscriber_writtenBack_frame (user : Subscriber) :
    ∃ status, user.writtenBack item response = { user with status := status } := by
  unfold Subscriber.writtenBack
  split
  · exact ⟨_, rfl⟩
  · split
    · split <;> exact ⟨_, rfl⟩
    · exact ⟨_, rfl⟩
    · exact ⟨_, rfl⟩

variable (now) in
theorem blockQuota_frame (account : Str) (t : NotificationTables) (quota : Option ℤ × ℤ × ℤ) :
    ∃ accounts, blockQuota now account t quota = { t with notificationAccounts := accounts } := by
  obtain ⟨used, threshold, delay⟩ := quota
  unfold blockQuota
  dsimp only
  split_ifs <;> exact ⟨_, rfl⟩

/-- The blocks are about the accounts alone. -/
theorem accountBlocks_frame : ∃ accounts,
    accountBlocks now item response t = { t with notificationAccounts := accounts } := by
  have hrefused : ∃ accounts,
      (match sendOutcome item.attempts response with
        | .quota delay => t.blockAccount (item.account.getD []) fun state =>
          { state with
            blockedUntil := some (now + delay)
            errorCode := some (readResponse response).1.text }
        | _ => t) = { t with notificationAccounts := accounts } := by
    split <;> exact ⟨_, rfl⟩
  obtain ⟨accounts, haccounts⟩ := hrefused
  unfold accountBlocks
  dsimp only
  rw [haccounts]
  cases response with
  | none => exact ⟨_, rfl⟩
  | some response =>
    dsimp only [List.foldl_cons, List.foldl_nil]
    obtain ⟨daily, hdaily⟩ := blockQuota_frame now (item.account.getD [])
      { t with notificationAccounts := accounts } (response.dailyQuota, 90, days 1)
    obtain ⟨monthly, hmonthly⟩ := blockQuota_frame now (item.account.getD [])
      { t with notificationAccounts := daily } (response.monthlyQuota, 2900, days 31)
    rw [hdaily, hmonthly]
    exact ⟨_, rfl⟩

variable (response) in
theorem writeBack_frame {send : Send} (hitem : t.delivery send.deliveryId = some item) :
    ∃ accounts, writeBack send response t =
      { (t.updateDelivery item.id (·.writtenBack send.now response)).updateSubscriber
          item.subscriberId (·.writtenBack item response) with
        notificationAccounts := accounts } := by
  unfold writeBack
  rw [hitem]
  exact accountBlocks_frame

theorem writeBack_sameKeys (send : Send) (response : Option Response) (t : NotificationTables) :
    t.SameKeys (writeBack send response t) := by
  cases hitem : t.delivery send.deliveryId with
  | none =>
    unfold writeBack
    rw [hitem]
    exact .refl t
  | some item =>
    obtain ⟨accounts, hframe⟩ := writeBack_frame response hitem
    rw [hframe]
    have hdelivery : t.SameKeys (t.updateDelivery item.id (·.writtenBack send.now response)) :=
      NotificationTables.sameKeys_updateDeliveries _ fun row => by
        obtain ⟨_, _, _, _, hrow⟩ :=
          writtenBack_frame send.now row response
        rw [hrow]
    have hsubscriber : ∀ u : NotificationTables, u.SameKeys
        (u.updateSubscriber item.subscriberId (·.writtenBack item response)) := fun u =>
      NotificationTables.sameKeys_updateSubscriber _ fun user => by
        obtain ⟨_, huser⟩ :=
          subscriber_writtenBack_frame item response user
        rw [huser]
    have hboth := hdelivery.trans (hsubscriber _)
    exact ⟨hboth.subscribers, hboth.matched, hboth.deliveries⟩

end frame

end JobPing
