import JobPing.NotificationWorker
import JobPing.Raising

/-!
# Settings and webhooks

The routes of `app/notifications/api.py` that write: the preferences and the email connection of a
subscriber, the link to unsubscribe, and the delivery webhooks of the provider. An exception rolls
the request back.
-/

namespace JobPing

variable (env : NotificationEnv)

/-- An `HTTPException`. -/
structure HttpError where
  statusCode : ℕ
  detail : Str
  deriving DecidableEq

def httpError (statusCode : ℕ) (detail : String) : HttpError := ⟨statusCode, detail.toList⟩

/-- A check that raises has passed. -/
theorem check_eq_ok {β : Type} {p : Prop} [Decidable p] {e : HttpError}
    {k : PUnit → Except HttpError β} {b : β} :
    (if p then throw e >>= k else k ⟨⟩) = .ok b ↔ ¬p ∧ k ⟨⟩ = .ok b := by
  split_ifs with h <;> simp [h, throw, throwThe, MonadExceptOf.throw, bind, Except.bind]

/-! ## Subscribers -/

/-- The identity of a signed in request. -/
structure Who where
  uid : Str
  email : Str
  verified : Bool

/-- The texts a request draws from `uuid4` and `secrets`. -/
structure Tokens where
  unsubscribeToken : Str
  webhookId : Str
  connectionVersion : Str
  deliveryId : Str
  testKey : Str

namespace NotificationTables

/-- `cancel_pending`. -/
def cancelPending (t : NotificationTables) (subscriberId : Str) : NotificationTables :=
  t.updateDeliveries (fun item => item.subscriberId = subscriberId && item.status = .pending)
    ({ · with status := .cancelled })

/-- `cancel_pending` for one kind of email. -/
def cancelKind (t : NotificationTables) (subscriberId : Str) (kind : DeliveryKind) :
    NotificationTables :=
  t.updateDeliveries (fun item => item.subscriberId = subscriberId && item.kind = kind &&
    item.status = .pending) ({ · with status := .cancelled })

end NotificationTables

/-- A new `Subscriber`, with the defaults of the table. -/
def newSubscriber (who : Who) (timezone : Str) (tokens : Tokens) : Subscriber where
  id := who.uid
  email := who.email
  verified := who.verified
  alerts := false
  recap := false
  jobTypes := [.internship, .newGrad]
  seasons := [2026, 2027]
  timezone := timezone
  optedAt := none
  windowStart := none
  nextRecap := none
  provider := .shared
  keyCiphertext := none
  webhookCiphertext := none
  webhookId := tokens.webhookId
  connectionVersion := tokens.connectionVersion
  status := .ready
  suppressed := false
  unsubscribeToken := tokens.unsubscribeToken

/-- The assignments on a subscriber whose address has changed. -/
def Subscriber.readdressed (who : Who) (tokens : Tokens) (user : Subscriber) : Subscriber :=
  { user with
    email := who.email
    alerts := false
    recap := false
    optedAt := none
    windowStart := none
    nextRecap := none
    suppressed := false
    connectionVersion := tokens.connectionVersion
    unsubscribeToken := tokens.unsubscribeToken }

/-- The row of the signed in subscriber, created or moved to its present address. -/
def currentRow (who : Who) (timezone : Str) (tokens : Tokens) (t : NotificationTables) :
    Except HttpError NotificationTables :=
  let taken := t.notificationSubscribers.any (·.email = who.email)
  match t.subscriber who.uid with
  | none =>
    if taken then .error (httpError 409 "This email already has notification settings")
    else .ok { t with
      notificationSubscribers :=
        t.notificationSubscribers ++ [newSubscriber who timezone tokens] }
  | some user =>
    if user.email = who.email then .ok t
    else if taken then .error (httpError 409 "This email already has notification settings")
    else .ok ((t.cancelPending who.uid).updateSubscriber who.uid (·.readdressed who tokens))

/-- `subscriber`. -/
def subscriber (who : Who) (timezone : Str) (tokens : Tokens) (t : NotificationTables) :
    Except HttpError (NotificationTables × Subscriber) := do
  let t ← currentRow who timezone tokens t
  let t := t.updateSubscriber who.uid ({ · with verified := who.verified })
  let t := if who.verified then t else t.cancelPending who.uid
  match t.subscriber who.uid with
  | some user => return (t, user)
  | none => throw (httpError 500 "Internal Server Error")

/-! ## Preferences -/

/-- The body of `put_settings`. -/
structure Settings where
  alerts : Bool
  recap : Bool
  jobTypes : List JobType
  seasons : List ℕ
  timezone : Str

/-- The loop of `put_settings` over the discoveries committed before it. -/
def matchAll (now : Time) (uuid : ℕ → Str) (db : Db) : ℕ → NotificationTables → NotificationTables
  | 0, t => t
  | n + 1, t =>
    if t.notificationEvents.any fun event => !event.processed then
      matchAll now uuid db n (matchEvents now uuid db t)
    else t

/-- The assignments of `put_settings` on the subscriber. -/
def Subscriber.withSettings (zones : ZoneInfo) (now : Time) (body : Settings)
    (user : Subscriber) : Subscriber :=
  let enabled := body.alerts || body.recap
  { user with
    optedAt := if enabled && !(user.alerts || user.recap) then some now else user.optedAt
    windowStart := if body.recap && !user.recap then some now else user.windowStart
    nextRecap :=
      if !body.recap then none
      else if !user.recap || body.timezone ≠ user.timezone then
        some (nextCutoff zones now body.timezone)
      else user.nextRecap
    alerts := body.alerts
    recap := body.recap
    jobTypes := body.jobTypes
    seasons := body.seasons
    timezone := body.timezone }

/-- `shared_capacity`. -/
def sharedFull (t : NotificationTables) (user : Subscriber) : Bool :=
  user.provider = .shared && 10 ≤ t.notificationSubscribers.countP fun other =>
    other.id ≠ user.id && other.provider = .shared && (other.alerts || other.recap) &&
      !other.suppressed

/-- The end of `put_settings`: the discoveries committed before it, and the new settings. -/
def storeSettings (now : Time) (uuid : ℕ → Str) (db : Db) (body : Settings) (subscriberId : Str)
    (t : NotificationTables) : NotificationTables :=
  let t := matchAll now uuid db (t.notificationEvents.countP fun event => !event.processed) t
  let t := if body.alerts then t else t.cancelKind subscriberId .alert
  let t := if body.recap then t else t.cancelKind subscriberId .recap
  t.updateSubscriber subscriberId (·.withSettings env.zones now body)

/-- `put_settings`. -/
def putSettings (now : Time) (uuid : ℕ → Str) (db : Db) (body : Settings) (who : Who)
    (tokens : Tokens) (t : NotificationTables) : Except HttpError NotificationTables := do
  let (t, user) ← subscriber who "UTC".toList tokens t
  let enabled := body.alerts || body.recap
  if enabled && !who.verified then
    throw (httpError 403 "Verify your email before enabling notifications")
  if enabled && user.suppressed then
    throw (httpError 409 "Sending is suppressed after a bounce or complaint. Contact support.")
  if enabled && sharedFull t user then
    throw (httpError 409
      "The ten shared email places are full. Connect your own Resend account.")
  return storeSettings env now uuid db body user.id t

/-! ## Connections -/

/-- The assignments of `put_provider`. -/
def Subscriber.withProvider (keyCiphertext : Str) (webhookCiphertext : Option Str) (version : Str)
    (user : Subscriber) : Subscriber :=
  { user with
    provider := .byok
    keyCiphertext := some keyCiphertext
    webhookCiphertext := webhookCiphertext
    status := .needsTest
    connectionVersion := version }

/-- `put_provider`; the ciphertexts are those of `encrypt`, which may not be configured. -/
def putProvider (keyCiphertext : Option Str) (webhookCiphertext : Option Str) (who : Who)
    (tokens : Tokens) (version : Str) (t : NotificationTables) :
    Except HttpError NotificationTables := do
  let (t, user) ← subscriber who "UTC".toList tokens t
  let some cipher := keyCiphertext
    | throw (httpError 503 "Credential encryption is not configured")
  return (t.cancelPending user.id).updateSubscriber user.id
    (·.withProvider cipher webhookCiphertext version)

/-- The assignments of `delete_provider`. -/
def Subscriber.withoutProvider (version webhookId : Str) (user : Subscriber) : Subscriber :=
  { user with
    provider := .shared
    status := .ready
    keyCiphertext := none
    webhookCiphertext := none
    connectionVersion := version
    webhookId := webhookId
    alerts := false
    recap := false
    nextRecap := none }

/-- `delete_provider`. -/
def deleteProvider (who : Who) (tokens : Tokens) (version webhookId : Str)
    (t : NotificationTables) : Except HttpError NotificationTables := do
  let (t, user) ← subscriber who "UTC".toList tokens t
  return (t.cancelPending user.id).updateSubscriber user.id (·.withoutProvider version webhookId)

/-- `test_provider`. -/
def testProvider (now : Time) (who : Who) (tokens : Tokens) (t : NotificationTables) :
    Except HttpError NotificationTables := do
  let (t, user) ← subscriber who "UTC".toList tokens t
  if !user.verified || user.suppressed then
    throw (httpError 403 "A verified, unsuppressed recipient is required")
  if user.provider ≠ .byok || !truthy user.keyCiphertext then
    throw (httpError 409 "Connect your Resend account first")
  if t.notificationDeliveries.any fun item => item.subscriberId = user.id && item.kind = .test &&
      now - minutes 5 < item.createdAt then
    throw (httpError 429 "Wait five minutes before sending another test")
  return t.addDelivery
    (newDelivery user .test (.test tokens.testKey) [] now [] tokens.deliveryId)

/-- The assignments of `unsubscribe`. -/
def Subscriber.unsubscribed (user : Subscriber) : Subscriber :=
  { user with
    alerts := false
    recap := false
    nextRecap := none }

/-- `unsubscribe`. -/
def unsubscribe (token : Str) (t : NotificationTables) : Except HttpError NotificationTables :=
  match t.notificationSubscribers.find? (·.unsubscribeToken = token) with
  | none => .error (httpError 404 "Link not found")
  | some user =>
    .ok ((t.updateSubscriber user.id (·.unsubscribed)).cancelPending user.id)

/-! ## Webhooks -/

/-- The type of a webhook event. -/
inductive WebhookType
  | bounced
  | complained
  | delivered
  | other
  deriving DecidableEq

/-- A request to the webhook route: its body has a size and a signature. -/
structure WebhookCall where
  connection : Str
  svixId : Str
  size : ℕ
  signedWith : Str
  type : WebhookType
  emailId : Option Str

/-- The answer of the webhook route. -/
inductive WebhookStatus
  | duplicate
  | unrelated
  | ok
  deriving DecidableEq

/-- The secret and the account of a connection. -/
def webhookConnection (t : NotificationTables) (connection : Str) :
    Except HttpError (Option Str × Str) :=
  if connection = "shared".toList then .ok (env.resendWebhookSecret, "shared".toList)
  else
    match t.notificationSubscribers.find? (·.webhookId = connection) with
    | none => .error (httpError 404 "Webhook not configured")
    | some user =>
      if !truthy user.webhookCiphertext || user.provider ≠ .byok then
        .error (httpError 404 "Webhook not configured")
      else
        match user.webhookCiphertext.bind env.decrypt with
        | none => .error (httpError 500 "Internal Server Error")
        | some secret => .ok (some secret, user.id)

/-- The id under which an event is remembered. -/
def WebhookCall.eventId (call : WebhookCall) : Str := call.connection ++ ':' :: call.svixId

/-- The delivery an event is about; the provider does not give an email without an id. -/
def webhookDelivery (t : NotificationTables) (account : Str) (call : WebhookCall) :
    Option EmailDelivery :=
  t.notificationDeliveries.find? fun item =>
    item.account = some account && item.providerId = call.emailId

/-- The suppression of a recipient by a bounce or a complaint. -/
def suppressRecipient (t : NotificationTables) (item : EmailDelivery) : NotificationTables :=
  match t.subscriber item.subscriberId with
  | none => t
  | some recipient =>
    -- an old delivery does not suppress a newly changed address
    if item.payload.any (·.recipients = [recipient.email]) then
      (t.updateSubscriber recipient.id ({ · with suppressed := true })).cancelPending recipient.id
    else t

/-- What an event makes of the delivery it is about. -/
def applyEvent (t : NotificationTables) (item : EmailDelivery) : WebhookType → NotificationTables
  | .bounced =>
    (suppressRecipient t item).updateDelivery item.id ({ · with status := .bounced })
  | .complained =>
    (suppressRecipient t item).updateDelivery item.id ({ · with status := .complained })
  | .delivered =>
    if item.status = .bounced ∨ item.status = .complained then t
    else t.updateDelivery item.id ({ · with status := .delivered })
  | .other => t

/-- The route, once the request is verified. -/
def webhookEvent (t : NotificationTables) (account : Str) (call : WebhookCall) :
    Except HttpError (WebhookStatus × NotificationTables) :=
  if call.eventId ∈ t.notificationWebhooks then .ok (.duplicate, t)
  else
    match webhookDelivery t account call with
    | none =>
      if t.notificationDeliveries.any fun item =>
          item.account = some account && item.status = .sending then
        .error (httpError 503 "Send outcome is still being recorded")
      else .ok (.unrelated, t)
    | some item =>
      .ok (.ok, applyEvent
        { t with notificationWebhooks := t.notificationWebhooks ++ [call.eventId] } item call.type)

/-- **`webhook`**. -/
def webhook (t : NotificationTables) (call : WebhookCall) :
    Except HttpError (WebhookStatus × NotificationTables) := do
  let (secret, account) ← webhookConnection env t call.connection
  if !truthy secret then throw (httpError 503 "Webhook not configured")
  if 262144 < call.size then throw (httpError 413 "Webhook too large")
  if secret ≠ some call.signedWith then throw (httpError 400 "Invalid webhook signature")
  webhookEvent t account call

/-- A request to a connection, signed with its secret. -/
structure WebhookCall.Verified (t : NotificationTables) (call : WebhookCall) (account : Str) :
    Prop where
  connection : webhookConnection env t call.connection = .ok (some call.signedWith, account)
  secret : truthy (some call.signedWith) = true
  size : call.size ≤ 262144

/-- The route answers exactly the verified requests. -/
theorem webhook_eq_ok {env : NotificationEnv} {t : NotificationTables} {call : WebhookCall}
    {answer : WebhookStatus × NotificationTables} :
    webhook env t call = .ok answer ↔
      ∃ account, call.Verified env t account ∧ webhookEvent t account call = .ok answer := by
  simp only [webhook, Raising.bind_eq_ok, check_eq_ok]
  constructor
  · rintro ⟨⟨secret, account⟩, hconnection, hsecret, hsize, hsigned, hevent⟩
    obtain rfl : secret = some call.signedWith := not_not.mp hsigned
    refine ⟨account, ⟨hconnection, ?_, Nat.le_of_not_lt hsize⟩, hevent⟩
    simpa using hsecret
  · rintro ⟨account, hverified, hevent⟩
    refine ⟨_, hverified.connection, ?_, Nat.not_lt.mpr hverified.size, not_not.mpr rfl, hevent⟩
    simpa using hverified.secret

theorem webhook_of_verified {env : NotificationEnv} {t : NotificationTables} {call : WebhookCall}
    {account : Str} (h : call.Verified env t account) :
    webhook env t call = webhookEvent t account call := by
  obtain ⟨hconnection, hsecret, hsize⟩ := h
  unfold webhook
  simp [hconnection, hsecret, bind, Except.bind, Nat.not_lt.mpr hsize]

end JobPing
