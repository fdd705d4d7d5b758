import JobPing.Repository
import Mathlib.Data.List.Sort

/-!
# Notifications

The notification tables of `app/db/models.py` and the first half of `app/notifications/worker.py`:
matching discovery events with subscribers (`match_events`) and closing the recap windows
(`make_recaps`). The texts of an email (`render.py`), the ciphers and the identity provider are
parameters of the environment. Columns that only the views and texts show (`sender`) are left out.
-/

namespace JobPing

/-! ## Tables -/

inductive Provider
  | shared
  | byok
  deriving DecidableEq

/-- `Subscriber.status`. -/
inductive SubscriberStatus
  | ready
  | needsTest
  | senderError
  | configurationError
  deriving DecidableEq

structure Subscriber where
  id : Str
  email : Str
  verified : Bool
  alerts : Bool
  recap : Bool
  jobTypes : List JobType
  seasons : List ℕ
  timezone : Str
  optedAt : Option Time
  windowStart : Option Time
  nextRecap : Option Time
  provider : Provider
  keyCiphertext : Option Str
  webhookCiphertext : Option Str
  webhookId : Str
  connectionVersion : Str
  status : SubscriberStatus
  suppressed : Bool
  unsubscribeToken : Str
  deriving DecidableEq

/-- A row of `notification_events`, with the reading of the clock where it was stamped by it. -/
structure NotificationEvent where
  occurrenceId : ℕ
  jobId : ℕ
  eventType : OccurrenceKind
  discoveredAt : Time
  processed : Bool
  deriving DecidableEq

/-- A row of `notification_matches`, in the order of the ids. -/
structure JobMatch where
  subscriberId : Str
  occurrenceId : ℕ
  jobId : ℕ
  eventType : OccurrenceKind
  discoveredAt : Time
  deriving DecidableEq

inductive DeliveryKind
  | alert
  | recap
  | test
  deriving DecidableEq

/-- `EmailDelivery.status`. -/
inductive DeliveryStatus
  | pending
  | sending
  | accepted
  | delivered
  | bounced
  | complained
  | failed
  | cancelled
  | expired
  | reconcile
  | recapOnly
  deriving DecidableEq

/-- The three forms of `EmailDelivery.dedupe_key`. -/
inductive DedupeKey
  | alert (subscriberId : Str) (occurrenceId : ℕ)
  | recap (subscriberId : Str) (windowEnd : Time)
  | test (token : Str)
  deriving DecidableEq

/-- The request body of an email: its recipients and the rest. -/
structure Payload where
  recipients : List Str
  content : Str
  deriving DecidableEq

structure EmailDelivery where
  id : Str
  subscriberId : Str
  kind : DeliveryKind
  dedupeKey : DedupeKey
  jobIds : List ℕ
  occurrenceIds : List ℕ
  totalMatches : ℕ
  newCount : ℕ
  repostedCount : ℕ
  windowStart : Option Time
  windowEnd : Option Time
  createdAt : Time
  status : DeliveryStatus
  dueAt : Time
  leaseUntil : Option Time
  firstAttempt : Option Time
  attempts : ℕ
  payload : Option Payload
  account : Option Str
  connectionVersion : Option Str
  providerId : Option Str
  errorCode : Option Str
  deriving DecidableEq

/-- The quota state of one provider account. -/
structure EmailAccount where
  id : Str
  blockedUntil : Option Time
  errorCode : Option Str
  deriving DecidableEq

/-- The notification tables; the webhook table holds the ids of the events. -/
structure NotificationTables where
  notificationSubscribers : List Subscriber
  notificationEvents : List NotificationEvent
  notificationMatches : List JobMatch
  notificationDeliveries : List EmailDelivery
  notificationAccounts : List EmailAccount
  notificationWebhooks : List Str

namespace NotificationTables

def empty : NotificationTables := ⟨[], [], [], [], [], []⟩

/-- The unique keys of the tables, and the foreign key of the deliveries. -/
structure Unique (t : NotificationTables) : Prop where
  subscriberIds : (t.notificationSubscribers.map (·.id)).Nodup
  emails : (t.notificationSubscribers.map (·.email)).Nodup
  webhook_ids : (t.notificationSubscribers.map (·.webhookId)).Nodup
  unsubscribe_tokens : (t.notificationSubscribers.map (·.unsubscribeToken)).Nodup
  match_keys : (t.notificationMatches.map fun m => (m.subscriberId, m.occurrenceId)).Nodup
  delivery_ids : (t.notificationDeliveries.map (·.id)).Nodup
  dedupe_keys : (t.notificationDeliveries.map (·.dedupeKey)).Nodup
  subscribers : ∀ item ∈ t.notificationDeliveries,
    item.subscriberId ∈ t.notificationSubscribers.map (·.id)

instance (t : NotificationTables) : Decidable t.Unique :=
  decidable_of_iff
    ((t.notificationSubscribers.map (·.id)).Nodup ∧
      (t.notificationSubscribers.map (·.email)).Nodup ∧
      (t.notificationSubscribers.map (·.webhookId)).Nodup ∧
      (t.notificationSubscribers.map (·.unsubscribeToken)).Nodup ∧
      (t.notificationMatches.map fun m => (m.subscriberId, m.occurrenceId)).Nodup ∧
      (t.notificationDeliveries.map (·.id)).Nodup ∧
      (t.notificationDeliveries.map (·.dedupeKey)).Nodup ∧
      ∀ item ∈ t.notificationDeliveries,
        item.subscriberId ∈ t.notificationSubscribers.map (·.id))
    ⟨fun ⟨h1, h2, h3, h4, h5, h6, h7, h8⟩ => ⟨h1, h2, h3, h4, h5, h6, h7, h8⟩,
      fun h => ⟨h.1, h.2, h.3, h.4, h.5, h.6, h.7, h.8⟩⟩

variable (t : NotificationTables)

def subscriber (id : Str) : Option Subscriber := t.notificationSubscribers.find? (·.id = id)

def delivery (id : Str) : Option EmailDelivery := t.notificationDeliveries.find? (·.id = id)

def account (id : Str) : Option EmailAccount := t.notificationAccounts.find? (·.id = id)

/-- The attribute assignments on one subscriber. -/
def updateSubscriber (id : Str) (f : Subscriber → Subscriber) : NotificationTables :=
  { t with
    notificationSubscribers :=
      t.notificationSubscribers.map fun user => if user.id = id then f user else user }

/-- The attribute assignments on the deliveries that satisfy a condition. -/
def updateDeliveries (p : EmailDelivery → Bool) (f : EmailDelivery → EmailDelivery) :
    NotificationTables :=
  { t with
    notificationDeliveries :=
      t.notificationDeliveries.map fun item => if p item then f item else item }

/-- The attribute assignments on one delivery. -/
def updateDelivery (id : Str) (f : EmailDelivery → EmailDelivery) : NotificationTables :=
  t.updateDeliveries (·.id = id) f

def addDelivery (item : EmailDelivery) : NotificationTables :=
  { t with notificationDeliveries := t.notificationDeliveries ++ [item] }

/-- The quota state of an account, created when it has none. -/
def blockAccount (id : Str) (f : EmailAccount → EmailAccount) : NotificationTables :=
  { t with
    notificationAccounts :=
      if t.notificationAccounts.any (·.id = id) then
        t.notificationAccounts.map fun state => if state.id = id then f state else state
      else t.notificationAccounts ++ [f ⟨id, none, none⟩] }

variable {t} {t' : NotificationTables}

/-- Tables with the same keys. -/
structure SameKeys (t t' : NotificationTables) : Prop where
  subscribers : t'.notificationSubscribers.map (fun user =>
      (user.id, user.email, user.webhookId, user.unsubscribeToken)) =
    t.notificationSubscribers.map fun user =>
      (user.id, user.email, user.webhookId, user.unsubscribeToken)
  matched : t'.notificationMatches = t.notificationMatches
  deliveries : t'.notificationDeliveries.map (fun item =>
      (item.id, item.dedupeKey, item.subscriberId)) =
    t.notificationDeliveries.map fun item => (item.id, item.dedupeKey, item.subscriberId)

theorem SameKeys.refl (t : NotificationTables) : SameKeys t t := ⟨rfl, rfl, rfl⟩

theorem SameKeys.trans {t'' : NotificationTables} (h : SameKeys t t') (h' : SameKeys t' t'') :
    SameKeys t t'' :=
  ⟨h'.1.trans h.1, h'.2.trans h.2, h'.3.trans h.3⟩

theorem sameKeys_updateSubscriber (id : Str) {f : Subscriber → Subscriber}
    (hf : ∀ user, ((f user).id, (f user).email, (f user).webhookId, (f user).unsubscribeToken) =
      (user.id, user.email, user.webhookId, user.unsubscribeToken)) :
    SameKeys t (t.updateSubscriber id f) := by
  refine ⟨?_, rfl, rfl⟩
  rw [updateSubscriber, List.map_map]
  refine List.map_congr_left fun user _ => ?_
  rw [Function.comp_apply]
  split_ifs
  · exact hf user
  · rfl

theorem sameKeys_updateDeliveries (p : EmailDelivery → Bool) {f : EmailDelivery → EmailDelivery}
    (hf : ∀ item, ((f item).id, (f item).dedupeKey, (f item).subscriberId) =
      (item.id, item.dedupeKey, item.subscriberId)) :
    SameKeys t (t.updateDeliveries p f) := by
  refine ⟨rfl, rfl, ?_⟩
  rw [updateDeliveries, List.map_map]
  refine List.map_congr_left fun item _ => ?_
  rw [Function.comp_apply]
  split_ifs
  · exact hf item
  · rfl

theorem Unique.of_sameKeys (h : t.Unique) (hsame : SameKeys t t') : t'.Unique := by
  have hsubscribers {β : Type} (g : Str × Str × Str × Str → β) :=
    congrArg (List.map g) hsame.subscribers
  have hdeliveries {β : Type} (g : Str × DedupeKey × Str → β) :=
    congrArg (List.map g) hsame.deliveries
  simp only [List.map_map, Function.comp_def] at hsubscribers hdeliveries
  refine ⟨?_, ?_, ?_, ?_, ?_, ?_, ?_, fun item hitem => ?_⟩
  · rw [hsubscribers (·.1)]
    exact h.subscriberIds
  · rw [hsubscribers (·.2.1)]
    exact h.emails
  · rw [hsubscribers (·.2.2.1)]
    exact h.webhook_ids
  · rw [hsubscribers (·.2.2.2)]
    exact h.unsubscribe_tokens
  · rw [hsame.matched]
    exact h.match_keys
  · rw [hdeliveries (·.1)]
    exact h.delivery_ids
  · rw [hdeliveries (·.2.1)]
    exact h.dedupe_keys
  · have hmem := List.mem_map_of_mem (f := (·.subscriberId)) hitem
    rw [hdeliveries (·.2.2)] at hmem
    obtain ⟨before, hbefore, heq⟩ := List.mem_map.mp hmem
    rw [hsubscribers (·.1), ← heq]
    exact h.subscribers before hbefore

end NotificationTables

/-! ## Time -/

/-- Intervals, in microseconds. -/
def seconds (n : ℤ) : ℤ := n * 1000000
def minutes (n : ℤ) : ℤ := seconds (60 * n)
def hours (n : ℤ) : ℤ := minutes (60 * n)
def days (n : ℤ) : ℤ := hours (24 * n)

/-- The IANA zones, as `astimezone` and its inverse on wall clocks; a wall clock counts from
midnight of a fixed day. No zone is set back across eight in the evening. -/
structure ZoneInfo where
  astimezone : Str → Time → Time
  utc : Str → Time → Time
  later : ∀ timezone t wall, wall % days 1 = hours 20 → astimezone timezone t < wall →
    t < utc timezone wall

/-- Every zone is UTC. -/
def ZoneInfo.allUtc : ZoneInfo where
  astimezone _ t := t
  utc _ wall := wall
  later _ _ _ _ h := h

/-- The next eight o'clock in the evening on a wall clock. -/
def nextEvening (wall : ℤ) : ℤ :=
  let midnight := wall / days 1 * days 1
  let cutoff := midnight + hours 20
  if cutoff ≤ wall then midnight + days 1 + hours 20 else cutoff

theorem nextEvening_spec (wall : ℤ) :
    nextEvening wall % days 1 = hours 20 ∧ wall < nextEvening wall := by
  have hday : days 1 = 86400000000 := rfl
  have hhour : hours 20 = 72000000000 := rfl
  simp only [nextEvening, hday, hhour]
  split_ifs <;> omega

/-- `next_cutoff` of `app/notifications/core.py`. -/
def nextCutoff (zones : ZoneInfo) (after : Time) (timezone : Str) : Time :=
  zones.utc timezone (nextEvening (zones.astimezone timezone after))

theorem lt_nextCutoff (zones : ZoneInfo) (after : Time) (timezone : Str) :
    after < nextCutoff zones after timezone := by
  obtain ⟨hevening, hlater⟩ := nextEvening_spec (zones.astimezone timezone after)
  exact zones.later _ _ _ hevening hlater

/-- The texts, ciphers and settings around the notification code. -/
structure NotificationEnv where
  zones : ZoneInfo
  /-- `decrypt`; `none` is a `KeyError` or `ValueError`. -/
  decrypt : Str → Option Str
  /-- `os.environ["RESEND_API_KEY"]`. -/
  resendApiKey : Option Str
  /-- `os.environ.get("RESEND_WEBHOOK_SECRET")`. -/
  resendWebhookSecret : Option Str
  /-- `payload`, without the recipient; `none` is a `KeyError` or `ValueError`. -/
  render : Db → EmailDelivery → Subscriber → Option Str

variable (env : NotificationEnv)

/-! ## Matching -/

/-- `delivery(...)`; the texts of `uuid4` are drawn by the caller. -/
def newDelivery (user : Subscriber) (kind : DeliveryKind) (key : DedupeKey) (ids : List ℕ)
    (now : Time) (occurrenceIds : List ℕ) (id : Str) : EmailDelivery where
  id := id
  subscriberId := user.id
  kind := kind
  dedupeKey := key
  jobIds := ids
  occurrenceIds := occurrenceIds
  totalMatches := 0
  newCount := 0
  repostedCount := 0
  windowStart := none
  windowEnd := none
  createdAt := now
  status := .pending
  dueAt := now
  leaseUntil := none
  firstAttempt := none
  attempts := 0
  payload := none
  account := none
  connectionVersion := none
  providerId := none
  errorCode := none

/-- An unprocessed event joined with its occurrence and job. -/
structure JoinedEvent where
  event : NotificationEvent
  occurrence : JobOccurrence
  job : JobPosting

/-- The unprocessed events with their occurrences and jobs. -/
def joinedEvents (db : Db) (t : NotificationTables) : List JoinedEvent :=
  (t.notificationEvents.filter fun event => !event.processed).filterMap fun event =>
    (db.jobOccurrences.find? (·.id = event.occurrenceId)).bind fun occurrence =>
      (db.jobPostings.find? (·.id = event.jobId)).map fun job => ⟨event, occurrence, job⟩

/-- The next unprocessed events, at most 500. -/
def unprocessedEvents (db : Db) (t : NotificationTables) : List JoinedEvent :=
  ((joinedEvents db t).insertionSort (·.event.discoveredAt ≤ ·.event.discoveredAt)).take 500

/-- Whether an event is for a subscriber. -/
def Subscriber.wants (user : Subscriber) (e : JoinedEvent) : Bool :=
  (user.alerts || user.recap) && user.optedAt.any (· ≤ e.event.discoveredAt) &&
    e.job.jobType ∈ user.jobTypes && e.job.season ∈ user.seasons

/-- The match of an event. -/
def JoinedEvent.matched (e : JoinedEvent) (user : Subscriber) : JobMatch where
  subscriberId := user.id
  occurrenceId := e.occurrence.id
  jobId := e.job.id
  eventType := e.event.eventType
  discoveredAt := e.event.discoveredAt

/-- One subscriber and one event; `uuid` gives the ids of new deliveries. -/
def matchUser (now : Time) (uuid : ℕ → Str) (e : JoinedEvent) (t : NotificationTables)
    (user : Subscriber) : NotificationTables :=
  if !user.wants e then t
  else if t.notificationMatches.any fun m =>
      m.subscriberId = user.id && m.occurrenceId = e.occurrence.id then t
  else
    let t := { t with notificationMatches := t.notificationMatches ++ [e.matched user] }
    if user.alerts && e.occurrence.closedAt.isNone then
      t.addDelivery (newDelivery user .alert (.alert user.id e.occurrence.id) [e.job.id] now
        [e.occurrence.id] (uuid t.notificationDeliveries.length))
    else t

/-- One event: its matches, and its flag. -/
def matchEvent (now : Time) (uuid : ℕ → Str) (users : List Subscriber) (t : NotificationTables)
    (e : JoinedEvent) : NotificationTables :=
  let t := users.foldl (matchUser now uuid e) t
  { t with
    notificationEvents := t.notificationEvents.map fun event =>
      if event.occurrenceId = e.event.occurrenceId then { event with processed := true }
      else event }

/-- **`match_events`**. -/
def matchEvents (now : Time) (uuid : ℕ → Str) (db : Db) (t : NotificationTables) :
    NotificationTables :=
  let users := t.notificationSubscribers.filter fun user => user.verified && !user.suppressed
  (unprocessedEvents db t).foldl (matchEvent now uuid users) t

/-! ## Recaps -/

/-- The loop that moves the end of a window to the last cutoff before `now`. -/
def lastCutoff (zones : ZoneInfo) (timezone : Str) (now : Time) : ℕ → Time → Time
  | 0, windowEnd => windowEnd
  | n + 1, windowEnd =>
    let next := nextCutoff zones windowEnd timezone
    if next ≤ now then lastCutoff zones timezone now n next else windowEnd

/-- The end of the window of a subscriber with a cutoff due. -/
def windowEnd (zones : ZoneInfo) (timezone : Str) (now nextRecap : Time) : Time :=
  lastCutoff zones timezone now (now - nextRecap).toNat nextRecap

/-- The matches of a window, in the order of their discovery. -/
def windowMatches (t : NotificationTables) (subscriberId : Str) (windowStart windowEnd : Time) :
    List JobMatch :=
  (t.notificationMatches.filter fun m => m.subscriberId = subscriberId &&
    windowStart ≤ m.discoveredAt && m.discoveredAt < windowEnd).insertionSort
      (·.discoveredAt ≤ ·.discoveredAt)

/-- A recap that was never attempted, the oldest one first. -/
def pendingRecap (t : NotificationTables) (subscriberId : Str) : Option EmailDelivery :=
  ((t.notificationDeliveries.filter fun item => item.subscriberId = subscriberId &&
    item.kind = .recap && item.status = .pending && item.firstAttempt.isNone).insertionSort
      (·.createdAt ≤ ·.createdAt)).head?

/-- The recap of a window. -/
def windowRecap (user : Subscriber) (found : List JobMatch) (windowStart windowEnd now : Time)
    (id : Str) : EmailDelivery :=
  let repostedCount := found.countP (·.eventType = .reposted)
  { newDelivery user .recap (.recap user.id windowEnd) (found.map (·.jobId)) now
      (found.map (·.occurrenceId)) id with
    windowStart := some windowStart
    windowEnd := some windowEnd
    totalMatches := found.length
    newCount := found.length - repostedCount
    repostedCount := repostedCount }

/-- A recap with the matches of one more window. -/
def EmailDelivery.catchUp (db : Db) (found : List JobMatch) (windowEnd now : Time)
    (item : EmailDelivery) : EmailDelivery :=
  let occurrenceIds := (item.occurrenceIds ++ found.map (·.occurrenceId)).eraseDups
  let rows := db.jobOccurrences.filter (·.id ∈ occurrenceIds)
  let repostedCount := rows.countP (·.kind = .reposted)
  { item with
    occurrenceIds := occurrenceIds
    jobIds := occurrenceIds.filterMap fun id => (rows.find? (·.id = id)).map (·.jobId)
    totalMatches := occurrenceIds.length
    repostedCount := repostedCount
    newCount := occurrenceIds.length - repostedCount
    payload := none
    dueAt := now
    windowEnd := some windowEnd }

/-- An alert that is not sent because the recap has its job. -/
def EmailDelivery.superseded (subscriberId : Str) (found : List JobMatch) (item : EmailDelivery) :
    Bool :=
  item.subscriberId = subscriberId && item.kind = .alert && item.status = .pending &&
    item.firstAttempt.isNone && item.occurrenceIds.any (· ∈ found.map (·.occurrenceId))

/-- The recap of the matches of a window: a new one, or a pending one that catches up. -/
def recordRecap (now : Time) (uuid : ℕ → Str) (db : Db) (user : Subscriber)
    (found : List JobMatch) (start stop : Time) (t : NotificationTables) : NotificationTables :=
  if found.isEmpty then t
  else
    match pendingRecap t user.id with
    | none => t.addDelivery
        (windowRecap user found start stop now (uuid t.notificationDeliveries.length))
    | some item => t.updateDelivery item.id (·.catchUp db found stop now)

/-- The window of a subscriber after a recap. -/
def Subscriber.advanced (zones : ZoneInfo) (stop : Time) (user : Subscriber) : Subscriber :=
  { user with
    windowStart := some stop
    nextRecap := some (nextCutoff zones stop user.timezone) }

/-- The recap of a window, and the next window; the recap takes the jobs of the unsent alerts. -/
def closeWindow (now : Time) (uuid : ℕ → Str) (db : Db) (user : Subscriber) (start stop : Time)
    (t : NotificationTables) : NotificationTables :=
  let found := windowMatches t user.id start stop
  let t := recordRecap now uuid db user found start stop t
  let t := t.updateSubscriber user.id (·.advanced env.zones stop)
  t.updateDeliveries (·.superseded user.id found) ({ · with status := .recapOnly })

/-- One subscriber with a cutoff due. -/
def makeRecap (now : Time) (uuid : ℕ → Str) (db : Db) (t : NotificationTables)
    (user : Subscriber) : NotificationTables :=
  match user.windowStart, user.nextRecap with
  | some start, some nextRecap =>
    closeWindow env now uuid db user start (windowEnd env.zones user.timezone now nextRecap) t
  | _, _ => t

/-- **`make_recaps`**. -/
def makeRecaps (now : Time) (uuid : ℕ → Str) (db : Db) (t : NotificationTables) :
    NotificationTables :=
  -- never advance a window past unprocessed events
  if t.notificationEvents.any fun event => !event.processed then t
  else
    (t.notificationSubscribers.filter fun user => user.recap && user.verified &&
      !user.suppressed && user.nextRecap.any (· ≤ now)).foldl (makeRecap env now uuid db) t

end JobPing
