import JobPing.NotificationApi

/-!
# Runs of the notification system

The lock serialises the transactions of the workers and the routes; ingestion does not take it, and
the calls to the provider are made outside of any transaction. A run is a sequence of such steps
(`NotificationStep`), with any number of workers: a worker is present as the deliveries it has claimed
and not written back.
-/

namespace JobPing

variable (cfg : Config) (S : Services) (env : NotificationEnv)

/-! ## States -/

/-- An email the provider has accepted under the key of a delivery. -/
structure Acceptance where
  account : Str
  deliveryId : Str
  emailId : Str
  recipients : List Str
  deriving DecidableEq

/-- The tables, the clock, the claims under way and what the provider has accepted. -/
structure World where
  db : Db
  tables : NotificationTables
  unique : tables.Unique
  clock : Time
  sends : List Send
  acceptances : List Acceptance

namespace World

/-- The state before anything has happened. -/
def empty : World where
  db := .empty
  tables := .empty
  unique := by decide
  clock := 0
  sends := []
  acceptances := []

/-- The end of a transaction: a violated constraint rolls it back. -/
def commit (w : World) (t : NotificationTables) : World :=
  if h : t.Unique then { w with tables := t, unique := h } else w

end World

/-! ## Ingestion -/

/-- A timestamp with the reading of the server clock. -/
def Stamp.resolve (reading : Time) : Stamp → Time
  | .given t => t
  | .clock => reading

/-- The event of an ingestion row. -/
def DiscoveryEvent.notification (reading : Time) (event : DiscoveryEvent) : NotificationEvent where
  occurrenceId := event.occurrenceId
  jobId := event.jobId
  eventType := event.eventType
  discoveredAt := event.discoveredAt.resolve reading
  processed := event.processed

/-- The events a call of the repository adds. -/
def newEvents (db : Db) (call : Call) (reading : Time) : List NotificationEvent :=
  ((call.exec cfg S db).notificationEvents.drop db.notificationEvents.length).map
    (·.notification reading)

/-- The tables with more events. -/
def NotificationTables.addEvents (t : NotificationTables) (events : List NotificationEvent) :
    NotificationTables :=
  { t with notificationEvents := t.notificationEvents ++ events }

/-- A call of the repository commits; `reading` is what its statements read from the clock. -/
def World.ingest (w : World) (call : Call) (reading : Time) : World :=
  { w with
    db := call.exec cfg S w.db
    tables := w.tables.addEvents (newEvents cfg S w.db call reading)
    unique := w.unique.of_sameKeys ⟨rfl, rfl, rfl⟩ }

/-! ## Steps -/

/-- The requests that change settings. -/
inductive SettingsRequest
  | getSettings (timezone : Str) (who : Who)
  | putSettings (body : Settings) (who : Who) (uuid : ℕ → Str)
  | putProvider (keyCiphertext webhookCiphertext : Option Str) (who : Who) (version : Str)
  | deleteProvider (who : Who) (version webhookId : Str)
  | testProvider (who : Who)
  | unsubscribe (token : Str)

/-- The tables a request leaves. -/
def SettingsRequest.run (now : Time) (db : Db) (tokens : Tokens) (t : NotificationTables) :
    SettingsRequest → Except HttpError NotificationTables
  | getSettings timezone who => do return (← subscriber who timezone tokens t).1
  | putSettings body who uuid => JobPing.putSettings env now uuid db body who tokens t
  | putProvider keyCiphertext webhookCiphertext who version =>
    JobPing.putProvider keyCiphertext webhookCiphertext who tokens version t
  | deleteProvider who version webhookId => JobPing.deleteProvider who tokens version webhookId t
  | testProvider who => JobPing.testProvider now who tokens t
  | unsubscribe token => JobPing.unsubscribe token t

/-- The connection versions a request draws. -/
def SettingsRequest.versions (tokens : Tokens) : SettingsRequest → List Str
  | putProvider _ _ _ version => [tokens.connectionVersion, version]
  | deleteProvider _ version _ => [tokens.connectionVersion, version]
  | _ => [tokens.connectionVersion]

/-- `uuid4` gives a text that no row has as its connection version. -/
def NotificationTables.Unused (t : NotificationTables) (version : Str) : Prop :=
  version ≠ [] ∧ version ∉ t.notificationSubscribers.map (·.connectionVersion) ∧
    some version ∉ t.notificationDeliveries.map (·.connectionVersion)

instance (t : NotificationTables) (version : Str) : Decidable (t.Unused version) := by
  unfold NotificationTables.Unused
  infer_instance

/-- One transaction, one call to the provider, or one tick of the clock. -/
inductive NotificationStep
  | tick (time : Time)
  | ingest (call : Call) (reading : Time)
  /-- `prepare(now)`; ingestion commits between its two halves. -/
  | prepare (now : Time) (between : List (Call × Time)) (uuid : ℕ → Str)
  | claim (now : Time) (verify : Str → Str → Option Bool)
  /-- The provider accepts the request of a claim. -/
  | accept (send : Send) (emailId : Str)
  | writeBack (send : Send) (response : Option Response)
  /-- A worker stops before its write-back. -/
  | crash (send : Send)
  | webhook (call : WebhookCall)
  | settings (request : SettingsRequest) (tokens : Tokens)

/-- The provider accepts one email under an idempotency key, and gives every email its own id. -/
def Acceptance.Consistent (a : Acceptance) (acceptances : List Acceptance) : Prop :=
  ∀ b ∈ acceptances,
    (b.account = a.account ∧ b.deliveryId = a.deliveryId ↔ b.emailId = a.emailId)

instance (a : Acceptance) (acceptances : List Acceptance) : Decidable (a.Consistent acceptances) := by
  unfold Acceptance.Consistent
  infer_instance

/-- What the provider has accepted when it accepts a claim. -/
def Send.acceptance (send : Send) (emailId : Str) : Acceptance where
  account := send.account
  deliveryId := send.deliveryId
  emailId := emailId
  recipients := send.body.recipients

/-- A response that names an email was given to a request for it. -/
def World.Answers (w : World) (send : Send) (response : Option Response) : Prop :=
  ∀ emailId, (readResponse response).2.1 = some emailId → send.acceptance emailId ∈ w.acceptances

instance (w : World) (send : Send) (response : Option Response) :
    Decidable (w.Answers send response) :=
  match h : (readResponse response).2.1 with
  | none => isTrue fun emailId he => by rw [h] at he; cases he
  | some emailId => decidable_of_iff (send.acceptance emailId ∈ w.acceptances)
      ⟨fun hmem other he => by rw [h] at he; cases he; exact hmem, fun hall => hall _ h⟩

/-- `prepare`, with the ingestion between its halves. -/
def World.prepare (w : World) (now : Time) (between : List (Call × Time)) (uuid : ℕ → Str) :
    World :=
  let matched := matchEvents now uuid w.db w.tables
  let w' := between.foldl (fun w (call, reading) => w.ingest cfg S call reading) w
  let events := w'.tables.notificationEvents.drop w.tables.notificationEvents.length
  w'.commit (makeRecaps env now uuid w'.db (matched.addEvents events))

/-- **One step.** A step that cannot be taken changes nothing. -/
def NotificationStep.exec (w : World) : NotificationStep → World
  | tick time => { w with clock := max w.clock time }
  | ingest call reading => w.ingest cfg S call reading
  | prepare now between uuid =>
    -- `now` was read before the lock was taken
    if now ≤ w.clock then w.prepare cfg S env now between uuid else w
  | claim now verify =>
    let (t, send) := JobPing.claim env w.db verify now w.tables
    let w' := w.commit t
    { w' with sends := if t.Unique then w.sends ++ send.toList else w.sends }
  | accept send emailId =>
    let a := send.acceptance emailId
    if send ∈ w.sends ∧ a.Consistent w.acceptances then
      { w with acceptances := w.acceptances ++ [a] }
    else w
  | writeBack send response =>
    if send ∈ w.sends ∧ w.Answers send response then
      { w.commit (JobPing.writeBack send response w.tables) with
        sends := w.sends.erase send }
    else w
  | crash send => { w with sends := w.sends.erase send }
  | webhook call =>
    match JobPing.webhook env w.tables call with
    | .error _ => w
    | .ok (_, t) => w.commit t
  | settings request tokens =>
    if (request.versions tokens).Nodup ∧ ∀ version ∈ request.versions tokens,
        w.tables.Unused version then
      match request.run env w.clock w.db tokens w.tables with
      | .error _ => w
      | .ok t => w.commit t
    else w

/-- The state after a sequence of steps. -/
def World.run (w : World) (steps : List NotificationStep) : World :=
  steps.foldl (NotificationStep.exec cfg S env) w

/-- Every step of a run meets a condition on the state in which it is taken. -/
def World.Along (P : World → NotificationStep → Prop) (w : World) : List NotificationStep → Prop
  | [] => True
  | step :: steps => P w step ∧ (step.exec cfg S env w).Along P steps

instance World.decidableAlong (P : World → NotificationStep → Prop)
    [∀ w step, Decidable (P w step)] :
    (w : World) → (steps : List NotificationStep) → Decidable (w.Along cfg S env P steps)
  | _, [] => isTrue trivial
  | w, step :: steps =>
    have := decidableAlong P (step.exec cfg S env w) steps
    inferInstanceAs (Decidable (P w step ∧ (step.exec cfg S env w).Along cfg S env P steps))

/-- What `f` notes about each step of a run. -/
def World.log {α : Type} (f : World → NotificationStep → List α) (w : World) :
    List NotificationStep → List α
  | [] => []
  | step :: steps => f w step ++ (step.exec cfg S env w).log f steps

section run

variable {cfg S env}

theorem World.log_concat {α : Type} (f : World → NotificationStep → List α) (w : World)
    (steps : List NotificationStep) (step : NotificationStep) :
    w.log cfg S env f (steps ++ [step]) =
      w.log cfg S env f steps ++ f (w.run cfg S env steps) step := by
  induction steps generalizing w with
  | nil => exact List.append_nil _
  | cons first steps ih =>
    rw [List.cons_append, log, log, ih, List.append_assoc]
    rfl

theorem World.along_append {P : World → NotificationStep → Prop} {w : World}
    {steps steps' : List NotificationStep} :
    w.Along cfg S env P (steps ++ steps') ↔
      w.Along cfg S env P steps ∧ (w.run cfg S env steps).Along cfg S env P steps' := by
  induction steps generalizing w with
  | nil => exact (and_iff_right trivial).symm
  | cons step steps ih =>
    rw [List.cons_append, Along, Along, ih, and_assoc]
    rfl

/-- What every step keeps holds at the end of the run. -/
theorem World.Along.invariant {P : World → NotificationStep → Prop} {I : World → Prop} {w : World}
    {steps : List NotificationStep} (h : w.Along cfg S env P steps)
    (hstep : ∀ w step, I w → P w step → I (step.exec cfg S env w)) (hw : I w) :
    I (w.run cfg S env steps) := by
  induction steps generalizing w with
  | nil => exact hw
  | cons step steps ih => exact ih h.2 (hstep w step hw h.1)

theorem World.commit_tables {w : World} {t : NotificationTables} (h : t.Unique) :
    (w.commit t).tables = t := by
  rw [commit, dif_pos h]

variable (cfg S) in
/-- Ingestion adds events and leaves the rest alone. -/
theorem between_frame (w : World) (between : List (Call × Time)) :
    let w' := between.foldl (fun w (call, reading) => w.ingest cfg S call reading) w
    (∃ events, w'.tables = w.tables.addEvents events) ∧ w'.clock = w.clock ∧ w'.sends = w.sends ∧
      w'.acceptances = w.acceptances := by
  induction between generalizing w with
  | nil => exact ⟨⟨[], by simp [NotificationTables.addEvents]⟩, rfl, rfl, rfl⟩
  | cons ingestion between ih =>
    obtain ⟨⟨events, htables⟩, hrest⟩ := ih (w.ingest cfg S ingestion.1 ingestion.2)
    refine ⟨⟨newEvents cfg S w.db ingestion.1 ingestion.2 ++ events, htables.trans ?_⟩, hrest⟩
    simp [NotificationTables.addEvents, World.ingest]

variable (cfg S env) in
/-- The two halves of `prepare`. -/
theorem World.prepare_frame (w : World) (now : Time) (between : List (Call × Time))
    (uuid : ℕ → Str) :
    ∃ (w' : World) (events : List NotificationEvent),
      w.prepare cfg S env now between uuid = w'.commit (makeRecaps env now uuid w'.db
        ((matchEvents now uuid w.db w.tables).addEvents events)) ∧
      w'.tables = w.tables.addEvents events ∧ w'.clock = w.clock ∧ w'.sends = w.sends ∧
      w'.acceptances = w.acceptances := by
  obtain ⟨⟨events, htables⟩, hrest⟩ := between_frame cfg S w between
  refine ⟨_, events, ?_, htables, hrest⟩
  unfold prepare
  dsimp only
  rw [htables]
  simp [NotificationTables.addEvents]

theorem exec_writeBack_tables {w : World} {send : Send} {response : Option Response}
    (hsend : send ∈ w.sends) (hanswers : w.Answers send response) :
    ((NotificationStep.writeBack send response).exec cfg S env w).tables =
      writeBack send response w.tables := by
  simp only [NotificationStep.exec]
  rw [if_pos ⟨hsend, hanswers⟩]
  exact World.commit_tables (w.unique.of_sameKeys (writeBack_sameKeys send response w.tables))

theorem World.run_append (w : World) (steps steps' : List NotificationStep) :
    w.run cfg S env (steps ++ steps') = (w.run cfg S env steps).run cfg S env steps' :=
  List.foldl_append

theorem World.run_concat (w : World) (steps : List NotificationStep) (step : NotificationStep) :
    w.run cfg S env (steps ++ [step]) = step.exec cfg S env (w.run cfg S env steps) := by
  rw [run_append]
  rfl

end run

/-! ## A sample -/

/-- Texts and keys in the clear. -/
def NotificationEnv.plain : NotificationEnv where
  zones := .allUtc
  decrypt := some
  resendApiKey := some "re_shared".toList
  resendWebhookSecret := some "whsec_shared".toList
  render _ _ _ := some "New jobs".toList

def sampleWho : Who := ⟨"ada".toList, "ada@example.com".toList, true⟩

def sampleTokens (version : String) : Tokens where
  unsubscribeToken := "unsubscribe".toList
  webhookId := "hook".toList
  connectionVersion := version.toList
  deliveryId := "delivery".toList
  testKey := "test".toList

/-- A subscriber connects an account and asks for a test email. -/
def connectSteps : List NotificationStep :=
  [.settings (.putProvider (some "re_ada".toList) (some "whsec_ada".toList) sampleWho "v2".toList)
      (sampleTokens "v1"),
    .settings (.testProvider sampleWho) (sampleTokens "v3")]

/-- A claim of the test email. -/
def sampleSend (now : Time) : Send where
  deliveryId := "delivery".toList
  key := "re_ada".toList
  body := ⟨["ada@example.com".toList], "New jobs".toList⟩
  account := "ada".toList
  now := now

/-- The provider has accepted the email under an id. -/
def accepting (emailId : String) : Option Response :=
  some ⟨200, .object (some emailId.toList) [], none, none, none⟩

end JobPing
