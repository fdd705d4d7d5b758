import JobPing.DeliveryChanges
import JobPing.Matching

/-!
# What a step does to a subscriber

`SubscriberStep` lists what one step can make of the row of a subscriber, and `exec_subscribers` says
that every row after a step comes from one before it, or from a new one, in this way. A new version of
a connection is one that no row had.
-/

namespace JobPing

variable {cfg : Config} {S : Services} {env : NotificationEnv}

/-! ## Changes -/

/-- The row of a signed in subscriber: its present address, and whether it is verified. -/
def Subscriber.current (who : Who) (tokens : Tokens) (user : Subscriber) : Subscriber :=
  { (if user.email = who.email then user else user.readdressed who tokens) with
    verified := who.verified }

/-- Who makes a request. -/
def SettingsRequest.who : SettingsRequest → Option Who
  | getSettings _ who => some who
  | putSettings _ who _ => some who
  | putProvider _ _ who _ => some who
  | deleteProvider who _ _ => some who
  | testProvider who => some who
  | unsubscribe _ => none

/-- The assignments of a request on the row of its subscriber. -/
def SettingsRequest.assign (env : NotificationEnv) (now : Time) (request : SettingsRequest)
    (user : Subscriber) : Subscriber :=
  match request with
  | getSettings _ _ => user
  | putSettings body _ _ => user.withSettings env.zones now body
  | putProvider keyCiphertext webhookCiphertext _ version =>
    user.withProvider (keyCiphertext.getD []) webhookCiphertext version
  | deleteProvider _ version webhookId => user.withoutProvider version webhookId
  | testProvider _ => user
  | unsubscribe _ => user.unsubscribed

/-- What a step makes of a subscriber. -/
inductive SubscriberStep (env : NotificationEnv) (w : World) (step : NotificationStep) :
    Subscriber → Subscriber → Prop
  | flagged (user : Subscriber) (verified : Bool) (status : SubscriberStatus) (suppressed : Bool)
    (hsuppressed : user.suppressed = true → suppressed = true) :
    SubscriberStep env w step user
      { user with verified := verified, status := status, suppressed := suppressed }
  | advanced (user : Subscriber) (nextRecap stop : Time) (hstep : step.IsPrepare)
    (hnext : user.nextRecap = some nextRecap) (hlow : nextRecap ≤ stop)
    (hhigh : stop ≤ w.clock) :
    SubscriberStep env w step user (user.advanced env.zones stop)
  | requested (user : Subscriber) (request : SettingsRequest) (tokens : Tokens) (who : Who)
    (hstep : step = .settings request tokens) (hwho : request.who = some who)
    (hid : user.id = who.uid)
    (hversions : ∀ version ∈ request.versions tokens, w.tables.Unused version) :
    SubscriberStep env w step user (request.assign env w.clock (user.current who tokens))
  | unsubscribed (user : Subscriber) (token : Str) (tokens : Tokens)
    (hstep : step = .settings (.unsubscribe token) tokens) :
    SubscriberStep env w step user user.unsubscribed

/-- A subscriber before a step, or one that the step inserts. -/
inductive Subscriber.Before (w : World) (user : Subscriber) : Prop
  | row (h : user ∈ w.tables.notificationSubscribers)
  | inserted (who : Who) (timezone : Str) (tokens : Tokens)
    (huser : user = newSubscriber who timezone tokens)
    (hversion : w.tables.Unused tokens.connectionVersion)
    (hid : ∀ other ∈ w.tables.notificationSubscribers, other.id ≠ who.uid)

/-- The subscribers of `t` come from those before the step. -/
def SubscribersFrom (env : NotificationEnv) (w : World) (step : NotificationStep)
    (t : NotificationTables) : Prop :=
  ∀ user' ∈ t.notificationSubscribers, ∃ user : Subscriber, user.Before w ∧
    SubscriberStep env w step user user'

variable {w : World} {step : NotificationStep} {t : NotificationTables} {user user' : Subscriber}

theorem SubscriberStep.refl (user : Subscriber) : SubscriberStep env w step user user :=
  .flagged user user.verified user.status user.suppressed id

theorem subscribersFrom_same
    (h : t.notificationSubscribers = w.tables.notificationSubscribers) :
    SubscribersFrom env w step t := fun user huser => ⟨user, .row (h ▸ huser), .refl user⟩

/-! ## Settings -/

theorem current_id (who : Who) (tokens : Tokens) (user : Subscriber) :
    (user.current who tokens).id = user.id := by
  unfold Subscriber.current
  dsimp only
  split_ifs <;> rfl

/-- A step keeps the ids of the subscribers. -/
theorem SubscriberStep.id_eq (h : SubscriberStep env w step user user') : user'.id = user.id := by
  cases h with
  | requested request tokens who =>
    have hassign : (request.assign env w.clock (user.current who tokens)).id =
        (user.current who tokens).id := by
      cases request <;> rfl
    exact hassign.trans (current_id who tokens user)
  | _ => rfl

section settings

variable {who : Who} {timezone : Str} {tokens : Tokens} {row t' : NotificationTables}

/-- The rows of `currentRow`, up to the verification that follows. -/
theorem currentRow_rows (hunique : t.Unique) (h : currentRow who timezone tokens t = .ok row)
    (huser : user' ∈ row.notificationSubscribers) :
    ∃ user : Subscriber, (user ∈ t.notificationSubscribers ∨
        user = newSubscriber who timezone tokens ∧
          ∀ other ∈ t.notificationSubscribers, other.id ≠ who.uid) ∧
      user'.id = user.id ∧ (user.id ≠ who.uid → user' = user) ∧
      (user.id = who.uid → { user' with verified := who.verified } = user.current who tokens) := by
  unfold currentRow at h
  split at h
  next hnone =>
    dsimp only at h
    split_ifs at h
    cases h
    have hothers : ∀ other ∈ t.notificationSubscribers, other.id ≠ who.uid := by
      simpa [NotificationTables.subscriber] using hnone
    rcases List.mem_append.mp huser with huser | huser
    · exact ⟨user', .inl huser, rfl, fun _ => rfl, fun hid => absurd hid (hothers user' huser)⟩
    · rw [List.mem_singleton] at huser
      refine ⟨user', .inr ⟨huser, hothers⟩, rfl, fun _ => rfl, fun _ => ?_⟩
      rw [huser, Subscriber.current, if_pos (by rfl)]
  next found hfound =>
    have hsame : ∀ user ∈ t.notificationSubscribers, user.id = who.uid → user = found :=
      fun user hmem hid => List.inj_on_of_nodup_map hunique.subscriberIds hmem
        (List.mem_of_find?_eq_some hfound) (hid.trans (Eq.symm (by simpa using List.find?_some hfound)))
    dsimp only at h
    split_ifs at h with hemail
    · cases h
      refine ⟨user', .inl huser, rfl, fun _ => rfl, fun hid => ?_⟩
      rw [hsame user' huser hid, Subscriber.current, if_pos hemail]
    · cases h
      obtain ⟨user, hmem, rfl⟩ := List.mem_map.mp huser
      refine ⟨user, .inl hmem, ?_, fun hid => if_neg hid, fun hid => ?_⟩
      · split_ifs <;> rfl
      · rw [if_pos hid, Subscriber.current, if_neg (hsame user hmem hid ▸ hemail)]

/-- The rows of `subscriber`. -/
theorem subscriber_rows (hunique : t.Unique)
    (h : subscriber who timezone tokens t = .ok (row, user)) :
    user.id = who.uid ∧ ∀ user' ∈ row.notificationSubscribers, ∃ before : Subscriber,
      (before ∈ t.notificationSubscribers ∨ before = newSubscriber who timezone tokens ∧
        ∀ other ∈ t.notificationSubscribers, other.id ≠ who.uid) ∧
      user' = if before.id = who.uid then before.current who tokens else before := by
  simp only [subscriber, Raising.bind_eq_ok] at h
  obtain ⟨first, hfirst, h⟩ := h
  split at h
  next found hfound =>
    cases h
    refine ⟨by simpa using List.find?_some hfound, fun user' huser' => ?_⟩
    have hmem : user' ∈ (first.updateSubscriber who.uid
        ({ · with verified := who.verified })).notificationSubscribers := by
      split_ifs at huser' <;> exact huser'
    obtain ⟨between, hbetween, rfl⟩ := List.mem_map.mp hmem
    obtain ⟨before, hbefore, hid, hother, hcurrent⟩ := currentRow_rows hunique hfirst hbetween
    refine ⟨before, hbefore, ?_⟩
    rw [hid]
    split_ifs with huid
    · exact hcurrent huid
    · exact hother huid
  · cases h

/-- The row of the request is current, then the request assigns to it. -/
theorem requested_subscribers {request : SettingsRequest}
    (hrow : subscriber who timezone tokens w.tables = .ok (row, user))
    (ht : t'.notificationSubscribers = row.notificationSubscribers.map fun user' =>
      if user'.id = user.id then request.assign env w.clock user' else user')
    (hwho : request.who = some who)
    (hversions : ∀ version ∈ request.versions tokens, w.tables.Unused version)
    (hdrawn : tokens.connectionVersion ∈ request.versions tokens) :
    SubscribersFrom env w (.settings request tokens) t' := by
  obtain ⟨huid, hrows⟩ := subscriber_rows w.unique hrow
  intro user' huser'
  rw [ht, huid] at huser'
  obtain ⟨between, hbetween, rfl⟩ := List.mem_map.mp huser'
  obtain ⟨before, hbefore, rfl⟩ := hrows between hbetween
  refine ⟨before, ?_, ?_⟩
  · rcases hbefore with hmem | ⟨hnew, hothers⟩
    · exact .row hmem
    · exact .inserted who timezone tokens hnew (hversions _ hdrawn) hothers
  · by_cases hid : before.id = who.uid
    · rw [if_pos hid, if_pos ((current_id who tokens before).trans hid)]
      exact .requested before request tokens who rfl hwho hid hversions
    · rw [if_neg hid, if_neg hid]
      exact .refl before

variable (env) in
theorem storeSettings_subscribers (now : Time) (uuid : ℕ → Str) (db : Db) (body : Settings)
    (id : Str) (t : NotificationTables) :
    (storeSettings env now uuid db body id t).notificationSubscribers =
      t.notificationSubscribers.map fun user =>
        if user.id = id then user.withSettings env.zones now body else user := by
  unfold storeSettings
  rw [← (matchedFrom_matchAll now uuid db
    (t.notificationEvents.countP fun event => !event.processed) t).subscribers]
  dsimp only
  split_ifs <;> rfl

theorem settings_subscribers {request : SettingsRequest}
    (hversions : ∀ version ∈ request.versions tokens, w.tables.Unused version)
    (h : request.run env w.clock w.db tokens w.tables = .ok t') :
    SubscribersFrom env w (.settings request tokens) t' := by
  cases request with
  | getSettings timezone who =>
    simp only [SettingsRequest.run, Raising.bind_eq_ok] at h
    obtain ⟨⟨row, user⟩, hrow, h⟩ := h
    cases h
    exact requested_subscribers hrow (by simp [SettingsRequest.assign]) rfl hversions
      (by simp [SettingsRequest.versions])
  | putSettings body who uuid =>
    simp only [SettingsRequest.run, putSettings, Raising.bind_eq_ok, check_eq_ok] at h
    obtain ⟨⟨row, user⟩, hrow, -, -, -, h⟩ := h
    cases h
    exact requested_subscribers hrow (storeSettings_subscribers env ..) rfl hversions
      (by simp [SettingsRequest.versions])
  | putProvider keyCiphertext webhookCiphertext who version =>
    simp only [SettingsRequest.run, putProvider, Raising.bind_eq_ok] at h
    obtain ⟨⟨row, user⟩, hrow, h⟩ := h
    split at h <;> cases h
    exact requested_subscribers hrow rfl rfl hversions (by simp [SettingsRequest.versions])
  | deleteProvider who version webhookId =>
    simp only [SettingsRequest.run, deleteProvider, Raising.bind_eq_ok] at h
    obtain ⟨⟨row, user⟩, hrow, h⟩ := h
    cases h
    exact requested_subscribers hrow rfl rfl hversions (by simp [SettingsRequest.versions])
  | testProvider who =>
    simp only [SettingsRequest.run, testProvider, Raising.bind_eq_ok, check_eq_ok] at h
    obtain ⟨⟨row, user⟩, hrow, -, -, -, h⟩ := h
    cases h
    exact requested_subscribers hrow (by simp [SettingsRequest.assign, NotificationTables.addDelivery])
      rfl hversions (by simp [SettingsRequest.versions])
  | unsubscribe token =>
    simp only [SettingsRequest.run, unsubscribe] at h
    split at h <;> cases h
    intro user' huser'
    obtain ⟨user, huser, rfl⟩ := List.mem_map.mp huser'
    refine ⟨user, .row huser, ?_⟩
    split_ifs
    · exact .unsubscribed user token tokens rfl
    · exact .refl user

end settings

/-! ## Recaps -/

/-- The assignments of a round on the row of its subscriber. -/
def Subscriber.due (zones : ZoneInfo) (now : Time) (user row : Subscriber) : Subscriber :=
  match user.windowStart, user.nextRecap with
  | some _, some nextRecap => row.advanced zones (windowEnd zones user.timezone now nextRecap)
  | _, _ => row

theorem due_id (zones : ZoneInfo) (now : Time) (user row : Subscriber) :
    (user.due zones now row).id = row.id := by
  unfold Subscriber.due
  split <;> rfl

theorem recordRecap_subscribers (now : Time) (uuid : ℕ → Str) (db : Db) (user : Subscriber)
    (found : List JobMatch) (start stop : Time) (t : NotificationTables) :
    (recordRecap now uuid db user found start stop t).notificationSubscribers =
      t.notificationSubscribers := by
  unfold recordRecap
  split_ifs
  · rfl
  · split <;> rfl

theorem makeRecap_subscribers (now : Time) (uuid : ℕ → Str) (db : Db) (t : NotificationTables)
    (user : Subscriber) :
    (makeRecap env now uuid db t user).notificationSubscribers =
      t.notificationSubscribers.map fun row =>
        if row.id = user.id then user.due env.zones now row else row := by
  cases hstart : user.windowStart with
  | none => simp [makeRecap, Subscriber.due, hstart]
  | some start =>
    cases hnext : user.nextRecap with
    | none => simp [makeRecap, Subscriber.due, hstart, hnext]
    | some nextRecap =>
      have hdue (row : Subscriber) : user.due env.zones now row =
          row.advanced env.zones (windowEnd env.zones user.timezone now nextRecap) := by
        rw [Subscriber.due, hstart, hnext]
      simp only [makeRecap, hstart, hnext, hdue]
      exact congrArg (List.map _) (recordRecap_subscribers now uuid db user
        (windowMatches t user.id start (windowEnd env.zones user.timezone now nextRecap)) start
        (windowEnd env.zones user.timezone now nextRecap) t)

/-- The rows after the rounds: every row takes part in one round at most. -/
theorem makeRecaps_loop_subscribers (now : Time) (uuid : ℕ → Str) (db : Db)
    (users : List Subscriber) (hnd : (users.map (·.id)).Nodup) (t : NotificationTables) :
    (users.foldl (makeRecap env now uuid db) t).notificationSubscribers =
      t.notificationSubscribers.map fun row =>
        ((users.find? (·.id = row.id)).map (·.due env.zones now row)).getD row := by
  induction users generalizing t with
  | nil => simp
  | cons user users ih =>
    rw [List.map_cons, List.nodup_cons] at hnd
    rw [List.foldl_cons, ih hnd.2, makeRecap_subscribers, List.map_map]
    refine List.map_congr_left fun row _ => ?_
    rw [Function.comp_apply, List.find?_cons]
    by_cases hid : row.id = user.id
    · have hnone : users.find? (·.id = user.id) = none := List.find?_eq_none.mpr
        fun later hlater heq => hnd.1 (of_decide_eq_true heq ▸ List.mem_map_of_mem hlater)
      rw [if_pos hid, due_id, hid, hnone, decide_eq_true rfl]
      rfl
    · rw [if_neg hid, decide_eq_false fun heq => hid heq.symm]

/-- The window ends at a cutoff that is due. -/
theorem lastCutoff_bounds (zones : ZoneInfo) (timezone : Str) {now stop : Time} (n : ℕ)
    (h : stop ≤ now) :
    stop ≤ lastCutoff zones timezone now n stop ∧ lastCutoff zones timezone now n stop ≤ now := by
  induction n generalizing stop with
  | zero => exact ⟨le_refl _, h⟩
  | succ n ih =>
    unfold lastCutoff
    dsimp only
    split_ifs with hnext
    · exact ⟨(lt_nextCutoff zones stop timezone).le.trans (ih hnext).1, (ih hnext).2⟩
    · exact ⟨le_refl _, h⟩

/-- No cutoff is due after the window. -/
theorem lt_next_lastCutoff (zones : ZoneInfo) (timezone : Str) {now stop : Time} (n : ℕ)
    (h : now - stop ≤ n) :
    now < nextCutoff zones (lastCutoff zones timezone now n stop) timezone := by
  induction n generalizing stop with
  | zero =>
    have hle : now ≤ stop := Int.le_of_sub_nonpos h
    exact hle.trans_lt (lt_nextCutoff zones stop timezone)
  | succ n ih =>
    unfold lastCutoff
    dsimp only
    split_ifs with hnext
    · refine ih ?_
      have hlt := lt_nextCutoff zones stop timezone
      generalize nextCutoff zones stop timezone = next at hlt ⊢
      simp only [Time] at *
      omega
    · exact lt_of_not_ge hnext

theorem windowEnd_bounds (zones : ZoneInfo) (timezone : Str) {now nextRecap : Time}
    (h : nextRecap ≤ now) :
    nextRecap ≤ windowEnd zones timezone now nextRecap ∧
      windowEnd zones timezone now nextRecap ≤ now ∧
      now < nextCutoff zones (windowEnd zones timezone now nextRecap) timezone := by
  obtain ⟨hlow, hhigh⟩ := lastCutoff_bounds zones timezone (now - nextRecap).toNat h
  exact ⟨hlow, hhigh, lt_next_lastCutoff zones timezone _ (Int.self_le_toNat _)⟩

/-- Whether the recap of a subscriber is due. -/
def Subscriber.recapDue (now : Time) (user : Subscriber) : Bool :=
  user.recap && user.verified && !user.suppressed && user.nextRecap.any (· ≤ now)

variable (env) in
/-- `make_recaps` does nothing while events are unprocessed. -/
theorem makeRecaps_eq (now : Time) (uuid : ℕ → Str) (db : Db) (t : NotificationTables) :
    makeRecaps env now uuid db t =
      if t.notificationEvents.all (·.processed) then
        (t.notificationSubscribers.filter (·.recapDue now)).foldl (makeRecap env now uuid db) t
      else t := by
  unfold makeRecaps
  rw [List.all_eq_not_any_not]
  cases t.notificationEvents.any fun event => !event.processed <;> rfl

variable (env) in
/-- The rows after `make_recaps`. -/
theorem makeRecaps_rows (now : Time) (uuid : ℕ → Str) (db : Db)
    (hids : (t.notificationSubscribers.map (·.id)).Nodup) :
    (makeRecaps env now uuid db t).notificationSubscribers =
      t.notificationSubscribers.map fun user =>
        if user.recapDue now && t.notificationEvents.all (·.processed) then
          user.due env.zones now user
        else user := by
  rw [makeRecaps_eq]
  by_cases hdrained : t.notificationEvents.all (·.processed) = true
  swap
  · rw [if_neg hdrained, Bool.eq_false_of_not_eq_true hdrained]
    simp
  · rw [if_pos hdrained, hdrained, makeRecaps_loop_subscribers now uuid db _
      ((List.filter_sublist.map _).nodup hids)]
    refine List.map_congr_left fun user huser => ?_
    rw [Bool.and_true]
    split_ifs with hdue
    · have hrow : (t.notificationSubscribers.filter (·.recapDue now)).find? (·.id = user.id) =
          some user := Table.find?_key ((List.filter_sublist.map _).nodup hids)
        (List.mem_filter.mpr ⟨huser, hdue⟩)
      rw [hrow]
      rfl
    · rw [List.find?_eq_none.mpr fun other hother hid => hdue ?_]
      · rfl
      obtain ⟨hmem, hon⟩ := List.mem_filter.mp hother
      rw [List.inj_on_of_nodup_map hids huser hmem (of_decide_eq_true hid).symm]
      exact hon

/-- A due subscriber has its window closed at a cutoff that is due. -/
theorem due_advanced {now : Time} (hdue : user.recapDue now = true) :
    user.due env.zones now user = user ∨ ∃ nextRecap stop, user.nextRecap = some nextRecap ∧
      nextRecap ≤ stop ∧ stop ≤ now ∧
      user.due env.zones now user = user.advanced env.zones stop := by
  simp only [Subscriber.recapDue, Bool.and_eq_true, Option.any_eq_true, decide_eq_true_eq] at hdue
  obtain ⟨-, nextRecap, hnext, hle⟩ := hdue
  unfold Subscriber.due
  rw [hnext]
  cases user.windowStart with
  | none => exact .inl rfl
  | some start =>
    obtain ⟨hlow, hhigh, -⟩ := windowEnd_bounds env.zones user.timezone hle
    exact .inr ⟨nextRecap, _, rfl, hlow, hhigh, rfl⟩

theorem makeRecaps_subscribers {now : Time} (hnow : now ≤ w.clock) (hstep : step.IsPrepare)
    (uuid : ℕ → Str) (db : Db)
    (ht : t.notificationSubscribers = w.tables.notificationSubscribers) :
    SubscribersFrom env w step (makeRecaps env now uuid db t) := by
  have hids : (t.notificationSubscribers.map (·.id)).Nodup := ht ▸ w.unique.subscriberIds
  intro user' huser'
  rw [makeRecaps_rows env now uuid db hids] at huser'
  obtain ⟨user, huser, rfl⟩ := List.mem_map.mp huser'
  refine ⟨user, .row (ht ▸ huser), ?_⟩
  split_ifs with hdue
  · rcases due_advanced (Bool.and_eq_true_iff.mp hdue).1 with
      hsame | ⟨nextRecap, stop, hnext, hlow, hhigh, hadvanced⟩
    · rw [hsame]
      exact .refl user
    · rw [hadvanced]
      exact .advanced user nextRecap stop hstep hnext hlow (hhigh.trans hnow)
  · exact .refl user

/-! ## Steps -/

theorem subscribersFrom_update {id : Str} {f : Subscriber → Subscriber}
    (ht : t.notificationSubscribers = w.tables.notificationSubscribers)
    (hf : ∀ user, SubscriberStep env w step user (f user)) :
    SubscribersFrom env w step (t.updateSubscriber id f) := by
  intro user' huser'
  obtain ⟨user, huser, rfl⟩ := List.mem_map.mp huser'
  refine ⟨user, .row (ht ▸ huser), ?_⟩
  split_ifs
  · exact hf user
  · exact .refl user

theorem writeBack_subscribers (send : Send) (response : Option Response) :
    SubscribersFrom env w step (writeBack send response w.tables) := by
  cases hitem : w.tables.delivery send.deliveryId with
  | none =>
    unfold writeBack
    rw [hitem]
    exact subscribersFrom_same rfl
  | some item =>
    obtain ⟨accounts, hframe⟩ := writeBack_frame response hitem
    rw [hframe]
    have hstatus : ∀ user, SubscriberStep env w step user (user.writtenBack item response) :=
      fun user => by
        obtain ⟨status, huser⟩ := subscriber_writtenBack_frame item response user
        rw [huser]
        exact .flagged user user.verified status user.suppressed id
    exact subscribersFrom_update (t := w.tables.updateDelivery item.id
      (·.writtenBack send.now response)) rfl hstatus

theorem applyEvent_subscribers (item : EmailDelivery) (type : WebhookType)
    (ht : t.notificationSubscribers = w.tables.notificationSubscribers) :
    SubscribersFrom env w step (applyEvent t item type) := by
  have hsuppress : SubscribersFrom env w step (suppressRecipient t item) := by
    unfold suppressRecipient
    split
    · exact subscribersFrom_same ht
    · split_ifs
      · exact subscribersFrom_update ht fun user =>
          .flagged user user.verified user.status true fun _ => rfl
      · exact subscribersFrom_same ht
  cases type with
  | bounced => exact hsuppress
  | complained => exact hsuppress
  | delivered =>
    unfold applyEvent
    split_ifs <;> exact subscribersFrom_same ht
  | other => exact subscribersFrom_same ht

theorem webhook_subscribers {call : WebhookCall} {status : WebhookStatus}
    (h : webhook env w.tables call = .ok (status, t)) : SubscribersFrom env w step t := by
  obtain ⟨account, -, h⟩ := webhook_eq_ok.mp h
  unfold webhookEvent at h
  split at h
  · cases h
    exact subscribersFrom_same rfl
  split at h
  · split at h <;> cases h
    exact subscribersFrom_same rfl
  · cases h
    exact applyEvent_subscribers _ _ rfl

theorem claim_subscribers (now : Time) (verify : Str → Str → Option Bool) :
    SubscribersFrom env w (.claim now verify) (claim env w.db verify now w.tables).1 := by
  intro user' huser'
  obtain ⟨user, huser, verified, status, rfl, -⟩ := (claim_spec env w verify now).2.1 user' huser'
  exact ⟨user, .row huser, .flagged user verified status user.suppressed id⟩

theorem subscribersFrom_commit {w' : World}
    (hsame : w'.tables.notificationSubscribers = w.tables.notificationSubscribers)
    (h : SubscribersFrom env w step t) : SubscribersFrom env w step (w'.commit t).tables := by
  unfold World.commit
  split_ifs
  · exact h
  · exact subscribersFrom_same hsame

/-- **What a step does to the subscribers.** -/
theorem exec_subscribers (w : World) (step : NotificationStep) :
    SubscribersFrom env w step (step.exec cfg S env w).tables := by
  cases step with
  | tick time => exact subscribersFrom_same rfl
  | ingest call reading => exact subscribersFrom_same rfl
  | prepare now between uuid =>
    simp only [NotificationStep.exec]
    split_ifs with hnow
    · obtain ⟨w', events, hprepare, htables, -⟩ :=
        World.prepare_frame cfg S env w now between uuid
      rw [hprepare]
      exact subscribersFrom_commit (by rw [htables]; rfl)
        (makeRecaps_subscribers hnow
          (by trivial : NotificationStep.IsPrepare (.prepare now between uuid)) uuid _
          (matchedFrom_matchEvents now uuid w.db w.tables).subscribers)
    · exact subscribersFrom_same rfl
  | claim now verify => exact subscribersFrom_commit rfl (claim_subscribers now verify)
  | accept send emailId =>
    simp only [NotificationStep.exec]
    split_ifs <;> exact subscribersFrom_same rfl
  | writeBack send response =>
    simp only [NotificationStep.exec]
    split_ifs
    · exact subscribersFrom_commit rfl (writeBack_subscribers send response)
    · exact subscribersFrom_same rfl
  | crash send => exact subscribersFrom_same rfl
  | webhook call =>
    simp only [NotificationStep.exec]
    split
    · exact subscribersFrom_same rfl
    next heq => exact subscribersFrom_commit rfl (webhook_subscribers heq)
  | settings request tokens =>
    simp only [NotificationStep.exec]
    split_ifs with hversions
    · split
      · exact subscribersFrom_same rfl
      next heq => exact subscribersFrom_commit rfl (settings_subscribers hversions.2 heq)
    · exact subscribersFrom_same rfl

/-! ## Connections -/

/-- Two rows of a subscriber with one connection and one address. -/
structure Subscriber.SameConnection (a b : Subscriber) : Prop where
  id_eq : b.id = a.id
  email : b.email = a.email
  provider : b.provider = a.provider
  connectionVersion : b.connectionVersion = a.connectionVersion

theorem Subscriber.SameConnection.account_eq {a b : Subscriber} (h : a.SameConnection b) :
    b.account = a.account := by
  unfold Subscriber.account
  rw [h.provider, h.id_eq]

/-- A changed connection has a new version. -/
theorem current_connection (who : Who) {tokens : Tokens}
    (hversion : w.tables.Unused tokens.connectionVersion) (user : Subscriber) :
    user.SameConnection (user.current who tokens) ∨
      w.tables.Unused (user.current who tokens).connectionVersion := by
  unfold Subscriber.current
  split_ifs
  · exact .inl ⟨rfl, rfl, rfl, rfl⟩
  · exact .inr hversion

theorem SubscriberStep.connection (h : SubscriberStep env w step user user') :
    user.SameConnection user' ∨ w.tables.Unused user'.connectionVersion := by
  cases h with
  | flagged => exact .inl ⟨rfl, rfl, rfl, rfl⟩
  | advanced => exact .inl ⟨rfl, rfl, rfl, rfl⟩
  | unsubscribed => exact .inl ⟨rfl, rfl, rfl, rfl⟩
  | requested request tokens who _ hwho _ hversions =>
    have hcurrent (h : tokens.connectionVersion ∈ request.versions tokens) :=
      current_connection who (hversions _ h) user
    cases request with
    | getSettings => exact hcurrent (by simp [SettingsRequest.versions])
    | putSettings =>
      exact (hcurrent (by simp [SettingsRequest.versions])).imp_left fun h => ⟨h.1, h.2, h.3, h.4⟩
    | putProvider => exact .inr (hversions _ (by simp [SettingsRequest.versions]; exact .inr rfl))
    | deleteProvider =>
      exact .inr (hversions _ (by simp [SettingsRequest.versions]; exact .inr rfl))
    | testProvider => exact hcurrent (by simp [SettingsRequest.versions])
    | unsubscribe => cases hwho

variable (cfg S env) in
/-- After a step, a connection is one from before it, or has a new version. -/
theorem exec_connections (w : World) (step : NotificationStep) :
    ∀ user' ∈ (step.exec cfg S env w).tables.notificationSubscribers,
      (∃ user ∈ w.tables.notificationSubscribers, user.SameConnection user') ∨
        w.tables.Unused user'.connectionVersion := by
  intro user' huser'
  obtain ⟨user, hbefore, hstep⟩ := exec_subscribers w step user' huser'
  rcases hstep.connection with hsame | hunused
  · cases hbefore with
    | row hmem => exact .inl ⟨user, hmem, hsame⟩
    | inserted who timezone tokens huser hversion _ =>
      refine .inr ?_
      rw [hsame.connectionVersion, huser]
      exact hversion
  · exact .inr hunused

end JobPing
