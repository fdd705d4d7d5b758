import JobPing.Matching
import JobPing.NotificationRuns

/-!
# What the transactions leave alone

The events, the matches and the remembered webhooks change in few places: matching, and the webhook
route. Everything else leaves them as they are (`SameFeed`).
-/

namespace JobPing

variable {env : NotificationEnv}

/-- Tables with the same events, matches and remembered webhooks. -/
structure NotificationTables.SameFeed (t t' : NotificationTables) : Prop where
  events : t'.notificationEvents = t.notificationEvents
  matched : t'.notificationMatches = t.notificationMatches
  webhooks : t'.notificationWebhooks = t.notificationWebhooks

variable {t t' : NotificationTables}

theorem NotificationTables.SameFeed.refl (t : NotificationTables) : t.SameFeed t := ⟨rfl, rfl, rfl⟩

theorem NotificationTables.SameFeed.trans {t'' : NotificationTables} (h : t.SameFeed t')
    (h' : t'.SameFeed t'') : t.SameFeed t'' :=
  ⟨h'.1.trans h.1, h'.2.trans h.2, h'.3.trans h.3⟩

/-! ## The worker -/

theorem sameFeed_recordRecap (now : Time) (uuid : ℕ → Str) (db : Db) (user : Subscriber)
    (found : List JobMatch) (start stop : Time) (t : NotificationTables) :
    t.SameFeed (recordRecap now uuid db user found start stop t) := by
  unfold recordRecap
  split_ifs
  · exact .refl t
  · split <;> exact ⟨rfl, rfl, rfl⟩

variable (env) in
theorem sameFeed_makeRecap (now : Time) (uuid : ℕ → Str) (db : Db) (t : NotificationTables)
    (user : Subscriber) : t.SameFeed (makeRecap env now uuid db t user) := by
  unfold makeRecap
  split
  next start nextRecap _ _ =>
    exact (sameFeed_recordRecap now uuid db user (windowMatches t user.id start
      (windowEnd env.zones user.timezone now nextRecap)) start
      (windowEnd env.zones user.timezone now nextRecap) t).trans ⟨rfl, rfl, rfl⟩
  · exact .refl t

variable (env) in
theorem sameFeed_makeRecaps (now : Time) (uuid : ℕ → Str) (db : Db) (t : NotificationTables) :
    t.SameFeed (makeRecaps env now uuid db t) := by
  unfold makeRecaps
  split_ifs
  · exact .refl t
  · exact List.foldlRecOn (motive := t.SameFeed) _ _ (.refl t)
      fun u hu user _ => hu.trans (sameFeed_makeRecap env now uuid db u user)

theorem sameFeed_claim (db : Db) (verify : Str → Str → Option Bool) (now : Time)
    (t : NotificationTables) : t.SameFeed (claim env db verify now t).1 := by
  have hitem : ∀ (t : NotificationTables) (item : EmailDelivery),
      t.SameFeed (claimItem env db verify now t item).1 := by
    intro t item
    unfold claimItem
    split
    · exact .refl t
    · split <;> exact ⟨rfl, rfl, rfl⟩
  unfold claim
  generalize candidates now t = items
  induction items generalizing t with
  | nil => exact .refl t
  | cons item items ih =>
    have hround := hitem t item
    unfold claimItems
    split
    next heq =>
      rw [heq] at hround
      exact hround
    next heq =>
      rw [heq] at hround
      exact hround.trans (ih _)

theorem sameFeed_writeBack (send : Send) (response : Option Response) (t : NotificationTables) :
    t.SameFeed (writeBack send response t) := by
  cases hitem : t.delivery send.deliveryId with
  | none =>
    unfold writeBack
    rw [hitem]
    exact .refl t
  | some item =>
    obtain ⟨accounts, hframe⟩ := writeBack_frame response hitem
    rw [hframe]
    exact ⟨rfl, rfl, rfl⟩

/-! ## The routes -/

theorem sameFeed_subscriber {who : Who} {timezone : Str} {tokens : Tokens} {user : Subscriber}
    (h : subscriber who timezone tokens t = .ok (t', user)) : t.SameFeed t' := by
  simp only [subscriber, Raising.bind_eq_ok] at h
  obtain ⟨row, hrow, h⟩ := h
  have hsame : t.SameFeed row := by
    unfold currentRow at hrow
    split at hrow
    all_goals
      dsimp only at hrow
      split_ifs at hrow
      all_goals cases hrow; exact ⟨rfl, rfl, rfl⟩
  refine hsame.trans ?_
  split at h
  · cases h
    split_ifs <;> exact ⟨rfl, rfl, rfl⟩
  · cases h

theorem sameFeed_suppressRecipient (t : NotificationTables) (item : EmailDelivery) :
    t.SameFeed (suppressRecipient t item) := by
  unfold suppressRecipient
  split
  · exact .refl t
  · split_ifs
    · exact ⟨rfl, rfl, rfl⟩
    · exact .refl t

theorem sameFeed_applyEvent (t : NotificationTables) (item : EmailDelivery) (type : WebhookType) :
    t.SameFeed (applyEvent t item type) := by
  cases type with
  | bounced => exact (sameFeed_suppressRecipient t item).trans ⟨rfl, rfl, rfl⟩
  | complained => exact (sameFeed_suppressRecipient t item).trans ⟨rfl, rfl, rfl⟩
  | delivered =>
    unfold applyEvent
    split_ifs
    · exact .refl t
    · exact ⟨rfl, rfl, rfl⟩
  | other => exact .refl t

theorem sameFeed_storeSettings (now : Time) (uuid : ℕ → Str) (db : Db) (body : Settings) (id : Str)
    (t : NotificationTables) :
    (matchAll now uuid db (t.notificationEvents.countP fun event => !event.processed) t).SameFeed
      (storeSettings env now uuid db body id t) := by
  unfold storeSettings
  dsimp only
  split_ifs <;> exact ⟨rfl, rfl, rfl⟩

/-- The requests other than new preferences. -/
def SettingsRequest.IsPreferences : SettingsRequest → Prop
  | putSettings _ _ _ => True
  | _ => False

theorem sameFeed_request {request : SettingsRequest} {now : Time} {db : Db} {tokens : Tokens}
    (hrequest : ¬request.IsPreferences) (h : request.run env now db tokens t = .ok t') :
    t.SameFeed t' := by
  cases request with
  | getSettings timezone who =>
    simp only [SettingsRequest.run, Raising.bind_eq_ok] at h
    obtain ⟨⟨row, user⟩, hrow, h⟩ := h
    cases h
    exact sameFeed_subscriber hrow
  | putSettings => exact absurd trivial hrequest
  | putProvider keyCiphertext webhookCiphertext who version =>
    simp only [SettingsRequest.run, putProvider, Raising.bind_eq_ok] at h
    obtain ⟨⟨row, user⟩, hrow, h⟩ := h
    split at h <;> cases h
    exact (sameFeed_subscriber hrow).trans ⟨rfl, rfl, rfl⟩
  | deleteProvider who version webhookId =>
    simp only [SettingsRequest.run, deleteProvider, Raising.bind_eq_ok] at h
    obtain ⟨⟨row, user⟩, hrow, h⟩ := h
    cases h
    exact (sameFeed_subscriber hrow).trans ⟨rfl, rfl, rfl⟩
  | testProvider who =>
    simp only [SettingsRequest.run, testProvider, Raising.bind_eq_ok, check_eq_ok] at h
    obtain ⟨⟨row, user⟩, hrow, -, -, -, h⟩ := h
    cases h
    exact (sameFeed_subscriber hrow).trans ⟨rfl, rfl, rfl⟩
  | unsubscribe token =>
    simp only [SettingsRequest.run, unsubscribe] at h
    split at h <;> cases h
    exact ⟨rfl, rfl, rfl⟩

/-- New preferences match the backlog first. -/
theorem preferences_feed {body : Settings} {who : Who} {uuid : ℕ → Str} {now : Time} {db : Db}
    {tokens : Tokens}
    (h : (SettingsRequest.putSettings body who uuid).run env now db tokens t = .ok t') :
    ∃ row user, subscriber who "UTC".toList tokens t = .ok (row, user) ∧ ∃ matched,
      MatchedFrom db row matched ∧ matched.SameFeed t' := by
  simp only [SettingsRequest.run, putSettings, Raising.bind_eq_ok, check_eq_ok] at h
  obtain ⟨⟨row, user⟩, hrow, -, -, -, h⟩ := h
  cases h
  exact ⟨row, user, hrow, _, matchedFrom_matchAll now uuid db _ row,
    sameFeed_storeSettings now uuid db body user.id row⟩

theorem settings_webhooks {request : SettingsRequest} {now : Time} {db : Db} {tokens : Tokens}
    (h : request.run env now db tokens t = .ok t') :
    t'.notificationWebhooks = t.notificationWebhooks := by
  by_cases hrequest : request.IsPreferences
  · cases request with
    | putSettings =>
      obtain ⟨row, user, hrow, matched, hmatched, hsame⟩ := preferences_feed h
      rw [hsame.webhooks, hmatched.webhooks, (sameFeed_subscriber hrow).webhooks]
    | _ => exact hrequest.elim
  · exact (sameFeed_request hrequest h).webhooks

end JobPing
