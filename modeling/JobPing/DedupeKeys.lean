import JobPing.Frames
import JobPing.Runs
import JobPing.SubscriberChanges

/-!
# The keys of the deliveries

A transaction that inserts a delivery under a key that is present fails, and so would every later one
like it. The key of an alert has the match that it was added with; the key of a recap has the end of a
window, and the ends of the windows of a subscriber increase, since the next cutoff is always later than
the clock or the end of the last window.
-/

namespace JobPing

variable {cfg : Config} {S : Services} {env : NotificationEnv}

namespace NotificationTables

/-- The keys of the deliveries. -/
def keys (t : NotificationTables) : List DedupeKey := t.notificationDeliveries.map (·.dedupeKey)

/-- No two deliveries have one key, and every alert has its match. -/
structure KeysSound (t : NotificationTables) : Prop where
  nodup : t.keys.Nodup
  alerts : ∀ subscriberId occurrenceId, .alert subscriberId occurrenceId ∈ t.keys →
    ∃ m ∈ t.notificationMatches, m.subscriberId = subscriberId ∧ m.occurrenceId = occurrenceId

/-- Deliveries other than recaps have been inserted. -/
structure KeysExtended (t t' : NotificationTables) : Prop where
  kept : t.keys <+: t'.keys
  sound : t.KeysSound → t'.KeysSound
  recaps : ∀ subscriberId windowEnd, .recap subscriberId windowEnd ∈ t'.keys →
    .recap subscriberId windowEnd ∈ t.keys

variable {t t' : NotificationTables}

theorem KeysExtended.of_same (hkeys : t'.keys = t.keys)
    (hmatched : t'.notificationMatches = t.notificationMatches) : t.KeysExtended t' where
  kept := hkeys ▸ List.prefix_refl _
  sound h := ⟨hkeys ▸ h.nodup, hkeys ▸ hmatched ▸ h.alerts⟩
  recaps _ _ h := hkeys ▸ h

theorem KeysExtended.refl (t : NotificationTables) : t.KeysExtended t := .of_same rfl rfl

theorem KeysExtended.trans {t'' : NotificationTables} (h : t.KeysExtended t')
    (h' : t'.KeysExtended t'') : t.KeysExtended t'' where
  kept := h.kept.trans h'.kept
  sound hsound := h'.sound (h.sound hsound)
  recaps subscriberId windowEnd hkey :=
    h.recaps subscriberId windowEnd (h'.recaps subscriberId windowEnd hkey)

theorem KeysExtended.foldl {α : Type} {round : NotificationTables → α → NotificationTables}
    (h : ∀ (t : NotificationTables) (x : α), t.KeysExtended (round t x)) (xs : List α)
    (t : NotificationTables) :
    t.KeysExtended (xs.foldl round t) :=
  List.foldlRecOn (motive := t.KeysExtended) xs round (.refl t) fun u hu x _ => hu.trans (h u x)

/-- Assignments keep the keys. -/
theorem updateDeliveries_keys {p : EmailDelivery → Bool} {f : EmailDelivery → EmailDelivery}
    (hf : ∀ item, (f item).dedupeKey = item.dedupeKey) :
    (t.updateDeliveries p f).keys = t.keys := by
  rw [keys, keys, updateDeliveries, List.map_map]
  refine List.map_congr_left fun item _ => ?_
  rw [Function.comp_apply]
  split_ifs
  · exact hf item
  · rfl

theorem keysExtended_cancelPending (t : NotificationTables) (id : Str) :
    t.KeysExtended (t.cancelPending id) := .of_same (updateDeliveries_keys fun _ => rfl) rfl

theorem keysExtended_cancelKind (t : NotificationTables) (id : Str) (kind : DeliveryKind) :
    t.KeysExtended (t.cancelKind id kind) := .of_same (updateDeliveries_keys fun _ => rfl) rfl

theorem addDelivery_keys (t : NotificationTables) (item : EmailDelivery) :
    (t.addDelivery item).keys = t.keys ++ [item.dedupeKey] := List.map_append

end NotificationTables

open NotificationTables

variable {t t' : NotificationTables}

/-! ## Matching -/

/-- A new alert comes with a new match. -/
theorem keysExtended_matchUser (now : Time) (uuid : ℕ → Str) (e : JoinedEvent)
    (t : NotificationTables) (user : Subscriber) :
    t.KeysExtended (matchUser now uuid e t user) := by
  unfold matchUser
  split_ifs with _ hmatched
  · exact .refl t
  · exact .refl t
  · refine ⟨⟨_, (addDelivery_keys _ _).symm⟩, fun h => ⟨?_, fun id occurrence hkey => ?_⟩,
      fun id stop hkey => ?_⟩
    · rw [addDelivery_keys, ← List.concat_eq_append]
      refine h.nodup.concat fun hkey => ?_
      obtain ⟨m, hm, hid, hoccurrence⟩ := h.alerts _ _ hkey
      refine hmatched (List.any_eq_true.mpr ⟨m, hm, ?_⟩)
      simp [hid, hoccurrence]
    · rw [addDelivery_keys] at hkey
      rcases List.mem_append.mp hkey with hold | hnew
      · obtain ⟨m, hm, hspec⟩ := h.alerts id occurrence hold
        exact ⟨m, List.mem_append_left _ hm, hspec⟩
      · obtain ⟨rfl, rfl⟩ := DedupeKey.alert.inj (List.mem_singleton.mp hnew)
        exact ⟨_, List.mem_append_right _ (List.mem_singleton_self _), rfl, rfl⟩
    · rw [addDelivery_keys] at hkey
      rcases List.mem_append.mp hkey with hold | hnew
      · exact hold
      · cases List.mem_singleton.mp hnew
  · refine ⟨List.prefix_refl _, fun h => ⟨h.nodup, fun id occurrence hkey => ?_⟩,
      fun _ _ hkey => hkey⟩
    obtain ⟨m, hm, hspec⟩ := h.alerts id occurrence hkey
    exact ⟨m, List.mem_append_left _ hm, hspec⟩

theorem keysExtended_matchEvents (now : Time) (uuid : ℕ → Str) (db : Db)
    (t : NotificationTables) : t.KeysExtended (matchEvents now uuid db t) := by
  have hround (users : List Subscriber) (u : NotificationTables) (e : JoinedEvent) :
      u.KeysExtended (matchEvent now uuid users u e) := by
    have hmatched := KeysExtended.foldl (keysExtended_matchUser now uuid e) users u
    exact hmatched.trans (.of_same rfl rfl)
  exact KeysExtended.foldl (hround _) _ t

theorem keysExtended_matchAll (now : Time) (uuid : ℕ → Str) (db : Db) (n : ℕ)
    (t : NotificationTables) : t.KeysExtended (matchAll now uuid db n t) := by
  induction n generalizing t with
  | zero => exact .refl t
  | succ n ih =>
    unfold matchAll
    split_ifs
    · exact (keysExtended_matchEvents now uuid db t).trans (ih _)
    · exact .refl t

/-! ## Settings -/

section settings

variable {who : Who} {tokens : Tokens}

/-- Signing in keeps the keys. -/
theorem subscriber_keys {timezone : Str} {user : Subscriber}
    (h : subscriber who timezone tokens t = .ok (t', user)) : t'.keys = t.keys := by
  simp only [subscriber, Raising.bind_eq_ok] at h
  obtain ⟨row, hrow, h⟩ := h
  have hfirst : row.keys = t.keys := by
    unfold currentRow at hrow
    split at hrow
    · dsimp only at hrow
      split_ifs at hrow
      cases hrow
      rfl
    · dsimp only at hrow
      split_ifs at hrow
      · cases hrow
        rfl
      · cases hrow
        exact updateDeliveries_keys fun _ => rfl
  rw [← hfirst]
  split at h
  · cases h
    split_ifs
    · rfl
    · exact updateDeliveries_keys fun _ => rfl
  · cases h

theorem keysExtended_subscriber {timezone : Str} {user : Subscriber}
    (h : subscriber who timezone tokens t = .ok (t', user)) : t.KeysExtended t' :=
  .of_same (subscriber_keys h) (sameFeed_subscriber h).matched

theorem keysExtended_storeSettings (now : Time) (uuid : ℕ → Str) (db : Db) (body : Settings)
    (subscriberId : Str) (t : NotificationTables) :
    t.KeysExtended (storeSettings env now uuid db body subscriberId t) := by
  unfold storeSettings
  dsimp only
  generalize (t.notificationEvents.countP fun event => !event.processed) = n
  refine (keysExtended_matchAll now uuid db n t).trans ?_
  generalize matchAll now uuid db n t = t
  split_ifs
  · exact .of_same rfl rfl
  · exact (keysExtended_cancelKind t subscriberId .alert).trans (.of_same rfl rfl)
  · exact (keysExtended_cancelKind t subscriberId .recap).trans (.of_same rfl rfl)
  · exact ((keysExtended_cancelKind t subscriberId .alert).trans
      (keysExtended_cancelKind _ subscriberId .recap)).trans (.of_same rfl rfl)

/-- `uuid4` gives a test email a text that no other one has. -/
def SettingsRequest.NewKey (t : NotificationTables) (tokens : Tokens) : SettingsRequest → Prop
  | testProvider _ => .test tokens.testKey ∉ t.keys
  | _ => True

/-- The requests insert alerts, and a test email under its own key. -/
theorem keysExtended_request {request : SettingsRequest} {now : Time} {db : Db}
    (hkey : request.NewKey t tokens) (h : request.run env now db tokens t = .ok t') :
    t.KeysExtended t' := by
  cases request with
  | getSettings timezone who =>
    simp only [SettingsRequest.run, Raising.bind_eq_ok] at h
    obtain ⟨⟨row, user⟩, hrow, h⟩ := h
    cases h
    exact keysExtended_subscriber hrow
  | putSettings body who uuid =>
    simp only [SettingsRequest.run, putSettings, Raising.bind_eq_ok, check_eq_ok] at h
    obtain ⟨⟨row, user⟩, hrow, -, -, -, h⟩ := h
    cases h
    exact (keysExtended_subscriber hrow).trans (keysExtended_storeSettings ..)
  | putProvider keyCiphertext webhookCiphertext who version =>
    simp only [SettingsRequest.run, putProvider, Raising.bind_eq_ok] at h
    obtain ⟨⟨row, user⟩, hrow, h⟩ := h
    split at h <;> cases h
    exact ((keysExtended_subscriber hrow).trans (keysExtended_cancelPending row user.id)).trans
      (.of_same rfl rfl)
  | deleteProvider who version webhookId =>
    simp only [SettingsRequest.run, deleteProvider, Raising.bind_eq_ok] at h
    obtain ⟨⟨row, user⟩, hrow, h⟩ := h
    cases h
    exact ((keysExtended_subscriber hrow).trans (keysExtended_cancelPending row user.id)).trans
      (.of_same rfl rfl)
  | testProvider who =>
    simp only [SettingsRequest.run, testProvider, Raising.bind_eq_ok, check_eq_ok] at h
    obtain ⟨⟨row, user⟩, hrow, -, -, -, h⟩ := h
    cases h
    have hkeys := subscriber_keys hrow
    have hnew : .test tokens.testKey ∉ row.keys := hkeys ▸ hkey
    refine (keysExtended_subscriber hrow).trans ⟨⟨_, (addDelivery_keys _ _).symm⟩,
      fun hsound => ⟨?_, fun id occurrence halert => ?_⟩, fun id stop hrecap => ?_⟩
    · rw [addDelivery_keys, ← List.concat_eq_append]
      exact hsound.nodup.concat hnew
    · rw [addDelivery_keys] at halert
      exact hsound.alerts id occurrence (by simpa [newDelivery] using halert)
    · rw [addDelivery_keys] at hrecap
      simpa [newDelivery] using hrecap
  | unsubscribe token =>
    simp only [SettingsRequest.run, unsubscribe] at h
    split at h <;> cases h
    exact .of_same (updateDeliveries_keys fun _ => rfl) rfl

end settings

/-! ## Recaps -/

theorem recordRecap_keys (now : Time) (uuid : ℕ → Str) (db : Db) (user : Subscriber)
    (found : List JobMatch) (start stop : Time) (t : NotificationTables) :
    (recordRecap now uuid db user found start stop t).keys = t.keys ∨
      (recordRecap now uuid db user found start stop t).keys =
        t.keys ++ [.recap user.id stop] := by
  unfold recordRecap
  split_ifs
  · exact .inl rfl
  · split
    · exact .inr (addDelivery_keys t _)
    · exact .inl (updateDeliveries_keys fun _ => rfl)

variable (env) in
/-- A round inserts one recap at most, under the end of the window that it closes. -/
theorem makeRecap_keys (now : Time) (uuid : ℕ → Str) (db : Db) (t : NotificationTables)
    (user : Subscriber) :
    (makeRecap env now uuid db t user).keys = t.keys ∨
      ∃ stop, user.due env.zones now user = user.advanced env.zones stop ∧
        (∀ nextRecap, user.nextRecap = some nextRecap → nextRecap ≤ now → nextRecap ≤ stop) ∧
        (makeRecap env now uuid db t user).keys = t.keys ++ [.recap user.id stop] := by
  unfold makeRecap
  split
  next start nextRecap hstart hnext =>
    have hbounds : nextRecap ≤ now →
        nextRecap ≤ windowEnd env.zones user.timezone now nextRecap := fun h =>
      (windowEnd_bounds env.zones user.timezone h).1
    have hdue : user.due env.zones now user = user.advanced env.zones
        (windowEnd env.zones user.timezone now nextRecap) := by
      rw [Subscriber.due, hstart, hnext]
    generalize windowEnd env.zones user.timezone now nextRecap = stop at hbounds hdue ⊢
    have hclosed : (closeWindow env now uuid db user start stop t).keys =
        (recordRecap now uuid db user (windowMatches t user.id start stop) start stop t).keys :=
      updateDeliveries_keys fun _ => rfl
    rw [hclosed]
    refine (recordRecap_keys now uuid db user _ start stop t).imp_right fun hkeys =>
      ⟨stop, hdue, ?_, hkeys⟩
    intro later hlater
    obtain rfl : nextRecap = later := Option.some_inj.mp (hnext.symm.trans hlater)
    exact hbounds
  · exact .inl rfl

/-- The recaps of the subscribers `users` have ended before their next cutoffs. -/
def RecapsBefore (users : List Subscriber) (t : NotificationTables) : Prop :=
  ∀ user ∈ users, ∀ nextRecap, user.nextRecap = some nextRecap →
    ∀ stop, .recap user.id stop ∈ t.keys → stop < nextRecap

variable (env) in
/-- **The rounds insert no key that is present.** -/
theorem makeRecaps_loop_keys (now : Time) (uuid : ℕ → Str) (db : Db) (users : List Subscriber)
    (hids : (users.map (·.id)).Nodup) (hdue : ∀ user ∈ users, user.recapDue now = true)
    (hbefore : RecapsBefore users t) (hsound : t.KeysSound) :
    let t' := users.foldl (makeRecap env now uuid db) t
    t.keys <+: t'.keys ∧ t'.KeysSound ∧
      ∀ subscriberId stop, .recap subscriberId stop ∈ t'.keys →
        .recap subscriberId stop ∈ t.keys ∨ ∃ user ∈ users, user.id = subscriberId ∧
          user.due env.zones now user = user.advanced env.zones stop ∧
          ∃ nextRecap, user.nextRecap = some nextRecap ∧ nextRecap ≤ stop := by
  induction users generalizing t with
  | nil => exact ⟨List.prefix_refl _, hsound, fun _ _ h => .inl h⟩
  | cons user users ih =>
    rw [List.map_cons, List.nodup_cons] at hids
    have hmatched := (sameFeed_makeRecap env now uuid db t user).matched
    have hlater : ∀ later ∈ users, later.recapDue now = true := fun later hmem =>
      hdue later (List.mem_cons_of_mem _ hmem)
    have huser := hdue user List.mem_cons_self
    simp only [Subscriber.recapDue, Bool.and_eq_true, Option.any_eq_true,
      decide_eq_true_eq] at huser
    obtain ⟨-, nextRecap, hnext, hle⟩ := huser
    rcases makeRecap_keys env now uuid db t user with
      hkeys | ⟨stop, hadvanced, hlow, hkeys⟩
    · have hsame := KeysExtended.of_same hkeys hmatched
      obtain ⟨hkept, hsound', hrecaps⟩ := ih hids.2 hlater (fun later hmem n hn e he =>
        hbefore later (List.mem_cons_of_mem _ hmem) n hn e (hkeys ▸ he)) (hsame.sound hsound)
      refine ⟨hsame.kept.trans hkept, hsound', fun id e he => ?_⟩
      rcases hrecaps id e he with hold | ⟨later, hmem, hspec⟩
      · exact .inl (hkeys ▸ hold)
      · exact .inr ⟨later, List.mem_cons_of_mem _ hmem, hspec⟩
    · -- the recaps of the subscriber have ended before the window
      have hnew : .recap user.id stop ∉ t.keys := fun hold =>
        absurd (hlow nextRecap hnext hle)
          (not_le_of_gt (hbefore user List.mem_cons_self nextRecap hnext stop hold))
      have hround : (makeRecap env now uuid db t user).KeysSound := by
        refine ⟨?_, fun id occurrence hkey => ?_⟩
        · rw [hkeys, ← List.concat_eq_append]
          exact hsound.nodup.concat hnew
        · rw [hmatched]
          exact hsound.alerts id occurrence (by simpa [hkeys] using hkey)
      have hrest : RecapsBefore users (makeRecap env now uuid db t user) := by
        intro later hmem n hn e he
        rw [hkeys] at he
        rcases List.mem_append.mp he with hold | hnew
        · exact hbefore later (List.mem_cons_of_mem _ hmem) n hn e hold
        · obtain ⟨heq, -⟩ := DedupeKey.recap.inj (List.mem_singleton.mp hnew)
          exact absurd (heq ▸ List.mem_map_of_mem hmem) hids.1
      obtain ⟨hkept, hsound', hrecaps⟩ := ih hids.2 hlater hrest hround
      refine ⟨List.IsPrefix.trans ⟨_, hkeys.symm⟩ hkept, hsound', fun id e he => ?_⟩
      rcases hrecaps id e he with hold | ⟨later, hmem, hspec⟩
      · rw [hkeys] at hold
        rcases List.mem_append.mp hold with hold | hnew
        · exact .inl hold
        · obtain ⟨rfl, rfl⟩ := DedupeKey.recap.inj (List.mem_singleton.mp hnew)
          exact .inr ⟨user, List.mem_cons_self, rfl, hadvanced, nextRecap, hnext,
            hlow nextRecap hnext hle⟩
      · exact .inr ⟨later, List.mem_cons_of_mem _ hmem, hspec⟩

end JobPing
