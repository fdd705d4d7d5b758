import JobPing.SubscriberChanges

/-!
# The places of the shared account

At most ten subscribers may send through the shared account. Only `put_settings` turns emails on, and it
counts the places that the others take (`sharedFull`); `SubscriberStep.shares` says that nothing else
makes a subscriber take one.
-/

namespace JobPing

variable {cfg : Config} {S : Services} {env : NotificationEnv}

/-- Whether a subscriber takes a place of the shared account. -/
def Subscriber.shares (user : Subscriber) : Bool :=
  user.provider = .shared && !user.suppressed && (user.alerts || user.recap)

/-- The places of the shared account that are taken. -/
def NotificationTables.sharedPlaces (t : NotificationTables) : ℕ :=
  t.notificationSubscribers.countP (·.shares)

/-- The places that others than a subscriber take. -/
def NotificationTables.otherPlaces (t : NotificationTables) (id : Str) : ℕ :=
  t.notificationSubscribers.countP fun user => user.id ≠ id && user.shares

def NotificationStep.PutsSettings : NotificationStep → Prop
  | .settings (.putSettings _ _ _) _ => True
  | _ => False

variable {w : World} {step : NotificationStep} {t : NotificationTables} {user user' : Subscriber}

/-! ## Other steps -/

/-- A subscriber who has moved to another address has emails off. -/
theorem shares_current {who : Who} {tokens : Tokens}
    (h : (user.current who tokens).shares = true) : user.shares = true := by
  unfold Subscriber.current at h
  split_ifs at h
  · exact h
  · simp [Subscriber.shares, Subscriber.readdressed] at h

/-- Nothing but new settings makes a subscriber take a place. -/
theorem SubscriberStep.shares (h : SubscriberStep env w step user user')
    (hstep : ¬step.PutsSettings) (hshares : user'.shares = true) : user.shares = true := by
  cases h with
  | flagged verified status suppressed hsuppressed =>
    simp only [Subscriber.shares, Bool.and_eq_true, Bool.not_eq_true', decide_eq_true_eq,
      Bool.or_eq_true] at hshares ⊢
    obtain ⟨⟨hprovider, hsent⟩, henabled⟩ := hshares
    refine ⟨⟨hprovider, Bool.eq_false_iff.mpr fun hbefore => ?_⟩, henabled⟩
    rw [hsuppressed hbefore] at hsent
    cases hsent
  | advanced => exact hshares
  | unsubscribed => simp [Subscriber.shares, Subscriber.unsubscribed] at hshares
  | requested request tokens who hrequest =>
    subst hrequest
    cases request with
    | getSettings => exact shares_current hshares
    | putSettings => exact absurd trivial hstep
    | putProvider =>
      simp [SettingsRequest.assign, Subscriber.withProvider, Subscriber.shares] at hshares
    | deleteProvider =>
      simp [SettingsRequest.assign, Subscriber.withoutProvider, Subscriber.shares] at hshares
    | testProvider => exact shares_current hshares
    | unsubscribe =>
      simp [SettingsRequest.assign, Subscriber.unsubscribed, Subscriber.shares] at hshares

/-- A new subscriber has emails off. -/
theorem Subscriber.Before.row_of_shares (h : user.Before w) (hshares : user.shares = true) :
    user ∈ w.tables.notificationSubscribers := by
  cases h with
  | row hmem => exact hmem
  | inserted who timezone tokens huser =>
    rw [huser] at hshares
    simp [Subscriber.shares, newSubscriber] at hshares

/-- A step that changes no settings takes no places. -/
theorem exec_places_of_not (hstep : ¬step.PutsSettings) :
    (step.exec cfg S env w).tables.sharedPlaces ≤ w.tables.sharedPlaces := by
  refine Table.countP_le_of_keys (step.exec cfg S env w).unique.subscriberIds
    fun user' huser' hshares => ?_
  obtain ⟨user, hbefore, hchange⟩ := exec_subscribers w step user' huser'
  have huser := hchange.shares hstep hshares
  exact ⟨user, hbefore.row_of_shares huser, huser, hchange.id_eq.symm⟩

/-! ## Settings -/

/-- The places of the others, as `sharedFull` counts them. -/
theorem sharedFull_eq (t : NotificationTables) (user : Subscriber) :
    sharedFull t user = (user.provider = .shared && 10 ≤ t.otherPlaces user.id) := by
  unfold sharedFull NotificationTables.otherPlaces
  congr 3
  refine List.countP_congr fun other _ => ?_
  simp only [Subscriber.shares, Bool.and_eq_true]
  tauto

theorem withSettings_shares {now : Time} {body : Settings}
    (h : (user.withSettings env.zones now body).shares = true) :
    user.provider = .shared ∧ (body.alerts || body.recap) = true := by
  simp only [Subscriber.shares, Subscriber.withSettings, Bool.and_eq_true, decide_eq_true_eq] at h
  exact ⟨h.1.1, h.2⟩

section putSettings

variable {who : Who} {timezone : Str} {tokens : Tokens} {row t' : NotificationTables}

/-- The subscriber of a request has a row. -/
theorem mem_of_subscriber (h : subscriber who timezone tokens t = .ok (row, user)) :
    user ∈ row.notificationSubscribers := by
  simp only [subscriber, Raising.bind_eq_ok] at h
  obtain ⟨first, -, h⟩ := h
  split at h
  next hfound =>
    cases h
    exact List.mem_of_find?_eq_some hfound
  · cases h

/-- The others take no more places when a subscriber signs in. -/
theorem otherPlaces_signed_in (hunique : t.Unique)
    (hrow : (row.notificationSubscribers.map (·.id)).Nodup)
    (h : subscriber who timezone tokens t = .ok (row, user)) :
    row.otherPlaces user.id ≤ t.sharedPlaces := by
  obtain ⟨huid, hrows⟩ := subscriber_rows hunique h
  refine Table.countP_le_of_keys hrow fun user' huser' hother => ?_
  simp only [Bool.and_eq_true, decide_eq_true_eq] at hother
  obtain ⟨hid, hshares⟩ := hother
  obtain ⟨before, hbefore, rfl⟩ := hrows user' huser'
  rw [huid] at hid
  by_cases hsame : before.id = who.uid
  · rw [if_pos hsame, current_id] at hid
    exact absurd hsame hid
  · rw [if_neg hsame] at hshares ⊢
    rcases hbefore with hmem | ⟨hnew, -⟩
    · exact ⟨before, hmem, hshares, rfl⟩
    · exact absurd (by rw [hnew]; rfl) hsame

/-- New settings leave the others alone. -/
theorem otherPlaces_withSettings {f : Subscriber → Subscriber} {id : Str}
    (hf : ∀ user, (f user).id = user.id)
    (ht : t'.notificationSubscribers = row.notificationSubscribers.map fun user' =>
      if user'.id = id then f user' else user') : t'.otherPlaces id = row.otherPlaces id := by
  unfold NotificationTables.otherPlaces
  rw [ht, List.countP_map]
  refine List.countP_congr fun other _ => ?_
  rw [Function.comp_apply]
  by_cases hid : other.id = id
  · simp [hid, hf]
  · rw [if_neg hid]

/-- **`put_settings` keeps the places within ten.** -/
theorem putSettings_places {now : Time} {uuid : ℕ → Str} {db : Db} {body : Settings}
    (hunique : t.Unique) (hunique' : t'.Unique)
    (h : putSettings env now uuid db body who tokens t = .ok t') (hplaces : t.sharedPlaces ≤ 10) :
    t'.sharedPlaces ≤ 10 := by
  simp only [putSettings, Raising.bind_eq_ok, check_eq_ok] at h
  obtain ⟨⟨row, user⟩, hrow, -, -, hfull, h⟩ := h
  cases h
  have ht := storeSettings_subscribers env now uuid db body user.id row
  generalize storeSettings env now uuid db body user.id row = t' at hunique' ht ⊢
  have hids : (row.notificationSubscribers.map (·.id)).Nodup := by
    have hsame : t'.notificationSubscribers.map (·.id) =
        row.notificationSubscribers.map (·.id) := by
      rw [ht, List.map_map]
      refine List.map_congr_left fun other _ => ?_
      rw [Function.comp_apply]
      split_ifs <;> rfl
    exact hsame ▸ hunique'.subscriberIds
  have hothers := otherPlaces_withSettings (fun _ => by rfl) ht
  have hbefore := otherPlaces_signed_in hunique hids hrow
  by_cases hshares : ∃ user' ∈ t'.notificationSubscribers, user'.id = user.id ∧
      user'.shares = true
  · -- the subscriber takes a place, for which `sharedFull` has found room
    obtain ⟨user', huser', hid, hshares⟩ := hshares
    have hlt : row.otherPlaces user.id < 10 := by
      rw [ht] at huser'
      obtain ⟨found, hfound, rfl⟩ := List.mem_map.mp huser'
      have hfoundid : found.id = user.id := by
        split_ifs at hid
        · assumption
        · exact hid
      obtain rfl : found = user :=
        List.inj_on_of_nodup_map hids hfound (mem_of_subscriber hrow) hfoundid
      rw [if_pos rfl] at hshares
      obtain ⟨hprovider, henabled⟩ := withSettings_shares hshares
      rw [henabled, sharedFull_eq, hprovider] at hfull
      simpa using hfull
    have hall := Table.countP_le_succ (p := (·.shares)) hunique'.subscriberIds user.id
    have hcount : t'.sharedPlaces ≤ t'.otherPlaces user.id + 1 := hall
    omega
  · have hcount : t'.sharedPlaces = t'.otherPlaces user.id := by
      refine List.countP_congr fun user' huser' => ?_
      simp only [Bool.and_eq_true, decide_eq_true_eq]
      exact ⟨fun h => ⟨fun hid => hshares ⟨user', huser', hid, h⟩, h⟩, fun h => h.2⟩
    omega

end putSettings

/-! ## Runs -/

variable (cfg S env) in
/-- **A step keeps the places within ten.** -/
theorem exec_places (w : World) (step : NotificationStep) (h : w.tables.sharedPlaces ≤ 10) :
    (step.exec cfg S env w).tables.sharedPlaces ≤ 10 := by
  by_cases hstep : step.PutsSettings
  · obtain ⟨body, who, uuid, tokens, rfl⟩ : ∃ body who uuid tokens,
        step = .settings (.putSettings body who uuid) tokens := by
      unfold NotificationStep.PutsSettings at hstep
      split at hstep
      · exact ⟨_, _, _, _, rfl⟩
      · exact hstep.elim
    simp only [NotificationStep.exec]
    split_ifs
    · split
      · exact h
      next t heq =>
        unfold World.commit
        split_ifs with hunique
        · exact putSettings_places w.unique hunique heq h
        · exact h
    · exact h
  · exact (exec_places_of_not hstep).trans h

variable (cfg S env) in
/-- **At most ten subscribers take a place of the shared account**, in any state of any run. -/
theorem shared_capacity (steps : List NotificationStep) :
    (World.empty.run cfg S env steps).tables.notificationSubscribers.countP (fun user =>
      user.provider = .shared && !user.suppressed && (user.alerts || user.recap)) ≤ 10 := by
  have hplaces : (World.empty.run cfg S env steps).tables.sharedPlaces ≤ 10 := by
    induction steps using List.reverseRecOn with
    | nil => exact Nat.zero_le 10
    | append_singleton steps step ih =>
      rw [World.run_concat]
      exact exec_places cfg S env _ step ih
  exact hplaces

end JobPing
