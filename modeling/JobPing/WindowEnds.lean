import JobPing.BounceReports
import JobPing.ClaimedRequests
import JobPing.DedupeKeys

/-!
# The ends of the windows

`World.closings` is the list of the windows that a run closes. `KeyBook` relates it to the keys of the
deliveries: a recap has the end of a closed window in its key, and the next recap of a subscriber is
later than all ends of its windows. So no insertion finds its key taken (`dedupe_keys_never_collide`).
-/

namespace JobPing

variable {cfg : Config} {S : Services} {env : NotificationEnv}

/-! ## Closed windows -/

/-- The windows that a step closes: `prepare` moves the rows of their subscribers to new windows. -/
def NotificationStep.closings (cfg : Config) (S : Services) (env : NotificationEnv) (w : World)
    (step : NotificationStep) : List (Str × Time) :=
  match step with
  | .prepare _ _ _ => (step.exec cfg S env w).tables.notificationSubscribers.filterMap fun user =>
      if user ∈ w.tables.notificationSubscribers then none
      else user.windowStart.map fun windowEnd => (user.id, windowEnd)
  | _ => []

/-- The subscribers and the ends of the windows that a run closes. -/
def World.closings (cfg : Config) (S : Services) (env : NotificationEnv) (w : World)
    (steps : List NotificationStep) : List (Str × Time) :=
  w.log cfg S env (fun w step => step.closings cfg S env w) steps

/-- The tables that the transaction of a step wants to commit, if it may insert deliveries. -/
def NotificationStep.proposal (cfg : Config) (S : Services) (env : NotificationEnv) (w : World)
    (step : NotificationStep) : Option NotificationTables :=
  match step with
  | .prepare now between uuid =>
    let w' := between.foldl (fun w (call, reading) => w.ingest cfg S call reading) w
    let events := w'.tables.notificationEvents.drop w.tables.notificationEvents.length
    some (makeRecaps env now uuid w'.db ((matchEvents now uuid w.db w.tables).addEvents events))
  | .settings request tokens => (request.run env w.clock w.db tokens w.tables).toOption
  | _ => none

/-- The keys and the windows at the end of a run. -/
structure KeyBook (closings : List (Str × Time)) (w : World) : Prop where
  sound : w.tables.KeysSound
  keyed : ∀ item ∈ w.tables.notificationDeliveries, item.Keyed
  recaps : ∀ subscriberId stop, .recap subscriberId stop ∈ w.tables.keys →
    (subscriberId, stop) ∈ closings
  ended : ∀ closing ∈ closings, closing.2 ≤ w.clock ∧
    ∀ user ∈ w.tables.notificationSubscribers, user.id = closing.1 →
      ∀ nextRecap, user.nextRecap = some nextRecap → closing.2 < nextRecap
  increasing : closings.Pairwise fun a b => a.1 = b.1 → a.2 < b.2

variable {w : World} {step : NotificationStep} {closings : List (Str × Time)}
  {t t' : NotificationTables} {user user' : Subscriber}

/-! ## Other steps -/

variable (cfg S env) in
/-- The clock does not go back. -/
theorem clock_le_exec (w : World) (step : NotificationStep) :
    w.clock ≤ (step.exec cfg S env w).clock := by
  have hcommit : ∀ (w : World) (t : NotificationTables), (w.commit t).clock = w.clock :=
    fun w t => by
      unfold World.commit
      split_ifs <;> rfl
  cases step with
  | tick time => exact le_max_left _ _
  | ingest | crash => exact le_refl _
  | prepare now between uuid =>
    simp only [NotificationStep.exec]
    split_ifs
    · obtain ⟨w', events, hprepare, -, hclock, -⟩ := World.prepare_frame cfg S env w now between uuid
      rw [hprepare, hcommit, hclock]
    · exact le_refl _
  | claim now verify => exact (hcommit w _).ge
  | accept send emailId =>
    simp only [NotificationStep.exec]
    split_ifs <;> exact le_refl _
  | writeBack send response =>
    simp only [NotificationStep.exec]
    split_ifs
    · exact (hcommit w _).ge
    · exact le_refl _
  | webhook call =>
    simp only [NotificationStep.exec]
    split
    · exact le_refl _
    · exact (hcommit w _).ge
  | settings request tokens =>
    simp only [NotificationStep.exec]
    split_ifs
    · split
      · exact le_refl _
      · exact (hcommit w _).ge
    · exact le_refl _

/-- A request leaves the next recap, turns it off, or sets it to the next cutoff after the clock. -/
theorem SubscriberStep.nextRecap (h : SubscriberStep env w step user user')
    (hstep : ¬step.IsPrepare) {nextRecap : Time} (hnext : user'.nextRecap = some nextRecap) :
    user.nextRecap = some nextRecap ∨ w.clock < nextRecap := by
  cases h with
  | flagged => exact .inl hnext
  | advanced _ _ hprepare => exact absurd hprepare hstep
  | unsubscribed => cases hnext
  | requested request tokens who =>
    have hcurrent : (user.current who tokens).nextRecap = some nextRecap →
        user.nextRecap = some nextRecap := by
      unfold Subscriber.current
      split_ifs
      · exact id
      · exact nofun
    cases request with
    | getSettings => exact .inl (hcurrent hnext)
    | putSettings body =>
      simp only [SettingsRequest.assign, Subscriber.withSettings] at hnext
      split_ifs at hnext
      · exact .inr (Option.some_inj.mp hnext ▸ lt_nextCutoff env.zones w.clock body.timezone)
      · exact .inl (hcurrent hnext)
    | putProvider => exact .inl (hcurrent hnext)
    | deleteProvider => cases hnext
    | testProvider => exact .inl (hcurrent hnext)
    | unsubscribe => cases hnext

/-- A step other than `prepare` keeps the ends of the windows before the next recaps. -/
theorem KeyBook.ended_of_ne (h : KeyBook closings w) (hstep : ¬step.IsPrepare) :
    ∀ closing ∈ closings, closing.2 ≤ (step.exec cfg S env w).clock ∧
      ∀ user ∈ (step.exec cfg S env w).tables.notificationSubscribers, user.id = closing.1 →
        ∀ nextRecap, user.nextRecap = some nextRecap → closing.2 < nextRecap := by
  intro closing hclosing
  obtain ⟨hclock, hrows⟩ := h.ended closing hclosing
  refine ⟨hclock.trans (clock_le_exec cfg S env w step), fun user' huser' hid nextRecap hnext => ?_⟩
  obtain ⟨user, hbefore, hchange⟩ := exec_subscribers w step user' huser'
  rcases hchange.nextRecap hstep hnext with hsame | hlater
  · cases hbefore with
    | row hmem => exact hrows user hmem (hchange.id_eq.symm.trans hid) nextRecap hsame
    | inserted who timezone tokens huser =>
      rw [huser] at hsame
      cases hsame
  · exact hclock.trans_lt hlater

/-- The deliveries have keys of their kinds. -/
theorem keyed_exec (h : ∀ item ∈ w.tables.notificationDeliveries, item.Keyed) :
    ∀ item ∈ (step.exec cfg S env w).tables.notificationDeliveries, item.Keyed := by
  intro item' hitem'
  obtain ⟨item, hbefore, hsteps⟩ := (exec_evolves cfg S env w step).of_mem hitem'
  have hfirst : item.Keyed := hbefore.elim (h item) Created.keyed
  clear hitem'
  induction hsteps with
  | refl => exact hfirst
  | tail _ hlast ih => exact hlast.keyed ih

/-- The test email of a request that commits has a new key. -/
theorem newKey_of_unique {request : SettingsRequest} {tokens : Tokens} {now : Time} {db : Db}
    (h : request.run env now db tokens t = .ok t') (hunique : t'.Unique) :
    request.NewKey t tokens := by
  cases request with
  | testProvider who =>
    simp only [SettingsRequest.run, testProvider, Raising.bind_eq_ok, check_eq_ok] at h
    obtain ⟨⟨row, user⟩, hrow, -, -, -, h⟩ := h
    cases h
    have hkeys := hunique.dedupe_keys
    change (NotificationTables.keys (row.addDelivery _)).Nodup at hkeys
    rw [NotificationTables.addDelivery_keys, subscriber_keys hrow, ← List.concat_eq_append,
      List.nodup_concat] at hkeys
    exact hkeys.1
  | _ => trivial

theorem keys_of_sameKeys (h : t.SameKeys t') : t'.keys = t.keys := by
  have hkeys := congrArg (List.map fun row : Str × DedupeKey × Str => row.2.1) h.deliveries
  rw [List.map_map, List.map_map] at hkeys
  exact hkeys

theorem keysExtended_of_sameKeys (h : t.SameKeys t') : t.KeysExtended t' :=
  .of_same (keys_of_sameKeys h) h.matched

theorem keysExtended_commit {w' : World} (hsame : w.tables.KeysExtended w'.tables)
    (h : t.Unique → w.tables.KeysExtended t) : w.tables.KeysExtended (w'.commit t).tables := by
  unfold World.commit
  split_ifs with hunique
  · exact h hunique
  · exact hsame

theorem webhook_sameKeys {call : WebhookCall} {status : WebhookStatus}
    (h : webhook env w.tables call = .ok (status, t)) : w.tables.SameKeys t := by
  obtain ⟨account, -, h⟩ := webhook_eq_ok.mp h
  unfold webhookEvent at h
  split at h
  · cases h
    exact .refl _
  split at h
  · split at h <;> cases h
    exact .refl _
  next item _ =>
    cases h
    have hkeys := applyEvent_sameKeys { w.tables with
      notificationWebhooks := w.tables.notificationWebhooks ++ [call.eventId] } item call.type
    exact ⟨hkeys.subscribers, hkeys.matched, hkeys.deliveries⟩

/-- Only `prepare` inserts recaps. -/
theorem keysExtended_exec (hstep : ¬step.IsPrepare) :
    w.tables.KeysExtended (step.exec cfg S env w).tables := by
  cases step with
  | tick | ingest | crash => exact .of_same rfl rfl
  | prepare => exact absurd trivial hstep
  | claim now verify =>
    rw [(exec_claim cfg S env w now verify).1]
    exact keysExtended_of_sameKeys (claimItems_sameKeys env w.db verify now w.tables _)
  | accept send emailId =>
    simp only [NotificationStep.exec]
    split_ifs <;> exact .refl _
  | writeBack send response =>
    simp only [NotificationStep.exec]
    split_ifs
    · exact keysExtended_commit (.refl _) fun _ =>
        keysExtended_of_sameKeys (writeBack_sameKeys send response w.tables)
    · exact .refl _
  | webhook call =>
    simp only [NotificationStep.exec]
    split
    · exact .refl _
    next heq => exact keysExtended_commit (.refl _) fun _ =>
        keysExtended_of_sameKeys (webhook_sameKeys heq)
  | settings request tokens =>
    simp only [NotificationStep.exec]
    split_ifs
    · split
      · exact .refl _
      next heq =>
        exact keysExtended_commit (.refl _) fun hunique =>
          keysExtended_request (newKey_of_unique heq hunique) heq
    · exact .refl _

variable (cfg S env) in
theorem KeyBook.exec_of_ne (h : KeyBook closings w) (hstep : ¬step.IsPrepare) :
    KeyBook closings (step.exec cfg S env w) where
  sound := (keysExtended_exec hstep).sound h.sound
  keyed := keyed_exec h.keyed
  recaps subscriberId stop hkey :=
    h.recaps subscriberId stop ((keysExtended_exec hstep).recaps subscriberId stop hkey)
  ended := h.ended_of_ne hstep
  increasing := h.increasing

/-! ## Windows -/

variable (cfg S env) in
/-- The rows after `prepare`. -/
theorem prepare_rows (w : World) (now : Time) (between : List (Call × Time)) (uuid : ℕ → Str) :
    ((NotificationStep.prepare now between uuid).exec cfg S env w).tables.notificationSubscribers =
        w.tables.notificationSubscribers ∨
      now ≤ w.clock ∧ ∃ drained : Bool, ((NotificationStep.prepare now between uuid).exec cfg S env
        w).tables.notificationSubscribers = w.tables.notificationSubscribers.map fun user =>
          if user.recapDue now && drained then user.due env.zones now user else user := by
  simp only [NotificationStep.exec]
  split_ifs with hnow
  · obtain ⟨w', events, hprepare, htables, -⟩ := World.prepare_frame cfg S env w now between uuid
    have hsame : ((matchEvents now uuid w.db w.tables).addEvents events).notificationSubscribers =
        w.tables.notificationSubscribers :=
      (matchedFrom_matchEvents now uuid w.db w.tables).subscribers
    rw [hprepare]
    unfold World.commit
    split_ifs
    · refine .inr ⟨hnow, ((matchEvents now uuid w.db w.tables).addEvents
        events).notificationEvents.all (·.processed), ?_⟩
      rw [makeRecaps_rows env now uuid w'.db (hsame ▸ w.unique.subscriberIds), hsame]
    · exact .inl (by rw [htables]; rfl)
  · exact .inl rfl

/-- A row after `prepare` is one from before it, or has moved to a later window. -/
theorem moved_of_prepare (hstep : step.IsPrepare)
    (huser : user' ∈ (step.exec cfg S env w).tables.notificationSubscribers) :
    user' ∈ w.tables.notificationSubscribers ∨
      ∃ user ∈ w.tables.notificationSubscribers, ∃ nextRecap stop,
        user.nextRecap = some nextRecap ∧ nextRecap ≤ stop ∧ stop ≤ w.clock ∧
          user' = user.advanced env.zones stop := by
  obtain ⟨now, between, uuid, rfl⟩ : ∃ now between uuid, step = .prepare now between uuid := by
    cases step with
    | prepare now between uuid => exact ⟨now, between, uuid, rfl⟩
    | _ => exact hstep.elim
  rcases prepare_rows cfg S env w now between uuid with hsame | ⟨hnow, drained, hrows⟩
  · exact .inl (hsame ▸ huser)
  · rw [hrows] at huser
    obtain ⟨user, hmem, rfl⟩ := List.mem_map.mp huser
    split_ifs with hdue
    · rcases due_advanced (Bool.and_eq_true_iff.mp hdue).1 with
        hkept | ⟨nextRecap, stop, hnext, hlow, hhigh, hadvanced⟩
      · rw [hkept]
        exact .inl hmem
      · exact .inr ⟨user, hmem, nextRecap, stop, hnext, hlow, hhigh.trans hnow, hadvanced⟩
    · exact .inl hmem

/-- A row that `prepare` has moved is in the list. -/
theorem closing_of_moved (hstep : step.IsPrepare) {stop : Time}
    (huser : user' ∈ (step.exec cfg S env w).tables.notificationSubscribers)
    (hnew : user' ∉ w.tables.notificationSubscribers) (hstart : user'.windowStart = some stop) :
    (user'.id, stop) ∈ step.closings cfg S env w := by
  cases step with
  | prepare now between uuid =>
    refine List.mem_filterMap.mpr ⟨user', huser, ?_⟩
    rw [if_neg hnew, hstart]
    rfl
  | _ => exact hstep.elim

/-- The closed windows are those of rows that have moved. -/
theorem mem_closings {closing : Str × Time} (h : closing ∈ step.closings cfg S env w) :
    ∃ user ∈ w.tables.notificationSubscribers, user.id = closing.1 ∧
      (∃ nextRecap, user.nextRecap = some nextRecap ∧ nextRecap ≤ closing.2) ∧
      closing.2 ≤ w.clock ∧
      user.advanced env.zones closing.2 ∈
        (step.exec cfg S env w).tables.notificationSubscribers := by
  have hprepare : step.IsPrepare := by
    cases step with
    | prepare => trivial
    | _ => cases h
  cases step with
  | prepare now between uuid =>
    obtain ⟨user', huser', hclosing⟩ := List.mem_filterMap.mp h
    split_ifs at hclosing with hmem
    obtain ⟨stop, hstop, rfl⟩ := Option.map_eq_some_iff.mp hclosing
    obtain ⟨user, huser, nextRecap, later, hnext, hlow, hhigh, rfl⟩ :=
      (moved_of_prepare hprepare huser').resolve_left hmem
    obtain rfl : later = stop := Option.some_inj.mp hstop
    exact ⟨user, huser, rfl, ⟨nextRecap, hnext, hlow⟩, hhigh, huser'⟩
  | _ => exact hprepare.elim

/-- The windows of one step belong to different subscribers. -/
theorem closings_pairwise (w : World) (step : NotificationStep) :
    (step.closings cfg S env w).Pairwise fun a b => a.1 = b.1 → a.2 < b.2 := by
  unfold NotificationStep.closings
  split
  next now between uuid =>
    have hids := List.pairwise_map.mp (((NotificationStep.prepare now between uuid).exec cfg S env
      w).unique.subscriberIds)
    refine List.Pairwise.filterMap _ (fun user other hne a ha b hb heq => absurd ?_ hne) hids
    split_ifs at ha hb
    obtain ⟨_, -, rfl⟩ := Option.map_eq_some_iff.mp ha
    obtain ⟨_, -, rfl⟩ := Option.map_eq_some_iff.mp hb
    exact heq
  · exact .nil

/-! ## `prepare` -/

variable (env) in
/-- **The transaction of `prepare` inserts no key that is present.** -/
theorem KeyBook.prepared (h : KeyBook closings w) (now : Time) (uuid : ℕ → Str) (db : Db)
    (events : List NotificationEvent) :
    let matched := (matchEvents now uuid w.db w.tables).addEvents events
    let t := makeRecaps env now uuid db matched
    w.tables.keys <+: t.keys ∧ t.KeysSound ∧
      ∀ subscriberId stop, .recap subscriberId stop ∈ t.keys →
        .recap subscriberId stop ∈ w.tables.keys ∨
        ∃ user ∈ w.tables.notificationSubscribers, user.id = subscriberId ∧
          user.advanced env.zones stop ∈ t.notificationSubscribers ∧
          ∃ nextRecap, user.nextRecap = some nextRecap ∧ nextRecap ≤ stop := by
  dsimp only
  have hmatched : w.tables.KeysExtended ((matchEvents now uuid w.db w.tables).addEvents events) :=
    (keysExtended_matchEvents now uuid w.db w.tables).trans (.of_same rfl rfl)
  have hsubscribers : ((matchEvents now uuid w.db w.tables).addEvents
      events).notificationSubscribers = w.tables.notificationSubscribers :=
    (matchedFrom_matchEvents now uuid w.db w.tables).subscribers
  generalize (matchEvents now uuid w.db w.tables).addEvents events = matched
    at hmatched hsubscribers ⊢
  have hids : (matched.notificationSubscribers.map (·.id)).Nodup :=
    hsubscribers ▸ w.unique.subscriberIds
  have hrows := makeRecaps_rows env now uuid db hids
  have hloop := makeRecaps_eq env now uuid db matched
  by_cases hdrained : matched.notificationEvents.all (·.processed) = true
  swap
  · rw [if_neg hdrained] at hloop
    rw [hloop]
    exact ⟨hmatched.kept, hmatched.sound h.sound,
      fun id stop hkey => .inl (hmatched.recaps id stop hkey)⟩
  · rw [if_pos hdrained] at hloop
    have hbefore : RecapsBefore (matched.notificationSubscribers.filter (·.recapDue now))
        matched := by
      intro user huser nextRecap hnext stop hkey
      have hclosing := h.recaps user.id stop (hmatched.recaps user.id stop hkey)
      exact (h.ended _ hclosing).2 user (hsubscribers ▸ List.mem_of_mem_filter huser) rfl
        nextRecap hnext
    obtain ⟨hkept, hsound, hrecaps⟩ := makeRecaps_loop_keys env now uuid db _
      ((List.filter_sublist.map _).nodup hids) (fun user huser => (List.mem_filter.mp huser).2)
      hbefore (hmatched.sound h.sound)
    rw [← hloop] at hkept hsound hrecaps
    refine ⟨hmatched.kept.trans hkept, hsound, fun id stop hkey => ?_⟩
    rcases hrecaps id stop hkey with hold | ⟨user, huser, hid, hadvanced, hnext⟩
    · exact .inl (hmatched.recaps id stop hold)
    · obtain ⟨hmem, hdue⟩ := List.mem_filter.mp huser
      refine .inr ⟨user, hsubscribers ▸ hmem, hid, ?_, hnext⟩
      rw [hrows]
      refine List.mem_map.mpr ⟨user, hmem, ?_⟩
      rw [hdue, hdrained, Bool.true_and, if_pos rfl, hadvanced]

/-- A row that has moved to a new window is not one from before. -/
theorem advanced_not_mem {stop nextRecap : Time}
    (huser : user ∈ w.tables.notificationSubscribers) (hnext : user.nextRecap = some nextRecap)
    (hlow : nextRecap ≤ stop) :
    user.advanced env.zones stop ∉ w.tables.notificationSubscribers := by
  intro hmem
  have hsame : user.advanced env.zones stop = user :=
    List.inj_on_of_nodup_map w.unique.subscriberIds hmem huser rfl
  have hlater := congrArg Subscriber.nextRecap hsame
  rw [hnext] at hlater
  have hlt := lt_nextCutoff env.zones stop user.timezone
  rw [Option.some_inj.mp hlater] at hlt
  exact absurd hlt (not_lt_of_ge hlow)

variable (cfg S env) in
/-- `prepare` commits what its two halves leave, or nothing but what ingestion has added. -/
theorem prepare_tables (w : World) (now : Time) (between : List (Call × Time)) (uuid : ℕ → Str) :
    (∃ events, ((NotificationStep.prepare now between uuid).exec cfg S env w).tables =
        w.tables.addEvents events) ∨
      ∃ db events, ((NotificationStep.prepare now between uuid).exec cfg S env w).tables =
        makeRecaps env now uuid db ((matchEvents now uuid w.db w.tables).addEvents events) := by
  simp only [NotificationStep.exec]
  split_ifs
  · obtain ⟨w', events, hprepare, htables, -⟩ := World.prepare_frame cfg S env w now between uuid
    rw [hprepare]
    unfold World.commit
    split_ifs
    · exact .inr ⟨w'.db, events, rfl⟩
    · exact .inl ⟨events, htables⟩
  · exact .inl ⟨[], by simp [NotificationTables.addEvents]⟩

/-- The windows after `prepare` have ended before the next recaps. -/
theorem KeyBook.ended_prepare (h : KeyBook closings w) (hstep : step.IsPrepare) :
    ∀ closing ∈ closings ++ step.closings cfg S env w,
      closing.2 ≤ (step.exec cfg S env w).clock ∧
      ∀ user ∈ (step.exec cfg S env w).tables.notificationSubscribers, user.id = closing.1 →
        ∀ nextRecap, user.nextRecap = some nextRecap → closing.2 < nextRecap := by
  have hclock := clock_le_exec cfg S env w step
  intro closing hclosing
  rcases List.mem_append.mp hclosing with hold | hnew
  · obtain ⟨hle, hrows⟩ := h.ended closing hold
    refine ⟨hle.trans hclock, fun user' huser' hid nextRecap hnext => ?_⟩
    rcases moved_of_prepare hstep huser' with hmem | ⟨user, hmem, before, stop, hbefore, hlow, -, rfl⟩
    · exact hrows user' hmem hid nextRecap hnext
    · have hstop := (hrows user hmem hid before hbefore).trans_le hlow
      exact hstop.trans (Option.some_inj.mp hnext ▸ lt_nextCutoff env.zones stop user.timezone)
  · obtain ⟨user, -, hid, -, hle, hadvanced⟩ := mem_closings hnew
    refine ⟨hle.trans hclock, fun user' huser' hid' nextRecap hnext => ?_⟩
    obtain rfl : user' = user.advanced env.zones closing.2 :=
      List.inj_on_of_nodup_map (step.exec cfg S env w).unique.subscriberIds huser' hadvanced
        (hid'.trans hid.symm)
    exact Option.some_inj.mp hnext ▸ lt_nextCutoff env.zones closing.2 user.timezone

variable (cfg S env) in
theorem KeyBook.exec_prepare (h : KeyBook closings w) (now : Time) (between : List (Call × Time))
    (uuid : ℕ → Str) :
    KeyBook (closings ++ (NotificationStep.prepare now between uuid).closings cfg S env w)
      ((NotificationStep.prepare now between uuid).exec cfg S env w) := by
  have hstep : (NotificationStep.prepare now between uuid).IsPrepare := trivial
  have hkeys : ((NotificationStep.prepare now between uuid).exec cfg S env w).tables.KeysSound ∧
      ∀ subscriberId stop, .recap subscriberId stop ∈
          ((NotificationStep.prepare now between uuid).exec cfg S env w).tables.keys →
        (subscriberId, stop) ∈
          closings ++ (NotificationStep.prepare now between uuid).closings cfg S env w := by
    rcases prepare_tables cfg S env w now between uuid with ⟨events, hsame⟩ | ⟨db, events, htables⟩
    · have hextended : w.tables.KeysExtended (w.tables.addEvents events) := .of_same rfl rfl
      rw [hsame]
      exact ⟨hextended.sound h.sound, fun id stop hkey =>
        List.mem_append_left _ (h.recaps id stop (hextended.recaps id stop hkey))⟩
    · obtain ⟨-, hsound, hrecaps⟩ := h.prepared env now uuid db events
      rw [← htables] at hsound hrecaps
      refine ⟨hsound, fun id stop hkey => ?_⟩
      rcases hrecaps id stop hkey with hold | ⟨user, huser, rfl, hadvanced, next, hnext, hlow⟩
      · exact List.mem_append_left _ (h.recaps id stop hold)
      · have hclosing : ((user.advanced env.zones stop).id, stop) ∈
            (NotificationStep.prepare now between uuid).closings cfg S env w :=
          closing_of_moved hstep hadvanced (advanced_not_mem huser hnext hlow) rfl
        exact List.mem_append_right _ hclosing
  refine ⟨hkeys.1, keyed_exec h.keyed, hkeys.2, h.ended_prepare hstep, ?_⟩
  refine List.pairwise_append.mpr ⟨h.increasing, closings_pairwise w _, fun a ha b hb hid => ?_⟩
  obtain ⟨user, huser, huserid, ⟨nextRecap, hnext, hlow⟩, -⟩ := mem_closings hb
  exact ((h.ended a ha).2 user huser (huserid.trans hid.symm) nextRecap hnext).trans_le hlow

variable (cfg S env) in
/-- **A step keeps the book** of the windows up to it. -/
theorem KeyBook.exec (h : KeyBook closings w) (step : NotificationStep) :
    KeyBook (closings ++ step.closings cfg S env w) (step.exec cfg S env w) := by
  cases step with
  | prepare now between uuid => exact h.exec_prepare cfg S env now between uuid
  | _ =>
    rw [show NotificationStep.closings cfg S env w _ = [] from rfl, List.append_nil]
    exact h.exec_of_ne cfg S env id

/-! ## Runs -/

variable (cfg S env) in
theorem keyBook_run (steps : List NotificationStep) :
    KeyBook (World.empty.closings cfg S env steps) (World.empty.run cfg S env steps) := by
  induction steps using List.reverseRecOn with
  | nil =>
    exact ⟨⟨List.nodup_nil, fun _ _ h => absurd h List.not_mem_nil⟩,
      fun _ h => absurd h List.not_mem_nil, fun _ _ h => absurd h List.not_mem_nil,
      fun _ h => absurd h List.not_mem_nil, .nil⟩
  | append_singleton steps step ih =>
    rw [World.closings, World.log_concat, World.run_concat]
    exact ih.exec cfg S env step

theorem run_of_proposal {request : SettingsRequest} {tokens : Tokens}
    (h : (NotificationStep.settings request tokens).proposal cfg S env w = some t) :
    request.run env w.clock w.db tokens w.tables = .ok t := by
  change (request.run env w.clock w.db tokens w.tables).toOption = some t at h
  cases hrun : request.run env w.clock w.db tokens w.tables with
  | error e =>
    rw [hrun] at h
    cases h
  | ok t' =>
    rw [hrun] at h
    rw [Option.some_inj.mp h]

/-- Deliveries are inserted by the proposals alone. -/
theorem exec_keys (w : World) (step : NotificationStep) :
    (step.exec cfg S env w).tables.keys = w.tables.keys ∨
      step.proposal cfg S env w = some (step.exec cfg S env w).tables := by
  cases step with
  | tick | ingest | crash => exact .inl rfl
  | prepare now between uuid =>
    simp only [NotificationStep.exec]
    split_ifs
    · obtain ⟨⟨events, htables⟩, -⟩ := between_frame cfg S w between
      unfold World.prepare World.commit
      dsimp only
      split_ifs
      · exact .inr rfl
      · left
        rw [htables]
        rfl
    · exact .inl rfl
  | claim now verify =>
    left
    rw [(exec_claim cfg S env w now verify).1]
    exact keys_of_sameKeys (claimItems_sameKeys env w.db verify now w.tables _)
  | accept send emailId =>
    left
    simp only [NotificationStep.exec]
    split_ifs <;> rfl
  | writeBack send response =>
    left
    by_cases h : send ∈ w.sends ∧ w.Answers send response
    · rw [exec_writeBack_tables h.1 h.2]
      exact keys_of_sameKeys (writeBack_sameKeys send response w.tables)
    · simp only [NotificationStep.exec]
      rw [if_neg h]
  | webhook call =>
    left
    simp only [NotificationStep.exec]
    split
    · rfl
    next heq =>
      have hsame := webhook_sameKeys heq
      rw [World.commit_tables (w.unique.of_sameKeys hsame)]
      exact keys_of_sameKeys hsame
  | settings request tokens =>
    simp only [NotificationStep.exec]
    split_ifs
    · split
      · exact .inl rfl
      next t heq =>
        unfold World.commit
        split_ifs
        · right
          change (request.run env w.clock w.db tokens w.tables).toOption = some t
          rw [heq]
          rfl
        · exact .inl rfl
    · exact .inl rfl

/-- `uuid4` gives the test email of a step a text that no other one has. -/
def NotificationStep.NewKey (w : World) : NotificationStep → Prop
  | .settings request tokens => request.NewKey w.tables tokens
  | _ => True

variable (cfg S env) in
/-- **No insertion of a delivery finds its key taken**: deliveries are inserted by the proposals of
transactions, which have the deliveries from before them, and no key twice. The ends of the windows
of a subscriber increase, every recap has one of them in its key, and an occurrence has one alert for
each subscriber. -/
theorem dedupe_keys_never_collide (steps : List NotificationStep) :
    let w := World.empty.run cfg S env steps
    (∀ step : NotificationStep, (step.exec cfg S env w).tables.keys = w.tables.keys ∨
      step.proposal cfg S env w = some (step.exec cfg S env w).tables) ∧
    (∀ (step : NotificationStep) (t : NotificationTables), step.NewKey w →
      step.proposal cfg S env w = some t → w.tables.keys <+: t.keys ∧ t.keys.Nodup) ∧
    (World.empty.closings cfg S env steps).Pairwise (fun a b => a.1 = b.1 → a.2 < b.2) ∧
    (∀ item ∈ w.tables.notificationDeliveries, item.kind = .recap → ∃ stop,
      item.dedupeKey = .recap item.subscriberId stop ∧
      (item.subscriberId, stop) ∈ World.empty.closings cfg S env steps) ∧
    ∀ a ∈ w.tables.notificationDeliveries, ∀ b ∈ w.tables.notificationDeliveries,
      a.kind = .alert → b.kind = .alert → a.subscriberId = b.subscriberId →
      a.occurrenceIds = b.occurrenceIds → a = b := by
  have h := keyBook_run cfg S env steps
  generalize World.empty.closings cfg S env steps = closings at h ⊢
  generalize World.empty.run cfg S env steps = w at h ⊢
  refine ⟨exec_keys w, fun step t hkey hproposal => ?_, h.increasing, fun item hitem hkind => ?_,
    fun a ha b hb hakind hbkind hid hoccurrences => ?_⟩
  · cases step with
    | prepare now between uuid =>
      obtain rfl := Option.some_inj.mp hproposal
      obtain ⟨hkept, hsound, -⟩ := h.prepared env now uuid _ _
      exact ⟨hkept, hsound.nodup⟩
    | settings request tokens =>
      have hextended := keysExtended_request hkey (run_of_proposal hproposal)
      exact ⟨hextended.kept, (hextended.sound h.sound).nodup⟩
    | _ => cases hproposal
  · obtain ⟨stop, hkey⟩ := (h.keyed item hitem).recap_key hkind
    refine ⟨stop, hkey, h.recaps item.subscriberId stop ?_⟩
    exact hkey ▸ List.mem_map_of_mem (f := EmailDelivery.dedupeKey) hitem
  · obtain ⟨occurrence, hakey, haids⟩ := (h.keyed a ha).alert_key hakind
    obtain ⟨other, hbkey, hbids⟩ := (h.keyed b hb).alert_key hbkind
    rw [haids, hbids, List.singleton_inj] at hoccurrences
    refine List.inj_on_of_nodup_map h.sound.nodup ha hb ?_
    rw [hakey, hbkey, hid, hoccurrences]

end JobPing
