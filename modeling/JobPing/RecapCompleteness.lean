import JobPing.RecapBook
import JobPing.SourceIdentity
import JobPing.WindowEnds

/-!
# Matches and recaps

A recap has the matches whose discovery lies in its window, and the windows follow the clock. The time of
a discovery is the one its source gives: an event that is committed after the window of its discovery has
been closed is matched, and is in no recap. `recap_complete` says that nothing else is missed, and that
nothing is in two recaps.
-/

namespace JobPing

variable {cfg : Config} {S : Services} {env : NotificationEnv}

/-! ## Open windows -/

/-- A subscriber with the recap on has an open window. -/
def Subscriber.WindowOpen (clock : Time) (user : Subscriber) : Prop :=
  user.recap = true → ∃ start nextRecap, user.windowStart = some start ∧
    user.nextRecap = some nextRecap ∧ start ≤ nextRecap ∧ start ≤ clock

variable {w : World} {step : NotificationStep} {t t' : NotificationTables} {user user' : Subscriber}
  {m : JobMatch} {id : Str}

theorem Subscriber.WindowOpen.mono {clock clock' : Time} (h : user.WindowOpen clock)
    (hclock : clock ≤ clock') : user.WindowOpen clock' := fun hrecap => by
  obtain ⟨start, nextRecap, hstart, hnext, hle, hpast⟩ := h hrecap
  exact ⟨start, nextRecap, hstart, hnext, hle, hpast.trans hclock⟩

theorem windowOpen_current {clock : Time} (who : Who) (tokens : Tokens)
    (h : user.WindowOpen clock) : (user.current who tokens).WindowOpen clock := by
  unfold Subscriber.current
  split_ifs
  · exact h
  · exact nofun

/-- New settings keep the window, or open one at the clock. -/
theorem windowOpen_withSettings {clock : Time} (body : Settings) (h : user.WindowOpen clock) :
    (user.withSettings env.zones clock body).WindowOpen clock := by
  intro hrecap
  have hbody : body.recap = true := hrecap
  have hnext := lt_nextCutoff env.zones clock body.timezone
  simp only [Subscriber.withSettings, hbody, Bool.not_true, Bool.false_eq_true, if_false,
    Bool.true_and]
  cases huser : user.recap with
  | false =>
    exact ⟨clock, nextCutoff env.zones clock body.timezone, by simp, by simp, hnext.le, le_refl _⟩
  | true =>
    obtain ⟨start, nextRecap, hstart, hold, hle, hpast⟩ := h huser
    simp only [Bool.not_true, Bool.false_eq_true, if_false]
    split_ifs
    · exact ⟨start, _, hstart, rfl, hpast.trans hnext.le, hpast⟩
    · exact ⟨start, nextRecap, hstart, hold, hle, hpast⟩

theorem SubscriberStep.windowOpen (h : SubscriberStep env w step user user')
    (huser : user.WindowOpen w.clock) : user'.WindowOpen w.clock := by
  cases h with
  | flagged => exact huser
  | advanced nextRecap stop _ _ _ hhigh =>
    exact fun _ => ⟨stop, _, rfl, rfl, (lt_nextCutoff env.zones stop user.timezone).le, hhigh⟩
  | unsubscribed => exact nofun
  | requested request tokens who =>
    have hcurrent := windowOpen_current who tokens huser
    cases request with
    | getSettings => exact hcurrent
    | putSettings body => exact windowOpen_withSettings body hcurrent
    | putProvider => exact hcurrent
    | deleteProvider => exact nofun
    | testProvider => exact hcurrent
    | unsubscribe => exact nofun

/-- All windows are open. -/
def World.WindowsOpen (w : World) : Prop :=
  ∀ user ∈ w.tables.notificationSubscribers, user.WindowOpen w.clock

variable (cfg S env) in
theorem World.WindowsOpen.exec (h : w.WindowsOpen) (step : NotificationStep) :
    (step.exec cfg S env w).WindowsOpen := by
  intro user' huser'
  obtain ⟨user, hbefore, hchange⟩ := exec_subscribers w step user' huser'
  have huser : user.WindowOpen w.clock := by
    cases hbefore with
    | row hmem => exact h user hmem
    | inserted who timezone tokens huser =>
      rw [huser]
      exact nofun
  exact (hchange.windowOpen huser).mono (clock_le_exec cfg S env w step)

/-! ## Matches -/

/-- The steps that match events. -/
def NotificationStep.MatchesEvents : NotificationStep → Prop
  | .prepare _ _ _ => True
  | .settings (.putSettings _ _ _) _ => True
  | _ => False

instance (step : NotificationStep) : Decidable step.MatchesEvents := by
  unfold NotificationStep.MatchesEvents
  split <;> infer_instance

/-- The matches of `t` are those of the state, and those of its events. -/
structure MatchesFrom (w : World) (t : NotificationTables) : Prop where
  kept : w.tables.notificationMatches ⊆ t.notificationMatches
  added : ∀ m ∈ t.notificationMatches, m ∈ w.tables.notificationMatches ∨
    ∃ e ∈ joinedEvents w.db w.tables, ∃ user ∈ w.tables.notificationSubscribers,
      user.wants e = true ∧ m = e.matched user

theorem matchesFrom_same (h : t.notificationMatches = w.tables.notificationMatches) :
    MatchesFrom w t := ⟨h ▸ List.Subset.refl _, fun _ hm => .inl (h ▸ hm)⟩

theorem matchesFrom_of_matched {db : Db} (hdb : db = w.db) (h : MatchedFrom db w.tables t) :
    MatchesFrom w t := by
  obtain ⟨added, heq, hadded⟩ := h.matched
  rw [hdb] at hadded
  refine ⟨heq ▸ List.subset_append_left _ _, fun m hm => ?_⟩
  rw [heq] at hm
  refine (List.mem_append.mp hm).imp_right fun hnew => ?_
  obtain ⟨e, he, user, huser, -, -, hwants, hm⟩ := hadded m hnew
  exact ⟨e, he, user, huser, hwants, hm⟩

/-- A subscriber who has moved to another address wants nothing. -/
theorem wants_current {who : Who} {tokens : Tokens} {e : JoinedEvent}
    (h : (user.current who tokens).wants e = true) : user.wants e = true := by
  unfold Subscriber.current at h
  split_ifs at h
  · exact h
  · simp [Subscriber.wants, Subscriber.readdressed] at h

theorem matchesFrom_putSettings {body : Settings} {who : Who} {uuid : ℕ → Str} {tokens : Tokens}
    (h : (SettingsRequest.putSettings body who uuid).run env w.clock w.db tokens w.tables = .ok t) :
    MatchesFrom w t := by
  obtain ⟨row, user, hrow, matched, hmatched, hsame⟩ := preferences_feed h
  have hfeed := sameFeed_subscriber hrow
  obtain ⟨-, hrows⟩ := subscriber_rows w.unique hrow
  obtain ⟨added, heq, hadded⟩ := hmatched.matched
  have hall : t.notificationMatches = w.tables.notificationMatches ++ added := by
    rw [hsame.matched, heq, hfeed.matched]
  refine ⟨hall ▸ List.subset_append_left _ _, fun m hm => ?_⟩
  rw [hall] at hm
  refine (List.mem_append.mp hm).imp_right fun hnew => ?_
  obtain ⟨e, he, user', huser', -, -, hwants, rfl⟩ := hadded m hnew
  have hjoined : joinedEvents w.db row = joinedEvents w.db w.tables := by
    rw [joinedEvents, joinedEvents, hfeed.events]
  obtain ⟨before, hbefore, rfl⟩ := hrows user' huser'
  have hold : before.wants e = true := by
    split_ifs at hwants
    · exact wants_current hwants
    · exact hwants
  refine ⟨e, hjoined ▸ he, before, ?_, hold, ?_⟩
  · refine hbefore.resolve_right fun hnew => ?_
    rw [hnew.1] at hold
    simp [Subscriber.wants, newSubscriber] at hold
  · unfold JoinedEvent.matched
    split_ifs
    · rw [current_id]
    · rfl

theorem matchesFrom_commit {w' : World}
    (hsame : w'.tables.notificationMatches = w.tables.notificationMatches)
    (h : MatchesFrom w t) : MatchesFrom w (w'.commit t).tables := by
  unfold World.commit
  split_ifs
  · exact h
  · exact matchesFrom_same hsame

/-- The matches of `prepare`. -/
theorem matchesFrom_prepare (now : Time) (uuid : ℕ → Str) (events : List NotificationEvent) :
    MatchesFrom w ((matchEvents now uuid w.db w.tables).addEvents events) := by
  have h := matchesFrom_of_matched rfl (matchedFrom_matchEvents now uuid w.db w.tables)
  exact ⟨h.kept, h.added⟩

variable (cfg S env) in
/-- **What a step matches.** -/
theorem exec_matches (w : World) (step : NotificationStep) :
    MatchesFrom w (step.exec cfg S env w).tables ∧ (¬step.MatchesEvents →
      (step.exec cfg S env w).tables.notificationMatches = w.tables.notificationMatches) := by
  cases step with
  | tick | ingest | crash => exact ⟨matchesFrom_same rfl, fun _ => rfl⟩
  | prepare now between uuid =>
    refine ⟨?_, fun hno => absurd trivial hno⟩
    rcases prepare_tables cfg S env w now between uuid with ⟨events, hsame⟩ | ⟨db, events, htables⟩
    · rw [hsame]
      exact matchesFrom_same rfl
    · have h := matchesFrom_prepare (w := w) now uuid events
      have hmatched := (sameFeed_makeRecaps env now uuid db
        ((matchEvents now uuid w.db w.tables).addEvents events)).matched
      rw [htables]
      exact ⟨hmatched ▸ h.kept, hmatched ▸ h.added⟩
  | claim now verify =>
    have hsame := (claimItems_sameKeys env w.db verify now w.tables
      (candidates now w.tables)).matched
    rw [(exec_claim cfg S env w now verify).1]
    exact ⟨matchesFrom_same hsame, fun _ => hsame⟩
  | accept send emailId =>
    simp only [NotificationStep.exec]
    split_ifs <;> exact ⟨matchesFrom_same rfl, fun _ => rfl⟩
  | writeBack send response =>
    by_cases h : send ∈ w.sends ∧ w.Answers send response
    · rw [exec_writeBack_tables h.1 h.2]
      have hsame := (writeBack_sameKeys send response w.tables).matched
      exact ⟨matchesFrom_same hsame, fun _ => hsame⟩
    · simp only [NotificationStep.exec]
      rw [if_neg h]
      exact ⟨matchesFrom_same rfl, fun _ => rfl⟩
  | webhook call =>
    simp only [NotificationStep.exec]
    split
    · exact ⟨matchesFrom_same rfl, fun _ => rfl⟩
    next heq =>
      have hsame := webhook_sameKeys heq
      rw [World.commit_tables (w.unique.of_sameKeys hsame)]
      exact ⟨matchesFrom_same hsame.matched, fun _ => hsame.matched⟩
  | settings request tokens =>
    simp only [NotificationStep.exec]
    split_ifs
    · split
      · exact ⟨matchesFrom_same rfl, fun _ => rfl⟩
      next t heq =>
        by_cases hpreferences : request.IsPreferences
        · cases request with
          | putSettings body who uuid =>
            exact ⟨matchesFrom_commit rfl (matchesFrom_putSettings heq),
              fun hno => absurd trivial hno⟩
          | _ => exact hpreferences.elim
        · have hsame := (sameFeed_request hpreferences heq).matched
          refine ⟨matchesFrom_commit rfl (matchesFrom_same hsame), fun _ => ?_⟩
          unfold World.commit
          split_ifs
          · exact hsame
          · rfl
    · exact ⟨matchesFrom_same rfl, fun _ => rfl⟩

/-! ## Unmatched occurrences -/

/-- A subscriber has no match for an occurrence. -/
def NotificationTables.Unmatched (t : NotificationTables) (subscriberId : Str)
    (occurrenceId : ℕ) : Prop :=
  ∀ m ∈ t.notificationMatches, m.subscriberId = subscriberId → m.occurrenceId ≠ occurrenceId

/-- An occurrence that a subscriber has no match for is in none of its recaps. -/
def World.RecapsMatched (w : World) : Prop :=
  ∀ subscriberId occurrenceId, w.tables.Unmatched subscriberId occurrenceId →
    recapCount w.tables subscriberId occurrenceId = 0

variable (cfg S env) in
theorem World.RecapsMatched.exec (h : w.RecapsMatched) (step : NotificationStep) :
    (step.exec cfg S env w).RecapsMatched := by
  intro subscriberId occurrenceId hunmatched
  have hbefore : w.tables.Unmatched subscriberId occurrenceId := fun m hm =>
    hunmatched m ((exec_matches cfg S env w step).1.kept hm)
  have hcount := h subscriberId occurrenceId hbefore
  cases step with
  | prepare now between uuid =>
    have hunique := ((NotificationStep.prepare now between uuid).exec cfg S env w).unique
    rcases prepare_tables cfg S env w now between uuid with ⟨events, hsame⟩ | ⟨db, events, htables⟩
    · rw [hsame]
      exact hcount
    · have hmatched := (sameFeed_makeRecaps env now uuid db
        ((matchEvents now uuid w.db w.tables).addEvents events)).matched
      rw [htables] at hunique hunmatched ⊢
      rw [makeRecaps_count_unmatched hunique.delivery_ids (fun m hm => hunmatched m
        (hmatched ▸ hm))]
      exact (matchedFrom_count (matchedFrom_matchEvents now uuid w.db w.tables)).trans hcount
  | _ => exact (exec_count id).trans hcount

/-! ## A period with the recap on -/

/-- A subscriber is verified, not suppressed, and has the recap on. -/
def World.StaysOn (id : Str) (w : World) : Prop :=
  ∃ user ∈ w.tables.notificationSubscribers, user.id = id ∧ user.verified = true ∧
    user.suppressed = false ∧ user.recap = true

instance (id : Str) (w : World) : Decidable (w.StaysOn id) := by
  unfold World.StaysOn
  infer_instance

/-- Whether an occurrence has a match for a subscriber. -/
def NotificationTables.hasMatch (t : NotificationTables) (id : Str) (occurrenceId : ℕ) : Bool :=
  t.notificationMatches.any fun m => m.subscriberId = id && m.occurrenceId = occurrenceId

/-- An event for a subscriber is still to be matched although the window of its discovery has been
closed. -/
def World.late (id : Str) (w : World) : Bool :=
  w.tables.notificationSubscribers.any fun user => user.id = id &&
    user.windowStart.any fun start => (joinedEvents w.db w.tables).any fun e =>
      user.wants e && !w.tables.hasMatch id e.occurrence.id && e.event.discoveredAt < start

/-- The step does not move a subscriber to another address, which turns its emails off. -/
def World.keepsAddress (id : Str) (w : World) : NotificationStep → Bool
  | .settings request _ => request.who.all fun who => who.uid ≠ id ||
      w.tables.notificationSubscribers.all fun user => user.id ≠ id || user.email = who.email
  | _ => true

/-- No late event is matched for a subscriber, and its address stays. -/
def World.Timely (id : Str) (w : World) (step : NotificationStep) : Prop :=
  (step.MatchesEvents → w.late id = false) ∧ w.keepsAddress id step = true

instance (id : Str) (w : World) (step : NotificationStep) : Decidable (w.Timely id step) := by
  unfold World.Timely
  infer_instance

/-- Every match of a subscriber that is not known before is in one recap if it was discovered before
its window, and in none otherwise. -/
def NotificationTables.RecapsComplete (known : List JobMatch) (id : Str) (t : NotificationTables) :
    Prop :=
  ∀ m ∈ t.notificationMatches, m ∉ known → m.subscriberId = id →
    ∀ user ∈ t.notificationSubscribers, user.id = id → ∀ start, user.windowStart = some start →
      recapCount t id m.occurrenceId = if m.discoveredAt < start then 1 else 0

variable {known : List JobMatch}

/-- A match is found by its key. -/
theorem match_unique (hkeys : (t.notificationMatches.map fun m =>
      (m.subscriberId, m.occurrenceId)).Nodup) {m' : JobMatch}
    (hm : m ∈ t.notificationMatches) (hm' : m' ∈ t.notificationMatches)
    (hid : m.subscriberId = m'.subscriberId) (hoccurrence : m.occurrenceId = m'.occurrenceId) :
    m = m' := List.inj_on_of_nodup_map hkeys hm hm' (Prod.ext hid hoccurrence)

/-- Matching events that are not late. -/
theorem complete_of_matched (h : w.tables.RecapsComplete known id) (hmatched : w.RecapsMatched)
    (hfrom : MatchesFrom w t)
    (hkeys : (t.notificationMatches.map fun m => (m.subscriberId, m.occurrenceId)).Nodup)
    (hcount : ∀ occurrenceId, recapCount t id occurrenceId =
      recapCount w.tables id occurrenceId)
    (hrows : ∀ user' ∈ t.notificationSubscribers, user'.id = id →
      ∃ user ∈ w.tables.notificationSubscribers, user.id = id ∧
        user'.windowStart = user.windowStart)
    (hlate : t.notificationMatches = w.tables.notificationMatches ∨ w.late id = false) :
    t.RecapsComplete known id := by
  intro m hm hnew hid user' huser' hid' start hstart
  obtain ⟨user, huser, huserid, hsame⟩ := hrows user' huser' hid'
  rw [hsame] at hstart
  rw [hcount]
  by_cases hold : m ∈ w.tables.notificationMatches
  · exact h m hold hnew hid user huser huserid start hstart
  · have hlate : w.late id = false := hlate.resolve_left fun hsame => hold (hsame ▸ hm)
    obtain ⟨e, he, owner, howner, hwants, rfl⟩ := (hfrom.added m hm).resolve_left hold
    obtain rfl : owner = user := List.inj_on_of_nodup_map w.unique.subscriberIds howner huser
      (hid.trans huserid.symm)
    have hunmatched : w.tables.Unmatched id (e.matched owner).occurrenceId :=
      fun other hother hsub hoccurrence => hold <| by
        rw [← match_unique hkeys (hfrom.kept hother) hm (hsub.trans hid.symm) hoccurrence]
        exact hother
    have htimely : ¬(e.matched owner).discoveredAt < start := fun hlt => by
      have hnone : w.tables.hasMatch id e.occurrence.id = false :=
        List.any_eq_false.mpr fun other hother heq => by
          simp only [Bool.and_eq_true, decide_eq_true_eq] at heq
          exact hunmatched other hother heq.1 heq.2
      refine absurd hlate (Bool.not_eq_false _ ▸ List.any_eq_true.mpr ⟨owner, howner, ?_⟩)
      rw [hstart, huserid, decide_eq_true rfl, Bool.true_and]
      refine List.any_eq_true.mpr ⟨e, he, ?_⟩
      rw [hwants, hnone, Bool.true_and, Bool.not_false, Bool.true_and]
      exact decide_eq_true hlt
    rw [if_neg htimely]
    exact hmatched id _ hunmatched

/-- A match is in a window when it was discovered in it. -/
theorem mem_windowMatches_iff (hkeys : (t.notificationMatches.map fun m =>
      (m.subscriberId, m.occurrenceId)).Nodup) (hm : m ∈ t.notificationMatches)
    (hid : m.subscriberId = id) {start stop : Time} :
    m.occurrenceId ∈ (windowMatches t id start stop).map (·.occurrenceId) ↔
      start ≤ m.discoveredAt ∧ m.discoveredAt < stop := by
  have hwindow (m' : JobMatch) : m' ∈ windowMatches t id start stop ↔
      m' ∈ t.notificationMatches ∧ m'.subscriberId = id ∧ start ≤ m'.discoveredAt ∧
        m'.discoveredAt < stop := by
    unfold windowMatches
    rw [List.mem_insertionSort, List.mem_filter]
    simp [and_assoc]
  constructor
  · intro h
    obtain ⟨m', hm', hoccurrence⟩ := List.mem_map.mp h
    obtain ⟨hmem, hid', hin⟩ := (hwindow m').mp hm'
    rwa [match_unique hkeys hm hmem (hid.trans hid'.symm) hoccurrence.symm]
  · exact fun h => List.mem_map_of_mem ((hwindow m).mpr ⟨hm, hid, h⟩)

/-- **Closing the windows** records their matches. -/
theorem complete_of_closed {now : Time} {uuid : ℕ → Str} {db : Db}
    (h : t.RecapsComplete known id)
    (hopen : ∀ user ∈ t.notificationSubscribers, user.WindowOpen w.clock)
    (hids : (t.notificationSubscribers.map (·.id)).Nodup)
    (hunique : (makeRecaps env now uuid db t).Unique) :
    (makeRecaps env now uuid db t).RecapsComplete known id := by
  have hmatched := (sameFeed_makeRecaps env now uuid db t).matched
  have hkeys := hunique.match_keys
  rw [hmatched] at hkeys
  have hrows := makeRecaps_rows env now uuid db hids
  have hloop := makeRecaps_eq env now uuid db t
  by_cases hdrained : t.notificationEvents.all (·.processed) = true
  swap
  · rw [if_neg hdrained] at hloop
    rwa [hloop]
  rw [if_pos hdrained] at hloop
  have hrowids := hunique.delivery_ids
  rw [hloop] at hrowids
  have hdueids : ((t.notificationSubscribers.filter (·.recapDue now)).map (·.id)).Nodup :=
    (List.filter_sublist.map _).nodup hids
  intro m hm hnew hid user' huser' hid' start' hstart'
  rw [hmatched] at hm
  rw [hrows] at huser'
  obtain ⟨user, huser, rfl⟩ := List.mem_map.mp huser'
  rw [hdrained, Bool.and_true] at hid' hstart'
  have howner : user.id = id := by
    split_ifs at hid'
    · rwa [due_id] at hid'
    · exact hid'
  rw [hloop]
  by_cases hdue : user.recapDue now = true
  · have hon := hdue
    simp only [Subscriber.recapDue, Bool.and_eq_true, Option.any_eq_true, decide_eq_true_eq] at hon
    obtain ⟨⟨⟨hrecap, -⟩, -⟩, nextRecap, hnext, hle⟩ := hon
    obtain ⟨start, next, hstart, hsame, horder, -⟩ := hopen user huser hrecap
    obtain rfl : nextRecap = next := Option.some_inj.mp (hnext.symm.trans hsame)
    obtain ⟨hlow, -, -⟩ := windowEnd_bounds env.zones user.timezone hle
    rw [if_pos hdue, Subscriber.due, hstart, hnext] at hstart'
    obtain rfl : windowEnd env.zones user.timezone now nextRecap = start' :=
      Option.some_inj.mp hstart'
    have hcount := h m hm hnew hid user huser howner start hstart
    have hiff : m.occurrenceId ∈ (windowMatches t user.id start
        (windowEnd env.zones user.timezone now nextRecap)).map (·.occurrenceId) ↔
        start ≤ m.discoveredAt ∧
          m.discoveredAt < windowEnd env.zones user.timezone now nextRecap :=
      mem_windowMatches_iff hkeys hm (hid.trans howner.symm)
    have hmem : user ∈ t.notificationSubscribers.filter (·.recapDue now) :=
      List.mem_filter.mpr ⟨huser, hdue⟩
    subst howner
    generalize hstop : windowEnd env.zones user.timezone now nextRecap = stop at *
    by_cases hin : start ≤ m.discoveredAt ∧ m.discoveredAt < stop
    · rw [if_pos hin.2]
      rw [if_neg (not_lt_of_ge hin.1)] at hcount
      exact makeRecaps_loop_found hstart hnext _ t hdueids hmem hrowids (hstop ▸ hiff.mpr hin) hcount
    · rw [makeRecaps_loop_count _ t hrowids fun other hother heq opened closed hopened hclosed
        hmem' => ?_]
      · rw [hcount]
        have hboth : m.discoveredAt < start ↔ m.discoveredAt < stop :=
          ⟨fun hlt => hlt.trans_le (horder.trans hlow), fun hlt => lt_of_not_ge fun hge => hin ⟨hge, hlt⟩⟩
        simp only [hboth]
      · obtain rfl := List.inj_on_of_nodup_map hids (List.mem_of_mem_filter hother) huser heq.symm
        obtain rfl := Option.some_inj.mp (hstart.symm.trans hopened)
        obtain rfl := Option.some_inj.mp (hnext.symm.trans hclosed)
        exact hin (hiff.mp (hstop ▸ hmem'))
  · rw [if_neg hdue] at hstart'
    rw [makeRecaps_loop_count _ t hrowids fun other hother heq _ _ _ _ _ => hdue ?_]
    · exact h m hm hnew hid user huser howner start' hstart'
    · rw [List.inj_on_of_nodup_map hids huser (List.mem_of_mem_filter hother) (howner.trans heq)]
      exact (List.mem_filter.mp hother).2

/-! ## Steps -/

/-- A request of the subscriber keeps its window while the recap stays on. -/
theorem SubscriberStep.windowStart_eq (h : SubscriberStep env w step user user')
    (huser : user ∈ w.tables.notificationSubscribers) (hprepare : ¬step.IsPrepare)
    (haddress : w.keepsAddress user.id step = true) (hrecap : user.recap = true)
    (hrecap' : user'.recap = true) : user'.windowStart = user.windowStart := by
  cases h with
  | flagged => rfl
  | advanced _ _ hstep => exact absurd hstep hprepare
  | unsubscribed => cases hrecap'
  | requested request tokens who hstep hwho hid =>
    have hemail : user.email = who.email := by
      rw [hstep, World.keepsAddress, hwho] at haddress
      simp only [Option.all_some, ← hid] at haddress
      have hall : (w.tables.notificationSubscribers.all fun other =>
          decide (other.id ≠ user.id) || decide (other.email = who.email)) = true := by
        simpa using haddress
      simpa using List.all_eq_true.mp hall user huser
    have hcurrent : user.current who tokens = { user with verified := who.verified } := by
      rw [Subscriber.current, if_pos hemail]
    rw [hcurrent] at hrecap' ⊢
    cases request with
    | putSettings body =>
      simp only [SettingsRequest.assign, Subscriber.withSettings, hrecap] at hrecap' ⊢
      simp
    | deleteProvider => cases hrecap'
    | unsubscribe => cases hrecap'
    | _ => rfl

/-- A `prepare` that matches in time keeps the recaps complete. -/
theorem complete_prepare (h : w.tables.RecapsComplete known id) (hopen : w.WindowsOpen)
    (hmatched : w.RecapsMatched) (hlate : w.late id = false) {now : Time} {uuid : ℕ → Str} {db : Db}
    {events : List NotificationEvent}
    (hunique : (makeRecaps env now uuid db
      ((matchEvents now uuid w.db w.tables).addEvents events)).Unique) :
    (makeRecaps env now uuid db
      ((matchEvents now uuid w.db w.tables).addEvents events)).RecapsComplete known id := by
  have hfrom := matchedFrom_matchEvents now uuid w.db w.tables
  have hsame := (sameFeed_makeRecaps env now uuid db
    ((matchEvents now uuid w.db w.tables).addEvents events)).matched
  have hkeys := hunique.match_keys
  rw [hsame] at hkeys
  have hrows : ((matchEvents now uuid w.db w.tables).addEvents events).notificationSubscribers =
      w.tables.notificationSubscribers := hfrom.subscribers
  have hcomplete : ((matchEvents now uuid w.db w.tables).addEvents events).RecapsComplete
      known id := by
    have hcount (occurrenceId : ℕ) :
        recapCount (matchEvents now uuid w.db w.tables) id occurrenceId =
          recapCount w.tables id occurrenceId := matchedFrom_count hfrom
    refine complete_of_matched h hmatched (matchesFrom_prepare now uuid events) hkeys hcount
      (fun user huser hid => ?_) (.inr hlate)
    rw [hrows] at huser
    exact ⟨user, huser, hid, rfl⟩
  refine complete_of_closed (w := w) hcomplete ?_ ?_ hunique
  · rw [hrows]
    exact hopen
  · rw [hrows]
    exact w.unique.subscriberIds

/-- A subscriber who is there was there before. -/
theorem World.StaysOn.row_before (hon : w.StaysOn id)
    (huser' : user' ∈ (step.exec cfg S env w).tables.notificationSubscribers)
    (hid : user'.id = id) :
    ∃ user ∈ w.tables.notificationSubscribers, user.id = id ∧ user.recap = true ∧
      SubscriberStep env w step user user' := by
  obtain ⟨owner, howner, hownerid, -, -, hrecap⟩ := hon
  obtain ⟨user, hbefore, hchange⟩ := exec_subscribers w step user' huser'
  have huserid : user.id = id := hchange.id_eq.symm.trans hid
  cases hbefore with
  | inserted who timezone tokens huser hversion hnone =>
    rw [huser] at huserid
    exact absurd (hownerid.trans huserid.symm) (hnone owner howner)
  | row hmem =>
    obtain rfl : user = owner := List.inj_on_of_nodup_map w.unique.subscriberIds hmem howner
      (huserid.trans hownerid.symm)
    exact ⟨user, hmem, huserid, hrecap, hchange⟩

theorem World.StaysOn.recapOn (hon : w.StaysOn id)
    (huser : user ∈ w.tables.notificationSubscribers) (hid : user.id = id) :
    user.recap = true := by
  obtain ⟨owner, howner, hownerid, -, -, hrecap⟩ := hon
  rwa [List.inj_on_of_nodup_map w.unique.subscriberIds huser howner (hid.trans hownerid.symm)]

variable (cfg S env) in
/-- **A timely step keeps the recaps complete.** -/
theorem complete_exec (h : w.tables.RecapsComplete known id) (hopen : w.WindowsOpen)
    (hmatched : w.RecapsMatched) (hon : w.StaysOn id)
    (hon' : (step.exec cfg S env w).StaysOn id) (htimely : w.Timely id step) :
    (step.exec cfg S env w).tables.RecapsComplete known id := by
  have hunique := (step.exec cfg S env w).unique
  obtain ⟨hfrom, hunmatched⟩ := exec_matches cfg S env w step
  by_cases hprepare : step.IsPrepare
  · cases step with
    | prepare now between uuid =>
      rcases prepare_tables cfg S env w now between uuid with ⟨events, hsame⟩ | ⟨db, events, hsame⟩
      · rw [hsame]
        exact h
      · rw [hsame] at hunique ⊢
        exact complete_prepare h hopen hmatched (htimely.1 trivial) hunique
    | _ => exact hprepare.elim
  · refine complete_of_matched h hmatched hfrom hunique.match_keys (fun _ => exec_count hprepare)
      (fun user' huser' hid => ?_) ?_
    · obtain ⟨user, huser, huserid, hrecap, hchange⟩ := hon.row_before huser' hid
      exact ⟨user, huser, huserid, hchange.windowStart_eq huser hprepare (huserid ▸ htimely.2)
        hrecap (hon'.recapOn huser' hid)⟩
    · by_cases hstep : step.MatchesEvents
      · exact .inr (htimely.1 hstep)
      · exact .inl (hunmatched hstep)

/-! ## Cutoffs -/

/-- The window of a subscriber starts at `cutoff` or later. -/
def World.ClosedAt (id : Str) (cutoff : Time) (w : World) : Prop :=
  ∀ user ∈ w.tables.notificationSubscribers, user.id = id →
    ∃ start, user.windowStart = some start ∧ cutoff ≤ start

/-- A `prepare` at or after `cutoff` that commits with no event left to match. -/
def World.drains (cfg : Config) (S : Services) (env : NotificationEnv) (cutoff : Time) (w : World)
    (step : NotificationStep) : Bool :=
  match step with
  | .prepare now _ _ => cutoff ≤ now && now ≤ w.clock && (step.proposal cfg S env w).any fun t =>
      t.Unique && t.notificationEvents.all (·.processed)
  | _ => false

/-- A `prepare` that drains closes the windows that end before it. -/
theorem closed_of_drains {cutoff : Time} (hopen : w.WindowsOpen) (hon : w.StaysOn id)
    (hcutoff : ∀ user ∈ w.tables.notificationSubscribers, user.id = id →
      user.nextRecap = some cutoff)
    (hdrains : w.drains cfg S env cutoff step = true) :
    (step.exec cfg S env w).ClosedAt id cutoff := by
  cases step with
  | prepare now between uuid =>
    simp only [World.drains, Bool.and_eq_true, decide_eq_true_eq, Option.any_eq_true] at hdrains
    obtain ⟨⟨hpast, hnow⟩, t, hproposal, hunique, hevents⟩ := hdrains
    have htables : ((NotificationStep.prepare now between uuid).exec cfg S env w).tables = t := by
      simp only [NotificationStep.exec]
      rw [if_pos hnow]
      obtain rfl := Option.some_inj.mp hproposal
      exact World.commit_tables hunique
    obtain ⟨db, events, rfl⟩ : ∃ db events, t = makeRecaps env now uuid db
        ((matchEvents now uuid w.db w.tables).addEvents events) :=
      ⟨_, _, (Option.some_inj.mp hproposal).symm⟩
    intro user' huser' hid
    rw [htables] at huser'
    have hfrom := matchedFrom_matchEvents now uuid w.db w.tables
    have hrows : ((matchEvents now uuid w.db w.tables).addEvents
        events).notificationSubscribers = w.tables.notificationSubscribers := hfrom.subscribers
    rw [(sameFeed_makeRecaps env now uuid db _).events] at hevents
    rw [makeRecaps_rows env now uuid db (hrows ▸ w.unique.subscriberIds), hrows,
      hevents] at huser'
    obtain ⟨user, huser, rfl⟩ := List.mem_map.mp huser'
    rw [Bool.and_true] at hid ⊢
    have hrow : user.id = id := by
      split_ifs at hid
      · rwa [due_id] at hid
      · exact hid
    obtain ⟨owner, howner, hownerid, hverified, hsuppressed, hrecap⟩ := hon
    obtain rfl : user = owner :=
      List.inj_on_of_nodup_map w.unique.subscriberIds huser howner (hrow.trans hownerid.symm)
    have hnext := hcutoff user huser hrow
    obtain ⟨start, _, hstart, -⟩ := hopen user huser hrecap
    have hdue : user.recapDue now = true := by
      simp [Subscriber.recapDue, hrecap, hverified, hsuppressed, hnext, hpast]
    rw [if_pos hdue, Subscriber.due, hstart, hnext]
    exact ⟨_, rfl, (windowEnd_bounds env.zones user.timezone hpast).1⟩
  | _ => cases hdrains

variable (cfg S env) in
/-- A window that has been closed stays so. -/
theorem World.ClosedAt.exec {cutoff : Time} (h : w.ClosedAt id cutoff) (hopen : w.WindowsOpen)
    (hon : w.StaysOn id) (hon' : (step.exec cfg S env w).StaysOn id)
    (haddress : w.keepsAddress id step = true) : (step.exec cfg S env w).ClosedAt id cutoff := by
  intro user' huser' hid
  obtain ⟨user, huser, huserid, hrecap, hchange⟩ := hon.row_before huser' hid
  obtain ⟨start, hstart, hle⟩ := h user huser huserid
  by_cases hprepare : step.IsPrepare
  · cases hchange with
    | advanced nextRecap stop _ hnext hlow =>
      obtain ⟨start', next, hstart', hnext', horder, -⟩ := hopen user huser hrecap
      obtain rfl := Option.some_inj.mp (hstart.symm.trans hstart')
      obtain rfl := Option.some_inj.mp (hnext.symm.trans hnext')
      exact ⟨stop, rfl, hle.trans (horder.trans hlow)⟩
    | flagged => exact ⟨start, hstart, hle⟩
    | unsubscribed => cases hon'.recapOn huser' hid
    | requested _ _ _ hstep =>
      rw [hstep] at hprepare
      exact hprepare.elim
  · exact ⟨start, (hchange.windowStart_eq huser hprepare (huserid ▸ haddress) hrecap
      (hon'.recapOn huser' hid)).trans hstart, hle⟩

/-! ## Runs -/

/-- A period in which a subscriber stays and every match is in time. -/
def World.Period (cfg : Config) (S : Services) (env : NotificationEnv) (id : Str) (w : World)
    (steps : List NotificationStep) : Prop :=
  w.Along cfg S env (fun w step => w.StaysOn id ∧ w.Timely id step) steps ∧
    (w.run cfg S env steps).StaysOn id

instance (id : Str) (w : World) (steps : List NotificationStep) :
    Decidable (w.Period cfg S env id steps) := by
  unfold World.Period
  infer_instance

variable {steps : List NotificationStep}

theorem World.Period.on (h : w.Period cfg S env id steps) : w.StaysOn id := by
  cases steps with
  | nil => exact h.2
  | cons step steps => exact h.1.1.1

theorem World.Period.tail (h : w.Period cfg S env id (step :: steps)) :
    (step.exec cfg S env w).Period cfg S env id steps := ⟨h.1.2, h.2⟩

theorem World.Period.append {steps' : List NotificationStep}
    (h : w.Period cfg S env id (steps ++ steps')) :
    w.Period cfg S env id steps ∧ (w.run cfg S env steps).Period cfg S env id steps' := by
  obtain ⟨halong, hend⟩ := h
  rw [World.along_append] at halong
  rw [World.run_append] at hend
  have hlater : (w.run cfg S env steps).Period cfg S env id steps' := ⟨halong.2, hend⟩
  exact ⟨⟨halong.1, hlater.on⟩, hlater⟩

/-- What a period keeps. -/
theorem World.Period.complete (h : w.Period cfg S env id steps)
    (hcomplete : w.tables.RecapsComplete known id) (hopen : w.WindowsOpen)
    (hmatched : w.RecapsMatched) :
    (w.run cfg S env steps).tables.RecapsComplete known id := by
  induction steps generalizing w with
  | nil => exact hcomplete
  | cons step steps ih =>
    have hnext := complete_exec cfg S env hcomplete hopen hmatched h.on h.tail.on h.1.1.2
    exact ih h.tail hnext (hopen.exec cfg S env step) (hmatched.exec cfg S env step)

theorem World.Period.closed {cutoff : Time} (h : w.Period cfg S env id steps)
    (hclosed : w.ClosedAt id cutoff) (hopen : w.WindowsOpen) :
    (w.run cfg S env steps).ClosedAt id cutoff := by
  induction steps generalizing w with
  | nil => exact hclosed
  | cons step steps ih =>
    have hnext := hclosed.exec cfg S env hopen h.on h.tail.on h.1.1.2.2
    exact ih h.tail hnext (hopen.exec cfg S env step)

variable (cfg S env) in
theorem windows_open (steps : List NotificationStep) :
    (World.empty.run cfg S env steps).WindowsOpen ∧
      (World.empty.run cfg S env steps).RecapsMatched := by
  induction steps using List.reverseRecOn with
  | nil => exact ⟨fun _ h => absurd h List.not_mem_nil, fun _ _ _ => rfl⟩
  | append_singleton steps step ih =>
    rw [World.run_concat]
    exact ⟨ih.1.exec cfg S env step, ih.2.exec cfg S env step⟩

/-- **The recaps are complete** in a period in which no match is late: a match of the period is in
exactly one recap if the window has passed its discovery, which a drained `prepare` after a cutoff
sees to, and in none before. -/
theorem recap_complete {before during : List NotificationStep} {id : Str}
    (h : (World.empty.run cfg S env before).Period cfg S env id during) :
    let w₀ := World.empty.run cfg S env before
    let w := w₀.run cfg S env during
    w.tables.RecapsComplete w₀.tables.notificationMatches id ∧
      ∀ first step rest cutoff, during = first ++ step :: rest →
        (∀ user ∈ (w₀.run cfg S env first).tables.notificationSubscribers, user.id = id →
          user.nextRecap = some cutoff) →
        (w₀.run cfg S env first).drains cfg S env cutoff step = true →
        ∀ m ∈ w.tables.notificationMatches, m ∉ w₀.tables.notificationMatches →
          m.subscriberId = id → m.discoveredAt < cutoff →
          recapCount w.tables id m.occurrenceId = 1 := by
  obtain ⟨hopen, hmatched⟩ := windows_open cfg S env before
  have hcomplete := h.complete (fun _ hm hnew => absurd hm hnew) hopen hmatched
  refine ⟨hcomplete, fun first step rest cutoff hsplit hcutoff hdrains m hm hnew hid hlt => ?_⟩
  subst hsplit
  obtain ⟨hfirst, hlater⟩ := h.append
  have hopen' : ((World.empty.run cfg S env before).run cfg S env first).WindowsOpen := by
    rw [← World.run_append]
    exact (windows_open cfg S env (before ++ first)).1
  have hclosed := hlater.tail.closed (closed_of_drains hopen' hlater.on hcutoff hdrains)
    (hopen'.exec cfg S env step)
  obtain ⟨user, huser, huserid, -⟩ := h.2
  rw [World.run_append] at huser hm hcomplete ⊢
  obtain ⟨start, hstart, hle⟩ := hclosed user huser huserid
  rw [hcomplete m hm hnew hid user huser huserid start hstart, if_pos (hlt.trans_le hle)]

/-- A subscriber turns the recap on. -/
def recapOn : List NotificationStep :=
  [.settings (.putSettings ⟨false, true, [.internship], [2026], "UTC".toList⟩ sampleWho
    fun _ => "alert".toList) (sampleTokens "v1")]

/-- A job that its source saw at ten is committed. -/
def committedAt (reading : Time) : List NotificationStep :=
  [.tick reading, .ingest (.save { sampleJob with observedAt := some (hours 10) }) reading]

def preparedAt (now : Time) (id : String) : List NotificationStep :=
  [.tick now, .prepare now [] fun _ => id.toList]

/-- The job of the morning is in the recap of the evening. -/
theorem evening_recap_complete :
    let w := (World.empty.run sampleConfig .ascii .plain recapOn).run sampleConfig .ascii .plain
      (committedAt (hours 12) ++ preparedAt (hours 21) "first")
    recapCount w.tables "ada".toList 1 = 1 := by
  have hcomplete := (@recap_complete sampleConfig .ascii .plain recapOn
    (committedAt (hours 12) ++ preparedAt (hours 21) "first") "ada".toList
    (by decide +kernel)).2 (committedAt (hours 12) ++ [.tick (hours 21)])
    (.prepare (hours 21) [] fun _ => "first".toList) [] (hours 20) rfl (by decide +kernel)
    (by decide +kernel)
  exact hcomplete ⟨"ada".toList, 1, 1, .discovered, hours 10⟩ (by decide +kernel) (by decide +kernel) rfl
    (by decide +kernel)

/-- **A match that is committed late is in no recap**, although the subscriber stays, and the windows
are drained after later cutoffs. -/
theorem late_match_missed :
    let steps := preparedAt (hours 21) "first" ++ committedAt (hours 22) ++
      preparedAt (hours 23) "second" ++ preparedAt (hours 48) "third"
    let w₀ := World.empty.run sampleConfig .ascii .plain recapOn
    let w := w₀.run sampleConfig .ascii .plain steps
    w₀.Along sampleConfig .ascii .plain (fun w _ => w.StaysOn "ada".toList) steps ∧
      w.StaysOn "ada".toList ∧
      (let w' := w₀.run sampleConfig .ascii .plain (steps.take 7)
      w'.tables.notificationSubscribers.map (·.nextRecap) = [some (hours 44)] ∧
        w'.drains sampleConfig .ascii .plain (hours 44)
          (.prepare (hours 48) [] fun _ => "third".toList) = true) ∧
      ∃ m ∈ w.tables.notificationMatches, m ∉ w₀.tables.notificationMatches ∧
        m.subscriberId = "ada".toList ∧ m.discoveredAt < hours 44 ∧
        recapCount w.tables "ada".toList m.occurrenceId = 0 := by
  decide +kernel

end JobPing
