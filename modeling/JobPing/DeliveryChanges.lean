import JobPing.NotificationRuns
import JobPing.Table
import Mathlib.Data.List.Infix

/-!
# What a step does to a delivery

Every step creates deliveries that have never been tried and changes others one assignment at a time:
`DeliveryStep` lists the assignments with what they find, and `exec_evolves` says that a step of the
system does nothing else. What never happens to a delivery in any run follows from the list alone.
-/

namespace JobPing

variable {cfg : Config} {S : Services} {env : NotificationEnv}

/-! ## Changes -/

def NotificationStep.IsPrepare : NotificationStep → Prop
  | .prepare _ _ _ => True
  | _ => False

/-- A claim at `now` gives a tried delivery up: its request may not be made again. -/
def EmailDelivery.GivenUp (verify : Str → Str → Option Bool) (now : Time) (item : EmailDelivery)
    (user : Subscriber) : Prop :=
  user.id = item.subscriberId ∧
    (user.suppressed = true ∨ user.verified = false ∨ item.kind = .alert ∧ user.alerts = false ∨
      item.kind = .recap ∧ user.recap = false ∨
      truthy item.connectionVersion = true ∧
        item.connectionVersion ≠ some user.connectionVersion ∨
      (∃ first, item.firstAttempt = some first ∧ hours 23 ≤ now - first) ∨
      verify user.id user.email = some false)

/-- One assignment of a step on a delivery. -/
inductive DeliveryStep (env : NotificationEnv) (w : World) (step : NotificationStep) :
    EmailDelivery → EmailDelivery → Prop
  | cancelled (item : EmailDelivery) (h : item.status = .pending) :
    DeliveryStep env w step item { item with status := .cancelled }
  | superseded (item : EmailDelivery) (h : item.status = .pending)
    (hfirst : item.firstAttempt = none) (hkind : item.kind = .alert) :
    DeliveryStep env w step item { item with status := .recapOnly }
  | caught_up (item : EmailDelivery) (db : Db) (found : List JobMatch) (stop now : Time)
    (h : item.status = .pending) (hfirst : item.firstAttempt = none) (hstep : step.IsPrepare)
    (hkind : item.kind = .recap) :
    DeliveryStep env w step item (item.catchUp db found stop now)
  | given_up (item : EmailDelivery) (status : DeliveryStatus) (errorCode : Option Str)
    (now : Time) (verify : Str → Str → Option Bool) (hstep : step = .claim now verify)
    (hitem : item ∈ w.tables.notificationDeliveries) (h : item.claimable now = true)
    (hstatus : status = .cancelled ∨ status = .reconcile ∨ status = .expired)
    (hreason : item.firstAttempt = none ∨
      ∃ user ∈ w.tables.notificationSubscribers, item.GivenUp verify now user) :
    DeliveryStep env w step item { item with status := status, errorCode := errorCode }
  | postponed (item : EmailDelivery) (errorCode : Str) (dueAt : Time) :
    DeliveryStep env w step item { item with errorCode := some errorCode, dueAt := dueAt }
  | claimed (item : EmailDelivery) (user : Subscriber) (body : Payload) (now : Time)
    (hitem : item ∈ w.tables.notificationDeliveries) (h : item.claimable now = true)
    (huser : user ∈ w.tables.notificationSubscribers)
    (hid : user.id = item.subscriberId)
    (hversion : truthy item.connectionVersion = true →
      item.connectionVersion = some user.connectionVersion)
    (hbody : ∀ frozen, item.payload = some frozen → frozen = body)
    (verify : Str → Str → Option Bool) (hstep : step = .claim now verify)
    (hrecipient : item.payload = none → body.recipients = [user.email]) :
    DeliveryStep env w step item (item.claimed user body now)
  | writtenBack (item : EmailDelivery) (send : Send) (response : Option Response)
    (hstep : step = .writeBack send response)
    (hitem : item ∈ w.tables.notificationDeliveries) (hid : item.id = send.deliveryId)
    (hsend : send ∈ w.sends) (hanswers : w.Answers send response) :
    DeliveryStep env w step item (item.writtenBack send.now response)
  | event (item found : EmailDelivery) (status : DeliveryStatus) (call : WebhookCall) (account : Str)
    (hstep : step = .webhook call) (hverified : call.Verified env w.tables account)
    (hfound : webhookDelivery w.tables account call = some found) (hid : item.id = found.id)
    (hstatus : status = .bounced ∨ status = .complained ∨ status = .delivered) :
    DeliveryStep env w step item { item with status := status }

/-- The key of a delivery is the one of its kind. -/
def EmailDelivery.Keyed (item : EmailDelivery) : Prop :=
  match item.dedupeKey with
  | .alert subscriberId occurrenceId => item.kind = .alert ∧ item.subscriberId = subscriberId ∧
      item.occurrenceIds = [occurrenceId]
  | .recap subscriberId _ => item.kind = .recap ∧ item.subscriberId = subscriberId
  | .test _ => item.kind = .test

theorem EmailDelivery.Keyed.recap_key {item : EmailDelivery} (h : item.Keyed)
    (hkind : item.kind = .recap) : ∃ stop, item.dedupeKey = .recap item.subscriberId stop := by
  unfold EmailDelivery.Keyed at h
  cases hkey : item.dedupeKey with
  | alert =>
    rw [hkey] at h
    cases hkind.symm.trans h.1
  | recap subscriberId stop =>
    rw [hkey] at h
    exact ⟨stop, by rw [h.2]⟩
  | test =>
    rw [hkey] at h
    cases hkind.symm.trans h

theorem EmailDelivery.Keyed.alert_key {item : EmailDelivery} (h : item.Keyed)
    (hkind : item.kind = .alert) : ∃ occurrenceId,
      item.dedupeKey = .alert item.subscriberId occurrenceId ∧
        item.occurrenceIds = [occurrenceId] := by
  unfold EmailDelivery.Keyed at h
  cases hkey : item.dedupeKey with
  | alert subscriberId occurrenceId =>
    rw [hkey] at h
    exact ⟨occurrenceId, by rw [h.2.1], h.2.2⟩
  | recap =>
    rw [hkey] at h
    cases hkind.symm.trans h.1
  | test =>
    rw [hkey] at h
    cases hkind.symm.trans h

/-- A delivery that a step creates. -/
structure Created (step : NotificationStep) (item : EmailDelivery) : Prop where
  status : item.status = .pending
  firstAttempt : item.firstAttempt = none
  payload : item.payload = none
  account : item.account = none
  connectionVersion : item.connectionVersion = none
  providerId : item.providerId = none
  recap : item.kind = .recap → step.IsPrepare
  keyed : item.Keyed

/-- The deliveries evolve by the assignments of the step. -/
abbrev DeliveriesEvolve (env : NotificationEnv) (w : World) (step : NotificationStep)
    (t t' : NotificationTables) : Prop :=
  Table.Evolves (DeliveryStep env w step) (Created step) t.notificationDeliveries
    t'.notificationDeliveries

variable {w : World} {step : NotificationStep} {t : NotificationTables}

theorem created_alert (step : NotificationStep) (user : Subscriber) {kind : DeliveryKind}
    (hkind : kind ≠ .recap) (key : DedupeKey) (ids : List ℕ) (now : Time)
    (occurrenceIds : List ℕ) (id : Str)
    (hkeyed : (newDelivery user kind key ids now occurrenceIds id).Keyed) :
    Created step (newDelivery user kind key ids now occurrenceIds id) :=
  ⟨rfl, rfl, rfl, rfl, rfl, rfl, fun h => absurd h hkind, hkeyed⟩

theorem DeliveryStep.id_eq {item item' : EmailDelivery}
    (h : DeliveryStep env w step item item') : item'.id = item.id := by
  cases h with
  | writtenBack send response =>
    obtain ⟨_, _, _, _, heq⟩ := writtenBack_frame _ item response
    rw [heq]
  | _ => rfl

theorem DeliveryStep.keyed {item item' : EmailDelivery} (h : DeliveryStep env w step item item')
    (hitem : item.Keyed) : item'.Keyed := by
  cases h with
  | caught_up db found stop now _ _ _ hkind =>
    have hsame : (item.catchUp db found stop now).dedupeKey = item.dedupeKey := rfl
    unfold EmailDelivery.Keyed at hitem ⊢
    rw [hsame]
    cases hkey : item.dedupeKey with
    | alert =>
      rw [hkey] at hitem
      cases hkind.symm.trans hitem.1
    | recap =>
      rw [hkey] at hitem
      exact hitem
    | test =>
      rw [hkey] at hitem
      cases hkind.symm.trans hitem
  | writtenBack send response =>
    obtain ⟨_, _, _, _, heq⟩ := writtenBack_frame _ item response
    rw [heq]
    exact hitem
  | _ => exact hitem

theorem delivery_steps_id {item item' : EmailDelivery}
    (h : Relation.ReflTransGen (DeliveryStep env w step) item item') :
    item'.id = item.id := by
  induction h with
  | refl => rfl
  | tail _ hstep ih => rw [hstep.id_eq, ih]

/-! ## Updates -/

/-- Assignments on the deliveries that satisfy a condition. -/
theorem evolve_updateDeliveries {p : EmailDelivery → Bool} {f : EmailDelivery → EmailDelivery}
    (h : ∀ item ∈ t.notificationDeliveries, p item = true → DeliveryStep env w step item (f item)) :
    DeliveriesEvolve env w step t (t.updateDeliveries p f) := by
  refine Table.evolves_map fun item hitem => ?_
  by_cases hp : p item
  · rw [if_pos hp]
    exact .inr (h item hitem hp)
  · rw [if_neg hp]
    exact .inl rfl

/-- Assignments on one delivery. -/
theorem evolve_updateDelivery (hnd : (t.notificationDeliveries.map (·.id)).Nodup)
    {item : EmailDelivery} (hitem : item ∈ t.notificationDeliveries)
    {f : EmailDelivery → EmailDelivery} (h : DeliveryStep env w step item (f item)) :
    DeliveriesEvolve env w step t (t.updateDelivery item.id f) := by
  refine evolve_updateDeliveries fun row hrow hid => ?_
  rw [List.inj_on_of_nodup_map hnd hrow hitem (of_decide_eq_true hid)]
  exact h

/-- Assignments on other columns keep the ids. -/
theorem updateDeliveries_ids {p : EmailDelivery → Bool} {f : EmailDelivery → EmailDelivery}
    (hf : ∀ item, (f item).id = item.id) :
    (t.updateDeliveries p f).notificationDeliveries.map (·.id) =
      t.notificationDeliveries.map (·.id) := by
  rw [NotificationTables.updateDeliveries, List.map_map]
  refine List.map_congr_left fun item _ => ?_
  rw [Function.comp_apply]
  split_ifs
  · exact hf item
  · rfl

theorem updateSubscriber_ids {id : Str} {f : Subscriber → Subscriber}
    (hf : ∀ user, (f user).id = user.id) :
    (t.updateSubscriber id f).notificationSubscribers.map (·.id) =
      t.notificationSubscribers.map (·.id) := by
  rw [NotificationTables.updateSubscriber, List.map_map]
  refine List.map_congr_left fun user _ => ?_
  rw [Function.comp_apply]
  split_ifs
  · exact hf user
  · rfl

theorem evolve_cancelPending (t : NotificationTables) (subscriberId : Str) :
    DeliveriesEvolve env w step t (t.cancelPending subscriberId) :=
  evolve_updateDeliveries fun item _ hp => by
    simp only [Bool.and_eq_true, decide_eq_true_eq] at hp
    exact .cancelled item hp.2

theorem evolve_cancelKind (t : NotificationTables) (subscriberId : Str) (kind : DeliveryKind) :
    DeliveriesEvolve env w step t (t.cancelKind subscriberId kind) :=
  evolve_updateDeliveries fun item _ hp => by
    simp only [Bool.and_eq_true, decide_eq_true_eq] at hp
    exact .cancelled item hp.2

/-! ## Matching -/

theorem evolve_matchUser (now : Time) (uuid : ℕ → Str) (e : JoinedEvent) (t : NotificationTables)
    (user : Subscriber) : DeliveriesEvolve env w step t (matchUser now uuid e t user) := by
  unfold matchUser
  split_ifs
  · exact .refl _
  · exact .refl _
  · exact Table.evolves_concat (created_alert step user (by simp) _ _ _ _ _ ⟨rfl, rfl, rfl⟩)
  · exact .refl _

theorem evolve_matchEvents (now : Time) (uuid : ℕ → Str) (db : Db) (t : NotificationTables) :
    DeliveriesEvolve env w step t (matchEvents now uuid db t) := by
  have hevent (users : List Subscriber) (t : NotificationTables) (e : JoinedEvent) :
      DeliveriesEvolve env w step t (matchEvent now uuid users t e) :=
    Table.Evolves.foldl (fun t user _ => evolve_matchUser now uuid e t user) t
  exact Table.Evolves.foldl (fun t e _ => hevent _ t e) t

theorem evolve_matchAll (now : Time) (uuid : ℕ → Str) (db : Db) (n : ℕ) (t : NotificationTables) :
    DeliveriesEvolve env w step t (matchAll now uuid db n t) := by
  induction n generalizing t with
  | zero => exact .refl _
  | succ n ih =>
    unfold matchAll
    split_ifs
    · exact (evolve_matchEvents now uuid db t).trans (ih _)
    · exact .refl _

/-! ## Recaps -/

theorem pendingRecap_eq_some {subscriberId : Str} {item : EmailDelivery}
    (h : pendingRecap t subscriberId = some item) :
    item ∈ t.notificationDeliveries ∧ item.subscriberId = subscriberId ∧ item.kind = .recap ∧
      item.status = .pending ∧ item.firstAttempt = none := by
  have hmem := List.mem_of_mem_head? h
  rw [List.mem_insertionSort, List.mem_filter] at hmem
  obtain ⟨hitem, hp⟩ := hmem
  simp only [Bool.and_eq_true, decide_eq_true_eq, Option.isNone_iff_eq_none] at hp
  exact ⟨hitem, hp.1.1.1, hp.1.1.2, hp.1.2, hp.2⟩

theorem evolve_recordRecap (hprepare : step.IsPrepare) (now : Time) (uuid : ℕ → Str) (db : Db)
    (user : Subscriber) (found : List JobMatch) (start stop : Time)
    (hnd : (t.notificationDeliveries.map (·.id)).Nodup) :
    DeliveriesEvolve env w step t (recordRecap now uuid db user found start stop t) := by
  unfold recordRecap
  split_ifs
  · exact .refl _
  · split
    · exact Table.evolves_concat ⟨rfl, rfl, rfl, rfl, rfl, rfl, fun _ => hprepare, rfl, rfl⟩
    next item hitem =>
      obtain ⟨hmem, -, hkind, hpending, hfirst⟩ := pendingRecap_eq_some hitem
      exact evolve_updateDelivery hnd hmem
        (.caught_up item _ _ _ _ hpending hfirst hprepare hkind)

theorem evolve_makeRecap (hprepare : step.IsPrepare) (now : Time) (uuid : ℕ → Str) (db : Db)
    (user : Subscriber) (hnd : (t.notificationDeliveries.map (·.id)).Nodup) :
    DeliveriesEvolve env w step t (makeRecap env now uuid db t user) := by
  unfold makeRecap
  split
  next start nextRecap _ _ =>
    generalize windowEnd env.zones user.timezone now nextRecap = stop
    refine (evolve_recordRecap hprepare now uuid db user (windowMatches t user.id start stop)
      start stop hnd).trans (evolve_updateDeliveries fun item _ hp => ?_)
    simp only [EmailDelivery.superseded, Bool.and_eq_true, decide_eq_true_eq,
      Option.isNone_iff_eq_none] at hp
    exact .superseded item hp.1.1.2 hp.1.2 hp.1.1.1.2
  next => exact .refl _

/-- A recap keeps the rows of the deliveries and their ids. -/
theorem makeRecap_ids (now : Time) (uuid : ℕ → Str) (db : Db) (t : NotificationTables)
    (user : Subscriber) :
    t.notificationDeliveries.map (·.id) <+:
      (makeRecap env now uuid db t user).notificationDeliveries.map (·.id) := by
  unfold makeRecap closeWindow
  split
  · dsimp only
    rw [updateDeliveries_ids fun _ => by rfl]
    unfold recordRecap NotificationTables.updateSubscriber
    split_ifs
    · exact List.prefix_refl _
    · split
      · exact ⟨_, List.map_append.symm⟩
      · dsimp only
        rw [NotificationTables.updateDelivery, updateDeliveries_ids fun _ => by rfl]
  · exact List.prefix_refl _

theorem makeRecaps_loop_ids (now : Time) (uuid : ℕ → Str) (db : Db) (users : List Subscriber)
    (t : NotificationTables) :
    t.notificationDeliveries.map (·.id) <+:
      (users.foldl (makeRecap env now uuid db) t).notificationDeliveries.map (·.id) := by
  induction users generalizing t with
  | nil => exact List.prefix_refl _
  | cons user users ih => exact (makeRecap_ids now uuid db t user).trans (ih _)

theorem evolve_makeRecaps_loop (hprepare : step.IsPrepare) (now : Time) (uuid : ℕ → Str) (db : Db)
    (users : List Subscriber) (t : NotificationTables)
    (hnd : ((users.foldl (makeRecap env now uuid db) t).notificationDeliveries.map (·.id)).Nodup) :
    DeliveriesEvolve env w step t (users.foldl (makeRecap env now uuid db) t) := by
  induction users generalizing t with
  | nil => exact .refl _
  | cons user users ih =>
    have hids := (makeRecaps_loop_ids now uuid db (user :: users) t).sublist.nodup hnd
    exact (evolve_makeRecap hprepare now uuid db user hids).trans (ih _ hnd)

theorem evolve_makeRecaps (hprepare : step.IsPrepare) (now : Time) (uuid : ℕ → Str) (db : Db)
    (hnd : ((makeRecaps env now uuid db t).notificationDeliveries.map (·.id)).Nodup) :
    DeliveriesEvolve env w step t (makeRecaps env now uuid db t) := by
  unfold makeRecaps at hnd ⊢
  split_ifs at hnd ⊢
  · exact .refl _
  · exact evolve_makeRecaps_loop hprepare now uuid db _ t hnd

/-! ## Claims -/

/-- A subscriber in the loop of a claim: its address may have turned out not to be verified. -/
def Subscriber.Rechecked (verify : Str → Str → Option Bool) (user user' : Subscriber) : Prop :=
  ∃ verified status, user' = { user with verified := verified, status := status } ∧
    (verified = user.verified ∨ verify user.id user.email = some false)

/-- The loop of a claim has not reached the rows `items` yet. -/
structure Claiming (w : World) (verify : Str → Str → Option Bool) (now : Time)
    (t : NotificationTables) (items : List EmailDelivery) : Prop where
  ids : (t.notificationDeliveries.map (·.id)).Nodup
  distinct : (items.map (·.id)).Nodup
  rows : ∀ item ∈ items, item ∈ t.notificationDeliveries
  before : ∀ item ∈ items, item ∈ w.tables.notificationDeliveries
  claimable : ∀ item ∈ items, item.claimable now = true
  subscriberIds : (t.notificationSubscribers.map (·.id)).Nodup
  subscribers : ∀ user' ∈ t.notificationSubscribers, ∃ user ∈ w.tables.notificationSubscribers,
    user.Rechecked verify user'

/-- A delivery is charged to an account and has its body frozen. -/
structure EmailDelivery.Charged (id account : Str) (body : Payload) (item : EmailDelivery) :
    Prop where
  id_eq : item.id = id
  account : item.account = some account
  payload : item.payload = some body
  firstAttempt : item.firstAttempt ≠ none

/-- A delivery holds what a claim of it has returned. -/
abbrev EmailDelivery.ClaimedBy (send : Send) (item : EmailDelivery) : Prop :=
  item.Charged send.deliveryId send.account send.body

section claiming

variable {verify : Str → Str → Option Bool} {now : Time} {items : List EmailDelivery}
  {item : EmailDelivery}

theorem Claiming.tail (h : Claiming w verify now t (item :: items)) :
    Claiming w verify now t items where
  ids := h.ids
  distinct := (List.nodup_cons.mp h.distinct).2
  rows other hother := h.rows other (List.mem_cons_of_mem _ hother)
  before other hother := h.before other (List.mem_cons_of_mem _ hother)
  claimable other hother := h.claimable other (List.mem_cons_of_mem _ hother)
  subscriberIds := h.subscriberIds
  subscribers := h.subscribers

/-- The assignments of a round leave the later rows alone. -/
theorem Claiming.updateDelivery (h : Claiming w verify now t (item :: items))
    {f : EmailDelivery → EmailDelivery} (hf : ∀ row, (f row).id = row.id) :
    Claiming w verify now (t.updateDelivery item.id f) items where
  ids := by
    rw [NotificationTables.updateDelivery, updateDeliveries_ids hf]
    exact h.ids
  distinct := h.tail.distinct
  rows other hother := by
    have hne : other.id ≠ item.id := fun heq =>
      (List.nodup_cons.mp h.distinct).1 (List.mem_map.mpr ⟨other, hother, heq⟩)
    refine List.mem_map.mpr ⟨other, h.tail.rows other hother, ?_⟩
    rw [if_neg (by simpa using hne)]
  before := h.tail.before
  claimable := h.tail.claimable
  subscriberIds := h.subscriberIds
  subscribers := h.subscribers

theorem Claiming.updateSubscriber (h : Claiming w verify now t items) {id : Str}
    {f : Subscriber → Subscriber} (hid : ∀ user, (f user).id = user.id)
    (hf : ∀ user user' : Subscriber, user' ∈ t.notificationSubscribers → user'.id = id →
      user.Rechecked verify user' → user.Rechecked verify (f user')) :
    Claiming w verify now (t.updateSubscriber id f) items where
  ids := h.ids
  distinct := h.distinct
  rows := h.rows
  before := h.before
  claimable := h.claimable
  subscriberIds := by
    rw [updateSubscriber_ids hid]
    exact h.subscriberIds
  subscribers user' huser' := by
    obtain ⟨before, hbefore, rfl⟩ := List.mem_map.mp huser'
    obtain ⟨user, huser, hsame⟩ := h.subscribers before hbefore
    refine ⟨user, huser, ?_⟩
    split_ifs with hid
    · exact hf user before hbefore hid hsame
    · exact hsame

theorem staleAlert_spec {db : Db} {status : DeliveryStatus}
    (h : staleAlert db now item = some status) :
    (status = .cancelled ∨ status = .reconcile ∨ status = .expired) ∧ item.firstAttempt = none := by
  unfold staleAlert at h
  split at h
  · cases h
  next hkind =>
  simp only [Bool.or_eq_true, not_or, Option.not_isSome_iff_eq_none] at hkind
  refine ⟨?_, hkind.2⟩
  split at h
  · cases h
    exact .inl rfl
  · split_ifs at h
    · cases h
      exact .inl rfl
    · cases h
      exact .inr (.inr rfl)

section decision

variable {db : Db} {user : Subscriber}

/-- Why a claim sets a new status. -/
theorem claimDecision_setStatus {status : DeliveryStatus} {errorCode : Option Str}
    (hid : user.id = item.subscriberId)
    (h : claimDecision env db t verify now item user = .setStatus status errorCode) :
    (status = .cancelled ∨ status = .reconcile ∨ status = .expired) ∧
      (item.firstAttempt = none ∨ item.GivenUp verify now user) := by
  unfold claimDecision at h
  split at h
  next hoff =>
    cases h
    simp only [Bool.or_eq_true, Bool.and_eq_true, Bool.not_eq_true', decide_eq_true_eq] at hoff
    exact ⟨.inl rfl, .inr ⟨hid, by tauto⟩⟩
  split at h
  next hversion =>
    cases h
    simp only [Bool.and_eq_true, decide_eq_true_eq] at hversion
    refine ⟨?_, .inr ⟨hid, by tauto⟩⟩
    split_ifs
    · exact .inr (.inl rfl)
    · exact .inl rfl
  split at h
  · cases h
  split at h
  next hlate =>
    cases h
    rw [Option.any_eq_true] at hlate
    obtain ⟨first, hfirst, hlate⟩ := hlate
    exact ⟨.inr (.inl rfl), .inr ⟨hid, by simp_all⟩⟩
  split at h
  next hstale =>
    cases h
    exact (staleAlert_spec hstale).imp_right .inl
  split_ifs at h
  split at h
  · cases h
  · cases h
  · split at h <;> cases h

theorem claimDecision_unverify
    (h : claimDecision env db t verify now item user = .unverify) :
    verify user.id user.email = some false := by
  unfold claimDecision at h
  split_ifs at h
  all_goals split at h <;> try cases h
  split at h
  · cases h
  · assumption
  · split at h <;> cases h

theorem claimDecision_send {key : Str} {body : Payload}
    (h : claimDecision env db t verify now item user = .send key body) :
    (truthy item.connectionVersion = true →
        item.connectionVersion = some user.connectionVersion) ∧
      frozenPayload env db item user = some body := by
  unfold claimDecision at h
  split_ifs at h with _ hversion
  all_goals split at h <;> try cases h
  split at h
  · cases h
  · cases h
  · split at h
    next hbody =>
      cases h
      simp only [Bool.and_eq_true, decide_eq_true_eq, not_and, not_not] at hversion
      exact ⟨hversion, hbody⟩
    · cases h

/-- A body is frozen, or rendered for the present address. -/
theorem frozenPayload_eq_some {body : Payload}
    (h : frozenPayload env db item user = some body) :
    (∀ frozen, item.payload = some frozen → frozen = body) ∧
      (item.payload = none → body.recipients = [user.email]) := by
  refine ⟨fun frozen hfrozen => ?_, fun hnone => ?_⟩
  · rw [frozenPayload, hfrozen] at h
    exact Option.some_inj.mp h
  · rw [frozenPayload, hnone] at h
    obtain ⟨content, -, rfl⟩ := Option.map_eq_some_iff.mp h
    rfl

end decision

/-- A loop subscriber that is given up is given up by its row. -/
theorem EmailDelivery.GivenUp.of_rechecked {user user' : Subscriber}
    (hsame : user.Rechecked verify user') (h : item.GivenUp verify now user') :
    item.GivenUp verify now user := by
  obtain ⟨verified, status, rfl, hverified⟩ := hsame
  obtain ⟨hid, hreason⟩ := h
  refine ⟨hid, ?_⟩
  rcases hverified with rfl | hverified
  · exact hreason
  · tauto

variable (env) in
/-- One round of the loop. -/
theorem claimItem_spec (h : Claiming w verify now t (item :: items)) :
    DeliveriesEvolve env w (.claim now verify) t (claimItem env w.db verify now t item).1 ∧
      Claiming w verify now (claimItem env w.db verify now t item).1 items ∧
      ∀ send ∈ (claimItem env w.db verify now t item).2,
        ∃ row ∈ (claimItem env w.db verify now t item).1.notificationDeliveries,
          row.ClaimedBy send := by
  have hitem := h.rows item List.mem_cons_self
  have hbefore := h.before item List.mem_cons_self
  have hclaimable := h.claimable item List.mem_cons_self
  unfold claimItem
  split
  · exact ⟨.refl _, h.tail, by simp⟩
  next user' huser' =>
  have hid : user'.id = item.subscriberId := by simpa using List.find?_some huser'
  obtain ⟨user, huser, hsame⟩ := h.subscribers user' (List.mem_of_find?_eq_some huser')
  split
  next status errorCode hdecision =>
    obtain ⟨hstatus, hreason⟩ := claimDecision_setStatus hid hdecision
    refine ⟨evolve_updateDelivery h.ids hitem (.given_up item status errorCode now verify rfl
      hbefore hclaimable hstatus ?_), h.updateDelivery fun _ => rfl, by simp⟩
    exact hreason.imp_right fun hgiven => ⟨user, huser, hgiven.of_rechecked hsame⟩
  next => exact ⟨.refl _, h.tail, by simp⟩
  next errorCode _ =>
    exact ⟨evolve_updateDelivery h.ids hitem (.postponed item errorCode _),
      h.updateDelivery fun _ => rfl, by simp⟩
  next hdecision =>
    have hverify := claimDecision_unverify hdecision
    refine ⟨evolve_updateDelivery h.ids hitem (.given_up item .cancelled item.errorCode now verify
      rfl hbefore hclaimable (.inl rfl) (.inr ⟨user, huser, ?_⟩)),
      (h.updateSubscriber (fun _ => by rfl) fun user other hother heq hother' => ?_).updateDelivery
        fun _ => by rfl, by simp⟩
    · exact EmailDelivery.GivenUp.of_rechecked hsame ⟨hid, by tauto⟩
    · rw [List.inj_on_of_nodup_map h.subscriberIds hother (List.mem_of_find?_eq_some huser') heq]
        at hother' ⊢
      obtain ⟨verified, status, rfl, -⟩ := hother'
      exact ⟨false, status, rfl, .inr hverify⟩
  next =>
    refine ⟨.refl _, (h.updateSubscriber (fun _ => by rfl) fun user other _ _ hother => ?_).tail,
      by simp⟩
    obtain ⟨verified, status, rfl, hverified⟩ := hother
    exact ⟨verified, _, rfl, hverified⟩
  next key body hdecision =>
    obtain ⟨hversion, hbody⟩ := claimDecision_send hdecision
    obtain ⟨verified, status, rfl, -⟩ := hsame
    obtain ⟨hfrozen, hrecipient⟩ := frozenPayload_eq_some hbody
    refine ⟨evolve_updateDelivery h.ids hitem (.claimed item user body now hbefore hclaimable huser
      hid hversion hfrozen verify rfl hrecipient),
      h.updateDelivery fun _ => rfl, ?_⟩
    rintro send ⟨⟩
    refine ⟨item.claimed user body now, List.mem_map.mpr ⟨item, hitem, ?_⟩, rfl, rfl, rfl,
      by simp [EmailDelivery.claimed]⟩
    rw [if_pos (by simp)]
    rfl

theorem claimItems_spec (h : Claiming w verify now t items) :
    DeliveriesEvolve env w (.claim now verify) t (claimItems env w.db verify now t items).1 ∧
      (∀ user' ∈ (claimItems env w.db verify now t items).1.notificationSubscribers,
        ∃ user ∈ w.tables.notificationSubscribers, user.Rechecked verify user') ∧
      ∀ send ∈ (claimItems env w.db verify now t items).2,
        ∃ row ∈ (claimItems env w.db verify now t items).1.notificationDeliveries,
          row.ClaimedBy send := by
  induction items generalizing t with
  | nil => exact ⟨.refl _, h.subscribers, by simp [claimItems]⟩
  | cons item items ih =>
    obtain ⟨hevolve, hnext, hsend⟩ := claimItem_spec env h
    unfold claimItems
    split
    next t' send heq =>
      rw [heq] at hevolve hnext hsend
      exact ⟨hevolve, hnext.subscribers, hsend⟩
    next t' heq =>
      rw [heq] at hevolve hnext
      obtain ⟨hrest, hsubscribers, hsends⟩ := ih hnext
      exact ⟨hevolve.trans hrest, hsubscribers, hsends⟩

theorem claiming_candidates (w : World) (verify : Str → Str → Option Bool) (now : Time) :
    Claiming w verify now w.tables (candidates now w.tables) := by
  have hsub : ∀ item ∈ candidates now w.tables,
      item ∈ w.tables.notificationDeliveries ∧ item.claimable now = true := fun item hitem => by
    unfold candidates at hitem
    rw [List.mem_insertionSort] at hitem
    simpa [List.mem_insertionSort] using List.mem_of_mem_take hitem
  refine ⟨w.unique.delivery_ids, ?_, fun item hitem => (hsub item hitem).1,
    fun item hitem => (hsub item hitem).1, fun item hitem => (hsub item hitem).2, w.unique.subscriberIds,
    fun user huser => ⟨user, huser, user.verified, user.status, rfl, .inl rfl⟩⟩
  unfold candidates
  dsimp only
  refine ((List.perm_insertionSort _ _).map _).nodup_iff.mpr ?_
  refine ((List.take_sublist _ _).map _).nodup ?_
  refine ((List.perm_insertionSort _ _).map _).nodup_iff.mpr ?_
  exact (List.filter_sublist.map _).nodup w.unique.delivery_ids

variable (env) in
theorem claim_spec (w : World) (verify : Str → Str → Option Bool) (now : Time) :
    DeliveriesEvolve env w (.claim now verify) w.tables (claim env w.db verify now w.tables).1 ∧
      (∀ user' ∈ (claim env w.db verify now w.tables).1.notificationSubscribers,
        ∃ user ∈ w.tables.notificationSubscribers, user.Rechecked verify user') ∧
      ∀ send ∈ (claim env w.db verify now w.tables).2,
        ∃ row ∈ (claim env w.db verify now w.tables).1.notificationDeliveries,
          row.ClaimedBy send :=
  claimItems_spec (claiming_candidates w verify now)

end claiming

/-! ## Write-backs -/

theorem evolve_writeBack {send : Send} {response : Option Response} (hsend : send ∈ w.sends)
    (hanswers : w.Answers send response) :
    DeliveriesEvolve env w (.writeBack send response) w.tables
      (writeBack send response w.tables) := by
  cases hitem : w.tables.delivery send.deliveryId with
  | none =>
    unfold writeBack
    rw [hitem]
    exact .refl _
  | some item =>
    obtain ⟨accounts, hframe⟩ := writeBack_frame response hitem
    rw [hframe]
    refine evolve_updateDelivery w.unique.delivery_ids (List.mem_of_find?_eq_some hitem)
      (.writtenBack item send response rfl (List.mem_of_find?_eq_some hitem) ?_ hsend hanswers)
    simpa using List.find?_some hitem

/-! ## Webhooks -/

theorem evolve_suppressRecipient (t : NotificationTables) (item : EmailDelivery) :
    DeliveriesEvolve env w step t (suppressRecipient t item) := by
  unfold suppressRecipient
  split
  · exact .refl _
  · split_ifs
    · exact evolve_cancelPending _ _
    · exact .refl _

/-- What an event makes of the deliveries. -/
theorem evolve_applyEvent {call : WebhookCall} {account : Str} {found : EmailDelivery}
    (hverified : call.Verified env w.tables account)
    (hfound : webhookDelivery w.tables account call = some found)
    (ht : t.notificationDeliveries = w.tables.notificationDeliveries) :
    DeliveriesEvolve env w (.webhook call) w.tables (applyEvent t found call.type) := by
  have hupdate : ∀ (u : NotificationTables) (status : DeliveryStatus),
      (status = .bounced ∨ status = .complained ∨ status = .delivered) →
      DeliveriesEvolve env w (.webhook call) u
        (u.updateDelivery found.id ({ · with status := status })) := fun u status hstatus =>
    evolve_updateDeliveries fun row _ hid =>
      .event row found status call account rfl hverified hfound (of_decide_eq_true hid) hstatus
  rw [DeliveriesEvolve, ← ht]
  generalize call.type = type
  cases type with
  | bounced => exact (evolve_suppressRecipient t found).trans (hupdate _ .bounced (.inl rfl))
  | complained =>
    exact (evolve_suppressRecipient t found).trans (hupdate _ .complained (.inr (.inl rfl)))
  | delivered =>
    unfold applyEvent
    split_ifs
    · exact .refl _
    · exact hupdate _ .delivered (.inr (.inr rfl))
  | other => exact .refl _

theorem evolve_webhook {call : WebhookCall} {status : WebhookStatus} {t' : NotificationTables}
    (h : webhook env w.tables call = .ok (status, t')) :
    DeliveriesEvolve env w (.webhook call) w.tables t' := by
  obtain ⟨account, hverified, h⟩ := webhook_eq_ok.mp h
  unfold webhookEvent at h
  split at h
  · cases h
    exact .refl _
  split at h
  · split at h <;> cases h
    exact .refl _
  next item hitem =>
    cases h
    exact evolve_applyEvent hverified hitem rfl

/-! ## Settings -/

section settings

variable {who : Who} {tokens : Tokens} {t' : NotificationTables}

theorem evolve_currentRow {timezone : Str} (h : currentRow who timezone tokens t = .ok t') :
    DeliveriesEvolve env w step t t' := by
  unfold currentRow at h
  split at h
  · dsimp only at h
    split_ifs at h
    cases h
    exact .refl _
  · dsimp only at h
    split_ifs at h
    · cases h
      exact .refl _
    · cases h
      exact evolve_cancelPending _ _

theorem evolve_subscriber {timezone : Str} {user : Subscriber}
    (h : subscriber who timezone tokens t = .ok (t', user)) : DeliveriesEvolve env w step t t' := by
  simp only [subscriber, Raising.bind_eq_ok] at h
  obtain ⟨row, hrow, h⟩ := h
  have hverified : DeliveriesEvolve env w step t t' := by
    refine (evolve_currentRow hrow).trans ?_
    split at h
    · cases h
      split_ifs
      · exact .refl _
      · exact evolve_cancelPending _ _
    · cases h
  exact hverified

theorem evolve_storeSettings (now : Time) (uuid : ℕ → Str) (db : Db) (body : Settings)
    (subscriberId : Str) (t : NotificationTables) :
    DeliveriesEvolve env w step t (storeSettings env now uuid db body subscriberId t) := by
  unfold storeSettings
  dsimp only
  generalize (t.notificationEvents.countP fun event => !event.processed) = n
  refine (evolve_matchAll now uuid db n t).trans ?_
  generalize matchAll now uuid db n t = t
  have halerts : DeliveriesEvolve env w step t
      (if body.alerts then t else t.cancelKind subscriberId .alert) := by
    split_ifs
    · exact .refl _
    · exact evolve_cancelKind t subscriberId .alert
  refine halerts.trans ?_
  split_ifs
  all_goals first | exact .refl _ | exact evolve_cancelKind _ subscriberId .recap

theorem evolve_settings {request : SettingsRequest} {now : Time} {db : Db}
    (h : request.run env now db tokens t = .ok t') : DeliveriesEvolve env w step t t' := by
  cases request with
  | getSettings timezone who =>
    simp only [SettingsRequest.run, Raising.bind_eq_ok] at h
    obtain ⟨⟨row, user⟩, hrow, h⟩ := h
    cases h
    exact evolve_subscriber hrow
  | putSettings body who uuid =>
    simp only [SettingsRequest.run, putSettings, Raising.bind_eq_ok, check_eq_ok] at h
    obtain ⟨⟨row, user⟩, hrow, -, -, -, h⟩ := h
    cases h
    exact (evolve_subscriber hrow).trans (evolve_storeSettings _ _ _ _ _ _)
  | putProvider keyCiphertext webhookCiphertext who version =>
    simp only [SettingsRequest.run, putProvider, Raising.bind_eq_ok] at h
    obtain ⟨⟨row, user⟩, hrow, h⟩ := h
    split at h <;> cases h
    exact (evolve_subscriber hrow).trans (evolve_cancelPending _ _)
  | deleteProvider who version webhookId =>
    simp only [SettingsRequest.run, deleteProvider, Raising.bind_eq_ok] at h
    obtain ⟨⟨row, user⟩, hrow, h⟩ := h
    cases h
    exact (evolve_subscriber hrow).trans (evolve_cancelPending _ _)
  | testProvider who =>
    simp only [SettingsRequest.run, testProvider, Raising.bind_eq_ok, check_eq_ok] at h
    obtain ⟨⟨row, user⟩, hrow, -, -, -, h⟩ := h
    cases h
    exact (evolve_subscriber hrow).trans
      (Table.evolves_concat (created_alert step user (by simp) _ _ _ _ _ rfl))
  | unsubscribe token =>
    simp only [SettingsRequest.run, unsubscribe] at h
    split at h <;> cases h
    exact evolve_cancelPending _ _

end settings

/-! ## Steps -/

theorem evolve_commit {w' : World} {t : NotificationTables}
    (hsame : w'.tables.notificationDeliveries = w.tables.notificationDeliveries)
    (h : t.Unique → DeliveriesEvolve env w step w.tables t) :
    DeliveriesEvolve env w step w.tables (w'.commit t).tables := by
  unfold World.commit
  split_ifs with hunique
  · exact h hunique
  · rw [DeliveriesEvolve, hsame]
    exact .refl _

theorem evolve_prepare (w : World) (now : Time) (between : List (Call × Time)) (uuid : ℕ → Str) :
    DeliveriesEvolve env w (.prepare now between uuid) w.tables
      (w.prepare cfg S env now between uuid).tables := by
  obtain ⟨w', events, hprepare, htables, -⟩ :=
    World.prepare_frame cfg S env w now between uuid
  rw [hprepare]
  refine evolve_commit (by rw [htables]; rfl) fun hunique => ?_
  exact (evolve_matchEvents now uuid w.db w.tables).trans
    (evolve_makeRecaps (t := (matchEvents now uuid w.db w.tables).addEvents events)
      (by trivial : NotificationStep.IsPrepare (.prepare now between uuid)) now uuid _
      hunique.delivery_ids)

variable (cfg S env) in
/-- **What a step does to the deliveries.** -/
theorem exec_evolves (w : World) (step : NotificationStep) :
    DeliveriesEvolve env w step w.tables (step.exec cfg S env w).tables := by
  cases step with
  | tick time => exact .refl _
  | ingest call reading => exact .refl _
  | prepare now between uuid =>
    simp only [NotificationStep.exec]
    split_ifs
    · exact evolve_prepare w now between uuid
    · exact .refl _
  | claim now verify => exact evolve_commit rfl fun _ => (claim_spec env w verify now).1
  | accept send emailId =>
    simp only [NotificationStep.exec]
    split_ifs <;> exact .refl _
  | writeBack send response =>
    simp only [NotificationStep.exec]
    split_ifs with h
    · exact evolve_commit rfl fun _ => evolve_writeBack h.1 h.2
    · exact .refl _
  | crash send => exact .refl _
  | webhook call =>
    simp only [NotificationStep.exec]
    split
    · exact .refl _
    next heq => exact evolve_commit rfl fun _ => evolve_webhook heq
  | settings request tokens =>
    simp only [NotificationStep.exec]
    split_ifs
    · split
      · exact .refl _
      next heq => exact evolve_commit rfl fun _ => evolve_settings heq
    · exact .refl _

end JobPing
