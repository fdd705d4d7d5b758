import JobPing.Frames
import JobPing.SendLedger
import JobPing.Runs

/-!
# Bounces and complaints

The provider reports a bounce or a complaint about an email it has accepted. While the ledger is kept,
the report is refused for a while, or it marks the delivery and suppresses the recipient, or it has
done so before (`bounce_never_lost`). A step that forgets the email lets the report be acknowledged as
unrelated (`bounce_unrelated`).
-/

namespace JobPing

variable {cfg : Config} {S : Services} {env : NotificationEnv}

/-! ## Remembered events -/

variable {w : World} {step : NotificationStep} {item : EmailDelivery} {a : Acceptance}

/-- An event that a step remembers is one that it applies. -/
theorem exec_webhooks (w : World) (step : NotificationStep) {eventId : Str}
    (h : eventId ∈ (step.exec cfg S env w).tables.notificationWebhooks) :
    eventId ∈ w.tables.notificationWebhooks ∨
      ∃ call t, step = .webhook call ∧ call.eventId = eventId ∧
        webhook env w.tables call = .ok (.ok, t) := by
  have hcommit : ∀ (w' : World) (t : NotificationTables),
      w'.tables.notificationWebhooks = w.tables.notificationWebhooks →
      t.notificationWebhooks = w.tables.notificationWebhooks →
      (w'.commit t).tables.notificationWebhooks = w.tables.notificationWebhooks :=
    fun w' t hw' ht => by
      unfold World.commit
      split_ifs
      · exact ht
      · exact hw'
  cases step with
  | tick | ingest | crash => exact .inl h
  | prepare now between uuid =>
    left
    simp only [NotificationStep.exec] at h
    split_ifs at h
    · obtain ⟨w', events, hprepare, htables, -⟩ :=
        World.prepare_frame cfg S env w now between uuid
      have hrecaps := sameFeed_makeRecaps env now uuid w'.db
        ((matchEvents now uuid w.db w.tables).addEvents events)
      rwa [hprepare, hcommit w' _ (by rw [htables]; rfl)
        (hrecaps.webhooks.trans (matchedFrom_matchEvents now uuid w.db w.tables).webhooks)] at h
    · exact h
  | claim now verify =>
    left
    simp only [NotificationStep.exec] at h
    rwa [hcommit w _ rfl (sameFeed_claim ..).webhooks] at h
  | accept send emailId =>
    left
    simp only [NotificationStep.exec] at h
    split_ifs at h <;> exact h
  | writeBack send response =>
    left
    simp only [NotificationStep.exec] at h
    split_ifs at h
    · rwa [hcommit w _ rfl (sameFeed_writeBack ..).webhooks] at h
    · exact h
  | webhook call =>
    simp only [NotificationStep.exec] at h
    split at h
    · exact .inl h
    next status t heq =>
    obtain ⟨account, -, hevent⟩ := webhook_eq_ok.mp heq
    unfold webhookEvent at hevent
    split at hevent
    · cases hevent
      rw [hcommit w _ rfl rfl] at h
      exact .inl h
    split at hevent
    · split at hevent <;> cases hevent
      rw [hcommit w _ rfl rfl] at h
      exact .inl h
    · cases hevent
      unfold World.commit at h
      split_ifs at h
      · dsimp only at h
        rw [(sameFeed_applyEvent _ _ _).webhooks] at h
        refine (List.mem_append.mp h).imp_right fun hnew => ?_
        exact ⟨call, _, rfl, (List.mem_singleton.mp hnew).symm, heq⟩
      · exact .inl h
  | settings request tokens =>
    left
    simp only [NotificationStep.exec] at h
    split_ifs at h
    · split at h
      · exact h
      next heq => rwa [hcommit w _ rfl (settings_webhooks heq)] at h
    · exact h

/-- A remembered event has been applied in the run. -/
theorem applied_of_remembered {steps : List NotificationStep} {eventId : Str}
    (h : eventId ∈ (World.empty.run cfg S env steps).tables.notificationWebhooks) :
    ∃ before call after, steps = before ++ .webhook call :: after ∧ call.eventId = eventId ∧
      ∃ t, webhook env (World.empty.run cfg S env before).tables call = .ok (.ok, t) := by
  induction steps using List.reverseRecOn with
  | nil => cases h
  | append_singleton steps step ih =>
    rw [World.run_concat] at h
    rcases exec_webhooks _ _ h with hbefore | ⟨call, t, rfl, hid, hanswer⟩
    · obtain ⟨before, call, after, rfl, hspec⟩ := ih hbefore
      exact ⟨before, call, after ++ [step], by simp, hspec⟩
    · exact ⟨steps, call, [], rfl, hid, t, hanswer⟩

/-! ## Reports -/

/-- The status a report gives its delivery. -/
def WebhookType.report : WebhookType → Option DeliveryStatus
  | bounced => some .bounced
  | complained => some .complained
  | _ => none

/-- The report marks the delivery, and suppresses the subscriber if the address is still the one that
was mailed. -/
structure Marks (cfg : Config) (S : Services) (env : NotificationEnv) (w : World) (a : Acceptance)
    (call : WebhookCall) (status : DeliveryStatus) : Prop where
  answered : ∃ t, webhook env w.tables call = .ok (.ok, t)
  marked : ∃ row ∈ ((NotificationStep.webhook call).exec cfg S env w).tables.notificationDeliveries,
    row.id = a.deliveryId ∧ row.status = status
  suppressed : ∀ item ∈ w.tables.notificationDeliveries, item.id = a.deliveryId →
    ∀ user ∈ w.tables.notificationSubscribers, user.id = item.subscriberId →
      a.recipients = [user.email] →
      ∃ user' ∈ ((NotificationStep.webhook call).exec cfg S env w).tables.notificationSubscribers,
        user'.id = user.id ∧ user'.suppressed = true

theorem suppressRecipient_sameKeys (t : NotificationTables) (item : EmailDelivery) :
    t.SameKeys (suppressRecipient t item) := by
  unfold suppressRecipient
  split
  · exact .refl t
  · split_ifs
    · exact (NotificationTables.sameKeys_updateSubscriber _ fun _ => by rfl).trans
        (NotificationTables.sameKeys_updateDeliveries _ fun _ => by rfl)
    · exact .refl t

theorem applyEvent_sameKeys (t : NotificationTables) (item : EmailDelivery) (type : WebhookType) :
    t.SameKeys (applyEvent t item type) := by
  cases type with
  | bounced =>
    exact (suppressRecipient_sameKeys t item).trans
      (NotificationTables.sameKeys_updateDeliveries _ fun _ => by rfl)
  | complained =>
    exact (suppressRecipient_sameKeys t item).trans
      (NotificationTables.sameKeys_updateDeliveries _ fun _ => by rfl)
  | delivered =>
    unfold applyEvent
    split_ifs
    · exact .refl t
    · exact NotificationTables.sameKeys_updateDeliveries _ fun _ => by rfl
  | other => exact .refl t

variable (cfg S) in
/-- An applied event leaves what it makes of its delivery. -/
theorem exec_webhook_tables {call : WebhookCall} {account : Str}
    (hverified : call.Verified env w.tables account)
    (hnew : call.eventId ∉ w.tables.notificationWebhooks)
    (hfound : webhookDelivery w.tables account call = some item) :
    webhook env w.tables call = .ok (.ok, applyEvent { w.tables with
        notificationWebhooks := w.tables.notificationWebhooks ++ [call.eventId] } item call.type) ∧
      ((NotificationStep.webhook call).exec cfg S env w).tables = applyEvent { w.tables with
        notificationWebhooks := w.tables.notificationWebhooks ++ [call.eventId] } item
          call.type := by
  have hanswer : webhook env w.tables call = .ok (.ok, applyEvent { w.tables with
      notificationWebhooks := w.tables.notificationWebhooks ++ [call.eventId] } item
        call.type) := by
    rw [webhook_of_verified hverified, webhookEvent, if_neg hnew]
    simp only [hfound]
  refine ⟨hanswer, ?_⟩
  simp only [NotificationStep.exec, hanswer]
  refine World.commit_tables (w.unique.of_sameKeys ?_)
  have hkeys := applyEvent_sameKeys { w.tables with
    notificationWebhooks := w.tables.notificationWebhooks ++ [call.eventId] } item call.type
  exact ⟨hkeys.subscribers, hkeys.matched, hkeys.deliveries⟩

/-- A report changes its delivery after the recipient. -/
theorem applyEvent_report (t : NotificationTables) (item : EmailDelivery) {type : WebhookType}
    {status : DeliveryStatus} (h : type.report = some status) :
    applyEvent t item type =
      (suppressRecipient t item).updateDelivery item.id ({ · with status := status }) := by
  cases type <;> cases h <;> rfl

theorem exists_marked (t : NotificationTables) (status : DeliveryStatus)
    (hitem : item ∈ t.notificationDeliveries) :
    ∃ row ∈ ((suppressRecipient t item).updateDelivery item.id
      ({ · with status := status })).notificationDeliveries,
      row.id = item.id ∧ row.status = status := by
  have hkeys := (suppressRecipient_sameKeys t item).deliveries
  have hkey := List.mem_map_of_mem
    (f := fun row : EmailDelivery => (row.id, row.dedupeKey, row.subscriberId)) hitem
  rw [← hkeys] at hkey
  obtain ⟨row, hrow, heq⟩ := List.mem_map.mp hkey
  have hid : row.id = item.id := congrArg Prod.fst heq
  refine ⟨{ row with status := status }, List.mem_map.mpr ⟨row, hrow, ?_⟩, hid, rfl⟩
  rw [if_pos (decide_eq_true hid)]

theorem exists_suppressed {t : NotificationTables} (hunique : t.Unique) {user : Subscriber}
    (huser : user ∈ t.notificationSubscribers) (hid : user.id = item.subscriberId) {body : Payload}
    (hpayload : item.payload = some body) (hmailed : body.recipients = [user.email]) :
    ∃ user' ∈ (suppressRecipient t item).notificationSubscribers,
      user'.id = user.id ∧ user'.suppressed = true := by
  have hfound : t.subscriber item.subscriberId = some user := by
    rw [← hid]
    exact Table.find?_key hunique.subscriberIds huser
  unfold suppressRecipient
  rw [hfound]
  dsimp only
  rw [if_pos (by rw [hpayload]; simpa using hmailed)]
  exact ⟨{ user with suppressed := true }, List.mem_map.mpr ⟨user, huser, if_pos rfl⟩, rfl, rfl⟩

/-- A report about a delivery that has the id of its email marks it. -/
theorem marks_of_found {call : WebhookCall} {status : DeliveryStatus} {body : Payload}
    (hverified : call.Verified env w.tables a.account)
    (hnew : call.eventId ∉ w.tables.notificationWebhooks)
    (hfound : webhookDelivery w.tables a.account call = some item)
    (hcharged : item.Charged a.deliveryId a.account body) (hbody : body.recipients = a.recipients)
    (hstatus : call.type.report = some status) : Marks cfg S env w a call status := by
  have hitem := List.mem_of_find?_eq_some hfound
  obtain ⟨hanswer, htables⟩ := exec_webhook_tables cfg S hverified hnew hfound
  rw [applyEvent_report _ _ hstatus] at htables
  refine ⟨⟨_, hanswer⟩, ?_, fun other hother hid user huser huid hmailed => ?_⟩
  · rw [htables]
    obtain ⟨row, hrow, hid, hmarked⟩ := exists_marked { w.tables with
      notificationWebhooks := w.tables.notificationWebhooks ++ [call.eventId] } status hitem
    exact ⟨row, hrow, hid.trans hcharged.id_eq, hmarked⟩
  · rw [htables]
    obtain rfl : other = item :=
      w.delivery_unique hother hitem (hid.trans hcharged.id_eq.symm)
    exact exists_suppressed (t := { w.tables with
      notificationWebhooks := w.tables.notificationWebhooks ++ [call.eventId] })
      (w.unique.of_sameKeys ⟨rfl, rfl, rfl⟩) huser huid hcharged.payload (hbody.trans hmailed)

variable (cfg S) in
/-- A report in a state with a ledger is refused for a while, or it marks the delivery, or the event
is remembered. -/
theorem Ledger.report (hledger : Ledger w) (ha : a ∈ w.acceptances) {call : WebhookCall}
    {status : DeliveryStatus} (hverified : call.Verified env w.tables a.account)
    (hemail : call.emailId = some a.emailId) (hstatus : call.type.report = some status) :
    (∃ detail, webhook env w.tables call = .error ⟨503, detail⟩) ∨ Marks cfg S env w a call status ∨
      webhook env w.tables call = .ok (.duplicate, w.tables) ∧
        call.eventId ∈ w.tables.notificationWebhooks := by
  by_cases hnew : call.eventId ∈ w.tables.notificationWebhooks
  · refine .inr (.inr ⟨?_, hnew⟩)
    rw [webhook_of_verified hverified, webhookEvent, if_pos hnew]
  obtain ⟨item, hitem, ⟨body, hbody, hcharged⟩, hknown⟩ := hledger.accepted a ha
  cases hfound : webhookDelivery w.tables a.account call with
  | none =>
    left
    have hnot := List.find?_eq_none.mp hfound item hitem
    have hsending : item.status = .sending := hknown.resolve_left fun hrecorded => hnot (by
      simp [hcharged.account, hrecorded, hemail])
    refine ⟨"Send outcome is still being recorded".toList, ?_⟩
    rw [webhook_of_verified hverified, webhookEvent, if_neg hnew]
    simp only [hfound]
    rw [if_pos (List.any_eq_true.mpr ⟨item, hitem, by simp [hcharged.account, hsending]⟩)]
    rfl
  | some found =>
    right
    left
    have hmem := List.mem_of_find?_eq_some hfound
    have hmatch : found.account = some a.account ∧ found.providerId = call.emailId := by
      simpa using List.find?_some hfound
    obtain ⟨b, hb, hbid, hbemail, hbaccount⟩ :=
      (hledger.accounted found hmem).recorded a.emailId (hmatch.2.trans hemail)
    obtain ⟨-, hid⟩ := (hledger.consistent a ha b hb).mpr hbemail
    obtain rfl : item = found := w.delivery_unique hitem hmem
      (hcharged.id_eq.trans (hid.symm.trans hbid))
    exact marks_of_found hverified hnew hfound hcharged hbody hstatus

/-! ## Runs -/

/-- An event that was answered had marked the delivery of its email. -/
theorem Ledger.marked_before {steps after : List NotificationStep}
    (hledger : Ledger (w.run cfg S env steps))
    (hlater : Ledger (w.run cfg S env (steps ++ after)))
    (ha : a ∈ (w.run cfg S env (steps ++ after)).acceptances) {call : WebhookCall}
    {status : DeliveryStatus} {t : NotificationTables}
    (hanswer : webhook env (w.run cfg S env steps).tables call = .ok (.ok, t))
    (hemail : call.emailId = some a.emailId) (hstatus : call.type.report = some status) :
    Marks cfg S env (w.run cfg S env steps) a call status := by
  obtain ⟨account, hverified, hevent⟩ := webhook_eq_ok.mp hanswer
  have hfound : ∃ found, webhookDelivery (w.run cfg S env steps).tables account call = some found := by
    unfold webhookEvent at hevent
    split at hevent
    · cases hevent
    · split at hevent
      · split at hevent <;> cases hevent
      next found hfound => exact ⟨found, hfound⟩
  obtain ⟨found, hfound⟩ := hfound
  have hmatch : found.account = some account ∧ found.providerId = call.emailId := by
    simpa using List.find?_some hfound
  obtain ⟨b, hb, -, hbemail, hbaccount⟩ :=
    (hledger.accounted found (List.mem_of_find?_eq_some hfound)).recorded a.emailId
      (hmatch.2.trans hemail)
  obtain rfl : account = b.account := Option.some_inj.mp (hmatch.1.symm.trans hbaccount)
  -- the email was accepted before the event
  have hlatest : b ∈ (w.run cfg S env (steps ++ after)).acceptances := by
    rw [World.run_append]
    exact run_acceptances _ after hb
  obtain ⟨-, hid⟩ := (hlater.consistent a ha b hlatest).mpr hbemail
  have hrecipients : b.recipients = a.recipients := by
    obtain ⟨item, hitem, ⟨body, hbody, hcharged⟩, -⟩ := hlater.accepted a ha
    obtain ⟨item', hitem', ⟨body', hbody', hcharged'⟩, -⟩ := hlater.accepted b hlatest
    obtain rfl : item = item' := World.delivery_unique _ hitem hitem'
      (hcharged.id_eq.trans (hid.symm.trans hcharged'.id_eq.symm))
    obtain rfl : body = body' := Option.some_inj.mp (hcharged.payload.symm.trans hcharged'.payload)
    rw [← hbody, hbody']
  rcases hledger.report cfg S hb hverified (hbemail ▸ hemail) hstatus with
    ⟨detail, herror⟩ | hmarks | ⟨hduplicate, -⟩
  · rw [herror] at hanswer
    cases hanswer
  · obtain ⟨hanswered, hmarked, hsuppressed⟩ := hmarks
    rw [hid] at hmarked hsuppressed
    rw [hrecipients] at hsuppressed
    exact ⟨hanswered, hmarked, hsuppressed⟩
  · rw [hduplicate] at hanswer
    cases hanswer

/-- A verified report is answered with 503, or it marks the delivery and suppresses the recipient
whose address is still the mailed one, or it repeats an event that the run has applied, with that
effect. -/
def BounceKept (cfg : Config) (S : Services) (env : NotificationEnv) (steps : List NotificationStep)
    (a : Acceptance) (call : WebhookCall) (status : DeliveryStatus) : Prop :=
  let w := World.empty.run cfg S env steps
  (∃ detail, webhook env w.tables call = .error ⟨503, detail⟩) ∨
  Marks cfg S env w a call status ∨
  webhook env w.tables call = .ok (.duplicate, w.tables) ∧
    ∃ before earlier after, steps = before ++ .webhook earlier :: after ∧
      earlier.eventId = call.eventId ∧
      (∃ t, webhook env (World.empty.run cfg S env before).tables earlier = .ok (.ok, t)) ∧
      (earlier.emailId = call.emailId → earlier.type = call.type →
        Marks cfg S env (World.empty.run cfg S env before) a earlier status)

/-- **No bounce or complaint is lost** in a run that forgets no accepted email. -/
theorem bounce_never_lost {steps : List NotificationStep}
    (hsteps : Remembers cfg S env .empty steps)
    (ha : a ∈ (World.empty.run cfg S env steps).acceptances) {call : WebhookCall}
    {status : DeliveryStatus}
    (hverified : call.Verified env (World.empty.run cfg S env steps).tables a.account)
    (hemail : call.emailId = some a.emailId) (hstatus : call.type.report = some status) :
    BounceKept cfg S env steps a call status := by
  have hledger := Ledger.empty.run hsteps
  rcases hledger.report cfg S ha hverified hemail hstatus with
    herror | hmarks | ⟨hduplicate, hremembered⟩
  · exact .inl herror
  · exact .inr (.inl hmarks)
  · obtain ⟨before, earlier, after, rfl, hid, t, hanswer⟩ := applied_of_remembered hremembered
    refine .inr (.inr ⟨hduplicate, before, earlier, after, rfl, hid, ⟨t, hanswer⟩, ?_⟩)
    intro hsame htype
    have hbefore := Ledger.empty.run (World.along_append.mp hsteps).1
    exact hbefore.marked_before hledger ha hanswer (hsame.trans hemail) (htype ▸ hstatus)

/-! ## Samples -/

/-- The test email is claimed, accepted, and its outcome is written back. -/
def sentSteps (response : Option Response) : List NotificationStep :=
  connectSteps ++
    [.claim 0 fun _ _ => some true, .accept (sampleSend 0) "email".toList,
      .writeBack (sampleSend 0) response]

def sampleAcceptance : Acceptance := (sampleSend 0).acceptance "email".toList

/-- A bounce of the test email. -/
def sampleBounce : WebhookCall where
  connection := "hook".toList
  svixId := "msg".toList
  size := 400
  signedWith := "whsec_ada".toList
  type := .bounced
  emailId := some "email".toList

theorem sample_bounce_kept : Remembers sampleConfig .ascii .plain .empty
      (sentSteps (accepting "email")) ∧
    BounceKept sampleConfig .ascii .plain (sentSteps (accepting "email")) sampleAcceptance
      sampleBounce .bounced := by
  have hsteps : Remembers sampleConfig .ascii .plain .empty (sentSteps (accepting "email")) := by
    refine ⟨id, id, ?_, ?_, ?_, trivial⟩
    · have hnone : (World.empty.run sampleConfig .ascii .plain connectSteps).acceptances = [] := by
        decide +kernel
      rintro ⟨item, -, ⟨a, ha, -⟩, -⟩
      exact List.not_mem_nil (hnone ▸ ha)
    · rintro ⟨-, -, hitem⟩
      revert hitem
      decide +kernel
    · rintro ⟨-, hcode, -⟩
      exact hcode rfl
  refine ⟨hsteps, bounce_never_lost hsteps ?_ ⟨?_, ?_, ?_⟩ rfl rfl⟩
  · decide +kernel
  · decide +kernel
  · rfl
  · decide

/-- The request runs into its timeout although the provider has accepted the email: its bounce is
acknowledged as unrelated. -/
theorem bounce_unrelated :
    sampleAcceptance ∈ (World.empty.run sampleConfig .ascii .plain (sentSteps none)).acceptances ∧
    sampleBounce.Verified .plain
      (World.empty.run sampleConfig .ascii .plain (sentSteps none)).tables
      sampleAcceptance.account ∧
    sampleBounce.emailId = some sampleAcceptance.emailId ∧
    ¬BounceKept sampleConfig .ascii .plain (sentSteps none) sampleAcceptance sampleBounce
      .bounced := by
  have hanswer : ((webhook .plain (World.empty.run sampleConfig .ascii .plain
      (sentSteps none)).tables sampleBounce).toOption.map Prod.fst) = some .unrelated := by
    decide +kernel
  refine ⟨by decide +kernel, ⟨by decide +kernel, rfl, by decide⟩, rfl, ?_⟩
  rintro (⟨detail, herror⟩ | ⟨⟨t, hok⟩, -⟩ | ⟨hduplicate, -⟩)
  · rw [herror] at hanswer
    cases hanswer
  · rw [hok] at hanswer
    cases hanswer
  · rw [hduplicate] at hanswer
    cases hanswer

end JobPing
