import JobPing.SubscriberChanges

/-!
# The ledger of accepted emails

The provider knows an email by its own id, which a delivery learns when the outcome of its claim is
written back. `Ledger` is what holds in between: every claim under way and every accepted email has a
delivery charged to its account with its body, and an accepted email whose id is not recorded yet
belongs to a delivery that is being sent. A step keeps the ledger (`Ledger.exec`) unless it takes a
delivery out of sending while its email is accepted and not recorded (`World.Forgets`).
-/

namespace JobPing

variable {cfg : Config} {S : Services} {env : NotificationEnv}

/-! ## The invariant -/

/-- The charge of a delivery agrees with its subscriber and with what the provider has accepted. -/
structure EmailDelivery.Accounted (w : World) (item : EmailDelivery) : Prop where
  untried : item.firstAttempt = none →
    item.connectionVersion = none ∧ item.payload = none ∧ item.providerId = none
  tried : item.firstAttempt ≠ none → ∃ version, item.connectionVersion = some version ∧ version ≠ []
  connection : ∀ user ∈ w.tables.notificationSubscribers, user.id = item.subscriberId →
    item.connectionVersion = some user.connectionVersion → item.account = some user.account
  recorded : ∀ emailId, item.providerId = some emailId → ∃ a ∈ w.acceptances,
    a.deliveryId = item.id ∧ a.emailId = emailId ∧ item.account = some a.account

/-- The delivery of an accepted email: the id is recorded, or the delivery is being sent. -/
def EmailDelivery.Holds (a : Acceptance) (item : EmailDelivery) : Prop :=
  (∃ body : Payload, body.recipients = a.recipients ∧ item.Charged a.deliveryId a.account body) ∧
    (item.providerId = some a.emailId ∨ item.status = .sending)

structure Ledger (w : World) : Prop where
  versions : ∀ user ∈ w.tables.notificationSubscribers, user.connectionVersion ≠ []
  accounted : ∀ item ∈ w.tables.notificationDeliveries, item.Accounted w
  sends : ∀ send ∈ w.sends, ∃ item ∈ w.tables.notificationDeliveries, item.ClaimedBy send
  accepted : ∀ a ∈ w.acceptances, ∃ item ∈ w.tables.notificationDeliveries, item.Holds a
  consistent : ∀ a ∈ w.acceptances, a.Consistent w.acceptances

/-! ## Forgetting an email -/

/-- The provider has accepted an email of the delivery whose id the delivery does not have. -/
def World.Unrecorded (w : World) (item : EmailDelivery) : Prop :=
  ∃ a ∈ w.acceptances, a.deliveryId = item.id ∧ item.providerId ≠ some a.emailId

/-- The step leaves an accepted email without a delivery that is being sent or has its id: the email
is accepted after the delivery has left sending, or a write-back records no id, or a claim gives the
delivery up, or an event that names no email is taken for one about it. -/
def World.Forgets (env : NotificationEnv) (w : World) : NotificationStep → Prop
  | .accept send emailId => send ∈ w.sends ∧
      (send.acceptance emailId).Consistent w.acceptances ∧
      ∃ item ∈ w.tables.notificationDeliveries, item.id = send.deliveryId ∧
        item.status ≠ .sending ∧ item.providerId ≠ some emailId
  | .writeBack send response => send ∈ w.sends ∧ (readResponse response).1 ≠ .accepted ∧
      ∃ item ∈ w.tables.notificationDeliveries, item.id = send.deliveryId ∧ w.Unrecorded item
  | .claim now verify => ∃ item ∈ w.tables.notificationDeliveries, w.Unrecorded item ∧
      item.claimable now = true ∧
      ∃ user ∈ w.tables.notificationSubscribers, item.GivenUp verify now user
  | .webhook call => call.emailId = none ∧ ∃ account, call.Verified env w.tables account ∧
      ∃ item, webhookDelivery w.tables account call = some item ∧ w.Unrecorded item
  | _ => False

variable {w : World} {step : NotificationStep} {item item' : EmailDelivery} {a : Acceptance}

/-- Rows with one id are one row. -/
theorem World.delivery_unique (w : World) (h : item ∈ w.tables.notificationDeliveries)
    (h' : item' ∈ w.tables.notificationDeliveries) (hid : item.id = item'.id) : item = item' :=
  List.inj_on_of_nodup_map w.unique.delivery_ids h h' hid

/-- A tried delivery is claimed again for the account it is charged to. -/
theorem EmailDelivery.Accounted.reclaimed (hitem : item.Accounted w)
    {user : Subscriber} (huser : user ∈ w.tables.notificationSubscribers)
    (hid : user.id = item.subscriberId)
    (hversion : truthy item.connectionVersion = true →
      item.connectionVersion = some user.connectionVersion)
    (hfirst : item.firstAttempt ≠ none) : item.account = some user.account := by
  obtain ⟨version, hsome, hne⟩ := hitem.tried hfirst
  refine hitem.connection user huser hid (hversion ?_)
  exact truthy_eq_true.mpr ⟨version, hsome, hne⟩

/-- The delivery of an accepted email is charged to its account. -/
theorem Ledger.account_of (hledger : Ledger w) (ha : a ∈ w.acceptances)
    (hitem : item ∈ w.tables.notificationDeliveries) (hid : item.id = a.deliveryId) :
    item.account = some a.account := by
  obtain ⟨row, hrow, ⟨body, -, hcharged⟩, -⟩ := hledger.accepted a ha
  rw [w.delivery_unique hitem hrow (hid.trans hcharged.id_eq.symm)]
  exact hcharged.account

/-- A recorded id is the one the provider gave for the delivery. -/
theorem Ledger.recorded_eq (hledger : Ledger w) (ha : a ∈ w.acceptances)
    (hitem : item.Accounted w) (haccount : item.account = some a.account)
    (hid : item.id = a.deliveryId) {emailId : Str} (h : item.providerId = some emailId) :
    emailId = a.emailId := by
  obtain ⟨b, hb, hbid, rfl, hbaccount⟩ := hitem.recorded emailId h
  have hsame : b.account = a.account := Option.some_inj.mp (hbaccount.symm.trans haccount)
  exact ((hledger.consistent a ha) b hb).mp ⟨hsame, hbid.trans hid⟩

theorem of_name_ne_accepted (name : Str) : SendCode.ofName name ≠ .accepted := by
  unfold SendCode.ofName
  cases h : SendCode.known.find? (·.text = name) with
  | none => simp
  | some code =>
    have hmem := List.mem_of_find?_eq_some h
    rintro rfl
    revert hmem
    decide

/-- An accepted answer names an email. -/
theorem readResponse_accepted {response : Option Response}
    (h : (readResponse response).1 = .accepted) :
    ∃ emailId, (readResponse response).2.1 = some emailId := by
  unfold readResponse at h ⊢
  cases response with
  | none => cases h
  | some response =>
    dsimp only at h ⊢
    split
    · simp_all
    · simp_all
    next id name heq =>
      rw [heq] at h
      dsimp only at h
      split_ifs with hok
      · simp only [Bool.and_eq_true] at hok
        obtain ⟨text, rfl, -⟩ := truthy_eq_true.mp hok.2
        exact ⟨text, rfl⟩
      · rw [if_neg hok] at h
        exact absurd h (of_name_ne_accepted name)

/-- A write-back without an acceptance keeps the recorded id. -/
theorem writtenBack_providerId {now : Time} {response : Option Response}
    (h : (readResponse response).1 ≠ .accepted) :
    (item.writtenBack now response).providerId = item.providerId := by
  unfold EmailDelivery.writtenBack sendOutcome
  dsimp only
  rw [if_neg h]
  split_ifs <;> rfl

theorem writtenBack_accepted {now : Time} {response : Option Response} {emailId : Str}
    (h : (readResponse response).1 = .accepted)
    (hid : (readResponse response).2.1 = some emailId) :
    (item.writtenBack now response).providerId = some emailId := by
  unfold EmailDelivery.writtenBack sendOutcome
  dsimp only
  rw [if_pos h, ← hid]

/-! ## One assignment -/

theorem DeliveryStep.charged {account : Str} {body : Payload} {id : Str}
    (h : DeliveryStep env w step item item') (hitem : item.Accounted w)
    (hcharged : item.Charged id account body) : item'.Charged id account body := by
  obtain ⟨rfl, haccount, hpayload, hfirst⟩ := hcharged
  cases h with
  | cancelled => exact ⟨rfl, haccount, hpayload, hfirst⟩
  | superseded => exact ⟨rfl, haccount, hpayload, hfirst⟩
  | caught_up db found stop now _ hnone _ => exact absurd hnone hfirst
  | given_up => exact ⟨rfl, haccount, hpayload, hfirst⟩
  | postponed => exact ⟨rfl, haccount, hpayload, hfirst⟩
  | claimed user body' now _ _ huser hid hversion hbody =>
    have hsame := hitem.reclaimed huser hid hversion hfirst
    obtain rfl := hbody body hpayload
    exact ⟨rfl, hsame.symm.trans haccount, rfl, by simp [EmailDelivery.claimed]⟩
  | writtenBack send response =>
    obtain ⟨_, _, _, _, hframe⟩ := writtenBack_frame send.now item response
    rw [hframe]
    exact ⟨rfl, haccount, hpayload, hfirst⟩
  | event => exact ⟨rfl, haccount, hpayload, hfirst⟩

/-- The delivery of a claim under way is charged to its account. -/
theorem Ledger.claimed_by (hledger : Ledger w) {send : Send} (hsend : send ∈ w.sends)
    (hitem : item ∈ w.tables.notificationDeliveries) (hid : item.id = send.deliveryId) :
    item.ClaimedBy send := by
  obtain ⟨row, hrow, hclaimed⟩ := hledger.sends send hsend
  rwa [w.delivery_unique hitem hrow (hid.trans hclaimed.id_eq.symm)]

theorem DeliveryStep.accounted (h : DeliveryStep env w step item item') (hledger : Ledger w)
    (hitem : item.Accounted w) : item'.Accounted w := by
  obtain ⟨huntried, htried, hconnection, hrecorded⟩ := id hitem
  cases h with
  | cancelled => exact ⟨huntried, htried, hconnection, hrecorded⟩
  | superseded => exact ⟨huntried, htried, hconnection, hrecorded⟩
  | caught_up db found stop now _ hfirst _ =>
    obtain ⟨hversion, -, hprovider⟩ := huntried hfirst
    exact ⟨fun _ => ⟨hversion, rfl, hprovider⟩, htried, hconnection, hrecorded⟩
  | given_up => exact ⟨huntried, htried, hconnection, hrecorded⟩
  | postponed => exact ⟨huntried, htried, hconnection, hrecorded⟩
  | claimed user body now _ _ huser hid hversion _ =>
    refine ⟨fun hfirst => by simp [EmailDelivery.claimed] at hfirst,
      fun _ => ⟨_, rfl, hledger.versions user huser⟩, fun other hother hotherid _ => ?_,
      fun emailId hprovider => ?_⟩
    · rw [List.inj_on_of_nodup_map w.unique.subscriberIds hother huser (hotherid.trans hid.symm)]
      rfl
    · have hfirst : item.firstAttempt ≠ none := fun hnone => by
        have hnot := (huntried hnone).2.2
        rw [show item.providerId = some emailId from hprovider] at hnot
        cases hnot
      obtain ⟨a, ha, haid, haemail, haccount⟩ := hrecorded emailId hprovider
      have hsame := hitem.reclaimed huser hid hversion hfirst
      exact ⟨a, ha, haid, haemail, hsame.symm.trans haccount⟩
  | writtenBack send response _ hmem hid hsend hanswers =>
    obtain ⟨-, haccount, -, hfirst⟩ := hledger.claimed_by hsend hmem hid
    obtain ⟨_, _, providerId, _, hframe⟩ := writtenBack_frame send.now item response
    have hprovider : ∀ emailId, (item.writtenBack send.now response).providerId = some emailId →
        ∃ a ∈ w.acceptances, a.deliveryId = item.id ∧ a.emailId = emailId ∧
          item.account = some a.account := by
      intro emailId hemail
      by_cases hcode : (readResponse response).1 = .accepted
      · obtain ⟨named, hnamed⟩ := readResponse_accepted hcode
        rw [writtenBack_accepted hcode hnamed, Option.some_inj] at hemail
        exact ⟨_, hanswers named hnamed, hid.symm, hemail, haccount⟩
      · rw [writtenBack_providerId hcode] at hemail
        exact hrecorded emailId hemail
    rw [hframe] at hprovider ⊢
    exact ⟨fun hnone => absurd hnone hfirst, htried, hconnection, hprovider⟩
  | event => exact ⟨huntried, htried, hconnection, hrecorded⟩

/-- An acceptance that is written back is the one of its delivery. -/
theorem Ledger.named_eq (hledger : Ledger w) (ha : a ∈ w.acceptances) {send : Send}
    {response : Option Response} {emailId : Str} (hsend : send ∈ w.sends)
    (hanswers : w.Answers send response) (hnamed : (readResponse response).2.1 = some emailId)
    (hitem : item ∈ w.tables.notificationDeliveries) (hid : item.id = send.deliveryId)
    (ha_id : item.id = a.deliveryId) : emailId = a.emailId := by
  have hclaimed := (hledger.claimed_by hsend hitem hid).account
  have haccount : send.account = a.account :=
    Option.some_inj.mp (hclaimed.symm.trans (hledger.account_of ha hitem ha_id))
  exact ((hledger.consistent a ha) _ (hanswers emailId hnamed)).mp
    ⟨haccount, hid.symm.trans ha_id⟩

/-- A recorded id stays recorded. -/
theorem DeliveryStep.keeps_id (h : DeliveryStep env w step item item') (hledger : Ledger w)
    (ha : a ∈ w.acceptances) (hid : item.id = a.deliveryId)
    (hrecorded : item.providerId = some a.emailId) : item'.providerId = some a.emailId := by
  cases h with
  | writtenBack send response _ hmem hsendid hsend hanswers =>
    by_cases hcode : (readResponse response).1 = .accepted
    · obtain ⟨named, hnamed⟩ := readResponse_accepted hcode
      rw [writtenBack_accepted hcode hnamed,
        hledger.named_eq ha hsend hanswers hnamed hmem hsendid hid]
    · rw [writtenBack_providerId hcode]
      exact hrecorded
  | _ => exact hrecorded

/-- One assignment keeps the delivery of an accepted email. -/
theorem DeliveryStep.holds (h : DeliveryStep env w step item item') (hledger : Ledger w)
    (hitem : item.Accounted w) (ha : a ∈ w.acceptances) (hstep : ¬w.Forgets env step)
    (hrow : ∃ row ∈ w.tables.notificationDeliveries, row.id = item.id ∧
      (row.providerId = some a.emailId → item.providerId = some a.emailId))
    (hholds : item.Holds a) : item'.Holds a := by
  obtain ⟨⟨body, hbody, hcharged⟩, hknown⟩ := hholds
  refine ⟨⟨body, hbody, h.charged hitem hcharged⟩, ?_⟩
  obtain ⟨hid, haccount, -, hfirst⟩ := hcharged
  have hpending : item.status = .pending → item.providerId = some a.emailId := fun hpending =>
    hknown.resolve_right fun hsending => by rw [hpending] at hsending; cases hsending
  cases h with
  | cancelled h => exact .inl (hpending h)
  | superseded h _ _ => exact .inl (hpending h)
  | caught_up db found stop now h _ _ => exact .inl (hpending h)
  | given_up status errorCode now verify hclaim hmem hclaimable _ hreason =>
    refine .inl (by_contra fun hunrecorded => hstep ?_)
    rw [hclaim]
    obtain ⟨user, huser, hgiven⟩ := hreason.resolve_left hfirst
    exact ⟨item, hmem, ⟨a, ha, hid.symm, hunrecorded⟩, hclaimable, user, huser, hgiven⟩
  | postponed => exact hknown
  | claimed => exact .inr rfl
  | writtenBack send response hwrite hmem hsendid hsend hanswers =>
    left
    by_cases hcode : (readResponse response).1 = .accepted
    · obtain ⟨named, hnamed⟩ := readResponse_accepted hcode
      rw [writtenBack_accepted hcode hnamed,
        hledger.named_eq ha hsend hanswers hnamed hmem hsendid hid]
    · rw [writtenBack_providerId hcode]
      refine by_contra fun hunrecorded => hstep ?_
      rw [hwrite]
      exact ⟨hsend, hcode, item, hmem, hsendid, a, ha, hid.symm, hunrecorded⟩
  | event found status call account hcall hverified hfound hfoundid _ =>
    left
    obtain ⟨row, hrow, hrowid, hkept⟩ := hrow
    have hmem := List.mem_of_find?_eq_some hfound
    obtain rfl : row = found := w.delivery_unique hrow hmem (hrowid.trans hfoundid)
    refine hkept (by_contra fun hunrecorded => hstep ?_)
    rw [hcall]
    have hmatch : row.account = some account ∧ row.providerId = call.emailId := by
      simpa using List.find?_some hfound
    refine ⟨?_, account, hverified, row, hfound, a, ha, hid.symm.trans hrowid.symm, hunrecorded⟩
    -- an event that names an email finds the delivery that has its id
    refine Option.eq_none_iff_forall_ne_some.mpr fun emailId hemail => hunrecorded ?_
    have hprovider := hmatch.2.trans hemail
    have hrowaccount := hledger.account_of ha hrow (hrowid.trans hid)
    rw [hprovider, hledger.recorded_eq ha (hledger.accounted row hrow) hrowaccount
      (hrowid.trans hid) hprovider]

/-- What an assignment makes of the version of a connection is no new one. -/
theorem DeliveryStep.version_used (h : DeliveryStep env w step item item')
    (hitem : ∀ version, item.connectionVersion = some version → ¬w.tables.Unused version) :
    ∀ version, item'.connectionVersion = some version → ¬w.tables.Unused version := by
  cases h with
  | claimed user body now _ _ huser _ _ _ =>
    intro version hversion hunused
    obtain rfl := Option.some_inj.mp hversion
    exact hunused.2.1 (List.mem_map_of_mem huser)
  | writtenBack send response =>
    obtain ⟨_, _, _, _, hframe⟩ := writtenBack_frame send.now item response
    rw [hframe]
    exact hitem
  | _ => exact hitem

/-! ## Steps -/

/-- What holds of the rows before a step and of those it creates, and is kept by its assignments,
holds of the rows after it; and they have no new versions. -/
theorem rowsOf_step {I : EmailDelivery → Prop}
    (hbefore : ∀ item ∈ w.tables.notificationDeliveries, I item)
    (hcreated : ∀ item, Created step item → I item)
    (hassigned : ∀ item item', DeliveryStep env w step item item' → I item → I item')
    (hitem : item' ∈ (step.exec cfg S env w).tables.notificationDeliveries) :
    I item' ∧
      ∀ version, item'.connectionVersion = some version → ¬w.tables.Unused version := by
  obtain ⟨item, hmem | hnew, hsteps⟩ := (exec_evolves cfg S env w step).of_mem hitem
  all_goals clear hitem
  · induction hsteps with
    | refl =>
      refine ⟨hbefore item hmem, fun version hversion hunused => hunused.2.2 ?_⟩
      exact hversion ▸ List.mem_map_of_mem hmem
    | tail _ hlast ih => exact ⟨hassigned _ _ hlast ih.1, hlast.version_used ih.2⟩
  · induction hsteps with
    | refl =>
      refine ⟨hcreated item hnew, fun version hversion => ?_⟩
      rw [hnew.connectionVersion] at hversion
      cases hversion
    | tail _ hlast ih => exact ⟨hassigned _ _ hlast ih.1, hlast.version_used ih.2⟩

theorem Created.accounted (h : Created step item) : item.Accounted w := by
  obtain ⟨-, hfirst, hpayload, haccount, hversion, hprovider, -⟩ := h
  refine ⟨fun _ => ⟨hversion, hpayload, hprovider⟩, fun h => absurd hfirst h, ?_, ?_⟩
  · intro user _ _ hsame
    rw [hversion] at hsame
    cases hsame
  · intro emailId hsome
    rw [hprovider] at hsome
    cases hsome

/-- The rows after a step, by the ledger before it. -/
theorem Ledger.row_after (hledger : Ledger w)
    (hitem : item' ∈ (step.exec cfg S env w).tables.notificationDeliveries) :
    item'.Accounted w ∧
      ∀ version, item'.connectionVersion = some version → ¬w.tables.Unused version :=
  rowsOf_step hledger.accounted (fun _ hnew => hnew.accounted)
    (fun _ _ hlast hrow => hlast.accounted hledger hrow) hitem

/-- A delivery that is charged stays so. -/
theorem Ledger.charged_after (hledger : Ledger w) {id account : Str} {body : Payload}
    (hitem : item ∈ w.tables.notificationDeliveries) (hcharged : item.Charged id account body) :
    ∃ row ∈ (step.exec cfg S env w).tables.notificationDeliveries,
      row.Charged id account body := by
  obtain ⟨row, hrow, hsteps⟩ :=
    (exec_evolves cfg S env w step).exists_mem hitem
  refine ⟨row, hrow, ?_⟩
  have hboth : row.Accounted w ∧ row.Charged id account body := by
    clear hrow
    induction hsteps with
    | refl => exact ⟨hledger.accounted item hitem, hcharged⟩
    | tail _ hlast ih => exact ⟨hlast.accounted hledger ih.1, hlast.charged ih.1 ih.2⟩
  exact hboth.2

/-- A step that forgets nothing keeps the delivery of an accepted email. -/
theorem Ledger.holds_after (hledger : Ledger w) (ha : a ∈ w.acceptances)
    (hstep : ¬w.Forgets env step) :
    ∃ row ∈ (step.exec cfg S env w).tables.notificationDeliveries, row.Holds a := by
  obtain ⟨item, hitem, hholds⟩ := hledger.accepted a ha
  obtain ⟨row, hrow, hsteps⟩ :=
    (exec_evolves cfg S env w step).exists_mem hitem
  refine ⟨row, hrow, ?_⟩
  have hall : row.Accounted w ∧ row.Holds a ∧ row.id = item.id ∧
      (item.providerId = some a.emailId → row.providerId = some a.emailId) := by
    clear hrow
    induction hsteps with
    | refl => exact ⟨hledger.accounted item hitem, hholds, rfl, id⟩
    | tail _ hlast ih =>
      obtain ⟨haccounted, hholds', hid, hkept⟩ := ih
      obtain ⟨⟨body, -, hcharged⟩, -⟩ := id hholds'
      exact ⟨hlast.accounted hledger haccounted,
        hlast.holds hledger haccounted ha hstep ⟨item, hitem, hid.symm, hkept⟩ hholds',
        hlast.id_eq.trans hid,
        fun hrecorded => hlast.keeps_id hledger ha hcharged.id_eq (hkept hrecorded)⟩
  exact hall.2.1

variable (cfg S env) in
/-- What a step adds to the acceptances. -/
theorem exec_acceptances (w : World) (step : NotificationStep) :
    (step.exec cfg S env w).acceptances = w.acceptances ∨
      ∃ send emailId, step = .accept send emailId ∧ send ∈ w.sends ∧
        (send.acceptance emailId).Consistent w.acceptances ∧
        (step.exec cfg S env w).acceptances = w.acceptances ++ [send.acceptance emailId] := by
  have hcommit : ∀ (w : World) (t : NotificationTables), (w.commit t).acceptances = w.acceptances :=
    fun w t => by
      unfold World.commit
      split_ifs <;> rfl
  cases step with
  | tick | ingest | crash => exact .inl rfl
  | prepare now between uuid =>
    left
    simp only [NotificationStep.exec]
    split_ifs
    · obtain ⟨w', events, hprepare, -, -, -, hacceptances⟩ :=
        World.prepare_frame cfg S env w now between uuid
      rw [hprepare, hcommit, hacceptances]
    · rfl
  | claim now verify => exact .inl (hcommit w _)
  | accept send emailId =>
    by_cases h : send ∈ w.sends ∧ (send.acceptance emailId).Consistent w.acceptances
    · refine .inr ⟨send, emailId, rfl, h.1, h.2, ?_⟩
      simp only [NotificationStep.exec]
      rw [if_pos h]
    · left
      simp only [NotificationStep.exec]
      rw [if_neg h]
  | writeBack send response =>
    left
    simp only [NotificationStep.exec]
    split_ifs
    · exact hcommit w _
    · rfl
  | webhook call =>
    left
    simp only [NotificationStep.exec]
    split
    · rfl
    · exact hcommit w _
  | settings request tokens =>
    left
    simp only [NotificationStep.exec]
    split_ifs
    · split
      · rfl
      · exact hcommit w _
    · rfl

variable (cfg S env) in
theorem acceptances_subset (w : World) (step : NotificationStep) :
    w.acceptances ⊆ (step.exec cfg S env w).acceptances := by
  rcases exec_acceptances cfg S env w step with
    heq | ⟨send, emailId, -, -, -, heq⟩
  · rw [heq]
    exact List.Subset.refl _
  · rw [heq]
    exact List.subset_append_left _ _

/-- A claim under way after a step is one from before it, or what the step returns. -/
theorem sends_of_exec (w : World) (step : NotificationStep) {send : Send}
    (h : send ∈ (step.exec cfg S env w).sends) :
    send ∈ w.sends ∨ ∃ now verify, step = .claim now verify ∧
      (claim env w.db verify now w.tables).1.Unique ∧
      send ∈ (claim env w.db verify now w.tables).2 := by
  have hcommit : ∀ (w : World) (t : NotificationTables), (w.commit t).sends = w.sends :=
    fun w t => by
      unfold World.commit
      split_ifs <;> rfl
  cases step with
  | tick | ingest => exact .inl h
  | prepare now between uuid =>
    left
    simp only [NotificationStep.exec] at h
    split_ifs at h
    · obtain ⟨w', events, hprepare, -, -, hsends, -⟩ :=
        World.prepare_frame cfg S env w now between uuid
      rwa [hprepare, hcommit, hsends] at h
    · exact h
  | claim now verify =>
    simp only [NotificationStep.exec] at h
    split_ifs at h with hunique
    · exact (List.mem_append.mp h).imp_right fun hsend =>
        ⟨now, verify, rfl, hunique, by simpa using hsend⟩
    · exact .inl h
  | accept send' emailId =>
    left
    simp only [NotificationStep.exec] at h
    split_ifs at h <;> exact h
  | writeBack send' response =>
    left
    simp only [NotificationStep.exec] at h
    split_ifs at h
    · exact List.mem_of_mem_erase h
    · exact h
  | crash send' => exact .inl (List.mem_of_mem_erase h)
  | webhook call =>
    left
    simp only [NotificationStep.exec] at h
    split at h
    · exact h
    · rwa [hcommit] at h
  | settings request tokens =>
    left
    simp only [NotificationStep.exec] at h
    split_ifs at h
    · split at h
      · exact h
      · rwa [hcommit] at h
    · exact h

/-- A claim under way after a step is one from before it, or has just been made. -/
theorem exec_sends (w : World) (step : NotificationStep) {send : Send}
    (h : send ∈ (step.exec cfg S env w).sends) :
    send ∈ w.sends ∨
      ∃ row ∈ (step.exec cfg S env w).tables.notificationDeliveries, row.ClaimedBy send := by
  refine (sends_of_exec w step h).imp_right ?_
  rintro ⟨now, verify, rfl, hunique, hsend⟩
  simp only [NotificationStep.exec]
  rw [World.commit_tables hunique]
  exact (claim_spec env w verify now).2.2 send hsend

theorem Ledger.empty : Ledger .empty := by
  constructor <;> intro _ h <;> cases h

/-- An acceptance is consistent with itself and what is consistent with it. -/
theorem consistent_append {acceptances : List Acceptance}
    (hall : ∀ b ∈ acceptances, b.Consistent acceptances) (hnew : a.Consistent acceptances) :
    ∀ b ∈ acceptances ++ [a], b.Consistent (acceptances ++ [a]) := by
  intro b hb c hc
  rcases List.mem_append.mp hb with hb' | hb' <;> rcases List.mem_append.mp hc with hc' | hc'
  · exact hall b hb' c hc'
  · obtain rfl := List.mem_singleton.mp hc'
    have h := hnew b hb'
    constructor
    · rintro ⟨haccount, hid⟩
      exact (h.mp ⟨haccount.symm, hid.symm⟩).symm
    · intro hemail
      obtain ⟨haccount, hid⟩ := h.mpr hemail.symm
      exact ⟨haccount.symm, hid.symm⟩
  · obtain rfl := List.mem_singleton.mp hb'
    exact hnew c hc'
  · obtain rfl := List.mem_singleton.mp hb'
    obtain rfl := List.mem_singleton.mp hc'
    simp

/-- **A step that forgets no email keeps the ledger.** -/
theorem Ledger.exec (hledger : Ledger w) (hstep : ¬w.Forgets env step) :
    Ledger (step.exec cfg S env w) := by
  have hgrows := acceptances_subset cfg S env w step
  have hconnections := exec_connections cfg S env w step
  refine ⟨fun user' huser' => ?_, fun item' hitem' => ?_, fun send hsend => ?_, fun a ha => ?_, ?_⟩
  · rcases hconnections user' huser' with ⟨user, huser, hsame⟩ | hunused
    · rw [hsame.connectionVersion]
      exact hledger.versions user huser
    · exact hunused.1
  · obtain ⟨⟨huntried, htried, hconnection, hrecorded⟩, hused⟩ := hledger.row_after hitem'
    refine ⟨huntried, htried, fun user' huser' hid hversion => ?_, fun emailId hprovider => ?_⟩
    · rcases hconnections user' huser' with ⟨user, huser, hsame⟩ | hunused
      · rw [hsame.account_eq]
        exact hconnection user huser (hsame.id_eq ▸ hid) (hsame.connectionVersion ▸ hversion)
      · exact absurd hunused (hused _ hversion)
    · obtain ⟨a, ha, hspec⟩ := hrecorded emailId hprovider
      exact ⟨a, hgrows ha, hspec⟩
  · rcases exec_sends w step hsend with hbefore | hclaimed
    · obtain ⟨item, hitem, hcharged⟩ := hledger.sends send hbefore
      exact hledger.charged_after hitem hcharged
    · exact hclaimed
  · rcases exec_acceptances cfg S env w step with
      heq | ⟨send, emailId, hsteps, hsend, hconsistent, heq⟩
    · exact hledger.holds_after (heq ▸ ha) hstep
    · rw [heq] at ha
      rcases List.mem_append.mp ha with ha | ha
      · exact hledger.holds_after ha hstep
      · rw [List.mem_singleton] at ha
        subst ha hsteps
        obtain ⟨item, hitem, hcharged⟩ := hledger.sends send hsend
        have htables : ((NotificationStep.accept send emailId).exec cfg S env w).tables =
            w.tables := by
          simp only [NotificationStep.exec]
          split_ifs <;> rfl
        refine ⟨item, htables ▸ hitem, ⟨send.body, rfl, hcharged⟩, ?_⟩
        refine or_iff_not_imp_right.mpr fun hsending => by_contra fun hunrecorded => hstep ?_
        exact ⟨hsend, hconsistent, item, hitem, hcharged.id_eq, hsending, hunrecorded⟩
  · rcases exec_acceptances cfg S env w step with
      heq | ⟨send, emailId, -, -, hconsistent, heq⟩
    · rw [heq]
      exact hledger.consistent
    · rw [heq]
      exact consistent_append hledger.consistent hconsistent

/-! ## Runs -/

/-- The condition on a run: no step forgets an accepted email. -/
abbrev Remembers (cfg : Config) (S : Services) (env : NotificationEnv) (w : World)
    (steps : List NotificationStep) : Prop :=
  w.Along cfg S env (fun w step => ¬w.Forgets env step) steps

theorem Ledger.run {steps : List NotificationStep} (hledger : Ledger w)
    (hsteps : Remembers cfg S env w steps) : Ledger (w.run cfg S env steps) :=
  hsteps.invariant (I := Ledger) (fun _ _ hledger hstep => hledger.exec hstep) hledger

theorem run_acceptances (w : World) (steps : List NotificationStep) :
    w.acceptances ⊆ (w.run cfg S env steps).acceptances := by
  induction steps generalizing w with
  | nil => exact List.Subset.refl _
  | cons step steps ih => exact List.Subset.trans (acceptances_subset cfg S env w step) (ih _)

end JobPing
