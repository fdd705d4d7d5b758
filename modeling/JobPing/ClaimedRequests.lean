import JobPing.SendLedger
import JobPing.Runs

/-!
# What a claim finds

`Sendable` is what the checks of a claim have found on the delivery it returns, and `claim_cases` says
that a claim leaves the requests of all other deliveries as they were. `Bindings` holds in every state:
a request that has been claimed belongs to the version of a connection, and while that version is
current so are its account and its recipient.
-/

namespace JobPing

variable {cfg : Config} {S : Services} {env : NotificationEnv}

/-! ## Claims -/

/-- What a claim has found before it sends a delivery. -/
structure Sendable (env : NotificationEnv) (db : Db) (t : NotificationTables)
    (verify : Str → Str → Option Bool) (now : Time) (item : EmailDelivery) (user : Subscriber)
    (key : Str) (body : Payload) : Prop where
  suppressed : user.suppressed = false
  verified : user.verified = true
  alerts : item.kind = .alert → user.alerts = true
  recap : item.kind = .recap → user.recap = true
  version : truthy item.connectionVersion = true →
    item.connectionVersion = some user.connectionVersion
  window : ∀ first, item.firstAttempt = some first → now - first < hours 23
  budget : item.firstAttempt = none → budget t user.account item.kind now = true
  recipient : verify user.id user.email = some true
  apiKey : user.apiKey env = some key
  payload : frozenPayload env db item user = some body

/-- The columns of a request, which its first claim sets. -/
structure Request where
  id : Str
  subscriberId : Str
  payload : Option Payload
  account : Option Str
  connectionVersion : Option Str
  firstAttempt : Option Time

def EmailDelivery.request (item : EmailDelivery) : Request where
  id := item.id
  subscriberId := item.subscriberId
  payload := item.payload
  account := item.account
  connectionVersion := item.connectionVersion
  firstAttempt := item.firstAttempt

variable {w : World} {t : NotificationTables} {verify : Str → Str → Option Bool} {now : Time}
  {item : EmailDelivery} {items : List EmailDelivery}

theorem sendable_of_decision {db : Db} {user : Subscriber} {key : Str} {body : Payload}
    (h : claimDecision env db t verify now item user = .send key body) :
    Sendable env db t verify now item user key body := by
  unfold claimDecision at h
  split at h
  · cases h
  next hoff =>
  split at h
  · cases h
  next hversion =>
  split at h
  · cases h
  split at h
  · cases h
  next hlate =>
  split at h
  · cases h
  split at h
  · cases h
  next hbudget =>
  split at h
  · cases h
  · cases h
  next hverify =>
  split at h
  next hkey hbody =>
    cases h
    simp only [Bool.or_eq_true, Bool.and_eq_true, Bool.not_eq_true', decide_eq_true_eq, not_or,
      not_and, Bool.not_eq_true, Bool.not_eq_false, not_not] at hoff hversion hbudget
    obtain ⟨⟨⟨hsuppressed, hverified⟩, halerts⟩, hrecap⟩ := hoff
    refine ⟨hsuppressed, hverified, halerts, hrecap, hversion, fun first hfirst => ?_,
      fun hfirst => hbudget (by rw [hfirst]; rfl), hverify, hkey, hbody⟩
    rw [hfirst] at hlate
    simpa using hlate
  · cases h

/-- Assignments on other columns keep the requests. -/
theorem updateDelivery_requests (id : Str) {f : EmailDelivery → EmailDelivery}
    (hf : ∀ row, (f row).request = row.request) :
    (t.updateDelivery id f).notificationDeliveries.map (·.request) =
      t.notificationDeliveries.map (·.request) := by
  rw [NotificationTables.updateDelivery, NotificationTables.updateDeliveries, List.map_map]
  refine List.map_congr_left fun row _ => ?_
  rw [Function.comp_apply]
  split_ifs
  · exact hf row
  · rfl

/-- A round of the loop that returns nothing keeps the requests; the other ones claim their row. -/
theorem claimItem_cases (db : Db) (verify : Str → Str → Option Bool) (now : Time)
    (t : NotificationTables) (item : EmailDelivery) :
    ((claimItem env db verify now t item).2 = none ∧
      (claimItem env db verify now t item).1.notificationDeliveries.map (·.request) =
        t.notificationDeliveries.map (·.request)) ∨
    ∃ user key body, t.subscriber item.subscriberId = some user ∧
      Sendable env db t verify now item user key body ∧
      claimItem env db verify now t item =
        (t.updateDelivery item.id (·.claimed user body now),
          some ⟨item.id, key, body, user.account, now⟩) := by
  unfold claimItem
  split
  · exact .inl ⟨rfl, rfl⟩
  next user huser =>
  split
  · exact .inl ⟨rfl, updateDelivery_requests item.id fun _ => rfl⟩
  · exact .inl ⟨rfl, rfl⟩
  · exact .inl ⟨rfl, updateDelivery_requests item.id fun _ => rfl⟩
  · exact .inl ⟨rfl, updateDelivery_requests (t := t.updateSubscriber user.id _) item.id
      fun _ => rfl⟩
  · exact .inl ⟨rfl, rfl⟩
  next key body hdecision =>
    exact .inr ⟨user, key, body, huser, sendable_of_decision hdecision, rfl⟩

/-- **What a claim returns**, and the tables in which it finds it. -/
theorem claimItems_cases (h : Claiming w verify now t items) :
    ((claimItems env w.db verify now t items).2 = none ∧
      (claimItems env w.db verify now t items).1.notificationDeliveries.map (·.request) =
        t.notificationDeliveries.map (·.request)) ∨
    ∃ u item rest user key body, Claiming w verify now u (item :: rest) ∧
      u.notificationDeliveries.map (·.request) = t.notificationDeliveries.map (·.request) ∧
      u.subscriber item.subscriberId = some user ∧
      Sendable env w.db u verify now item user key body ∧
      claimItems env w.db verify now t items =
        (u.updateDelivery item.id (·.claimed user body now),
          some ⟨item.id, key, body, user.account, now⟩) := by
  induction items generalizing t with
  | nil => exact .inl ⟨rfl, rfl⟩
  | cons item items ih =>
    obtain ⟨-, hnext, -⟩ := claimItem_spec env h
    rcases claimItem_cases w.db verify now t item with
      ⟨hnone, hsame⟩ | ⟨user, key, body, huser, hsendable, hclaim⟩
    · have hloop : claimItems env w.db verify now t (item :: items) =
          claimItems env w.db verify now (claimItem env w.db verify now t item).1 items := by
        rw [claimItems]
        generalize claimItem env w.db verify now t item = result at hnone
        obtain ⟨t', send⟩ := result
        rw [show send = none from hnone]
      rw [hloop]
      refine (ih hnext).imp (fun h => ⟨h.1, h.2.trans hsame⟩) ?_
      rintro ⟨u, row, rest, user, key, body, hclaiming, hrequests, hrest⟩
      exact ⟨u, row, rest, user, key, body, hclaiming, hrequests.trans hsame, hrest⟩
    · refine .inr ⟨t, item, items, user, key, body, h, rfl, huser, hsendable, ?_⟩
      rw [claimItems, hclaim]

variable (env) in
theorem claim_cases (w : World) (verify : Str → Str → Option Bool) (now : Time) :
    ((claim env w.db verify now w.tables).2 = none ∧
      (claim env w.db verify now w.tables).1.notificationDeliveries.map (·.request) =
        w.tables.notificationDeliveries.map (·.request)) ∨
    ∃ u item rest user key body, Claiming w verify now u (item :: rest) ∧
      u.notificationDeliveries.map (·.request) =
        w.tables.notificationDeliveries.map (·.request) ∧
      u.subscriber item.subscriberId = some user ∧
      Sendable env w.db u verify now item user key body ∧
      claim env w.db verify now w.tables =
        (u.updateDelivery item.id (·.claimed user body now),
          some ⟨item.id, key, body, user.account, now⟩) :=
  claimItems_cases (claiming_candidates w verify now)

variable (env) in
/-- A claim keeps the keys of the tables. -/
theorem claimItem_sameKeys (db : Db) (verify : Str → Str → Option Bool) (now : Time)
    (t : NotificationTables) (item : EmailDelivery) :
    t.SameKeys (claimItem env db verify now t item).1 := by
  unfold claimItem
  split
  · exact .refl t
  split
  · exact NotificationTables.sameKeys_updateDeliveries _ fun _ => rfl
  · exact .refl t
  · exact NotificationTables.sameKeys_updateDeliveries _ fun _ => rfl
  · exact (NotificationTables.sameKeys_updateSubscriber _ fun _ => by rfl).trans
      (NotificationTables.sameKeys_updateDeliveries _ fun _ => by rfl)
  · exact NotificationTables.sameKeys_updateSubscriber _ fun _ => rfl
  · exact NotificationTables.sameKeys_updateDeliveries _ fun _ => rfl

variable (env) in
theorem claimItems_sameKeys (db : Db) (verify : Str → Str → Option Bool) (now : Time)
    (t : NotificationTables) (items : List EmailDelivery) :
    t.SameKeys (claimItems env db verify now t items).1 := by
  induction items generalizing t with
  | nil => exact .refl t
  | cons item items ih =>
    have hround := claimItem_sameKeys env db verify now t item
    unfold claimItems
    split
    next t' send heq =>
      rw [heq] at hround
      exact hround
    next t' heq =>
      rw [heq] at hround
      exact hround.trans (ih t')

variable (cfg S env) in
/-- A claim commits. -/
theorem exec_claim (w : World) (now : Time) (verify : Str → Str → Option Bool) :
    ((NotificationStep.claim now verify).exec cfg S env w).tables =
        (claim env w.db verify now w.tables).1 ∧
      ((NotificationStep.claim now verify).exec cfg S env w).sends =
        w.sends ++ (claim env w.db verify now w.tables).2.toList := by
  have hunique : (claim env w.db verify now w.tables).1.Unique :=
    w.unique.of_sameKeys (claimItems_sameKeys env w.db verify now w.tables _)
  simp only [NotificationStep.exec]
  exact ⟨World.commit_tables hunique, if_pos hunique⟩

/-- The claimed row of a claim, and its subscriber, in the tables after it. -/
theorem Claiming.claimed_rows {rest : List EmailDelivery}
    (h : Claiming w verify now t (item :: rest)) {user : Subscriber} (body : Payload)
    (huser : t.subscriber item.subscriberId = some user) :
    (t.updateDelivery item.id (·.claimed user body now)).delivery item.id =
        some (item.claimed user body now) ∧
      (t.updateDelivery item.id (·.claimed user body now)).subscriber
        (item.claimed user body now).subscriberId = some user := by
  refine ⟨?_, huser⟩
  have hmem : item.claimed user body now ∈
      (t.updateDelivery item.id (·.claimed user body now)).notificationDeliveries :=
    List.mem_map.mpr ⟨item, h.rows item List.mem_cons_self, by simp⟩
  have hids : ((t.updateDelivery item.id (·.claimed user body now)).notificationDeliveries.map
      EmailDelivery.id).Nodup := by
    rw [NotificationTables.updateDelivery, updateDeliveries_ids fun _ => by rfl]
    exact h.ids
  exact Table.find?_key hids hmem

/-! ## Bindings -/

/-- A request belongs to the version of a connection. -/
structure EmailDelivery.Bound (w : World) (item : EmailDelivery) : Prop where
  untried : item.firstAttempt = none → item.connectionVersion = none ∧ item.payload = none
  tried : item.firstAttempt ≠ none →
    ∃ version, item.connectionVersion = some version ∧ version ≠ []
  connection : ∀ user ∈ w.tables.notificationSubscribers, user.id = item.subscriberId →
    item.connectionVersion = some user.connectionVersion →
    item.account = some user.account ∧
      ∀ body, item.payload = some body → body.recipients = [user.email]

structure Bindings (w : World) : Prop where
  versions : ∀ user ∈ w.tables.notificationSubscribers, user.connectionVersion ≠ []
  bound : ∀ item ∈ w.tables.notificationDeliveries, item.Bound w

variable {step : NotificationStep} {item' : EmailDelivery}

/-- A tried delivery that may be claimed again belongs to the present connection. -/
theorem EmailDelivery.Bound.current (hitem : item.Bound w) {user : Subscriber}
    (hversion : truthy item.connectionVersion = true →
      item.connectionVersion = some user.connectionVersion)
    (hfirst : item.firstAttempt ≠ none) :
    item.connectionVersion = some user.connectionVersion := by
  obtain ⟨version, hsome, hne⟩ := hitem.tried hfirst
  exact hversion (truthy_eq_true.mpr ⟨version, hsome, hne⟩)

/-- What a claim sends goes to the present address. -/
theorem EmailDelivery.Bound.recipients (hitem : item.Bound w) {user : Subscriber} {body : Payload}
    (huser : user ∈ w.tables.notificationSubscribers) (hid : user.id = item.subscriberId)
    (hversion : truthy item.connectionVersion = true →
      item.connectionVersion = some user.connectionVersion)
    (hbody : ∀ frozen, item.payload = some frozen → frozen = body)
    (hrecipient : item.payload = none → body.recipients = [user.email]) :
    body.recipients = [user.email] := by
  cases hpayload : item.payload with
  | none => exact hrecipient hpayload
  | some frozen =>
    have hfirst : item.firstAttempt ≠ none := fun hnone => by
      rw [(hitem.untried hnone).2] at hpayload
      cases hpayload
    obtain rfl := hbody frozen hpayload
    exact (hitem.connection user huser hid (hitem.current hversion hfirst)).2 frozen hpayload

/-- An assignment on other columns. -/
theorem EmailDelivery.Bound.of_request (hitem : item.Bound w) (h : item'.request = item.request) :
    item'.Bound w := by
  simp only [EmailDelivery.request, Request.mk.injEq] at h
  obtain ⟨-, hsubscriber, hpayload, haccount, hversion, hfirst⟩ := h
  obtain ⟨huntried, htried, hconnection⟩ := hitem
  rw [← hfirst, ← hversion] at huntried htried
  rw [← hpayload] at huntried
  refine ⟨huntried, htried, ?_⟩
  rw [hsubscriber, hversion, haccount, hpayload]
  exact hconnection

theorem DeliveryStep.bound (h : DeliveryStep env w step item item') (hbindings : Bindings w)
    (hitem : item.Bound w) : item'.Bound w := by
  cases h with
  | caught_up db found stop now _ hfirst _ _ =>
    obtain ⟨hversion, -⟩ := hitem.untried hfirst
    refine ⟨fun _ => ⟨hversion, rfl⟩, fun h => absurd hfirst h, fun user _ _ hsame => ?_⟩
    rw [show (item.catchUp db found stop now).connectionVersion = none from hversion] at hsame
    cases hsame
  | claimed user body now _ _ huser hid hversion hbody verify _ hrecipient =>
    refine ⟨fun hnone => by simp [EmailDelivery.claimed] at hnone,
      fun _ => ⟨_, rfl, hbindings.versions user huser⟩, fun other hother hotherid _ => ?_⟩
    obtain rfl : other = user :=
      List.inj_on_of_nodup_map w.unique.subscriberIds hother huser (hotherid.trans hid.symm)
    refine ⟨rfl, ?_⟩
    rintro _ ⟨⟩
    exact hitem.recipients huser hid hversion hbody hrecipient
  | writtenBack send response =>
    obtain ⟨_, _, _, _, hframe⟩ := writtenBack_frame send.now item response
    rw [hframe]
    exact hitem.of_request rfl
  | _ => exact hitem.of_request rfl

theorem Created.bound (h : Created step item) : item.Bound w where
  untried _ := ⟨h.connectionVersion, h.payload⟩
  tried hfirst := absurd h.firstAttempt hfirst
  connection user _ _ hsame := by
    rw [h.connectionVersion] at hsame
    cases hsame

/-- The rows after a step, by the bindings before it. -/
theorem Bindings.row_after (hbindings : Bindings w)
    (hitem : item' ∈ (step.exec cfg S env w).tables.notificationDeliveries) :
    item'.Bound w ∧
      ∀ version, item'.connectionVersion = some version → ¬w.tables.Unused version :=
  rowsOf_step hbindings.bound (fun _ hnew => hnew.bound)
    (fun _ _ hlast hrow => hlast.bound hbindings hrow) hitem

variable (cfg S env) in
theorem Bindings.exec (hbindings : Bindings w) (step : NotificationStep) :
    Bindings (step.exec cfg S env w) := by
  have hconnections := exec_connections cfg S env w step
  refine ⟨fun user' huser' => ?_, fun item' hitem' => ?_⟩
  · rcases hconnections user' huser' with ⟨user, huser, hsame⟩ | hunused
    · rw [hsame.connectionVersion]
      exact hbindings.versions user huser
    · exact hunused.1
  · obtain ⟨⟨huntried, htried, hconnection⟩, hused⟩ := hbindings.row_after hitem'
    refine ⟨huntried, htried, fun user' huser' hid hversion => ?_⟩
    rcases hconnections user' huser' with ⟨user, huser, hsame⟩ | hunused
    · rw [hsame.account_eq, hsame.email]
      exact hconnection user huser (hsame.id_eq ▸ hid) (hsame.connectionVersion ▸ hversion)
    · exact absurd hunused (hused _ hversion)

theorem bindings_empty : Bindings .empty := ⟨by simp [World.empty, NotificationTables.empty],
  by simp [World.empty, NotificationTables.empty]⟩

variable (cfg S env) in
/-- The bindings hold in every state that a run reaches. -/
theorem bindings_run (steps : List NotificationStep) :
    Bindings (World.empty.run cfg S env steps) := by
  induction steps using List.reverseRecOn with
  | nil => exact bindings_empty
  | append_singleton steps step ih =>
    rw [World.run_concat]
    exact ih.exec cfg S env step

/-! ## Recipients -/

variable (cfg S env) in
/-- **What a claim returns is addressed to the present address of its subscriber**, who is verified,
not suppressed, and wants emails of this kind. -/
theorem recipient_safety (steps : List NotificationStep) (verify : Str → Str → Option Bool)
    (now : Time) (send : Send)
    (h : send ∈ (claim env (World.empty.run cfg S env steps).db verify now
      (World.empty.run cfg S env steps).tables).2) :
    let t := ((NotificationStep.claim now verify).exec cfg S env
      (World.empty.run cfg S env steps)).tables
    ∃ item user, t.delivery send.deliveryId = some item ∧
      t.subscriber item.subscriberId = some user ∧ send.body.recipients = [user.email] ∧
      user.verified = true ∧ user.suppressed = false ∧
      (item.kind = .alert → user.alerts = true) ∧ (item.kind = .recap → user.recap = true) := by
  have hbindings := bindings_run cfg S env steps
  generalize World.empty.run cfg S env steps = w at h hbindings ⊢
  rw [(exec_claim cfg S env w now verify).1]
  rcases claim_cases env w verify now with
    ⟨hnone, -⟩ | ⟨u, item, rest, user, key, body, hclaiming, -, huser, hsendable, hclaim⟩
  · rw [hnone] at h
    cases h
  · rw [hclaim] at h ⊢
    obtain rfl := Option.some_inj.mp h
    obtain ⟨hrow, hsubscriber⟩ := hclaiming.claimed_rows body huser
    obtain ⟨before, hbefore, verified, status, rfl, -⟩ :=
      hclaiming.subscribers user (List.mem_of_find?_eq_some huser)
    have hitem := hbindings.bound item (hclaiming.before item List.mem_cons_self)
    have hid : before.id = item.subscriberId := by simpa using List.find?_some huser
    obtain ⟨hfrozen, hrecipient⟩ := frozenPayload_eq_some hsendable.payload
    have hrecipients : body.recipients = [before.email] :=
      hitem.recipients hbefore hid hsendable.version hfrozen hrecipient
    exact ⟨_, _, hrow, hsubscriber, hrecipients, hsendable.verified, hsendable.suppressed,
      hsendable.alerts, hsendable.recap⟩

/-- A test email is claimed. -/
theorem test_recipient_safe :
    let w := World.empty.run sampleConfig .ascii .plain connectSteps
    let t := ((NotificationStep.claim 0 fun _ _ => some true).exec sampleConfig .ascii .plain w).tables
    ∃ item user, t.delivery (sampleSend 0).deliveryId = some item ∧
      t.subscriber item.subscriberId = some user ∧
      (sampleSend 0).body.recipients = [user.email] ∧ user.verified = true ∧
      user.suppressed = false ∧ (item.kind = .alert → user.alerts = true) ∧
      (item.kind = .recap → user.recap = true) :=
  recipient_safety sampleConfig .ascii .plain connectSteps (fun _ _ => some true) 0 (sampleSend 0)
    (by decide +kernel)

end JobPing
