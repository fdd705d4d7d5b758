import JobPing.ClaimedRequests

/-!
# Requests with one idempotency key

The provider ignores a repeated request for a day, so long as its body is the same. `World.claims` is
the list of the claims of a run, and `send_idempotency` says that the claims of a delivery make one
request, in the name of one connection, within 23 hours of the first of them.
-/

namespace JobPing

variable {cfg : Config} {S : Services} {env : NotificationEnv}

/-! ## The claims of a run -/

/-- A claim that has committed: what it returns, and the connection and the first attempt that its
delivery has from then on. -/
structure CommittedClaim where
  send : Send
  connectionVersion : Option Str
  firstAttempt : Option Time
  deriving DecidableEq

/-- The claim that a step commits. -/
def NotificationStep.claims (cfg : Config) (S : Services) (env : NotificationEnv) (w : World)
    (step : NotificationStep) : List CommittedClaim :=
  match step with
  | .claim now verify =>
    let t := (step.exec cfg S env w).tables
    (JobPing.claim env w.db verify now w.tables).2.toList.map fun send =>
      ⟨send, (t.delivery send.deliveryId).bind (·.connectionVersion),
        (t.delivery send.deliveryId).bind (·.firstAttempt)⟩
  | _ => []

/-- The claims of a run, in the order of their commits. -/
def World.claims (cfg : Config) (S : Services) (env : NotificationEnv) (w : World)
    (steps : List NotificationStep) : List CommittedClaim :=
  w.log cfg S env (fun w step => step.claims cfg S env w) steps

variable {w : World} {t : NotificationTables} {step : NotificationStep}
  {steps : List NotificationStep} {item item' : EmailDelivery} {c : CommittedClaim}
  {claims : List CommittedClaim}

/-! ## Frozen requests -/

/-- A delivery has the request of a claim. -/
structure EmailDelivery.Frozen (c : CommittedClaim) (item : EmailDelivery) : Prop where
  id_eq : item.id = c.send.deliveryId
  payload : item.payload = some c.send.body
  account : item.account = some c.send.account
  connectionVersion : item.connectionVersion = c.connectionVersion
  firstAttempt : item.firstAttempt = c.firstAttempt
  tried : item.firstAttempt ≠ none

theorem EmailDelivery.Frozen.of_request (hitem : item.Frozen c) (h : item'.request = item.request) :
    item'.Frozen c := by
  simp only [EmailDelivery.request, Request.mk.injEq] at h
  obtain ⟨hid, -, hpayload, haccount, hversion, hfirst⟩ := h
  exact ⟨hid.trans hitem.id_eq, hpayload.trans hitem.payload, haccount.trans hitem.account,
    hversion.trans hitem.connectionVersion, hfirst.trans hitem.firstAttempt,
    hfirst ▸ hitem.tried⟩

/-- A claim keeps the request of a tried delivery. -/
theorem EmailDelivery.Frozen.claimed (hitem : item.Frozen c) (hbound : item.Bound w)
    {user : Subscriber} {body : Payload} (huser : user ∈ w.tables.notificationSubscribers)
    (hid : user.id = item.subscriberId)
    (hversion : truthy item.connectionVersion = true →
      item.connectionVersion = some user.connectionVersion)
    (hbody : ∀ frozen, item.payload = some frozen → frozen = body) (now : Time) :
    (item.claimed user body now).Frozen c := by
  have hcurrent := hbound.current hversion hitem.tried
  obtain rfl := hbody _ hitem.payload
  obtain ⟨first, hfirst⟩ := Option.ne_none_iff_exists'.mp hitem.tried
  refine ⟨hitem.id_eq, rfl, ?_, ?_, ?_, by simp [EmailDelivery.claimed]⟩
  · rw [← hitem.account]
    exact (hbound.connection user huser hid hcurrent).1.symm
  · exact hcurrent.symm.trans hitem.connectionVersion
  · rw [← hitem.firstAttempt, hfirst]
    simp [EmailDelivery.claimed, hfirst]

theorem DeliveryStep.frozen (h : DeliveryStep env w step item item') (hbound : item.Bound w)
    (hitem : item.Frozen c) : item'.Frozen c := by
  cases h with
  | caught_up db found stop now _ hfirst _ _ => exact absurd hfirst hitem.tried
  | claimed user body now _ _ huser hid hversion hbody _ _ _ =>
    exact hitem.claimed hbound huser hid hversion hbody now
  | writtenBack send response =>
    obtain ⟨_, _, _, _, hframe⟩ := writtenBack_frame send.now item response
    rw [hframe]
    exact hitem.of_request rfl
  | _ => exact hitem.of_request rfl

/-- A step keeps the requests that have been claimed. -/
theorem Bindings.frozen_after (hbindings : Bindings w)
    (hitem : item ∈ w.tables.notificationDeliveries) (hfrozen : item.Frozen c) :
    ∃ row ∈ (step.exec cfg S env w).tables.notificationDeliveries, row.Frozen c := by
  obtain ⟨row, hrow, hsteps⟩ := (exec_evolves cfg S env w step).exists_mem hitem
  refine ⟨row, hrow, ?_⟩
  have hboth : row.Bound w ∧ row.Frozen c := by
    clear hrow
    induction hsteps with
    | refl => exact ⟨hbindings.bound item hitem, hfrozen⟩
    | tail _ hlast ih => exact ⟨hlast.bound hbindings ih.1, hlast.frozen ih.1 ih.2⟩
  exact hboth.2

/-! ## First attempts -/

/-- The first claim of a delivery. -/
def firstClaim (claims : List CommittedClaim) (id : Str) : Option CommittedClaim :=
  claims.find? (·.send.deliveryId = id)

/-- A delivery has been tried when its first claim was. -/
def EmailDelivery.FirstTried (claims : List CommittedClaim) (item : EmailDelivery) : Prop :=
  item.firstAttempt = (firstClaim claims item.id).map (·.send.now)

theorem firstClaim_append (claims later : List CommittedClaim) (id : Str) :
    firstClaim (claims ++ later) id = (firstClaim claims id).or (firstClaim later id) :=
  List.find?_append

/-- The claims of a run against the deliveries at its end. -/
structure ClaimBook (claims : List CommittedClaim) (w : World) : Prop where
  bindings : Bindings w
  frozen : ∀ c ∈ claims, ∃ item ∈ w.tables.notificationDeliveries, item.Frozen c
  first : ∀ item ∈ w.tables.notificationDeliveries, item.FirstTried claims
  window : ∀ c ∈ claims, ∃ first, c.firstAttempt = some first ∧ c.send.now - first < hours 23
  sends : ∀ send ∈ w.sends, ∃ c ∈ claims, c.send = send

/-- A delivery that has not been tried has no claims. -/
theorem firstClaim_eq_none (hrows : ∀ c ∈ claims, ∃ row ∈ w.tables.notificationDeliveries,
      row.Frozen c) (hitem : item ∈ w.tables.notificationDeliveries)
    (hfirst : item.firstAttempt = none) : firstClaim claims item.id = none := by
  refine List.find?_eq_none.mpr fun c hc hid => ?_
  obtain ⟨row, hrow, hfrozen⟩ := hrows c hc
  obtain rfl : row = item :=
    w.delivery_unique hrow hitem (hfrozen.id_eq.trans (by simpa using hid))
  exact hfrozen.tried hfirst

/-- Only a claim tries a delivery. -/
theorem DeliveryStep.firstAttempt_eq (h : DeliveryStep env w step item item')
    (hstep : ∀ now verify, step ≠ .claim now verify) :
    item'.firstAttempt = item.firstAttempt := by
  cases h with
  | claimed user body now _ _ _ _ _ _ verify hclaim _ => exact absurd hclaim (hstep now verify)
  | writtenBack send response =>
    obtain ⟨_, _, _, _, hframe⟩ := writtenBack_frame send.now item response
    rw [hframe]
  | _ => rfl

theorem delivery_steps_firstAttempt (hstep : ∀ now verify, step ≠ .claim now verify)
    (h : Relation.ReflTransGen (DeliveryStep env w step) item item') :
    item'.firstAttempt = item.firstAttempt := by
  induction h with
  | refl => rfl
  | tail _ hlast ih => rw [hlast.firstAttempt_eq hstep, ih]

/-! ## Steps -/

/-- A step that claims nothing. -/
theorem ClaimBook.exec_of_ne (h : ClaimBook claims w)
    (hstep : ∀ now verify, step ≠ .claim now verify) :
    ClaimBook claims (step.exec cfg S env w) := by
  have hrows : ∀ c ∈ claims, ∃ row ∈ (step.exec cfg S env w).tables.notificationDeliveries,
      row.Frozen c := fun c hc => by
    obtain ⟨item, hitem, hfrozen⟩ := h.frozen c hc
    exact h.bindings.frozen_after hitem hfrozen
  refine ⟨h.bindings.exec cfg S env step, hrows, fun item' hitem' => ?_, h.window,
    fun send hsend => ?_⟩
  · cases hfirst : item'.firstAttempt with
    | none =>
      rw [EmailDelivery.FirstTried, firstClaim_eq_none hrows hitem' hfirst]
      exact hfirst
    | some first =>
      obtain ⟨item, hbefore, hsteps⟩ := (exec_evolves cfg S env w step).of_mem hitem'
      have hsame := delivery_steps_firstAttempt hstep hsteps
      rcases hbefore with hmem | hcreated
      · have hitem := h.first item hmem
        rw [EmailDelivery.FirstTried] at hitem ⊢
        rw [hsame, hitem, delivery_steps_id hsteps]
      · rw [hcreated.firstAttempt, hfirst] at hsame
        cases hsame
  · rcases sends_of_exec w step hsend with hbefore | ⟨now, verify, hclaim, -⟩
    · exact h.sends send hbefore
    · exact absurd hclaim (hstep now verify)

/-- The rows of other deliveries after a claim. -/
theorem Claiming.other_rows {u : NotificationTables} {rest : List EmailDelivery}
    {verify : Str → Str → Option Bool} {now : Time} {f : EmailDelivery → EmailDelivery}
    (h : Claiming w verify now u (item :: rest))
    (hrequests : u.notificationDeliveries.map (·.request) =
      w.tables.notificationDeliveries.map (·.request))
    (hrow : item' ∈ (u.updateDelivery item.id f).notificationDeliveries) :
    item' = f item ∨ item'.id ≠ item.id ∧
      ∃ row ∈ w.tables.notificationDeliveries, row.request = item'.request := by
  obtain ⟨row, hmem, rfl⟩ := List.mem_map.mp hrow
  by_cases hid : row.id = item.id
  · left
    rw [if_pos (by simpa using hid),
      List.inj_on_of_nodup_map h.ids hmem (h.rows item List.mem_cons_self) hid]
  · rw [if_neg (by simpa using hid)]
    refine .inr ⟨hid, ?_⟩
    have hrequest := List.mem_map_of_mem (f := EmailDelivery.request) hmem
    rw [hrequests] at hrequest
    exact List.mem_map.mp hrequest

theorem EmailDelivery.FirstTried.of_request (h : item.FirstTried claims)
    (hrequest : item.request = item'.request) : item'.FirstTried claims := by
  simp only [EmailDelivery.request, Request.mk.injEq] at hrequest
  obtain ⟨hid, -, -, -, -, hfirst⟩ := hrequest
  unfold EmailDelivery.FirstTried at h ⊢
  rw [← hfirst, ← hid]
  exact h

/-- A claim that returns nothing. -/
theorem ClaimBook.exec_of_none (h : ClaimBook claims w) {now : Time}
    {verify : Str → Str → Option Bool} (hnone : (claim env w.db verify now w.tables).2 = none)
    (hrequests : (claim env w.db verify now w.tables).1.notificationDeliveries.map (·.request) =
      w.tables.notificationDeliveries.map (·.request)) :
    ClaimBook claims ((NotificationStep.claim now verify).exec cfg S env w) := by
  obtain ⟨htables, hsends⟩ := exec_claim cfg S env w now verify
  refine ⟨h.bindings.exec cfg S env _, fun c hc => ?_, fun item' hitem' => ?_, h.window,
    fun send hsend => ?_⟩
  · obtain ⟨item, hitem, hfrozen⟩ := h.frozen c hc
    exact h.bindings.frozen_after hitem hfrozen
  · rw [htables] at hitem'
    have hmem := List.mem_map_of_mem (f := EmailDelivery.request) hitem'
    rw [hrequests] at hmem
    obtain ⟨item, hitem, hrequest⟩ := List.mem_map.mp hmem
    exact (h.first item hitem).of_request hrequest
  · rw [hsends, hnone] at hsend
    exact h.sends send (by simpa using hsend)

/-- A claim that returns a delivery. -/
theorem ClaimBook.exec_of_some (h : ClaimBook claims w) {now : Time}
    {verify : Str → Str → Option Bool} {u : NotificationTables} {rest : List EmailDelivery}
    {user : Subscriber} {key : Str} {body : Payload}
    (hclaiming : Claiming w verify now u (item :: rest))
    (hrequests : u.notificationDeliveries.map (·.request) =
      w.tables.notificationDeliveries.map (·.request))
    (huser : u.subscriber item.subscriberId = some user)
    (hsendable : Sendable env w.db u verify now item user key body)
    (hclaim : claim env w.db verify now w.tables =
      (u.updateDelivery item.id (·.claimed user body now),
        some ⟨item.id, key, body, user.account, now⟩)) :
    ClaimBook (claims ++ (NotificationStep.claim now verify).claims cfg S env w)
      ((NotificationStep.claim now verify).exec cfg S env w) := by
  obtain ⟨htables, hsends⟩ := exec_claim cfg S env w now verify
  rw [hclaim] at htables hsends
  obtain ⟨hrow, -⟩ := hclaiming.claimed_rows body huser
  obtain ⟨c, hc⟩ : ∃ c : CommittedClaim, c = ⟨⟨item.id, key, body, user.account, now⟩,
    some user.connectionVersion, some (item.firstAttempt.getD now)⟩ := ⟨_, rfl⟩
  have hclaims : (NotificationStep.claim now verify).claims cfg S env w = [c] := by
    rw [NotificationStep.claims, htables, hclaim]
    simp only [Option.toList_some, List.map_cons, List.map_nil, hrow, hc]
    rfl
  have hbefore := h.first item (hclaiming.before item List.mem_cons_self)
  rw [hclaims]
  refine ⟨h.bindings.exec cfg S env _, fun c' hc' => ?_, fun item' hitem' => ?_, fun c' hc' => ?_,
    fun send hsend => ?_⟩
  · rcases List.mem_append.mp hc' with hold | hnew
    · obtain ⟨row, hmem, hfrozen⟩ := h.frozen c' hold
      exact h.bindings.frozen_after hmem hfrozen
    · obtain rfl := List.mem_singleton.mp hnew
      refine ⟨item.claimed user body now, ?_, ?_⟩
      · rw [htables]
        exact List.mem_of_find?_eq_some hrow
      · subst hc
        exact ⟨rfl, rfl, rfl, rfl, rfl, by simp [EmailDelivery.claimed]⟩
  · rw [htables] at hitem'
    unfold EmailDelivery.FirstTried
    rw [firstClaim_append]
    rcases hclaiming.other_rows hrequests hitem' with rfl | ⟨hid, row, hmem, hrequest⟩
    · -- the first claim of a delivery is the one that tries it
      change some (item.firstAttempt.getD now) = _
      unfold EmailDelivery.FirstTried at hbefore
      rw [show (item.claimed user body now).id = item.id from rfl, hbefore]
      cases hfirst : firstClaim claims item.id with
      | none => simp [firstClaim, hc]
      | some first => rfl
    · have hother : firstClaim [c] item'.id = none := by
        simpa [firstClaim, hc] using fun heq => hid heq.symm
      rw [hother, Option.or_none]
      exact (h.first row hmem).of_request hrequest
  · rcases List.mem_append.mp hc' with hold | hnew
    · exact h.window c' hold
    · obtain rfl := List.mem_singleton.mp hnew
      refine ⟨item.firstAttempt.getD now, by rw [hc], ?_⟩
      rw [hc]
      cases hfirst : item.firstAttempt with
      | none =>
        change now - now < hours 23
        rw [sub_self]
        decide
      | some first => exact hsendable.window first hfirst
  · rw [hsends] at hsend
    rcases List.mem_append.mp hsend with hold | hnew
    · obtain ⟨c', hc', heq⟩ := h.sends send hold
      exact ⟨c', List.mem_append_left _ hc', heq⟩
    · refine ⟨c, List.mem_append_right _ (List.mem_singleton_self c), ?_⟩
      rw [hc]
      simpa using Eq.symm (by simpa using hnew)

variable (cfg S env) in
/-- **A step keeps the book** of the claims up to it. -/
theorem ClaimBook.exec (h : ClaimBook claims w) (step : NotificationStep) :
    ClaimBook (claims ++ step.claims cfg S env w) (step.exec cfg S env w) := by
  cases step with
  | claim now verify =>
    rcases claim_cases env w verify now with
      ⟨hnone, hrequests⟩ | ⟨u, item, rest, user, key, body, hclaiming, hrequests, huser, hsendable,
        hclaim⟩
    · have hclaims : (NotificationStep.claim now verify).claims cfg S env w = [] := by
        rw [NotificationStep.claims, hnone]
        rfl
      rw [hclaims, List.append_nil]
      exact h.exec_of_none hnone hrequests
    · exact h.exec_of_some hclaiming hrequests huser hsendable hclaim
  | _ =>
    rw [show NotificationStep.claims cfg S env w _ = [] from rfl, List.append_nil]
    exact h.exec_of_ne fun _ _ => nofun

/-! ## Runs -/

variable (cfg S env) in
theorem claimBook_run (steps : List NotificationStep) :
    ClaimBook (World.empty.claims cfg S env steps) (World.empty.run cfg S env steps) := by
  induction steps using List.reverseRecOn with
  | nil =>
    exact ⟨bindings_empty, fun _ hc => absurd hc List.not_mem_nil,
      fun _ hitem => absurd hitem List.not_mem_nil, fun _ hc => absurd hc List.not_mem_nil,
      fun _ hsend => absurd hsend List.not_mem_nil⟩
  | append_singleton steps step ih =>
    rw [World.claims, World.log_concat, World.run_concat]
    exact ih.exec cfg S env step

variable (cfg S env) in
/-- **All claims of a delivery make one request**, under one connection and for one account, less than
23 hours after the first of them, and every request under way is the one of a claim. -/
theorem send_idempotency (steps : List NotificationStep) :
    (∀ a ∈ World.empty.claims cfg S env steps, ∀ b ∈ World.empty.claims cfg S env steps,
      a.send.deliveryId = b.send.deliveryId → a.send.body = b.send.body ∧
        a.send.account = b.send.account ∧ a.connectionVersion = b.connectionVersion) ∧
    (∀ b ∈ World.empty.claims cfg S env steps,
      ∃ a, firstClaim (World.empty.claims cfg S env steps) b.send.deliveryId = some a ∧
        b.firstAttempt = some a.send.now ∧ b.send.now - a.send.now < hours 23) ∧
    ∀ send ∈ (World.empty.run cfg S env steps).sends,
      ∃ c ∈ World.empty.claims cfg S env steps, c.send = send := by
  obtain ⟨-, hfrozen, hfirst, hwindow, hsends⟩ := claimBook_run cfg S env steps
  refine ⟨fun a ha b hb hid => ?_, fun b hb => ?_, hsends⟩
  · obtain ⟨item, hitem, hitemfrozen⟩ := hfrozen a ha
    obtain ⟨row, hrow, hrowfrozen⟩ := hfrozen b hb
    obtain rfl : item = row := World.delivery_unique _ hitem hrow
      ((hitemfrozen.id_eq.trans hid).trans hrowfrozen.id_eq.symm)
    refine ⟨?_, ?_, hitemfrozen.connectionVersion.symm.trans hrowfrozen.connectionVersion⟩
    · exact Option.some_inj.mp (hitemfrozen.payload.symm.trans hrowfrozen.payload)
    · exact Option.some_inj.mp (hitemfrozen.account.symm.trans hrowfrozen.account)
  · obtain ⟨item, hitem, hitemfrozen⟩ := hfrozen b hb
    obtain ⟨first, hbfirst, hlate⟩ := hwindow b hb
    have htried := hfirst item hitem
    rw [EmailDelivery.FirstTried, hitemfrozen.firstAttempt, hitemfrozen.id_eq, hbfirst] at htried
    obtain ⟨a, ha, rfl⟩ := Option.map_eq_some_iff.mp htried.symm
    exact ⟨a, ha, hbfirst, hlate⟩

/-- A test email whose first request finds no network. -/
def retriedSteps : List NotificationStep :=
  connectSteps ++
    [.claim 0 fun _ _ => some true, .writeBack (sampleSend 0) none,
      .claim (hours 22) fun _ _ => some true]

example : (World.empty.claims sampleConfig .ascii .plain retriedSteps).map (·.send) =
    [sampleSend 0, sampleSend (hours 22)] := by
  decide +kernel

end JobPing
