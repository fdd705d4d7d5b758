import JobPing.ClaimedRequests

/-!
# Progress of claims

`claim` looks at the first 500 deliveries that are due and takes the first of them that passes its
checks. The rounds before it only loosen the checks of the others, so a claim returns a delivery as
soon as one of the 500 passes (`claim_progress`). A delivery that is skipped stays due where it is:
when 500 such ones come first, nothing is sent any more (`claims_starve`).
-/

namespace JobPing

variable {cfg : Config} {S : Services} {env : NotificationEnv}

/-! ## Eligible deliveries -/

/-- The delivery passes all checks of `claim`. -/
def Eligible (env : NotificationEnv) (db : Db) (t : NotificationTables)
    (verify : Str → Str → Option Bool) (now : Time) (item : EmailDelivery) : Prop :=
  ∃ user, t.subscriber item.subscriberId = some user ∧
    ∃ key body, claimDecision env db t verify now item user = .send key body

/-- The deliveries that `claim` looks at: of those that are due, the first 500, recaps before the
others and each by its creation. -/
def claimWindow (now : Time) (t : NotificationTables) : List EmailDelivery :=
  ((t.notificationDeliveries.filter (·.claimable now)).insertionSort fun a b =>
    if (a.kind = .recap) ≠ (b.kind = .recap) then a.kind = .recap
    else a.createdAt ≤ b.createdAt).take 500

theorem mem_candidates {now : Time} {t : NotificationTables} {item : EmailDelivery} :
    item ∈ candidates now t ↔ item ∈ claimWindow now t := List.mem_insertionSort _

/-- The texts of an email do not depend on the state of the connection. -/
def NotificationEnv.RendersAnyStatus (env : NotificationEnv) : Prop :=
  ∀ db item user status, env.render db item { user with status := status } = env.render db item user

/-! ## The rounds before a claim -/

/-- A subscriber after some rounds: its address may have failed the check, and its connection may
have turned out misconfigured. -/
def Subscriber.Passed (verify : Str → Str → Option Bool) (user user' : Subscriber) : Prop :=
  ∃ verified status, user' = { user with verified := verified, status := status } ∧
    (verified = user.verified ∨ verified = false ∧ verify user.id user.email = some false) ∧
    (status = user.status ∨ status = .configurationError)

/-- The tables after rounds that returned nothing. -/
structure PassedOver (verify : Str → Str → Option Bool) (t t' : NotificationTables) : Prop where
  subscribers : List.Forall₂ (Subscriber.Passed verify) t.notificationSubscribers
    t'.notificationSubscribers
  accounts : t'.notificationAccounts = t.notificationAccounts
  charges : t'.notificationDeliveries.map (fun item => (item.account, item.firstAttempt)) =
    t.notificationDeliveries.map fun item => (item.account, item.firstAttempt)

section rounds

variable {verify : Str → Str → Option Bool} {t t' : NotificationTables} {now : Time} {db : Db}
  {item : EmailDelivery} {items : List EmailDelivery} {user user' : Subscriber}

theorem Subscriber.Passed.refl (user : Subscriber) : user.Passed verify user :=
  ⟨user.verified, user.status, rfl, .inl rfl, .inl rfl⟩

theorem Subscriber.Passed.id_eq (h : user.Passed verify user') : user'.id = user.id := by
  obtain ⟨_, _, rfl, -⟩ := h
  rfl

theorem PassedOver.refl (t : NotificationTables) : PassedOver verify t t :=
  ⟨List.forall₂_same.mpr fun user _ => .refl user, rfl, rfl⟩

/-- Rows that are related are found together. -/
theorem find?_passed {users users' : List Subscriber} (id : Str)
    (h : List.Forall₂ (Subscriber.Passed verify) users users') :
    users.find? (·.id = id) = none ∧ users'.find? (·.id = id) = none ∨
      ∃ user user', users.find? (·.id = id) = some user ∧ users'.find? (·.id = id) = some user' ∧
        user.Passed verify user' := by
  induction h with
  | nil => exact .inl ⟨rfl, rfl⟩
  | @cons user user' users users' hpassed _ ih =>
    rw [List.find?_cons, List.find?_cons, hpassed.id_eq]
    by_cases hid : user.id = id
    · simp only [hid, decide_true]
      exact .inr ⟨user, user', rfl, rfl, hpassed⟩
    · simp only [hid, decide_false]
      exact ih

/-- Assignments on one row keep the relation of the rows. -/
theorem passed_update {users users' : List Subscriber} {id : Str} {f : Subscriber → Subscriber}
    (h : List.Forall₂ (Subscriber.Passed verify) users users')
    (hf : ∀ user user' : Subscriber, user' ∈ users' → user.Passed verify user' → user'.id = id →
      user.Passed verify (f user')) :
    List.Forall₂ (Subscriber.Passed verify) users
      (users'.map fun user => if user.id = id then f user else user) := by
  induction h with
  | nil => exact .nil
  | @cons user user' users users' hpassed _ ih =>
    refine .cons ?_ (ih fun row row' hmem => hf row row' (List.mem_cons_of_mem _ hmem))
    dsimp only
    split_ifs with hid
    · exact hf user user' List.mem_cons_self hpassed hid
    · exact hpassed

theorem countP_passed {users users' : List Subscriber} {p : Subscriber → Bool}
    (h : List.Forall₂ (Subscriber.Passed verify) users users')
    (hp : ∀ user user', user.Passed verify user' → p user' = true → p user = true) :
    users'.countP p ≤ users.countP p := by
  induction h with
  | nil => exact le_refl _
  | @cons user user' users users' hpassed _ ih =>
    rw [List.countP_cons, List.countP_cons]
    have himp := hp user user' hpassed
    split_ifs with h₁ h₂
    · omega
    · exact absurd (himp h₁) h₂
    · omega
    · omega

theorem PassedOver.subscriberIds (h : PassedOver verify t t') :
    t'.notificationSubscribers.map (·.id) = t.notificationSubscribers.map (·.id) := by
  have hsubscribers := h.subscribers
  generalize t.notificationSubscribers = users at hsubscribers ⊢
  generalize t'.notificationSubscribers = users' at hsubscribers ⊢
  induction hsubscribers with
  | nil => rfl
  | cons hpassed _ ih => rw [List.map_cons, List.map_cons, ih, hpassed.id_eq]

/-- The budget does not shrink: fewer recaps are reserved. -/
theorem PassedOver.budget (h : PassedOver verify t t') {account : Str} {kind : DeliveryKind}
    (hbudget : budget t account kind now = true) : budget t' account kind now = true := by
  have haccount : t'.account account = t.account account := by
    rw [NotificationTables.account, h.accounts]
    rfl
  have hcount (n : ℤ) : (t'.notificationDeliveries.countP fun item =>
      item.account = some account && item.firstAttempt.any (now - days n ≤ ·)) =
      t.notificationDeliveries.countP fun item =>
        item.account = some account && item.firstAttempt.any (now - days n ≤ ·) := by
    have hcharges := congrArg (List.countP fun charge : Option Str × Option Time =>
      charge.1 = some account && charge.2.any (now - days n ≤ ·)) h.charges
    rwa [List.countP_map, List.countP_map] at hcharges
  have hrecaps := countP_passed (p := fun user =>
      (if account = "shared".toList then user.provider = .shared else user.id = account) &&
        user.recap && user.verified && !user.suppressed) h.subscribers fun user user' hpassed => by
    obtain ⟨verified, status, rfl, hverified, -⟩ := hpassed
    rcases hverified with rfl | ⟨rfl, -⟩
    · exact id
    · simp
  unfold JobPing.budget at hbudget ⊢
  rw [haccount]
  by_cases hblocked : (t.account account).any fun state => state.blockedUntil.any (now < ·)
  · rw [if_pos hblocked] at hbudget
    cases hbudget
  · rw [if_neg hblocked] at hbudget ⊢
    simp only [hcount, Bool.and_eq_true, decide_eq_true_eq] at hbudget ⊢
    by_cases hkind : kind ≠ .recap
    · rw [if_pos hkind, if_pos hkind] at hbudget ⊢
      omega
    · rw [if_neg hkind, if_neg hkind] at hbudget ⊢
      exact hbudget

/-! ## One round -/

/-- The checks that a delivery passes before it is sent. -/
theorem decision_send_iff {key : Str} {body : Payload} :
    claimDecision env db t verify now item user = .send key body ↔
      ¬(user.suppressed || !user.verified || (item.kind = .alert && !user.alerts) ||
        (item.kind = .recap && !user.recap)) = true ∧
      ¬(truthy item.connectionVersion &&
        item.connectionVersion ≠ some user.connectionVersion) = true ∧
      ¬((user.status = .senderError || user.status = .needsTest) && item.kind ≠ .test) = true ∧
      ¬(item.firstAttempt.any fun first => hours 23 ≤ now - first) = true ∧
      staleAlert db now item = none ∧
      ¬(item.firstAttempt.isNone && !JobPing.budget t user.account item.kind now) = true ∧
      verify user.id user.email = some true ∧ user.apiKey env = some key ∧
      frozenPayload env db item user = some body := by
  unfold claimDecision
  constructor
  · intro h
    split at h
    · cases h
    next hoff =>
    split at h
    · cases h
    next hversion =>
    split at h
    · cases h
    next hpaused =>
    split at h
    · cases h
    next hlate =>
    split at h
    · cases h
    next hstale =>
    split at h
    · cases h
    next hbudget =>
    split at h
    · cases h
    · cases h
    next hverify =>
    split at h
    · next hkey hbody =>
      cases h
      exact ⟨hoff, hversion, hpaused, hlate, hstale, hbudget, hverify, hkey, hbody⟩
    · cases h
  · intro ⟨hoff, hversion, hpaused, hlate, hstale, hbudget, hverify, hkey, hbody⟩
    rw [if_neg hoff, if_neg hversion, if_neg hpaused, if_neg hlate, hstale]
    dsimp only
    rw [if_neg hbudget, hverify]
    dsimp only
    rw [hkey, hbody]

theorem refused_of_unverify (h : claimDecision env db t verify now item user = .unverify) :
    verify user.id user.email = some false := by
  unfold claimDecision at h
  split at h
  · cases h
  split at h
  · cases h
  split at h
  · cases h
  split at h
  · cases h
  split at h
  · cases h
  split at h
  · cases h
  split at h
  · cases h
  · assumption
  split at h <;> cases h

/-- Assignments on one subscriber. -/
theorem PassedOver.updateSubscriber {t₀ : NotificationTables} {id : Str}
    {f : Subscriber → Subscriber} (h : PassedOver verify t₀ t)
    (hf : ∀ user user' : Subscriber, user' ∈ t.notificationSubscribers →
      user.Passed verify user' → user'.id = id → user.Passed verify (f user')) :
    PassedOver verify t₀ (t.updateSubscriber id f) :=
  ⟨passed_update h.subscribers hf, h.accounts, h.charges⟩

/-- Assignments on one delivery that charge nothing. -/
theorem PassedOver.updateDelivery {t₀ : NotificationTables} {id : Str}
    {f : EmailDelivery → EmailDelivery} (h : PassedOver verify t₀ t)
    (hf : ∀ row, (f row).request = row.request) :
    PassedOver verify t₀ (t.updateDelivery id f) := by
  refine ⟨h.subscribers, h.accounts, ?_⟩
  have hrequests := congrArg (List.map fun request : Request =>
    (request.account, request.firstAttempt)) (updateDelivery_requests (t := t) id hf)
  rw [List.map_map, List.map_map] at hrequests
  exact hrequests.trans h.charges

/-- **One round.** A round that returns nothing passes its delivery over. -/
theorem PassedOver.step {t₀ : NotificationTables} (h : PassedOver verify t₀ t)
    (hids : (t₀.notificationSubscribers.map (·.id)).Nodup)
    (hnone : (claimItem env db verify now t item).2 = none) :
    PassedOver verify t₀ (claimItem env db verify now t item).1 := by
  rw [← h.subscriberIds] at hids
  unfold claimItem at hnone ⊢
  split
  · exact h
  next user huser =>
  have hmem : user ∈ t.notificationSubscribers := List.mem_of_find?_eq_some huser
  rw [huser] at hnone
  dsimp only at hnone
  split
  · exact h.updateDelivery fun _ => rfl
  · exact h
  · exact h.updateDelivery fun _ => rfl
  next hdecision =>
    refine (h.updateSubscriber fun user₀ user' hmem' hpassed hid => ?_).updateDelivery
      fun _ => rfl
    have huser' : user' = user := List.inj_on_of_nodup_map hids hmem' hmem hid
    obtain ⟨verified, status, rfl, -, hstatus⟩ := hpassed
    have hrefused := refused_of_unverify hdecision
    rw [← huser'] at hrefused
    exact ⟨false, status, rfl, .inr ⟨rfl, hrefused⟩, hstatus⟩
  · refine h.updateSubscriber fun user₀ user' _ hpassed _ => ?_
    obtain ⟨verified, status, rfl, hverified, -⟩ := hpassed
    exact ⟨verified, .configurationError, rfl, hverified, .inr rfl⟩
  next hdecision =>
    rw [hdecision] at hnone
    cases hnone

/-- A delivery that passes the checks passes them after the rounds. -/
theorem Eligible.passed (henv : env.RendersAnyStatus) (h : PassedOver verify t t')
    (helig : Eligible env db t verify now item) : Eligible env db t' verify now item := by
  obtain ⟨user, huser, key, body, hdecision⟩ := helig
  obtain ⟨hoff, hversion, hpaused, hlate, hstale, hbudget, hverify, hkey, hbody⟩ :=
    decision_send_iff.mp hdecision
  rcases find?_passed item.subscriberId h.subscribers with ⟨hnone, -⟩ |
    ⟨user₁, user', hfound, hfound', hpassed⟩
  · rw [NotificationTables.subscriber, hnone] at huser
    cases huser
  · obtain rfl : user₁ = user := Option.some.inj (hfound.symm.trans huser)
    refine ⟨user', hfound', key, body, decision_send_iff.mpr ?_⟩
    obtain ⟨verified, status, rfl, hverified, hstatus⟩ := hpassed
    have hverified' : verified = user₁.verified := by
      rcases hverified with hverified | ⟨-, hrefused⟩
      · exact hverified
      · rw [hverify] at hrefused
        cases hrefused
    subst hverified'
    refine ⟨hoff, hversion, ?_, hlate, hstale, ?_, hverify, hkey, ?_⟩
    · rcases hstatus with rfl | rfl
      · exact hpaused
      · simp
    · intro hout
      rw [Bool.and_eq_true, Bool.not_eq_true'] at hout
      refine hbudget ?_
      rw [Bool.and_eq_true, Bool.not_eq_true']
      refine ⟨hout.1, ?_⟩
      by_contra hleft
      rw [Bool.not_eq_false] at hleft
      exact absurd (h.budget hleft) (Bool.not_eq_true _ ▸ hout.2)
    · rw [← hbody]
      unfold frozenPayload
      rw [henv]

/-- **The loop.** It claims a delivery as soon as one of those that it looks at is eligible. -/
theorem claimItems_isSome {t₀ : NotificationTables} (henv : env.RendersAnyStatus)
    (hids : (t₀.notificationSubscribers.map (·.id)).Nodup) (h : PassedOver verify t₀ t)
    (hmem : item ∈ items) (helig : Eligible env db t₀ verify now item) :
    (claimItems env db verify now t items).2.isSome = true := by
  induction items generalizing t with
  | nil => cases hmem
  | cons first items ih =>
    unfold claimItems
    split
    · rfl
    next t' hround =>
    have hnone : (claimItem env db verify now t first).2 = none := by rw [hround]
    have hpassed := h.step hids hnone
    rw [hround] at hpassed
    rcases List.mem_cons.mp hmem with rfl | hmem
    · obtain ⟨user, huser, key, body, hdecision⟩ := helig.passed henv h
      unfold claimItem at hnone
      rw [huser] at hnone
      dsimp only at hnone
      rw [hdecision] at hnone
      cases hnone
    · exact ih hpassed hmem

end rounds

/-! ## Claims -/

/-- When at most 500 deliveries are due, a claim looks at each of them. -/
theorem mem_claimWindow {now : Time} {t : NotificationTables} {item : EmailDelivery}
    (hcount : t.notificationDeliveries.countP (·.claimable now) ≤ 500)
    (hmem : item ∈ t.notificationDeliveries) (hdue : item.claimable now = true) :
    item ∈ claimWindow now t := by
  unfold claimWindow
  rw [List.take_of_length_le]
  · exact (List.mem_insertionSort _).mpr (List.mem_filter.mpr ⟨hmem, hdue⟩)
  · rw [List.length_insertionSort, ← List.countP_eq_length_filter]
    exact hcount

/-- **Progress.** In every state that is reached, a claim returns a delivery when one of the first
500 that are due is eligible. -/
theorem claim_progress (henv : env.RendersAnyStatus) (steps : List NotificationStep) (now : Time)
    (verify : Str → Str → Option Bool)
    (hwindow : ∃ item ∈ claimWindow now (World.empty.run cfg S env steps).tables,
      Eligible env (World.empty.run cfg S env steps).db (World.empty.run cfg S env steps).tables
        verify now item) :
    (claim env (World.empty.run cfg S env steps).db verify now
      (World.empty.run cfg S env steps).tables).2.isSome = true := by
  obtain ⟨item, hmem, helig⟩ := hwindow
  unfold claim
  exact claimItems_isSome henv (World.empty.run cfg S env steps).unique.subscriberIds
    (.refl _) (mem_candidates.mpr hmem) helig

/-- The environment after a key of `NOTIFICATION_ENCRYPTION_KEYS` was removed. -/
def NotificationEnv.rotated : NotificationEnv :=
  { NotificationEnv.plain with
    decrypt := fun value => if value = ['v', '0', ':', 'x'] then none else some value }

def tester (c : Char) : Who := ⟨[c], [c, '@'], true⟩

def testerTokens (c : Char) (version text : Str) : Tokens := ⟨[c], [c], version, text, text⟩

/-- A subscriber with its own account. -/
def testerRow (c : Char) (cipher version : Str) : Subscriber :=
  (newSubscriber (tester c) "UTC".toList (testerTokens c version [])).withProvider cipher none
    version

/-- The subscriber whose key is lost, and another one. -/
def keylessRow : Subscriber := testerRow 'a' ['v', '0', ':', 'x'] ['3']

def keyedRow : Subscriber := testerRow 'b' ['v', '1', ':', 'y'] ['4']

/-- A test email that was asked for at minute `6 * n`. -/
def queuedTest (user : Subscriber) (n : ℕ) : EmailDelivery :=
  newDelivery user .test (.test (List.replicate n 'a')) [] (minutes (6 * n)) []
    (List.replicate n 'a')

/-- The subscribers connect their accounts. -/
def connectTesters : List NotificationStep :=
  [.settings (.putProvider (some ['v', '0', ':', 'x']) none (tester 'a') ['3'])
      (testerTokens 'a' ['1'] []),
    .settings (.putProvider (some ['v', '1', ':', 'y']) none (tester 'b') ['4'])
      (testerTokens 'b' ['2'] [])]

/-- A request for a test email at minute `6 * n`. -/
def requestTest (c : Char) (n : ℕ) : List NotificationStep :=
  [.tick (minutes (6 * n)),
    .settings (.testProvider (tester c)) (testerTokens c ['5'] (List.replicate n 'a'))]

/-- Both subscribers ask for a test email, the one whose key is lost first. -/
def twoRequests : List NotificationStep := connectTesters ++ requestTest 'a' 0 ++ requestTest 'b' 1

/-- The first email that is due is passed over for the second one. -/
theorem test_email_claimed :
    let w := World.empty.run sampleConfig .ascii .rotated twoRequests
    claimWindow (minutes 6) w.tables = [queuedTest keylessRow 0, queuedTest keyedRow 1] ∧
      ¬Eligible .rotated w.db w.tables (fun _ _ => some true) (minutes 6)
        (queuedTest keylessRow 0) ∧
      (claim .rotated w.db (fun _ _ => some true) (minutes 6) w.tables).2.isSome = true := by
  have hwindow : claimWindow (minutes 6) (World.empty.run sampleConfig .ascii .rotated
      twoRequests).tables = [queuedTest keylessRow 0, queuedTest keyedRow 1] := by
    decide +kernel
  refine ⟨hwindow, ?_, claim_progress (fun _ _ _ _ => rfl) twoRequests (minutes 6)
    (fun _ _ => some true) ⟨queuedTest keyedRow 1, ?_, keyedRow, ?_, ['v', '1', ':', 'y'],
      ⟨["b@".toList], "New jobs".toList⟩, decision_send_iff.mpr ?_⟩⟩
  · rintro ⟨user, huser, key, body, hsend⟩
    have hfound : (World.empty.run sampleConfig .ascii .rotated twoRequests).tables.subscriber
        (queuedTest keylessRow 0).subscriberId = some keylessRow := by decide +kernel
    obtain rfl : user = keylessRow := Option.some.inj (huser.symm.trans hfound)
    obtain ⟨-, -, -, -, -, -, -, hkey, -⟩ := decision_send_iff.mp hsend
    cases hkey
  · rw [hwindow]
    exact List.mem_cons_of_mem _ List.mem_cons_self
  · decide +kernel
  · decide +kernel

/-! ## A full window -/

/-- Deliveries of accounts without a key are passed over. -/
theorem claimItems_keyless {env : NotificationEnv} {db : Db} {verify : Str → Str → Option Bool}
    {now : Time} {t₀ t : NotificationTables} {items : List EmailDelivery}
    (hids : (t₀.notificationSubscribers.map (·.id)).Nodup) (h : PassedOver verify t₀ t)
    (hkeyless : ∀ item ∈ items, ∀ user, t₀.subscriber item.subscriberId = some user →
      user.apiKey env = none) :
    (claimItems env db verify now t items).2 = none := by
  induction items generalizing t with
  | nil => rfl
  | cons item items ih =>
    have hnone : (claimItem env db verify now t item).2 = none := by
      unfold claimItem
      split
      · rfl
      next user huser =>
      split
      · rfl
      · rfl
      · rfl
      · rfl
      · rfl
      next key body hdecision =>
        obtain ⟨-, -, -, -, -, -, -, hkey, -⟩ := decision_send_iff.mp hdecision
        rcases find?_passed item.subscriberId h.subscribers with ⟨-, hnone⟩ |
          ⟨user₀, user', hfound, hfound', hpassed⟩
        · rw [NotificationTables.subscriber, hnone] at huser
          cases huser
        · obtain rfl : user' = user := Option.some.inj (hfound'.symm.trans huser)
          obtain ⟨verified, status, rfl, -⟩ := hpassed
          have hlost := hkeyless item List.mem_cons_self user₀ hfound
          rw [Subscriber.apiKey] at hkey hlost
          rw [hlost] at hkey
          cases hkey
    have hpassed := h.step hids hnone
    have hrest := ih hpassed fun item' hmem => hkeyless item' (List.mem_cons_of_mem _ hmem)
    unfold claimItems
    split
    next hround =>
      rw [hround] at hnone
      cases hnone
    next hround =>
      rw [hround] at hrest
      exact hrest

/-- The tables with some deliveries of the two subscribers. -/
def testerTables (deliveries : List EmailDelivery) : NotificationTables where
  notificationSubscribers := [keylessRow, keyedRow]
  notificationEvents := []
  notificationMatches := []
  notificationDeliveries := deliveries
  notificationAccounts := []
  notificationWebhooks := []

/-- Who asks for a test email in a round: the first subscriber in the first 500 rounds. -/
def turn (n : ℕ) : Char := if n < 500 then 'a' else 'b'

def turnRow (n : ℕ) : Subscriber := if n < 500 then keylessRow else keyedRow

/-- The test emails of some rounds. -/
def waiting (n : ℕ) : List EmailDelivery := (List.range n).map fun i => queuedTest (turnRow i) i

/-- The requests of some rounds. -/
def requestTests (n : ℕ) : List NotificationStep :=
  (List.range n).flatMap fun i => requestTest (turn i) i

theorem subscriber_testers {c : Char} {user : Subscriber}
    (hc : c = 'a' ∧ user = keylessRow ∨ c = 'b' ∧ user = keyedRow) (tokens : Tokens)
    (deliveries : List EmailDelivery) :
    subscriber (tester c) "UTC".toList tokens (testerTables deliveries) =
      .ok (testerTables deliveries, user) := by
  rcases hc with ⟨rfl, rfl⟩ | ⟨rfl, rfl⟩ <;> rfl

/-- A test email is queued when the last one is more than five minutes old. -/
theorem testProvider_testers {c : Char} {user : Subscriber} {n : ℕ}
    (hc : c = 'a' ∧ user = keylessRow ∨ c = 'b' ∧ user = keyedRow)
    {deliveries : List EmailDelivery}
    (hrecent : ∀ item ∈ deliveries, item.subscriberId = user.id →
      item.createdAt ≤ minutes (6 * n) - minutes 5) :
    testProvider (minutes (6 * n)) (tester c) (testerTokens c ['5'] (List.replicate n 'a'))
      (testerTables deliveries) = .ok (testerTables (deliveries ++ [queuedTest user n])) := by
  have hverified : (!user.verified || user.suppressed) = false := by
    rcases hc with ⟨-, rfl⟩ | ⟨-, rfl⟩ <;> rfl
  have hconnected : ¬(user.provider ≠ .byok || !truthy user.keyCiphertext) = true := by
    rcases hc with ⟨-, rfl⟩ | ⟨-, rfl⟩ <;> decide +kernel
  have hold : ¬((testerTables deliveries).notificationDeliveries.any fun item =>
      item.subscriberId = user.id && item.kind = .test &&
        minutes (6 * n) - minutes 5 < item.createdAt) = true := by
    rw [List.any_eq_true]
    rintro ⟨item, hmem, hitem⟩
    simp only [Bool.and_eq_true, decide_eq_true_eq] at hitem
    exact absurd (hrecent item hmem hitem.1.1) (not_le.mpr hitem.2)
  unfold testProvider
  rw [subscriber_testers hc]
  dsimp only [bind, Except.bind]
  rw [hverified, if_neg Bool.false_ne_true, if_neg hconnected, if_neg hold]
  rfl

theorem minutes_le {m n : ℤ} (h : m ≤ n) : minutes m ≤ minutes n := by
  unfold minutes seconds
  omega

theorem mem_waiting {n : ℕ} {item : EmailDelivery} :
    item ∈ waiting n ↔ ∃ i < n, queuedTest (turnRow i) i = item := by
  rw [waiting, List.mem_map]
  simp only [List.mem_range]

theorem claimable_queued {user : Subscriber} {i : ℕ} {now : Time} (h : minutes (6 * i) ≤ now) :
    (queuedTest user i).claimable now = true := by
  have hdue : (queuedTest user i).dueAt ≤ now := h
  rw [EmailDelivery.claimable, decide_eq_true hdue]
  rfl

theorem waiting_succ (n : ℕ) : waiting (n + 1) = waiting n ++ [queuedTest (turnRow n) n] := by
  rw [waiting, List.range_succ, List.map_append]
  rfl

theorem waiting_unique (n : ℕ) : (testerTables (waiting n)).Unique := by
  have hinj : Function.Injective fun i : ℕ => List.replicate i 'a' :=
    fun i j h => by simpa using congrArg List.length h
  obtain ⟨hids, hemails, hwebhooks, htokens, -⟩ :
      (testerTables []).Unique := by decide +kernel
  refine ⟨hids, hemails, hwebhooks, htokens, List.nodup_nil, ?_, ?_, fun item hmem => ?_⟩
  · change ((waiting n).map (·.id)).Nodup
    rw [waiting, List.map_map]
    exact List.nodup_range.map hinj
  · change ((waiting n).map (·.dedupeKey)).Nodup
    rw [waiting, List.map_map]
    exact List.nodup_range.map fun i j h => hinj (DedupeKey.test.inj h)
  · obtain ⟨i, -, rfl⟩ := mem_waiting.mp hmem
    unfold turnRow
    split_ifs
    · exact List.mem_cons_self
    · exact List.mem_cons_of_mem _ List.mem_cons_self

section starvation

variable {w : World} {n : ℕ}

/-- A request that is answered commits its tables. -/
theorem exec_settings {request : SettingsRequest} {tokens : Tokens} {t : NotificationTables}
    (hversions : (request.versions tokens).Nodup ∧ ∀ version ∈ request.versions tokens,
      w.tables.Unused version)
    (hrun : request.run env w.clock w.db tokens w.tables = .ok t) :
    (NotificationStep.settings request tokens).exec cfg S env w = w.commit t := by
  simp only [NotificationStep.exec]
  rw [if_pos hversions, hrun]

/-- The next round queues its test email. -/
theorem requestTest_run (htables : w.tables = testerTables (waiting n))
    (hclock : w.clock ≤ minutes (6 * n)) :
    (w.run cfg S .rotated (requestTest (turn n) n)).tables = testerTables (waiting (n + 1)) ∧
      (w.run cfg S .rotated (requestTest (turn n) n)).clock = minutes (6 * n) := by
  have hturn : turn n = 'a' ∧ turnRow n = keylessRow ∨ turn n = 'b' ∧ turnRow n = keyedRow := by
    unfold turn turnRow
    split_ifs
    · exact .inl ⟨rfl, rfl⟩
    · exact .inr ⟨rfl, rfl⟩
  have hrecent (item : EmailDelivery) (hmem : item ∈ waiting n) :
      item.createdAt ≤ minutes (6 * n) - minutes 5 := by
    obtain ⟨i, hi, rfl⟩ := mem_waiting.mp hmem
    change minutes (6 * i) ≤ _
    unfold minutes seconds
    omega
  have hrequest := testProvider_testers hturn fun item hmem _ => hrecent item hmem
  rw [← waiting_succ] at hrequest
  have hunused : (testerTables (waiting n)).Unused ['5'] := by
    refine ⟨List.cons_ne_nil _ _, ?_, fun hversions => ?_⟩
    · change ['5'] ∉ [keylessRow, keyedRow].map (·.connectionVersion)
      decide +kernel
    · obtain ⟨item, hmem, hversion⟩ := List.mem_map.mp hversions
      obtain ⟨i, -, rfl⟩ := mem_waiting.mp hmem
      cases hversion
  have hticked : (NotificationStep.tick (minutes (6 * n))).exec cfg S .rotated w =
      { w with clock := minutes (6 * n) } := by
    simp only [NotificationStep.exec]
    rw [max_eq_right hclock]
  rw [requestTest, World.run, List.foldl_cons, List.foldl_cons, List.foldl_nil, hticked,
    exec_settings (t := testerTables (waiting (n + 1)))]
  · rw [World.commit, dif_pos (waiting_unique (n + 1))]
    exact ⟨rfl, rfl⟩
  · refine ⟨List.nodup_singleton _, fun version hversion => ?_⟩
    obtain rfl := List.mem_singleton.mp hversion
    rw [htables]
    exact hunused
  · rw [← htables] at hrequest
    exact hrequest

/-- **The rounds.** After them their test emails wait. -/
theorem requestTests_run (n : ℕ) :
    (World.empty.run cfg S .rotated (connectTesters ++ requestTests n)).tables =
        testerTables (waiting n) ∧
      (World.empty.run cfg S .rotated (connectTesters ++ requestTests n)).clock ≤
        minutes (6 * n) := by
  induction n with
  | zero => exact ⟨rfl, le_refl _⟩
  | succ n ih =>
    rw [requestTests, List.range_succ, List.flatMap_append, ← List.append_assoc, World.run_append,
      List.flatMap_singleton]
    obtain ⟨htables, hclock⟩ := @requestTest_run cfg S _ n ih.1 ih.2
    exact ⟨htables, hclock.trans_le (minutes_le (by omega))⟩

/-- What a claim looks at after some rounds. -/
theorem claimWindow_waiting {now : Time} (hnow : minutes (6 * n) ≤ now) :
    claimWindow now (testerTables (waiting n)) = (waiting n).take 500 := by
  have hdue : (waiting n).filter (·.claimable now) = waiting n := by
    refine List.filter_eq_self.mpr fun item hmem => ?_
    obtain ⟨i, hi, rfl⟩ := mem_waiting.mp hmem
    have hcreated : minutes (6 * i) ≤ now := (minutes_le (by omega)).trans hnow
    exact claimable_queued hcreated
  have hsorted : (waiting n).Pairwise fun a b =>
      (if (a.kind = .recap) ≠ (b.kind = .recap) then a.kind = .recap
        else a.createdAt ≤ b.createdAt : Prop) := by
    rw [waiting, List.pairwise_map]
    refine List.pairwise_lt_range.imp fun {i j} hij => ?_
    rw [if_neg (by simp [queuedTest, newDelivery])]
    exact minutes_le (by omega)
  unfold claimWindow
  change List.take 500 (List.insertionSort _ ((waiting n).filter (·.claimable now))) = _
  rw [hdue, List.Pairwise.insertionSort_eq hsorted]

/-- The first 500 of them have no key. -/
theorem turnRow_window {item : EmailDelivery} (hmem : item ∈ (waiting n).take 500) :
    item.subscriberId = keylessRow.id := by
  rw [waiting, ← List.map_take, List.take_range, List.mem_map] at hmem
  obtain ⟨i, hi, rfl⟩ := hmem
  have hfirst : i < 500 := (List.mem_range.mp hi).trans_le (Nat.min_le_left _ _)
  rw [turnRow, if_pos hfirst]
  rfl

/-- The test email of the second subscriber passes all checks. -/
theorem queuedTest_eligible (db : Db) (now : Time) (n i : ℕ) :
    Eligible .rotated db (testerTables (waiting n)) (fun _ _ => some true) now
      (queuedTest keyedRow i) := by
  have huncharged (k : ℤ) : (waiting n).countP (fun item =>
      item.account = some keyedRow.account && item.firstAttempt.any (now - days k ≤ ·)) = 0 := by
    refine List.countP_eq_zero.mpr fun item hmem => ?_
    obtain ⟨i, -, rfl⟩ := mem_waiting.mp hmem
    exact Bool.false_ne_true
  have hbudget : JobPing.budget (testerTables (waiting n)) keyedRow.account .test now = true := by
    change (decide (List.countP _ (waiting n) < 90) &&
      decide (List.countP _ (waiting n) < 2900)) = true
    rw [huncharged, huncharged]
    rfl
  refine ⟨keyedRow, rfl, ['v', '1', ':', 'y'], ⟨[['b', '@']], "New jobs".toList⟩,
    decision_send_iff.mpr ⟨Bool.false_ne_true, Bool.false_ne_true, ?_, Bool.false_ne_true, rfl, ?_,
      rfl, rfl, rfl⟩⟩
  · exact Bool.false_ne_true
  · change ¬(!JobPing.budget (testerTables (waiting n)) keyedRow.account .test now) = true
    rw [hbudget]
    exact Bool.false_ne_true

/-- **After more than 500 rounds** the emails that come first have no key, and a claim returns
nothing. -/
theorem claim_waiting (db : Db) {now : Time} (hnow : minutes (6 * n) ≤ now) :
    (claim .rotated db (fun _ _ => some true) now (testerTables (waiting n))).2 = none := by
  refine claimItems_keyless (waiting_unique n).subscriberIds (.refl _)
    fun item hmem user huser => ?_
  rw [mem_candidates, claimWindow_waiting hnow] at hmem
  rw [turnRow_window hmem] at huser
  obtain rfl : keylessRow = user := Option.some.inj huser
  rfl

/-- The email of a later round is eligible, and is not claimed. -/
theorem claim_starved {now : Time} (hn : 500 < n) (hnow : minutes (6 * n) ≤ now) :
    let w := World.empty.run cfg S .rotated (connectTesters ++ requestTests n)
    (∃ item ∈ w.tables.notificationDeliveries, item.claimable now = true ∧
      Eligible .rotated w.db w.tables (fun _ _ => some true) now item) ∧
    (claim .rotated w.db (fun _ _ => some true) now w.tables).2 = none := by
  dsimp only
  rw [(requestTests_run n).1]
  have hrow : turnRow 500 = keyedRow := if_neg (lt_irrefl 500)
  refine ⟨⟨queuedTest keyedRow 500, mem_waiting.mpr ⟨500, hn, by rw [hrow]⟩, ?_,
    queuedTest_eligible _ _ n 500⟩, claim_waiting _ hnow⟩
  exact claimable_queued ((minutes_le (by omega)).trans hnow)

end starvation

/-- The world after the requests of the two subscribers. -/
def starvedWorld : World :=
  World.empty.run sampleConfig .ascii .rotated (connectTesters ++ requestTests 501)

theorem starved_at {now : Time} (hnow : minutes 3006 ≤ now) :
    (∃ item ∈ starvedWorld.tables.notificationDeliveries, item.claimable now = true ∧
      Eligible .rotated starvedWorld.db starvedWorld.tables (fun _ _ => some true) now item) ∧
      (claim .rotated starvedWorld.db (fun _ _ => some true) now starvedWorld.tables).2 = none := by
  unfold starvedWorld
  exact claim_starved (by omega) ((minutes_le (by omega)).trans hnow)

/-- **Starvation.** Subscriber `a` asks for 500 test emails whose key is lost, then `b` for one that
passes all checks. From then on no claim returns it, at any time. -/
theorem claims_starve :
    (∃ item ∈ starvedWorld.tables.notificationDeliveries,
      item.claimable (minutes 3006) = true ∧
        Eligible .rotated starvedWorld.db starvedWorld.tables (fun _ _ => some true)
          (minutes 3006) item) ∧
      ∀ now ≥ minutes 3006,
        (claim .rotated starvedWorld.db (fun _ _ => some true) now starvedWorld.tables).2 =
          none :=
  ⟨(starved_at le_rfl).1, fun _ hnow => (starved_at hnow).2⟩

end JobPing
