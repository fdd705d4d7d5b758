import JobPing.ClaimedRequests
import JobPing.SlidingWindow
import Mathlib.Algebra.Order.Group.Int

/-!
# The quota of the provider

The first claim of a delivery charges it to the account of its subscriber, when `budget` finds fewer
charges than the quotas in the last day and the last 31 days; nothing else changes the charges of an
account. `provider_quota` says that no window of these lengths has more charges than its quota, in any
state of any run.
-/

namespace JobPing

variable {cfg : Config} {S : Services} {env : NotificationEnv}

/-! ## Charges -/

/-- When a request was charged to an account. -/
def Request.charge (account : Str) (request : Request) : Option Time :=
  if request.account = some account then request.firstAttempt else none

/-- The charges of an account. -/
def NotificationTables.charges (t : NotificationTables) (account : Str) : List Time :=
  t.notificationDeliveries.filterMap fun item => item.request.charge account

variable {w : World} {t u : NotificationTables} {step : NotificationStep} {item item' : EmailDelivery}
  {account : Str}

/-- An untried delivery is not charged. -/
theorem charge_untried (h : item.firstAttempt = none) (account : Str) :
    item.request.charge account = none := by
  rw [Request.charge, EmailDelivery.request]
  dsimp only
  rw [h, ite_self]

theorem charges_of_requests (h : u.notificationDeliveries.map (·.request) =
    t.notificationDeliveries.map (·.request)) (account : Str) : u.charges account = t.charges account := by
  have hcharges := congrArg (List.filterMap (Request.charge account)) h
  rw [List.filterMap_map, List.filterMap_map] at hcharges
  exact hcharges

/-- `budget` counts charges. -/
theorem charges_countP (t : NotificationTables) (account : Str) (p : Time → Bool) :
    (t.charges account).countP p = t.notificationDeliveries.countP fun item =>
      item.account = some account && item.firstAttempt.any p := by
  rw [NotificationTables.charges, List.countP_filterMap]
  refine List.countP_congr fun item _ => ?_
  by_cases haccount : item.account = some account <;> cases hfirst : item.firstAttempt <;>
    simp [Request.charge, EmailDelivery.request, haccount, hfirst]

/-- An account with a budget has room in both windows. -/
theorem used_lt_of_budget {kind : DeliveryKind} {now : Time} (h : budget t account kind now = true) :
    SlidingWindow.used (days 1) (t.charges account) now < 90 ∧
      SlidingWindow.used (days 31) (t.charges account) now < 2900 := by
  unfold budget at h
  split at h
  · cases h
  simp only [Bool.and_eq_true, decide_eq_true_eq] at h
  obtain ⟨hdaily, hmonthly⟩ := h
  rw [SlidingWindow.used, SlidingWindow.used, charges_countP, charges_countP]
  exact ⟨hdaily.trans_le (Nat.sub_le _ _), hmonthly.trans_le (Nat.sub_le _ _)⟩

/-! ## Steps -/

/-- Only a claim changes the charge of a delivery. -/
theorem DeliveryStep.charge_eq (h : DeliveryStep env w step item item')
    (hstep : ∀ now verify, step ≠ .claim now verify) :
    item'.request.charge account = item.request.charge account := by
  cases h with
  | claimed user body now _ _ _ _ _ _ verify hclaim _ => exact absurd hclaim (hstep now verify)
  | writtenBack send response =>
    obtain ⟨_, _, _, _, hframe⟩ := writtenBack_frame send.now item response
    rw [hframe]
    rfl
  | _ => rfl

theorem exec_charges_of_ne (hstep : ∀ now verify, step ≠ .claim now verify) (account : Str) :
    (step.exec cfg S env w).tables.charges account = w.tables.charges account := by
  refine (exec_evolves cfg S env w step).filterMap_eq (fun a b h => h.charge_eq hstep)
    fun row hrow => charge_untried hrow.firstAttempt account

/-- A tried delivery is claimed again for the account it is charged to. -/
theorem EmailDelivery.Bound.charge_claimed (hbound : item.Bound w) {user : Subscriber}
    (huser : user ∈ w.tables.notificationSubscribers) (hid : user.id = item.subscriberId)
    (hversion : truthy item.connectionVersion = true →
      item.connectionVersion = some user.connectionVersion) (body : Payload) (now : Time)
    (account : Str) :
    (item.claimed user body now).request.charge account =
      if item.firstAttempt = none ∧ user.account = account then some now
      else item.request.charge account := by
  have hclaimed : (item.claimed user body now).request.charge account =
      if some user.account = some account then some (item.firstAttempt.getD now) else none := rfl
  rw [hclaimed]
  simp only [Option.some_inj]
  cases hfirst : item.firstAttempt with
  | none => simp [charge_untried hfirst]
  | some first =>
    have htried : item.firstAttempt ≠ none := by simp [hfirst]
    have hcurrent := hbound.current hversion htried
    simp [Request.charge, EmailDelivery.request, (hbound.connection user huser hid hcurrent).1, hfirst]

/-- What a claim charges: an untried delivery, once, to the account it is sent with. -/
theorem Claiming.charges_perm {verify : Str → Str → Option Bool} {now : Time}
    {rest : List EmailDelivery} (h : Claiming w verify now u (item :: rest)) {user : Subscriber}
    {body : Payload}
    (hcharge : (item.claimed user body now).request.charge account =
      if item.firstAttempt = none ∧ user.account = account then some now
      else item.request.charge account) :
    (if item.firstAttempt = none ∧ user.account = account then now :: u.charges account
      else u.charges account).Perm
        ((u.updateDelivery item.id (·.claimed user body now)).charges account) := by
  obtain ⟨before, after, hsplit, hupdate⟩ := Table.map_update_eq (f := (·.claimed user body now))
    h.ids (h.rows item List.mem_cons_self)
  have hafter : (u.updateDelivery item.id (·.claimed user body now)).notificationDeliveries =
      before ++ item.claimed user body now :: after := by
    rw [← hupdate]
    simp [NotificationTables.updateDelivery, NotificationTables.updateDeliveries]
  rw [NotificationTables.charges, NotificationTables.charges, hafter, hsplit, List.filterMap_append,
    List.filterMap_append, List.filterMap_cons, List.filterMap_cons, hcharge]
  split_ifs with hfirst
  · rw [charge_untried hfirst.1]
    exact List.perm_middle.symm
  · exact .refl _

/-- The quotas of the provider, in all windows and for all accounts. -/
def NotificationTables.WithinQuota (t : NotificationTables) : Prop :=
  ∀ account, SlidingWindow.Within 90 (days 1) (t.charges account) ∧
    SlidingWindow.Within 2900 (days 31) (t.charges account)

/-- **A claim keeps the quotas.** -/
theorem Bindings.quota_claim (hbindings : Bindings w) (h : w.tables.WithinQuota) (now : Time)
    (verify : Str → Str → Option Bool) :
    ((NotificationStep.claim now verify).exec cfg S env w).tables.WithinQuota := by
  rw [(exec_claim cfg S env w now verify).1]
  intro account
  rcases claim_cases env w verify now with
    ⟨-, hrequests⟩ | ⟨u, item, rest, user, key, body, hclaiming, hrequests, huser, hsendable, hclaim⟩
  · rw [charges_of_requests hrequests]
    exact h account
  · obtain ⟨before, hbefore, verified, status, rfl, -⟩ :=
      hclaiming.subscribers user (List.mem_of_find?_eq_some huser)
    have hid : before.id = item.subscriberId := by simpa using List.find?_some huser
    have hbound := hbindings.bound item (hclaiming.before item List.mem_cons_self)
    have hcharge := hbound.charge_claimed hbefore hid hsendable.version body now account
    have hperm := hclaiming.charges_perm hcharge
    obtain ⟨hdaily, hmonthly⟩ := h account
    rw [← charges_of_requests hrequests] at hdaily hmonthly
    rw [hclaim]
    split_ifs at hperm with hfirst
    · obtain ⟨hfirst, rfl⟩ := hfirst
      obtain ⟨hday, hmonth⟩ := used_lt_of_budget (hsendable.budget hfirst)
      exact ⟨(hdaily.cons hday).perm hperm, (hmonthly.cons hmonth).perm hperm⟩
    · exact ⟨hdaily.perm hperm, hmonthly.perm hperm⟩

theorem quota_exec_of_ne (h : w.tables.WithinQuota)
    (hstep : ∀ now verify, step ≠ .claim now verify) :
    (step.exec cfg S env w).tables.WithinQuota := by
  intro account
  rw [exec_charges_of_ne hstep]
  exact h account

/-- A step keeps the quotas. -/
theorem Bindings.quota_exec (hbindings : Bindings w) (h : w.tables.WithinQuota)
    (step : NotificationStep) : (step.exec cfg S env w).tables.WithinQuota := by
  cases step with
  | claim now verify => exact hbindings.quota_claim h now verify
  | _ => exact quota_exec_of_ne h fun _ _ => nofun

variable (cfg S env) in
theorem quota_run (steps : List NotificationStep) :
    (World.empty.run cfg S env steps).tables.WithinQuota := by
  induction steps using List.reverseRecOn with
  | nil => exact fun _ => ⟨SlidingWindow.within_nil, SlidingWindow.within_nil⟩
  | append_singleton steps step ih =>
    rw [World.run_concat]
    exact (bindings_run cfg S env steps).quota_exec ih step

/-- The deliveries of an account whose first attempt lies between two instants. -/
def NotificationTables.firstAttempts (t : NotificationTables) (account : Str) (start stop : Time) :
    ℕ :=
  t.notificationDeliveries.countP fun item =>
    item.account = some account && item.firstAttempt.any fun first => start ≤ first && first ≤ stop

variable (cfg S env) in
/-- **No account exceeds a quota of the provider**, in any window that ends at any instant. -/
theorem provider_quota (steps : List NotificationStep) (account : Str) (t : Time) :
    (World.empty.run cfg S env steps).tables.firstAttempts account (t - hours 24) t ≤ 90 ∧
      (World.empty.run cfg S env steps).tables.firstAttempts account (t - days 31) t ≤ 2900 := by
  obtain ⟨hdaily, hmonthly⟩ := quota_run cfg S env steps account
  have hday := hdaily t
  have hmonth := hmonthly t
  rw [SlidingWindow.count, charges_countP] at hday hmonth
  exact ⟨hday, hmonth⟩

end JobPing
