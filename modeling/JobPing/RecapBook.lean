import JobPing.Frames
import JobPing.SubscriberChanges

/-!
# The recaps of an occurrence

`recapCount` is the number of recaps of a subscriber that have an occurrence. A round of
`make_recaps` changes it for the matches of the window it closes and for nothing else
(`closeWindow_count`), and no other step changes it (`exec_count`).
-/

namespace JobPing

variable {cfg : Config} {S : Services} {env : NotificationEnv}

/-- Whether a delivery is a recap of a subscriber with an occurrence. -/
def EmailDelivery.recaps (subscriberId : Str) (occurrenceId : ℕ) (item : EmailDelivery) : Bool :=
  item.subscriberId = subscriberId && item.kind = .recap && occurrenceId ∈ item.occurrenceIds

/-- The number of recaps of a subscriber with an occurrence. -/
def recapCount (t : NotificationTables) (subscriberId : Str) (occurrenceId : ℕ) : ℕ :=
  t.notificationDeliveries.countP (·.recaps subscriberId occurrenceId)

variable {t t' : NotificationTables} {subscriberId : Str} {occurrenceId : ℕ}

/-! ## Counting -/

/-- A change of one row from outside a set into it adds one to the count. -/
theorem countP_eq_succ {α κ : Type*} [DecidableEq κ] {key : α → κ} {p q : α → Bool} {x : α} :
    ∀ {l : List α}, (l.map key).Nodup → x ∈ l → p x = false → q x = true →
      (∀ y ∈ l, key y ≠ key x → q y = p y) → l.countP q = l.countP p + 1
  | [], _, hx, _, _, _ => absurd hx List.not_mem_nil
  | y :: l, hnd, hx, hp, hq, hsame => by
    rw [List.map_cons, List.nodup_cons] at hnd
    rw [List.countP_cons, List.countP_cons]
    by_cases hkey : key y = key x
    · obtain rfl : x = y := by
        rcases List.mem_cons.mp hx with rfl | hmem
        · rfl
        · exact absurd (hkey ▸ List.mem_map_of_mem hmem) hnd.1
      have hrest : l.countP q = l.countP p := List.countP_congr fun z hz => by
        rw [hsame z (List.mem_cons_of_mem _ hz) fun heq =>
          hnd.1 (heq ▸ List.mem_map_of_mem hz)]
      simp [hrest, hp, hq]
    · have hmem : x ∈ l := (List.mem_cons.mp hx).resolve_left fun heq => hkey (heq ▸ rfl)
      rw [countP_eq_succ hnd.2 hmem hp hq fun z hz => hsame z (List.mem_cons_of_mem _ hz),
        hsame y List.mem_cons_self hkey]
      omega

/-! ## A window -/

theorem update_count {p : EmailDelivery → Bool} {f : EmailDelivery → EmailDelivery}
    (hf : ∀ item ∈ t.notificationDeliveries, p item = true →
      (f item).recaps subscriberId occurrenceId = item.recaps subscriberId occurrenceId) :
    recapCount (t.updateDeliveries p f) subscriberId occurrenceId =
      recapCount t subscriberId occurrenceId := by
  unfold recapCount NotificationTables.updateDeliveries
  rw [List.countP_map]
  refine List.countP_congr fun item hitem => ?_
  rw [Function.comp_apply]
  split_ifs with hp
  · rw [hf item hitem hp]
  · rfl

theorem mem_catchUp {db : Db} {found : List JobMatch} {stop now : Time} {item : EmailDelivery} :
    occurrenceId ∈ (item.catchUp db found stop now).occurrenceIds ↔
      occurrenceId ∈ item.occurrenceIds ∨ occurrenceId ∈ found.map (·.occurrenceId) := by
  unfold EmailDelivery.catchUp
  simp only [List.mem_eraseDups, List.mem_append]

section round

variable {user : Subscriber} {found : List JobMatch} {start stop now : Time} {uuid : ℕ → Str} {db : Db}

/-- The recap of a window has its matches alone. -/
theorem recordRecap_count_other (hnd : (t.notificationDeliveries.map (·.id)).Nodup)
    (h : subscriberId = user.id → occurrenceId ∉ found.map (·.occurrenceId)) :
    recapCount (recordRecap now uuid db user found start stop t) subscriberId occurrenceId =
      recapCount t subscriberId occurrenceId := by
  unfold recordRecap
  split_ifs
  · rfl
  split
  · unfold recapCount NotificationTables.addDelivery
    have hnew : ¬EmailDelivery.recaps subscriberId occurrenceId (windowRecap user found start stop
        now (uuid t.notificationDeliveries.length)) = true := fun hnew => by
      simp only [EmailDelivery.recaps, windowRecap, newDelivery, Bool.and_eq_true] at hnew
      exact h (of_decide_eq_true hnew.1.1).symm (of_decide_eq_true hnew.2)
    rw [List.countP_append, List.countP_singleton, if_neg hnew, Nat.add_zero]
  next item hitem =>
    obtain ⟨hmem, hsubscriber, -⟩ := pendingRecap_eq_some hitem
    refine update_count fun row hrow hid => ?_
    obtain rfl := List.inj_on_of_nodup_map hnd hrow hmem (of_decide_eq_true hid)
    by_cases huser : row.subscriberId = subscriberId
    · have hiff : occurrenceId ∈ (row.catchUp db found stop now).occurrenceIds ↔
          occurrenceId ∈ row.occurrenceIds := by
        rw [mem_catchUp]
        exact or_iff_left (h (huser.symm.trans hsubscriber))
      unfold EmailDelivery.recaps
      rw [decide_eq_decide.mpr hiff]
      rfl
    · have hout : (row.catchUp db found stop now).subscriberId ≠ subscriberId := huser
      simp [EmailDelivery.recaps, huser, hout]

/-- A match of the window that is in no recap yet is in one recap afterwards. -/
theorem recordRecap_count_found (hnd : (t.notificationDeliveries.map (·.id)).Nodup)
    (hfound : occurrenceId ∈ found.map (·.occurrenceId))
    (hnone : recapCount t user.id occurrenceId = 0) :
    recapCount (recordRecap now uuid db user found start stop t) user.id occurrenceId = 1 := by
  have hnot : ∀ row ∈ t.notificationDeliveries, row.recaps user.id occurrenceId = false :=
    fun row hrow => Bool.eq_false_of_not_eq_true (List.countP_eq_zero.mp hnone row hrow)
  unfold recordRecap
  rw [if_neg (fun hempty => by
    rw [List.isEmpty_iff.mp hempty] at hfound
    exact absurd hfound List.not_mem_nil)]
  split
  · unfold recapCount NotificationTables.addDelivery at *
    have hnew : EmailDelivery.recaps user.id occurrenceId (windowRecap user found start stop now
        (uuid t.notificationDeliveries.length)) = true := by
      simp only [EmailDelivery.recaps, windowRecap, newDelivery, decide_true, Bool.true_and]
      exact decide_eq_true hfound
    rw [List.countP_append, hnone, List.countP_singleton, if_pos hnew]
  next item hitem =>
    obtain ⟨hmem, hsubscriber, hkind, -⟩ := pendingRecap_eq_some hitem
    have hnew : (item.catchUp db found stop now).recaps user.id occurrenceId = true := by
      have hoccurrence : occurrenceId ∈ (item.catchUp db found stop now).occurrenceIds :=
        mem_catchUp.mpr (.inr hfound)
      have hsame : (item.catchUp db found stop now).subscriberId = user.id := hsubscriber
      have hrecap : (item.catchUp db found stop now).kind = .recap := hkind
      simp [EmailDelivery.recaps, hoccurrence, hsame, hrecap]
    unfold recapCount NotificationTables.updateDelivery NotificationTables.updateDeliveries at *
    rw [List.countP_map]
    refine (countP_eq_succ hnd hmem (hnot item hmem) ?_ fun row _ hne => ?_).trans (by rw [hnone])
    · rw [Function.comp_apply, if_pos (by simp)]
      exact hnew
    · rw [Function.comp_apply, if_neg (by simpa using hne)]

/-- What a round makes of the counts. -/
theorem closeWindow_count (env : NotificationEnv) (now : Time) (uuid : ℕ → Str) (db : Db)
    (user : Subscriber) (start stop : Time) (t : NotificationTables) (subscriberId : Str)
    (occurrenceId : ℕ) :
    recapCount (closeWindow env now uuid db user start stop t) subscriberId occurrenceId =
      recapCount (recordRecap now uuid db user (windowMatches t user.id start stop) start stop t)
        subscriberId occurrenceId := by
  unfold closeWindow
  exact update_count fun item _ _ => rfl

end round

/-! ## The rounds -/

/-- A subscriber without a due cutoff, and an occurrence without a match in the window, keep their
count. -/
theorem makeRecap_count_other {now : Time} {uuid : ℕ → Str} {db : Db} {user : Subscriber}
    (hnd : (t.notificationDeliveries.map (·.id)).Nodup)
    (h : subscriberId = user.id → ∀ start nextRecap, user.windowStart = some start →
      user.nextRecap = some nextRecap →
      occurrenceId ∉ (windowMatches t user.id start
        (windowEnd env.zones user.timezone now nextRecap)).map (·.occurrenceId)) :
    recapCount (makeRecap env now uuid db t user) subscriberId occurrenceId =
      recapCount t subscriberId occurrenceId := by
  unfold makeRecap
  split
  next start nextRecap hstart hnext =>
    rw [closeWindow_count]
    exact recordRecap_count_other hnd fun huser => h huser start nextRecap hstart hnext
  · rfl

/-- The rounds of `make_recaps` find the matches as they were, and keep their own subscribers'
counts. -/
theorem makeRecaps_loop_count {now : Time} {uuid : ℕ → Str} {db : Db} (users : List Subscriber)
    (t : NotificationTables)
    (hnd : ((users.foldl (makeRecap env now uuid db) t).notificationDeliveries.map (·.id)).Nodup)
    (h : ∀ user ∈ users, subscriberId = user.id → ∀ start nextRecap,
      user.windowStart = some start → user.nextRecap = some nextRecap →
      occurrenceId ∉ (windowMatches t user.id start
        (windowEnd env.zones user.timezone now nextRecap)).map (·.occurrenceId)) :
    recapCount (users.foldl (makeRecap env now uuid db) t) subscriberId occurrenceId =
      recapCount t subscriberId occurrenceId := by
  induction users generalizing t with
  | nil => rfl
  | cons user users ih =>
    have hids := (makeRecaps_loop_ids now uuid db (user :: users) t).sublist.nodup hnd
    have hmatched := (sameFeed_makeRecap env now uuid db t user).matched
    rw [List.foldl_cons, ih _ hnd fun later hlater huser start nextRecap hstart hnext => ?_]
    · exact makeRecap_count_other hids (h user List.mem_cons_self)
    · unfold windowMatches
      rw [hmatched]
      exact h later (List.mem_cons_of_mem _ hlater) huser start nextRecap hstart hnext

/-- The round of a subscriber with a due cutoff records the matches of its window. -/
theorem makeRecaps_loop_found {now : Time} {uuid : ℕ → Str} {db : Db} {user : Subscriber}
    {start nextRecap : Time} (hstart : user.windowStart = some start)
    (hnext : user.nextRecap = some nextRecap) (users : List Subscriber) (t : NotificationTables)
    (hids : (users.map (·.id)).Nodup) (huser : user ∈ users)
    (hnd : ((users.foldl (makeRecap env now uuid db) t).notificationDeliveries.map (·.id)).Nodup)
    (hfound : occurrenceId ∈ (windowMatches t user.id start
      (windowEnd env.zones user.timezone now nextRecap)).map (·.occurrenceId))
    (hnone : recapCount t user.id occurrenceId = 0) :
    recapCount (users.foldl (makeRecap env now uuid db) t) user.id occurrenceId = 1 := by
  induction users generalizing t with
  | nil => exact absurd huser List.not_mem_nil
  | cons first users ih =>
    rw [List.map_cons, List.nodup_cons] at hids
    have hrows := (makeRecaps_loop_ids now uuid db (first :: users) t).sublist.nodup hnd
    have hmatched := (sameFeed_makeRecap env now uuid db t first).matched
    rcases List.mem_cons.mp huser with rfl | hlater
    · rw [List.foldl_cons, makeRecaps_loop_count users _ hnd fun later hlater hid => ?_]
      · unfold makeRecap
        rw [hstart, hnext]
        dsimp only
        rw [closeWindow_count]
        exact recordRecap_count_found hrows hfound hnone
      · exact absurd (hid ▸ List.mem_map_of_mem hlater) hids.1
    · have hne : user.id ≠ first.id := fun heq => hids.1 (heq ▸ List.mem_map_of_mem hlater)
      refine ih _ hids.2 hlater hnd ?_ ?_
      · unfold windowMatches
        rw [hmatched]
        exact hfound
      · rw [makeRecap_count_other hrows fun heq => absurd heq hne]
        exact hnone

/-! ## Steps -/

variable {w : World} {step : NotificationStep}

/-- Only `make_recaps` changes the recaps. -/
theorem exec_count (hstep : ¬step.IsPrepare) :
    recapCount (step.exec cfg S env w).tables subscriberId occurrenceId =
      recapCount w.tables subscriberId occurrenceId := by
  refine (exec_evolves cfg S env w step).countP_eq (fun item item' h => ?_) fun item hcreated => ?_
  · cases h with
    | caught_up _ _ _ _ _ _ hprepare => exact absurd hprepare hstep
    | writtenBack send response =>
      obtain ⟨_, _, _, _, hframe⟩ := writtenBack_frame send.now item response
      rw [hframe]
      rfl
    | _ => rfl
  · have hkind : item.kind ≠ .recap := fun h => hstep (hcreated.recap h)
    simp [EmailDelivery.recaps, hkind]

/-- Matching adds no recap. -/
theorem matchedFrom_count {db : Db} (h : MatchedFrom db t t') :
    recapCount t' subscriberId occurrenceId = recapCount t subscriberId occurrenceId := by
  obtain ⟨alerts, heq, halerts⟩ := h.deliveries
  have hnone : alerts.countP (·.recaps subscriberId occurrenceId) = 0 :=
    List.countP_eq_zero.mpr fun item hitem => by simp [EmailDelivery.recaps, halerts item hitem]
  unfold recapCount
  rw [heq, List.countP_append, hnone, Nat.add_zero]

/-- An occurrence that a subscriber has no match for stays out of its recaps. -/
theorem makeRecaps_count_unmatched {now : Time} {uuid : ℕ → Str} {db : Db}
    (hnd : ((makeRecaps env now uuid db t).notificationDeliveries.map (·.id)).Nodup)
    (h : ∀ m ∈ t.notificationMatches, m.subscriberId = subscriberId →
      m.occurrenceId ≠ occurrenceId) :
    recapCount (makeRecaps env now uuid db t) subscriberId occurrenceId =
      recapCount t subscriberId occurrenceId := by
  unfold makeRecaps at hnd ⊢
  split_ifs at hnd ⊢
  · rfl
  refine makeRecaps_loop_count _ t hnd fun user _ huser start nextRecap _ _ hmem => ?_
  obtain ⟨m, hm, heq⟩ := List.mem_map.mp hmem
  unfold windowMatches at hm
  rw [List.mem_insertionSort, List.mem_filter] at hm
  obtain ⟨hmatch, hwindow⟩ := hm
  simp only [Bool.and_eq_true, decide_eq_true_eq] at hwindow
  exact h m hmatch (hwindow.1.1.trans huser.symm) heq

end JobPing
