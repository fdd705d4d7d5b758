import JobPing.DeliveryChanges
import JobPing.Runs

/-!
# The status of a delivery

A delivery that has reached a final status is not sent again, unless a late write-back undoes it: a
worker whose lease has expired writes its own outcome over the one of the worker that took over, and
where that outcome is another try the delivery is pending again. `status_never_regresses_iff` says
that nothing else in a run makes a final status regress.
-/

namespace JobPing

variable {cfg : Config} {S : Services} {env : NotificationEnv}

/-! ## Final statuses -/

/-- The statuses of a delivery that is not to be sent again. -/
def DeliveryStatus.Final (status : DeliveryStatus) : Prop :=
  status ∈ [accepted, delivered, bounced, complained, failed, cancelled]

instance (status : DeliveryStatus) : Decidable status.Final := by
  unfold DeliveryStatus.Final
  infer_instance

/-- The statuses of a delivery that a worker may claim. -/
def DeliveryStatus.Queued (status : DeliveryStatus) : Prop :=
  status = pending ∨ status = sending

instance (status : DeliveryStatus) : Decidable status.Queued := by
  unfold DeliveryStatus.Queued
  infer_instance

theorem DeliveryStatus.Final.not_queued {status : DeliveryStatus} (h : status.Final) :
    ¬status.Queued := by
  rintro (rfl | rfl) <;> revert h <;> decide

/-- An answer after which an email is tried again: a quota is used up, or nothing is settled. -/
def Retried (response : Option Response) : Prop :=
  let code : SendCode := (readResponse response).1
  code ≠ .accepted ∧ (code = .dailyQuotaExceeded ∨ code = .monthlyQuotaExceeded ∨
    response.any (·.refused) = false)

instance (response : Option Response) : Decidable (Retried response) := by
  unfold Retried
  infer_instance

variable {w : World} {step : NotificationStep} {item item' : EmailDelivery} {now : Time}
  {response : Option Response}

/-- The outcome of such an answer queues the delivery. -/
theorem sendOutcome_of_retried (attempts : ℕ) (h : Retried response) :
    ∃ delay, sendOutcome attempts response = .quota delay ∨
      sendOutcome attempts response = .retry delay := by
  obtain ⟨hcode, hretried⟩ := h
  unfold sendOutcome
  dsimp only at hcode hretried ⊢
  rw [if_neg hcode]
  split_ifs with hdaily hmonthly hrefused
  · exact ⟨_, .inl rfl⟩
  · exact ⟨_, .inl rfl⟩
  · simp_all
  · exact ⟨_, .inr rfl⟩

theorem writtenBack_of_retried (h : Retried response) :
    (item.writtenBack now response).status = .pending := by
  obtain ⟨delay, hquota | hretry⟩ := sendOutcome_of_retried item.attempts h
  · simp only [EmailDelivery.writtenBack, hquota]
  · simp only [EmailDelivery.writtenBack, hretry]

theorem sendOutcome_of_not_retried (attempts : ℕ) (h : ¬Retried response) :
    (∃ providerId, sendOutcome attempts response = .accepted providerId) ∨
      sendOutcome attempts response = .failed := by
  unfold sendOutcome
  unfold Retried at h
  dsimp only at h ⊢
  split_ifs with hcode hdaily hmonthly hrefused
  · exact .inl ⟨_, rfl⟩
  · exact absurd ⟨hcode, .inl hdaily⟩ h
  · exact absurd ⟨hcode, .inr (.inl hmonthly)⟩ h
  · exact .inr rfl
  · exact absurd ⟨hcode, .inr (.inr (Bool.eq_false_of_not_eq_true hrefused))⟩ h

/-- An answer that settles the email gives it a final status. -/
theorem writtenBack_final (h : ¬Retried response) :
    (item.writtenBack now response).status.Final := by
  rcases sendOutcome_of_not_retried item.attempts h with ⟨providerId, haccepted⟩ | hfailed
  · simp only [EmailDelivery.writtenBack, haccepted]
    split_ifs with hstatus
    · rcases hstatus with h | h | h <;> rw [h] <;> decide
    · decide
  · simp only [EmailDelivery.writtenBack, hfailed]
    decide

/-! ## Steps -/

/-- The step is a late write-back that queues a delivery with a final status again. -/
def World.Requeues (w : World) : NotificationStep → Prop
  | .writeBack send response => send ∈ w.sends ∧ w.Answers send response ∧ Retried response ∧
      ∃ item ∈ w.tables.notificationDeliveries, item.id = send.deliveryId ∧ item.status.Final
  | _ => False

/-- One assignment keeps a final status. -/
theorem DeliveryStep.final (h : DeliveryStep env w step item item') (hfinal : item.status.Final)
    (hstep : ¬w.Requeues step) : item'.status.Final := by
  cases h with
  | cancelled => exact of_decide_eq_true rfl
  | superseded h _ _ => exact absurd (.inl h) hfinal.not_queued
  | caught_up db found stop now h _ _ => exact absurd (.inl h) hfinal.not_queued
  | given_up status errorCode now verify _ _ h _ _ =>
    simp only [EmailDelivery.claimable, Bool.and_eq_true, Bool.or_eq_true, decide_eq_true_eq] at h
    exact absurd h.1.1 hfinal.not_queued
  | postponed => exact hfinal
  | claimed user body now _ h _ _ _ _ =>
    simp only [EmailDelivery.claimable, Bool.and_eq_true, Bool.or_eq_true, decide_eq_true_eq] at h
    exact absurd h.1.1 hfinal.not_queued
  | writtenBack send response hwrite hitem hid hsend hanswers =>
    refine writtenBack_final fun hretried => hstep ?_
    rw [hwrite]
    exact ⟨hsend, hanswers, hretried, item, hitem, hid, hfinal⟩
  | event found status call account _ _ _ _ hstatus =>
    rcases hstatus with rfl | rfl | rfl <;> exact of_decide_eq_true rfl

theorem delivery_steps_final (h : Relation.ReflTransGen (DeliveryStep env w step) item item')
    (hfinal : item.status.Final) (hstep : ¬w.Requeues step) : item'.status.Final := by
  induction h with
  | refl => exact hfinal
  | tail _ hlast ih => exact hlast.final ih hstep

variable (cfg S env) in
/-- **A step keeps a final status**, unless it is a late write-back. -/
theorem exec_final (hitem : item ∈ w.tables.notificationDeliveries) (hfinal : item.status.Final)
    (hstep : ¬w.Requeues step) :
    ∃ row ∈ (step.exec cfg S env w).tables.notificationDeliveries,
      row.id = item.id ∧ row.status.Final := by
  obtain ⟨row, hrow, hsteps⟩ := (exec_evolves cfg S env w step).exists_mem hitem
  exact ⟨row, hrow, delivery_steps_id hsteps, delivery_steps_final hsteps hfinal hstep⟩

variable (cfg S env) in
/-- A late write-back queues the delivery. -/
theorem exec_requeues (hstep : w.Requeues step) :
    ∃ item ∈ w.tables.notificationDeliveries, item.status.Final ∧
      ∃ row ∈ (step.exec cfg S env w).tables.notificationDeliveries,
        row.id = item.id ∧ row.status = .pending := by
  cases step with
  | writeBack send response =>
    obtain ⟨hsend, hanswers, hretried, item, hitem, hid, hfinal⟩ := hstep
    refine ⟨item, hitem, hfinal, item.writtenBack send.now response, ?_, ?_,
      writtenBack_of_retried hretried⟩
    · have hfound : w.tables.delivery send.deliveryId = some item := by
        rw [← hid]
        exact Table.find?_key w.unique.delivery_ids hitem
      obtain ⟨accounts, hframe⟩ := writeBack_frame response hfound
      rw [exec_writeBack_tables hsend hanswers, hframe]
      exact List.mem_map.mpr ⟨item, hitem, by simp⟩
    · obtain ⟨_, _, _, _, hframe⟩ :=
        writtenBack_frame send.now item response
      rw [hframe]
  | _ => exact hstep.elim

/-! ## Runs -/

/-- In a run from `w`, a delivery with a final status is never queued again. -/
def NeverRegresses (cfg : Config) (S : Services) (env : NotificationEnv) (w : World)
    (steps : List NotificationStep) : Prop :=
  ∀ before middle after, steps = before ++ middle ++ after →
    ∀ item ∈ (w.run cfg S env before).tables.notificationDeliveries, item.status.Final →
      ∀ row ∈ (w.run cfg S env (before ++ middle)).tables.notificationDeliveries,
        row.id = item.id → ¬row.status.Queued

theorem run_final {steps : List NotificationStep}
    (h : w.Along cfg S env (fun w step => ¬w.Requeues step) steps)
    (hitem : item ∈ w.tables.notificationDeliveries) (hfinal : item.status.Final) :
    ∃ row ∈ (w.run cfg S env steps).tables.notificationDeliveries,
      row.id = item.id ∧ row.status.Final := by
  refine h.invariant (I := fun w => ∃ row ∈ w.tables.notificationDeliveries,
    row.id = item.id ∧ row.status.Final) ?_ ⟨item, hitem, rfl, hfinal⟩
  rintro w step ⟨row, hrow, hid, hfinal⟩ hstep
  obtain ⟨row', hrow', hid', hfinal'⟩ :=
    exec_final cfg S env hrow hfinal hstep
  exact ⟨row', hrow', hid'.trans hid, hfinal'⟩

/-- A run after a step. -/
theorem NeverRegresses.tail {steps : List NotificationStep}
    (h : NeverRegresses cfg S env w (step :: steps)) :
    NeverRegresses cfg S env (step.exec cfg S env w) steps := fun before middle after heq =>
  h (step :: before) middle after (by rw [heq]; simp)

/-- **A final status never regresses in a run exactly when no late write-back queues the delivery
again.** -/
theorem status_never_regresses_iff (w : World) (steps : List NotificationStep) :
    NeverRegresses cfg S env w steps ↔
      w.Along cfg S env (fun w step => ¬w.Requeues step) steps := by
  constructor
  · intro h
    induction steps generalizing w with
    | nil => trivial
    | cons step steps ih =>
      refine ⟨fun hrequeues => ?_, ih _ h.tail⟩
      obtain ⟨item, hitem, hfinal, row, hrow, hid, hpending⟩ :=
        exec_requeues cfg S env hrequeues
      exact h [] [step] steps rfl item hitem hfinal row hrow hid (.inl hpending)
  · rintro h before middle after rfl item hitem hfinal row hrow hid
    rw [List.append_assoc, World.along_append, World.along_append] at h
    rw [World.run_append] at hrow
    obtain ⟨row', hrow', hid', hfinal'⟩ := run_final h.2.1 hitem hfinal
    rw [List.inj_on_of_nodup_map (World.unique _).delivery_ids hrow hrow' (hid.trans hid'.symm)]
    exact hfinal'.not_queued

/-- Two workers claim the email one after the other; the second one is answered first, and the
request of the first one runs into its timeout. -/
def lateSteps : List NotificationStep :=
  connectSteps ++
    [.claim 0 fun _ _ => some true, .claim (minutes 2) fun _ _ => some true,
      .accept (sampleSend (minutes 2)) "email".toList,
      .writeBack (sampleSend (minutes 2)) (accepting "email"),
      .writeBack (sampleSend 0) none]

/-- The email is accepted, and queued again. -/
theorem accepted_email_requeued : ¬NeverRegresses sampleConfig .ascii .plain .empty lateSteps := by
  intro h
  have hrun : ∃ item ∈ (World.empty.run sampleConfig .ascii .plain
      (lateSteps.take 6)).tables.notificationDeliveries, item.status.Final ∧
      ∃ row ∈ (World.empty.run sampleConfig .ascii .plain
        (lateSteps.take 6 ++ lateSteps.drop 6)).tables.notificationDeliveries,
        row.id = item.id ∧ row.status.Queued := by
    decide +kernel
  obtain ⟨item, hitem, hfinal, row, hrow, hid, hqueued⟩ := hrun
  exact h (lateSteps.take 6) (lateSteps.drop 6) [] rfl item hitem hfinal row hrow hid hqueued

end JobPing
