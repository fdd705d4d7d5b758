import JobPing.NotificationApi

/-!
# Matching

What the loops of `match_events` leave (`MatchedFrom`): the matches and alerts they add, and the
events that are still to be processed. A round of `put_settings` over the backlog leaves the same.
-/

namespace JobPing

/-- The tables `t'` are `t` with the matches of some discoveries. -/
structure MatchedFrom (db : Db) (t t' : NotificationTables) : Prop where
  subscribers : t'.notificationSubscribers = t.notificationSubscribers
  webhooks : t'.notificationWebhooks = t.notificationWebhooks
  events : ∀ event ∈ t'.notificationEvents, event.processed = false →
    event ∈ t.notificationEvents
  matched : ∃ added, t'.notificationMatches = t.notificationMatches ++ added ∧
    ∀ m ∈ added, ∃ e ∈ joinedEvents db t, ∃ user ∈ t.notificationSubscribers,
      user.verified = true ∧ user.suppressed = false ∧ user.wants e = true ∧ m = e.matched user
  deliveries : ∃ alerts, t'.notificationDeliveries = t.notificationDeliveries ++ alerts ∧
    ∀ item ∈ alerts, item.kind = .alert

variable {db : Db} {t t' : NotificationTables} {now : Time} {uuid : ℕ → Str}

theorem MatchedFrom.refl (db : Db) (t : NotificationTables) : MatchedFrom db t t where
  subscribers := rfl
  webhooks := rfl
  events _ h _ := h
  matched := ⟨[], by simp⟩
  deliveries := ⟨[], by simp⟩

/-- An event that is still to be processed was so before. -/
theorem MatchedFrom.joinedEvents_subset (h : MatchedFrom db t t') :
    joinedEvents db t' ⊆ joinedEvents db t := by
  intro e he
  obtain ⟨event, hevent, hjoin⟩ := List.mem_filterMap.mp he
  obtain ⟨hmem, hprocessed⟩ := List.mem_filter.mp hevent
  have hold := h.events event hmem (by simpa using hprocessed)
  exact List.mem_filterMap.mpr ⟨event, List.mem_filter.mpr ⟨hold, hprocessed⟩, hjoin⟩

theorem MatchedFrom.trans {t'' : NotificationTables} (h : MatchedFrom db t t')
    (h' : MatchedFrom db t' t'') : MatchedFrom db t t'' where
  subscribers := h'.subscribers.trans h.subscribers
  webhooks := h'.webhooks.trans h.webhooks
  events event hevent hprocessed := h.events event (h'.events event hevent hprocessed) hprocessed
  matched := by
    obtain ⟨added, heq, hadded⟩ := h.matched
    obtain ⟨added', heq', hadded'⟩ := h'.matched
    refine ⟨added ++ added', by rw [heq', heq, List.append_assoc], fun m hm => ?_⟩
    rcases List.mem_append.mp hm with hm | hm
    · exact hadded m hm
    · obtain ⟨e, he, user, huser, hspec⟩ := hadded' m hm
      exact ⟨e, h.joinedEvents_subset he, user, h.subscribers ▸ huser, hspec⟩
  deliveries := by
    obtain ⟨alerts, heq, halerts⟩ := h.deliveries
    obtain ⟨alerts', heq', halerts'⟩ := h'.deliveries
    refine ⟨alerts ++ alerts', by rw [heq', heq, List.append_assoc], fun item hitem => ?_⟩
    exact (List.mem_append.mp hitem).elim (halerts item) (halerts' item)

theorem matchedFrom_matchUser {e : JoinedEvent} {user : Subscriber} {t₀ : NotificationTables}
    (he : e ∈ joinedEvents db t₀) (huser : user ∈ t₀.notificationSubscribers)
    (hverified : user.verified = true) (hsuppressed : user.suppressed = false)
    (h : MatchedFrom db t₀ t) : MatchedFrom db t₀ (matchUser now uuid e t user) := by
  obtain ⟨added, heq, hadded⟩ := h.matched
  obtain ⟨alerts, heq', halerts⟩ := h.deliveries
  unfold matchUser
  split_ifs with hwants hmatched halert
  · exact h
  · exact h
  all_goals
    have hmatches : ∃ added, t.notificationMatches ++ [e.matched user] =
        t₀.notificationMatches ++ added ∧
        ∀ m ∈ added, ∃ e ∈ joinedEvents db t₀, ∃ user ∈ t₀.notificationSubscribers,
          user.verified = true ∧ user.suppressed = false ∧ user.wants e = true ∧
            m = e.matched user := by
      refine ⟨added ++ [e.matched user], by rw [heq, List.append_assoc], fun m hm => ?_⟩
      rcases List.mem_append.mp hm with hm | hm
      · exact hadded m hm
      · exact ⟨e, he, user, huser, hverified, hsuppressed, by simpa using hwants,
          List.mem_singleton.mp hm⟩
  · let alert := newDelivery user .alert (.alert user.id e.occurrence.id) [e.job.id] now
      [e.occurrence.id] (uuid t.notificationDeliveries.length)
    refine ⟨h.subscribers, h.webhooks, h.events, hmatches, alerts ++ [alert], ?_, fun item hitem => ?_⟩
    · rw [← List.append_assoc, ← heq']
      rfl
    · rcases List.mem_append.mp hitem with hitem | hitem
      · exact halerts item hitem
      · rw [List.mem_singleton.mp hitem]
        rfl
  · exact ⟨h.subscribers, h.webhooks, h.events, hmatches, alerts, heq', halerts⟩

/-- **What `match_events` leaves.** -/
theorem matchedFrom_matchEvents (now : Time) (uuid : ℕ → Str) (db : Db) (t : NotificationTables) :
    MatchedFrom db t (matchEvents now uuid db t) := by
  unfold matchEvents
  refine List.foldlRecOn _ _ (MatchedFrom.refl db t) fun u hu e he => ?_
  have hjoined : e ∈ joinedEvents db t := by
    have hmem := List.mem_of_mem_take he
    rwa [List.mem_insertionSort] at hmem
  have hround : MatchedFrom db t ((t.notificationSubscribers.filter fun user =>
      user.verified && !user.suppressed).foldl (matchUser now uuid e) u) := by
    refine List.foldlRecOn _ _ hu fun u hu user huser => ?_
    obtain ⟨hmem, hon⟩ := List.mem_filter.mp huser
    simp only [Bool.and_eq_true, Bool.not_eq_true'] at hon
    exact matchedFrom_matchUser hjoined hmem hon.1 hon.2 hu
  refine ⟨hround.subscribers, hround.webhooks, fun event hevent hprocessed => ?_, hround.matched,
    hround.deliveries⟩
  obtain ⟨before, hbefore, heq⟩ := List.mem_map.mp hevent
  split_ifs at heq
  · rw [← heq] at hprocessed
    cases hprocessed
  · exact heq ▸ hround.events before hbefore (heq ▸ hprocessed)

theorem matchedFrom_matchAll (now : Time) (uuid : ℕ → Str) (db : Db) (n : ℕ)
    (t : NotificationTables) : MatchedFrom db t (matchAll now uuid db n t) := by
  induction n generalizing t with
  | zero => exact .refl db t
  | succ n ih =>
    unfold matchAll
    split_ifs
    · exact (matchedFrom_matchEvents now uuid db t).trans (ih _)
    · exact .refl db t

end JobPing
