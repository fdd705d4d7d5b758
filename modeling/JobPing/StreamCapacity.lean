import JobPing.StreamLeases

/-!
# The capacity of streams

A token is in the set of its address exactly when it is in the global one, with the same score, and a
lease is granted only while both sets have room. So the limits hold in every state of a run, and a
token that is not live stays so (`stream_capacity`).
-/

namespace JobPing

variable {hmac : Str → Str → Digest} {settings : LimitSettings}

theorem opaqueKey_length (hmac : Str → Str → Digest) (secret kind value : Str) :
    (opaqueKey hmac secret kind value).length = 21 + kind.length + 1 + 64 := by
  unfold opaqueKey
  rw [List.length_append, List.length_append, List.length_append, (hmac secret _).valid.1]
  rfl

/-- The digest of an address does not read `global`. -/
theorem opaqueKey_ne_global (hmac : Str → Str → Digest) (secret address : Str) :
    opaqueKey hmac secret "streams".toList address ≠ globalKey := by
  intro heq
  have hlength := opaqueKey_length hmac secret "streams".toList address
  rw [heq] at hlength
  revert hlength
  decide

namespace LeaseWorld

variable (hmac settings)

/-- **The invariant** of the leases. -/
structure Inv (w : LeaseWorld) : Prop where
  outlives : w.redis.Outlives
  bounded : w.redis.Bounded w.clock settings.leaseSeconds
  keys : ∀ lease ∈ w.granted, ∃ address, lease = settings.lease hmac address lease.token
  tokens : (w.granted.map (·.token)).Nodup
  owner : ∀ m x, w.clock < x → (w.redis globalKey).score m = some x →
    ∃ lease ∈ w.granted, lease.token = m
  agree : ∀ key, key ≠ globalKey → ∀ m x, w.clock < x → ((w.redis key).score m = some x ↔
    (w.redis globalKey).score m = some x ∧
      ∃ lease ∈ w.granted, lease.token = m ∧ lease.keys.1 = key)
  per_ip : ∀ key, key ≠ globalKey → (w.redis.live w.clock key).card ≤ settings.streamsPerIp
  total : (w.redis.live w.clock globalKey).card ≤ settings.streamsTotal

variable {hmac settings} {w w' : LeaseWorld} {now : Time}

theorem Inv.empty (start : Time) : Inv hmac settings (.empty start) where
  outlives _ _ _ h := by cases h
  bounded _ _ _ h := by cases h
  keys _ h := by cases h
  tokens := List.nodup_nil
  owner _ _ _ h := by cases h
  agree key _ m x _ := by simp [LeaseWorld.empty]
  per_ip _ _ := Nat.zero_le _
  total := Nat.zero_le _

/-- Time passes. -/
theorem Inv.wait (h : w.Inv hmac settings) (hnow : w.clock ≤ now) :
    Inv hmac settings { w with clock := now } where
  outlives := h.outlives
  bounded key m x hx := (h.bounded key m x hx).trans (Int.add_le_add_right hnow _)
  keys := h.keys
  tokens := h.tokens
  owner m x hx := h.owner m x (hnow.trans_lt hx)
  agree key hkey m x hx := h.agree key hkey m x (hnow.trans_lt hx)
  per_ip key hkey := (Finset.card_le_card (h.outlives.live_anti hnow)).trans (h.per_ip key hkey)
  total := (Finset.card_le_card (h.outlives.live_anti hnow)).trans h.total

/-- A lease in the set of its address is the one that was granted with its token. -/
theorem Inv.lease_eq (h : w.Inv hmac settings) {lease lease' : Lease} (hmem : lease ∈ w.granted)
    (hmem' : lease' ∈ w.granted) (htoken : lease'.token = lease.token) : lease' = lease :=
  List.inj_on_of_nodup_map h.tokens hmem' hmem htoken

theorem Inv.lease_keys (h : w.Inv hmac settings) {lease : Lease} (hmem : lease ∈ w.granted) :
    lease.keys.1 ≠ globalKey ∧ lease.keys.2 = globalKey := by
  obtain ⟨address, heq⟩ := h.keys lease hmem
  rw [heq]
  exact ⟨opaqueKey_ne_global hmac settings.secret address, rfl⟩

theorem leaseSeconds_pos (settings : LimitSettings) : 0 < settings.leaseSeconds := by
  have := settings.lease_bounds.1
  omega

/-- A token is held under two keys: the live scores after it, from those before. -/
def HeldScores (settings : LimitSettings) (now : Time) (keys : Str × Str) (token : Str)
    (redis redis' : Redis) : Prop :=
  ∀ key m x, now < x → ((redis' key).score m = some x ↔
    if (key = keys.1 ∨ key = keys.2) ∧ m = token then now + seconds settings.leaseSeconds = x
    else (redis key).score m = some x)

section held

variable {redis redis' : Redis} {keys : Str × Str} {token key m : Str}

theorem held_scores (hout : redis.Outlives)
    (hbound : redis.Bounded now settings.leaseSeconds) :
    HeldScores settings now keys token redis
      (redis.held now keys token settings.leaseSeconds) :=
  (held_spec keys token hout hbound (leaseSeconds_pos settings)).2.2

/-- The live tokens are those from before, and the one that is held. -/
theorem HeldScores.mem_live (h : HeldScores settings now keys token redis redis')
    (hout : redis.Outlives) (hout' : redis'.Outlives) :
    m ∈ redis'.live now key ↔
      (key = keys.1 ∨ key = keys.2) ∧ m = token ∨ m ∈ redis.live now key := by
  have hlater := lt_lease_end now (leaseSeconds_pos settings)
  rw [hout'.mem_live, hout.mem_live]
  constructor
  · rintro ⟨x, hx, hlt⟩
    rw [h key m x hlt] at hx
    split_ifs at hx with hheld
    · exact .inl hheld
    · exact .inr ⟨x, hx, hlt⟩
  · rintro (hheld | ⟨x, hx, hlt⟩)
    · exact ⟨_, (h key m _ hlater).mpr (by rw [if_pos hheld]), hlater⟩
    · by_cases hheld : (key = keys.1 ∨ key = keys.2) ∧ m = token
      · exact ⟨_, (h key m _ hlater).mpr (by rw [if_pos hheld]), hlater⟩
      · exact ⟨x, (h key m x hlt).mpr (by rw [if_neg hheld]; exact hx), hlt⟩

/-- One more token is live under each of the keys, at most. -/
theorem HeldScores.card_le (h : HeldScores settings now keys token redis redis')
    (hout : redis.Outlives) (hout' : redis'.Outlives) (key : Str) :
    (redis'.live now key).card ≤ if key = keys.1 ∨ key = keys.2 then (redis.live now key).card + 1
      else (redis.live now key).card := by
  split_ifs with hin
  · refine (Finset.card_le_card fun m hm => ?_).trans (Finset.card_insert_le token _)
    rcases (h.mem_live hout hout').mp hm with ⟨-, rfl⟩ | hold
    · exact Finset.mem_insert_self ..
    · exact Finset.mem_insert_of_mem hold
  · refine Finset.card_le_card fun m hm => ?_
    exact ((h.mem_live hout hout').mp hm).resolve_left fun hnew => hin hnew.1

/-- The live tokens after both keys are given one. -/
theorem mem_live_held (hout : redis.Outlives)
    (hbound : redis.Bounded now settings.leaseSeconds) :
    m ∈ (redis.held now keys token settings.leaseSeconds).live now key ↔
      (key = keys.1 ∨ key = keys.2) ∧ m = token ∨ m ∈ redis.live now key :=
  (held_scores hout hbound).mem_live hout
    (held_spec keys token hout hbound (leaseSeconds_pos settings)).1

end held

section lease

variable {redis : Redis} {lease : Lease} {granted : List Lease}

/-- Every live token of the global set is of a lease, also after one is held. -/
theorem Inv.owner_held (h : w.Inv hmac settings)
    (hheld : HeldScores settings w.clock lease.keys lease.token w.redis redis)
    (hmem : lease ∈ granted) (hkept : ∀ other ∈ w.granted, other ∈ granted) {m : Str} {x : Time}
    (hx : w.clock < x) (hfound : (redis globalKey).score m = some x) :
    ∃ other ∈ granted, other.token = m := by
  rw [hheld globalKey m x hx] at hfound
  split_ifs at hfound with hown
  · exact ⟨lease, hmem, hown.2.symm⟩
  · obtain ⟨other, hother, heq⟩ := h.owner m x hx hfound
    exact ⟨other, hkept other hother, heq⟩

/-- **The sets agree** after a lease is held in both, if its token is of no lease of another
address. -/
theorem Inv.agree_held (h : w.Inv hmac settings)
    (hheld : HeldScores settings w.clock lease.keys lease.token w.redis redis)
    (hglobal : lease.keys.2 = globalKey)
    (hgranted : ∀ other, other ∈ granted ↔ other = lease ∨ other ∈ w.granted)
    (hown : ∀ other ∈ w.granted, other.token = lease.token → other.keys.1 = lease.keys.1)
    {key : Str} (hne : key ≠ globalKey) (m : Str) (x : Time) (hx : w.clock < x) :
    (redis key).score m = some x ↔ (redis globalKey).score m = some x ∧
      ∃ other ∈ granted, other.token = m ∧ other.keys.1 = key := by
  rw [hheld key m x hx, hheld globalKey m x hx, hglobal]
  simp only [hne, or_false, or_true, true_and]
  by_cases hm : m = lease.token
  · subst hm
    simp only [and_true, if_true]
    by_cases hkey : key = lease.keys.1
    · rw [if_pos hkey]
      exact (and_iff_left ⟨lease, (hgranted lease).mpr (.inl rfl), rfl, hkey.symm⟩).symm
    · have hnone : ¬∃ other ∈ w.granted, other.token = lease.token ∧ other.keys.1 = key := by
        rintro ⟨other, hother, htoken, rfl⟩
        exact hkey (hown other hother htoken)
      rw [if_neg hkey, h.agree key hne _ x hx]
      refine iff_of_false (fun hfound => hnone hfound.2) ?_
      rintro ⟨-, other, hother, htoken, rfl⟩
      rcases (hgranted other).mp hother with rfl | hother
      · exact hkey rfl
      · exact hnone ⟨other, hother, htoken, rfl⟩
  · simp only [hm, and_false, if_false]
    rw [h.agree key hne m x hx]
    refine and_congr_right fun _ => exists_congr fun other => ?_
    rw [hgranted other]
    refine and_congr_left fun hother => (or_iff_right ?_).symm
    rintro rfl
    exact hm hother.1.symm

end lease

/-- The tables of a server with the same live scores. -/
theorem Inv.of_scores (h : w.Inv hmac settings) {redis : Redis} (hout : redis.Outlives)
    (hbound : redis.Bounded w.clock settings.leaseSeconds)
    (hscore : ∀ key m x, w.clock < x → ((redis key).score m = some x ↔
      (w.redis key).score m = some x)) : Inv hmac settings { w with redis := redis } := by
  have hlive : ∀ key, redis.live w.clock key = w.redis.live w.clock key := fun key => by
    ext m
    rw [hout.mem_live, h.outlives.mem_live]
    exact exists_congr fun x => and_congr_left fun hx => hscore key m x hx
  refine ⟨hout, hbound, h.keys, h.tokens, fun m x hx hfound => ?_, fun key hkey m x hx => ?_,
    fun key hkey => ?_, ?_⟩
  · exact h.owner m x hx ((hscore _ m x hx).mp hfound)
  · exact (hscore key m x hx).trans ((h.agree key hkey m x hx).trans
      (and_congr_left' (hscore _ m x hx).symm))
  · exact (congrArg Finset.card (hlive key)).trans_le (h.per_ip key hkey)
  · exact (congrArg Finset.card (hlive globalKey)).trans_le h.total

/-- **A granted lease** has a place in both sets. -/
theorem Inv.acquire (h : w.Inv hmac settings) (address : Str) {token : Str}
    (hfresh : ∀ lease ∈ w.granted, lease.token ≠ token)
    (hgranted : (leaseAcquire w.clock (settings.lease hmac address token).keys token
      settings.leaseSeconds settings.streamsPerIp settings.streamsTotal w.redis).2 = true) :
    Inv hmac settings { w with
      redis := (leaseAcquire w.clock (settings.lease hmac address token).keys token
        settings.leaseSeconds settings.streamsPerIp settings.streamsTotal w.redis).1
      granted := settings.lease hmac address token :: w.granted } := by
  set lease := settings.lease hmac address token with hlease
  have hglobal : lease.keys.2 = globalKey := rfl
  obtain ⟨hout, hbound, hpurged, hcard₁, hcard₂⟩ :=
    purged_spec lease.keys h.outlives h.bounded
  rw [leaseAcquire_eq] at hgranted ⊢
  split_ifs at hgranted ⊢ with hfull
  -- both sets have room for the token
  simp only [Bool.or_eq_true, Bool.and_eq_true, decide_eq_true_eq, not_or, not_and, not_le, hcard₁,
    hcard₂] at hfull
  have hroom₁ := hfull.1 (by have := settings.per_ip_bounds.1; omega)
  have hroom₂ := hfull.2 (by have := settings.total_bounds.1; omega)
  obtain ⟨hout', hbound', -⟩ := held_spec lease.keys token hout hbound (leaseSeconds_pos settings)
  have hheld : HeldScores settings w.clock lease.keys lease.token w.redis
      ((w.redis.purged w.clock lease.keys).held w.clock lease.keys token settings.leaseSeconds) :=
    fun key m x hx => (held_scores hout hbound key m x hx).trans (by rw [hpurged key m x hx]; rfl)
  have hcard := hheld.card_le h.outlives hout'
  refine ⟨hout', hbound', ?_, ?_, fun m x hx => ?_, fun key hne m x hx => ?_,
    fun key hne => ?_, ?_⟩
  · intro other hother
    rcases List.mem_cons.mp hother with rfl | hother
    · exact ⟨address, rfl⟩
    · exact h.keys other hother
  · rw [List.map_cons, List.nodup_cons]
    refine ⟨fun hmem => ?_, h.tokens⟩
    obtain ⟨other, hother, heq⟩ := List.mem_map.mp hmem
    exact hfresh other hother heq
  · exact h.owner_held hheld List.mem_cons_self (fun _ => List.mem_cons_of_mem _) hx
  · exact h.agree_held hheld hglobal (fun _ => List.mem_cons)
      (fun other hother heq => absurd heq (hfresh other hother)) hne m x hx
  · have := hcard key
    split_ifs at this with hin
    · rcases hin with rfl | hin
      · exact this.trans hroom₁
      · exact absurd hin hne
    · exact this.trans (h.per_ip key hne)
  · have := hcard globalKey
    rw [if_pos (.inr rfl)] at this
    exact this.trans hroom₂

/-- **A renewed lease** was live in both sets. -/
theorem Inv.renew (h : w.Inv hmac settings) {lease : Lease} (hlease : lease ∈ w.granted) :
    Inv hmac settings { w with
      redis :=
        (leaseRenew w.clock lease.keys lease.token settings.leaseSeconds w.redis).1 } ∧
      ∀ key, (Keyspace.live (leaseRenew w.clock lease.keys lease.token settings.leaseSeconds
        w.redis).1 w.clock key) = w.redis.live w.clock key := by
  rw [leaseRenew_eq]
  split_ifs with hlost
  · exact ⟨h, fun _ => rfl⟩
  obtain ⟨-, hglobal⟩ := h.lease_keys hlease
  simp only [List.any_cons, List.any_nil, Bool.or_false, Bool.or_eq_true, not_or,
    Bool.not_eq_true, Option.all_eq_false, decide_eq_false_iff_not, not_le] at hlost
  have hfound : ∀ key, key = lease.keys.1 ∨ key = lease.keys.2 →
      lease.token ∈ w.redis.live w.clock key := by
    have hlive : ∀ key, (∃ x, w.redis.zscore w.clock key lease.token = some x ∧ w.clock < x) →
        lease.token ∈ w.redis.live w.clock key := fun key ⟨x, hx, hlt⟩ =>
      h.outlives.mem_live.mpr ⟨x, Keyspace.score_of_find hx, hlt⟩
    rintro key (rfl | rfl)
    · exact hlive _ (by simpa using hlost.1)
    · exact hlive _ (by simpa using hlost.2)
  obtain ⟨hout, hbound, hheld⟩ :=
    held_spec lease.keys lease.token h.outlives h.bounded (leaseSeconds_pos settings)
  have hlive : ∀ key, (Keyspace.live (w.redis.held w.clock lease.keys lease.token
      settings.leaseSeconds) w.clock key) = w.redis.live w.clock key := fun key => by
    ext m
    rw [mem_live_held h.outlives h.bounded]
    refine or_iff_right_of_imp ?_
    rintro ⟨hkey, rfl⟩
    exact hfound key hkey
  refine ⟨⟨hout, hbound, h.keys, h.tokens, fun m x hx => ?_, fun key hkey m x hx => ?_,
    fun key hkey => ?_, ?_⟩, hlive⟩
  · exact h.owner_held hheld hlease (fun _ => id) hx
  · exact h.agree_held hheld hglobal
      (fun other => (or_iff_right_of_imp fun heq => heq ▸ hlease).symm)
      (fun other hother htoken => by rw [h.lease_eq hlease hother htoken]) hkey m x hx
  · exact (congrArg Finset.card (hlive key)).trans_le (h.per_ip key hkey)
  · exact (congrArg Finset.card (hlive globalKey)).trans_le h.total

/-- **A released lease** leaves both sets. -/
theorem Inv.release (h : w.Inv hmac settings) {lease : Lease} (hlease : lease ∈ w.granted) :
    Inv hmac settings { w with
      redis := leaseRelease w.clock lease.keys lease.token w.redis } ∧
      (∀ key, Keyspace.live (leaseRelease w.clock lease.keys lease.token w.redis) w.clock key ⊆
        w.redis.live w.clock key) ∧
      lease.token ∉ Keyspace.live (leaseRelease w.clock lease.keys lease.token w.redis) w.clock
        globalKey := by
  obtain ⟨hne, hglobal⟩ := h.lease_keys hlease
  obtain ⟨hout, hbound, hscore⟩ :=
    leaseRelease_spec lease.keys lease.token h.outlives h.bounded
  have hlive : ∀ key, Keyspace.live (leaseRelease w.clock lease.keys lease.token w.redis) w.clock
      key ⊆ w.redis.live w.clock key := fun key m hm => by
    obtain ⟨x, hx, hlt⟩ := hout.mem_live.mp hm
    exact h.outlives.mem_live.mpr ⟨x, ((hscore key m x hlt).mp hx).1, hlt⟩
  refine ⟨⟨hout, hbound, h.keys, h.tokens, fun m x hx hm => ?_, fun key hkey m x hx => ?_,
    fun key hkey => ?_, ?_⟩, hlive, fun hm => ?_⟩
  · exact h.owner m x hx ((hscore globalKey m x hx).mp hm).1
  · dsimp only at hx ⊢
    rw [hscore key m x hx, hscore globalKey m x hx, h.agree key hkey m x hx, hglobal]
    by_cases hm : m = lease.token
    · subst hm
      simp only [hkey, or_false, or_true, and_true, not_true_eq_false, and_false, false_and,
        iff_false, not_and, not_not]
      rintro ⟨-, other, hother, htoken, rfl⟩
      rw [h.lease_eq hlease hother htoken]
    · simp [hm]
  · exact (Finset.card_le_card (hlive key)).trans (h.per_ip key hkey)
  · exact (Finset.card_le_card (hlive globalKey)).trans h.total
  · obtain ⟨x, hx, hlt⟩ := hout.mem_live.mp hm
    exact ((hscore globalKey _ x hlt).mp hx).2 ⟨.inr hglobal.symm, rfl⟩

/-- Only the token of the call becomes live. -/
theorem Inv.live_of_acquire (h : w.Inv hmac settings) {keys : Str × Str} {token key m : Str}
    {ipLimit globalLimit : ℕ}
    (hm : m ∈ Keyspace.live (leaseAcquire w.clock keys token settings.leaseSeconds ipLimit
      globalLimit w.redis).1 w.clock key) : m = token ∨ m ∈ w.redis.live w.clock key := by
  obtain ⟨hout, hbound, hpurged, -, -⟩ := purged_spec keys h.outlives h.bounded
  have hlive : m ∈ (w.redis.purged w.clock keys).live w.clock key → m ∈ w.redis.live w.clock key := by
    rw [hout.mem_live, h.outlives.mem_live]
    rintro ⟨x, hx, hlt⟩
    exact ⟨x, (hpurged key m x hlt).mp hx, hlt⟩
  rw [leaseAcquire_eq] at hm
  split_ifs at hm
  · exact .inr (hlive hm)
  · exact ((mem_live_held hout hbound).mp hm).imp And.right hlive

/-- A refused call only purges. -/
theorem Inv.refuse (h : w.Inv hmac settings) {keys : Str × Str} {token : Str}
    {ipLimit globalLimit : ℕ} (hrefused : (leaseAcquire w.clock keys token
      settings.leaseSeconds ipLimit globalLimit w.redis).2 = false) :
    Inv hmac settings { w with
      redis := (leaseAcquire w.clock keys token settings.leaseSeconds ipLimit globalLimit
        w.redis).1 } := by
  obtain ⟨hout, hbound, hpurged, -, -⟩ := purged_spec keys h.outlives h.bounded
  rw [leaseAcquire_eq] at hrefused ⊢
  split_ifs at hrefused ⊢
  exact h.of_scores hout hbound hpurged

/-- **A step** keeps the invariant and the granted leases, and no token but a new one becomes
live. -/
theorem Inv.step (h : w.Inv hmac settings) (henforce : settings.mode = .enforce)
    {action : Time × LeaseCall} (hstep : step hmac settings action w = some w') :
    w'.Inv hmac settings ∧ (∀ lease ∈ w.granted, lease ∈ w'.granted) ∧
      ∀ lease ∈ w.granted, ∀ key, lease.token ∈ w'.redis.live w'.clock key →
        lease.token ∈ w.redis.live w.clock key := by
  obtain ⟨now, call⟩ := action
  simp only [LeaseWorld.step] at hstep
  split_ifs at hstep with hpast
  have hnow : w.clock ≤ now := not_lt.mp hpast
  have hwait := h.wait hnow
  have hlater : ∀ key, w.redis.live now key ⊆ w.redis.live w.clock key := fun key =>
    h.outlives.live_anti hnow
  cases call with
  | wait =>
    cases hstep
    exact ⟨hwait, fun _ => id, fun lease _ key hm => hlater key hm⟩
  | acquire address token =>
    simp only at hstep
    split_ifs at hstep with hused hgranted
    all_goals
      cases hstep
      have hfresh : ∀ lease ∈ w.granted, lease.token ≠ token := fun lease hmem heq =>
        hused (List.any_eq_true.mpr ⟨lease, List.mem_append_left _ hmem, by simpa using heq⟩)
    · refine ⟨hwait.acquire address hfresh hgranted, fun _ => List.mem_cons_of_mem _,
        fun lease hmem key hm => hlater key ?_⟩
      exact (hwait.live_of_acquire hm).resolve_left (hfresh lease hmem)
    · refine ⟨?_, fun _ => id, fun lease hmem key hm => hlater key ?_⟩
      · have hrefuse := hwait.refuse (Bool.not_eq_true _ ▸ hgranted)
        exact ⟨hrefuse.outlives, hrefuse.bounded, hrefuse.keys, hrefuse.tokens, hrefuse.owner,
          hrefuse.agree, hrefuse.per_ip, hrefuse.total⟩
      · exact (hwait.live_of_acquire hm).resolve_left (hfresh lease hmem)
  | reserve lease =>
    simp only [henforce] at hstep
    simp at hstep
  | renew lease =>
    simp only at hstep
    split_ifs at hstep with hlease
    cases hstep
    obtain ⟨hinv, hlive⟩ := hwait.renew hlease
    exact ⟨hinv, fun _ => id, fun other _ key hm => hlater key (hlive key ▸ hm)⟩
  | release lease =>
    simp only at hstep
    split_ifs at hstep with hlease
    cases hstep
    obtain ⟨hinv, hlive, -⟩ := hwait.release hlease
    exact ⟨hinv, fun _ => id, fun other _ key hm => hlater key (hlive key hm)⟩

/-- **Every run** keeps the invariant. -/
theorem Inv.run (henforce : settings.mode = .enforce) {start : Time}
    {actions : List (Time × LeaseCall)} (hrun : run hmac settings start actions = some w) :
    w.Inv hmac settings :=
  Interleaving.run_invariant (I := Inv hmac settings) (.empty start)
    (fun _ _ _ _ _ _ _ hstep hinv => (hinv.step henforce hstep).1) hrun

/-- A lease is live in both sets or in none. -/
theorem Inv.live_iff (h : w.Inv hmac settings) {lease : Lease} (hlease : lease ∈ w.granted) :
    lease.token ∈ w.redis.live w.clock lease.keys.1 ↔
      lease.token ∈ w.redis.live w.clock globalKey := by
  rw [h.outlives.mem_live, h.outlives.mem_live]
  refine exists_congr fun x => and_congr_left fun hlt => ?_
  rw [h.agree _ (h.lease_keys hlease).1 _ x hlt]
  exact and_iff_left ⟨lease, hlease, rfl, rfl⟩

/-- **A lease that is not live** never is again. -/
theorem lost_forever (henforce : settings.mode = .enforce) {start : Time}
    {actions later : List (Time × LeaseCall)} (hrun : run hmac settings start actions = some w)
    {lease : Lease} (hlease : lease ∈ w.granted)
    (hlost : lease.token ∉ w.redis.live w.clock globalKey)
    (hlater : run hmac settings start (actions ++ later) = some w') :
    lease.token ∉ w'.redis.live w'.clock globalKey := by
  obtain ⟨c, hc, hrest⟩ := Interleaving.run_prefix hlater
  obtain rfl := Option.some.inj (hc.symm.trans hrun)
  have hall : w'.Inv hmac settings ∧ lease ∈ w'.granted ∧
      lease.token ∉ w'.redis.live w'.clock globalKey := by
    refine Interleaving.run_invariant (I := fun c => c.Inv hmac settings ∧ lease ∈ c.granted ∧
      lease.token ∉ c.redis.live c.clock globalKey) ⟨Inv.run henforce hrun, hlease, hlost⟩
      (fun _ _ _ c c' _ _ hstep hinv => ?_) hrest
    obtain ⟨hinv, hmem, hnot⟩ := hinv
    obtain ⟨hinv', hgranted, hlive⟩ := hinv.step henforce hstep
    exact ⟨hinv', hgranted lease hmem, fun hm => hnot (hlive lease hmem globalKey hm)⟩
  exact hall.2.2

end LeaseWorld

/-! ## Capacity -/

/-- **Streams respect capacity** in the state that a run has reached. -/
structure StreamsWithinCapacity (hmac : Str → Str → Digest) (settings : LimitSettings)
    (start : Time) (actions : List (Time × LeaseCall)) (w : LeaseWorld) : Prop where
  per_ip : ∀ address, (w.redis.live w.clock
    (opaqueKey hmac settings.secret "streams".toList address)).card ≤ settings.streamsPerIp
  total : (w.redis.live w.clock globalKey).card ≤ settings.streamsTotal
  /-- A token is live in the set of its address exactly when it is live in the global one. -/
  agree : ∀ lease ∈ w.granted, (lease.token ∈ w.redis.live w.clock lease.keys.1 ↔
    lease.token ∈ w.redis.live w.clock globalKey)
  /-- The live tokens are those of leases, in the sets of their addresses. -/
  leased : (∀ token ∈ w.redis.live w.clock globalKey, ∃ lease ∈ w.granted, lease.token = token) ∧
    ∀ address, ∀ token ∈ w.redis.live w.clock
      (opaqueKey hmac settings.secret "streams".toList address), ∃ lease ∈ w.granted,
        lease.token = token ∧
          lease.keys.1 = opaqueKey hmac settings.secret "streams".toList address
  released : ∀ now lease w', LeaseWorld.step hmac settings (now, .release lease) w = some w' →
    lease.token ∉ w'.redis.live w'.clock globalKey
  lost : ∀ lease ∈ w.granted, lease.token ∉ w.redis.live w.clock globalKey →
    ∀ later w', LeaseWorld.run hmac settings start (actions ++ later) = some w' →
      lease.token ∉ w'.redis.live w'.clock globalKey
  /-- The time of a key is not over while a token of its set has time left. -/
  outlived : ∀ key token expiry, (w.redis key).score token = some expiry → w.clock < expiry →
    (w.redis key).gone w.clock = false

/-- **Stream leases respect capacity.** -/
theorem stream_capacity (hmac : Str → Str → Digest) (settings : LimitSettings)
    (henforce : settings.mode = .enforce) (start : Time) (actions : List (Time × LeaseCall))
    (w : LeaseWorld) (hrun : LeaseWorld.run hmac settings start actions = some w) :
    StreamsWithinCapacity hmac settings start actions w := by
  have hinv := LeaseWorld.Inv.run henforce hrun
  have hkey := opaqueKey_ne_global hmac settings.secret
  refine ⟨fun address => hinv.per_ip _ (hkey address), hinv.total, fun lease => hinv.live_iff,
    ⟨fun token hlive => ?_, fun address token hlive => ?_⟩, fun now lease w' hstep => ?_,
    fun lease hlease hlost later w' => LeaseWorld.lost_forever henforce hrun hlease hlost,
    fun key token expiry => hinv.outlives.not_gone⟩
  · obtain ⟨x, hx, hlt⟩ := hinv.outlives.mem_live.mp hlive
    exact hinv.owner token x hlt hx
  · obtain ⟨x, hx, hlt⟩ := hinv.outlives.mem_live.mp hlive
    exact ((hinv.agree _ (hkey address) token x hlt).mp hx).2
  · simp only [LeaseWorld.step] at hstep
    split_ifs at hstep with hpast hlease
    cases hstep
    exact ((hinv.wait (not_lt.mp hpast)).release hlease).2.2

/-- Room for one stream of an address. -/
def narrowSettings : LimitSettings where
  mode := .enforce
  secret := "0123456789abcdef0123456789abcdef".toList
  streamsPerIp := 1
  streamsTotal := 200
  leaseSeconds := 60
  per_ip_bounds := by decide
  total_bounds := by decide
  lease_bounds := by decide

/-- The digest of the secret and of `streams:203.0.113.7`. -/
def addressDigest : Digest where
  hex := "70262d87651ca93b1cc63f425df2fd16326d58a2c07506d73a9a4a4a441570af".toList
  valid := by decide

def narrowLease (token : String) : Lease :=
  narrowSettings.lease (fun _ _ => addressDigest) "203.0.113.7".toList token.toList

/-- The lease of the first stream is renewed, so that the second one is refused; the third one gets
the room when it is released, and the fourth one when the next lease has expired. -/
def narrowCalls : List (Time × LeaseCall) :=
  [(0, .acquire "203.0.113.7".toList "a".toList), (seconds 40, .renew (narrowLease "a")),
    (seconds 70, .acquire "203.0.113.7".toList "b".toList),
    (seconds 80, .release (narrowLease "a")),
    (seconds 81, .acquire "203.0.113.7".toList "c".toList),
    (seconds 141, .acquire "203.0.113.7".toList "d".toList)]

theorem narrow_streams : ∃ w,
    LeaseWorld.run (fun _ _ => addressDigest) narrowSettings 0 narrowCalls = some w ∧
      w.granted.map (·.token) = ["d".toList, "c".toList, "a".toList] ∧
      StreamsWithinCapacity (fun _ _ => addressDigest) narrowSettings 0 narrowCalls w := by
  have hgranted : (LeaseWorld.run (fun _ _ => addressDigest) narrowSettings 0 narrowCalls).map
      (fun w => w.granted.map (·.token)) = some ["d".toList, "c".toList, "a".toList] := by
    decide +kernel
  obtain ⟨w, hrun, htokens⟩ := Option.map_eq_some_iff.mp hgranted
  exact ⟨w, hrun, htokens, stream_capacity (fun _ _ => addressDigest) narrowSettings rfl 0 _ w hrun⟩

end JobPing
