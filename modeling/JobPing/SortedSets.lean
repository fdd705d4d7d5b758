import JobPing.Dict
import Mathlib.Data.Finset.Card

/-!
# Sorted sets

The sorted sets of a store whose keys expire. A set gives each member a score, a time after which
it does not count any more; the key of a set may have a time of its own, after which the whole set is
gone. Scores and the clock are in microseconds, the time of a key is in milliseconds. A key whose set
loses its last member goes with it, and so does the time of the key.
-/

/-- The set of a key; a set without members is that of a missing key. -/
structure SortedSet (μ : Type*) where
  members : List (μ × ℤ)
  expires : Option ℤ
  nodup : (Dict.keys members).Nodup

namespace SortedSet

variable {μ : Type*} [DecidableEq μ]

/-- A missing key. -/
def missing : SortedSet μ := ⟨[], none, List.nodup_nil⟩

variable (s : SortedSet μ)

/-- The key has expired. -/
def gone (now : ℤ) : Bool := s.expires.any (· < now / 1000)

/-- `ZSCORE`. -/
def score (member : μ) : Option ℤ := Dict.get? member s.members

/-- `ZCARD`. -/
def card : ℕ := s.members.length

/-- `ZADD`. -/
def add (score : ℤ) (member : μ) : SortedSet μ where
  members := Dict.set member score s.members
  expires := s.expires
  nodup := Dict.nodup_keys_set s.nodup

/-- The members that are left after a removal. -/
def keep (p : μ × ℤ → Bool) : SortedSet μ where
  members := s.members.filter p
  expires := if (s.members.filter p).isEmpty then none else s.expires
  nodup := (List.filter_sublist.map Prod.fst).nodup s.nodup

/-- `EXPIRE`, which does nothing to a missing key. -/
def expire (now : ℤ) (seconds : ℕ) : SortedSet μ where
  members := s.members
  expires := if s.members.isEmpty then none else some (now / 1000 + 1000 * seconds)
  nodup := s.nodup

/-- The members whose scores are later than `t`. -/
def live (t : ℤ) : Finset μ :=
  ⟨((s.members.filter (t < ·.2)).map Prod.fst : List μ),
    (List.filter_sublist.map Prod.fst).nodup s.nodup⟩

variable {s} {t now x : ℤ} {m : μ}

theorem score_eq_some : s.score m = some x ↔ (m, x) ∈ s.members := by
  constructor
  · intro h
    obtain ⟨item, hitem, rfl⟩ := Option.map_eq_some_iff.mp h
    have hkey : item.1 = m := by simpa using List.find?_some hitem
    exact hkey ▸ List.mem_of_find?_eq_some hitem
  · exact Dict.get?_of_mem s.nodup

theorem mem_live : m ∈ s.live t ↔ ∃ x, s.score m = some x ∧ t < x := by
  have hlist : m ∈ s.live t ↔ m ∈ (s.members.filter (t < ·.2)).map Prod.fst := Iff.rfl
  rw [hlist, List.mem_map]
  constructor
  · rintro ⟨item, hitem, rfl⟩
    obtain ⟨hmem, hlt⟩ := List.mem_filter.mp hitem
    exact ⟨item.2, score_eq_some.mpr hmem, by simpa using hlt⟩
  · rintro ⟨x, hx, hlt⟩
    exact ⟨(m, x), List.mem_filter.mpr ⟨score_eq_some.mp hx, by simpa using hlt⟩, rfl⟩

@[simp] theorem score_missing (m : μ) : (missing : SortedSet μ).score m = none := rfl

@[simp] theorem score_expire (now : ℤ) (seconds : ℕ) (m : μ) :
    (s.expire now seconds).score m = s.score m := rfl

theorem score_add (score : ℤ) (member m : μ) :
    (s.add score member).score m = if m = member then some score else s.score m :=
  Dict.get?_set member m score s.members

theorem score_keep (p : μ × ℤ → Bool) (m : μ) :
    (s.keep p).score m = (s.score m).filter fun x => p (m, x) := by
  refine Option.ext fun x => ?_
  rw [score_eq_some, Option.filter_eq_some_iff, score_eq_some]
  exact List.mem_filter

/-- A set has as many members as are live, if all are. -/
theorem card_eq_live (h : ∀ m x, s.score m = some x → t < x) : s.card = (s.live t).card := by
  have hall : s.members.filter (t < ·.2) = s.members :=
    List.filter_eq_self.mpr fun item hitem => by
      simpa using h item.1 item.2 (score_eq_some.mpr hitem)
  have hcard : (s.live t).card = ((s.members.filter (t < ·.2)).map Prod.fst).length := rfl
  rw [hcard, List.length_map, hall, card]

end SortedSet

/-- The keys of a store. -/
abbrev Keyspace (κ μ : Type*) := κ → SortedSet μ

namespace Keyspace

variable {κ μ : Type*} (db : Keyspace κ μ)

/-- The set of a key at a time. -/
def find (now : ℤ) (key : κ) : SortedSet μ := if (db key).gone now then .missing else db key

theorem find_not_gone {now : ℤ} {key : κ} : (db.find now key).gone now = false := by
  rw [find]
  split_ifs with h
  · rfl
  · simpa using h

variable [DecidableEq μ]

/-- The live members of a key at a time. -/
def live (now : ℤ) (key : κ) : Finset μ := (db.find now key).live now

/-- **No key expires before its members**: the time of a key is not before the scores of its
set. -/
def Outlives : Prop :=
  ∀ key m x, (db key).score m = some x → ∃ e, (db key).expires = some e ∧ x ≤ 1000 * e

variable {db} {now t x : ℤ} {key key' : κ} {m : μ}

/-- A member with a later score is in the set, the key has not expired. -/
theorem Outlives.not_gone (h : db.Outlives) (hscore : (db key).score m = some x) (hlive : t < x) :
    (db key).gone t = false := by
  obtain ⟨e, he, hle⟩ := h key m x hscore
  rw [SortedSet.gone, he, Option.any_some, decide_eq_false_iff_not, not_lt]
  omega

theorem Outlives.find_score (h : db.Outlives) (hlive : t < x) :
    (db.find t key).score m = some x ↔ (db key).score m = some x := by
  rw [find]
  constructor
  · intro hx
    split_ifs at hx
    · cases hx
    · exact hx
  · intro hx
    rw [h.not_gone hx hlive]
    exact hx

theorem Outlives.mem_live (h : db.Outlives) :
    m ∈ db.live t key ↔ ∃ x, (db key).score m = some x ∧ t < x := by
  rw [live, SortedSet.mem_live]
  exact exists_congr fun x => and_congr_left fun hlt => h.find_score hlt

/-- Time passes. -/
theorem Outlives.live_anti (h : db.Outlives) (ht : now ≤ t) : db.live t key ⊆ db.live now key :=
  fun m hm => by
    obtain ⟨x, hx, hlt⟩ := h.mem_live.mp hm
    exact h.mem_live.mpr ⟨x, hx, ht.trans_lt hlt⟩

/-- The members that are found at a time are stored. -/
theorem score_of_find (hx : (db.find now key).score m = some x) : (db key).score m = some x := by
  rw [find] at hx
  split_ifs at hx
  · cases hx
  · exact hx

theorem expires_of_find (hx : (db.find now key).score m = some x) :
    (db.find now key).expires = (db key).expires := by
  rw [find] at hx ⊢
  split_ifs at hx ⊢
  · cases hx
  · rfl

/-! ## Commands -/

section commands

variable [DecidableEq κ]

variable (db) in
/-- A command that writes the set of a key. -/
def write (now : ℤ) (key : κ) (f : SortedSet μ → SortedSet μ) : Keyspace κ μ :=
  Function.update db key (f (db.find now key))

variable (db) in
/-- `ZREMRANGEBYSCORE key -inf bound`. -/
def zremrangebyscore (now : ℤ) (key : κ) (bound : ℤ) : Keyspace κ μ :=
  db.write now key (·.keep (bound < ·.2))

variable (db) in
/-- `ZCARD`. -/
def zcard (now : ℤ) (key : κ) : ℕ := (db.find now key).card

variable (db) in
/-- `ZSCORE`. -/
def zscore (now : ℤ) (key : κ) (member : μ) : Option ℤ := (db.find now key).score member

variable (db) in
/-- `ZADD`. -/
def zadd (now : ℤ) (key : κ) (score : ℤ) (member : μ) : Keyspace κ μ :=
  db.write now key (·.add score member)

variable (db) in
/-- `ZREM`. -/
def zrem (now : ℤ) (key : κ) (member : μ) : Keyspace κ μ :=
  db.write now key (·.keep (·.1 ≠ member))

variable (db) in
/-- `EXPIRE`. -/
def expire (now : ℤ) (key : κ) (seconds : ℕ) : Keyspace κ μ :=
  db.write now key (·.expire now seconds)

theorem score_write (f : SortedSet μ → SortedSet μ) :
    (db.write now key f key').score m =
      if key' = key then (f (db.find now key)).score m else (db key').score m := by
  rw [write, Function.update_apply]
  split_ifs <;> rfl

/-- A removal keeps the members whose items it keeps. -/
theorem score_keep_write (h : db.Outlives) (p : μ × ℤ → Bool) (hlive : now < x) :
    (db.write now key (·.keep p) key').score m = some x ↔
      (db key').score m = some x ∧ (key' = key → p (m, x) = true) := by
  rw [score_write]
  split_ifs with hkey
  · rw [SortedSet.score_keep, Option.filter_eq_some_iff, h.find_score hlive, hkey]
    simp
  · simp [hkey]

theorem Outlives.keep_write (h : db.Outlives) (p : μ × ℤ → Bool) :
    (db.write now key (·.keep p)).Outlives := by
  intro key' m x hscore
  by_cases hkey : key' = key
  · subst hkey
    have hfound : ((db.find now key').keep p).score m = some x := by
      rwa [score_write, if_pos rfl] at hscore
    have hmem := SortedSet.score_eq_some.mp hfound
    rw [SortedSet.score_keep, Option.filter_eq_some_iff] at hfound
    obtain ⟨e, he, hle⟩ := h key' m x (score_of_find hfound.1)
    refine ⟨e, ?_, hle⟩
    have hexpires : ((db.find now key').keep p).expires = (db.find now key').expires := by
      have hne : ((db.find now key').members.filter p).isEmpty = false := by
        rw [List.isEmpty_eq_false_iff]
        exact List.ne_nil_of_mem hmem
      rw [SortedSet.keep, hne]
      rfl
    rw [write, Function.update_self, hexpires, expires_of_find hfound.1, he]
  · rw [score_write, if_neg hkey] at hscore
    rw [write, Function.update_of_ne hkey]
    exact h key' m x hscore

/-- A removal adds nothing. -/
theorem score_of_keep_write {p : μ × ℤ → Bool}
    (hx : (db.write now key (·.keep p) key').score m = some x) : (db key').score m = some x := by
  rw [score_write] at hx
  split_ifs at hx with hkey
  · rw [SortedSet.score_keep, Option.filter_eq_some_iff] at hx
    exact hkey ▸ score_of_find hx.1
  · exact hx

/-- A purge keeps the live members. -/
theorem score_purge (h : db.Outlives) (hlive : now < x) :
    (db.zremrangebyscore now key now key').score m = some x ↔ (db key').score m = some x := by
  rw [zremrangebyscore, score_keep_write h _ hlive]
  simp [hlive]

theorem Outlives.purge (h : db.Outlives) : (db.zremrangebyscore now key now).Outlives :=
  h.keep_write _

/-- After a purge the members of the set are live. -/
theorem purged (hscore : (db.zremrangebyscore now key now key).score m = some x) : now < x := by
  rw [zremrangebyscore, score_write, if_pos rfl, SortedSet.score_keep,
    Option.filter_eq_some_iff] at hscore
  simpa using hscore.2

theorem score_zrem (h : db.Outlives) {member : μ} (hlive : now < x) :
    (db.zrem now key member key').score m = some x ↔
      (db key').score m = some x ∧ ¬(key' = key ∧ m = member) := by
  rw [zrem, score_keep_write h _ hlive]
  simp

theorem Outlives.zrem (h : db.Outlives) (member : μ) : (db.zrem now key member).Outlives :=
  h.keep_write _

variable (db) in
/-- A member is set to a score, and the key to a time after it. -/
def hold (now : ℤ) (key : κ) (score : ℤ) (member : μ) (seconds : ℕ) : Keyspace κ μ :=
  (db.zadd now key score member).expire now key seconds

theorem hold_eq (score : ℤ) (member : μ) (seconds : ℕ) :
    db.hold now key score member seconds =
      Function.update db key (((db.find now key).add score member).expire now seconds) := by
  have hfind : (db.zadd now key score member).find now key =
      (db.find now key).add score member := by
    have hgone : ((db.find now key).add score member).gone now = false := @find_not_gone κ μ db now key
    rw [find, zadd, write, Function.update_self, hgone]
    rfl
  rw [hold, expire, write, hfind, zadd, write, Function.update_idem]

theorem score_hold {score : ℤ} {member : μ} {seconds : ℕ} (h : db.Outlives) (hlive : now < x) :
    (db.hold now key score member seconds key').score m = some x ↔
      if key' = key ∧ m = member then score = x else (db key').score m = some x := by
  rw [hold_eq, Function.update_apply]
  by_cases hkey : key' = key
  · subst hkey
    rw [if_pos rfl, SortedSet.score_expire, SortedSet.score_add]
    by_cases hm : m = member
    · simp [hm]
    · simp only [hm, if_false, and_false]
      exact h.find_score hlive
  · simp [hkey]

theorem score_of_hold {score : ℤ} {member : μ} {seconds : ℕ}
    (hx : (db.hold now key score member seconds key').score m = some x) :
    score = x ∨ (db key').score m = some x := by
  rw [hold_eq, Function.update_apply] at hx
  split_ifs at hx with hkey
  · rw [SortedSet.score_expire, SortedSet.score_add] at hx
    split_ifs at hx
    · exact .inl (Option.some.inj hx)
    · exact .inr (hkey ▸ score_of_find hx)
  · exact .inr hx

/-- **Every live member is before the time of the key**, which is set again with each of them. -/
theorem Outlives.hold (h : db.Outlives) {score : ℤ} {member : μ} {seconds : ℕ}
    (hscore : score ≤ 1000 * (now / 1000 + 1000 * seconds))
    (hlater : ∀ m x, (db key).score m = some x → x ≤ 1000 * (now / 1000 + 1000 * seconds)) :
    (db.hold now key score member seconds).Outlives := by
  intro key' m x hx
  rw [hold_eq, Function.update_apply] at hx ⊢
  split_ifs at hx ⊢ with hkey
  · rw [SortedSet.score_expire] at hx
    have hmem := SortedSet.score_eq_some.mp hx
    refine ⟨now / 1000 + 1000 * seconds, ?_, ?_⟩
    · have hne : ((db.find now key).add score member).members.isEmpty = false := by
        rw [List.isEmpty_eq_false_iff]
        exact List.ne_nil_of_mem hmem
      rw [SortedSet.expire, hne]
      rfl
    · rw [SortedSet.score_add] at hx
      split_ifs at hx
      · exact Option.some.inj hx ▸ hscore
      · exact hlater m x (score_of_find hx)
  · exact h key' m x hx

end commands

end Keyspace
