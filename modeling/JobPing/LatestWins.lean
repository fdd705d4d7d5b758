import Mathlib.Data.List.Induction
import Mathlib.Data.List.Sort

/-!
# The latest record wins

A register keeps the record of the greatest time among those written to it, the last one of several
(`foldl_write_iff`). A sorted store has a register for each key: a record that is written to it goes
to its place. The store is the sorted list of what its registers hold (`Sorted.ext`), so the same
records written a second time change nothing (`foldl_insert_twice`).
-/

namespace LatestWins

/-! ## Registers -/

section register

variable {α τ : Type*} [LinearOrder τ] (time : α → τ)

/-- A record is kept against those of an earlier time. -/
def write (old : Option α) (new : α) : Option α :=
  if old.any (time new < time ·) then old else some new

/-- A record of greatest time, after which there are only earlier ones. -/
def IsLatest (records : List α) (r : α) : Prop :=
  ∃ before after, records = before ++ r :: after ∧ (∀ x ∈ before, time x ≤ time r) ∧
    ∀ x ∈ after, time x < time r

variable {time} {records : List α} {r new : α} {old : Option α} {t : τ}

theorem write_of_lt (h : time new < time r) : write time (some r) new = some r :=
  if_pos (decide_eq_true h)

theorem write_of_le (h : ∀ x ∈ old, time x ≤ time new) : write time old new = some new := by
  refine if_neg fun hlater => ?_
  obtain ⟨x, hx, hlt⟩ := (Option.any_eq_true _ _).mp hlater
  exact (h x hx).not_gt (of_decide_eq_true hlt)

/-- Earlier records are not written. -/
theorem foldl_write_of_lt (h : ∀ x ∈ records, time x < time r) :
    records.foldl (write time) (some r) = some r := by
  induction records with
  | nil => rfl
  | cons x records ih =>
    rw [List.foldl_cons, write_of_lt (h x List.mem_cons_self)]
    exact ih fun y hy => h y (List.mem_cons_of_mem x hy)

theorem time_le_of_foldl (hold : ∀ x ∈ old, time x ≤ t) (h : ∀ x ∈ records, time x ≤ t) :
    ∀ x ∈ records.foldl (write time) old, time x ≤ t := by
  induction records generalizing old with
  | nil => exact hold
  | cons new records ih =>
    refine ih (fun x hx => ?_) fun y hy => h y (List.mem_cons_of_mem new hy)
    unfold write at hx
    split_ifs at hx
    · exact hold x hx
    · cases hx
      exact h new List.mem_cons_self

theorem IsLatest.foldl_write (h : IsLatest time records r) :
    records.foldl (write time) none = some r := by
  obtain ⟨before, after, rfl, hbefore, hafter⟩ := h
  rw [List.foldl_append, List.foldl_cons,
    write_of_le (time_le_of_foldl (fun _ hx => by cases hx) hbefore)]
  exact foldl_write_of_lt hafter

theorem IsLatest.mem (h : IsLatest time records r) : r ∈ records := by
  obtain ⟨before, after, rfl, -, -⟩ := h
  exact List.mem_append_right before List.mem_cons_self

theorem IsLatest.le (h : IsLatest time records r) : ∀ x ∈ records, time x ≤ time r := by
  obtain ⟨before, after, rfl, hbefore, hafter⟩ := h
  intro x hx
  rcases List.mem_append.mp hx with hx | hx
  · exact hbefore x hx
  · rcases List.mem_cons.mp hx with rfl | hx
    · exact le_rfl
    · exact (hafter x hx).le

theorem exists_isLatest (hne : records ≠ []) : ∃ r, IsLatest time records r := by
  induction records using List.reverseRecOn with
  | nil => exact absurd rfl hne
  | append_singleton records new ih =>
    rcases eq_or_ne records [] with rfl | hrecords
    · exact ⟨new, [], [], rfl, fun _ h => (by cases h), fun _ h => (by cases h)⟩
    obtain ⟨r, hr⟩ := ih hrecords
    rcases lt_or_ge (time new) (time r) with hlt | hge
    · obtain ⟨before, after, rfl, hbefore, hafter⟩ := hr
      refine ⟨r, before, after ++ [new], by simp, hbefore, fun x hx => ?_⟩
      rcases List.mem_append.mp hx with hx | hx
      · exact hafter x hx
      · rw [List.mem_singleton.mp hx]
        exact hlt
    · exact ⟨new, records, [], rfl, fun x hx => (hr.le x hx).trans hge, fun _ h => (by cases h)⟩

/-- **A register** holds the latest of the records written to it. -/
theorem foldl_write_iff :
    records.foldl (write time) none = some r ↔ IsLatest time records r := by
  constructor
  · intro h
    rcases eq_or_ne records [] with rfl | hne
    · cases h
    obtain ⟨r', hr'⟩ : ∃ r', IsLatest time records r' := exists_isLatest hne
    rw [hr'.foldl_write] at h
    cases h
    exact hr'
  · exact IsLatest.foldl_write

theorem IsLatest.again (h : IsLatest time (old.toList ++ records) r) :
    IsLatest time (r :: records) r := by
  obtain ⟨before, after, hrecords, hbefore, hafter⟩ := h
  have hwithin : ∀ before', records = before' ++ r :: after → (∀ x ∈ before', time x ≤ time r) →
      IsLatest time (r :: records) r := by
    rintro before' rfl hbefore'
    refine ⟨r :: before', after, rfl, fun x hx => ?_, hafter⟩
    rcases List.mem_cons.mp hx with rfl | hx
    · exact le_rfl
    · exact hbefore' x hx
  cases old with
  | none => exact hwithin before hrecords hbefore
  | some e =>
    rcases before with _ | ⟨x, before⟩
    · obtain ⟨rfl, rfl⟩ := List.cons.inj hrecords
      exact ⟨[], records, rfl, fun _ h => (by cases h), hafter⟩
    · obtain ⟨-, hrecords⟩ := List.cons.inj hrecords
      exact hwithin before hrecords fun y hy => hbefore y (List.mem_cons_of_mem x hy)

/-- **The same records again** change nothing. -/
theorem foldl_write_twice (old : Option α) (records : List α) :
    records.foldl (write time) (records.foldl (write time) old) =
      records.foldl (write time) old := by
  have hold : records.foldl (write time) old =
      (old.toList ++ records).foldl (write time) none := by
    cases old <;> rfl
  rcases eq_or_ne (old.toList ++ records) [] with hnil | hne
  · rw [(List.append_eq_nil_iff.mp hnil).2]
    rfl
  obtain ⟨r, hr⟩ : ∃ r, IsLatest time (old.toList ++ records) r := exists_isLatest hne
  rw [hold, hr.foldl_write]
  exact hr.again.foldl_write

end register

/-! ## Stores -/

section store

variable {α κ τ : Type*} [DecidableEq κ] [LinearOrder κ] [LinearOrder τ] (time : α → τ)
  (key : α → κ)

/-- The record of a key. -/
def find (records : List α) (k : κ) : Option α := records.find? (key · = k)

/-- A record written to a store, which is sorted again. -/
def insert (records : List α) (r : α) : List α :=
  if (find key records (key r)).any (time r < time ·) then records
  else (records.filter (key · ≠ key r) ++ [r]).insertionSort (key · ≤ key ·)

/-- In the order of the keys, each of them once. -/
def Sorted (records : List α) : Prop := records.Pairwise (key · < key ·)

variable {time key} {records records' : List α} {r x : α} {k : κ}

omit [DecidableEq κ] in
theorem Sorted.nodup_keys (h : Sorted key records) : (records.map key).Nodup :=
  List.pairwise_map.mpr (h.imp ne_of_lt)

theorem Sorted.find_eq_some (h : Sorted key records) :
    find key records k = some x ↔ x ∈ records ∧ key x = k := by
  constructor
  · intro hfind
    exact ⟨List.mem_of_find?_eq_some hfind, by simpa using List.find?_some hfind⟩
  · rintro ⟨hmem, rfl⟩
    obtain ⟨y, hy⟩ : ∃ y, find key records (key x) = some y :=
      Option.isSome_iff_exists.mp (List.find?_isSome.mpr ⟨x, hmem, by simp⟩)
    have hkey : key y = key x := by simpa using List.find?_some hy
    rw [hy, List.inj_on_of_nodup_map h.nodup_keys (List.mem_of_find?_eq_some hy) hmem hkey]

omit [DecidableEq κ] in
/-- A store is its records, sorted. -/
theorem Sorted.ext_mem (h : Sorted key records) (h' : Sorted key records')
    (hmem : ∀ x, x ∈ records ↔ x ∈ records') : records = records' := by
  have hperm : records.Perm records' :=
    (List.perm_ext_iff_of_nodup h.nodup_keys.of_map h'.nodup_keys.of_map).mpr hmem
  exact hperm.eq_of_pairwise (fun a b _ _ hab hba => absurd hab hba.not_gt) h h'

/-- **A store is what its registers hold**, sorted. -/
theorem Sorted.ext (h : Sorted key records) (h' : Sorted key records')
    (hfind : ∀ k, find key records k = find key records' k) : records = records' := by
  refine h.ext_mem h' fun x => ?_
  have hiff : find key records (key x) = some x ↔ find key records' (key x) = some x := by
    rw [hfind]
  simpa [h.find_eq_some, h'.find_eq_some] using hiff

/-- There is one record of a key. -/
theorem Sorted.filter_eq (h : Sorted key records) (hfind : find key records k = some r) :
    records.filter (key · = k) = [r] := by
  refine Sorted.ext_mem (h.sublist List.filter_sublist) (List.pairwise_singleton _ r) fun x => ?_
  rw [List.mem_filter, decide_eq_true_eq, ← h.find_eq_some, hfind, Option.some.injEq,
    List.mem_singleton]
  exact eq_comm

theorem mem_insert (hlater : (find key records (key r)).any (time r < time ·) = false) :
    x ∈ insert time key records r ↔ x ∈ records ∧ key x ≠ key r ∨ x = r := by
  rw [insert, hlater]
  simp

theorem Sorted.insert (h : Sorted key records) (r : α) :
    Sorted key (LatestWins.insert time key records r) := by
  unfold LatestWins.insert
  split_ifs
  · exact h
  have hnodup : ((records.filter (key · ≠ key r) ++ [r]).map key).Nodup := by
    rw [List.map_append, List.map_singleton]
    refine List.nodup_append'.mpr
      ⟨(List.filter_sublist.map key).nodup h.nodup_keys, List.nodup_singleton _, ?_⟩
    intro k hk hr
    obtain ⟨x, hx, rfl⟩ := List.mem_map.mp hk
    exact (of_decide_eq_true (List.mem_filter.mp hx).2) (List.mem_singleton.mp hr)
  have hperm := List.perm_insertionSort (key · ≤ key ·) (records.filter (key · ≠ key r) ++ [r])
  have hsorted := List.pairwise_insertionSort (key · ≤ key ·)
    (records.filter (key · ≠ key r) ++ [r])
  have hdistinct := List.pairwise_map.mp ((hperm.map key).nodup_iff.mpr hnodup)
  exact (hsorted.and hdistinct).imp fun hpair => lt_of_le_of_ne hpair.1 hpair.2

/-- **A write** goes to the register of its key. -/
theorem Sorted.find_insert (h : Sorted key records) (r : α) (k : κ) :
    find key (LatestWins.insert time key records r) k =
      if k = key r then write time (find key records k) r else find key records k := by
  cases hlater : (find key records (key r)).any (time r < time ·) with
  | true =>
    have hkept : LatestWins.insert time key records r = records := if_pos hlater
    rw [hkept]
    split_ifs with hk
    · rw [hk]
      exact (if_pos hlater).symm
    · rfl
  | false =>
    refine Option.ext fun x => ?_
    rw [(h.insert r).find_eq_some, mem_insert hlater]
    split_ifs with hk
    · subst hk
      have hwrite : write time (find key records (key r)) r = some r :=
        if_neg (by rw [hlater]; exact Bool.false_ne_true)
      rw [hwrite, Option.some.injEq]
      constructor
      · rintro ⟨⟨-, hne⟩ | rfl, hkey⟩
        · exact absurd hkey hne
        · rfl
      · rintro rfl
        exact ⟨.inr rfl, rfl⟩
    · rw [h.find_eq_some]
      constructor
      · rintro ⟨⟨hmem, -⟩ | rfl, hkey⟩
        · exact ⟨hmem, hkey⟩
        · exact absurd hkey.symm hk
      · rintro ⟨hmem, rfl⟩
        exact ⟨.inl ⟨hmem, hk⟩, rfl⟩

theorem Sorted.foldl_insert (h : Sorted key records) (written : List α) :
    Sorted key (written.foldl (LatestWins.insert time key) records) := by
  induction written generalizing records with
  | nil => exact h
  | cons r written ih => exact ih (h.insert r)

/-- **A register of a store** is written with the records of its key. -/
theorem Sorted.find_foldl (h : Sorted key records) (written : List α) (k : κ) :
    find key (written.foldl (LatestWins.insert time key) records) k =
      (written.filter (key · = k)).foldl (write time) (find key records k) := by
  induction written generalizing records with
  | nil => rfl
  | cons r written ih =>
    rw [List.foldl_cons, ih (h.insert r), h.find_insert, List.filter_cons]
    by_cases hk : k = key r
    · rw [if_pos hk, if_pos (decide_eq_true hk.symm), List.foldl_cons]
    · rw [if_neg hk, if_neg (by simpa using fun heq => hk heq.symm)]

/-- **The same records again** change nothing. -/
theorem Sorted.foldl_insert_twice (h : Sorted key records) (written : List α) :
    written.foldl (LatestWins.insert time key)
        (written.foldl (LatestWins.insert time key) records) =
      written.foldl (LatestWins.insert time key) records := by
  have honce : Sorted key (written.foldl (LatestWins.insert time key) records) :=
    h.foldl_insert written
  refine (honce.foldl_insert written).ext honce fun k => ?_
  rw [honce.find_foldl, h.find_foldl, foldl_write_twice]

end store

end LatestWins
