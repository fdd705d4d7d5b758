import JobPing.Dict
import Mathlib.Data.List.Sort
import Mathlib.Data.Set.Function

/-!
# Differences of keyed values

A map holds at most one value of each key. The difference of two maps reports the keys that they
hold different values of, with both values, in the order of the keys it looks at. The new map is
the old one with the changes made (`patch_diff`), and nothing is reported exactly where the maps are
equal (`diff_eq_nil_iff`).
-/

namespace KeyedDiff

variable {κ α β : Type*} [DecidableEq κ] [DecidableEq α]

/-- The keys on which the maps differ, each reported with the value before and after. -/
def diff (report : κ → Option α → Option α → β) (old new : κ → Option α) (keys : List κ) : List β :=
  keys.filterMap fun k => if old k = new k then none else some (report k (old k) (new k))

/-- The map with the changes made one after another. -/
def patch (key : β → κ) (after : β → Option α) (m : κ → Option α) (changes : List β) :
    κ → Option α :=
  changes.foldl (fun m c => Function.update m (key c) (after c)) m

variable {report : κ → Option α → Option α → β} {old new : κ → Option α} {keys : List κ}
  {key : β → κ} {after : β → Option α}

omit [DecidableEq α] in
theorem patch_cons (m : κ → Option α) (c : β) (changes : List β) :
    patch key after m (c :: changes) =
      patch key after (Function.update m (key c) (after c)) changes := rfl

omit [DecidableEq κ] in
theorem mem_diff {c : β} : c ∈ diff report old new keys ↔
    ∃ k ∈ keys, old k ≠ new k ∧ report k (old k) (new k) = c := by
  simp only [diff, List.mem_filterMap, Option.ite_none_left_eq_some, Option.some.injEq, ne_eq]

/-- **The new map** is the old one with the changes made, wherever the keys cover the difference. -/
theorem patch_diff (hkey : ∀ k before now, key (report k before now) = k)
    (hafter : ∀ k before now, after (report k before now) = now)
    (hkeys : ∀ k, old k ≠ new k → k ∈ keys) :
    patch key after old (diff report old new keys) = new := by
  -- the induction is on the keys still to be looked at, and the map is new outside of them
  suffices h : ∀ m : κ → Option α, (∀ k ∈ keys, m k = old k ∨ m k = new k) →
      (∀ k, k ∉ keys → m k = new k) → patch key after m (diff report old new keys) = new by
    refine h old (fun k _ => .inl rfl) fun k hk => ?_
    by_contra hne
    exact hk (hkeys k hne)
  clear hkeys
  induction keys with
  | nil => exact fun m _ hout => funext fun k => hout k List.not_mem_nil
  | cons first keys ih =>
    intro m hin hout
    rw [diff, List.filterMap_cons]
    split_ifs with hsame
    · refine ih m (fun k hk => hin k (List.mem_cons_of_mem _ hk)) fun k hk => ?_
      by_cases heq : k = first
      · subst heq
        rcases hin k List.mem_cons_self with h | h
        · rw [h, hsame]
        · exact h
      · exact hout k fun hmem => (List.mem_cons.mp hmem).elim heq hk
    · have hset (k : κ) : Function.update m (key (report first (old first) (new first)))
          (after (report first (old first) (new first))) k = if k = first then new k else m k := by
        rw [hkey, hafter, Function.update_apply]
        split_ifs with heq
        · rw [heq]
        · rfl
      rw [patch_cons]
      refine ih _ (fun k hk => ?_) fun k hk => ?_
      · rw [hset]
        split_ifs
        · exact .inr rfl
        · exact hin k (List.mem_cons_of_mem _ hk)
      · rw [hset]
        split_ifs with heq
        · rfl
        · exact hout k fun hmem => (List.mem_cons.mp hmem).elim heq hk

omit [DecidableEq κ] in
theorem diff_eq_nil_iff (hkeys : ∀ k, old k ≠ new k → k ∈ keys) :
    diff report old new keys = [] ↔ old = new := by
  constructor
  · intro hnil
    refine funext fun k => ?_
    by_contra hne
    have hmem : report k (old k) (new k) ∈ diff report old new keys :=
      mem_diff.mpr ⟨k, hkeys k hne, hne, rfl⟩
    rw [hnil] at hmem
    exact absurd hmem List.not_mem_nil
  · rintro rfl
    refine List.eq_nil_iff_forall_not_mem.mpr fun c hc => ?_
    obtain ⟨k, -, hne, -⟩ := mem_diff.mp hc
    exact hne rfl

omit [DecidableEq κ] in
/-- The changes are in the order of the keys. -/
theorem diff_keys_sublist (hkey : ∀ k before now, key (report k before now) = k) :
    ((diff report old new keys).map key).Sublist keys := by
  induction keys with
  | nil => exact List.Sublist.slnil
  | cons k keys ih =>
    rw [diff, List.filterMap_cons]
    split_ifs
    · exact ih.cons k
    · rw [List.map_cons, hkey]
      exact ih.cons_cons k

/-! ## Rows by key -/

section Rows

variable {ρ : Type*} {ref : ρ → κ} {rows rows' : List ρ} {k : κ} {row : ρ}

/-- The rows as a map: the last row of each key. -/
def rowsByKey (ref : ρ → κ) (rows : List ρ) (k : κ) : Option ρ :=
  Dict.get? k (Dict.ofList (rows.map fun row => (ref row, row)))

theorem rowsByKey_ne_none (h : rowsByKey ref rows k ≠ none) :
    k ∈ Dict.keys (Dict.ofList (rows.map fun row => (ref row, row))) := by
  obtain ⟨row, hrow⟩ := Option.ne_none_iff_exists'.mp h
  obtain ⟨item, hitem, rfl⟩ := Option.map_eq_some_iff.mp hrow
  refine List.mem_map.mpr ⟨item, List.mem_of_find?_eq_some hitem, ?_⟩
  simpa using List.find?_some hitem

/-- Where no two rows have one key, the map holds each of them. -/
theorem rowsByKey_eq_some (h : (rows.map ref).Nodup) :
    rowsByKey ref rows k = some row ↔ row ∈ rows ∧ ref row = k := by
  have hkeys : ((rows.map fun row => (ref row, row)).map Prod.fst).Nodup := by
    rw [List.map_map]
    exact h
  constructor
  · intro hrow
    obtain ⟨item, hitem, rfl⟩ := Option.map_eq_some_iff.mp hrow
    have hkey : item.1 = k := by simpa using List.find?_some hitem
    obtain ⟨row, hmem, rfl⟩ :=
      List.mem_map.mp (Dict.mem_ofList (List.mem_of_find?_eq_some hitem))
    exact ⟨hmem, hkey⟩
  · rintro ⟨hmem, rfl⟩
    exact Dict.get?_ofList_of_mem hkeys (List.mem_map_of_mem (f := fun row => (ref row, row)) hmem)

/-- Rows in the order of their keys are determined by the map. -/
theorem rows_eq_iff [LinearOrder κ] (h : (rows.map ref).Pairwise (· < ·))
    (h' : (rows'.map ref).Pairwise (· < ·)) :
    rowsByKey ref rows = rowsByKey ref rows' ↔ rows = rows' := by
  refine ⟨fun heq => ?_, fun heq => heq ▸ rfl⟩
  have hrows : rows.Pairwise fun a b => ref a < ref b := List.pairwise_map.mp h
  have hrows' : rows'.Pairwise fun a b => ref a < ref b := List.pairwise_map.mp h'
  have : Std.Irrefl fun a b : ρ => ref a < ref b := ⟨fun a => lt_irrefl (ref a)⟩
  have : Std.Asymm fun a b : ρ => ref a < ref b := ⟨fun a b hlt => lt_asymm hlt⟩
  refine List.Pairwise.eq_of_mem_iff hrows hrows' fun row => ?_
  calc row ∈ rows ↔ rowsByKey ref rows (ref row) = some row := by
        rw [rowsByKey_eq_some (h.imp ne_of_lt)]
        simp
    _ ↔ rowsByKey ref rows' (ref row) = some row := by rw [heq]
    _ ↔ row ∈ rows' := by
        rw [rowsByKey_eq_some (h'.imp ne_of_lt)]
        simp

end Rows

end KeyedDiff
