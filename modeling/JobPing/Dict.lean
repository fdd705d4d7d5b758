import JobPing.Table
import Mathlib.Data.List.Induction

/-!
# Dictionaries in insertion order

A dictionary is the list of its items. Setting a key it holds keeps the place of the key, any other
key goes to the end. Built from a list of items, a dictionary holds the last value of every key
(`get?_ofList`).
-/

namespace Dict

variable {κ α : Type*} [DecidableEq κ]

/-- `d[key] = value`. -/
def set (key : κ) (value : α) : List (κ × α) → List (κ × α)
  | [] => [(key, value)]
  | item :: d => if item.1 = key then (key, value) :: d else item :: set key value d

/-- `d.get(key)`. -/
def get? (key : κ) (d : List (κ × α)) : Option α := (d.find? (·.1 = key)).map (·.2)

/-- The keys, in the order of their first insertion. -/
def keys (d : List (κ × α)) : List κ := d.map Prod.fst

/-- The items set one after another. -/
def ofList (items : List (κ × α)) : List (κ × α) :=
  items.foldl (fun d item => set item.1 item.2 d) []

variable {key : κ} {value : α} {d items : List (κ × α)}

theorem get?_set (key k : κ) (value : α) (d : List (κ × α)) :
    get? k (set key value d) = if k = key then some value else get? k d := by
  induction d with
  | nil => by_cases h : k = key <;> simp [set, get?, h, eq_comm]
  | cons item d ih =>
    unfold set
    split_ifs with hitem hk hk
    · simp [get?, hk]
    · -- the replaced item is not the one looked for
      have hne : ¬ key = k := fun h => hk h.symm
      simp [get?, hne, hitem]
    · subst hk
      simpa [get?, List.find?_cons, hitem] using ih
    · by_cases hfound : item.1 = k
      · simp [get?, hfound]
      · simpa [get?, List.find?_cons, hfound, hk] using ih

theorem keys_set (key : κ) (value : α) (d : List (κ × α)) :
    keys (set key value d) = if key ∈ keys d then keys d else keys d ++ [key] := by
  induction d with
  | nil => simp [set, keys]
  | cons item d ih =>
    unfold set
    by_cases hitem : item.1 = key
    · simp [keys, hitem]
    · have hmem : key ∈ keys (item :: d) ↔ key ∈ keys d := by simp [keys, Ne.symm hitem]
      rw [if_neg hitem]
      simp only [hmem]
      change item.1 :: keys (set key value d) = _
      rw [ih]
      split_ifs <;> simp [keys]

theorem nodup_keys_set (h : (keys d).Nodup) : (keys (set key value d)).Nodup := by
  rw [keys_set]
  split_ifs with hmem
  · exact h
  · rw [List.nodup_append]
    refine ⟨h, List.nodup_singleton _, fun a ha b hb hab => hmem ?_⟩
    obtain rfl := List.mem_singleton.mp hb
    exact hab ▸ ha

/-- An item of a dictionary is found under its key. -/
theorem get?_of_mem (hd : (keys d).Nodup) {value : α} (h : (key, value) ∈ d) :
    get? key d = some value := by
  induction d with
  | nil => cases h
  | cons item d ih =>
    obtain ⟨hnot, hd⟩ := List.nodup_cons.mp hd
    rcases List.mem_cons.mp h with rfl | h
    · simp [get?]
    · have hne : item.1 ≠ key := fun heq => hnot (List.mem_map.mpr ⟨_, h, heq.symm⟩)
      have hfound := ih hd h
      simpa [get?, hne] using hfound

theorem mem_of_get? (h : get? key d = some value) : (key, value) ∈ d := by
  obtain ⟨item, hitem, rfl⟩ := Option.map_eq_some_iff.mp h
  have hkey : item.1 = key := by simpa using List.find?_some hitem
  exact hkey ▸ List.mem_of_find?_eq_some hitem

theorem ofList_concat (items : List (κ × α)) (item : κ × α) :
    ofList (items ++ [item]) = set item.1 item.2 (ofList items) := by
  simp [ofList]

/-- No key occurs twice. -/
theorem nodup_keys_ofList (items : List (κ × α)) : (keys (ofList items)).Nodup := by
  induction items using List.reverseRecOn with
  | nil => exact List.nodup_nil
  | append_singleton items item ih =>
    rw [ofList_concat]
    exact nodup_keys_set ih

theorem mem_set {item : κ × α} (h : item ∈ set key value d) : item = (key, value) ∨ item ∈ d := by
  induction d with
  | nil => exact .inl (List.mem_singleton.mp h)
  | cons head d ih =>
    unfold set at h
    split_ifs at h
    · exact (List.mem_cons.mp h).imp_right (List.mem_cons_of_mem _)
    · rcases List.mem_cons.mp h with rfl | h
      · exact .inr List.mem_cons_self
      · exact (ih h).imp_right (List.mem_cons_of_mem _)

/-- The items after an assignment: the new one, and those of the other keys. -/
theorem mem_set_iff (hd : (keys d).Nodup) {item : κ × α} :
    item ∈ set key value d ↔ item = (key, value) ∨ item ∈ d ∧ item.1 ≠ key := by
  induction d with
  | nil => simp [set]
  | cons head d ih =>
    obtain ⟨hnot, hd⟩ := List.nodup_cons.mp hd
    unfold set
    split_ifs with hhead
    · -- no other item has the key of the head
      have hrest : ∀ other ∈ d, other.1 ≠ key := fun other hother heq =>
        hnot (List.mem_map.mpr ⟨other, hother, heq.trans hhead.symm⟩)
      constructor
      · intro h
        rcases List.mem_cons.mp h with rfl | h
        · exact .inl rfl
        · exact .inr ⟨List.mem_cons_of_mem _ h, hrest item h⟩
      · rintro (rfl | ⟨h, hne⟩)
        · exact List.mem_cons_self
        · rcases List.mem_cons.mp h with rfl | h
          · exact absurd hhead hne
          · exact List.mem_cons_of_mem _ h
    · rw [List.mem_cons, List.mem_cons, ih hd]
      constructor
      · rintro (rfl | rfl | ⟨h, hne⟩)
        · exact .inr ⟨.inl rfl, hhead⟩
        · exact .inl rfl
        · exact .inr ⟨.inr h, hne⟩
      · rintro (rfl | ⟨rfl | h, hne⟩)
        · exact .inr (.inl rfl)
        · exact .inl rfl
        · exact .inr (.inr ⟨h, hne⟩)

/-- A dictionary holds nothing but the items it was built from. -/
theorem mem_ofList {item : κ × α} (h : item ∈ ofList items) : item ∈ items := by
  induction items using List.reverseRecOn with
  | nil => cases h
  | append_singleton items last ih =>
    rw [ofList_concat] at h
    rcases mem_set h with rfl | h
    · exact List.mem_append_right _ (List.mem_singleton_self _)
    · exact List.mem_append_left _ (ih h)

@[simp] theorem mem_keys_ofList : key ∈ keys (ofList items) ↔ key ∈ items.map Prod.fst := by
  induction items using List.reverseRecOn with
  | nil => simp [ofList, keys]
  | append_singleton items item ih =>
    rw [ofList_concat, keys_set]
    by_cases hmem : item.1 ∈ keys (ofList items)
    · rw [if_pos hmem, ih]
      simp only [List.map_append, List.mem_append, List.map_cons, List.map_nil,
        List.mem_singleton]
      constructor
      · exact .inl
      · rintro (h | rfl)
        · exact h
        · exact ih.mp hmem
    · rw [if_neg hmem]
      simp [ih]

/-- **A dictionary holds the last value** of every key. -/
theorem get?_ofList (key : κ) (items : List (κ × α)) :
    get? key (ofList items) = ((items.filter (·.1 = key)).getLast?).map (·.2) := by
  induction items using List.reverseRecOn with
  | nil => rfl
  | append_singleton items item ih =>
    rw [ofList_concat, get?_set, List.filter_append]
    by_cases h : key = item.1
    · simp [h]
    · have hne : ¬ item.1 = key := fun h' => h h'.symm
      simp [h, hne, ih]

/-- Items of distinct keys are all found. -/
theorem get?_ofList_of_mem (h : (items.map Prod.fst).Nodup) (hmem : (key, value) ∈ items) :
    get? key (ofList items) = some value := by
  have hfilter : items.filter (·.1 = key) = [(key, value)] :=
    Table.rowsOf_eq_singleton (List.pairwise_map.mp h) hmem
  rw [get?_ofList, hfilter]
  rfl

end Dict
