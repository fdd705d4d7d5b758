import Mathlib.Data.List.Forall2
import Mathlib.Data.List.Nodup
import Mathlib.Data.List.Lattice
import Mathlib.Data.Finset.Basic
import Mathlib.Data.Set.Function
import Mathlib.Logic.Equiv.Basic

/-!
# Tables of rows

A table is a list of rows in insertion order. Rows are found by a key, grouped by a reference
(`rowsOf`), saved over the row of equal key (`replace`) and upserted against a conflict relation
(`upsert`). The lemmas say how the group of one reference sees such a write: it either contains
the written row or does not change. Across a sequence of writes each row changes step by step
(`Evolves`).
-/

namespace Table

variable {ρ κ ι : Type*} [DecidableEq κ] [DecidableEq ι]

/-- The rows that refer to `k`, in table order. -/
def rowsOf (ref : ρ → κ) (k : κ) (t : List ρ) : List ρ := t.filter (ref · = k)

/-- Save a row over the row of equal key. -/
def replace (key : ρ → κ) (row : ρ) (t : List ρ) : List ρ :=
  t.map fun r => if key r = key row then row else r

/-- Insert a row, or save it over the rows it conflicts with. -/
def upsert (conflicts : ρ → ρ → Bool) (row : ρ) (t : List ρ) : List ρ :=
  if t.any (conflicts row) then t.map fun r => if conflicts row r then row else r
  else t ++ [row]

/-- Insert a row unless it conflicts with a stored one. -/
def insertNew (conflicts : ρ → ρ → Bool) (t : List ρ) (row : ρ) : List ρ :=
  if t.any (conflicts row) then t else t ++ [row]

section rowsOf

variable {ref : ρ → κ} {k : κ} {t : List ρ}

@[simp] theorem rowsOf_nil : rowsOf ref k [] = [] := rfl

@[simp] theorem mem_rowsOf {r : ρ} : r ∈ rowsOf ref k t ↔ r ∈ t ∧ ref r = k := by
  simp [rowsOf]

@[simp] theorem rowsOf_append (t u : List ρ) :
    rowsOf ref k (t ++ u) = rowsOf ref k t ++ rowsOf ref k u := by
  simp [rowsOf]

theorem rowsOf_of_forall (h : ∀ r ∈ t, ref r = k) : rowsOf ref k t = t :=
  List.filter_eq_self.mpr (by simpa using h)

theorem rowsOf_eq_nil (h : ∀ r ∈ t, ref r ≠ k) : rowsOf ref k t = [] :=
  List.filter_eq_nil_iff.mpr (by simpa using h)

/-- Rows that refer elsewhere do not join the group. -/
theorem rowsOf_append_of_ne {u : List ρ} (h : ∀ r ∈ u, ref r ≠ k) :
    rowsOf ref k (t ++ u) = rowsOf ref k t := by
  rw [rowsOf_append, rowsOf_eq_nil h, List.append_nil]

/-- The group of a key no two rows share. -/
theorem rowsOf_eq_singleton (h : t.Pairwise fun a b => ref a ≠ ref b) {r : ρ} (hr : r ∈ t) :
    rowsOf ref (ref r) t = [r] := by
  induction h with
  | nil => cases hr
  | @cons a t ha _ ih =>
    rcases List.mem_cons.mp hr with rfl | hr
    · rw [rowsOf, List.filter_cons_of_pos (by simp)]
      exact congrArg _ (rowsOf_eq_nil fun b hb => (ha b hb).symm)
    · rw [rowsOf, List.filter_cons_of_neg (by simpa using ha r hr)]
      exact ih hr

end rowsOf

section replace

variable {key : ρ → κ} {ref : ρ → ι} {row : ρ} {t : List ρ}

theorem replace_of_not_mem (h : ∀ r ∈ t, key r ≠ key row) : replace key row t = t := by
  unfold replace
  conv_rhs => rw [← List.map_id t]
  exact List.map_congr_left fun r hr => if_neg (h r hr)

theorem mem_replace {r : ρ} (h : r ∈ replace key row t) : r = row ∨ r ∈ t := by
  obtain ⟨s, hs, rfl⟩ := List.mem_map.mp h
  split_ifs
  · exact .inl rfl
  · exact .inr hs

/-- When rows of equal key refer to the same thing, saving a row stays inside its group. -/
theorem rowsOf_replace (h : ∀ r ∈ t, key r = key row → ref r = ref row) (k : ι) :
    rowsOf ref k (replace key row t) = replace key row (rowsOf ref k t) := by
  induction t with
  | nil => rfl
  | cons a t ih =>
    have ih := ih fun r hr => h r (List.mem_cons_of_mem _ hr)
    have ha := h a List.mem_cons_self
    simp only [rowsOf, replace, List.map_cons, List.filter_cons] at ih ⊢
    by_cases hk : key a = key row
    · rw [if_pos hk, ih, ha hk]
      split_ifs <;> simp [hk]
    · rw [if_neg hk, ih]
      split_ifs <;> simp [hk]

theorem rowsOf_replace_of_ne (h : ∀ r ∈ t, key r = key row → ref r = ref row) {k : ι}
    (hk : ref row ≠ k) : rowsOf ref k (replace key row t) = rowsOf ref k t := by
  rw [rowsOf_replace h]
  exact replace_of_not_mem fun r hr hkey => hk ((h r (mem_rowsOf.mp hr).1 hkey) ▸ (mem_rowsOf.mp hr).2)

/-- Saving a row over the last one. -/
theorem replace_concat {last : ρ} (hkey : key last = key row)
    (hne : ∀ r ∈ t, key r ≠ key row) : replace key row (t ++ [last]) = t ++ [row] := by
  have : replace key row t = t := replace_of_not_mem hne
  unfold replace at this ⊢
  rw [List.map_append, this]
  simp [hkey]

/-- Saving a row over the last of its group. -/
theorem rowsOf_replace_last (row : ρ) {k : ι} {init : List ρ} {last : ρ} (hn : (t.map key).Nodup)
    (ht : rowsOf ref k t = init ++ [last]) (hkey : key last = key row) (href : ref row = k) :
    rowsOf ref k (replace key row t) = init ++ [row] ∧
      ∀ k', k' ≠ k → rowsOf ref k' (replace key row t) = rowsOf ref k' t := by
  have hlast : last ∈ t ∧ ref last = k := mem_rowsOf.mp (ht ▸ by simp)
  have hsame : ∀ r ∈ t, key r = key row → ref r = ref row := fun r hr hk => by
    rw [List.inj_on_of_nodup_map hn hr hlast.1 (hk.trans hkey.symm), hlast.2, href]
  refine ⟨?_, fun k' hk' => rowsOf_replace_of_ne hsame (href ▸ hk'.symm)⟩
  rw [rowsOf_replace hsame, ht]
  refine replace_concat hkey fun r hr hk => ?_
  -- a second row with that key would contradict the uniqueness of keys
  have hsub : (init ++ [last]).map key |>.Nodup :=
    hn.sublist (ht ▸ List.filter_sublist.map key)
  rw [List.map_append, List.nodup_append] at hsub
  exact hsub.2.2 (key r) (List.mem_map_of_mem hr) (key last) (by simp) (hk.trans hkey.symm)

/-- Searching for a property that saving the row does not change. -/
theorem find?_replace {q : ρ → Bool} (h : ∀ r ∈ t, key r = key row → q r = q row) :
    (replace key row t).find? q = (t.find? q).map fun r => if key r = key row then row else r := by
  induction t with
  | nil => rfl
  | cons a t ih =>
    have ih := ih fun r hr => h r (List.mem_cons_of_mem _ hr)
    have ha := h a List.mem_cons_self
    simp only [replace, List.map_cons, List.find?_cons] at ih ⊢
    by_cases hk : key a = key row
    · rw [if_pos hk, ← ha hk]
      cases q a
      · exact ih
      · simp [hk]
    · rw [if_neg hk]
      cases q a
      · exact ih
      · simp [hk]

/-- An update of one row. -/
theorem map_update_eq {f : ρ → ρ} (hn : (t.map key).Nodup) (hrow : row ∈ t) :
    ∃ before after, t = before ++ row :: after ∧
      t.map (fun r => if key r = key row then f r else r) = before ++ f row :: after := by
  obtain ⟨before, after, rfl⟩ := List.append_of_mem hrow
  refine ⟨before, after, rfl, ?_⟩
  rw [List.map_append, List.map_cons, List.nodup_append, List.nodup_cons] at hn
  obtain ⟨-, ⟨hafter, -⟩, hbefore⟩ := hn
  have hne : ∀ r ∈ before, key r ≠ key row := fun r hr =>
    hbefore (key r) (List.mem_map_of_mem hr) (key row) List.mem_cons_self
  have hne' : ∀ r ∈ after, key r ≠ key row := fun r hr heq =>
    hafter (heq ▸ List.mem_map_of_mem hr)
  rw [List.map_append, List.map_cons, if_pos rfl]
  congr 1
  · exact (List.map_congr_left fun r hr => if_neg (hne r hr)).trans (List.map_id _)
  · congr 1
    exact (List.map_congr_left fun r hr => if_neg (hne' r hr)).trans (List.map_id _)

/-- Saving a row that agrees with the row it replaces on a projection. -/
theorem map_replace {α : Type*} {f : ρ → α} (h : ∀ r ∈ t, key r = key row → f r = f row) :
    (replace key row t).map f = t.map f := by
  unfold replace
  rw [List.map_map]
  refine List.map_congr_left fun r hr => ?_
  simp only [Function.comp_apply]
  split_ifs with hk
  · exact (h r hr hk).symm
  · rfl

end replace

section upsert

variable {conflicts : ρ → ρ → Bool} {ref : ρ → ι} {row : ρ} {t : List ρ}

theorem mem_upsert {r : ρ} (h : r ∈ upsert conflicts row t) : r = row ∨ r ∈ t := by
  unfold upsert at h
  split_ifs at h
  · obtain ⟨s, hs, rfl⟩ := List.mem_map.mp h
    split_ifs
    · exact .inl rfl
    · exact .inr hs
  · rcases List.mem_append.mp h with h | h
    · exact .inr h
    · exact .inl (by simpa using h)

theorem self_mem_upsert (row : ρ) (t : List ρ) : row ∈ upsert conflicts row t := by
  unfold upsert
  split_ifs with hany
  · obtain ⟨r, hr, hc⟩ := List.any_eq_true.mp hany
    exact List.mem_map.mpr ⟨r, hr, if_pos hc⟩
  · exact List.mem_append_right _ (List.mem_singleton_self row)

/-- An upsert commutes with a renaming that respects conflicts. -/
theorem upsert_map {f : ρ → ρ} (h : ∀ a b, conflicts (f a) (f b) = conflicts a b) (row : ρ)
    (t : List ρ) : upsert conflicts (f row) (t.map f) = (upsert conflicts row t).map f := by
  simp only [upsert, List.any_map, Function.comp_def, h]
  split_ifs
  · simp only [List.map_map]
    refine List.map_congr_left fun r _ => ?_
    simp only [Function.comp_apply, h]
    split_ifs <;> rfl
  · simp

/-- An upsert whose conflicts stay inside the row's group is seen by that group only. -/
theorem rowsOf_upsert (h : ∀ r, conflicts row r = true → ref r = ref row) :
    rowsOf ref (ref row) (upsert conflicts row t) =
      upsert conflicts row (rowsOf ref (ref row) t) := by
  have hany : (rowsOf ref (ref row) t).any (conflicts row) = t.any (conflicts row) := by
    rw [Bool.eq_iff_iff]
    simp only [List.any_eq_true, mem_rowsOf]
    exact ⟨fun ⟨r, hr, hc⟩ => ⟨r, hr.1, hc⟩, fun ⟨r, hr, hc⟩ => ⟨r, ⟨hr, h r hc⟩, hc⟩⟩
  simp only [upsert, hany]
  split_ifs
  · simp only [rowsOf, List.filter_map]
    congr 1
    refine List.filter_congr fun r _ => ?_
    simp only [Function.comp_apply]
    split_ifs with hc
    · simp [h r hc]
    · rfl
  · simp [rowsOf]

theorem rowsOf_upsert_of_ne (h : ∀ r, conflicts row r = true → ref r = ref row) {k : ι}
    (hk : ref row ≠ k) : rowsOf ref k (upsert conflicts row t) = rowsOf ref k t := by
  unfold upsert
  split_ifs
  · simp only [rowsOf, List.filter_map]
    rw [List.filter_congr (q := (ref · = k)) ?_, List.map_congr_left ?_, List.map_id]
    · intro r hr
      simp only [List.mem_filter, decide_eq_true_eq] at hr
      simp only [id_eq, ite_eq_right_iff]
      exact fun hc => absurd ((h r hc).symm.trans hr.2) hk
    · intro r _
      simp only [Function.comp_apply]
      split_ifs with hc
      · simp [h r hc]
      · rfl
  · exact rowsOf_append_of_ne (by simpa using hk)

/-- A sequence of upserts into one group is seen by that group only. -/
theorem rowsOf_foldl_upsert {k : ι} {rows : List ρ}
    (h : ∀ row r, conflicts row r = true → ref r = ref row) (hk : ∀ row ∈ rows, ref row = k) :
    rowsOf ref k (rows.foldl (fun t row => upsert conflicts row t) t) =
        rows.foldl (fun t row => upsert conflicts row t) (rowsOf ref k t) ∧
      ∀ k', k' ≠ k →
        rowsOf ref k' (rows.foldl (fun t row => upsert conflicts row t) t) = rowsOf ref k' t := by
  induction rows generalizing t with
  | nil => exact ⟨rfl, fun _ _ => rfl⟩
  | cons row rows ih =>
    have hrow := hk row List.mem_cons_self
    obtain ⟨h₁, h₂⟩ := ih (t := upsert conflicts row t) fun r hr => hk r (List.mem_cons_of_mem _ hr)
    simp only [List.foldl_cons]
    refine ⟨?_, fun k' hk' => ?_⟩
    · rw [h₁, ← hrow, rowsOf_upsert (h row)]
    · rw [h₂ k' hk', rowsOf_upsert_of_ne (h row) (hrow ▸ hk'.symm)]

theorem mem_foldl_upsert {rows : List ρ} {r : ρ}
    (h : r ∈ rows.foldl (fun t row => upsert conflicts row t) t) : r ∈ rows ∨ r ∈ t := by
  induction rows generalizing t with
  | nil => exact .inr h
  | cons row rows ih =>
    rcases ih h with h | h
    · exact .inl (List.mem_cons_of_mem _ h)
    · rcases mem_upsert h with rfl | h
      · exact .inl List.mem_cons_self
      · exact .inr h

end upsert

section insertNew

variable {conflicts : ρ → ρ → Bool} {t : List ρ}

theorem insertNew_of_no_conflict {row : ρ} (h : ∀ r ∈ t, conflicts row r = false) :
    insertNew conflicts t row = t ++ [row] := by
  unfold insertNew
  rw [if_neg]
  simpa using h

end insertNew

section counting

variable {key : ρ → κ} {p : ρ → Bool} {t u : List ρ}

omit [DecidableEq κ] in
/-- Every counted row of `u` comes from a counted row of `t` with its key. -/
theorem countP_le_of_keys {q : ρ → Bool} (hu : (u.map key).Nodup)
    (h : ∀ row' ∈ u, q row' = true → ∃ row ∈ t, p row = true ∧ key row = key row') :
    u.countP q ≤ t.countP p := by
  have hkeys : (u.filter q).map key ⊆ (t.filter p).map key := fun k hk => by
    obtain ⟨row', hrow', rfl⟩ := List.mem_map.mp hk
    obtain ⟨hmem, hq⟩ := List.mem_filter.mp hrow'
    obtain ⟨row, hrow, hprow, hkey⟩ := h row' hmem hq
    exact List.mem_map.mpr ⟨row, List.mem_filter.mpr ⟨hrow, hprow⟩, hkey⟩
  have hle := ((List.filter_sublist.map key).nodup hu).subperm hkeys |>.length_le
  rwa [List.length_map, List.length_map, ← List.countP_eq_length_filter,
    ← List.countP_eq_length_filter] at hle

/-- At most one row has a given key. -/
theorem countP_le_succ (ht : (t.map key).Nodup) (k : κ) :
    t.countP p ≤ t.countP (fun row => key row ≠ k && p row) + 1 := by
  have hone : t.countP (fun row => decide (key row = k)) ≤ 1 := by
    have hcount := List.nodup_iff_count_le_one.mp ht k
    rw [List.count_eq_countP, List.countP_map] at hcount
    refine le_trans (le_of_eq (List.countP_congr fun row _ => ?_)) hcount
    simp
  rw [List.countP_eq_countP_filter_add t p fun row => key row = k, List.countP_filter,
    List.countP_filter, Nat.add_comm]
  refine Nat.add_le_add (le_of_eq (List.countP_congr fun row _ => ?_))
    (le_trans (List.countP_mono_left fun row _ hrow => ?_) hone)
  · rw [Bool.and_comm]
    simp
  · exact (Bool.and_eq_true_iff.mp hrow).2

end counting

section outerJoin

variable {σ : Type*} {on : ρ → σ → Bool}

/-- `t LEFT OUTER JOIN u ON on`. -/
def outerJoin (on : ρ → σ → Bool) (t : List ρ) (u : List σ) : List (ρ × Option σ) :=
  t.flatMap fun r =>
    match u.filter (on r) with
    | [] => [(r, none)]
    | matched => matched.map fun s => (r, some s)

/-- The rows an outer join pads are those without a match. -/
theorem mem_outerJoin_none {t : List ρ} {u : List σ} {r : ρ} :
    (r, none) ∈ outerJoin on t u ↔ r ∈ t ∧ ∀ s ∈ u, on r s = false := by
  rw [outerJoin, List.mem_flatMap]
  constructor
  · rintro ⟨r', hr', hmem⟩
    split at hmem
    · next hnil =>
      obtain rfl : r = r' := by simpa using hmem
      exact ⟨hr', by simpa using List.filter_eq_nil_iff.mp hnil⟩
    · simp at hmem
  · rintro ⟨hr, hnone⟩
    refine ⟨r, hr, ?_⟩
    rw [List.filter_eq_nil_iff.mpr (by simpa using hnone)]
    exact List.mem_singleton_self _

end outerJoin

section pointwise

variable {α β : Type*} {R S : α → β → Prop}

/-- Weakening a pointwise relation, knowing which row of the first table is looked at. -/
theorem forall₂_imp_mem {t : List α} {u : List β} (h : List.Forall₂ R t u)
    (himp : ∀ a ∈ t, ∀ b, R a b → S a b) : List.Forall₂ S t u := by
  induction h with
  | nil => exact .nil
  | cons hab _ ih =>
    exact .cons (himp _ List.mem_cons_self _ hab) (ih fun a ha => himp a (List.mem_cons_of_mem _ ha))

theorem forall₂_right {t : List α} {u : List β} (h : List.Forall₂ R t u) {b : β} (hb : b ∈ u) :
    ∃ a ∈ t, R a b := by
  induction h with
  | nil => cases hb
  | cons hab _ ih =>
    rcases List.mem_cons.mp hb with rfl | hb
    · exact ⟨_, List.mem_cons_self, hab⟩
    · obtain ⟨a, ha, hab⟩ := ih hb
      exact ⟨a, List.mem_cons_of_mem _ ha, hab⟩

theorem forall₂_left {t : List α} {u : List β} (h : List.Forall₂ R t u) {a : α} (ha : a ∈ t) :
    ∃ b ∈ u, R a b := forall₂_right (R := flip R) h.flip ha

theorem forall₂_comp {γ : Type*} {T : β → γ → Prop} {t : List α} {u : List β} {v : List γ}
    (h : List.Forall₂ R t u) (h' : List.Forall₂ T u v) :
    List.Forall₂ (fun a c => ∃ b, R a b ∧ T b c) t v := by
  induction h generalizing v with
  | nil =>
    cases h'
    exact .nil
  | cons hab _ ih =>
    obtain _ | ⟨hbc, h'⟩ := h'
    exact .cons ⟨_, hab, hbc⟩ (ih h')

theorem forall₂_map_eq {γ : Type*} {f : α → γ} {g : β → γ} {t : List α} {u : List β}
    (h : List.Forall₂ (fun a b => g b = f a) t u) : u.map g = t.map f := by
  induction h with
  | nil => rfl
  | cons hab _ ih => rw [List.map_cons, List.map_cons, hab, ih]

/-- A row is found by a key no other row has. -/
theorem find?_key {key : ρ → κ} {t : List ρ} (h : (t.map key).Nodup) {row : ρ} (hrow : row ∈ t) :
    t.find? (key · = key row) = some row := by
  have hsome : (t.find? (key · = key row)).isSome := by
    rw [List.find?_isSome]
    exact ⟨row, hrow, by simp⟩
  obtain ⟨row', hrow'⟩ := Option.isSome_iff_exists.mp hsome
  have hkey : key row' = key row := by simpa using List.find?_some hrow'
  rw [hrow', List.inj_on_of_nodup_map h (List.mem_of_find?_eq_some hrow') hrow hkey]

/-- Looking up each key of a table without repeated keys reads the table in order. -/
theorem filterMap_find?_keys {u : List (κ × β)} (h : (u.map Prod.fst).Nodup) :
    ((u.map Prod.fst).filterMap fun k => (u.find? (·.1 = k)).map (·.2)) = u.map Prod.snd := by
  rw [List.filterMap_map, ← List.filterMap_eq_map]
  refine List.filterMap_congr fun r hr => ?_
  simp [find?_key h hr]

end pointwise

section evolution

variable {R : ρ → ρ → Prop} {N : ρ → Prop} {t u v : List ρ}

/-- Every row of the first table has changed by steps of `R`, and so have the created rows, which
satisfied `N` at first. -/
def Evolves (R : ρ → ρ → Prop) (N : ρ → Prop) (t u : List ρ) : Prop :=
  ∃ created, (∀ row ∈ created, N row) ∧ List.Forall₂ (Relation.ReflTransGen R) (t ++ created) u

theorem Evolves.refl (t : List ρ) : Evolves R N t t :=
  ⟨[], by simp, by rw [List.append_nil]; exact List.forall₂_same.mpr fun _ _ => .refl⟩

theorem Evolves.trans (h : Evolves R N t u) (h' : Evolves R N u v) : Evolves R N t v := by
  obtain ⟨created, hcreated, hrows⟩ := h
  obtain ⟨created', hcreated', hrows'⟩ := h'
  refine ⟨created ++ created', fun row hrow => ?_, ?_⟩
  · exact (List.mem_append.mp hrow).elim (hcreated row) (hcreated' row)
  · have hsame : List.Forall₂ (Relation.ReflTransGen R) created' created' :=
      List.forall₂_same.mpr fun _ _ => .refl
    rw [← List.append_assoc]
    exact (forall₂_comp (List.rel_append hrows hsame) hrows').imp
      fun _ _ ⟨_, hfirst, hsecond⟩ => hfirst.trans hsecond

/-- Every row takes at most one step. -/
theorem evolves_map {f : ρ → ρ} (h : ∀ row ∈ t, f row = row ∨ R row (f row)) :
    Evolves R N t (t.map f) := by
  refine ⟨[], by simp, ?_⟩
  rw [List.append_nil, List.forall₂_map_right_iff, List.forall₂_same]
  intro row hrow
  rcases h row hrow with heq | hstep
  · rw [heq]
  · exact .single hstep

/-- A row is created. -/
theorem evolves_concat {row : ρ} (h : N row) : Evolves R N t (t ++ [row]) :=
  ⟨[row], by simpa using h, List.forall₂_same.mpr fun _ _ => .refl⟩

theorem Evolves.exists_mem (h : Evolves R N t u) {row : ρ} (hrow : row ∈ t) :
    ∃ row' ∈ u, Relation.ReflTransGen R row row' := by
  obtain ⟨created, -, hrows⟩ := h
  exact forall₂_left hrows (List.mem_append_left _ hrow)

/-- A row is a changed one or a created one. -/
theorem Evolves.of_mem (h : Evolves R N t u) {row' : ρ} (hrow' : row' ∈ u) :
    ∃ row, (row ∈ t ∨ N row) ∧ Relation.ReflTransGen R row row' := by
  obtain ⟨created, hcreated, hrows⟩ := h
  obtain ⟨row, hrow, hsteps⟩ := forall₂_right hrows hrow'
  exact ⟨row, (List.mem_append.mp hrow).imp_right (hcreated row), hsteps⟩

/-- A loop whose rounds are evolutions is one. -/
theorem Evolves.foldl {σ α : Type*} {rows : σ → List ρ} {round : σ → α → σ} {xs : List α}
    (h : ∀ s, ∀ x ∈ xs, Evolves R N (rows s) (rows (round s x))) (s : σ) :
    Evolves R N (rows s) (rows (xs.foldl round s)) := by
  induction xs generalizing s with
  | nil => exact .refl _
  | cons x xs ih =>
    exact (h s x List.mem_cons_self).trans
      (ih (fun s y hy => h s y (List.mem_cons_of_mem _ hy)) (round s x))

/-- What the steps keep of a row, and the created rows do not have. -/
theorem Evolves.filterMap_eq {β : Type*} {f : ρ → Option β} (h : Evolves R N t u)
    (hR : ∀ a b, R a b → f b = f a) (hN : ∀ row, N row → f row = none) :
    u.filterMap f = t.filterMap f := by
  obtain ⟨created, hcreated, hrows⟩ := h
  have hnone : created.filterMap f = [] :=
    List.filterMap_eq_nil_iff.mpr fun row hrow => hN row (hcreated row hrow)
  have hsteps : ∀ {a b : ρ}, Relation.ReflTransGen R a b → f b = f a := fun hab => by
    induction hab with
    | refl => rfl
    | tail _ hlast ih => rw [hR _ _ hlast, ih]
  have hall : ∀ {l l' : List ρ}, List.Forall₂ (Relation.ReflTransGen R) l l' →
      l'.filterMap f = l.filterMap f := by
    intro l l' hl
    induction hl with
    | nil => rfl
    | cons hrow _ ih => rw [List.filterMap_cons, List.filterMap_cons, ih, hsteps hrow]
  rw [hall hrows, List.filterMap_append, hnone, List.append_nil]

theorem Evolves.countP_eq {p : ρ → Bool} (h : Evolves R N t u) (hR : ∀ a b, R a b → p b = p a)
    (hN : ∀ row, N row → p row = false) : u.countP p = t.countP p := by
  have hcount (l : List ρ) :
      (l.filterMap fun row => if p row then some () else none).length = l.countP p := by
    rw [List.length_filterMap_eq_countP]
    exact List.countP_congr fun row _ => by cases p row <;> simp
  rw [← hcount u, ← hcount t, h.filterMap_eq]
  · intro a b hab
    rw [hR a b hab]
  · intro row hrow
    rw [hN row hrow]
    rfl

end evolution

section ids

variable {H : Type*}

/-- An injection of finitely many ids extends to a permutation. -/
theorem exists_perm_extending {f : ι → ι} (s : Finset ι) (hf : Set.InjOn f s) :
    ∃ σ : Equiv.Perm ι, ∀ i ∈ s, σ i = f i := by
  induction s using Finset.induction_on with
  | empty => exact ⟨Equiv.refl ι, by simp⟩
  | insert a s ha ih =>
    obtain ⟨σ, hσ⟩ := ih (hf.mono (by simp))
    refine ⟨σ.trans (Equiv.swap (σ a) (f a)), fun i hi => ?_⟩
    rw [Equiv.trans_apply]
    rcases Finset.mem_insert.mp hi with rfl | hi
    · exact Equiv.swap_apply_left _ _
    · -- the ids handled so far keep their images
      have hne : i ≠ a := fun h => ha (h ▸ hi)
      have hfne : f i ≠ f a := fun h => hne (hf (by simp [hi]) (by simp) h)
      rw [Equiv.swap_apply_of_ne_of_ne (fun h => hne (σ.injective h)) (hσ i hi ▸ hfne), hσ i hi]

/-- Permutations of disjoint groups of ids, whose images are disjoint too, are one permutation. -/
theorem exists_perm_gluing (s : Finset ι) (owner : ι → H) (g : H → Equiv.Perm ι)
    (h : ∀ i ∈ s, ∀ j ∈ s, g (owner i) i = g (owner j) j → owner i = owner j) :
    ∃ σ : Equiv.Perm ι, ∀ i ∈ s, σ i = g (owner i) i := by
  refine exists_perm_extending s fun i hi j hj hij => ?_
  have howner := h i hi j hj hij
  simp only [howner] at hij
  exact (g (owner j)).injective hij

end ids

end Table
