import JobPing.Regex

/-!
# The texts of groups

What a match says about the texts it passes over, whatever stands around them. A pattern is read as
a set of texts, without its lookarounds (`Spells`).

* What a match passes over is spelled by its pattern, and what it records for a group by the pattern
  of a group of that name (`run_spells`).
* A group that every way through a pattern passes is recorded (`Binds`).
-/

universe u

namespace Regex

variable {α : Type u} {γ : Type}

variable {r : Regex α γ} {c c' c'' : Cursor α γ}

theorem Cursor.since_self (c : Cursor α γ) : c.since c = [] := by
  rw [since, Nat.sub_self, List.take_zero, List.reverse_nil]

theorem Cursor.since_trans (h : c.Reaches c') (h' : c'.Reaches c'') :
    c.since c'' = c.since c' ++ c'.since c'' := by
  have hright := h.right_eq
  rw [h'.right_eq, (h.trans h').right_eq, ← List.append_assoc] at hright
  exact List.append_cancel_right hright

theorem Cursor.since_step {a : α} {rest : List α} (h : c.right = a :: rest) :
    c.since c.step = [a] := by
  have hstep : c.step = ⟨a :: c.left, rest, c.groups⟩ := by simp only [step, h]
  have hreach := (c.reaches_step).right_eq
  rw [hstep] at hreach ⊢
  rw [h] at hreach
  exact (@List.append_cancel_right _ [a] rest _ hreach).symm

/-- Every match from a cursor on is found at one. -/
theorem exists_of_matchesFrom {fuel : ℕ} {m : Match α γ} (h : m ∈ r.matchesFrom fuel c) :
    ∃ c c', r.matchAt c = some c' ∧ m = c.matchTo c' := by
  induction fuel generalizing c with
  | zero => cases h
  | succ fuel ih =>
    have hstep : m ∈ (if c.right = [] then [] else r.matchesFrom fuel c.step) →
        ∃ c c', r.matchAt c = some c' ∧ m = c.matchTo c' := by
      intro hm
      split_ifs at hm
      · cases hm
      · exact ih hm
    rw [matchesFrom] at h
    split at h
    · next c' hmatch =>
      by_cases hlt : c'.right.length < c.right.length
      · rw [if_pos hlt] at h
        rcases List.mem_cons.mp h with rfl | h
        · exact ⟨c, c', hmatch, rfl⟩
        · exact ih h
      · rw [if_neg hlt] at h
        exact hstep h
    · exact hstep h

/-- The texts of a pattern; a lookaround passes over nothing. -/
def Spells : Regex α γ → List α → Prop
  | .set p, text => ∃ a, p a = true ∧ text = [a]
  | .seq a b, text => ∃ s t, a.Spells s ∧ b.Spells t ∧ text = s ++ t
  | .alt a b, text => a.Spells text ∨ b.Spells text
  | .many _ max r, text =>
    ∃ pieces : List (List α), (∀ piece ∈ pieces, r.Spells piece) ∧ text = pieces.flatten ∧
      ∀ m ∈ max, pieces.length ≤ m
  | .group _ r, text => r.Spells text
  | _, text => text = []

variable [DecidableEq γ]

/-- The patterns of the groups of a name. -/
def named (name : γ) : Regex α γ → List (Regex α γ)
  | .seq a b => a.named name ++ b.named name
  | .alt a b => a.named name ++ b.named name
  | .many _ _ r => r.named name
  | .group n r => if n = name then r :: r.named name else r.named name
  | _ => []

/-- Every way through the pattern passes a group of the name. -/
def binds (name : γ) : Regex α γ → Bool
  | .seq a b => a.binds name || b.binds name
  | .alt a b => a.binds name && b.binds name
  | .group n r => decide (n = name) || r.binds name
  | _ => false

/-- **A move** of a pattern from one cursor to another, with the groups it records. -/
structure Moves (r : Regex α γ) (c c' : Cursor α γ) : Prop where
  reaches : c.Reaches c'
  spells : r.Spells (c.since c')
  groups : ∃ recorded, c'.groups = recorded ++ c.groups ∧
    (∀ entry ∈ recorded, ∃ p ∈ r.named entry.1, p.Spells entry.2) ∧
    ∀ name, r.binds name = true → ∃ entry ∈ recorded, entry.1 = name

/-- A pattern that passes over nothing and records nothing. -/
theorem moves_self (hspells : r.Spells []) (hbinds : ∀ name, r.binds name = false) :
    r.Moves c c where
  reaches := .refl c
  spells := c.since_self.symm ▸ hspells
  groups := by
    refine ⟨[], rfl, fun entry h => ?_, fun name h => ?_⟩
    · cases h
    · rw [hbinds name] at h
      cases h

theorem moves_seq {a b : Regex α γ} (h : a.Moves c c') (h' : b.Moves c' c'') :
    (a.seq b).Moves c c'' where
  reaches := h.reaches.trans h'.reaches
  spells := ⟨_, _, h.spells, h'.spells, Cursor.since_trans h.reaches h'.reaches⟩
  groups := by
    obtain ⟨recorded, hgroups, hnamed, hbinds⟩ := h.groups
    obtain ⟨recorded', hgroups', hnamed', hbinds'⟩ := h'.groups
    refine ⟨recorded' ++ recorded, ?_, fun entry hentry => ?_, fun name hname => ?_⟩
    · rw [hgroups', hgroups, List.append_assoc]
    · rcases List.mem_append.mp hentry with hentry | hentry
      · obtain ⟨p, hp, hspells⟩ := hnamed' entry hentry
        exact ⟨p, List.mem_append_right _ hp, hspells⟩
      · obtain ⟨p, hp, hspells⟩ := hnamed entry hentry
        exact ⟨p, List.mem_append_left _ hp, hspells⟩
    · rcases Bool.or_eq_true_iff.mp hname with hname | hname
      · obtain ⟨entry, hentry, heq⟩ := hbinds name hname
        exact ⟨entry, List.mem_append_right _ hentry, heq⟩
      · obtain ⟨entry, hentry, heq⟩ := hbinds' name hname
        exact ⟨entry, List.mem_append_left _ hentry, heq⟩

theorem moves_alt_left {a : Regex α γ} (b : Regex α γ) (h : a.Moves c c') :
    (a.alt b).Moves c c' where
  reaches := h.reaches
  spells := Or.inl h.spells
  groups := by
    obtain ⟨recorded, hgroups, hnamed, hbinds⟩ := h.groups
    refine ⟨recorded, hgroups, fun entry hentry => ?_, fun name hname => ?_⟩
    · obtain ⟨p, hp, hspells⟩ := hnamed entry hentry
      exact ⟨p, List.mem_append_left _ hp, hspells⟩
    · exact hbinds name (Bool.and_eq_true_iff.mp hname).1

theorem moves_alt_right (a : Regex α γ) {b : Regex α γ} (h : b.Moves c c') :
    (a.alt b).Moves c c' where
  reaches := h.reaches
  spells := Or.inr h.spells
  groups := by
    obtain ⟨recorded, hgroups, hnamed, hbinds⟩ := h.groups
    refine ⟨recorded, hgroups, fun entry hentry => ?_, fun name hname => ?_⟩
    · obtain ⟨p, hp, hspells⟩ := hnamed entry hentry
      exact ⟨p, List.mem_append_right _ hp, hspells⟩
    · exact hbinds name (Bool.and_eq_true_iff.mp hname).2

theorem moves_many_nil (min : ℕ) (max : Option ℕ) (r : Regex α γ) (c : Cursor α γ) :
    (Regex.many min max r).Moves c c :=
  moves_self ⟨[], by simp, rfl, fun m _ => Nat.zero_le m⟩ fun _ => rfl

/-- A repetition with one round more. -/
theorem moves_many_cons {min min' : ℕ} {max : Option ℕ} (hmax : max ≠ some 0) (h : r.Moves c c')
    (h' : (Regex.many min (max.map (· - 1)) r).Moves c' c'') :
    (Regex.many min' max r).Moves c c'' where
  reaches := h.reaches.trans h'.reaches
  spells := by
    obtain ⟨pieces, hpieces, hflatten, hlength⟩ := h'.spells
    refine ⟨c.since c' :: pieces, List.forall_mem_cons.mpr ⟨h.spells, hpieces⟩, ?_, fun m hm => ?_⟩
    · rw [List.flatten_cons, ← hflatten, Cursor.since_trans h.reaches h'.reaches]
    · obtain rfl := Option.mem_def.mp hm
      have hle := hlength (m - 1) rfl
      have hpos : m ≠ 0 := fun h => hmax (congrArg some h)
      rw [List.length_cons]
      omega
  groups := by
    obtain ⟨recorded, hgroups, hnamed, -⟩ := h.groups
    obtain ⟨recorded', hgroups', hnamed', -⟩ := h'.groups
    refine ⟨recorded' ++ recorded, ?_, fun entry hentry => ?_, fun name hname => ?_⟩
    · rw [hgroups', hgroups, List.append_assoc]
    · rcases List.mem_append.mp hentry with hentry | hentry
      · exact hnamed' entry hentry
      · exact hnamed entry hentry
    · cases hname

theorem moves_group (name : γ) (h : r.Moves c c') :
    (Regex.group name r).Moves c { c' with groups := (name, c.since c') :: c'.groups } where
  reaches := h.reaches
  spells := h.spells
  groups := by
    obtain ⟨recorded, hgroups, hnamed, hbinds⟩ := h.groups
    refine ⟨(name, c.since c') :: recorded, by rw [hgroups, List.cons_append],
      fun entry hentry => ?_, fun n hn => ?_⟩
    · rcases List.mem_cons.mp hentry with rfl | hentry
      · exact ⟨r, by rw [named, if_pos rfl]; exact List.mem_cons_self, h.spells⟩
      · obtain ⟨p, hp, hspells⟩ := hnamed entry hentry
        refine ⟨p, ?_, hspells⟩
        rw [named]
        split_ifs
        · exact List.mem_cons_of_mem _ hp
        · exact hp
    · rcases Bool.or_eq_true_iff.mp hn with hn | hn
      · exact ⟨_, List.mem_cons_self, of_decide_eq_true hn⟩
      · obtain ⟨entry, hentry, heq⟩ := hbinds n hn
        exact ⟨entry, List.mem_cons_of_mem _ hentry, heq⟩

theorem repeated_moves {β : Type u} {b : β}
    (hr : ∀ (c : Cursor α γ) (k : Cursor α γ → Option β), r.run c k = some b →
      ∃ c', r.Moves c c' ∧ k c' = some b)
    {fuel min : ℕ} {max : Option ℕ} {c : Cursor α γ} {k : Cursor α γ → Option β}
    (h : repeated (fun c k => r.run c k) fuel min max c k = some b) :
    ∃ c', (Regex.many min max r).Moves c c' ∧ k c' = some b := by
  induction fuel generalizing min max c with
  | zero =>
    rw [repeated] at h
    split_ifs at h
    exact ⟨c, moves_many_nil min max r c, h⟩
  | succ fuel ih =>
    rw [repeated, Option.or_eq_some_iff] at h
    rcases h with h | ⟨-, h⟩
    · split_ifs at h with hmax
      obtain ⟨c', hmoves, hc'⟩ := hr _ _ h
      split_ifs at hc'
      obtain ⟨c'', hmoves', hc''⟩ := ih hc'
      exact ⟨c'', moves_many_cons hmax hmoves hmoves', hc''⟩
    · split_ifs at h
      exact ⟨c, moves_many_nil min max r c, h⟩

/-- **A match is a move** of its pattern. -/
theorem run_spells (r : Regex α γ) {β : Type u} {c : Cursor α γ} {k : Cursor α γ → Option β} {b : β}
    (h : r.run c k = some b) : ∃ c', r.Moves c c' ∧ k c' = some b := by
  induction r generalizing c b β with
  | set p =>
    rw [run] at h
    split_ifs at h with hnext
    refine ⟨c.step, ?_, h⟩
    obtain ⟨a, ha, hp⟩ := (Option.any_eq_true _ _).mp hnext
    obtain ⟨rest, hright⟩ := List.head?_eq_some_iff.mp ha
    refine ⟨c.reaches_step, ⟨a, hp, Cursor.since_step hright⟩, [], ?_, by simp,
      fun name hname => ?_⟩
    · simp only [Cursor.step, hright, List.nil_append]
    · cases hname
  | empty => exact ⟨c, moves_self rfl fun _ => rfl, h⟩
  | seq a b' iha ihb =>
    rw [run] at h
    obtain ⟨c', hmoves, hc'⟩ := iha h
    obtain ⟨c'', hmoves', hc''⟩ := ihb hc'
    exact ⟨c'', moves_seq hmoves hmoves', hc''⟩
  | alt a b' iha ihb =>
    rw [run, Option.or_eq_some_iff] at h
    rcases h with h | ⟨-, h⟩
    · obtain ⟨c', hmoves, hc'⟩ := iha h
      exact ⟨c', moves_alt_left b' hmoves, hc'⟩
    · obtain ⟨c', hmoves, hc'⟩ := ihb h
      exact ⟨c', moves_alt_right a hmoves, hc'⟩
  | many min max r ih =>
    rw [run] at h
    exact repeated_moves (fun c k hb => ih hb) h
  | ahead expected r _ =>
    rw [run] at h
    split_ifs at h
    exact ⟨c, moves_self rfl fun _ => rfl, h⟩
  | notBehind classes =>
    rw [run] at h
    split_ifs at h
    exact ⟨c, moves_self rfl fun _ => rfl, h⟩
  | behind p =>
    rw [run] at h
    split_ifs at h
    exact ⟨c, moves_self rfl fun _ => rfl, h⟩
  | boundary word =>
    rw [run] at h
    split_ifs at h
    exact ⟨c, moves_self rfl fun _ => rfl, h⟩
  | finish newline =>
    rw [run] at h
    split_ifs at h
    exact ⟨c, moves_self rfl fun _ => rfl, h⟩
  | group name r ih =>
    rw [run] at h
    obtain ⟨c', hmoves, hc'⟩ := ih h
    exact ⟨_, moves_group name hmoves, hc'⟩

/-- The groups of a match. -/
theorem finditer_groups {text : List α} {m : Match α γ} (h : m ∈ r.finditer text) :
    (∀ entry ∈ m.groups, ∃ p ∈ r.named entry.1, p.Spells entry.2) ∧
      ∀ name, r.binds name = true → ∃ entry ∈ m.groups, entry.1 = name := by
  obtain ⟨c, c', hmatch, rfl⟩ := exists_of_matchesFrom h
  obtain ⟨c'', hmoves, heq⟩ := run_spells r hmatch
  obtain rfl := Option.some.inj heq
  obtain ⟨recorded, hgroups, hnamed, hbinds⟩ := hmoves.groups
  rw [List.append_nil] at hgroups
  have hrecorded : (c.matchTo c'').groups = recorded := hgroups
  rw [hrecorded]
  exact ⟨hnamed, hbinds⟩

variable {text t : List α} {m : Match α γ} {name : γ}

/-- **What a match records for a group** is spelled by a group of that name. -/
theorem group_spells (h : m ∈ r.finditer text) (hgroup : m.group name = some t) :
    ∃ p ∈ r.named name, p.Spells t := by
  obtain ⟨entry, hfind, rfl⟩ := Option.map_eq_some_iff.mp hgroup
  obtain ⟨p, hp, hspells⟩ := (finditer_groups h).1 entry (List.mem_of_find?_eq_some hfind)
  have hname := List.find?_some hfind
  rw [decide_eq_true_eq] at hname
  exact ⟨p, hname ▸ hp, hspells⟩

/-- A group on every way through the pattern is recorded. -/
theorem group_isSome (h : m ∈ r.finditer text) (hbinds : r.binds name = true) :
    ∃ t, m.group name = some t := by
  obtain ⟨entry, hentry, hname⟩ := (finditer_groups h).2 name hbinds
  have hfind : (m.groups.find? (·.1 = name)).isSome :=
    List.find?_isSome.mpr ⟨entry, hentry, decide_eq_true hname⟩
  obtain ⟨found, hfound⟩ := Option.isSome_iff_exists.mp hfind
  exact ⟨found.2, Option.map_eq_some_iff.mpr ⟨found, hfound, rfl⟩⟩

end Regex
