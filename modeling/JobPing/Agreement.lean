import Mathlib.Data.List.Induction

/-!
# Agreement

Values are combined two at a time: equal values stay, different ones are a conflict. Whatever the
grouping, the combination of a list is the value common to all, and a conflict where there is none
(`foldl_agree`, `agreed_flatten`). Statements that come with quotes keep the first ones of them
(`tally`).
-/

namespace Agreement

variable {α : Type*} [DecidableEq α]

/-- Two values combined. -/
def agree (conflict a b : α) : α := if a = b then a else conflict

/-- The common value of a list, or the conflict. -/
def agreed (conflict : α) : List α → Option α
  | [] => none
  | a :: rest => some (if rest.all (· = a) then a else conflict)

variable {conflict a b : α} {l l' : List α}

@[simp] theorem agreed_eq_none : agreed conflict l = none ↔ l = [] := by
  cases l <;> simp [agreed]

/-- The common value of values that are all one. -/
theorem agreed_eq_some (hne : l ≠ []) (h : ∀ v ∈ l, v = a) : agreed conflict l = some a := by
  obtain ⟨b, rest, rfl⟩ := List.exists_cons_of_ne_nil hne
  obtain rfl := h b List.mem_cons_self
  have hall : rest.all (· = b) = true := by
    rw [List.all_eq_true]
    intro v hv
    exact decide_eq_true (h v (List.mem_cons_of_mem _ hv))
  rw [agreed, if_pos hall]

/-- Two values that differ are a conflict. -/
theorem agreed_eq_conflict (ha : a ∈ l) (hb : b ∈ l) (hne : a ≠ b) :
    agreed conflict l = some conflict := by
  cases l with
  | nil => cases ha
  | cons c rest =>
    rw [agreed, if_neg]
    intro hall
    have hone : ∀ v ∈ c :: rest, v = c := fun v hv => by
      rcases List.mem_cons.mp hv with rfl | hv
      · rfl
      · exact of_decide_eq_true (List.all_eq_true.mp hall v hv)
    exact hne ((hone a ha).trans (hone b hb).symm)

/-- Either the values are all one, or two of them differ. -/
theorem agreed_cases (conflict : α) (l : List α) :
    l = [] ∨ (∃ a ∈ l, (∀ v ∈ l, v = a) ∧ agreed conflict l = some a) ∨
      ∃ a ∈ l, ∃ b ∈ l, a ≠ b ∧ agreed conflict l = some conflict := by
  cases l with
  | nil => exact .inl rfl
  | cons c rest =>
    right
    by_cases hall : ∀ v ∈ c :: rest, v = c
    · exact .inl ⟨c, List.mem_cons_self, hall, agreed_eq_some (List.cons_ne_nil _ _) hall⟩
    · right
      push Not at hall
      obtain ⟨v, hv, hne⟩ := hall
      exact ⟨c, List.mem_cons_self, v, hv, hne.symm,
        agreed_eq_conflict List.mem_cons_self hv hne.symm⟩

/-- What is agreed, if no conflict, is the value of all. -/
theorem eq_of_agreed (h : agreed conflict l = some a) (hne : a ≠ conflict) (hb : b ∈ l) : b = a := by
  rcases agreed_cases conflict l with rfl | ⟨c, -, hall, heq⟩ | ⟨-, -, -, -, -, heq⟩
  · cases hb
  · rw [hall b hb, Option.some.inj (heq.symm.trans h)]
  · exact absurd (Option.some.inj (h.symm.trans heq)) hne

/-- One conflict makes all a conflict. -/
theorem agreed_of_conflict_mem (h : conflict ∈ l) : agreed conflict l = some conflict := by
  rcases agreed_cases conflict l with rfl | ⟨a, -, hall, heq⟩ | ⟨-, -, -, -, -, heq⟩
  · cases h
  · rw [heq, hall conflict h]
  · exact heq

/-- What is agreed depends on the values only, not on their order or number. -/
theorem agreed_congr (h : ∀ v, v ∈ l ↔ v ∈ l') : agreed conflict l = agreed conflict l' := by
  rcases agreed_cases conflict l with rfl | ⟨a, ha, hall, heq⟩ | ⟨a, ha, b, hb, hne, heq⟩
  · have hnil : l' = [] := List.eq_nil_iff_forall_not_mem.mpr fun v hv => by
      cases (h v).mpr hv
    rw [hnil]
  · rw [heq, agreed_eq_some (List.ne_nil_of_mem ((h a).mp ha))]
    intro v hv
    exact hall v ((h v).mpr hv)
  · rw [heq, agreed_eq_conflict ((h a).mp ha) ((h b).mp hb) hne]

/-- One more value. -/
theorem agreed_concat (h : agreed conflict l = some a) (b : α) :
    agreed conflict (l ++ [b]) = some (agree conflict a b) := by
  rcases agreed_cases conflict l with rfl | ⟨c, hc, hall, heq⟩ | ⟨c, hc, d, hd, hne, heq⟩
  · cases h
  · obtain rfl := Option.some.inj (heq.symm.trans h)
    by_cases hcb : c = b
    · subst hcb
      rw [agree, if_pos rfl]
      refine agreed_eq_some (by simp) fun v hv => ?_
      rcases List.mem_append.mp hv with hv | hv
      · exact hall v hv
      · exact List.mem_singleton.mp hv
    · rw [agree, if_neg hcb]
      exact agreed_eq_conflict (List.mem_append_left _ hc) (by simp) hcb
  · obtain rfl := Option.some.inj (heq.symm.trans h)
    rw [agreed_eq_conflict (List.mem_append_left _ hc) (List.mem_append_left _ hd) hne]
    -- a conflict stays one, whether or not the next value is one
    unfold agree
    split_ifs <;> rfl

/-- **Combined one after another**, a list of values is what it agrees on. -/
theorem foldl_agree (l : List α) :
    l.foldl (fun acc v => some (acc.elim v (agree conflict · v))) none = agreed conflict l := by
  induction l using List.reverseRecOn with
  | nil => rfl
  | append_singleton l b ih =>
    rw [List.foldl_append, ih, List.foldl_cons, List.foldl_nil]
    cases h : agreed conflict l with
    | none =>
      obtain rfl := agreed_eq_none.mp h
      rfl
    | some a => exact (agreed_concat h b).symm

/-- **Combined in groups**, values agree on what all of them agree on. -/
theorem agreed_flatten (ls : List (List α)) :
    agreed conflict (ls.filterMap (agreed conflict)) = agreed conflict ls.flatten := by
  -- every group that is not empty is represented by its value or by the conflict
  have hvalue : ∀ l ∈ ls, ∀ v ∈ l, ∃ w ∈ ls.filterMap (agreed conflict),
      agreed conflict l = some w := fun l hl v hv => by
    obtain ⟨w, hw⟩ := Option.ne_none_iff_exists'.mp
      (mt agreed_eq_none.mp (List.ne_nil_of_mem hv) : agreed conflict l ≠ none)
    exact ⟨w, List.mem_filterMap.mpr ⟨l, hl, hw⟩, hw⟩
  rcases agreed_cases conflict ls.flatten with hnil | ⟨a, ha, hall, heq⟩ | ⟨a, ha, b, hb, hne, heq⟩
  · have hnone : ls.filterMap (agreed conflict) = [] := by
      refine List.filterMap_eq_nil_iff.mpr fun l hl => agreed_eq_none.mpr ?_
      exact List.flatten_eq_nil_iff.mp hnil l hl
    rw [hnone, hnil]
  · obtain ⟨l, hl, hal⟩ := List.mem_flatten.mp ha
    obtain ⟨w, hw, -⟩ := hvalue l hl a hal
    rw [heq, agreed_eq_some (List.ne_nil_of_mem hw)]
    intro v hv
    obtain ⟨l', hl', hv'⟩ := List.mem_filterMap.mp hv
    have hne' : l' ≠ [] := fun hnil => by simp [hnil, agreed] at hv'
    have hsame : agreed conflict l' = some a :=
      agreed_eq_some hne' fun v hv => hall v (List.mem_flatten.mpr ⟨l', hl', hv⟩)
    exact Option.some.inj (hv'.symm.trans hsame)
  · rw [heq]
    obtain ⟨l, hl, hal⟩ := List.mem_flatten.mp ha
    obtain ⟨l', hl', hbl⟩ := List.mem_flatten.mp hb
    obtain ⟨w, hw, hwl⟩ := hvalue l hl a hal
    obtain ⟨w', hw', hwl'⟩ := hvalue l' hl' b hbl
    rcases agreed_cases conflict (ls.filterMap (agreed conflict)) with
      hnil | ⟨c, hc, hall, hagreed⟩ | ⟨-, -, -, -, -, hagreed⟩
    · rw [hnil] at hw
      cases hw
    · -- all groups have one value: if it were no conflict, `a` and `b` would be it
      rw [hagreed]
      by_contra hconflict
      have hc : c ≠ conflict := fun h => hconflict (congrArg some h)
      rw [hall w hw] at hwl
      rw [hall w' hw'] at hwl'
      exact hne ((eq_of_agreed hwl hc hal).trans (eq_of_agreed hwl' hc hbl).symm)
    · exact hagreed

theorem agreed_pair (conflict a b : α) : agreed conflict [a, b] = some (agree conflict a b) := by
  rw [agreed, agree]
  by_cases h : a = b
  · simp [h]
  · simp [h, Ne.symm h]

/-- Two groups. -/
theorem agreed_append (conflict : α) (l l' : List α) :
    agreed conflict (l ++ l') =
      ((agreed conflict l').map fun b => (agreed conflict l).elim b (agree conflict · b)).or
        (agreed conflict l) := by
  have hflat : agreed conflict ([l, l'].filterMap (agreed conflict)) =
      agreed conflict [l, l'].flatten := agreed_flatten [l, l']
  rw [List.flatten_cons, List.flatten_singleton] at hflat
  rw [← hflat]
  cases ha : agreed conflict l <;> cases hb : agreed conflict l' <;>
    simp only [List.filterMap_cons, List.filterMap_nil, ha, hb]
  · rfl
  · rfl
  · rfl
  · exact agreed_pair _ _ _

/-! ## Statements with quotes -/

section Tally

variable {β : Type*} {n : ℕ} {s s' heard cut alone : List (α × β)}

/-- The common value of statements, with the first `n` quotes. -/
def tally (conflict : α) (n : ℕ) (s : List (α × β)) : Option (α × List β) :=
  (agreed conflict (s.map (·.1))).map fun v => (v, (s.map (·.2)).take n)

/-- Two tallies combined. -/
def mergeTally (conflict : α) (n : ℕ) (a b : α × List β) : α × List β :=
  (agree conflict a.1 b.1, (a.2 ++ b.2).take n)

theorem tally_append (conflict : α) (n : ℕ) (s s' : List (α × β)) :
    tally conflict n (s ++ s') =
      ((tally conflict n s').map fun b =>
        (tally conflict n s).elim b (mergeTally conflict n · b)).or (tally conflict n s) := by
  rw [tally, tally, tally, List.map_append, List.map_append, agreed_append]
  cases hs : agreed conflict (s.map (·.1)) with
  | none =>
    obtain rfl : s = [] := List.map_eq_nil_iff.mp (agreed_eq_none.mp hs)
    cases agreed conflict (s'.map (·.1)) <;> simp
  | some a =>
    cases hs' : agreed conflict (s'.map (·.1)) with
    | none =>
      obtain rfl : s' = [] := List.map_eq_nil_iff.mp (agreed_eq_none.mp hs')
      simp
    | some b =>
      -- the quotes beyond the first `n` of each group are beyond the first `n` of both
      have htake : (s.map (·.2) ++ s'.map (·.2)).take n =
          ((s.map (·.2)).take n ++ (s'.map (·.2)).take n).take n := by
        rw [List.take_append, List.take_append, List.take_take, Nat.min_self, List.take_take,
          List.length_take]
        congr 2
        omega
      simp [mergeTally, htake]

/-- The statements that are not heard change nothing: there are none, or enough quotes come without
them, and they do not break an agreement. -/
def Covered (n : ℕ) (heard cut alone : List (α × β)) : Prop :=
  cut = [] ∨ (n ≤ heard.length ∧ (alone.map (·.2)).take n = (heard.map (·.2)).take n ∧
    ((∃ a ∈ heard, ∃ b ∈ heard, a.1 ≠ b.1) ∨ ∀ a ∈ cut, ∀ b ∈ heard, a.1 = b.1))

/-- Statements that come in between do not break an agreement exactly if all agree with it. -/
theorem agreed_interleaved (hne : heard ≠ []) (hmem : ∀ a, a ∈ alone ↔ a ∈ heard ∨ a ∈ cut)
    (hconflict : ∀ a ∈ alone, a.1 ≠ conflict) :
    agreed conflict (heard.map (·.1)) = agreed conflict (alone.map (·.1)) ↔
      (∃ a ∈ heard, ∃ b ∈ heard, a.1 ≠ b.1) ∨ ∀ a ∈ cut, ∀ b ∈ heard, a.1 = b.1 := by
  obtain ⟨h₀, hh₀⟩ := List.exists_mem_of_ne_nil _ hne
  by_cases hdisagree : ∃ a ∈ heard, ∃ b ∈ heard, a.1 ≠ b.1
  · obtain ⟨a, ha, b, hb, hab⟩ := hdisagree
    rw [agreed_eq_conflict (List.mem_map_of_mem ha) (List.mem_map_of_mem hb) hab,
      agreed_eq_conflict (List.mem_map_of_mem ((hmem a).mpr (.inl ha)))
        (List.mem_map_of_mem ((hmem b).mpr (.inl hb))) hab]
    exact ⟨fun _ => .inl ⟨a, ha, b, hb, hab⟩, fun _ => rfl⟩
  · push Not at hdisagree
    have hheard : agreed conflict (heard.map (·.1)) = some h₀.1 := by
      refine agreed_eq_some (by simpa using hne) fun v hv => ?_
      obtain ⟨a, ha, rfl⟩ := List.mem_map.mp hv
      exact hdisagree a ha h₀ hh₀
    have h₀alone := (hmem h₀).mpr (.inl hh₀)
    rw [hheard]
    constructor
    · intro h
      refine .inr fun a ha b hb => ?_
      have hsame := eq_of_agreed h.symm (hconflict h₀ h₀alone)
        (List.mem_map_of_mem ((hmem a).mpr (.inr ha)))
      exact hsame.trans (hdisagree h₀ hh₀ b hb)
    · rintro (⟨a, ha, b, hb, hab⟩ | hcut)
      · exact absurd (hdisagree a ha b hb) hab
      · refine (agreed_eq_some (List.ne_nil_of_mem (List.mem_map_of_mem h₀alone)) ?_).symm
        intro v hv
        obtain ⟨a, ha, rfl⟩ := List.mem_map.mp hv
        rcases (hmem a).mp ha with ha | ha
        · exact hdisagree a ha h₀ hh₀
        · exact hcut a ha h₀ hh₀

/-- **A tally without some of the statements** is the same exactly if these are covered. -/
theorem tally_eq_iff (hn : 0 < n) (hsub : heard.Sublist alone) (hperm : alone.Perm (heard ++ cut))
    (hconflict : ∀ a ∈ alone, a.1 ≠ conflict) :
    tally conflict n heard = tally conflict n alone ↔ Covered n heard cut alone := by
  have hlength := hperm.length_eq
  rw [List.length_append] at hlength
  have hmem : ∀ a, a ∈ alone ↔ a ∈ heard ∨ a ∈ cut := fun a => by
    rw [hperm.mem_iff, List.mem_append]
  by_cases hcut : cut = []
  · subst hcut
    rw [hsub.eq_of_length (by simpa using hlength.symm)]
    exact ⟨fun _ => .inl rfl, fun _ => rfl⟩
  · have hpos := List.length_pos_iff.mpr hcut
    have halone : alone ≠ [] := List.length_pos_iff.mp (by omega)
    obtain ⟨w, hw⟩ := Option.ne_none_iff_exists'.mp
      (mt agreed_eq_none.mp (mt List.map_eq_nil_iff.mp halone) :
        agreed conflict (alone.map (·.1)) ≠ none)
    constructor
    · intro h
      have hne : heard ≠ [] := by
        rintro rfl
        rw [tally, tally, hw] at h
        cases h
      obtain ⟨v, hv⟩ := Option.ne_none_iff_exists'.mp
        (mt agreed_eq_none.mp (mt List.map_eq_nil_iff.mp hne) :
          agreed conflict (heard.map (·.1)) ≠ none)
      rw [tally, tally, hv, hw, Option.map_some, Option.map_some, Option.some.injEq,
        Prod.mk.injEq] at h
      obtain ⟨hvalue, hquotes⟩ := h
      have hcount := congrArg List.length hquotes
      rw [List.length_take, List.length_take, List.length_map, List.length_map] at hcount
      refine .inr ⟨by omega, hquotes.symm, ?_⟩
      exact (agreed_interleaved hne hmem hconflict).mp (by rw [hv, hw, hvalue])
    · rintro (hnil | ⟨hcount, hquotes, hvalues⟩)
      · exact absurd hnil hcut
      · have hne : heard ≠ [] := List.length_pos_iff.mp (by omega)
        rw [tally, tally, (agreed_interleaved hne hmem hconflict).mpr hvalues, hquotes]

end Tally

end Agreement
