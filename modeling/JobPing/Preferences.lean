import Mathlib.Data.List.MinMax
import Mathlib.Data.Nat.Init

/-!
# The first of the best

`List.argmax` is the first element of a list whose rank no other exceeds. Where some elements are
ranked too high, at the top, the choice stays right exactly when each of them stands behind another
one of the top rank, or is the first of the best without the mistake.
-/

namespace JobPing

variable {α β : Type*} [LinearOrder β] {f : α → β} {l : List α} {m : α}

/-- The first of the best splits the list into elements of lower rank and ones that are no better. -/
theorem argmax_eq_some_iff_split : l.argmax f = some m ↔ ∃ before after,
    l = before ++ m :: after ∧ (∀ y ∈ before, f y < f m) ∧ ∀ y ∈ after, f y ≤ f m := by
  constructor
  · induction l generalizing m with
    | nil => simp
    | cons a l ih =>
      intro h
      rw [List.argmax_cons] at h
      cases hl : l.argmax f with
      | none =>
        rw [hl] at h
        obtain rfl := List.argmax_eq_none.mp hl
        cases h
        exact ⟨[], [], rfl, by simp, by simp⟩
      | some c =>
        rw [hl] at h
        simp only at h
        split_ifs at h with hlt
        · cases h
          obtain ⟨before, after, rfl, hbefore, hafter⟩ := ih hl
          refine ⟨a :: before, after, rfl, fun y hy => ?_, hafter⟩
          rcases List.mem_cons.mp hy with rfl | hy
          · exact hlt
          · exact hbefore y hy
        · cases h
          have hle : f c ≤ f a := not_lt.mp hlt
          exact ⟨[], l, rfl, by simp, fun y hy => (List.le_of_mem_argmax hy hl).trans hle⟩
  · rintro ⟨before, after, rfl, hbefore, hafter⟩
    induction before with
    | nil =>
      rw [List.nil_append, List.argmax_cons]
      cases hl : after.argmax f with
      | none => rfl
      | some c => simp only [if_neg (not_lt.mpr (hafter c (List.argmax_mem hl)))]
    | cons a before ih =>
      have hrest := ih fun y hy => hbefore y (List.mem_cons_of_mem _ hy)
      rw [List.cons_append, List.argmax_cons, hrest]
      simp only [if_pos (hbefore a List.mem_cons_self)]

/-- Two elements of a list are one occurrence, or one stands before the other. -/
theorem split_cases {x : α} {b₁ a₁ b₂ a₂ : List α} (h : b₁ ++ m :: a₁ = b₂ ++ x :: a₂) :
    (b₁ = b₂ ∧ m = x ∧ a₁ = a₂) ∨ m ∈ b₂ ∨ x ∈ b₁ := by
  rcases List.append_eq_append_iff.mp h with ⟨c, rfl, hc⟩ | ⟨c, rfl, hc⟩
  · cases c with
    | nil =>
      obtain ⟨rfl, rfl⟩ := List.cons.inj hc
      exact .inl ⟨(List.append_nil _).symm, rfl, rfl⟩
    | cons y c =>
      obtain ⟨rfl, -⟩ := List.cons.inj hc
      exact .inr (.inl (List.mem_append_right _ List.mem_cons_self))
  · cases c with
    | nil =>
      obtain ⟨rfl, rfl⟩ := List.cons.inj hc
      exact .inl ⟨List.append_nil _, rfl, rfl⟩
    | cons y c =>
      obtain ⟨rfl, -⟩ := List.cons.inj hc
      exact .inr (.inr (List.mem_append_right _ List.mem_cons_self))

/-- **Raised ranks.** Where some elements are raised to the top from right below it, the first of
the best is the same exactly when each raised element stands behind one of the top rank, or nothing
is at the top without being raised and only lower elements stand before it. -/
theorem argmax_raised_iff {rank right : α → ℕ} {top : ℕ} (hle : ∀ x, rank x ≤ top)
    (hraised : ∀ x, right x = rank x ∨ rank x = top ∧ right x + 1 = top)
    (hm : l.argmax rank = some m) :
    l.argmax right = some m ↔ ∀ before x after, l = before ++ x :: after → right x ≠ rank x →
      (∃ y ∈ before, rank y = top) ∨
        (∀ y ∈ l, right y ≠ top) ∧ ∀ y ∈ before, right y + 1 < top := by
  have hright : ∀ y, right y ≤ rank y := fun y => by
    rcases hraised y with h | h <;> omega
  obtain ⟨before, after, rfl, hbefore, hafter⟩ := argmax_eq_some_iff_split.mp hm
  have hnot : m ∉ before := fun hmem => lt_irrefl _ (hbefore m hmem)
  constructor
  · intro h
    obtain ⟨before', after', hsplit, hbefore', hafter'⟩ := argmax_eq_some_iff_split.mp h
    have hnot' : m ∉ before' := fun hmem => lt_irrefl _ (hbefore' m hmem)
    obtain ⟨rfl, rfl⟩ : before = before' ∧ after = after' := by
      rcases split_cases hsplit with ⟨hb, -, ha⟩ | hmem | hmem
      · exact ⟨hb, ha⟩
      · exact absurd hmem hnot'
      · exact absurd hmem hnot
    intro before₂ x after₂ hx hne
    obtain ⟨hxtop, hlow⟩ := (hraised x).resolve_left hne
    rcases split_cases hx with ⟨rfl, rfl, -⟩ | hmem | hmem
    · -- the raised element is the first of the best
      refine .inr ⟨fun y hy => ?_, fun y hy => ?_⟩
      · rcases List.mem_append.mp hy with hy | hy
        · have := hbefore' y hy
          omega
        · rcases List.mem_cons.mp hy with rfl | hy
          · omega
          · have := hafter' y hy
            omega
      · have := hbefore' y hy
        omega
    · -- the first of the best stands before it
      refine .inl ⟨m, hmem, ?_⟩
      have hxmem : x ∈ before ++ m :: after := hx ▸ List.mem_append_right _ List.mem_cons_self
      have hxle := List.le_of_mem_argmax hxmem hm
      have := hle m
      omega
    · have := hbefore x hmem
      have := hle m
      omega
  · intro h
    refine argmax_eq_some_iff_split.mpr ⟨before, after, rfl, fun y hy => ?_, fun y hy => ?_⟩
    · rcases hraised m with hsame | ⟨hmtop, hlow⟩
      · have := hbefore y hy
        have := hright y
        omega
      · rcases h before m after rfl (by omega) with ⟨z, hz, hztop⟩ | ⟨-, hlower⟩
        · have := hbefore z hz
          omega
        · have := hlower y hy
          omega
    · rcases hraised m with hsame | ⟨hmtop, hlow⟩
      · have := hafter y hy
        have := hright y
        omega
      · rcases h before m after rfl (by omega) with ⟨z, hz, hztop⟩ | ⟨hnone, -⟩
        · have := hbefore z hz
          omega
        · have := hnone y (by simp [hy])
          have := hright y
          have := hle y
          omega

end JobPing
