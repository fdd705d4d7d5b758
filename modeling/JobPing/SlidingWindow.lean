import Mathlib.Algebra.Order.Group.Defs
import Mathlib.Data.List.Perm.Basic

/-!
# Sliding windows

A quota over a window that slides with time: a charge is made while fewer than the quota have been made
since the beginning of the window that ends with it. The charges need not be made in the order of their
times: the last one made of those in a window has counted all the others.
-/

namespace SlidingWindow

variable {T : Type*} [AddCommGroup T] [LinearOrder T]

/-- The number of charges in the window that ends at `t`. -/
def count (length : T) (charges : List T) (t : T) : ℕ :=
  charges.countP fun s => t - length ≤ s && s ≤ t

/-- The number of charges since the beginning of the window that ends at `now`. -/
def used (length : T) (charges : List T) (now : T) : ℕ :=
  charges.countP fun s => now - length ≤ s

/-- No window has more charges than the quota. -/
def Within (quota : ℕ) (length : T) (charges : List T) : Prop := ∀ t, count length charges t ≤ quota

variable {quota : ℕ} {length now t : T} {charges charges' : List T}

theorem within_nil : Within quota length ([] : List T) := fun _ => Nat.zero_le _

theorem Within.perm (h : Within quota length charges) (hperm : charges.Perm charges') :
    Within quota length charges' := fun t => by
  rw [count, ← hperm.countP_eq]
  exact h t

variable [IsOrderedAddMonoid T]

/-- The charges of a window that has the present one in it are counted by it. -/
theorem count_le_used (h : now ≤ t) : count length charges t ≤ used length charges now := by
  refine List.countP_mono_left fun s _ hs => ?_
  simp only [Bool.and_eq_true, decide_eq_true_eq] at hs ⊢
  exact (sub_le_sub_right h length).trans hs.1

/-- **A charge within the quota** keeps all windows within it. -/
theorem Within.cons (h : Within quota length charges) (hroom : used length charges now < quota) :
    Within quota length (now :: charges) := by
  intro t
  rw [count, List.countP_cons]
  split_ifs with hin
  · simp only [Bool.and_eq_true, decide_eq_true_eq] at hin
    exact Nat.succ_le_of_lt ((count_le_used hin.2).trans_lt hroom)
  · exact h t

/-! ## Paced times

A quota over windows that do not have their beginnings, for times that come in their order: those
that no later window has are dropped from the front.
-/

/-- The times that a window ending at `now` or later can have. -/
def recent (length now : T) (times : List T) : List T := times.dropWhile (· ≤ now - length)

/-- No window has more times than the quota. -/
def Paced (quota : ℕ) (length : T) (times : List T) : Prop :=
  ∀ t, (times.filter fun s => t - length < s && s ≤ t).length ≤ quota

variable {times : List T}

omit [IsOrderedAddMonoid T] in
theorem recent_eq (hsorted : times.Pairwise (· ≤ ·)) :
    recent length now times = times.filter (now - length < ·) := by
  induction times with
  | nil => rfl
  | cons s times ih =>
    rw [List.pairwise_cons] at hsorted
    rw [recent, List.dropWhile_cons]
    split_ifs with hold
    · have hdrop : ¬now - length < s := not_lt.mpr (of_decide_eq_true hold)
      rw [List.filter_cons_of_neg (by simpa using hdrop)]
      exact ih hsorted.2
    · have hkeep : now - length < s := by simpa using hold
      rw [List.filter_eq_self.mpr]
      intro u hu
      rcases List.mem_cons.mp hu with rfl | hu
      · exact decide_eq_true hkeep
      · exact decide_eq_true (hkeep.trans_le (hsorted.1 u hu))

/-- What was dropped before would be dropped now. -/
theorem filter_recent {earlier : T} (h : earlier ≤ now) :
    (times.filter (earlier - length < ·)).filter (now - length < ·) =
      times.filter (now - length < ·) := by
  rw [List.filter_filter]
  refine List.filter_congr fun s _ => ?_
  by_cases hs : now - length < s
  · simp [hs, (sub_le_sub_right h length).trans_lt hs]
  · simp [hs]

/-- **One more time** is within the quota if and only if the times before it leave room. -/
theorem paced_concat (hlength : 0 < length) (hlast : ∀ s ∈ times, s ≤ now) :
    Paced quota length (times ++ [now]) ↔
      Paced quota length times ∧ (times.filter (now - length < ·)).length < quota := by
  have hnow : (times.filter fun s => now - length < s && s ≤ now) =
      times.filter (now - length < ·) :=
    List.filter_congr fun s hs => by simp [hlast s hs]
  constructor
  · refine fun h => ⟨fun t => (List.Sublist.length_le ?_).trans (h t), ?_⟩
    · exact (List.sublist_append_left times [now]).filter _
    · have hfull := h now
      rw [List.filter_append, List.length_append, hnow] at hfull
      have hself : ([now].filter fun s => now - length < s && s ≤ now) = [now] := by
        simp [hlength]
      rw [hself] at hfull
      exact hfull
  · rintro ⟨h, hroom⟩ t
    rw [List.filter_append, List.length_append]
    by_cases hin : (t - length < now && now ≤ t) = true
    · -- the window has `now`, so its other times are recent
      rw [Bool.and_eq_true, decide_eq_true_eq, decide_eq_true_eq] at hin
      have hless : (times.filter fun s => t - length < s && s ≤ t).length ≤
          (times.filter (now - length < ·)).length := by
        refine (List.monotone_filter_right times fun s hs => ?_).length_le
        simp only [Bool.and_eq_true, decide_eq_true_eq] at hs ⊢
        exact (sub_le_sub_right hin.2 length).trans_lt hs.1
      have hone := List.length_filter_le (fun s => t - length < s && s ≤ t) [now]
      rw [List.length_singleton] at hone
      omega
    · have hnone : ([now].filter fun s => t - length < s && s ≤ t) = [] :=
        List.filter_eq_nil_iff.mpr fun s hs => List.mem_singleton.mp hs ▸ hin
      rw [hnone, List.length_nil, Nat.add_zero]
      exact h t

end SlidingWindow
