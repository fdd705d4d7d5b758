import Mathlib.Algebra.BigOperators.Group.List.Basic
import Mathlib.Algebra.Order.BigOperators.Group.List
import Mathlib.Algebra.Order.Field.Basic
import Mathlib.Tactic.Linarith
import Mathlib.Tactic.Ring

/-!
# Token buckets

A bucket gains tokens at a rate, up to a capacity, and a grant takes some of them. `Accounts`
relates a bucket to the grants that were made from it: what was taken since any earlier time, with
what is left, is at most the capacity and what the time since has brought. So the grants of a window
are bounded by its length (`Accounts.within`), and a bucket that is filled up again, or made anew
when it would be full, accounts for the same grants.
-/

/-- The rate and the capacity of a bucket. -/
structure TokenLimit (K : Type*) [Zero K] [LinearOrder K] where
  rate : K
  capacity : K
  rate_pos : 0 < rate
  capacity_nonneg : 0 ≤ capacity

/-- The tokens of a bucket, as of a time. -/
@[ext] structure TokenBucket (K : Type*) where
  tokens : K
  updatedAt : K
  deriving DecidableEq

namespace TokenBucket

variable {K : Type*} [Field K] [LinearOrder K]

/-- A full bucket. -/
def full (limit : TokenLimit K) (now : K) : TokenBucket K := ⟨limit.capacity, now⟩

/-- The bucket at a later time. -/
def refill (limit : TokenLimit K) (now : K) (bucket : TokenBucket K) : TokenBucket K :=
  ⟨min limit.capacity (bucket.tokens + max 0 (now - bucket.updatedAt) * limit.rate), now⟩

/-- The bucket after a grant. -/
def take (amount : K) (bucket : TokenBucket K) : TokenBucket K :=
  { bucket with tokens := bucket.tokens - amount }

/-- What the grants, each with its time, took in a window. -/
def spent (grants : List (K × K)) (a b : K) : K :=
  ((grants.filter fun grant => a ≤ grant.1 ∧ grant.1 ≤ b).map Prod.snd).sum

/-- What the grants took since a time. -/
def spentSince (grants : List (K × K)) (a : K) : K :=
  ((grants.filter fun grant => a ≤ grant.1).map Prod.snd).sum

/-- No window has taken more than the capacity and what its time has brought. -/
def Within (limit : TokenLimit K) (grants : List (K × K)) : Prop :=
  ∀ a b, a ≤ b → spent grants a b ≤ limit.capacity + limit.rate * (b - a)

/-- **A bucket and the grants that were made from it.** -/
structure Accounts (limit : TokenLimit K) (bucket : TokenBucket K) (grants : List (K × K)) :
    Prop where
  nonneg : 0 ≤ bucket.tokens
  capped : bucket.tokens ≤ limit.capacity
  past : ∀ grant ∈ grants, grant.1 ≤ bucket.updatedAt
  positive : ∀ grant ∈ grants, 0 ≤ grant.2
  charged : ∀ a ≤ bucket.updatedAt, spentSince grants a + bucket.tokens ≤
    limit.capacity + limit.rate * (bucket.updatedAt - a)
  within : Within limit grants

variable {limit : TokenLimit K} {bucket : TokenBucket K} {grants : List (K × K)} {now a b : K}

/-! ## Sums -/

@[simp] theorem spent_nil (a b : K) : spent [] a b = 0 := rfl

@[simp] theorem spentSince_nil (a : K) : spentSince [] a = 0 := rfl

theorem spent_cons (grant : K × K) (grants : List (K × K)) (a b : K) :
    spent (grant :: grants) a b =
      (if a ≤ grant.1 ∧ grant.1 ≤ b then grant.2 else 0) + spent grants a b := by
  unfold spent
  rw [List.filter_cons]
  simp only [decide_eq_true_eq]
  split_ifs with h
  · rw [List.map_cons, List.sum_cons]
  · rw [zero_add]

theorem spentSince_cons (grant : K × K) (grants : List (K × K)) (a : K) :
    spentSince (grant :: grants) a =
      (if a ≤ grant.1 then grant.2 else 0) + spentSince grants a := by
  unfold spentSince
  rw [List.filter_cons]
  simp only [decide_eq_true_eq]
  split_ifs with h
  · rw [List.map_cons, List.sum_cons]
  · rw [zero_add]

theorem spentSince_eq_zero (h : ∀ grant ∈ grants, grant.1 < a) : spentSince grants a = 0 := by
  induction grants with
  | nil => rfl
  | cons grant grants ih =>
    rw [spentSince_cons, if_neg (h grant List.mem_cons_self).not_ge, zero_add]
    exact ih fun g hg => h g (List.mem_cons_of_mem _ hg)

/-- Grants of one token each are counted. -/
theorem spent_eq_countP (times : List K) (a b : K) :
    spent (times.map fun t => (t, 1)) a b = times.countP fun t => a ≤ t ∧ t ≤ b := by
  induction times with
  | nil => simp
  | cons t times ih =>
    rw [List.map_cons, spent_cons, ih, List.countP_cons]
    simp only [decide_eq_true_eq]
    split_ifs
    · push_cast
      ring
    · simp

theorem refill_tokens_le : (bucket.refill limit now).tokens ≤ limit.capacity := min_le_left _ _

variable [IsStrictOrderedRing K]

theorem spent_le_spentSince (h : ∀ grant ∈ grants, 0 ≤ grant.2) (a b : K) :
    spent grants a b ≤ spentSince grants a := by
  induction grants with
  | nil => exact le_rfl
  | cons grant grants ih =>
    have ih := ih fun g hg => h g (List.mem_cons_of_mem _ hg)
    have hgrant := h grant List.mem_cons_self
    rw [spent_cons, spentSince_cons]
    refine add_le_add ?_ ih
    split_ifs with hin hsince
    · exact le_rfl
    · exact absurd hin.1 hsince
    · exact hgrant
    · exact le_rfl

/-! ## Refilling -/

theorem refill_nonneg (h : 0 ≤ bucket.tokens) : 0 ≤ (bucket.refill limit now).tokens :=
  le_min limit.capacity_nonneg
    (add_nonneg h (mul_nonneg (le_max_left _ _) limit.rate_pos.le))

/-- After long enough a bucket is full. -/
theorem refill_eq_full (h : 0 ≤ bucket.tokens)
    (hlong : limit.capacity ≤ (now - bucket.updatedAt) * limit.rate) :
    bucket.refill limit now = full limit now := by
  have hwait : (now - bucket.updatedAt) * limit.rate ≤
      max 0 (now - bucket.updatedAt) * limit.rate :=
    mul_le_mul_of_nonneg_right (le_max_right _ _) limit.rate_pos.le
  ext
  · exact min_eq_left (by linarith)
  · rfl

/-- A bucket that waits for what it lacks has it. -/
theorem le_refill_tokens {amount : K} (hamount : amount ≤ limit.capacity)
    (hwait : amount ≤ bucket.tokens + (now - bucket.updatedAt) * limit.rate) :
    amount ≤ (bucket.refill limit now).tokens := by
  have hmax : (now - bucket.updatedAt) * limit.rate ≤
      max 0 (now - bucket.updatedAt) * limit.rate :=
    mul_le_mul_of_nonneg_right (le_max_right _ _) limit.rate_pos.le
  exact le_min hamount (by linarith)

/-! ## Accounts -/

theorem accounts_full (limit : TokenLimit K) (now : K) : Accounts limit (full limit now) [] where
  nonneg := limit.capacity_nonneg
  capped := le_rfl
  past _ h := by cases h
  positive _ h := by cases h
  charged a ha := by
    have hbrought : 0 ≤ limit.rate * (now - a) :=
      mul_nonneg limit.rate_pos.le (sub_nonneg.mpr ha)
    change 0 + limit.capacity ≤ limit.capacity + limit.rate * (now - a)
    linarith
  within a b hab := by
    have hbrought : 0 ≤ limit.rate * (b - a) :=
      mul_nonneg limit.rate_pos.le (sub_nonneg.mpr hab)
    rw [spent_nil]
    linarith [limit.capacity_nonneg]

/-- Time passes. -/
theorem Accounts.refill (h : Accounts limit bucket grants) (hnow : bucket.updatedAt ≤ now) :
    Accounts limit (bucket.refill limit now) grants where
  nonneg := refill_nonneg h.nonneg
  capped := refill_tokens_le
  past grant hgrant := (h.past grant hgrant).trans hnow
  positive := h.positive
  charged a ha := by
    change a ≤ now at ha
    change _ ≤ limit.capacity + limit.rate * (now - a)
    rcases le_or_gt a bucket.updatedAt with hbefore | hafter
    · have hcharged := h.charged a hbefore
      have htokens : (bucket.refill limit now).tokens ≤
          bucket.tokens + (now - bucket.updatedAt) * limit.rate := by
        refine (min_le_right _ _).trans_eq ?_
        rw [max_eq_right (sub_nonneg.mpr hnow)]
      linarith
    · have hnone : spentSince grants a = 0 :=
        spentSince_eq_zero fun grant hgrant => (h.past grant hgrant).trans_lt hafter
      have hbrought : 0 ≤ limit.rate * (now - a) :=
        mul_nonneg limit.rate_pos.le (sub_nonneg.mpr ha)
      have htokens : (bucket.refill limit now).tokens ≤ limit.capacity := refill_tokens_le
      linarith
  within := h.within

/-- **A grant** of tokens that are there. -/
theorem Accounts.take (h : Accounts limit bucket grants) {amount : K} (hamount : 0 ≤ amount)
    (hle : amount ≤ bucket.tokens) :
    Accounts limit (bucket.take amount) ((bucket.updatedAt, amount) :: grants) where
  nonneg := sub_nonneg.mpr hle
  capped := (sub_le_self _ hamount).trans h.capped
  past grant hgrant := by
    rcases List.mem_cons.mp hgrant with rfl | hgrant
    · exact le_rfl
    · exact h.past grant hgrant
  positive grant hgrant := by
    rcases List.mem_cons.mp hgrant with rfl | hgrant
    · exact hamount
    · exact h.positive grant hgrant
  charged a ha := by
    have hcharged := h.charged a ha
    rw [spentSince_cons, if_pos (show a ≤ bucket.updatedAt from ha)]
    change amount + spentSince grants a + (bucket.tokens - amount) ≤
      limit.capacity + limit.rate * (bucket.updatedAt - a)
    linarith
  within a b hab := by
    rw [spent_cons]
    split_ifs with hin
    · -- the window has the present in it: all it has taken was taken by now
      obtain ⟨ha, hb⟩ := hin
      have hcharged := h.charged a ha
      have hsince := spent_le_spentSince h.positive a b
      have hlater : limit.rate * (bucket.updatedAt - a) ≤ limit.rate * (b - a) :=
        mul_le_mul_of_nonneg_left (sub_le_sub_right hb a) limit.rate_pos.le
      linarith
    · rw [zero_add]
      exact h.within a b hab

/-- A new bucket in the place of one that would be full. -/
theorem Accounts.renew (h : Accounts limit bucket grants) (hnow : bucket.updatedAt ≤ now)
    (hfull : limit.capacity ≤ (bucket.refill limit now).tokens) :
    Accounts limit (full limit now) grants := by
  have heq : bucket.refill limit now = full limit now := by
    ext
    · exact refill_tokens_le.antisymm hfull
    · rfl
  rw [← heq]
  exact h.refill hnow

end TokenBucket
