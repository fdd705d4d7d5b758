import JobPing.DocumentReconciliation
import JobPing.PageExtraction

/-!
# Conflicts of pay

`reconcile` compares the bounds of two ranges as they are written: `50` and `50.00` are a conflict.
Within a document the ranges with equal amounts are one, so this needs two documents
(`numeric_conflicts`).
-/

namespace JobPing

variable {left right : Pay} {ranges : List Pay} {documents : List (Document × Facts)}

/-- The ranges of the documents that `reconcile` reads. -/
def statedPay (documents : List (Document × Facts)) : List Pay :=
  (current documents).flatMap (·.2.compensation)

/-- Equal currency, interval, component and location. -/
def Pay.sameScope (left right : Pay) : Bool :=
  left.currency = right.currency && left.interval = right.interval &&
    left.component = right.component && left.location = right.location

/-- The bounds as numbers. -/
def Pay.amounts (pay : Pay) : Option ℚ × Option ℚ :=
  (pay.minimum.map Decimal.value, pay.maximum.map Decimal.value)

/-- Two ranges of one scope with different numbers. -/
def numericConflict (ranges : List Pay) : Prop :=
  ∃ left ∈ ranges, ∃ right ∈ ranges, left.sameScope right ∧ left.amounts ≠ right.amounts

/-- Two ranges of one scope with the same numbers, which are written differently. -/
def respelled (ranges : List Pay) : Prop :=
  ∃ left ∈ ranges, ∃ right ∈ ranges, left.sameScope right ∧ left.amounts = right.amounts ∧
    (left.minimum, left.maximum) ≠ (right.minimum, right.maximum)

instance : Decidable (numericConflict ranges) := by
  unfold numericConflict
  infer_instance

theorem Pay.contradicts_eq (left right : Pay) : left.contradicts right =
    (left.sameScope right && (left.minimum, left.maximum) ≠ (right.minimum, right.maximum)) := rfl

theorem Pay.sameScope_comm (left right : Pay) : left.sameScope right = right.sameScope left := by
  unfold Pay.sameScope
  simp only [eq_comm]

theorem Pay.contradicts_comm (left right : Pay) : left.contradicts right = right.contradicts left := by
  rw [Pay.contradicts_eq, Pay.contradicts_eq, Pay.sameScope_comm]
  simp only [ne_comm]

theorem Pay.not_contradicts_self (pay : Pay) : pay.contradicts pay = false := by
  rw [Pay.contradicts_eq]
  simp

/-- The pairs of the loop are those of two ranges of the list. -/
theorem payConflict_iff : payConflict ranges = true ↔
    ∃ left ∈ ranges, ∃ right ∈ ranges, left.contradicts right = true := by
  induction ranges with
  | nil => simp [payConflict]
  | cons pay ranges ih =>
    rw [payConflict, Bool.or_eq_true, List.any_eq_true, ih]
    constructor
    · rintro (⟨right, hright, h⟩ | ⟨left, hleft, right, hright, h⟩)
      · exact ⟨pay, List.mem_cons_self, right, List.mem_cons_of_mem _ hright, h⟩
      · exact ⟨left, List.mem_cons_of_mem _ hleft, right, List.mem_cons_of_mem _ hright, h⟩
    · rintro ⟨left, hleft, right, hright, h⟩
      rcases List.mem_cons.mp hleft with rfl | hleft' <;>
        rcases List.mem_cons.mp hright with rfl | hright'
      · rw [Pay.not_contradicts_self] at h
        cases h
      · exact .inl ⟨right, hright', h⟩
      · rw [Pay.contradicts_comm] at h
        exact .inl ⟨left, hleft', h⟩
      · exact .inr ⟨left, hleft', right, hright', h⟩

theorem merged_compensation (documents : List (Document × Facts)) :
    ((documents.map (·.2)).foldl mergeFacts .empty).compensation =
      documents.flatMap (·.2.compensation) := by
  induction documents using List.reverseRecOn with
  | nil => rfl
  | append_singleton documents pair ih =>
    rw [List.map_append, List.foldl_append, List.flatMap_append, ← ih]
    simp [mergeFacts]

/-- The flag compares all ranges of the current documents. -/
theorem payConflicting_iff : (reconcile documents).payConflicting = true ↔
    ∃ left ∈ statedPay documents, ∃ right ∈ statedPay documents,
      left.contradicts right = true := by
  have hmem : ∀ pay, pay ∈ statedPay (byUrl documents) ↔ pay ∈ statedPay documents := fun pay =>
    ((perm_current_byUrl documents).flatMap_right _).mem_iff
  have hflag : (reconcile documents).payConflicting =
      payConflict (((current (byUrl documents)).map (·.2)).foldl mergeFacts .empty).compensation :=
    rfl
  rw [hflag, merged_compensation, payConflict_iff]
  exact ⟨fun ⟨left, hleft, right, hright, h⟩ =>
      ⟨left, (hmem left).mp hleft, right, (hmem right).mp hright, h⟩,
    fun ⟨left, hleft, right, hright, h⟩ =>
      ⟨left, (hmem left).mpr hleft, right, (hmem right).mpr hright, h⟩⟩

/-- Bounds that differ as numbers are written differently. -/
theorem contradicts_of_amounts (hscope : left.sameScope right = true)
    (h : left.amounts ≠ right.amounts) : left.contradicts right = true := by
  rw [Pay.contradicts_eq, hscope, Bool.true_and, decide_eq_true_iff]
  intro heq
  obtain ⟨hmin, hmax⟩ := Prod.ext_iff.mp heq
  exact h (Prod.ext (congrArg (Option.map Decimal.value) hmin)
    (congrArg (Option.map Decimal.value) hmax))

/-- **Conflicts of pay are numeric** exactly where no two ranges of a scope write the same numbers
differently, or some two of a scope have different numbers as well. -/
theorem numeric_conflicts (documents : List (Document × Facts)) :
    ((reconcile documents).payConflicting = true ↔ numericConflict (statedPay documents)) ↔
      ¬respelled (statedPay documents) ∨ numericConflict (statedPay documents) := by
  have hflag : (reconcile documents).payConflicting = true ↔
      numericConflict (statedPay documents) ∨ respelled (statedPay documents) := by
    rw [payConflicting_iff]
    constructor
    · rintro ⟨left, hleft, right, hright, h⟩
      rw [Pay.contradicts_eq, Bool.and_eq_true, decide_eq_true_iff] at h
      by_cases hamounts : left.amounts = right.amounts
      · exact .inr ⟨left, hleft, right, hright, h.1, hamounts, h.2⟩
      · exact .inl ⟨left, hleft, right, hright, h.1, hamounts⟩
    · rintro (⟨left, hleft, right, hright, hscope, h⟩ | ⟨left, hleft, right, hright, hscope, -, h⟩)
      · exact ⟨left, hleft, right, hright, contradicts_of_amounts hscope h⟩
      · refine ⟨left, hleft, right, hright, ?_⟩
        rw [Pay.contradicts_eq, hscope, Bool.true_and, decide_eq_true_iff]
        exact h
  rw [hflag]
  tauto

/-- The posting and the application form of a role, which write one hourly rate differently. -/
def hourlyPages : List Page :=
  [austinPage "https://acme.example/jobs/1" "The base is US$50/hour." posting_url_le,
    austinPage "https://acme.example/jobs/1/apply" "The base is US$50.00/hour." (by decide)]

/-- The documents of pages, with their facts. -/
def extractedPages (L : Libraries) (pages : List Page) : List (Document × Facts) :=
  pages.map fun page => (page.document L [], ((page.extract L).toOption.map (·.1)).getD .empty)

theorem one_rate_conflicts :
    (∀ page ∈ hourlyPages, page.complete = true ∧ (page.extract .ascii).isOk = true) ∧
      ¬((reconcile (extractedPages .ascii hourlyPages)).payConflicting = true ↔
        numericConflict (statedPay (extractedPages .ascii hourlyPages))) := by
  have hnumeric : ¬numericConflict (statedPay (extractedPages .ascii hourlyPages)) := by
    decide +kernel
  have hflag : (reconcile (extractedPages .ascii hourlyPages)).payConflicting = true := by
    decide +kernel
  refine ⟨by decide +kernel, fun h => hnumeric (h.mp hflag)⟩

end JobPing
