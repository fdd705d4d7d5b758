import JobPing.Services

/-!
# Location authority

`app/services/location_reconciliation.py`: which of two observations of a posting's location is
kept, and under whose name.
-/

namespace JobPing

variable (S : Services)

/-- The `_SOURCE_TIERS` table. -/
def sourceTier (name : Str) : Option ℕ :=
  if name ∈ ["applyguy_internships".toList, "applyguy_new_grad".toList] then some 1
  else if name = "simplify_github".toList then some 2
  else if name ∈ ["amazon_jobs".toList, "greenhouse".toList, "lever".toList,
      "meta_careers".toList, "workday".toList] then some 3
  else none

/-- Whether a location conveys information beyond the ingestion fallback. -/
def isMeaningfulLocation (value : Option Str) : Bool :=
  match value with
  | none => false
  | some value =>
    let normalized := S.text.casefold (S.text.squeeze (S.text.nfkc value))
    normalized ≠ [] &&
      normalized ∉ ["unspecified".toList, "unknown".toList, "n/a".toList]

/-- `_source_name`. -/
def sourceName (source : Option Str) : Option Str :=
  match source with
  | none => none
  | some source =>
    let normalized := S.text.casefold (S.text.squeeze source)
    if normalized = [] then none else some normalized

/-- Compare provenance without assuming unrecognized sources are strong. -/
def sourceWins (candidate current : Option Str) : Bool :=
  match sourceName S candidate, sourceName S current with
  | none, currentName => currentName.isNone
  | some candidateName, none => (sourceTier candidateName).isSome
  | some candidateName, some currentName =>
    if candidateName = currentName then true
    else
      let candidateTier := (sourceTier candidateName).getD 0
      let currentTier := (sourceTier currentName).getD 0
      if candidateTier ≠ currentTier then candidateTier > currentTier
      else if candidateTier = 0 then false
      else candidateName < currentName

/-- A source can always correct its own observation. -/
theorem sourceWins_self (source : Option Str) : sourceWins S source source = true := by
  unfold sourceWins
  cases sourceName S source <;> simp

/-- `existing_location or incoming_location`. -/
def locationOr (existingLocation : Option Str) (incomingLocation : Str) : Str :=
  match existingLocation with
  | some (c :: rest) => c :: rest
  | _ => incomingLocation

/-- The effective location and its source. -/
def effectiveLocation (job : NormalizedJob) (existingLocation existingSource : Option Str) :
    Str × Option Str :=
  let incomingLocation := job.location
  let incomingSource := sourceName S job.locationSource
  if !isMeaningfulLocation S (some incomingLocation) then
    (locationOr existingLocation incomingLocation, existingSource)
  else if !isMeaningfulLocation S existingLocation then (incomingLocation, incomingSource)
  else if sourceWins S incomingSource existingSource then (incomingLocation, incomingSource)
  else (locationOr existingLocation incomingLocation, existingSource)

/-- Choose the effective location and source before computing content state. -/
def reconcileLocation (job : NormalizedJob) (existingLocation existingSource : Option Str) :
    NormalizedJob :=
  let effective := effectiveLocation S job existingLocation existingSource
  { job with
    location := effective.1
    locationSource := effective.2
    contentHash :=
      if effective.1 ≠ job.location then
        S.generateContentHash job.baseHash job.applyUrl effective.1 job.isClosed
      else job.contentHash }

/-- Whether the incoming location replaces the existing one. -/
def locationReplaced (job : NormalizedJob) (existingLocation existingSource : Option Str) :
    Bool :=
  isMeaningfulLocation S (some job.location) &&
    (!isMeaningfulLocation S existingLocation ||
      sourceWins S (sourceName S job.locationSource) existingSource)

variable {S}

theorem effectiveLocation_of_replaced {job : NormalizedJob} {location source : Option Str}
    (h : locationReplaced S job location source = true) :
    effectiveLocation S job location source = (job.location, sourceName S job.locationSource) := by
  simp only [locationReplaced, Bool.and_eq_true, Bool.or_eq_true, Bool.not_eq_true'] at h
  obtain ⟨hj, he | hw⟩ := h
  · simp [effectiveLocation, hj, he]
  · simp [effectiveLocation, hj, hw]

theorem effectiveLocation_of_kept {job : NormalizedJob} {location source : Option Str}
    (h : locationReplaced S job location source = false) :
    effectiveLocation S job location source = (locationOr location job.location, source) := by
  by_cases hj : isMeaningfulLocation S (some job.location)
  · simp only [locationReplaced, hj, Bool.true_and, Bool.or_eq_false_iff, Bool.not_eq_false'] at h
    simp [effectiveLocation, hj, h]
  · simp [effectiveLocation, hj]

@[simp] theorem isMeaningfulLocation_nil : isMeaningfulLocation S (some []) = false := by
  simp [isMeaningfulLocation, S.text.nfkc_nil, S.text.casefold_nil]

theorem locationOr_some {l : Str} (h : l ≠ []) (m : Str) : locationOr (some l) m = l := by
  cases l with
  | nil => exact absurd rfl h
  | cons c l => rfl

theorem locationOr_again (location : Option Str) (m : Str) :
    locationOr (some (locationOr location m)) m = locationOr location m := by
  rcases location with _ | _ | ⟨c, l⟩ <;> cases m <;> rfl

/-- **Observing the same location again** changes nothing. -/
theorem effectiveLocation_again (job : NormalizedJob) (location source : Option Str) :
    effectiveLocation S job (some (effectiveLocation S job location source).1)
        (effectiveLocation S job location source).2 =
      effectiveLocation S job location source := by
  by_cases h : locationReplaced S job location source
  · -- the observation won, and it wins against itself
    rw [effectiveLocation_of_replaced h]
    apply effectiveLocation_of_replaced
    have hj : isMeaningfulLocation S (some job.location) = true := by
      simp only [locationReplaced, Bool.and_eq_true] at h
      exact h.1
    simp [locationReplaced, hj, sourceWins_self]
  · rw [Bool.not_eq_true] at h
    rw [effectiveLocation_of_kept h]
    by_cases hj : isMeaningfulLocation S (some job.location)
    · -- a meaningful observation that lost, lost to a meaningful location
      have hm : isMeaningfulLocation S location = true := by
        by_contra hm
        simp [locationReplaced, hj, hm] at h
      obtain ⟨l, rfl⟩ : ∃ l, location = some l := by
        cases location with
        | none => simp [isMeaningfulLocation] at hm
        | some l => exact ⟨l, rfl⟩
      have hl : l ≠ [] := by
        rintro rfl
        simp at hm
      rw [locationOr_some hl, effectiveLocation_of_kept h, locationOr_some hl]
    · have hk : ∀ location', locationReplaced S job location' source = false := fun location' => by
        simp [locationReplaced, hj]
      rw [effectiveLocation_of_kept (hk _), locationOr_again]

end JobPing
