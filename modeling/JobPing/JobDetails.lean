import JobPing.Schema

/-!
# Reconciliation of advertised job facts

`merge_details` of `app/services/job_details.py`. Each policy of the incoming details is merged
into the stored ones by the rank of its sources, then by the time it was observed. Python's `max`
raises on an empty sequence, so two facts of equal rank without evidence cannot be merged: this is
the only way the function fails (`mergeDetails_eq_none_iff`).
-/

namespace JobPing

/-- The `ranks` table, with its default. -/
def sourceRank (source : Str) : ℕ :=
  if source ∈ ["greenhouse".toList, "lever".toList, "workday".toList, "meta".toList,
      "amazon".toList] then 3
  else if source ∈ ["github_markdown".toList, "simplify".toList] then 2
  else 1

theorem sourceRank_pos (source : Str) : 0 < sourceRank source := by
  unfold sourceRank
  split_ifs <;> decide

/-- `max((ranks.get(item.source, 1) for item in evidence), default=0)`. -/
def evidenceRank (evidence : List Evidence) : ℕ :=
  (evidence.map fun item => sourceRank item.source).foldr max 0

theorem evidenceRank_eq_zero {evidence : List Evidence} :
    evidenceRank evidence = 0 ↔ evidence = [] := by
  cases evidence with
  | nil => simp [evidenceRank]
  | cons e es =>
    have := sourceRank_pos e.source
    simp [evidenceRank]
    omega

/-- `rank(fact)`. -/
def PolicyFact.rank (fact : PolicyFact) : ℕ := evidenceRank fact.evidence

/-- `max(item.observed_at for item in evidence)`, which raises when there is none. -/
def newestObservation (evidence : List Evidence) : Option Time :=
  (evidence.map Evidence.observedAt).max?

/-- `{item.source for item in a} == {item.source for item in b}`. -/
def sameSources (a b : List Evidence) : Bool :=
  a.all (fun x => b.any fun y => x.source = y.source) &&
    b.all (fun y => a.any fun x => x.source = y.source)

/-- `PolicyFact(value="conflicting", evidence=(before.evidence + fact.evidence)[-10:])`. -/
def PolicyFact.conflict (before fact : PolicyFact) (h : fact.evidence ≠ []) : PolicyFact where
  value := .conflicting
  evidence := (before.evidence ++ fact.evidence).drop
    ((before.evidence ++ fact.evidence).length - 10)
  bounded := by
    rw [List.length_drop]
    omega
  supported_value _ := by
    have : 0 < fact.evidence.length := List.length_pos_iff.mpr h
    rw [← List.length_pos_iff, List.length_drop, List.length_append]
    omega

/-- The branch of the loop for facts of equal rank; `none` when `max` raises. -/
def mergeEqualRank (before fact : PolicyFact) : Option PolicyFact :=
  if h : fact.evidence = [] then none
  else (newestObservation fact.evidence).bind fun newest =>
    (newestObservation before.evidence).map fun oldest =>
      if newest < oldest then before
      else if sameSources before.evidence fact.evidence || before.value = fact.value then fact
      else before.conflict fact h

/-- One round of the loop over the incoming policies; `none` when `max` raises. -/
def mergeFact (before : Option PolicyFact) (fact : PolicyFact) : Option PolicyFact :=
  match before with
  | none => some fact
  | some before =>
    if before.rank < fact.rank then some fact
    else if fact.rank = before.rank then mergeEqualRank before fact
    else some before

theorem newestObservation_isSome {evidence : List Evidence} (h : evidence ≠ []) :
    ∃ t, newestObservation evidence = some t := by
  cases evidence with
  | nil => exact absurd rfl h
  | cons e es => exact ⟨_, rfl⟩

theorem mergeEqualRank_eq_none_iff {before fact : PolicyFact} :
    mergeEqualRank before fact = none ↔ fact.evidence = [] ∨ before.evidence = [] := by
  unfold mergeEqualRank
  by_cases hf : fact.evidence = []
  · simp [hf]
  obtain ⟨t, ht⟩ := newestObservation_isSome hf
  by_cases hb : before.evidence = []
  · simp [hf, hb, newestObservation]
  · obtain ⟨u, hu⟩ := newestObservation_isSome hb
    simp [hf, hb, ht, hu]

/-- A fact cannot be merged exactly when both it and the stored one come without evidence. -/
theorem mergeFact_eq_none_iff {before : Option PolicyFact} {fact : PolicyFact} :
    mergeFact before fact = none ↔
      fact.evidence = [] ∧ ∃ b, before = some b ∧ b.evidence = [] := by
  rcases before with _ | b
  · simp [mergeFact]
  have hf : fact.rank = 0 ↔ fact.evidence = [] := evidenceRank_eq_zero
  have hb : b.rank = 0 ↔ b.evidence = [] := evidenceRank_eq_zero
  simp only [mergeFact, Option.some.injEq, exists_eq_left']
  split_ifs with h₁ h₂
  · have : fact.evidence ≠ [] := fun h => by have := hf.mpr h; omega
    simp [this]
  · rw [mergeEqualRank_eq_none_iff, ← hf, ← hb]
    omega
  · rw [← hf, ← hb]
    simp only [false_iff]
    omega

/-- The choice of compensation: the incoming ranges replace the stored ones unless these come
from a better source or were observed later. -/
def mergeCompensation (pay incoming : List CompensationRange) : List CompensationRange :=
  let evidence (ranges : List CompensationRange) := ranges.map (·.toEvidence)
  if incoming ≠ [] ∧ evidenceRank (evidence pay) ≤ evidenceRank (evidence incoming) ∧
      (pay = [] ∨
        (newestObservation (evidence pay)).getD 0 ≤ (newestObservation (evidence incoming)).getD 0)
  then incoming else pay

theorem mergeCompensation_bounded {pay incoming : List CompensationRange}
    (hp : pay.length ≤ 20) (hi : incoming.length ≤ 20) :
    (mergeCompensation pay incoming).length ≤ 20 := by
  simp only [mergeCompensation]
  split_ifs <;> assumption

/-- The policies after the loop. -/
def mergePolicies (old incoming : PolicyKind → Option PolicyFact) (key : PolicyKind) :
    Option PolicyFact :=
  match incoming key with
  | none => old key
  | some fact => mergeFact (old key) fact

/-- Whether some round of the loop raises. -/
def mergeRaises (old incoming : PolicyKind → Option PolicyFact) : Prop :=
  ∃ key fact, incoming key = some fact ∧ mergeFact (old key) fact = none

instance (old incoming : PolicyKind → Option PolicyFact) : Decidable (mergeRaises old incoming) :=
  decidable_of_iff (∃ key, (incoming key).any fun fact => (mergeFact (old key) fact).isNone) <| by
    simp [mergeRaises, Option.any_eq_true]

/-- **`merge_details`**; the outer `none` is the `ValueError` of `max` on an empty sequence. -/
def mergeDetails (previous incoming : Option JobDetails) : Option (Option JobDetails) :=
  match incoming with
  | none => some previous
  | some incoming =>
    let old := previous.getD JobDetails.empty
    if mergeRaises old.policies incoming.policies then none
    else some (some {
      policies := mergePolicies old.policies incoming.policies
      compensation := mergeCompensation old.compensation incoming.compensation
      bounded := mergeCompensation_bounded old.bounded incoming.bounded })

/-- The policy a details column states for a key. -/
def statedPolicy (details : Option JobDetails) (key : PolicyKind) : Option PolicyFact :=
  details.bind fun d => d.policies key

theorem policies_getD (details : Option JobDetails) (key : PolicyKind) :
    (details.getD JobDetails.empty).policies key = statedPolicy details key := by
  cases details <;> rfl

/-- **`merge_details` raises exactly when** an incoming policy without evidence meets a stored
policy without evidence. -/
theorem mergeDetails_eq_none_iff {previous incoming : Option JobDetails} :
    mergeDetails previous incoming = none ↔
      ∃ key fact before, statedPolicy incoming key = some fact ∧ fact.evidence = [] ∧
        statedPolicy previous key = some before ∧ before.evidence = [] := by
  rcases incoming with _ | incoming
  · simp [mergeDetails, statedPolicy]
  · simp only [mergeDetails, ite_eq_left_iff, reduceCtorEq, imp_false, not_not, mergeRaises,
      mergeFact_eq_none_iff, policies_getD]
    constructor
    · rintro ⟨key, fact, hk, hf, before, hb, hbe⟩
      exact ⟨key, fact, before, hk, hf, hb, hbe⟩
    · rintro ⟨key, fact, before, hk, hf, hb, hbe⟩
      exact ⟨key, fact, hk, hf, before, hb, hbe⟩

/-- What a successful merge states for a key. -/
theorem statedPolicy_merge {previous incoming merged : Option JobDetails}
    (h : mergeDetails previous incoming = some merged) (key : PolicyKind) :
    statedPolicy merged key = match statedPolicy incoming key with
      | none => statedPolicy previous key
      | some fact => mergeFact (statedPolicy previous key) fact := by
  rcases incoming with _ | incoming
  · simp only [mergeDetails, Option.some.injEq] at h
    simp [h, statedPolicy]
  · simp only [mergeDetails] at h
    split_ifs at h
    cases h
    simp only [statedPolicy, Option.bind_some, mergePolicies, policies_getD]

/-- **Merging the same details again** raises exactly when one of their policies has no evidence
and was not stated before the first merge. -/
theorem mergeDetails_again {previous incoming merged : Option JobDetails}
    (h : mergeDetails previous incoming = some merged) :
    mergeDetails merged incoming = none ↔
      ∃ key fact, statedPolicy incoming key = some fact ∧ fact.evidence = [] ∧
        statedPolicy previous key = none := by
  have hok : ∀ key fact, statedPolicy incoming key = some fact → fact.evidence = [] →
      ∀ b, statedPolicy previous key = some b → b.evidence ≠ [] := by
    intro key fact hk hf b hb hbe
    have := mergeDetails_eq_none_iff.mpr ⟨key, fact, b, hk, hf, hb, hbe⟩
    rw [h] at this
    cases this
  rw [mergeDetails_eq_none_iff]
  constructor
  · rintro ⟨key, fact, before, hk, hf, hm, hbe⟩
    refine ⟨key, fact, hk, hf, ?_⟩
    rw [statedPolicy_merge h, hk] at hm
    cases hp : statedPolicy previous key with
    | none => rfl
    | some b =>
      -- a stored policy with evidence outranks one without, so the merge kept it
      have hb := hok key fact hk hf b hp
      have hrank : fact.rank = 0 := evidenceRank_eq_zero.mpr hf
      have hrank' : b.rank ≠ 0 := fun h => hb (evidenceRank_eq_zero.mp h)
      rw [hp] at hm
      simp only [mergeFact, hrank, Nat.not_lt_zero, if_false, Ne.symm hrank', Option.some.injEq]
        at hm
      exact absurd (hm ▸ hbe) hb
  · rintro ⟨key, fact, hk, hf, hp⟩
    refine ⟨key, fact, fact, hk, hf, ?_, hf⟩
    rw [statedPolicy_merge h, hk, hp]
    rfl

end JobPing
