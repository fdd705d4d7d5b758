import JobPing.Agreement
import JobPing.EvidenceFacts

/-!
# Reconciling the documents of a role

`reconcile` sorts the documents by their URLs and merges their facts one after another. With one
document for each URL the order they come in does not matter, and each policy and restriction is what
the current documents agree on (`reconcile_agreement`).
-/

namespace JobPing

open Agreement

variable {documents documents' : List (Document × Facts)} {key : PolicyKind} {kind : RestrictionKind}

/-- The documents that `reconcile` reads. -/
def current (documents : List (Document × Facts)) : List (Document × Facts) :=
  documents.filter fun pair => pair.1.complete && pair.1.kind ≠ .companyPolicy

def byUrl (documents : List (Document × Facts)) : List (Document × Facts) :=
  documents.insertionSort (·.1.sourceUrl ≤ ·.1.sourceUrl)

/-- The values that documents state for a policy. -/
def policyValues (documents : List (Document × Facts)) (key : PolicyKind) : List PolicyValue :=
  documents.filterMap fun pair => (pair.2.policies key).map (·.value)

/-- The values that documents state for a restriction. -/
def restrictionValues (documents : List (Document × Facts)) (kind : RestrictionKind) :
    List RestrictionValue :=
  documents.filterMap fun pair => (pair.2.restrictions kind).map (·.value)

/-! ## Merging -/

theorem mergePolicy_value (previous : Option PolicyFact) (fact : PolicyFact) :
    (mergePolicy previous fact).value =
      (previous.map (·.value)).elim fact.value (agree .conflicting · fact.value) := by
  cases previous with
  | none => rfl
  | some previous =>
    simp only [mergePolicy, Option.map_some, Option.elim_some, agree]

theorem mergeRestriction_value (previous : Option Restriction) (fact : Restriction) :
    (mergeRestriction previous fact).value =
      (previous.map (·.value)).elim fact.value (agree .conflicting · fact.value) := by
  cases previous with
  | none => rfl
  | some previous => rfl

/-- The value of a merged policy is what the documents agree on. -/
theorem merged_policyValue (documents : List (Document × Facts)) (key : PolicyKind) :
    (((documents.map (·.2)).foldl mergeFacts .empty).policies key).map (·.value) =
      agreed .conflicting (policyValues documents key) := by
  rw [← foldl_agree]
  induction documents using List.reverseRecOn with
  | nil => rfl
  | append_singleton documents pair ih =>
    rw [List.map_append, List.foldl_append, policyValues, List.filterMap_append,
      List.foldl_append, ← policyValues, ← ih]
    simp only [List.map_cons, List.map_nil, List.foldl_cons, List.foldl_nil, mergeFacts]
    cases hfact : pair.2.policies key with
    | none => simp [hfact]
    | some fact => simp [hfact, mergePolicy_value]

theorem merged_restriction_value (documents : List (Document × Facts)) (kind : RestrictionKind) :
    (((documents.map (·.2)).foldl mergeFacts .empty).restrictions kind).map (·.value) =
      agreed .conflicting (restrictionValues documents kind) := by
  rw [← foldl_agree]
  induction documents using List.reverseRecOn with
  | nil => rfl
  | append_singleton documents pair ih =>
    rw [List.map_append, List.foldl_append, restrictionValues, List.filterMap_append,
      List.foldl_append, ← restrictionValues, ← ih]
    simp only [List.map_cons, List.map_nil, List.foldl_cons, List.foldl_nil, mergeFacts]
    cases hfact : pair.2.restrictions kind with
    | none => simp [hfact]
    | some fact => simp [hfact, mergeRestriction_value]

/-! ## The order of the documents -/

theorem pairwise_byUrl (documents : List (Document × Facts)) :
    (byUrl documents).Pairwise (·.1.sourceUrl ≤ ·.1.sourceUrl) := by
  have : Std.Total fun a b : Document × Facts => a.1.sourceUrl ≤ b.1.sourceUrl :=
    ⟨fun a b => le_total a.1.sourceUrl b.1.sourceUrl⟩
  have : IsTrans (Document × Facts) fun a b => a.1.sourceUrl ≤ b.1.sourceUrl :=
    ⟨fun _ _ _ => le_trans⟩
  exact List.pairwise_insertionSort _ documents

theorem perm_current_byUrl (documents : List (Document × Facts)) :
    (current (byUrl documents)).Perm (current documents) :=
  (List.perm_insertionSort _ _).filter _

/-- With one document for each URL there is one way to sort the current ones. -/
theorem current_byUrl_eq (hurls : (documents.map (·.1.sourceUrl)).Nodup)
    (hperm : (current documents).Perm (current documents')) :
    current (byUrl documents) = current (byUrl documents') := by
  refine List.Perm.eq_of_pairwise ?_ ((pairwise_byUrl documents).filter _)
    ((pairwise_byUrl documents').filter _) ?_
  · intro a b ha hb hab hba
    have ha' := (perm_current_byUrl documents).mem_iff.mp ha
    have hb' := hperm.mem_iff.mpr ((perm_current_byUrl documents').mem_iff.mp hb)
    exact List.inj_on_of_nodup_map hurls (List.mem_of_mem_filter ha') (List.mem_of_mem_filter hb')
      (le_antisymm hab hba)
  · exact (perm_current_byUrl documents).trans
      (hperm.trans (perm_current_byUrl documents').symm)

theorem reconcile_eq (hurls : (documents.map (·.1.sourceUrl)).Nodup)
    (hperm : (current documents).Perm (current documents')) :
    reconcile documents = reconcile documents' := by
  have hsame := current_byUrl_eq hurls hperm
  simp only [current, byUrl] at hsame
  simp only [reconcile, hsame]

/-- **`reconcile` is order independent, and agrees or conflicts.** The order of the documents does
not matter, every policy and restriction is what the current documents agree on, and the other
documents do not matter. -/
theorem reconcile_agreement :
    (∀ documents documents' : List (Document × Facts),
      (documents.map (·.1.sourceUrl)).Nodup → documents.Perm documents' →
      reconcile documents = reconcile documents') ∧
    (∀ (documents : List (Document × Facts)) key,
      ((reconcile documents).policies key).map (·.value) =
        agreed .conflicting (policyValues (current documents) key)) ∧
    (∀ (documents : List (Document × Facts)) kind,
      ((reconcile documents).restrictions kind).map (·.value) =
        agreed .conflicting (restrictionValues (current documents) kind)) ∧
    ∀ documents documents' : List (Document × Facts),
      (documents.map (·.1.sourceUrl)).Nodup → current documents = current documents' →
      reconcile documents = reconcile documents' := by
  refine ⟨fun documents documents' hurls hperm => ?_, fun documents key => ?_,
    fun documents kind => ?_, fun documents documents' hurls heq => ?_⟩
  · exact reconcile_eq hurls (hperm.filter _)
  · refine (merged_policyValue (current (byUrl documents)) key).trans ?_
    exact agreed_congr fun v => ((perm_current_byUrl documents).filterMap _).mem_iff
  · refine (merged_restriction_value (current (byUrl documents)) kind).trans ?_
    exact agreed_congr fun v => ((perm_current_byUrl documents).filterMap _).mem_iff
  · exact reconcile_eq hurls (List.Perm.of_eq heq)

/-- A page that states a restriction. -/
def stating (url : Str) (value : RestrictionValue) : Document × Facts :=
  ({ sourceUrl := url
     finalUrl := url
     kind := .posting
     text := "Candidates must be US citizens.".toList
     observedAt := 0
     roleIdentity := ⟨url, "Austin, TX".toList, "Acme".toList, none, none⟩
     complete := true
     structuredPay := []
     location := none
     source := "lever".toList },
   { policies := fun _ => none
     compensation := []
     restrictions := fun kind =>
       if kind = .citizenshipRequired then
         some ⟨value, [⟨"lever".toList, url, "Candidates must be US citizens.".toList, 0⟩]⟩
       else none })

theorem stating_reordered :
    reconcile [stating ['a'] .required, stating ['b'] .conditional] =
        reconcile [stating ['b'] .conditional, stating ['a'] .required] ∧
      ((reconcile [stating ['a'] .required, stating ['b'] .conditional]).restrictions
        .citizenshipRequired).map (·.value) = some .conflicting := by
  obtain ⟨hperm, -, hvalue, -⟩ := reconcile_agreement
  exact ⟨hperm _ _ (by decide) (List.Perm.swap _ _ _), (hvalue _ _).trans rfl⟩

end JobPing
