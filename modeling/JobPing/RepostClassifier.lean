import JobPing.LocationReconciliation

/-!
# Lifecycle decisions

`app/services/repost_classifier.py`: how one source observation relates to the durable lifecycle of
its logical job, and the effective state projection the decision leads to.
-/

namespace JobPing

/-- How one source observation relates to the durable logical-job lifecycle. -/
inductive OccurrenceDecision
  | discover
  | openUpdate
  | close
  | reopen
  | repost
  | ambiguousReopen
  deriving DecidableEq

/-- The latest occurrence of a job and the identities recorded for it. The set of identities is
only tested for membership and emptiness. -/
abbrev OccurrenceEvidence := JobOccurrence × List Identity

variable (S : Services)

/-- `_candidate_identity`. -/
def candidateIdentity (candidate : NormalizedJob) : Option Identity :=
  match explicitIdentity candidate.identityNamespace candidate.externalJobId with
  | some identity => some identity
  | none => S.stablePostingIdentity candidate.source candidate.sourceId candidate.applyUrl

/-- The previous identities of the incoming one's namespace. -/
def comparableIdentities (incomingIdentity : Option Identity) (previous : List Identity) :
    List Identity :=
  previous.filter fun identity => incomingIdentity.any fun incoming => identity.1 = incoming.1

/-- Only direct ATS dates together with a changed URL authorise a repost without identities. -/
def dateAndUrlProveRepost (candidate : NormalizedJob) (source : Str) (existing : JobPosting)
    (occurrence : JobOccurrence) : Bool :=
  S.trustworthyPostingDateSource source &&
    match candidate.postedAt, occurrence.postedAt.or existing.postedAt with
    | some postedAt, some previousPostedAt =>
      previousPostedAt < postedAt &&
        S.canonicalizeApplyUrl candidate.applyUrl ≠ S.canonicalizeApplyUrl occurrence.applyUrl
    | _, _ => false

/-- Whether the candidate is not known to be older than the occurrence. -/
def postedLater (candidate : NormalizedJob) (occurrence : JobOccurrence) : Bool :=
  match candidate.postedAt, occurrence.postedAt with
  | some postedAt, some previousPostedAt => previousPostedAt < postedAt
  | _, _ => true

/-- Require confirmed closure plus a new comparable ID or trusted date/URL. -/
def isRepostCandidate (candidate : NormalizedJob) (source : Str) (existing : JobPosting)
    (evidence : OccurrenceEvidence) : Bool :=
  let occurrence := evidence.1
  let previousIdentities := evidence.2
  if !existing.isClosed || occurrence.closedAt.isNone || candidate.isClosed then false
  else
    let incomingIdentity := candidateIdentity S candidate
    let comparable := comparableIdentities incomingIdentity previousIdentities
    if incomingIdentity.isSome && !previousIdentities.isEmpty then
      if comparable.isEmpty || incomingIdentity.any (· ∈ comparable) then false
      else postedLater candidate occurrence
    else dateAndUrlProveRepost S candidate source existing occurrence

/-- Resolve lifecycle state once, using stable identity and confirmed closure. -/
def decideOccurrence (candidate : NormalizedJob) (source : Str) (existing : Option JobPosting)
    (evidence : Option OccurrenceEvidence) : OccurrenceDecision :=
  match existing with
  | none => .discover
  | some existing =>
    if candidate.isClosed then (if existing.isClosed then .openUpdate else .close)
    else if !existing.isClosed then .openUpdate
    else
      match evidence with
      | none => .ambiguousReopen
      | some evidence =>
        let incomingIdentity := candidateIdentity S candidate
        let comparable := comparableIdentities incomingIdentity evidence.2
        if incomingIdentity.any (· ∈ comparable) then
          if evidence.1.closedAt.isNone then .openUpdate else .reopen
        else if evidence.1.closedAt.isNone then .ambiguousReopen
        else if isRepostCandidate S candidate source existing evidence then .repost
        else .ambiguousReopen

/-- Apply the decision to an effective state projection. A stored content hash is never empty, so
the `or generate_content_hash(...)` of the source is never reached. -/
def prepareCandidate (candidate : NormalizedJob) (decision : OccurrenceDecision)
    (existing : Option JobPosting) : NormalizedJob :=
  match decision, existing with
  | .repost, _ => { candidate with occurrenceKind := some .reposted }
  | .ambiguousReopen, some existing =>
    { candidate with
      applyUrl := S.canonicalizeApplyUrl existing.applyUrl
      contentHash := existing.contentHash
      location := existing.location
      isClosed := true
      occurrenceKind := none }
  | _, _ => { candidate with occurrenceKind := none }

/-- Detect that another worker already created the same repost occurrence. -/
def isSameRepostOccurrence (candidate : NormalizedJob) (occurrence : JobOccurrence) : Bool :=
  if occurrence.kind ≠ .reposted then false
  else
    let candidateIdentity := candidateIdentity S candidate
    let occurrenceIdentity :=
      match explicitIdentity occurrence.identityNamespace occurrence.externalJobId with
      | some identity => some identity
      | none =>
        S.stablePostingIdentity occurrence.source occurrence.sourceId occurrence.applyUrl
    if candidateIdentity.isSome || occurrenceIdentity.isSome then
      candidateIdentity.isSome && candidateIdentity = occurrenceIdentity
    else
      match candidate.postedAt, occurrence.postedAt with
      | some postedAt, some occurrencePostedAt =>
        postedAt = occurrencePostedAt &&
          S.canonicalizeApplyUrl candidate.applyUrl =
            S.canonicalizeApplyUrl occurrence.applyUrl
      | _, _ => false

/-! ## What a decision says -/

variable {S} {candidate : NormalizedJob} {source : Str} {existing : Option JobPosting}
  {evidence : Option OccurrenceEvidence}

theorem mem_comparableIdentities {incoming identity : Identity} {previous : List Identity} :
    identity ∈ comparableIdentities (some incoming) previous ↔
      identity ∈ previous ∧ identity.1 = incoming.1 := by
  simp [comparableIdentities]

/-- An identity is comparable with itself. -/
theorem any_mem_comparable {incoming : Option Identity} {previous : List Identity} :
    incoming.any (· ∈ comparableIdentities incoming previous) = true ↔
      ∃ identity, incoming = some identity ∧ identity ∈ previous := by
  cases incoming <;> simp [mem_comparableIdentities]

@[simp] theorem decideOccurrence_none :
    decideOccurrence S candidate source none evidence = .discover := rfl

/-- On an open posting the observation decides alone. -/
theorem decide_of_open {e : JobPosting} (h : e.isClosed = false) :
    decideOccurrence S candidate source (some e) evidence =
      if candidate.isClosed then .close else .openUpdate := by
  simp [decideOccurrence, h]

/-- A closed observation of a closed posting is an ordinary update. -/
theorem decide_of_closed_candidate {e : JobPosting} (he : e.isClosed = true)
    (hc : candidate.isClosed = true) :
    decideOccurrence S candidate source (some e) evidence = .openUpdate := by
  simp [decideOccurrence, he, hc]

/-- The decision on an open observation of a closed posting with a confirmed closure. -/
theorem decide_of_closed {e : JobPosting} {occurrence : JobOccurrence}
    {identities : List Identity} (he : e.isClosed = true) (hc : candidate.isClosed = false)
    (ho : occurrence.closedAt.isSome = true) :
    decideOccurrence S candidate source (some e) (some (occurrence, identities)) =
      if ∃ identity, candidateIdentity S candidate = some identity ∧ identity ∈ identities then
        .reopen
      else if isRepostCandidate S candidate source e (occurrence, identities) then .repost
      else .ambiguousReopen := by
  have hn : occurrence.closedAt.isNone = false := by
    rw [Option.isNone_eq_false_iff]
    exact ho
  simp only [decideOccurrence, hc, he, hn, any_mem_comparable]
  simp

section closed

variable {e : JobPosting} {occurrence : JobOccurrence} {identities : List Identity}
  (he : e.isClosed = true) (hc : candidate.isClosed = false)
  (ho : occurrence.closedAt.isSome = true)
include he hc ho

/-- With identities on both sides, a repost needs a new identity of a known namespace. -/
theorem isRepostCandidate_of_identity (source : Str) {incoming : Identity}
    (hi : candidateIdentity S candidate = some incoming) (hne : identities ≠ []) :
    isRepostCandidate S candidate source e (occurrence, identities) = true ↔
      (∃ identity ∈ identities, identity.1 = incoming.1) ∧ incoming ∉ identities ∧
        postedLater candidate occurrence = true := by
  have hn : occurrence.closedAt.isNone = false := by
    rw [Option.isNone_eq_false_iff]
    exact ho
  have hempty : identities.isEmpty = false := by simpa using hne
  have hcomp : (comparableIdentities (some incoming) identities).isEmpty = true ↔
      ¬ ∃ identity ∈ identities, identity.1 = incoming.1 := by
    rw [List.isEmpty_iff, List.eq_nil_iff_forall_not_mem]
    simp only [mem_comparableIdentities, not_and, not_exists]
  simp only [isRepostCandidate, he, hn, hc, hi, hempty, Bool.not_true, Bool.or_self,
    Bool.false_eq_true, if_false, Option.isSome_some, Bool.not_false, Bool.and_self, if_true]
  split_ifs with h
  · rw [Bool.or_eq_true, hcomp, Option.any_some, decide_eq_true_eq, mem_comparableIdentities] at h
    simp only [false_iff]
    rintro ⟨hex, hnot, -⟩
    rcases h with h | h
    · exact h hex
    · exact hnot h.1
  · rw [Bool.or_eq_true, hcomp, Option.any_some, decide_eq_true_eq, mem_comparableIdentities,
      not_or, not_not] at h
    simp only [and_true] at h
    simp [h.1, h.2]

/-- Without, it needs a trusted later date and another URL. -/
theorem isRepostCandidate_of_dates
    (h : candidateIdentity S candidate = none ∨ identities = []) :
    isRepostCandidate S candidate source e (occurrence, identities) =
      dateAndUrlProveRepost S candidate source e occurrence := by
  have hn : occurrence.closedAt.isNone = false := by
    rw [Option.isNone_eq_false_iff]
    exact ho
  rcases h with h | rfl
  · simp [isRepostCandidate, he, hn, hc, h]
  · simp [isRepostCandidate, he, hn, hc]

end closed

/-- The same repost has the identity of the occurrence, or, where neither has one, its date. -/
theorem same_repost_cases {occurrence : JobOccurrence}
    (h : isSameRepostOccurrence S candidate occurrence = true) :
    (∃ identity, candidateIdentity S candidate = some identity ∧
      (explicitIdentity occurrence.identityNamespace occurrence.externalJobId =
          some identity ∨
        S.stablePostingIdentity occurrence.source occurrence.sourceId occurrence.applyUrl =
          some identity)) ∨
    candidateIdentity S candidate = none ∧
      ∃ postedAt, candidate.postedAt = some postedAt ∧ occurrence.postedAt = some postedAt := by
  unfold isSameRepostOccurrence at h
  dsimp only at h
  split_ifs at h with hkind hsome
  · rw [Bool.and_eq_true, decide_eq_true_eq] at h
    obtain ⟨identity, hid⟩ := Option.isSome_iff_exists.mp h.1
    refine .inl ⟨identity, hid, ?_⟩
    rw [hid] at h
    have hid := h.2.symm
    split at hid
    · next i hexplicit => exact .inl (hexplicit.trans hid)
    · exact .inr hid
  · simp only [Bool.or_eq_true, not_or, Option.not_isSome_iff_eq_none] at hsome
    refine .inr ⟨hsome.1, ?_⟩
    cases hc : candidate.postedAt with
    | none => simp [hc] at h
    | some posted =>
      cases ho : occurrence.postedAt with
      | none => simp [hc, ho] at h
      | some previous =>
        simp only [hc, ho, Bool.and_eq_true, decide_eq_true_eq] at h
        exact ⟨posted, rfl, by rw [h.1]⟩

/-- **An ambiguous observation** is an open one of a closed posting. -/
theorem of_ambiguous
    (h : decideOccurrence S candidate source existing evidence = .ambiguousReopen) :
    ∃ e, existing = some e ∧ e.isClosed = true ∧ candidate.isClosed = false := by
  cases existing with
  | none => cases h
  | some e =>
    refine ⟨e, rfl, ?_⟩
    by_cases he : e.isClosed
    · by_cases hc : candidate.isClosed
      · rw [decide_of_closed_candidate he hc] at h
        cases h
      · exact ⟨he, by simpa using hc⟩
    · rw [decide_of_open (by simpa using he)] at h
      split_ifs at h

/-- **A weak observation** of a confirmed closure, with no identity among the evidence and no
proof of a repost, is ambiguous. -/
theorem ambiguous_of_weak {e : JobPosting} {occurrence : JobOccurrence}
    {identities : List Identity} (he : e.isClosed = true) (hc : candidate.isClosed = false)
    (ho : occurrence.closedAt.isSome = true)
    (hi : ∀ identity, candidateIdentity S candidate = some identity → identity ∉ identities)
    (hr : isRepostCandidate S candidate source e (occurrence, identities) = false) :
    decideOccurrence S candidate source (some e) (some (occurrence, identities)) =
      .ambiguousReopen := by
  rw [decide_of_closed he hc ho, if_neg (by rintro ⟨i, h, hm⟩; exact hi i h hm), hr]
  rfl

end JobPing
