import JobPing.DetailsRedelivery
import JobPing.Repository

/-!
# Details of a source that is polled again

`_merge_job_details` compares the details it stores with those of the posting; where they differ it
bumps `updated_at`, and both write paths publish an event. A poll stamps the evidence it delivers
anew, so that the details differ whenever a fact of the source has been taken, unless the source
gives the time itself (`details_redelivery`).
-/

namespace JobPing

variable {before fact merged : PolicyFact} {pay incoming : List CompensationRange} {t : Time}

/-! ## The flag -/

/-- The columns of a posting and of its occurrence that `_merge_job_details` writes. -/
structure DetailsColumns where
  posting : Option JobDetails
  occurrence : Option JobDetails
  updatedAt : Time

/-- The tests that open `_merge_job_details`: the observation is ambiguous, or the details are those
of a verified check. -/
def Db.keepsDetails (cfg : Config) (db : Db) (posting : JobPosting) (occurrence : JobOccurrence)
    (observation : NormalizedJob) : Bool :=
  (occurrence.closedAt.isSome && !observation.isClosed) ||
    (cfg.evidenceWorkerEnabled && db.evidenceVerified posting occurrence)

/-- **`_merge_job_details`** on the columns, and the flag that it returns; `none` is the exception of
`merge_details`. -/
def DetailsColumns.merge (columns : DetailsColumns) (kept : Bool) (now : Time)
    (observation : Option JobDetails) : Option (Bool × DetailsColumns) :=
  if kept then some (false, columns)
  else
    (mergeDetails columns.occurrence observation).map fun merged =>
      let changed := decide (columns.posting ≠ merged)
      (changed, {
        posting := if changed then merged else columns.posting
        occurrence := merged
        updatedAt := if changed then now else columns.updatedAt })

/-- The test of both write paths before `_queue_job_event`. -/
def queuesEvent (publisher wasCreated wasChanged detailsChanged : Bool) : Bool :=
  publisher && (wasCreated || wasChanged || detailsChanged)

/-- The tables of the repository hold these columns. -/
theorem Db.mergeJobDetails_columns (cfg : Config) (db : Db) (posting : JobPosting)
    (occurrence : JobOccurrence) (observation : NormalizedJob) (now updatedAt : Time) :
    db.mergeJobDetails cfg posting occurrence observation =
      match DetailsColumns.merge ⟨posting.details, occurrence.details, updatedAt⟩
        (db.keepsDetails cfg posting occurrence observation) now observation.details with
      | none => .error (.valueError "max() iterable argument is empty")
      | some (_, columns) =>
        let merged : JobPosting := { posting with details := columns.posting }
        .ok (if db.keepsDetails cfg posting occurrence observation then db
          else { db with
            jobOccurrences := Table.replace JobOccurrence.id
              { occurrence with details := columns.occurrence } db.jobOccurrences
            jobPostings := Table.replace JobPosting.id merged db.jobPostings }, merged) := by
  unfold Db.mergeJobDetails Db.keepsDetails DetailsColumns.merge
  by_cases hambiguous : (occurrence.closedAt.isSome && !observation.isClosed) = true
  · simp only [hambiguous, Bool.true_or, if_true]
  by_cases hverified : (cfg.evidenceWorkerEnabled && db.evidenceVerified posting occurrence) = true
  · simp only [hverified, Bool.or_true, if_true, ite_self]
  rw [Bool.not_eq_true] at hambiguous hverified
  simp only [hambiguous, hverified, Bool.or_self, Bool.false_eq_true, if_false]
  cases mergeDetails occurrence.details observation.details with
  | none => rfl
  | some merged =>
    by_cases hsame : posting.details = merged
    · simp [hsame]
    · simp [hsame]

/-- A delivery after another one, with what the opening tests read as it was: the posting is not
marked as changed, its columns stay, and no event is published for the details. -/
def Unnoticed (kept : Bool) (now now' : Time) (columns : DetailsColumns)
    (first second : Option JobDetails) : Prop :=
  ∃ flag delivered changed after, columns.merge kept now first = some (flag, delivered) ∧
    delivered.merge kept now' second = some (changed, after) ∧
    changed = false ∧ after = delivered ∧ ∀ publisher, queuesEvent publisher false false changed = false

/-- **The second delivery goes unnoticed** exactly where it leaves the merged details as they are. -/
theorem unnoticed_iff {kept : Bool} {now now' : Time} {columns : DetailsColumns}
    {first second : Option JobDetails} :
    Unnoticed kept now now' columns first second ↔
      kept = true ∨ ∃ merged, mergeDetails columns.occurrence first = some merged ∧
        mergeDetails merged second = some merged := by
  cases kept with
  | true =>
    refine iff_of_true ⟨false, columns, false, columns, rfl, rfl, rfl, rfl, fun publisher => ?_⟩
      (.inl rfl)
    exact Bool.and_false publisher
  | false =>
    simp only [Unnoticed, DetailsColumns.merge, Bool.false_eq_true, if_false, false_or]
    cases hmerged : mergeDetails columns.occurrence first with
    | none => simp
    | some merged =>
      have hposting : (if decide (columns.posting ≠ merged) = true then merged
          else columns.posting) = merged := by
        by_cases hsame : columns.posting = merged
        · simp [hsame]
        · simp [hsame]
      simp only [Option.map_some, Option.some.injEq, Prod.mk.injEq, hposting, exists_eq_left']
      constructor
      · rintro ⟨_, delivered, changed, after, ⟨-, rfl⟩, hsecond, rfl, rfl, -⟩
        obtain ⟨again, hagain, heq⟩ := Option.map_eq_some_iff.mp hsecond
        have hflag := congrArg Prod.fst heq
        simp only [ne_eq, decide_eq_false_iff_not, not_not] at hflag
        rw [hagain, ← hflag]
      · intro hagain
        refine ⟨_, _, false, _, ⟨rfl, rfl⟩, ?_, rfl, rfl, fun publisher => Bool.and_false publisher⟩
        simp [hagain]

/-! ## A new stamp -/

/-- The evidence of a later poll. -/
def Evidence.stamped (item : Evidence) (t : Time) : Evidence := { item with observedAt := t }

def PolicyFact.stamped (fact : PolicyFact) (t : Time) : PolicyFact where
  value := fact.value
  evidence := fact.evidence.map (·.stamped t)
  bounded := by
    rw [List.length_map]
    exact fact.bounded
  supported_value hvalue := by
    rw [ne_eq, List.map_eq_nil_iff]
    exact fact.supported_value hvalue

def CompensationRange.stamped (range : CompensationRange) (t : Time) : CompensationRange :=
  { range with toEvidence := range.toEvidence.stamped t }

/-- **The details of an unchanged source** that is polled at `t`. -/
def JobDetails.stamped (details : JobDetails) (t : Time) : JobDetails where
  policies key := (details.policies key).map (·.stamped t)
  compensation := details.compensation.map (·.stamped t)
  bounded := by
    rw [List.length_map]
    exact details.bounded

theorem JobDetails.stamped_policies (details : JobDetails) (key : PolicyKind) :
    (details.stamped t).policies key = (details.policies key).map (·.stamped t) :=
  rfl

theorem evidenceRank_stamped (evidence : List Evidence) :
    evidenceRank (evidence.map (·.stamped t)) = evidenceRank evidence := by
  rw [evidenceRank, List.map_map]
  rfl

theorem newest_stamped {evidence : List Evidence} (h : evidence ≠ []) :
    (newestObservation (evidence.map (·.stamped t))).getD 0 = t := by
  have hne : evidence.map (·.stamped t) ≠ [] := by
    rw [ne_eq, List.map_eq_nil_iff]
    exact h
  obtain ⟨e, he, heq⟩ := newest_mem hne
  obtain ⟨item, -, rfl⟩ := List.mem_map.mp he
  exact heq.symm

theorem lt_newest_iff {evidence : List Evidence} (h : evidence ≠ []) :
    t < (newestObservation evidence).getD 0 ↔ ∃ item ∈ evidence, t < item.observedAt := by
  constructor
  · intro hlt
    obtain ⟨e, he, heq⟩ := newest_mem h
    exact ⟨e, he, by rw [heq]; exact hlt⟩
  · rintro ⟨item, hitem, hlt⟩
    exact hlt.trans_le (le_newest hitem)

@[simp] theorem PolicyFact.stamped_rank : (fact.stamped t).rank = fact.rank :=
  evidenceRank_stamped _

theorem PolicyFact.stamped_evidence_ne_nil (h : fact.evidence ≠ []) :
    (fact.stamped t).evidence ≠ [] := by
  rw [PolicyFact.stamped, ne_eq, List.map_eq_nil_iff]
  exact h

/-! ### Facts -/

/-- **A fact that changes nothing**: a better one is stored, or a newer one of its rank, or it is
stored itself. -/
theorem mergeFact_eq_self (h : fact.evidence ≠ []) :
    mergeFact (some before) fact = some before ↔
      fact.rank < before.rank ∨
        (fact.rank = before.rank ∧ (newestObservation fact.evidence).getD 0 <
          (newestObservation before.evidence).getD 0) ∨
        fact = before := by
  rcases lt_trichotomy fact.rank before.rank with hlt | heq | hlt
  · refine iff_of_true ?_ (.inl hlt)
    simp only [mergeFact, if_neg hlt.le.not_gt, if_neg hlt.ne]
  · rw [mergeFact, if_neg heq.not_gt, if_pos heq,
      mergeEqualRank_eq h (evidence_ne_nil_of_rank h heq), Option.some.injEq]
    by_cases hold : (newestObservation fact.evidence).getD 0 <
        (newestObservation before.evidence).getD 0
    · rw [if_pos hold]
      exact iff_of_true rfl (.inr (.inl ⟨heq, hold⟩))
    rw [if_neg hold]
    simp only [heq, lt_irrefl, hold, and_false, false_or]
    by_cases hsame : (sameSources before.evidence fact.evidence ||
        decide (before.value = fact.value)) = true
    · rw [if_pos hsame]
    · obtain ⟨hsources, -⟩ := Bool.or_eq_false_iff.mp (Bool.eq_false_iff.mpr hsame)
      rw [if_neg hsame]
      refine iff_of_false (conflict_ne h hsources) fun hfact => ?_
      rw [hfact, sameSources_self] at hsources
      cases hsources
  · simp only [mergeFact, if_pos hlt, Option.some.injEq, hlt.not_gt, hlt.ne', false_and, false_or]

/-- A fact that is merged into what is stored for its key, and comes again with the stamp `t`: its
evidence is older than it was; or it has this stamp already and may be repeated; or a better fact is
stored, or one of its rank that is newer than both. -/
def Quiet (stored : Option PolicyFact) (fact : PolicyFact) (t : Time) : Prop :=
  (∃ item ∈ fact.evidence, t < item.observedAt) ∨
    (fact.stamped t = fact ∧ Repeatable stored fact) ∨
    ∃ before, stored = some before ∧ (fact.rank < before.rank ∨
      (fact.rank = before.rank ∧ (newestObservation fact.evidence).getD 0 <
          (newestObservation before.evidence).getD 0 ∧
        (t < (newestObservation before.evidence).getD 0 ∨ before = fact.stamped t)))

/-- A dispute is as new as the fact, at least. -/
theorem newest_le_conflict (h : fact.evidence ≠ []) :
    (newestObservation fact.evidence).getD 0 ≤
      (newestObservation (before.conflict fact h).evidence).getD 0 := by
  obtain ⟨e, he, heq⟩ := newest_mem h
  rw [← heq]
  refine le_newest ?_
  rw [conflict_evidence]
  exact List.mem_append_right _ he

/-- Once stored, a fact is replaced by its later stamp only. -/
theorem merge_stamped_self (h : fact.evidence ≠ []) :
    mergeFact (some fact) (fact.stamped t) = some fact ↔
      (∃ item ∈ fact.evidence, t < item.observedAt) ∨ fact.stamped t = fact := by
  rw [mergeFact_eq_self (PolicyFact.stamped_evidence_ne_nil h), PolicyFact.stamped_rank,
    PolicyFact.stamped, newest_stamped h, lt_newest_iff h]
  simp only [lt_irrefl, true_and, false_or]

/-- A fact that is not stored stays out. -/
theorem merge_stamped_kept (h : fact.evidence ≠ []) :
    mergeFact (some before) (fact.stamped t) = some before ↔
      fact.rank < before.rank ∨
        (fact.rank = before.rank ∧ t < (newestObservation before.evidence).getD 0) ∨
        fact.stamped t = before := by
  rw [mergeFact_eq_self (PolicyFact.stamped_evidence_ne_nil h), PolicyFact.stamped_rank,
    PolicyFact.stamped, newest_stamped h]

/-- A recorded dispute is recorded again, unless the fact is older than it was or is the dispute. -/
theorem merge_stamped_conflict (h : fact.evidence ≠ []) (hdisputes : Disputes before fact) :
    mergeFact (some (before.conflict fact h)) (fact.stamped t) = some (before.conflict fact h) ↔
      (∃ item ∈ fact.evidence, t < item.observedAt) ∨
        (fact.stamped t = fact ∧ before.conflict fact h = fact) := by
  obtain ⟨hrank, hold, -, -⟩ := hdisputes
  have hnewest : (newestObservation (before.conflict fact h).evidence).getD 0 =
      (newestObservation fact.evidence).getD 0 :=
    le_antisymm (conflict_newest h hold) (newest_le_conflict h)
  rw [merge_stamped_kept h, conflict_rank h hrank, hnewest, lt_newest_iff h]
  simp only [lt_irrefl, true_and, false_or]
  refine or_congr_right ⟨fun heq => ?_, fun hboth => hboth.1.trans hboth.2.symm⟩
  -- the dispute has as many pieces of evidence as the fact, so that it is the fact
  have hlength := congrArg (fun merged : PolicyFact => merged.evidence.length) heq
  have hbound := fact.bounded
  have hpos := List.length_pos_iff.mpr (evidence_ne_nil_of_rank h hrank)
  simp only [PolicyFact.stamped, List.length_map] at hlength
  rw [conflict_evidence, List.length_append, List.length_drop] at hlength
  have hvalue : fact.value = .conflicting := congrArg PolicyFact.value heq
  have hconflict : before.conflict fact h = fact :=
    (conflict_eq_fact h (evidence_ne_nil_of_rank h hrank)).mpr ⟨hvalue, by omega⟩
  exact ⟨heq.trans hconflict, hconflict⟩

/-- A better fact stays, and a newer one of the same rank. -/
theorem mergeFact_kept (h : fact.rank < before.rank ∨ (fact.rank = before.rank ∧
    (newestObservation fact.evidence).getD 0 < (newestObservation before.evidence).getD 0)) :
    mergeFact (some before) fact = some before := by
  by_cases hnil : fact.evidence = []
  · rcases h with hlt | ⟨heq, hold⟩
    · simp only [mergeFact, if_neg hlt.le.not_gt, if_neg hlt.ne]
    · have hbefore : before.evidence = [] :=
        evidenceRank_eq_zero.mp (heq.symm.trans (evidenceRank_eq_zero.mpr hnil))
      rw [hnil, hbefore] at hold
      exact absurd hold (lt_irrefl _)
  · exact (mergeFact_eq_self hnil).mpr (h.imp_right .inl)

/-- **A fact that is polled again** changes nothing exactly where it is quiet. -/
theorem mergeFact_polled (stored : Option PolicyFact) (fact : PolicyFact) (t : Time) :
    (∃ merged, mergeFact stored fact = some merged ∧
      mergeFact (some merged) (fact.stamped t) = some merged) ↔ Quiet stored fact t := by
  by_cases hstamped : fact.stamped t = fact
  · rw [hstamped, mergeFact_again]
    constructor
    · exact fun hrepeatable => .inr (.inl ⟨hstamped, hrepeatable⟩)
    · rintro (⟨item, hitem, hlt⟩ | ⟨-, hrepeatable⟩ | ⟨before, rfl, hkept⟩)
      · rw [← hstamped] at hitem
        obtain ⟨item, -, rfl⟩ := List.mem_map.mp hitem
        exact absurd hlt (lt_irrefl t)
      · exact hrepeatable
      · have hself : mergeFact (some before) fact = some before :=
          mergeFact_kept (hkept.imp_right fun ⟨heq, hold, _⟩ => ⟨heq, hold⟩)
        exact (mergeFact_again _ _).mp ⟨before, hself, hself⟩
  have h : fact.evidence ≠ [] := fun hnil => hstamped (by
    cases fact
    simp only at hnil
    subst hnil
    rfl)
  rcases stored with _ | before
  · rw [show mergeFact none fact = some fact from rfl]
    simp only [Option.some.injEq, exists_eq_left', merge_stamped_self h, Quiet, hstamped, false_and,
      reduceCtorEq, exists_false, or_false]
  rcases mergeFact_cases h before with hsome | ⟨hsome, -⟩ | ⟨hsome, hdisputes⟩
  · -- the fact was taken
    simp only [hsome, Option.some.injEq, exists_eq_left', merge_stamped_self h, Quiet, hstamped,
      false_and, or_false, false_or]
    refine (or_iff_left fun hkept => ?_).symm
    have hself := mergeFact_kept (hkept.imp_right fun ⟨heq, hold, _⟩ => ⟨heq, hold⟩)
    obtain rfl := Option.some.inj (hsome.symm.trans hself)
    rcases hkept with hlt | ⟨-, hold, -⟩
    · exact lt_irrefl _ hlt
    · exact lt_irrefl _ hold
  · -- the stored fact stayed
    simp only [hsome, Option.some.injEq, exists_eq_left', merge_stamped_kept h, Quiet, hstamped,
      false_and, false_or]
    rcases (mergeFact_eq_self h).mp hsome with hlt | ⟨heq, hold⟩ | rfl
    · exact iff_of_true (.inl hlt) (.inr (.inl hlt))
    · simp only [heq, lt_irrefl, hold, true_and, false_or]
      constructor
      · exact fun hsame => .inr (hsame.imp_right Eq.symm)
      · rintro (hearly | hsame)
        · exact .inl (((lt_newest_iff h).mpr hearly).trans hold)
        · exact hsame.imp_right Eq.symm
    · simp only [lt_irrefl, true_and, false_or, hstamped, or_false, false_and, lt_newest_iff h]
  · -- a dispute was recorded
    simp only [hsome, Option.some.injEq, exists_eq_left', merge_stamped_conflict h hdisputes, Quiet,
      hstamped, false_and, or_false, false_or]
    refine (or_iff_left fun hkept => ?_).symm
    rcases hkept with hlt | ⟨-, hold, -⟩
    · exact hlt.ne hdisputes.1
    · exact hdisputes.2.1 hold

/-! ### Compensation -/

/-- The ranges of a source that come again with the stamp `t`: there are none; or one is older than
it was; or they have this stamp already; or better ones are stored, or newer ones. -/
def QuietPay (pay incoming : List CompensationRange) (t : Time) : Prop :=
  let evidence (ranges : List CompensationRange) := ranges.map (·.toEvidence)
  incoming = [] ∨ (∃ range ∈ incoming, t < range.observedAt) ∨
    incoming.map (·.stamped t) = incoming ∨
    evidenceRank (evidence incoming) < evidenceRank (evidence pay) ∨
    (pay ≠ [] ∧ (newestObservation (evidence incoming)).getD 0 <
        (newestObservation (evidence pay)).getD 0 ∧
      (t < (newestObservation (evidence pay)).getD 0 ∨ pay = incoming.map (·.stamped t)))

/-- Ranges that change nothing. -/
theorem mergeCompensation_eq_self :
    mergeCompensation pay incoming = pay ↔
      incoming = [] ∨
      evidenceRank (incoming.map (·.toEvidence)) < evidenceRank (pay.map (·.toEvidence)) ∨
      (pay ≠ [] ∧ (newestObservation (incoming.map (·.toEvidence))).getD 0 <
        (newestObservation (pay.map (·.toEvidence))).getD 0) ∨
      incoming = pay := by
  simp only [mergeCompensation]
  split_ifs with htaken
  · obtain ⟨hsome, hrank, hnewest⟩ := htaken
    simp only [hsome, hrank.not_gt, false_or]
    refine (or_iff_right fun hold => ?_).symm
    exact hold.2.not_ge (hnewest.resolve_left hold.1)
  · refine iff_of_true rfl ?_
    by_contra hnone
    simp only [not_or, not_and, not_lt] at hnone
    obtain ⟨hsome, hrank, hnewest, -⟩ := hnone
    exact htaken ⟨hsome, hrank, (em (pay = [])).imp_right hnewest⟩

theorem stamped_toEvidence (ranges : List CompensationRange) :
    (ranges.map (·.stamped t)).map (·.toEvidence) =
      (ranges.map (·.toEvidence)).map (·.stamped t) := by
  rw [List.map_map, List.map_map]
  rfl

/-- What the ranges that come again meet. -/
theorem merge_pay_stamped (h : incoming ≠ []) :
    mergeCompensation pay (incoming.map (·.stamped t)) = pay ↔
      evidenceRank (incoming.map (·.toEvidence)) < evidenceRank (pay.map (·.toEvidence)) ∨
      (pay ≠ [] ∧ t < (newestObservation (pay.map (·.toEvidence))).getD 0) ∨
      incoming.map (·.stamped t) = pay := by
  have hne : incoming.map (·.toEvidence) ≠ [] := by
    rw [ne_eq, List.map_eq_nil_iff]
    exact h
  rw [mergeCompensation_eq_self, stamped_toEvidence, evidenceRank_stamped, newest_stamped hne,
    List.map_eq_nil_iff]
  simp only [h, false_or]

/-- **Ranges that are polled again** change nothing exactly where they are quiet. -/
theorem mergeCompensation_polled (pay incoming : List CompensationRange) (t : Time) :
    mergeCompensation (mergeCompensation pay incoming) (incoming.map (·.stamped t)) =
      mergeCompensation pay incoming ↔ QuietPay pay incoming t := by
  by_cases hnil : incoming = []
  · subst hnil
    exact iff_of_true rfl (.inl rfl)
  have hne : incoming.map (·.toEvidence) ≠ [] := by
    rw [ne_eq, List.map_eq_nil_iff]
    exact hnil
  have hearly : t < (newestObservation (incoming.map (·.toEvidence))).getD 0 ↔
      ∃ range ∈ incoming, t < range.observedAt := by
    rw [lt_newest_iff hne]
    simp only [List.mem_map, exists_exists_and_eq_and]
  simp only [QuietPay, hnil, false_or, ← hearly]
  by_cases hkept : mergeCompensation pay incoming = pay
  · -- the stored ranges stayed
    rw [hkept, merge_pay_stamped hnil]
    rcases mergeCompensation_eq_self.mp hkept with h | hlt | ⟨hpay, hold⟩ | rfl
    · exact absurd h hnil
    · exact iff_of_true (.inl hlt) (.inr (.inr (.inl hlt)))
    · simp only [hpay, hold, ne_eq, not_false_iff, true_and]
      constructor
      · rintro (hlt | hlt | hsame)
        · exact .inr (.inr (.inl hlt))
        · exact .inr (.inr (.inr (.inl hlt)))
        · exact .inr (.inr (.inr (.inr hsame.symm)))
      · rintro (hlt | hsame | hlt | hlt | hsame)
        · exact .inr (.inl (hlt.trans hold))
        · rw [← hsame, stamped_toEvidence, newest_stamped hne] at hold
          exact .inr (.inl hold)
        · exact .inl hlt
        · exact .inr (.inl hlt)
        · exact .inr (.inr hsame.symm)
    · simp only [lt_irrefl, false_or, false_and, and_false, or_false, ne_eq, hnil, not_false_iff,
        true_and]
  · -- the ranges were taken
    have htaken : mergeCompensation pay incoming = incoming := by
      simp only [mergeCompensation] at hkept ⊢
      split_ifs at hkept ⊢
      · rfl
      · exact absurd rfl hkept
    rw [htaken, merge_pay_stamped hnil]
    simp only [lt_irrefl, false_or, ne_eq, hnil, not_false_iff, true_and]
    refine or_congr_right (or_iff_left fun hold => hkept ?_).symm
    exact mergeCompensation_eq_self.mpr
      (.inr (hold.imp_right fun hall => .inl ⟨hall.1, hall.2.1⟩))

/-! ## Polls -/

/-- **A source that is polled again** leaves the details as they are exactly where every fact and
the compensation are quiet. -/
theorem mergeDetails_polled (previous : Option JobDetails) (details : JobDetails) (t : Time) :
    (∃ merged, mergeDetails previous (some details) = some merged ∧
      mergeDetails merged (some (details.stamped t)) = some merged) ↔
    (∀ key fact, details.policies key = some fact → Quiet (statedPolicy previous key) fact t) ∧
      QuietPay (previous.getD .empty).compensation details.compensation t := by
  have hkeys : ∀ key, ((details.stamped t).policies key).isSome = (details.policies key).isSome :=
    fun key => Option.isSome_map
  rw [mergeDetails_then hkeys, ← mergeCompensation_polled]
  refine and_congr_left fun _ => forall_congr' fun key => forall_congr' fun fact => ?_
  rw [← mergeFact_polled]
  constructor
  · intro h hkey
    exact h _ hkey (by rw [JobDetails.stamped_policies, hkey, Option.map_some])
  · intro h fact' hkey hkey'
    rw [JobDetails.stamped_policies, hkey, Option.map_some, Option.some.injEq] at hkey'
    rw [← hkey']
    exact h hkey

/-- **Details that are delivered again.** Merging an observation twice is merging it once exactly
where every policy of it may be repeated, and a run of such observations may deliver each of them
twice. A second delivery of the observation itself marks nothing as changed, leaves `updated_at` and
publishes nothing exactly in this case, or where the opening tests keep the details; one that is
stamped `t` does so exactly where every policy of the observation and its compensation are quiet. -/
theorem details_redelivery (kept : Bool) (now now' t : Time) (columns : DetailsColumns)
    (observation : Option JobDetails) (observations : List (Option JobDetails)) :
    ((∃ merged, mergeDetails columns.occurrence observation = some merged ∧
        mergeDetails merged observation = some merged) ↔
      ∀ key fact, statedPolicy observation key = some fact →
        Repeatable (statedPolicy columns.occurrence key) fact) ∧
    (RepeatableRun none observations →
      observed (observations.flatMap fun o => [o, o]) = observed observations) ∧
    (Unnoticed kept now now' columns observation observation ↔
      kept = true ∨ ∀ key fact, statedPolicy observation key = some fact →
        Repeatable (statedPolicy columns.occurrence key) fact) ∧
    (Unnoticed kept now now' columns observation (observation.map (·.stamped t)) ↔
      kept = true ∨ ∀ details, observation = some details →
        (∀ key fact, details.policies key = some fact →
          Quiet (statedPolicy columns.occurrence key) fact t) ∧
        QuietPay (columns.occurrence.getD .empty).compensation details.compensation t) := by
  refine ⟨mergeDetails_twice _ _, foldlM_repeated, ?_, ?_⟩
  · rw [unnoticed_iff, mergeDetails_twice]
  · rw [unnoticed_iff]
    refine or_congr_right ?_
    cases observation with
    | none => exact iff_of_true ⟨_, rfl, rfl⟩ fun details h => by cases h
    | some details =>
      simp only [Option.map_some, mergeDetails_polled, Option.some.injEq, forall_eq']

/-- Lever's statement is delivered twice; an aggregator that contradicts it is polled at 1 and at 2. -/
theorem accepted_twice :
    observed [some (optDetails "lever".toList .allowed 0),
        some (optDetails "lever".toList .allowed 0)] =
      observed [some (optDetails "lever".toList .allowed 0)] ∧
    Unnoticed false 1 2
      ⟨some (optDetails "lever".toList .allowed 0), some (optDetails "lever".toList .allowed 0), 0⟩
      (some (optDetails "simplify".toList .denied 1))
      (some ((optDetails "simplify".toList .denied 1).stamped 2)) := by
  have h := details_redelivery false 1 2 2
    ⟨some (optDetails "lever".toList .allowed 0), some (optDetails "lever".toList .allowed 0), 0⟩
    (some (optDetails "simplify".toList .denied 1)) [some (optDetails "lever".toList .allowed 0)]
  refine ⟨h.2.1 ⟨fun key fact hkey => ?_, fun _ _ => trivial⟩, h.2.2.2.mpr (.inr ?_)⟩
  · exact ⟨fun hnil => absurd hnil (optDetails_policy hkey),
      fun before hbefore => by cases hbefore⟩
  · rintro details heq
    obtain rfl := Option.some.inj heq
    refine ⟨fun key fact hkey => .inr (.inr ?_), .inl rfl⟩
    simp only [optDetails] at hkey
    split_ifs at hkey with hopt
    subst hopt
    obtain rfl := Option.some.inj hkey
    exact ⟨_, rfl, .inl (by decide +kernel)⟩

/-- Two sources of equal rank that disagree: the second one delivers its details once more, and the
evidence grows. One source that is polled again: the stamp makes a change. -/
theorem disputed_twice :
    (let lever := some (optDetails "lever".toList .allowed 0)
    let greenhouse := some (optDetails "greenhouse".toList .denied 1)
    ∃ details once twice, observed [lever] = some details ∧
      mergeDetails details greenhouse = some once ∧ mergeDetails once greenhouse = some twice ∧
      once ≠ twice ∧ (statedPolicy once .opt).map (·.evidence.length) = some 2 ∧
      (statedPolicy twice .opt).map (·.evidence.length) = some 3) ∧
    ¬Unnoticed false 0 1 ⟨none, none, 0⟩ (some (optDetails "lever".toList .allowed 0))
      (some ((optDetails "lever".toList .allowed 0).stamped 1)) := by
  constructor
  · refine ⟨_, _, _, rfl, rfl, rfl, ?_, by decide +kernel, by decide +kernel⟩
    decide +kernel
  · rw [unnoticed_iff]
    rintro (hkept | ⟨merged, hmerged, hagain⟩)
    · cases hkept
    · obtain rfl := Option.some.inj hmerged
      revert hagain
      decide +kernel

end JobPing
