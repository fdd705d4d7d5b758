import JobPing.Ambiguous
import JobPing.Decisions
import JobPing.Discovery
import JobPing.Interleaving

/-!
# Where a location comes from

A posting stores its location with the source that reported it. Every write but the ambiguous one
keeps such a pair together. The ambiguous write reconciles the stored location under the source of
the observation, so an authoritative source takes over a location it never reported
(`Db.Relabels`). In a run without such a write every stored pair was reported together by one
observation of the job (`locations_reported`).
-/

namespace JobPing

variable {cfg : Config} {S : Services} {path : WritePath}

/-- Some observation of the job in the calls reported the location of the posting together with its
source. -/
def Reported (S : Services) (calls : List Call) (p : JobPosting) : Prop :=
  ∃ call ∈ calls, ∃ job ∈ call.jobs, job.baseHash = p.baseHash ∧ job.location = p.location ∧
    sourceName S job.locationSource = p.locationSource

/-- The observation is ambiguous, and its source wins the stored location, which neither it nor this
observation reported. -/
def Db.Relabels (S : Services) (db : Db) (job : NormalizedJob) : Prop :=
  db.classify S job = .ambiguousReopen ∧ ∃ p, db.postingByHash job.baseHash = some p ∧
    isMeaningfulLocation S (some p.location) = true ∧
    sourceWins S (sourceName S job.locationSource) p.locationSource = true ∧
    sourceName S job.locationSource ≠ none ∧
    sourceName S job.locationSource ≠ p.locationSource ∧ job.location ≠ p.location

/-! ## One write -/

theorem Reported.of_eq {calls : List Call} {p q : JobPosting} (h : Reported S calls p)
    (hlocation : q.location = p.location) (hsource : q.locationSource = p.locationSource)
    (hhash : q.baseHash = p.baseHash) : Reported S calls q := by
  obtain ⟨call, hcall, job, hjob, hh, hl, hs⟩ := h
  exact ⟨call, hcall, job, hjob, hh.trans hhash.symm, hl.trans hlocation.symm,
    hs.trans hsource.symm⟩

/-- A reconciled location is the incoming or the stored one, each with its own source. -/
theorem effectiveLocation_cases (job : NormalizedJob) (location source : Option Str) :
    (effectiveLocation S job location source = (job.location, sourceName S job.locationSource) ∧
        isMeaningfulLocation S (some job.location) = true ∧
        (isMeaningfulLocation S location = false ∨
          sourceWins S (sourceName S job.locationSource) source = true)) ∨
      effectiveLocation S job location source = (locationOr location job.location, source) := by
  by_cases h : locationReplaced S job location source
  · refine .inl ⟨effectiveLocation_of_replaced h, ?_⟩
    simpa [locationReplaced] using h
  · exact .inr (effectiveLocation_of_kept (by simpa using h))

theorem ne_nil_of_meaningful {l : Str} (h : isMeaningfulLocation S (some l) = true) : l ≠ [] := by
  rintro rfl
  simp at h

/-- The location and the source of a posting, when it has one, were reported together. -/
def LocationReported (S : Services) (calls : List Call) (p : JobPosting) : Prop :=
  p.locationSource ≠ none → p.location ≠ [] ∧ Reported S calls p

/-- What a write stores is the reconciled pair. -/
theorem effectiveJob_location (S : Services) (job : NormalizedJob)
    (existing : Option JobPosting) :
    ((effectiveJob S job existing).location, (effectiveJob S job existing).locationSource) =
      effectiveLocation S job (existing.map (·.location)) (existing.bind (·.locationSource)) :=
  rfl

/-- **One delivery** keeps locations with their sources, unless it relabels one. -/
theorem LocationReported.deliver {calls : List Call} {ids : WriteIds} {base : Option JobRows}
    {job : NormalizedJob} {rows : JobRows} {state : DeduplicationState}
    (hbase : ∀ b, base = some b → LocationReported S calls b.posting ∧
      b.posting.baseHash = job.baseHash)
    (hjob : ∃ call ∈ calls, job ∈ call.jobs)
    (hno : decision S base job = .ambiguousReopen → ∀ b, base = some b →
      isMeaningfulLocation S (some b.posting.location) = true →
      sourceWins S (sourceName S job.locationSource) b.posting.locationSource = true →
      sourceName S job.locationSource = none ∨
        sourceName S job.locationSource = b.posting.locationSource ∨
        job.location = b.posting.location)
    (h : deliverJob cfg S path ids base job = some (rows, state)) :
    LocationReported S calls rows.posting := by
  obtain ⟨call, hcall, hjob⟩ := hjob
  have hhash := deliverJob_baseHash (fun b hb => (hbase b hb).2) h
  obtain ⟨-, -, hlocation, hsource⟩ := deliverJob_columns h
  have hpair := effectiveJob_location S (candidate S base job) (base.map (·.posting))
  rw [← hlocation, ← hsource] at hpair
  intro hsome
  -- a stored pair that is kept was reported already
  have hkept : ∀ (b : JobRows) (l : Str), base = some b →
      (rows.posting.location, rows.posting.locationSource) =
        (locationOr (some b.posting.location) l, b.posting.locationSource) →
      rows.posting.location ≠ [] ∧ Reported S calls rows.posting := fun b l hb heq => by
    obtain ⟨hl, hs⟩ := Prod.mk.inj heq
    obtain ⟨hreported, hbhash⟩ := hbase b hb
    obtain ⟨hne, hreported⟩ := hreported (hs ▸ hsome)
    rw [locationOr_some hne] at hl
    exact ⟨hl ▸ hne, hreported.of_eq hl hs (hhash.trans hbhash.symm)⟩
  by_cases hd : decision S base job = .ambiguousReopen
  · -- the stored location under the source of the observation
    obtain ⟨e, he, -⟩ := of_ambiguous hd
    obtain ⟨b, rfl, rfl⟩ := Option.map_eq_some_iff.mp he
    have hcand : candidate S (some b) job = prepareCandidate S job .ambiguousReopen
        (some b.posting) := by rw [candidate, hd]; rfl
    rw [hcand] at hpair
    rcases effectiveLocation_cases (S := S)
      (prepareCandidate S job .ambiguousReopen (some b.posting)) (some b.posting.location)
      b.posting.locationSource with ⟨heq, hmeaningful, hwins⟩ | heq
    · have hwins : sourceWins S (sourceName S job.locationSource) b.posting.locationSource =
          true := by
        rcases hwins with hno | hwins
        · exact absurd (hmeaningful.symm.trans hno) (by simp)
        · exact hwins
      obtain ⟨hl, hs⟩ := Prod.mk.inj (hpair.trans heq)
      have hl : rows.posting.location = b.posting.location := hl
      have hs : rows.posting.locationSource = sourceName S job.locationSource := hs
      have hne : b.posting.location ≠ [] := ne_nil_of_meaningful hmeaningful
      rcases hno hd b rfl hmeaningful hwins with hnone | hsame | hsame
      · exact absurd (hs.trans hnone) hsome
      · exact hkept b [] rfl (by rw [hl, hs, hsame, locationOr_some hne])
      · exact ⟨hl ▸ hne, call, hcall, job, hjob, hhash.symm, hsame.trans hl.symm, hs.symm⟩
    · exact hkept b _ rfl (hpair.trans heq)
  · rw [candidate_of_ne_ambiguous hd] at hpair
    rcases effectiveLocation_cases (S := S) job ((base.map (·.posting)).map (·.location))
      ((base.map (·.posting)).bind (·.locationSource)) with ⟨heq, hmeaningful, -⟩ | heq
    · obtain ⟨hl, hs⟩ := Prod.mk.inj (hpair.trans heq)
      exact ⟨hl ▸ ne_nil_of_meaningful hmeaningful, call, hcall, job, hjob, hhash.symm, hl.symm,
        hs.symm⟩
    · cases base with
      | none => exact absurd (Prod.mk.inj (hpair.trans heq)).2 hsome
      | some b => exact hkept b _ rfl (hpair.trans heq)

/-! ## Runs -/

/-- **Locations stay with their sources** in every run that never relabels one: in every state it
reaches, a location with a source was reported together with it by one earlier observation of the
job. -/
theorem locations_reported (cfg : Config) (S : Services) (calls : List Call)
    (hno : ∀ before call after, calls = before ++ call :: after → ∀ job ∈ call.jobs,
      ¬ (execAll cfg S Db.empty before).Relabels S job) :
    ∀ before after, calls = before ++ after →
      ∀ p ∈ (execAll cfg S Db.empty before).jobPostings, p.locationSource ≠ none →
        Reported S before p := by
  intro before after hcalls p hp hsource
  have hwf : (execAll cfg S Db.empty before).WF := Reachable.wf ⟨before, rfl⟩
  refine (execAll_job_induction (P := fun rows => LocationReported S before rows.posting) before
    ?_ (hwf.jobOf_posting hp) hsource).2
  intro before' call after' hbefore job hjob ids rows state base hP _ hdel
  have hwf' : (execAll cfg S Db.empty before').WF := Reachable.wf ⟨before', rfl⟩
  have hno' := hno before' call (after' ++ after) (by rw [hcalls, hbefore]; simp) job hjob
  refine LocationReported.deliver (fun b hb => ⟨hP b hb, Db.job_baseHash hb⟩)
    ⟨call, by rw [hbefore]; simp, hjob⟩ (fun hd b hb hmeaningful hwins => ?_) hdel
  by_contra hnot
  push Not at hnot
  refine hno' ⟨by rw [hwf'.classify_eq]; exact hd, b.posting, ?_, hmeaningful, hwins, hnot⟩
  rw [← Db.job_posting]
  exact congrArg (Option.map _) hb

/-- The sample, found in a list of Simplify. -/
def simplifySample : NormalizedJob :=
  { sampleJob with locationSource := some "simplify_github".toList }

/-- Discovered and closed from the list, then reopened without proof by a board that reports another
location. -/
def relabellingCalls : List Call :=
  [.bulk [simplifySample], .bulk [{ simplifySample with isClosed := true }],
    .bulk [{ otherTenant with location := "Berlin".toList }]]

/-- The location of the list is left under the name of the board. -/
theorem relabelled_location : ∃ p ∈ (execAll sampleConfig .ascii .empty
    relabellingCalls).jobPostings, p.location = "Remote".toList ∧
      p.locationSource = some "lever".toList ∧ ¬ Reported .ascii relabellingCalls p := by
  unfold Reported
  decide +kernel

instance (db : Db) (job : NormalizedJob) : Decidable (db.Relabels S job) :=
  decidable_of_iff (db.classify S job = .ambiguousReopen ∧
      (db.postingByHash job.baseHash).any (fun p =>
        isMeaningfulLocation S (some p.location) = true ∧
          sourceWins S (sourceName S job.locationSource) p.locationSource = true ∧
          sourceName S job.locationSource ≠ none ∧
          sourceName S job.locationSource ≠ p.locationSource ∧ job.location ≠ p.location)) <| by
    simp only [Db.Relabels, Option.any_eq_true, decide_eq_true_eq]

/-- Discovered and closed from the list, then reopened without proof by a board that reports the same
location, and seen once more in the list, which has another location by now. -/
def agreeingCalls : List Call :=
  [.bulk [simplifySample], .bulk [{ simplifySample with isClosed := true }],
    .bulk [{ otherTenant with location := "Remote".toList }],
    .save { simplifySample with location := "Berlin".toList }]

/-- The board takes the location over, as it has reported it. -/
theorem sample_location_reported :
    ∃ p ∈ (execAll sampleConfig .ascii .empty agreeingCalls).jobPostings,
      p.location = "Remote".toList ∧ p.locationSource = some "lever".toList ∧
        Reported .ascii agreeingCalls p := by
  have hstored : (execAll sampleConfig .ascii .empty agreeingCalls).jobPostings.any
      (fun p => p.location = "Remote".toList ∧ p.locationSource = some "lever".toList) := by
    decide +kernel
  obtain ⟨p, hp, hstored⟩ := List.any_eq_true.mp hstored
  obtain ⟨hlocation, hsource⟩ := of_decide_eq_true hstored
  have hkept : ∀ i (h : i < agreeingCalls.length), ∀ job ∈ agreeingCalls[i].jobs,
      ¬ (execAll sampleConfig .ascii .empty (agreeingCalls.take i)).Relabels .ascii job := by
    decide +kernel
  refine ⟨p, hp, hlocation, hsource, locations_reported sampleConfig .ascii agreeingCalls ?_ _ []
    (List.append_nil _).symm p hp (by simp [hsource])⟩
  exact Interleaving.forall_split_iff.mpr hkept

end JobPing
