import JobPing.FirstDiscovery
import JobPing.Ambiguous

/-!
# A committed closure and weak writers

A worker whose pre-read found the row decides on what it overwrites, so a weak observation of a
closed job stays ambiguous and keeps the closure. A worker whose pre-read found no row decides to
discover the job, whatever has been committed by its upsert. When no such worker commits an open
weak observation over a closed job, every closure survives (`closure_survives`).
-/

namespace JobPing

variable {ι : Type*} [DecidableEq ι] {cfg : Config} {S : Services}

/-- An open observation of a closed job that has no identity among the evidence of the latest
occurrence and is no repost candidate against it. -/
structure WeakReopen (S : Services) (b : JobRows) (job : NormalizedJob) : Prop where
  closed : b.posting.isClosed = true
  opened : job.isClosed = false
  identity : ∀ last, b.occurrences.getLast? = some last → ∀ identity,
    candidateIdentity S job = some identity → identity ∉ occurrenceIdentities S last b.observations
  repost : ∀ last, b.occurrences.getLast? = some last →
    isRepostCandidate S job (job.source.getD []) b.posting
      (last, occurrenceIdentities S last b.observations) = false

/-- The evidence of the latest occurrence, checked. -/
theorem WeakReopen.of_checks {b : JobRows} {job : NormalizedJob}
    (hclosed : b.posting.isClosed = true) (hopen : job.isClosed = false)
    (hchecks : (b.occurrences.getLast?.all fun last =>
      ((candidateIdentity S job).all fun identity =>
        identity ∉ occurrenceIdentities S last b.observations) &&
      !isRepostCandidate S job (job.source.getD []) b.posting
        (last, occurrenceIdentities S last b.observations)) = true) : WeakReopen S b job where
  closed := hclosed
  opened := hopen
  identity := fun last hlast identity hidentity => by
    simp only [hlast, hidentity, Option.all_some, Bool.and_eq_true, decide_eq_true_eq] at hchecks
    exact hchecks.1
  repost := fun last hlast => by
    simp only [hlast, Option.all_some, Bool.and_eq_true, Bool.not_eq_true'] at hchecks
    exact hchecks.2

/-- A weak observation is ambiguous. -/
theorem WeakReopen.ambiguous {b : JobRows} {job : NormalizedJob} (h : WeakReopen S b job)
    (hlife : b.Lifecycle) : decision S (some b) job = .ambiguousReopen := by
  obtain ⟨init, last, -, hlast⟩ := hlife.chain.exists_last
  rw [decision_of_last hlast]
  exact ambiguous_of_weak h.closed h.opened ((hlife.closed last hlast).trans h.closed)
    (h.identity last hlast) (h.repost last hlast)

/-- An upsert that overwrites a closed job its worker has not found with a weak observation. -/
def Cluster.StaleReopen (S : Services) (c : Cluster ι) (w : ι) (h : Digest) : Prop :=
  ∃ job b, (c.workers w).job h = some job ∧ (c.workers w).stage h = .preRead none ∧
    c.stored h = some b ∧ WeakReopen S b job

/-- **A committed closure survives** every commit of a weak observation, in any run in which no
worker that commits makes a stale reopening upsert. -/
theorem closure_survives {db : Db} (hreach : Reachable cfg S db) (batches : ι → Batch)
    {actions : List (Action ι)}
    (hno : ∀ before w h after c, actions = before ++ .next w h :: after → .commit w ∈ after →
      Interleaving.run (Cluster.step cfg S) (Cluster.start db batches) before = some c →
      ¬ c.StaleReopen S w h) :
    ∀ before w after c d, actions = before ++ .commit w :: after →
      Interleaving.run (Cluster.step cfg S) (Cluster.start db batches) before = some c →
      Cluster.step cfg S (.commit w) c = some d →
      ∀ job ∈ (c.workers w).jobs, ∀ b, c.stored job.baseHash = some b → WeakReopen S b job →
        ∃ b', d.stored job.baseHash = some b' ∧ b'.posting.isClosed = true ∧
          b'.occurrences = b.occurrences ∧
          ∀ o, b'.occurrences.getLast? = some o → o.closedAt.isSome = true := by
  intro before w after c d hactions hc hstep job hmem b hb hweak
  -- no upsert of the committing worker was stale
  have hsound : c.Sound cfg S (fun w' found stored job => w' = w → found = none →
      ∀ b, stored = some b → ¬ WeakReopen S b job) := by
    refine Cluster.Sound.run hreach batches ?_ hc
    rintro p action s e rfl he w' h job found rfl hjob hstage rfl rfl b hb hweak
    refine hno p w' h (s ++ .commit w' :: after) e ?_ (by simp) he ⟨job, b, hjob, hstage, hb, hweak⟩
    rw [hactions]
    simp
  obtain ⟨hrun, hreached, rfl⟩ : (c.workers w).status = .running ∧
      (c.workers w).reached 4 = true ∧ d = c.commit w := by
    rcases Cluster.step_cases hstep with ⟨_, _, h, -⟩ | ⟨_, h, hcommit⟩ | ⟨_, h, -⟩ <;> cases h
    exact hcommit
  have hjob : (c.workers w).job job.baseHash = some job :=
    Table.find?_key (c.workers w).unique hmem
  obtain ⟨rows, outcome, hstage⟩ := Worker.written_of_reached hreached hjob
  have hwritten := hsound.stage w _ job hrun hjob
  rw [hstage] at hwritten
  obtain ⟨found, ids, hholds, -, -, hwrite⟩ := hwritten
  have hlife := hsound.lifecycle _ b hb
  rw [hb] at hholds hwrite
  cases found with
  | none => exact absurd hweak (hholds.upsert rfl rfl b rfl)
  | some b₀ =>
    obtain rfl : b = b₀ := Option.some.inj (hholds.kept b₀ rfl)
    -- the worker decided on the rows it overwrites
    rw [Option.map_some, hholds.delivered, deliver_ambiguous cfg .bulk hlife (hweak.ambiguous hlife),
      Option.some.injEq, Prod.mk.injEq] at hwrite
    obtain ⟨rfl, -⟩ := hwrite
    obtain ⟨hclosed, -⟩ := ambiguousPosting_eq S .bulk ids.company b.posting job
    refine ⟨ambiguousRows S .bulk ids.company b job, ?_, hclosed, rfl,
      fun o ho => (hlife.closed o ho).trans hweak.closed⟩
    rw [Cluster.commit_stored, Cluster.writtenRows_eq_some.mpr ⟨job, outcome, hjob, hstage⟩]
    rfl

/-! ## A stale worker -/

/-- The tables with the company of the sample, known by another job. -/
def companySample : Db :=
  execAll sampleConfig .ascii .empty [.save { sampleJob with baseHash := sampleHash 'e' rfl }]

/-- The sample, its closure, and a row of another tenant. -/
def openCloseWeak (worker : Fin 3) : NormalizedJob :=
  match worker with
  | 0 => { sampleJob with companyId := some 1 }
  | 1 => { sampleJob with companyId := some 1, isClosed := true }
  | 2 => { otherTenant with companyId := some 1 }

/-- The third worker finds nothing, and upserts its row after the others have committed. -/
def staleSchedule : List (Action (Fin 3)) :=
  statements 1 2 sampleJob.baseHash ++ wholeTransaction 0 sampleJob.baseHash ++
    wholeTransaction 1 sampleJob.baseHash ++ statements 3 2 sampleJob.baseHash

/-- The commit of the weak row reopens the closed job. -/
theorem stale_worker_reopens : Reachable sampleConfig .ascii companySample ∧
    ∃ c d b, Interleaving.run (Cluster.step sampleConfig .ascii)
        (Cluster.start companySample fun worker => Batch.ofJob 1 (openCloseWeak worker))
        staleSchedule = some c ∧
      Cluster.step sampleConfig .ascii (.commit 2) c = some d ∧
      openCloseWeak 2 ∈ (c.workers 2).jobs ∧
      c.stored sampleJob.baseHash = some b ∧ WeakReopen .ascii b (openCloseWeak 2) ∧
      (d.stored sampleJob.baseHash).map (·.posting.isClosed) = some false ∧
      (d.stored sampleJob.baseHash).map (·.occurrences.map (·.closedAt)) = some [none] := by
  have hrun : (Interleaving.run (Cluster.step sampleConfig .ascii)
      (Cluster.start companySample fun worker => Batch.ofJob 1 (openCloseWeak worker))
      staleSchedule).any (fun c =>
        openCloseWeak 2 ∈ (c.workers 2).jobs &&
        (Cluster.step sampleConfig .ascii (.commit 2) c).any (fun d =>
          (d.stored sampleJob.baseHash).map (·.posting.isClosed) = some false &&
          (d.stored sampleJob.baseHash).map (·.occurrences.map (·.closedAt)) = some [none]) &&
        (c.stored sampleJob.baseHash).any fun b => b.posting.isClosed &&
          b.occurrences.getLast?.all fun last =>
            ((candidateIdentity .ascii (openCloseWeak 2)).all fun identity =>
              identity ∉ occurrenceIdentities .ascii last b.observations) &&
            !isRepostCandidate .ascii (openCloseWeak 2)
              ((openCloseWeak 2).source.getD []) b.posting
              (last, occurrenceIdentities .ascii last b.observations)) = true := by
    decide +kernel
  obtain ⟨c, hc, hrest⟩ := (Option.any_eq_true _ _).mp hrun
  simp only [Bool.and_eq_true, decide_eq_true_eq] at hrest
  obtain ⟨⟨hmem, hstep⟩, hstored⟩ := hrest
  obtain ⟨d, hd, hopen⟩ := (Option.any_eq_true _ _).mp hstep
  obtain ⟨b, hb, hweak⟩ := (Option.any_eq_true _ _).mp hstored
  simp only [Bool.and_eq_true, decide_eq_true_eq] at hopen
  simp only [Bool.and_eq_true] at hweak
  exact ⟨⟨_, rfl⟩, c, d, b, hc, hd, hmem, hb, .of_checks hweak.1 rfl hweak.2, hopen⟩

/-- Whether a job is at the pre-read that found no row. -/
def Stage.missed : Stage → Bool
  | preRead none => true
  | _ => false

/-- The first two workers find nothing and commit one after the other; the third one finds the closed
row. -/
def promptSchedule : List (Action (Fin 3)) :=
  statements 1 0 sampleJob.baseHash ++ statements 1 1 sampleJob.baseHash ++
    statements 3 0 sampleJob.baseHash ++ [.commit 0] ++ statements 3 1 sampleJob.baseHash ++
      [.commit 1] ++ statements 4 2 sampleJob.baseHash

/-- A worker that has found the closed row keeps it closed, after the race of two others. -/
theorem prompt_worker_keeps_closure : ∃ c d b', Interleaving.run (Cluster.step sampleConfig .ascii)
      (Cluster.start companySample fun worker => Batch.ofJob 1 (openCloseWeak worker))
      promptSchedule = some c ∧
    Cluster.step sampleConfig .ascii (.commit 2) c = some d ∧
    d.stored sampleJob.baseHash = some b' ∧ b'.posting.isClosed = true := by
  have hdone : (Interleaving.run (Cluster.step sampleConfig .ascii)
      (Cluster.start companySample fun worker => Batch.ofJob 1 (openCloseWeak worker))
      promptSchedule).any (fun c => openCloseWeak 2 ∈ (c.workers 2).jobs &&
        (Cluster.step sampleConfig .ascii (.commit 2) c).isSome &&
        (c.stored sampleJob.baseHash).any fun b => b.posting.isClosed &&
          b.occurrences.getLast?.all fun last =>
            ((candidateIdentity .ascii (openCloseWeak 2)).all fun identity =>
              identity ∉ occurrenceIdentities .ascii last b.observations) &&
            !isRepostCandidate .ascii (openCloseWeak 2)
              ((openCloseWeak 2).source.getD []) b.posting
              (last, occurrenceIdentities .ascii last b.observations)) = true := by
    decide +kernel
  obtain ⟨c, hc, hrest⟩ := (Option.any_eq_true _ _).mp hdone
  simp only [Bool.and_eq_true, decide_eq_true_eq] at hrest
  obtain ⟨⟨hmem, hstep⟩, hstored⟩ := hrest
  obtain ⟨d, hd⟩ := Option.isSome_iff_exists.mp hstep
  obtain ⟨b, hb, hweak⟩ := (Option.any_eq_true _ _).mp hstored
  simp only [Bool.and_eq_true] at hweak
  -- where a worker has found nothing there still is nothing, or its job is closed
  have hfound : ∀ n < 16, (Interleaving.run (Cluster.step sampleConfig .ascii)
      (Cluster.start companySample fun worker => Batch.ofJob 1 (openCloseWeak worker))
      ((promptSchedule ++ [Action.commit 2]).take n)).all (fun c =>
        decide (∀ w, ((c.workers w).stage sampleJob.baseHash).missed = true →
          (c.stored sampleJob.baseHash).isNone = true ∨
            ((c.workers w).job sampleJob.baseHash).all (·.isClosed) = true)) = true := by
    decide +kernel
  have hreach : Reachable sampleConfig .ascii companySample := ⟨_, rfl⟩
  have hsurvives := closure_survives hreach
    (fun worker => Batch.ofJob 1 (openCloseWeak worker)) ?_ promptSchedule 2 [] c d rfl hc hd
    (openCloseWeak 2) hmem b hb (.of_checks hweak.1 rfl hweak.2)
  · obtain ⟨b', hb', hclosed, -⟩ := hsurvives
    exact ⟨c, d, b', hc, hd, hb', hclosed⟩
  · rintro before w h after c hactions - hrun ⟨job, b, hjob, hstage, hb, hstale⟩
    have hlength : before.length < 16 := by
      have hlength := congrArg List.length hactions
      simp only [promptSchedule, statements, List.length_append, List.length_replicate,
        List.length_cons, List.length_nil] at hlength
      omega
    have hbefore : before = (promptSchedule ++ [Action.commit 2]).take before.length := by
      rw [hactions]
      simp
    have hnext : Action.next w h ∈ promptSchedule ++ [.commit 2] := by
      rw [hactions]
      simp
    obtain rfl : h = sampleJob.baseHash := by
      simp only [promptSchedule, statements, List.mem_append, List.mem_replicate,
        List.mem_singleton, Action.next.injEq, reduceCtorEq, or_false] at hnext
      tauto
    have hlast := hfound before.length hlength
    rw [← hbefore, hrun, Option.all_some, decide_eq_true_eq] at hlast
    rcases hlast w (by rw [hstage]; rfl) with hnone | hclosed
    · rw [hb] at hnone
      cases hnone
    · rw [hjob, Option.all_some, hstale.opened] at hclosed
      cases hclosed

end JobPing
