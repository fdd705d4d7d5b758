import JobPing.Locking

/-!
# Concurrent first discovery

Any number of workers may find no row for a job. The upsert serialises them, and the occurrences
are read after it, so that only the worker that inserts the posting discovers the job: whatever the
interleaving, once one of them has committed the job has one discovery, and one worker at most
reports it (`first_discovery`).
-/

namespace JobPing

variable {ι : Type*} [DecidableEq ι] {cfg : Config} {S : Services}

/-! ## Reporting a new role -/

theorem stateForPersistence_eq_new_role {wasCreated createdRepost isClosed changed : Bool}
    {previousClosed : Option Bool} :
    stateForPersistence wasCreated createdRepost previousClosed isClosed changed = .newRole ↔
      wasCreated = true := by
  unfold stateForPersistence
  split_ifs <;> simp_all

/-- Only the first write of a job reports a new role. -/
theorem writeJob_new_role {ids : WriteIds} {base : Option JobRows} {old : Option JobPosting}
    {normalized observation : NormalizedJob} {rows : JobRows}
    (hbase : ∀ b, base = some b → b.Lifecycle)
    (h : writeJob cfg S .bulk ids base old normalized observation = some (rows, .newRole)) :
    base = none := by
  obtain ⟨-, -, -, hstate⟩ := writeEffects_eq_some h
  have hcreated := stateForPersistence_eq_new_role.mp hstate.symm
  rw [upsertRows_latest] at hcreated
  cases base with
  | none => rfl
  | some b =>
    obtain ⟨init, last, -, hlast⟩ := (hbase b rfl).chain.exists_last
    simp [created, latest, hlast] at hcreated

omit [DecidableEq ι] in
theorem Worker.reported_eq_some {worker : Worker} {h : Digest} {outcome : DeduplicationState} :
    worker.reported h = some outcome ↔ worker.status = .committed ∧
      ∃ job rows, worker.job h = some job ∧ worker.stage h = .written rows outcome := by
  unfold Worker.reported
  cases worker.status <;> cases worker.job h <;> cases worker.stage h <;> simp

omit [DecidableEq ι] in
/-- A worker that has reached the end has written every job of its batch. -/
theorem Worker.written_of_reached {worker : Worker} (hreached : worker.reached 4 = true) {h : Digest}
    {job : NormalizedJob} (hjob : worker.job h = some job) :
    ∃ rows outcome, worker.stage h = .written rows outcome := by
  obtain rfl := Worker.job_baseHash hjob
  have hrank := List.all_eq_true.mp hreached job (List.mem_of_find?_eq_some hjob)
  cases hs : worker.stage job.baseHash <;> simp [hs, Stage.rank] at hrank
  exact ⟨_, _, rfl⟩

/-! ## The invariant -/

/-- A job that a worker has committed is stored, and one worker at most reports it as new. -/
structure Cluster.Discovered (c : Cluster ι) (h : Digest) : Prop where
  stored : ∀ w, (c.workers w).status = .committed → ((c.workers w).job h).isSome →
    (c.stored h).isSome
  once : ∀ w w', (c.workers w).reported h = some .newRole →
    (c.workers w').reported h = some .newRole → w = w'

namespace Cluster.Discovered

variable {c d : Cluster ι} {Q : UpsertProperty ι} {h : Digest} {w : ι}

omit [DecidableEq ι] in
/-- A worker that is still running, or rolled back, changes nothing. -/
theorem frame (hdisc : c.Discovered h) (hstored : (c.stored h).isSome → (d.stored h).isSome)
    (hstatus : (d.workers w).status ≠ .committed)
    (hworkers : ∀ w', w' ≠ w → d.workers w' = c.workers w') : d.Discovered h where
  stored := fun w' hcommitted hjob => by
    have hne : w' ≠ w := by
      rintro rfl
      exact hstatus hcommitted
    rw [hworkers w' hne] at hcommitted hjob
    exact hstored (hdisc.stored w' hcommitted hjob)
  once := by
    have hne : ∀ w', (d.workers w').reported h = some .newRole → w' ≠ w := by
      rintro w' hreported rfl
      exact hstatus (Worker.reported_eq_some.mp hreported).1
    intro w₁ w₂ h₁ h₂
    have hne₁ := hne w₁ h₁
    have hne₂ := hne w₂ h₂
    rw [hworkers w₁ hne₁] at h₁
    rw [hworkers w₂ hne₂] at h₂
    exact hdisc.once w₁ w₂ h₁ h₂

/-- **A commit** of a job another worker has discovered does not report it as new. -/
theorem commit (hdisc : c.Discovered h) (hsound : c.Sound cfg S Q)
    (hrun : (c.workers w).status = .running) (hreached : (c.workers w).reached 4 = true) :
    (c.commit w).Discovered h := by
  obtain ⟨hselfjob, hselfstage⟩ := Cluster.commit_self c w h
  -- a worker that reports the job as new wrote it over no rows
  have hnew : ((c.commit w).workers w).reported h = some .newRole → c.stored h = none := by
    intro hreported
    obtain ⟨-, job, rows, hjob, hstage⟩ := Worker.reported_eq_some.mp hreported
    rw [hselfjob] at hjob
    rw [hselfstage] at hstage
    have hwritten := hsound.stage w h job hrun hjob
    rw [hstage] at hwritten
    obtain ⟨found, ids, -, -, -, hwrite⟩ := hwritten
    exact writeJob_new_role (hsound.lifecycle h) hwrite
  have hold : ∀ w', w' ≠ w → ((c.commit w).workers w').reported h = some .newRole →
      ((c.commit w).workers w).reported h ≠ some .newRole := by
    intro w' hne hreported hreported'
    rw [Cluster.commit_other hne] at hreported
    obtain ⟨hcommitted, job, rows, hjob, -⟩ := Worker.reported_eq_some.mp hreported
    have := hdisc.stored w' hcommitted (by simp [hjob])
    simp [hnew hreported'] at this
  refine ⟨fun w' hcommitted hjob => ?_, fun w₁ w₂ h₁ h₂ => ?_⟩
  · rw [Cluster.commit_stored]
    by_cases hw : w' = w
    · rw [hw, hselfjob] at hjob
      obtain ⟨job, hjob⟩ := Option.isSome_iff_exists.mp hjob
      obtain ⟨rows, outcome, hstage⟩ := Worker.written_of_reached hreached hjob
      simp [Cluster.writtenRows_eq_some.mpr ⟨job, outcome, hjob, hstage⟩]
    · rw [Cluster.commit_other hw] at hcommitted hjob
      simp [hdisc.stored w' hcommitted hjob]
  · by_cases hw₁ : w₁ = w
    · by_cases hw₂ : w₂ = w
      · rw [hw₁, hw₂]
      · exact absurd (hw₁ ▸ h₁) (hold w₂ hw₂ h₂)
    · by_cases hw₂ : w₂ = w
      · exact absurd (hw₂ ▸ h₂) (hold w₁ hw₁ h₁)
      · rw [Cluster.commit_other hw₁] at h₁
        rw [Cluster.commit_other hw₂] at h₂
        exact hdisc.once w₁ w₂ h₁ h₂

/-- **Every step** keeps the invariant. -/
theorem step (hdisc : c.Discovered h) (hsound : c.Sound cfg S Q) {action : Action ι}
    (hstep : Cluster.step cfg S action c = some d) : d.Discovered h := by
  rcases Cluster.step_cases hstep with ⟨w, job, rfl, hrun, hjob, hstep⟩ |
    ⟨w, rfl, hrun, hreached, rfl⟩ | ⟨w, rfl, -, rfl⟩
  · obtain ⟨hstored, hstatus, hworkers⟩ := Cluster.statement_frame hstep
    exact hdisc.frame (by rw [hstored]; exact id) (by rw [hstatus, hrun]; simp) hworkers
  · exact hdisc.commit hsound hrun hreached
  · refine hdisc.frame (w := w) id ?_ fun w' hw => ?_
    · simp [Cluster.rollback, Cluster.setWorker]
    · simp [Cluster.rollback, Cluster.setWorker, Cluster.releaseLocks, hw]

end Cluster.Discovered

/-! ## The events of a job -/

namespace JobRows.Lifecycle

variable {rows : JobRows}

/-- No two events of a job announce the same occurrence. -/
theorem event_once (h : rows.Lifecycle) : (rows.events.map (·.occurrenceId)).Nodup := by
  have hsub := h.events.map Prod.fst
  rw [List.map_map, List.map_map] at hsub
  exact (h.chain.id_sorted.imp fun hlt => Nat.ne_of_lt hlt).sublist hsub

/-- Every event announces an occurrence of the job, with its kind. -/
theorem event_announces (h : rows.Lifecycle) :
    ∀ e ∈ rows.events, ∃ o ∈ rows.occurrences, o.id = e.occurrenceId ∧ o.kind = e.eventType := by
  intro e he
  obtain ⟨o, ho, heq⟩ := List.mem_map.mp (h.events.subset (List.mem_map_of_mem he))
  exact ⟨o, ho, congrArg Prod.fst heq, congrArg Prod.snd heq⟩

/-- One event at most announces the discovery. -/
theorem discovery_event_once (h : rows.Lifecycle) :
    (rows.events.filter (·.eventType = .discovered)).length ≤ 1 := by
  have hsub := (h.events.filter fun key => key.2 = .discovered).length_le
  rw [List.filter_map, List.filter_map, List.length_map, List.length_map] at hsub
  exact hsub.trans h.chain.discovered_once.le

end JobRows.Lifecycle

/-! ## First discovery -/

/-- **Concurrent first discovery.** In every state that workers called in a reachable state of the
tables can reach, a job of a committed batch is stored with one discovery; one event at most
announces it, any other one announces a repost of its own; and one worker at most reports the job
as new. -/
theorem first_discovery {db : Db} (hreach : Reachable cfg S db) (batches : ι → Batch)
    {actions : List (Action ι)} {c : Cluster ι}
    (hrun : Interleaving.run (Cluster.step cfg S) (Cluster.start db batches) actions = some c)
    {w : ι} (hcommitted : (c.workers w).status = .committed) {job : NormalizedJob}
    (hjob : job ∈ (c.workers w).jobs) :
    (∃ rows, c.stored job.baseHash = some rows ∧
      (rows.occurrences.filter (·.kind = .discovered)).length = 1 ∧
      (rows.events.filter (·.eventType = .discovered)).length ≤ 1 ∧
      (rows.events.map (·.occurrenceId)).Nodup ∧
      ∀ e ∈ rows.events, ∃ o ∈ rows.occurrences, o.id = e.occurrenceId ∧ o.kind = e.eventType) ∧
    ∀ w₁ w₂, (c.workers w₁).reported job.baseHash = some .newRole →
      (c.workers w₂).reported job.baseHash = some .newRole → w₁ = w₂ := by
  have hsound : c.Sound cfg S (fun _ _ _ _ => True) :=
    Cluster.Sound.run hreach batches (fun _ _ _ _ _ _ _ _ _ _ _ _ _ => trivial) hrun
  have hdisc : c.Discovered job.baseHash := by
    refine (Interleaving.run_invariant (I := fun c => c.Sound cfg S (fun _ _ _ _ => True) ∧
      c.Discovered job.baseHash) ?_ ?_ hrun).2
    · refine ⟨Cluster.Sound.start hreach batches, ?_, ?_⟩
      · rintro w ⟨⟩
      · intro w w' hreported
        cases (Worker.reported_eq_some.mp hreported).1
    · rintro before action after c d - - hstep ⟨hsound, hdisc⟩
      exact ⟨hsound.step (fun _ _ _ _ _ _ _ => trivial) hstep, hdisc.step hsound hstep⟩
  have hfind : ((c.workers w).job job.baseHash).isSome := by
    rw [Worker.job, List.find?_isSome]
    exact ⟨job, hjob, by simp⟩
  obtain ⟨rows, hrows⟩ := Option.isSome_iff_exists.mp (hdisc.stored w hcommitted hfind)
  have hlife := hsound.lifecycle _ rows hrows
  exact ⟨⟨rows, hrows, hlife.chain.discovered_once, hlife.discovery_event_once, hlife.event_once,
    hlife.event_announces⟩, hdisc.once⟩

/-- The sample, its closure, and a new posting of the tenant. -/
def openCloseRepost (worker : Fin 3) : NormalizedJob :=
  match worker with
  | 0 => sampleJob
  | 1 => { sampleJob with isClosed := true }
  | 2 => { sampleJob with
      applyUrl := "https://jobs.lever.co/acme/2".toList
      sourceId := some "2".toList }

/-- One after the other, three workers discover, close and repost a job, with an event for the
discovery and one for the repost. -/
theorem reposted_after_discovery :
    (Interleaving.run (Cluster.step sampleConfig .ascii)
      (Cluster.start Db.empty fun worker => Batch.ofJob 1 (openCloseRepost worker))
      ([0, 1, 2].flatMap fun worker => wholeTransaction worker sampleJob.baseHash)).any
        (fun c => (c.stored sampleJob.baseHash).any fun rows =>
          rows.events.map (·.eventType) = [.discovered, .reposted] &&
            [0, 1, 2].all fun worker => (c.workers worker).status = .committed) = true := by
  decide +kernel

/-- Both workers find nothing; then the one discovers the sample, and the other closes it. -/
def contendedDiscovery : List (Action Bool) :=
  statements 1 true sampleJob.baseHash ++ statements 1 false sampleJob.baseHash ++
    statements 3 true sampleJob.baseHash ++ [.commit true] ++
    statements 3 false sampleJob.baseHash ++ [.commit false]

/-- Of two workers that find nothing, one reports the sample as new. -/
theorem contended_discovery_once : ∃ c,
    Interleaving.run (Cluster.step sampleConfig .ascii) (Cluster.start Db.empty fun worker =>
      Batch.ofJob 1 { sampleJob with isClosed := worker }) contendedDiscovery = some c ∧
      ∀ w₁ w₂, (c.workers w₁).reported sampleJob.baseHash = some .newRole →
        (c.workers w₂).reported sampleJob.baseHash = some .newRole → w₁ = w₂ := by
  have hdone : (Interleaving.run (Cluster.step sampleConfig .ascii) (Cluster.start Db.empty
      fun worker => Batch.ofJob 1 { sampleJob with isClosed := worker })
      contendedDiscovery).any (fun c => (c.workers true).status = .committed &&
        { sampleJob with isClosed := true } ∈ (c.workers true).jobs) = true := by decide +kernel
  obtain ⟨c, hrun, hc⟩ := (Option.any_eq_true _ _).mp hdone
  rw [Bool.and_eq_true, decide_eq_true_eq, decide_eq_true_eq] at hc
  exact ⟨c, hrun, (first_discovery ⟨[], rfl⟩ _ hrun hc.1 hc.2).2⟩

end JobPing
