import JobPing.Workers

/-!
# What the row locks protect

From its upsert to the end of its transaction a worker holds the row of a job, and with it the
committed rows of the job stay as they were. So whatever a worker commits is one write of the
serial model over the rows then committed (`StageSound`), prepared against the same rows or, when
the pre-read found nothing, against none. Every run keeps this invariant (`Cluster.Sound.run`).
-/

namespace JobPing

variable {ι : Type*} [DecidableEq ι] {cfg : Config} {S : Services}

/-! ## The invariant -/

/-- A property of the upserts of a run: it relates the worker, the rows it found, the rows stored,
and the job. -/
abbrev UpsertProperty (ι : Type*) := ι → Option JobRows → Option JobRows → NormalizedJob → Prop

/-- A worker that has upserted a job: it holds the row, the rows it found are still stored, and its
upsert had the property. -/
structure Holds (Q : UpsertProperty ι) (lock : Option ι) (stored : Option JobRows) (worker : ι)
    (job : NormalizedJob) (found : Option JobRows) : Prop where
  held : lock = some worker
  kept : ∀ b, found = some b → stored = some b
  upsert : Q worker found stored job

/-- What a worker did for a job, in terms of the rows committed now. -/
def StageSound (cfg : Config) (S : Services) (Q : UpsertProperty ι) (lock : Option ι)
    (stored : Option JobRows) (seq : ℕ) (worker : ι) (job : NormalizedJob) : Stage → Prop
  | .waiting => True
  | .preRead found => ∀ b, found = some b → lock = some worker ∧ stored = some b
  | .upserted found posting => Holds Q lock stored worker job found ∧
      ∃ id company, posting = (upsertedRows S id company found stored job).posting
  | .occurrenceRead found rows => Holds Q lock stored worker job found ∧
      ∃ id company, rows = upsertedRows S id company found stored job
  | .written rows outcome => ∃ found ids, Holds Q lock stored worker job found ∧
      (∀ b, stored = some b → ∀ o ∈ b.occurrences, o.id < ids.occurrence) ∧ ids.occurrence < seq ∧
      writeJob cfg S .bulk ids stored (found.map (·.posting)) (candidate S found job) job =
        some (rows, outcome)

/-- **The invariant of the system.** -/
structure Cluster.Sound (cfg : Config) (S : Services) (Q : UpsertProperty ι) (c : Cluster ι) :
    Prop where
  lifecycle : ∀ h b, c.stored h = some b → b.Lifecycle
  fresh : ∀ h b, c.stored h = some b → ∀ o ∈ b.occurrences, o.id < c.occurrenceSeq
  stage : ∀ w h job, (c.workers w).status = .running → (c.workers w).job h = some job →
    StageSound cfg S Q (c.lock h) (c.stored h) c.occurrenceSeq w job ((c.workers w).stage h)

omit [DecidableEq ι] in
/-- A worker keeps what it knows while nobody takes its row. -/
theorem StageSound.frame {Q : UpsertProperty ι} {lock lock' : Option ι}
    {stored stored' : Option JobRows} {seq seq' : ℕ} {w : ι} {job : NormalizedJob} {stage : Stage}
    (h : StageSound cfg S Q lock stored seq w job stage)
    (hkeep : lock = some w → lock' = some w ∧ stored' = stored) (hseq : seq ≤ seq') :
    StageSound cfg S Q lock' stored' seq' w job stage := by
  cases stage with
  | waiting => trivial
  | preRead found =>
    intro b hb
    obtain ⟨hlock, hstored⟩ := h b hb
    obtain ⟨hlock', rfl⟩ := hkeep hlock
    exact ⟨hlock', hstored⟩
  | upserted found posting =>
    obtain ⟨hholds, hrest⟩ := h
    obtain ⟨hlock', rfl⟩ := hkeep hholds.held
    exact ⟨⟨hlock', hholds.kept, hholds.upsert⟩, hrest⟩
  | occurrenceRead found rows =>
    obtain ⟨hholds, hrest⟩ := h
    obtain ⟨hlock', rfl⟩ := hkeep hholds.held
    exact ⟨⟨hlock', hholds.kept, hholds.upsert⟩, hrest⟩
  | written rows outcome =>
    obtain ⟨found, ids, hholds, hfresh, hlt, hwrite⟩ := h
    obtain ⟨hlock', rfl⟩ := hkeep hholds.held
    exact ⟨found, ids, ⟨hlock', hholds.kept, hholds.upsert⟩, hfresh, hlt.trans_le hseq, hwrite⟩

/-! ## What a worker wrote -/

/-- A write leaves no id from the bound on. -/
theorem OccurrenceWrite.id_lt {id bound : ℕ} {base : Option JobRows} {rows' : JobRows}
    (h : OccurrenceWrite cfg id rows' base) (hid : id < bound)
    (hbase : ∀ b, base = some b → ∀ o ∈ b.occurrences, o.id < bound) :
    ∀ o ∈ rows'.occurrences, o.id < bound := by
  cases h with
  | discover o hocc ho =>
    rw [hocc]
    simpa [ho] using hid
  | repost b init last o hb hocc ho =>
    rw [hocc, ← hb]
    intro x hx
    rcases List.mem_append.mp hx with hx | hx
    · exact hbase b rfl x hx
    · rw [List.mem_singleton.mp hx, ho]
      exact hid
  | update b init last o hb hocc ho =>
    rw [hocc]
    intro x hx
    have hlast : last.id < bound := hbase b rfl last (by simp [hb])
    rcases List.mem_append.mp hx with hx | hx
    · exact hbase b rfl x (by simp [hb, hx])
    · rw [List.mem_singleton.mp hx, ho]
      exact hlast

omit [DecidableEq ι] in
/-- A worker that holds its row may write. -/
theorem Holds.ready {Q : UpsertProperty ι} {lock : Option ι} {stored : Option JobRows} {w : ι}
    {job : NormalizedJob} {found : Option JobRows} (h : Holds Q lock stored w job found) {id : ℕ}
    (hlife : ∀ b, stored = some b → b.Lifecycle)
    (hfresh : ∀ b, stored = some b → ∀ o ∈ b.occurrences, o.id < id) :
    WriteReady .bulk id stored (found.map (·.posting)) := by
  refine ⟨hlife, hfresh, ?_⟩
  cases found with
  | none => exact .inr ⟨rfl, rfl⟩
  | some b => exact .inl (by rw [h.kept b rfl])

omit [DecidableEq ι] in
/-- **A worker whose pre-read found the stored rows** makes the delivery of the serial model. -/
theorem Holds.delivered {Q : UpsertProperty ι} {lock : Option ι} {stored : Option JobRows} {w : ι}
    {job : NormalizedJob} {b : JobRows} (h : Holds Q lock stored w job (some b)) (ids : WriteIds) :
    writeJob cfg S .bulk ids stored (some b.posting) (candidate S (some b) job) job =
      deliverJob cfg S .bulk ids stored job := by
  rw [h.kept b rfl]
  rfl

omit [DecidableEq ι] in
/-- What a worker wrote satisfies the invariant of the serial model. -/
theorem StageSound.written_lifecycle {Q : UpsertProperty ι} {lock : Option ι}
    {stored : Option JobRows} {seq : ℕ} {w : ι} {job : NormalizedJob} {rows : JobRows}
    {outcome : DeduplicationState}
    (h : StageSound cfg S Q lock stored seq w job (.written rows outcome))
    (hlife : ∀ b, stored = some b → b.Lifecycle)
    (hfresh : ∀ b, stored = some b → ∀ o ∈ b.occurrences, o.id < seq) :
    rows.Lifecycle ∧ ∀ o ∈ rows.occurrences, o.id < seq := by
  obtain ⟨found, ids, hholds, hids, hlt, hwrite⟩ := h
  obtain ⟨hcases, hclosed⟩ := (hholds.ready hlife hids).cases hwrite
  exact ⟨hcases.lifecycle hclosed hlife, hcases.id_lt hlt hfresh⟩

/-! ## Parts of a step -/

omit [DecidableEq ι] in
theorem Worker.job_baseHash {worker : Worker} {h : Digest} {job : NormalizedJob}
    (hjob : worker.job h = some job) : job.baseHash = h := by
  simpa using List.find?_some hjob

/-- After its upsert a worker sees the upserted rows. -/
theorem visibleRows_upserted (S : Services) (id company : ℕ) (found stored : Option JobRows)
    (job : NormalizedJob) :
    visibleRows stored (upsertedRows S id company found stored job).posting =
      upsertedRows S id company found stored job := by
  cases stored <;> rfl

namespace Cluster

variable {c d : Cluster ι} {Q : UpsertProperty ι} {w : ι} {h : Digest}

theorem setStage_stage (c : Cluster ι) (w w' : ι) (h h' : Digest) (stage : Stage) :
    ((c.setStage w h stage).workers w').stage h' =
      if w' = w ∧ h' = h then stage else (c.workers w').stage h' := by
  by_cases hw : w' = w
  · subst hw
    by_cases hh : h' = h
    · subst hh
      simp [setStage, setWorker]
    · simp [setStage, setWorker, hh]
  · simp [setStage, setWorker, hw]

@[simp] theorem setStage_status (c : Cluster ι) (w w' : ι) (h : Digest) (stage : Stage) :
    ((c.setStage w h stage).workers w').status = (c.workers w').status := by
  by_cases hw : w' = w
  · subst hw
    simp [setStage, setWorker]
  · simp [setStage, setWorker, hw]

@[simp] theorem setStage_job (c : Cluster ι) (w w' : ι) (h h' : Digest) (stage : Stage) :
    ((c.setStage w h stage).workers w').job h' = (c.workers w').job h' := by
  by_cases hw : w' = w
  · subst hw
    simp [setStage, setWorker, Worker.job]
  · simp [setStage, setWorker, hw]

/-- A lockable row is not taken from anyone. -/
theorem takeLock_keeps (hlock : c.lockable w h = true) {w' : ι} {h' : Digest}
    (hheld : c.lock h' = some w') : (c.takeLock w h).lock h' = some w' := by
  by_cases hh : h' = h
  · subst hh
    simp only [lockable, hheld, Bool.or_eq_true, decide_eq_true_eq, reduceCtorEq, false_or,
      Option.some.injEq] at hlock
    simp [takeLock, hlock]
  · simp [takeLock, hh, hheld]

theorem releaseLocks_keeps {w' : ι} {h' : Digest} (hheld : c.lock h' = some w') (hne : w' ≠ w) :
    (c.releaseLocks w).lock h' = some w' := by
  simp [releaseLocks, hheld, hne]

/-- **A statement keeps the invariant** if it takes no row from anyone and what it does for its job
is sound. -/
theorem Sound.setStage (hsound : c.Sound cfg S Q) (hstored : d.stored = c.stored)
    (hworkers : d.workers = c.workers)
    (hkeep : ∀ w' h', c.lock h' = some w' → d.lock h' = some w')
    (hseq : c.occurrenceSeq ≤ d.occurrenceSeq) {stage : Stage} {job : NormalizedJob}
    (hjob : (c.workers w).job h = some job)
    (hstage : StageSound cfg S Q (d.lock h) (d.stored h) d.occurrenceSeq w job stage) :
    (d.setStage w h stage).Sound cfg S Q where
  lifecycle := fun h' b hb => hsound.lifecycle h' b (hstored ▸ hb)
  fresh := fun h' b hb o ho => (hsound.fresh h' b (hstored ▸ hb) o ho).trans_le hseq
  stage := fun w' h' job' hrun hjob' => by
    rw [setStage_status, hworkers] at hrun
    rw [setStage_job, hworkers] at hjob'
    rw [setStage_stage, hworkers]
    change StageSound cfg S Q (d.lock h') (d.stored h') d.occurrenceSeq w' job' _
    split_ifs with heq
    · obtain ⟨rfl, rfl⟩ := heq
      rw [hjob, Option.some.injEq] at hjob'
      exact hjob' ▸ hstage
    · refine (hsound.stage w' h' job' hrun hjob').frame (fun hheld => ?_) hseq
      exact ⟨hkeep w' h' hheld, congrFun hstored h'⟩

/-- **The end of a transaction keeps the invariant** if the rows it leaves satisfy it and only those
it held may have changed. -/
theorem Sound.finish (hsound : c.Sound cfg S Q) (stored : Digest → Option JobRows)
    {status : TransactionStatus} (hstatus : status ≠ .running)
    (hrows : ∀ h b, stored h = some b → b.Lifecycle ∧ ∀ o ∈ b.occurrences, o.id < c.occurrenceSeq)
    (hframe : ∀ h, c.lock h ≠ some w → stored h = c.stored h) :
    ({ c.releaseLocks w with stored := stored }.setWorker w
      { c.workers w with status := status }).Sound cfg S Q where
  lifecycle := fun h b hb => (hrows h b hb).1
  fresh := fun h b hb => (hrows h b hb).2
  stage := fun w' h job hrun hjob => by
    by_cases hw : w' = w
    · subst hw
      simp only [setWorker, Function.update_self] at hrun
      exact absurd hrun hstatus
    · simp only [setWorker, Function.update_of_ne hw] at hrun hjob ⊢
      refine (hsound.stage w' h job hrun hjob).frame (fun hheld => ?_) le_rfl
      exact ⟨releaseLocks_keeps hheld hw, hframe h (by rw [hheld]; simpa using hw)⟩

theorem Sound.rollback (hsound : c.Sound cfg S Q) (w : ι) : (c.rollback w).Sound cfg S Q :=
  hsound.finish c.stored (by simp)
    (fun h b hb => ⟨hsound.lifecycle h b hb, hsound.fresh h b hb⟩) fun _ _ => rfl

omit [DecidableEq ι] in
/-- The rows a worker leaves are those it wrote. -/
theorem writtenRows_eq_some {worker : Worker} {rows : JobRows} :
    worker.writtenRows h = some rows ↔
      ∃ job outcome, worker.job h = some job ∧ worker.stage h = .written rows outcome := by
  unfold Worker.writtenRows
  cases worker.job h <;> cases worker.stage h <;> simp

theorem Sound.commit (hsound : c.Sound cfg S Q) (hrun : (c.workers w).status = .running) :
    (c.commit w).Sound cfg S Q := by
  refine hsound.finish _ (by simp) (fun h b hb => ?_) fun h hlock => ?_
  · rcases Option.or_eq_some_iff.mp hb with hw | ⟨-, hb⟩
    · obtain ⟨job, outcome, hjob, hstage⟩ := writtenRows_eq_some.mp hw
      have hwritten := hsound.stage w h job hrun hjob
      rw [hstage] at hwritten
      exact hwritten.written_lifecycle (hsound.lifecycle h) (hsound.fresh h)
    · exact ⟨hsound.lifecycle h b hb, hsound.fresh h b hb⟩
  · cases hw : (c.workers w).writtenRows h with
    | none => rfl
    | some rows =>
      obtain ⟨job, outcome, hjob, hstage⟩ := writtenRows_eq_some.mp hw
      have hwritten := hsound.stage w h job hrun hjob
      rw [hstage] at hwritten
      obtain ⟨found, ids, hholds, -⟩ := hwritten
      exact absurd hholds.held hlock

/-- **Every statement** keeps the invariant, if an upsert has the property. -/
theorem Sound.statement (hsound : c.Sound cfg S Q) (hrun : (c.workers w).status = .running)
    {job : NormalizedJob} (hjob : (c.workers w).job job.baseHash = some job)
    (hQ : ∀ found, (c.workers w).stage job.baseHash = .preRead found →
      Q w found (c.stored job.baseHash) job)
    (hstep : c.statement cfg S w job = some d) : d.Sound cfg S Q := by
  have hstage := hsound.stage w _ job hrun hjob
  unfold Cluster.statement at hstep
  cases hs : (c.workers w).stage job.baseHash with
  | waiting =>
    simp only [hs] at hstep
    cases hb : c.stored job.baseHash with
    | none =>
      simp only [hb, Option.some.injEq] at hstep
      subst hstep
      exact hsound.setStage rfl rfl (fun _ _ h => h) le_rfl hjob fun b hb => by cases hb
    | some b =>
      simp only [hb, Option.ite_none_right_eq_some, Option.some.injEq] at hstep
      obtain ⟨hlock, rfl⟩ := hstep
      refine hsound.setStage (d := c.takeLock w _) rfl rfl
        (fun _ _ h => takeLock_keeps hlock h) le_rfl hjob ?_
      rintro _ ⟨⟩
      exact ⟨by simp [takeLock], hb⟩
  | preRead found =>
    simp only [hs, Option.ite_none_right_eq_some, Option.some.injEq] at hstep
    obtain ⟨hlock, rfl⟩ := hstep
    rw [hs] at hstage
    refine hsound.setStage (d := { c.takeLock w _ with postingSeq := c.postingSeq + 1 }) rfl rfl
      (fun _ _ h => takeLock_keeps hlock h) le_rfl hjob ?_
    exact ⟨⟨by simp [takeLock], fun b hb => (hstage b hb).2, hQ found hs⟩, _, _, rfl⟩
  | upserted found posting =>
    simp only [hs, Option.some.injEq] at hstep
    subst hstep
    rw [hs] at hstage
    obtain ⟨hholds, id, company, rfl⟩ := hstage
    refine hsound.setStage rfl rfl (fun _ _ h => h) le_rfl hjob ?_
    exact ⟨hholds, id, company, visibleRows_upserted S id company found _ job⟩
  | occurrenceRead found rows =>
    rw [hs] at hstage
    obtain ⟨hholds, id, company, rfl⟩ := hstage
    simp only [hs] at hstep
    cases hw : writeEffects cfg S .bulk c.occurrenceSeq
        (upsertedRows S id company found (c.stored job.baseHash) job) (found.map (·.posting))
        (candidate S found job) job with
    | none => simp [hw] at hstep
    | some r =>
      simp only [hw, Option.some.injEq] at hstep
      subst hstep
      refine hsound.setStage (d := { c with occurrenceSeq := c.occurrenceSeq + 1 }) rfl rfl
        (fun _ _ h => h) (Nat.le_succ _) hjob ?_
      exact ⟨found, ⟨company, id, c.occurrenceSeq⟩, hholds, hsound.fresh _, Nat.lt_succ_self _, hw⟩
  | written rows outcome => simp [hs] at hstep

theorem commit_stored (c : Cluster ι) (w : ι) (h : Digest) :
    (c.commit w).stored h = ((c.workers w).writtenRows h).or (c.stored h) := rfl

theorem commit_other {w' : ι} (hne : w' ≠ w) : (c.commit w).workers w' = c.workers w' := by
  simp [commit, setWorker, releaseLocks, hne]

theorem commit_self (c : Cluster ι) (w : ι) (h : Digest) :
    ((c.commit w).workers w).job h = (c.workers w).job h ∧
      ((c.commit w).workers w).stage h = (c.workers w).stage h := by
  simp [commit, setWorker, Worker.job]

/-- **A statement** changes nothing committed and no other worker, and no status. -/
theorem statement_frame {job : NormalizedJob} (hstep : c.statement cfg S w job = some d) :
    d.stored = c.stored ∧ (d.workers w).status = (c.workers w).status ∧
      ∀ w', w' ≠ w → d.workers w' = c.workers w' := by
  obtain ⟨e, h', stage, rfl, hstored, hworkers⟩ : ∃ (e : Cluster ι) (h : Digest) (stage : Stage),
      d = e.setStage w h stage ∧ e.stored = c.stored ∧ e.workers = c.workers := by
    unfold Cluster.statement at hstep
    cases hs : (c.workers w).stage job.baseHash with
    | waiting =>
      simp only [hs] at hstep
      split at hstep
      · exact ⟨_, _, _, (Option.some.inj hstep).symm, rfl, rfl⟩
      · rw [Option.ite_none_right_eq_some] at hstep
        exact ⟨_, _, _, (Option.some.inj hstep.2).symm, rfl, rfl⟩
    | preRead found =>
      simp only [hs, Option.ite_none_right_eq_some] at hstep
      exact ⟨_, _, _, (Option.some.inj hstep.2).symm, rfl, rfl⟩
    | upserted found posting =>
      simp only [hs] at hstep
      exact ⟨_, _, _, (Option.some.inj hstep).symm, rfl, rfl⟩
    | occurrenceRead found rows =>
      simp only [hs] at hstep
      split at hstep
      · cases hstep
      · exact ⟨_, _, _, (Option.some.inj hstep).symm, rfl, rfl⟩
    | written rows outcome => simp [hs] at hstep
  refine ⟨hstored, by rw [setStage_status, hworkers], fun w' hw => ?_⟩
  simp [setStage, setWorker, hw, hworkers]

/-! ## Steps and runs -/

/-- The step of a worker that overwrites a row it may not have found. -/
def UpsertsWith (Q : UpsertProperty ι) (c : Cluster ι) (action : Action ι) : Prop :=
  ∀ w h job found, action = .next w h → (c.workers w).job h = some job →
    (c.workers w).stage h = .preRead found → Q w found (c.stored h) job

/-- **What a step is**: a statement of a running worker, a commit once every job is written, or a
rollback. -/
theorem step_cases {action : Action ι} (h : Cluster.step cfg S action c = some d) :
    (∃ w job, action = .next w job.baseHash ∧ (c.workers w).status = .running ∧
      (c.workers w).job job.baseHash = some job ∧ c.statement cfg S w job = some d) ∨
    (∃ w, action = .commit w ∧ (c.workers w).status = .running ∧
      (c.workers w).reached 4 = true ∧ d = c.commit w) ∨
    (∃ w, action = .rollback w ∧ (c.workers w).status = .running ∧ d = c.rollback w) := by
  cases action with
  | next w h' =>
    left
    simp only [Cluster.step] at h
    split at h
    case h_1 job hrun hjob =>
      obtain rfl := Worker.job_baseHash hjob
      rw [Option.ite_none_right_eq_some] at h
      exact ⟨w, job, rfl, hrun, hjob, h.2⟩
    case h_2 => cases h
  | commit w =>
    simp only [Cluster.step, Option.ite_none_right_eq_some, Option.some.injEq] at h
    exact .inr (.inl ⟨w, rfl, h.1.1, h.1.2, h.2.symm⟩)
  | rollback w =>
    simp only [Cluster.step, Option.ite_none_right_eq_some, Option.some.injEq] at h
    exact .inr (.inr ⟨w, rfl, h.1, h.2.symm⟩)

/-- **Every step keeps the invariant.** -/
theorem Sound.step (hsound : c.Sound cfg S Q) {action : Action ι} (hQ : c.UpsertsWith Q action)
    (h : Cluster.step cfg S action c = some d) : d.Sound cfg S Q := by
  rcases step_cases h with ⟨w, job, rfl, hrun, hjob, hstep⟩ | ⟨w, rfl, hrun, -, rfl⟩ |
    ⟨w, rfl, -, rfl⟩
  · exact hsound.statement hrun hjob (fun found hs => hQ w _ job found rfl hjob hs) hstep
  · exact hsound.commit hrun
  · exact hsound.rollback w

omit [DecidableEq ι] in
/-- Workers called in a reachable state. -/
theorem Sound.start {db : Db} (hreach : Reachable cfg S db) (batches : ι → Batch) :
    (Cluster.start db batches).Sound cfg S Q where
  lifecycle := fun _ _ hb => hreach.lifecycle hb
  fresh := fun _ b hb => hreach.wf.fresh le_rfl b hb
  stage := fun _ _ _ _ _ => trivial

/-- **Every run keeps the invariant** whose upserts have the property. -/
theorem Sound.run {db : Db} (hreach : Reachable cfg S db) (batches : ι → Batch)
    {actions : List (Action ι)}
    (hQ : ∀ before action after c, actions = before ++ action :: after →
      Interleaving.run (Cluster.step cfg S) (Cluster.start db batches) before = some c →
      c.UpsertsWith Q action)
    (hrun : Interleaving.run (Cluster.step cfg S) (Cluster.start db batches) actions = some c) :
    c.Sound cfg S Q :=
  Interleaving.run_invariant (Sound.start hreach batches)
    (fun before action after c _ hactions hc hstep hsound =>
      hsound.step (hQ before action after c hactions hc) hstep) hrun

end Cluster

end JobPing
