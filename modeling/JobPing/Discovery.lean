import JobPing.Lifecycle

/-!
# Occurrences and discovery events of a run

The lifecycle invariant read off the tables, for every sequence of calls from the empty database
(`occurrence_lifecycle`): a posting and its occurrences agree, and the discovery events are those of
the occurrences that were created with their posting open.
-/

namespace JobPing

variable {cfg : Config} {S : Services} {path : WritePath}

/-! ## Jobs in the tables -/

namespace Db

variable {db db' : Db}

theorem mem_of_job {h : Digest} {rows : JobRows} (hj : db.job h = some rows) :
    rows.posting ∈ db.jobPostings ∧ rows = db.rowsOf rows.posting := by
  obtain ⟨p, hp, rfl⟩ := Option.map_eq_some_iff.mp hj
  exact ⟨(postingByHash_mem hp).1, rfl⟩

/-- The posting of a stored occurrence. -/
theorem WF.occurrence_posting (hwf : db.WF) {o : JobOccurrence} (ho : o ∈ db.jobOccurrences) :
    ∃ p ∈ db.jobPostings, p.id = o.jobId ∧ o ∈ (db.rowsOf p).occurrences := by
  obtain ⟨key, hkey, hid⟩ := List.mem_map.mp (hwf.occurrence_job _ (mem_occurrenceKeys ho))
  obtain ⟨p, hp, rfl⟩ := List.mem_map.mp hkey
  exact ⟨p, hp, hid, Table.mem_rowsOf.mpr ⟨ho, hid.symm⟩⟩

/-- The events of a stored occurrence are events of its job. -/
theorem WF.events_of_occurrence (hwf : db.WF) {p : JobPosting} {o : JobOccurrence}
    (ho : o ∈ (db.rowsOf p).occurrences) :
    Table.rowsOf DiscoveryEvent.occurrenceId o.id db.notificationEvents =
      Table.rowsOf DiscoveryEvent.occurrenceId o.id (db.rowsOf p).events := by
  obtain ⟨homem, hojob⟩ := Table.mem_rowsOf.mp ho
  simp only [rowsOf, Table.rowsOf, List.filter_filter]
  refine List.filter_congr fun e he => ?_
  rw [Bool.eq_iff_iff]
  simp only [Bool.and_eq_true, decide_eq_true_eq]
  refine ⟨fun heo => ⟨heo, ?_⟩, And.left⟩
  obtain ⟨o', ho', hid, hjob⟩ := hwf.event_occurrence he
  rw [← hjob, ← hojob, List.inj_on_of_nodup_map hwf.occurrenceId_nodup ho' homem (hid.trans heo)]

/-! ## Occurrences created open -/

/-- The step from `db` to `db'` inserted the occurrence and left its posting open. -/
def CreatesOpen (db db' : Db) (occurrenceId : ℕ) : Prop :=
  (∀ o ∈ db.jobOccurrences, o.id ≠ occurrenceId) ∧
    ∃ o ∈ db'.jobOccurrences, o.id = occurrenceId ∧
      ∃ p ∈ db'.jobPostings, p.id = o.jobId ∧ p.isClosed = false

theorem creates_open_iff (hwf : db'.WF) {h : Digest} {rows : JobRows}
    (hj : db'.job h = some rows) {o : JobOccurrence} (ho : o ∈ rows.occurrences) :
    db.CreatesOpen db' o.id ↔
      (∀ o' ∈ db.jobOccurrences, o'.id ≠ o.id) ∧ rows.posting.isClosed = false := by
  obtain ⟨hp, hrows⟩ := mem_of_job hj
  rw [hrows] at ho
  obtain ⟨homem, hojob⟩ := Table.mem_rowsOf.mp ho
  refine and_congr_right fun _ => ⟨?_, fun hopen => ?_⟩
  · rintro ⟨o', ho', hid, p, hpm, hpid, hopen⟩
    obtain rfl := List.inj_on_of_nodup_map hwf.occurrenceId_nodup ho' homem hid
    obtain rfl := List.inj_on_of_nodup_map hwf.posting_id_nodup hpm hp (hpid.trans hojob)
    exact hopen
  · exact ⟨o, homem, rfl, rows.posting, hp, hojob.symm, hopen⟩

end Db

/-- Some call of the run created the occurrence, with its posting open. -/
def CreatedOpen (cfg : Config) (S : Services) (calls : List Call) (occurrenceId : ℕ) : Prop :=
  ∃ before call after, calls = before ++ call :: after ∧
    (execAll cfg S Db.empty before).CreatesOpen
      (execAll cfg S Db.empty (before ++ [call])) occurrenceId

theorem createdOpen_nil (id : ℕ) : ¬ CreatedOpen cfg S [] id := by
  rintro ⟨before, call, after, h, -⟩
  cases before <;> cases h

theorem createdOpen_concat {calls : List Call} {call : Call} {id : ℕ} :
    CreatedOpen cfg S (calls ++ [call]) id ↔
      CreatedOpen cfg S calls id ∨ (execAll cfg S Db.empty calls).CreatesOpen
        (execAll cfg S Db.empty (calls ++ [call])) id := by
  constructor
  · rintro ⟨before, c, after, h, hopen⟩
    rcases List.eq_nil_or_concat after with rfl | ⟨after', d, rfl⟩
    · obtain ⟨rfl, rfl⟩ := List.append_singleton_inj.mp h
      exact .inr hopen
    · rw [List.concat_eq_append, ← List.cons_append, ← List.append_assoc] at h
      obtain ⟨rfl, rfl⟩ := List.append_singleton_inj.mp h
      exact .inl ⟨before, c, after', rfl, hopen⟩
  · rintro (⟨before, c, after, rfl, hopen⟩ | hopen)
    · exact ⟨before, c, after ++ [call], by simp, hopen⟩
    · exact ⟨calls, call, [], rfl, hopen⟩

/-- The events of a job announce the occurrences that `opened` holds of. -/
def JobRows.AnnouncesOpened (opened : ℕ → Prop) (rows : JobRows) : Prop :=
  ∀ o ∈ rows.occurrences, o.id ∈ rows.events.map (·.occurrenceId) ↔ opened o.id

theorem JobRows.mem_event_ids {rows : JobRows} {id : ℕ} :
    id ∈ rows.events.map (·.occurrenceId) ↔
      ∃ kind, (id, kind) ∈ rows.events.map DiscoveryEvent.announces := by
  simp [DiscoveryEvent.announces]

/-- **One write** announces the occurrence it creates exactly when it leaves the posting open. -/
theorem OccurrenceWrite.announces {opened opened' : ℕ → Prop} {id : ℕ} {base : Option JobRows}
    {rows' : JobRows} (h : OccurrenceWrite cfg id rows' base)
    (hnotify : cfg.suppressNotifications = false)
    (hbase : ∀ b, base = some b → b.Lifecycle ∧ b.AnnouncesOpened opened)
    (hfresh : ∀ b, base = some b → ∀ o ∈ b.occurrences, o.id < id)
    (hold : ∀ b, base = some b → ∀ o ∈ b.occurrences, opened' o.id ↔ opened o.id)
    (hnew : ∀ o ∈ rows'.occurrences, o.id = id → (opened' id ↔ rows'.posting.isClosed = false)) :
    rows'.AnnouncesOpened opened' := by
  intro o' ho'
  rw [JobRows.mem_event_ids]
  cases h with
  | discover o hocc hid hk hprev hev =>
    have hopened := hnew o (by rw [hocc]; simp) hid
    rw [hocc, List.mem_singleton] at ho'
    rw [hev, hnotify, ho', hid, hopened]
    cases rows'.posting.isClosed <;> simp
  | repost b init last o hb hocc hid hsucc hopen hev =>
    obtain ⟨hlife, hann⟩ := hbase b rfl
    have hopened := hnew o (by rw [hocc]; simp) hid
    rw [hocc, ← hb, List.mem_append, List.mem_singleton] at ho'
    rw [hev, hnotify]
    simp only [Bool.false_eq_true, if_false, List.mem_append, List.mem_singleton, Prod.mk.injEq]
    rcases ho' with ho' | rfl
    · have hne : o'.id ≠ id := Nat.ne_of_lt (hfresh b rfl o' ho')
      simp only [hne, false_and, or_false]
      rw [hold b rfl o' ho', ← hann o' ho', JobRows.mem_event_ids]
    · rw [hid, hopened, hopen]
      simp
  | update b init last o hb hocc hid hk hprev hev =>
    obtain ⟨hlife, hann⟩ := hbase b rfl
    obtain ⟨o₁, ho₁, hid₁⟩ : ∃ o₁ ∈ b.occurrences, o₁.id = o'.id := by
      rw [hocc, List.mem_append, List.mem_singleton] at ho'
      rcases ho' with ho' | rfl
      · exact ⟨o', by rw [hb]; exact List.mem_append_left _ ho', rfl⟩
      · exact ⟨last, by rw [hb]; simp, hid.symm⟩
    rw [hev, ← hid₁, hold b rfl o₁ ho₁, ← hann o₁ ho₁, JobRows.mem_event_ids]

/-- **Announcements along a run.** -/
theorem execAll_announces (hnotify : cfg.suppressNotifications = false) (calls : List Call) :
    (∀ id, CreatedOpen cfg S calls id → id < (execAll cfg S Db.empty calls).jobOccurrenceSeq) ∧
      ∀ h rows, (execAll cfg S Db.empty calls).job h = some rows →
        rows.AnnouncesOpened (CreatedOpen cfg S calls) := by
  induction calls using List.reverseRecOn with
  | nil =>
    refine ⟨fun id h => absurd h (createdOpen_nil id), fun h rows hj => ?_⟩
    cases hj
  | append_singleton calls call ih =>
    obtain ⟨hlt, hann⟩ := ih
    have hreach : Reachable cfg S (execAll cfg S Db.empty calls) := ⟨calls, rfl⟩
    have hexec := execAll_concat cfg S calls call Db.empty
    have hopened : CreatedOpen cfg S (calls ++ [call]) = fun id => CreatedOpen cfg S calls id ∨
        (execAll cfg S Db.empty calls).CreatesOpen
          (call.exec cfg S (execAll cfg S Db.empty calls)) id := by
      funext id
      rw [createdOpen_concat, hexec]
    rw [hopened, hexec]
    set db := execAll cfg S Db.empty calls
    rcases call.exec_cases hreach.wf with hsame | ⟨results, htx⟩
    · -- nothing was created
      have hno : ∀ id, ¬ db.CreatesOpen db id := fun id ⟨hnot, o, ho, hid, _⟩ => hnot o ho hid
      have heq : (fun id => CreatedOpen cfg S calls id ∨ db.CreatesOpen db id) =
          CreatedOpen cfg S calls := by
        funext id
        exact propext (or_iff_left (hno id))
      rw [hsame, heq]
      exact ⟨hlt, hann⟩
    · set db' := call.exec cfg S db
      refine ⟨?_, fun h rows hj => ?_⟩
      · rintro id (hopen | ⟨-, o, ho, rfl, -⟩)
        · exact (hlt id hopen).trans_le htx.occurrenceSeq
        · exact htx.wf.occurrence_fresh ho
      -- an occurrence that was stored before is not created by this call
      have hstored : ∀ b, db.job h = some b → ∀ o ∈ b.occurrences,
          (CreatedOpen cfg S calls o.id ∨ db.CreatesOpen db' o.id ↔
            CreatedOpen cfg S calls o.id) := by
        intro b hb o ho
        have hmem : o ∈ db.jobOccurrences := by
          rw [(Db.mem_of_job hb).2] at ho
          exact (Table.mem_rowsOf.mp ho).1
        exact or_iff_left fun hcreates => hcreates.1 o hmem rfl
      by_cases hh : h ∈ call.jobs.map (·.baseHash)
      · obtain ⟨job, hjob, rfl⟩ := List.mem_map.mp hh
        obtain ⟨result, -, ids, rows', -, -, hoid, hdel, -, hj'⟩ :=
          Table.forall₂_left htx.delivered hjob
        rw [hj', Option.some.injEq] at hj
        subst hj
        have hfresh : ∀ o ∈ db.jobOccurrences, o.id < ids.occurrence := fun o ho =>
          (hreach.wf.occurrence_fresh ho).trans_le hoid
        have hfresh' := hreach.wf.fresh hoid (h := job.baseHash)
        obtain ⟨hwrite, -⟩ := (deliver_ready (fun b hb => hreach.lifecycle hb) hfresh').cases hdel
        refine hwrite.announces hnotify (fun b hb => ⟨hreach.lifecycle hb, hann _ b hb⟩) hfresh'
          hstored fun o ho hid => ?_
        rw [← hid, Db.creates_open_iff htx.wf hj' ho, hid]
        have hlt' : ¬ CreatedOpen cfg S calls ids.occurrence := fun hopen =>
          absurd (hlt _ hopen) (not_lt.mpr hoid)
        simp only [hlt', false_or, and_iff_right_iff_imp]
        exact fun _ o' ho' => Nat.ne_of_lt (hfresh o' ho')
      · -- the job was not delivered
        rw [htx.frame h hh] at hj
        exact fun o ho => (hann h rows hj o ho).trans (hstored rows hj o ho).symm

/-! ## The tables after a run -/

/-- An occurrence has at most one event, of its own kind. -/
theorem JobRows.Lifecycle.events_of {rows : JobRows} (h : rows.Lifecycle) {o : JobOccurrence}
    (ho : o ∈ rows.occurrences) :
    (o.id ∈ rows.events.map (·.occurrenceId) →
      ∃ e, Table.rowsOf DiscoveryEvent.occurrenceId o.id rows.events = [e] ∧
        e.eventType = o.kind) ∧
    (o.id ∉ rows.events.map (·.occurrenceId) →
      Table.rowsOf DiscoveryEvent.occurrenceId o.id rows.events = []) := by
  have hids : (rows.occurrences.map (·.id)).Nodup :=
    h.chain.id_sorted.imp fun hlt => Nat.ne_of_lt hlt
  have hnodup : (rows.events.map (·.occurrenceId)).Nodup := by
    have hfst := h.events.map Prod.fst
    simp only [List.map_map, Function.comp_def, DiscoveryEvent.announces,
      JobOccurrence.announced] at hfst
    exact hids.sublist hfst
  constructor
  · intro hmem
    obtain ⟨e, he, heo⟩ := List.mem_map.mp hmem
    refine ⟨e, ?_, ?_⟩
    · -- the ids of the events are distinct
      have hpair : rows.events.Pairwise fun a b => a.occurrenceId ≠ b.occurrenceId :=
        List.pairwise_map.mp hnodup
      rw [← heo]
      exact Table.rowsOf_eq_singleton hpair he
    · obtain ⟨o', ho', hann⟩ := List.mem_map.mp
        (h.events.subset (List.mem_map_of_mem (f := DiscoveryEvent.announces) he))
      simp only [JobOccurrence.announced, DiscoveryEvent.announces, Prod.mk.injEq] at hann
      rw [← hann.2, List.inj_on_of_nodup_map hids ho' ho (hann.1.trans heo)]
  · intro hmem
    exact Table.rowsOf_eq_nil fun e he heo => hmem (List.mem_map.mpr ⟨e, he, heo⟩)

/-- The occurrences and events of the tables after a run. -/
structure OccurrenceLifecycle (cfg : Config) (S : Services) (calls : List Call) (db : Db) : Prop where
  /-- Every posting has an occurrence. -/
  nonempty : ∀ p ∈ db.jobPostings, db.occurrencesOf p.id ≠ []
  /-- In id order, one discovery is followed by reposts, each of the closed one before it. -/
  chain : ∀ p ∈ db.jobPostings, ((db.occurrencesOf p.id).map (·.id)).Pairwise (· < ·) ∧
    OccurrenceChain (db.occurrencesOf p.id)
  /-- Every occurrence but the latest is closed. -/
  earlier_closed : ∀ p ∈ db.jobPostings, ∀ o ∈ (db.occurrencesOf p.id).dropLast,
    o.closedAt.isSome = true
  /-- The posting is closed exactly when its latest occurrence is. -/
  closed : ∀ p ∈ db.jobPostings, ∃ last, (db.occurrencesOf p.id).getLast? = some last ∧
    (p.isClosed = true ↔ last.closedAt.isSome = true)
  /-- Every occurrence belongs to a posting. -/
  posting : ∀ o ∈ db.jobOccurrences, ∃ p ∈ db.jobPostings, p.id = o.jobId
  /-- An occurrence created open has exactly one event, any other none. -/
  announced : ∀ o ∈ db.jobOccurrences, CreatedOpen cfg S calls o.id →
    ∃ e, Table.rowsOf DiscoveryEvent.occurrenceId o.id db.notificationEvents = [e] ∧
      e.jobId = o.jobId ∧ e.eventType = o.kind
  silent : ∀ o ∈ db.jobOccurrences, ¬ CreatedOpen cfg S calls o.id →
    Table.rowsOf DiscoveryEvent.occurrenceId o.id db.notificationEvents = []
  /-- Every event refers to an occurrence. -/
  event : ∀ e ∈ db.notificationEvents, ∃ o ∈ db.jobOccurrences, o.id = e.occurrenceId

/-- All occurrences of a chain but the last are closed. -/
theorem OccurrenceChain.dropLast_closed {occurrences : List JobOccurrence}
    (h : OccurrenceChain occurrences) : ∀ o ∈ occurrences.dropLast, o.closedAt.isSome = true := by
  have hchain := h.chain
  clear h
  induction hchain with
  | nil => simp
  | singleton a => simp
  | cons_cons hab _ ih =>
    intro o ho
    rw [List.dropLast_cons_cons] at ho
    rcases List.mem_cons.mp ho with rfl | ho
    · exact hab.2.1
    · exact ih o ho

/-- **The occurrence lifecycle holds after every sequence of calls**, when notifications are not
suppressed. -/
theorem occurrence_lifecycle (S : Services) (evidenceWorkerEnabled : Bool) (calls : List Call) :
    OccurrenceLifecycle ⟨false, evidenceWorkerEnabled⟩ S calls
      (execAll ⟨false, evidenceWorkerEnabled⟩ S Db.empty calls) := by
  set cfg : Config := ⟨false, evidenceWorkerEnabled⟩
  have hreach : Reachable cfg S (execAll cfg S Db.empty calls) := ⟨calls, rfl⟩
  have hwf := hreach.wf
  obtain ⟨-, hann⟩ := execAll_announces (S := S) (rfl : cfg.suppressNotifications = false) calls
  set db := execAll cfg S Db.empty calls
  have hlife : ∀ p ∈ db.jobPostings, (db.rowsOf p).Lifecycle := fun p hp =>
    hreach.lifecycle (hwf.jobOf_posting hp)
  have hevents : ∀ o ∈ db.jobOccurrences, ∃ p ∈ db.jobPostings, p.id = o.jobId ∧
      o ∈ (db.rowsOf p).occurrences ∧
      (CreatedOpen cfg S calls o.id ↔ o.id ∈ (db.rowsOf p).events.map (·.occurrenceId)) :=
    fun o ho => by
      obtain ⟨p, hp, hid, hmem⟩ := hwf.occurrence_posting ho
      exact ⟨p, hp, hid, hmem, (hann _ _ (hwf.jobOf_posting hp) o hmem).symm⟩
  refine
    { nonempty := fun p hp => (hlife p hp).chain.ne_nil
      chain := fun p hp => ⟨(hlife p hp).chain.id_sorted, (hlife p hp).chain⟩
      earlier_closed := fun p hp => (hlife p hp).chain.dropLast_closed
      closed := fun p hp => ?_
      posting := fun o ho => ?_
      announced := fun o ho hopen => ?_
      silent := fun o ho hopen => ?_
      event := fun e he => ?_ }
  · obtain ⟨init, last, -, hlast⟩ := (hlife p hp).chain.exists_last
    refine ⟨last, hlast, ?_⟩
    rw [(hlife p hp).closed last hlast]
    rfl
  · obtain ⟨p, hp, hid, -⟩ := hevents o ho
    exact ⟨p, hp, hid⟩
  · obtain ⟨p, hp, hid, hmem, hiff⟩ := hevents o ho
    obtain ⟨e, he, hkind⟩ := ((hlife p hp).events_of hmem).1 (hiff.mp hopen)
    refine ⟨e, by rw [hwf.events_of_occurrence hmem, he], ?_, hkind⟩
    have hrow : e ∈ (db.rowsOf p).events := (Table.mem_rowsOf.mp (he ▸ List.mem_singleton_self e)).1
    rw [(Table.mem_rowsOf.mp hrow).2, hid]
  · obtain ⟨p, hp, -, hmem, hiff⟩ := hevents o ho
    rw [hwf.events_of_occurrence hmem]
    exact ((hlife p hp).events_of hmem).2 (hiff.not.mp hopen)
  · obtain ⟨o, ho, hid, -⟩ := hwf.event_occurrence he
    exact ⟨o, ho, hid⟩

end JobPing
