import JobPing.Runs
import Mathlib.Data.List.Chain

/-!
# The lifecycle of a job

The occurrences of a job form a chain, each closed before the next one starts, and the posting is
closed exactly when the latest occurrence is (`JobRows.Lifecycle`). Every write keeps this
(`Lifecycle.writeJob`), also one decided on a posting read before another writer inserted it.
Under it the two paths make the same transition (`transition_eq_bulk`).
-/

namespace JobPing

variable {cfg : Config} {S : Services} {path : WritePath}

/-! ## Transitions of a stored occurrence -/

/-- On rows that agree about being closed the two paths make the same transition. -/
theorem transition_eq_bulk {old : Option JobPosting} {posting : JobPosting}
    {current : Option JobOccurrence} {job : NormalizedJob}
    (h : path = .single → old.isSome = current.isSome ∧
      ∀ p o, old = some p → current = some o → p.isClosed = o.closedAt.isSome) :
    transition S path old posting current job = bulkTransition S old posting current job := by
  cases path with
  | bulk => rfl
  | single =>
    obtain ⟨hsome, hclosed⟩ := h rfl
    cases old with
    | none =>
      cases current with
      | none => rfl
      | some o => cases hsome
    | some p =>
      cases current with
      | none => cases hsome
      | some o =>
        simp only [transition, singleTransition, bulkTransition, Option.isNone_some,
          Option.isSome_some, Option.any_some, hclosed p o rfl rfl, Bool.and_true,
          Bool.false_eq_true, if_false]

/-- **What the bulk path can do** to a stored occurrence. -/
theorem bulkTransition_cases (S : Services) (old : Option JobPosting) (posting : JobPosting)
    (o : JobOccurrence) (job : NormalizedJob) :
    let step := bulkTransition S old posting (some o) job
    (step = .create .reposted (some o) true ∧ o.closedAt.isSome = true ∧
      posting.isClosed = false ∧ old.isSome = true ∧ job.occurrenceKind = some .reposted ∧
      isSameRepostOccurrence S job o = false) ∨
    (step = .close o ∧ o.closedAt.isSome = false ∧ posting.isClosed = true) ∨
    (step = .reopen o ∧ o.closedAt.isSome = true ∧ posting.isClosed = false) ∨
    (step = .keep o ∧ o.closedAt.isSome = posting.isClosed) := by
  simp only [bulkTransition]
  split_ifs with h₁ h₂ h₃
  · simp_all
  · simp_all
  · simp_all
  · right; right; right
    simp only [true_and]
    cases hc : o.closedAt.isSome <;> cases hp : posting.isClosed <;> simp_all

/-! ## Chains of occurrences -/

/-- The occurrence `b` reposts the closed occurrence `a`. -/
def Succeeds (a b : JobOccurrence) : Prop :=
  a.id < b.id ∧ a.closedAt.isSome = true ∧ b.kind = .reposted ∧
    b.previousOccurrenceId = some a.id

/-- The occurrences of a job: one discovery and its reposts. -/
structure OccurrenceChain (occurrences : List JobOccurrence) : Prop where
  first : ∃ o, occurrences.head? = some o ∧ o.kind = .discovered ∧ o.previousOccurrenceId = none
  chain : occurrences.IsChain Succeeds

namespace OccurrenceChain

variable {occurrences init : List JobOccurrence} {a b : JobOccurrence}

theorem ne_nil (h : OccurrenceChain occurrences) : occurrences ≠ [] := by
  rintro rfl
  obtain ⟨o, ho, -⟩ := h.first
  cases ho

/-- The occurrences before the latest one, and the latest one. -/
theorem exists_last (h : OccurrenceChain occurrences) :
    ∃ init last, occurrences = init ++ [last] ∧ occurrences.getLast? = some last := by
  refine ⟨_, _, (List.dropLast_append_getLast h.ne_nil).symm, ?_⟩
  exact List.getLast?_eq_some_getLast h.ne_nil

theorem single (hk : a.kind = .discovered) (hp : a.previousOccurrenceId = none) :
    OccurrenceChain [a] :=
  ⟨⟨a, rfl, hk, hp⟩, List.isChain_singleton a⟩

theorem append (h : OccurrenceChain (init ++ [a])) (hab : Succeeds a b) :
    OccurrenceChain (init ++ [a] ++ [b]) where
  first := by
    obtain ⟨o, ho, hrest⟩ := h.first
    exact ⟨o, by rw [List.head?_append, ho]; rfl, hrest⟩
  chain := by
    refine h.chain.append (List.isChain_singleton b) fun x hx y hy => ?_
    simp only [List.getLast?_append, List.getLast?_singleton, Option.some_or, Option.mem_def,
      Option.some.injEq, List.head?_cons] at hx hy
    exact hx ▸ hy ▸ hab

/-- The latest occurrence may be closed, reopened and given other details. -/
theorem replace_last (h : OccurrenceChain (init ++ [a])) (hid : b.id = a.id)
    (hk : b.kind = a.kind) (hp : b.previousOccurrenceId = a.previousOccurrenceId) :
    OccurrenceChain (init ++ [b]) where
  first := by
    obtain ⟨o, ho, hrest⟩ := h.first
    cases init with
    | nil =>
      cases ho
      exact ⟨b, rfl, hk ▸ hrest.1, hp ▸ hrest.2⟩
    | cons c init => exact ⟨o, ho, hrest⟩
  chain := by
    obtain ⟨h₁, -, h₂⟩ := List.isChain_append.mp h.chain
    refine h₁.append (List.isChain_singleton b) fun x hx y hy => ?_
    obtain ⟨hlt, hclosed, hkind, hprev⟩ := h₂ x hx a rfl
    obtain rfl : b = y := by simpa using hy
    exact ⟨hid ▸ hlt, hclosed, hk ▸ hkind, hp ▸ hprev⟩

/-- The ids of a chain increase. -/
theorem id_sorted (h : OccurrenceChain occurrences) :
    (occurrences.map (·.id)).Pairwise (· < ·) := by
  rw [← List.isChain_iff_pairwise, List.isChain_map]
  exact h.chain.imp fun _ _ hab => hab.1

/-- Every occurrence but the first is a repost of the one before it. -/
theorem tail_reposted (h : OccurrenceChain occurrences) :
    ∀ o ∈ occurrences.tail, o.kind = .reposted := by
  have hchain := h.chain
  clear h
  induction hchain with
  | nil => simp
  | singleton a => simp
  | cons_cons hab _ ih =>
    intro o ho
    rcases List.mem_cons.mp ho with rfl | ho
    · exact hab.2.2.1
    · exact ih o ho

/-- **A chain has one discovery.** -/
theorem discovered_once (h : OccurrenceChain occurrences) :
    (occurrences.filter (·.kind = .discovered)).length = 1 := by
  obtain ⟨first, hfirst, hk, -⟩ := h.first
  have htail := h.tail_reposted
  obtain ⟨rest, rfl⟩ : ∃ rest, occurrences = first :: rest := by
    cases occurrences with
    | nil => cases hfirst
    | cons a rest => cases hfirst; exact ⟨rest, rfl⟩
  have hrest : rest.filter (·.kind = .discovered) = [] :=
    List.filter_eq_nil_iff.mpr fun o ho => by simp [htail o ho]
  simp [hk, hrest]

end OccurrenceChain

/-! ## The invariant -/

/-- The occurrence and the kind an event announces. -/
def DiscoveryEvent.announces (e : DiscoveryEvent) : ℕ × OccurrenceKind :=
  (e.occurrenceId, e.eventType)

/-- What an event says when it announces the occurrence. -/
def JobOccurrence.announced (o : JobOccurrence) : ℕ × OccurrenceKind := (o.id, o.kind)

/-- **The lifecycle invariant** of the rows of a job. -/
structure JobRows.Lifecycle (rows : JobRows) : Prop where
  chain : OccurrenceChain rows.occurrences
  /-- The posting agrees with its latest occurrence. -/
  closed : ∀ o, rows.occurrences.getLast? = some o → o.closedAt.isSome = rows.posting.isClosed
  /-- The events announce occurrences of the job, each at most once and in their order. -/
  events : (rows.events.map DiscoveryEvent.announces).Sublist
    (rows.occurrences.map JobOccurrence.announced)

/-- What is known before a write: the stored rows, if any, satisfy the invariant, the id it draws
is new, and it decides on the stored posting. The bulk path may also have read before the posting
was inserted. -/
structure WriteReady (path : WritePath) (id : ℕ) (base : Option JobRows)
    (old : Option JobPosting) : Prop where
  lifecycle : ∀ b, base = some b → b.Lifecycle
  fresh : ∀ b, base = some b → ∀ o ∈ b.occurrences, o.id < id
  old : old = base.map (·.posting) ∨ path = .bulk ∧ old = none

theorem JobRows.Lifecycle.transition_eq {b : JobRows} (hlife : b.Lifecycle) {last : JobOccurrence}
    (hlast : b.occurrences.getLast? = some last) (path : WritePath) (posting : JobPosting)
    (job : NormalizedJob) :
    transition S path (some b.posting) posting (some last) job =
      bulkTransition S (some b.posting) posting (some last) job := by
  refine transition_eq_bulk fun _ => ⟨rfl, fun p o hp ho => ?_⟩
  cases hp
  cases ho
  exact (hlife.closed last hlast).symm

/-- A successful `writeEffects`, opened. -/
theorem writeEffects_eq_some {id : ℕ} {rows rows' : JobRows} {old : Option JobPosting}
    {normalized observation : NormalizedJob} {state : DeduplicationState}
    (h : writeEffects cfg S path id rows old normalized observation = some (rows', state)) :
    let current := rows.occurrences.getLast?
    let step := transition S path old rows.posting current normalized
    let occurrence := step.occurrence S id rows.posting normalized
    let wasClosed := previouslyClosed path old current
    ∃ details, detailsUpdate occurrence observation = some details ∧
      rows' =
        { posting := { rows.posting with details := details.getD rows.posting.details }
          occurrences := step.place rows.occurrences
            { occurrence with details := details.getD occurrence.details }
          observations := (sourceObservationValues S rows.posting occurrence observation).foldl
            (fun t row => Table.upsert JobSourceObservation.conflicts row t) rows.observations
          events := if cfg.suppressNotifications then rows.events
            else rows.events ++ step.eventRows rows.posting occurrence
          statusLogs := rows.statusLogs ++ pathStatusValues path rows.posting wasClosed } ∧
      state = stateForPersistence (created path old current) step.createdRepost wasClosed
        rows.posting.isClosed (contentChanged path old rows.posting) := by
  intro current step occurrence wasClosed
  obtain ⟨details, hd, heq⟩ := Option.map_eq_some_iff.mp h
  simp only [Prod.mk.injEq] at heq
  exact ⟨details, hd, heq.1.symm, heq.2.symm⟩

/-- A step that keeps the occurrence it is given. -/
def OccurrenceStep.Updates (step : OccurrenceStep) (o : JobOccurrence) : Prop :=
  step = .close o ∨ step = .reopen o ∨ step = .keep o

namespace OccurrenceStep

variable {step : OccurrenceStep} {o : JobOccurrence}

theorem Updates.occurrence (h : step.Updates o) (id : ℕ) (posting : JobPosting)
    (job : NormalizedJob) :
    (step.occurrence S id posting job).id = o.id ∧ (step.occurrence S id posting job).kind = o.kind ∧
      (step.occurrence S id posting job).previousOccurrenceId = o.previousOccurrenceId := by
  rcases h with rfl | rfl | rfl <;> exact ⟨rfl, rfl, rfl⟩

theorem Updates.place (h : step.Updates o) (init : List JobOccurrence) (last o' : JobOccurrence) :
    step.place (init ++ [last]) o' = init ++ [o'] := by
  rcases h with rfl | rfl | rfl <;> simp [OccurrenceStep.place]

theorem Updates.eventRows (h : step.Updates o) (posting : JobPosting) (o' : JobOccurrence) :
    step.eventRows posting o' = [] := by
  rcases h with rfl | rfl | rfl <;> rfl

end OccurrenceStep

/-- The written occurrence is the latest one. -/
theorem OccurrenceStep.place_getLast? (step : OccurrenceStep) (occurrences : List JobOccurrence)
    (o : JobOccurrence) : (step.place occurrences o).getLast? = some o := by
  cases step <;> simp [OccurrenceStep.place]

theorem newOccurrence_closed (S : Services) (id : ℕ) (posting : JobPosting) (job : NormalizedJob)
    (kind : OccurrenceKind) (previous : Option JobOccurrence) :
    (newOccurrence S id posting job kind previous).closedAt.isSome = posting.isClosed := by
  cases h : posting.isClosed <;> simp [newOccurrence, h]

/-- **What a write does** to a stored job: it reposts the closed latest occurrence, or updates it
until it agrees with the posting. -/
theorem bulkTransition_spec (S : Services) (old : Option JobPosting) (posting : JobPosting)
    (o : JobOccurrence) (job : NormalizedJob) (id : ℕ) :
    let step := bulkTransition S old posting (some o) job
    (step.occurrence S id posting job).closedAt.isSome = posting.isClosed ∧
      ((step = .create .reposted (some o) true ∧ o.closedAt.isSome = true ∧
        posting.isClosed = false) ∨ step.Updates o) := by
  intro step
  rcases bulkTransition_cases S old posting o job with
    ⟨h, hc, hp, -⟩ | ⟨h, hc, hp⟩ | ⟨h, hc, hp⟩ | ⟨h, hc⟩
  · refine ⟨?_, .inl ⟨h, hc, hp⟩⟩
    rw [show step = _ from h]
    exact newOccurrence_closed ..
  · exact ⟨by simp [step, h, OccurrenceStep.occurrence, hp], .inr (.inl h)⟩
  · exact ⟨by simp [step, h, OccurrenceStep.occurrence, hp], .inr (.inr (.inl h))⟩
  · exact ⟨by simp [step, h, OccurrenceStep.occurrence, hc], .inr (.inr (.inr h))⟩

/-- **What a write can do** to the occurrences and events of its job. -/
inductive OccurrenceWrite (cfg : Config) (id : ℕ) (rows' : JobRows) : Option JobRows → Prop
  | discover (o : JobOccurrence) (occurrences : rows'.occurrences = [o]) (id_eq : o.id = id)
      (kind : o.kind = .discovered) (previous : o.previousOccurrenceId = none)
      (events : rows'.events.map DiscoveryEvent.announces =
        if cfg.suppressNotifications || rows'.posting.isClosed then [] else [(id, .discovered)]) :
      OccurrenceWrite cfg id rows' none
  | repost (b : JobRows) (init : List JobOccurrence) (last o : JobOccurrence)
      (stored : b.occurrences = init ++ [last])
      (occurrences : rows'.occurrences = init ++ [last] ++ [o]) (id_eq : o.id = id)
      (succeeds : Succeeds last o) (opened : rows'.posting.isClosed = false)
      (events : rows'.events.map DiscoveryEvent.announces =
        b.events.map DiscoveryEvent.announces ++
          if cfg.suppressNotifications then [] else [(id, .reposted)]) :
      OccurrenceWrite cfg id rows' (some b)
  | update (b : JobRows) (init : List JobOccurrence) (last o : JobOccurrence)
      (stored : b.occurrences = init ++ [last]) (occurrences : rows'.occurrences = init ++ [o])
      (id_eq : o.id = last.id) (kind : o.kind = last.kind)
      (previous : o.previousOccurrenceId = last.previousOccurrenceId)
      (events : rows'.events = b.events) :
      OccurrenceWrite cfg id rows' (some b)

section write

variable {id : ℕ} {base : Option JobRows} {old : Option JobPosting} {posting_id : ℕ}
  {reposted : Bool} {values : PostingValues} {normalized observation : NormalizedJob}
  {rows' : JobRows} {state : DeduplicationState}

/-- On stored rows every write makes the transition of the bulk path. -/
theorem WriteReady.transition_eq {b : JobRows} {last : JobOccurrence}
    (hready : WriteReady path id (some b) old) (hlast : b.occurrences.getLast? = some last)
    (posting : JobPosting) :
    transition S path old posting (some last) normalized =
      bulkTransition S old posting (some last) normalized := by
  rcases hready.old with rfl | ⟨rfl, -⟩
  · exact (hready.lifecycle b rfl).transition_eq hlast path posting normalized
  · rfl

/-- **A write does one of these**, and leaves the latest occurrence in agreement with the
posting. -/
theorem WriteReady.cases (hready : WriteReady path id base old)
    (h : writeEffects cfg S path id (upsertRows path posting_id reposted values base) old
      normalized observation = some (rows', state)) :
    OccurrenceWrite cfg id rows' base ∧
      ∀ o, rows'.occurrences.getLast? = some o → o.closedAt.isSome = rows'.posting.isClosed := by
  obtain ⟨details, -, rfl, -⟩ := writeEffects_eq_some h
  clear h
  cases base with
  | none =>
    obtain rfl : old = none := by
      rcases hready.old with h | ⟨-, h⟩ <;> exact h
    have hstep : ∀ posting, transition S path none posting none normalized =
        .create .discovered none (!posting.isClosed) := fun posting => by cases path <;> rfl
    set rows := upsertRows path posting_id reposted values none
    have hocc : rows.occurrences = [] := rfl
    have hev : rows.events = [] := rfl
    simp only [hocc, hev, List.getLast?_nil, hstep]
    refine ⟨.discover _ rfl rfl rfl rfl ?_, fun o ho => ?_⟩
    · cases cfg.suppressNotifications <;> cases rows.posting.isClosed <;> rfl
    · cases ho
      exact newOccurrence_closed S id rows.posting normalized .discovered none
  | some b =>
    have hb := hready.lifecycle b rfl
    obtain ⟨init, last, hinit, hlast⟩ := hb.chain.exists_last
    set rows := upsertRows path posting_id reposted values (some b)
    have hocc : rows.occurrences = b.occurrences := rfl
    have hev : rows.events = b.events := rfl
    simp only [hocc, hev, hlast, hready.transition_eq hlast]
    obtain ⟨hclosed, ⟨hstep, hc, hp⟩ | hupd⟩ :=
      bulkTransition_spec S old rows.posting last normalized id
    · have hlt : last.id < id := hready.fresh b rfl last (by rw [hinit]; simp)
      rw [hstep] at hclosed ⊢
      refine ⟨.repost b init last _ hinit (by rw [← hinit]; rfl) rfl ⟨hlt, hc, rfl, rfl⟩ hp ?_,
        fun o ho => ?_⟩
      · cases cfg.suppressNotifications <;>
          simp [OccurrenceStep.eventRows, OccurrenceStep.occurrence, newOccurrence,
            DiscoveryEvent.announces]
      · simp only [OccurrenceStep.place, List.getLast?_append, List.getLast?_singleton,
          Option.some_or, Option.some.injEq] at ho
        rw [← ho]
        exact hclosed
    · obtain ⟨hid, hk, hprev⟩ := hupd.occurrence (S := S) id rows.posting normalized
      simp only [hinit, hupd.place, hupd.eventRows]
      refine ⟨.update b init last _ hinit rfl hid hk hprev (by simp), fun o ho => ?_⟩
      simp only [List.getLast?_append, List.getLast?_singleton, Option.some_or,
        Option.some.injEq] at ho
      rw [← ho]
      exact hclosed

end write

/-- **The lifecycle invariant is kept** by every write. -/
theorem OccurrenceWrite.lifecycle {id : ℕ} {base : Option JobRows} {rows' : JobRows}
    (h : OccurrenceWrite cfg id rows' base)
    (hclosed : ∀ o, rows'.occurrences.getLast? = some o →
      o.closedAt.isSome = rows'.posting.isClosed)
    (hbase : ∀ b, base = some b → b.Lifecycle) : rows'.Lifecycle := by
  cases h with
  | discover o hocc hid hk hprev hev =>
    refine ⟨by rw [hocc]; exact .single hk hprev, hclosed, ?_⟩
    rw [hev, hocc]
    split_ifs
    · exact List.nil_sublist _
    · simp [JobOccurrence.announced, hid, hk]
  | repost b init last o hb hocc hid hsucc hopen hev =>
    have hlife := hbase b rfl
    refine ⟨by rw [hocc]; exact (hb ▸ hlife.chain).append hsucc, hclosed, ?_⟩
    rw [hev, hocc, ← hb, List.map_append]
    refine hlife.events.append ?_
    split_ifs
    · exact List.nil_sublist _
    · simp [JobOccurrence.announced, hid, hsucc.2.2.1]
  | update b init last o hb hocc hid hk hprev hev =>
    have hlife := hbase b rfl
    refine ⟨by rw [hocc]; exact (hb ▸ hlife.chain).replace_last hid hk hprev, hclosed, ?_⟩
    have hkeys : rows'.occurrences.map JobOccurrence.announced =
        b.occurrences.map JobOccurrence.announced := by
      simp [hocc, hb, JobOccurrence.announced, hid, hk]
    rw [hev, hkeys]
    exact hlife.events

theorem Lifecycle.writeJob {ids : WriteIds} {base : Option JobRows} {old : Option JobPosting}
    {normalized observation : NormalizedJob} {rows' : JobRows} {state : DeduplicationState}
    (hready : WriteReady path ids.occurrence base old)
    (h : writeJob cfg S path ids base old normalized observation = some (rows', state)) :
    rows'.Lifecycle := by
  obtain ⟨hwrite, hclosed⟩ := hready.cases h
  exact hwrite.lifecycle hclosed hready.lifecycle

/-- A delivery decides on the posting it writes over. -/
theorem deliver_ready {ids : WriteIds} {base : Option JobRows}
    (hbase : ∀ b, base = some b → b.Lifecycle)
    (hfresh : ∀ b, base = some b → ∀ o ∈ b.occurrences, o.id < ids.occurrence) :
    WriteReady path ids.occurrence base (base.map (·.posting)) :=
  ⟨hbase, hfresh, .inl rfl⟩

/-- **Deliveries keep the invariant** of every job. -/
theorem Delivered.lifecycle {db db' : Db} {jobs : List NormalizedJob}
    {results : List PersistedJobResult} (hwf : db.WF)
    (hlife : ∀ h rows, db.job h = some rows → rows.Lifecycle)
    (hdelivered : List.Forall₂ (Delivered cfg S path db db') jobs results)
    (hframe : ∀ h, h ∉ jobs.map (·.baseHash) → db'.job h = db.job h) (h : Digest)
    (rows : JobRows) (hj : db'.job h = some rows) : rows.Lifecycle := by
  by_cases hh : h ∈ jobs.map (·.baseHash)
  · obtain ⟨job, hjob, rfl⟩ := List.mem_map.mp hh
    obtain ⟨result, -, ids, rows', -, -, hoid, hdel, -, hj'⟩ := Table.forall₂_left hdelivered hjob
    rw [hj', Option.some.injEq] at hj
    exact hj ▸ Lifecycle.writeJob (deliver_ready (hlife _) (hwf.fresh hoid)) hdel
  · exact hlife h rows (hframe h hh ▸ hj)

theorem Transaction.lifecycle {db db' : Db} {jobs : List NormalizedJob}
    {results : List PersistedJobResult} (htx : Transaction cfg S path db db' jobs results)
    (hwf : db.WF) (hlife : ∀ h rows, db.job h = some rows → rows.Lifecycle) :
    ∀ h rows, db'.job h = some rows → rows.Lifecycle :=
  Delivered.lifecycle hwf hlife htx.delivered htx.frame

/-- **Every reachable job** satisfies the lifecycle invariant. -/
theorem execAll_lifecycle (calls : List Call) {h : Digest} {rows : JobRows}
    (hj : (execAll cfg S Db.empty calls).job h = some rows) : rows.Lifecycle :=
  execAll_job_induction (P := JobRows.Lifecycle) calls
    (fun _ _ _ _ _ _ _ _ _ hbase hfresh hdel =>
      Lifecycle.writeJob (deliver_ready hbase hfresh) hdel) hj

theorem Reachable.lifecycle {db : Db} (hreach : Reachable cfg S db) {h : Digest} {rows : JobRows}
    (hj : db.job h = some rows) : rows.Lifecycle := by
  obtain ⟨calls, rfl⟩ := hreach
  exact execAll_lifecycle calls hj

end JobPing
