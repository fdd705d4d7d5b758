import JobPing.Discovery

/-!
# Status history

The status log of a job written by the bulk path alone is a complete chain: it starts from no state,
each entry leaves the state the previous one entered, and the last one is the state of the posting
(`status_history_complete`). `app/services/db_audit.py` looks for closed postings without an entry;
there are none (`closedWithoutStatusLog_eq_nil`).
-/

namespace JobPing

variable {cfg : Config} {S : Services}

/-! ## Chains of status entries -/

/-- The entry `b` leaves the state that `a` entered, for another one. -/
def StatusLog.Follows (a b : StatusLog) : Prop :=
  b.previousState = some a.newState ∧ b.previousState ≠ some b.newState

/-- The status entries of a job whose posting has the given closed flag. -/
structure StatusChain (logs : List StatusLog) (isClosed : Bool) : Prop where
  first : ∃ l, logs.head? = some l ∧ l.previousState = none
  chain : logs.IsChain StatusLog.Follows
  last : ∃ l, logs.getLast? = some l ∧ l.newState = .ofClosed isClosed

/-- The entry of a new posting starts a chain. -/
theorem StatusChain.start (posting : JobPosting) :
    StatusChain (statusValues posting none) posting.isClosed := by
  have hvalues : statusValues posting none =
      [{ jobId := posting.id, previousState := none,
         newState := .ofClosed posting.isClosed }] := rfl
  rw [hvalues]
  exact ⟨⟨_, rfl, rfl⟩, List.isChain_singleton _, ⟨_, rfl, rfl⟩⟩

/-- The entry of a later write, if any, continues the chain. -/
theorem StatusChain.next {logs : List StatusLog} {wasClosed : Bool}
    (h : StatusChain logs wasClosed) (posting : JobPosting) :
    StatusChain (logs ++ statusValues posting (some wasClosed)) posting.isClosed := by
  obtain ⟨last, hlast, hstate⟩ := h.last
  by_cases hsame : wasClosed = posting.isClosed
  · have hvalues : statusValues posting (some wasClosed) = [] := by
      simp [statusValues, hsame]
    rw [hvalues, List.append_nil, ← hsame]
    exact h
  · have hvalues : statusValues posting (some wasClosed) =
        [{ jobId := posting.id, previousState := some (.ofClosed wasClosed),
           newState := .ofClosed posting.isClosed }] := by
      simp [statusValues, hsame]
    rw [hvalues]
    refine ⟨?_, ?_, ⟨_, List.getLast?_concat, rfl⟩⟩
    · obtain ⟨first, hfirst, hnone⟩ := h.first
      exact ⟨first, by rw [List.head?_append, hfirst]; rfl, hnone⟩
    · refine h.chain.append (List.isChain_singleton _) fun a ha b hb => ?_
      rw [hlast, Option.mem_some_iff] at ha
      simp only [List.head?_cons, Option.mem_some_iff] at hb
      rw [← ha, ← hb]
      exact ⟨by rw [hstate], by simpa using hsame⟩

/-- **One bulk delivery** keeps the chain. -/
theorem StatusChain.deliver {ids : WriteIds} {base : Option JobRows} {job : NormalizedJob}
    {rows : JobRows} {state : DeduplicationState}
    (hlife : ∀ b, base = some b → b.Lifecycle)
    (hbase : ∀ b, base = some b → StatusChain b.statusLogs b.posting.isClosed)
    (h : deliverJob cfg S .bulk ids base job = some (rows, state)) :
    StatusChain rows.statusLogs rows.posting.isClosed := by
  obtain ⟨details, -, rfl, -⟩ := writeEffects_eq_some h
  cases base with
  | none => exact StatusChain.start _
  | some b =>
    obtain ⟨init, last, -, hlast⟩ := (hlife b rfl).chain.exists_last
    have hwas : previouslyClosed .bulk (some b.posting) b.occurrences.getLast? =
        some b.posting.isClosed := by
      rw [hlast]
      exact congrArg some ((hlife b rfl).closed last hlast)
    simp only [upsertRows, Option.map_some, hwas, pathStatusValues]
    exact (hbase b rfl).next _

/-! ## Runs of bulk calls -/

/-- A run of bulk calls. -/
def execBatches (cfg : Config) (S : Services) (batches : List (List NormalizedJob)) : Db :=
  execAll cfg S Db.empty (batches.map .bulk)

/-- Every stored job has a chain of status entries after a run of bulk calls. -/
theorem execBatches_chain (batches : List (List NormalizedJob)) {h : Digest} {rows : JobRows}
    (hj : (execBatches cfg S batches).job h = some rows) :
    StatusChain rows.statusLogs rows.posting.isClosed := by
  refine execAll_job_induction
    (P := fun rows => StatusChain rows.statusLogs rows.posting.isClosed) (batches.map .bulk) ?_ hj
  intro before call after hcalls job hjob ids rows state base hbase _ hdel
  obtain ⟨jobs, -, rfl⟩ : ∃ jobs ∈ batches, Call.bulk jobs = call :=
    List.mem_map.mp (hcalls ▸ by simp)
  exact StatusChain.deliver (fun b hb => Reachable.lifecycle ⟨before, rfl⟩ hb) hbase hdel

/-! ## The audit -/

/-- The ids of the audit's `closed_without_status_log` finding. -/
def closedWithoutStatusLog (db : Db) : List ℕ :=
  ((Table.outerJoin (fun p l => l.jobId = p.id) db.jobPostings db.statusLogs).filter
    fun (p, l) => p.isClosed && l.isNone).map fun (p, _) => p.id

/-- A posting with a status entry is no finding. -/
theorem closedWithoutStatusLog_eq_nil {db : Db}
    (h : ∀ p ∈ db.jobPostings, Table.rowsOf StatusLog.jobId p.id db.statusLogs ≠ []) :
    closedWithoutStatusLog db = [] := by
  rw [closedWithoutStatusLog, List.map_eq_nil_iff, List.filter_eq_nil_iff]
  rintro ⟨p, _ | l⟩ hmem
  · obtain ⟨hp, hnone⟩ := Table.mem_outerJoin_none.mp hmem
    refine absurd (Table.rowsOf_eq_nil fun l hl => ?_) (h p hp)
    exact of_decide_eq_false (hnone l hl)
  · simp

/-- **The status history of every job is a complete chain** after any run of bulk calls, and the
audit finds no closed posting without an entry. -/
theorem status_history_complete (cfg : Config) (S : Services)
    (batches : List (List NormalizedJob)) :
    (∀ p ∈ (execBatches cfg S batches).jobPostings,
      StatusChain (Table.rowsOf StatusLog.jobId p.id (execBatches cfg S batches).statusLogs)
        p.isClosed) ∧
      closedWithoutStatusLog (execBatches cfg S batches) = [] := by
  have hwf : (execBatches cfg S batches).WF := Reachable.wf ⟨_, rfl⟩
  have hchain : ∀ p ∈ (execBatches cfg S batches).jobPostings,
      StatusChain (Table.rowsOf StatusLog.jobId p.id (execBatches cfg S batches).statusLogs)
        p.isClosed := fun p hp => execBatches_chain batches (hwf.jobOf_posting hp)
  refine ⟨hchain, closedWithoutStatusLog_eq_nil fun p hp hnil => ?_⟩
  obtain ⟨l, hl, -⟩ := (hchain p hp).first
  rw [hnil] at hl
  cases hl

end JobPing
