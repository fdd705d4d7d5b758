import JobPing.JobRows

/-!
# Well-formed tables

The keys, foreign keys and sequences of the database (`Db.WF`), and that the statements of the two
write paths keep them. Under `Db.WF` the rows of a job are found by their base hash alone, and no
evidence check is verified: verification is the work of the evidence worker, not of ingestion.
-/

namespace JobPing

variable {cfg : Config} {S : Services} {path : WritePath}

namespace Db

/-- The ids and base hashes of the postings. -/
def postingKeys (db : Db) : List (ℕ × Digest) := db.jobPostings.map fun p => (p.id, p.baseHash)

/-- The ids and jobs of the occurrences. -/
def occurrenceKeys (db : Db) : List (ℕ × ℕ) := db.jobOccurrences.map fun o => (o.id, o.jobId)

/-- The invariants of the tables. -/
structure WF (db : Db) : Prop where
  companyId : (db.companies.map (·.id)).Nodup
  companyName : (db.companies.map (·.name)).Nodup
  company_lt : ∀ c ∈ db.companies, c.id < db.companySeq
  posting_id : (db.postingKeys.map Prod.fst).Nodup
  posting_hash : (db.postingKeys.map Prod.snd).Nodup
  posting_lt : ∀ key ∈ db.postingKeys, key.1 < db.jobPostingSeq
  posting_company : ∀ p ∈ db.jobPostings, db.hasCompany p.companyId = true
  occurrenceId : (db.occurrenceKeys.map Prod.fst).Pairwise (· < ·)
  occurrence_lt : ∀ key ∈ db.occurrenceKeys, key.1 < db.jobOccurrenceSeq
  occurrence_job : ∀ key ∈ db.occurrenceKeys, key.2 ∈ db.postingKeys.map Prod.fst
  observation_ref : ∀ b ∈ db.jobSourceObservations, (b.occurrenceId, b.jobId) ∈ db.occurrenceKeys
  event_ref : ∀ e ∈ db.notificationEvents, (e.occurrenceId, e.jobId) ∈ db.occurrenceKeys
  log_job : ∀ l ∈ db.statusLogs, l.jobId ∈ db.postingKeys.map Prod.fst
  unverified : ∀ c ∈ db.evidenceChecks, c.verifiedAt = none

theorem wf_empty : Db.empty.WF := by
  constructor <;> simp [Db.empty, postingKeys, occurrenceKeys]

variable {db : Db}

/-! ## Reading a job -/

theorem postingByHash_mem {h : Digest} {p : JobPosting} (hp : db.postingByHash h = some p) :
    p ∈ db.jobPostings ∧ p.baseHash = h :=
  ⟨List.mem_of_find?_eq_some hp, by simpa using List.find?_some hp⟩

theorem mem_postingKeys {p : JobPosting} (hp : p ∈ db.jobPostings) :
    (p.id, p.baseHash) ∈ db.postingKeys := List.mem_map_of_mem hp

theorem mem_occurrenceKeys {o : JobOccurrence} (ho : o ∈ db.jobOccurrences) :
    (o.id, o.jobId) ∈ db.occurrenceKeys := List.mem_map_of_mem ho

namespace WF

variable (hwf : db.WF)
include hwf

theorem posting_id_nodup : (db.jobPostings.map (·.id)).Nodup := by
  have := hwf.posting_id
  rwa [postingKeys, List.map_map] at this

theorem posting_hash_nodup : (db.jobPostings.map (·.baseHash)).Nodup := by
  have := hwf.posting_hash
  rwa [postingKeys, List.map_map] at this

theorem occurrenceId_sorted : (db.jobOccurrences.map (·.id)).Pairwise (· < ·) := by
  have := hwf.occurrenceId
  rwa [occurrenceKeys, List.map_map] at this

theorem occurrenceId_nodup : (db.jobOccurrences.map (·.id)).Nodup :=
  hwf.occurrenceId_sorted.imp fun h => Nat.ne_of_lt h

/-- A stored posting is the one found by its base hash. -/
theorem postingByHash_eq {p : JobPosting} (hp : p ∈ db.jobPostings) :
    db.postingByHash p.baseHash = some p := Table.find?_key hwf.posting_hash_nodup hp

/-- The job of a stored posting. -/
theorem jobOf_posting {p : JobPosting} (hp : p ∈ db.jobPostings) :
    db.job p.baseHash = some (db.rowsOf p) := by
  rw [job, hwf.postingByHash_eq hp]
  rfl

theorem id_ne_of_hash_ne {p q : JobPosting} (hp : p ∈ db.jobPostings) (hq : q ∈ db.jobPostings)
    (h : p.baseHash ≠ q.baseHash) : p.id ≠ q.id := fun hid =>
  h (by rw [List.inj_on_of_nodup_map hwf.posting_id_nodup hp hq hid])

theorem occurrence_fresh {o : JobOccurrence} (ho : o ∈ db.jobOccurrences) :
    o.id < db.jobOccurrenceSeq := hwf.occurrence_lt _ (mem_occurrenceKeys ho)

/-- The occurrence an observation refers to. -/
theorem observation_occurrence {b : JobSourceObservation} (hb : b ∈ db.jobSourceObservations) :
    ∃ o ∈ db.jobOccurrences, o.id = b.occurrenceId ∧ o.jobId = b.jobId := by
  obtain ⟨o, ho, he⟩ := List.mem_map.mp (hwf.observation_ref b hb)
  exact ⟨o, ho, by simpa using he⟩

theorem event_occurrence {e : DiscoveryEvent} (he : e ∈ db.notificationEvents) :
    ∃ o ∈ db.jobOccurrences, o.id = e.occurrenceId ∧ o.jobId = e.jobId := by
  obtain ⟨o, ho, he⟩ := List.mem_map.mp (hwf.event_ref e he)
  exact ⟨o, ho, by simpa using he⟩

/-- The join of the evidence query reads the occurrences of the posting. -/
theorem evidence_join {p : JobPosting} (hp : p ∈ db.jobPostings) :
    (db.jobOccurrences.filter fun o =>
      db.jobPostings.any fun q => q.id = o.jobId && q.baseHash = p.baseHash) =
      db.occurrencesOf p.id := by
  refine List.filter_congr fun o _ => ?_
  rw [Bool.eq_iff_iff, List.any_eq_true]
  simp only [Bool.and_eq_true, decide_eq_true_eq]
  constructor
  · rintro ⟨q, hq, hid, hh⟩
    rw [← hid, List.inj_on_of_nodup_map hwf.posting_hash_nodup hq hp hh]
  · exact fun h => ⟨p, hp, h.symm, rfl⟩

/-- **The evidence query** reads the evidence of the job. -/
theorem currentOccurrenceEvidence_eq (h : Digest) :
    db.currentOccurrenceEvidence S h = (db.job h).bind (·.evidence S) := by
  unfold currentOccurrenceEvidence job
  cases hp : db.postingByHash h with
  | none =>
    rw [List.filter_eq_nil_iff.mpr]
    · rfl
    · intro o _
      have := List.find?_eq_none.mp hp
      simp only [decide_eq_true_eq] at this
      simp only [List.any_eq_true, Bool.and_eq_true, decide_eq_true_eq, not_exists, not_and]
      exact fun q hq _ => this q hq
  | some p =>
    obtain ⟨hpm, rfl⟩ := postingByHash_mem hp
    rw [hwf.evidence_join hpm]
    simp only [Option.map_some, Option.bind_some, JobRows.evidence, rowsOf]
    cases ho : (db.occurrencesOf p.id).getLast? with
    | none => rfl
    | some o =>
      have hmem := List.mem_of_getLast? ho
      obtain ⟨homem, hojob⟩ := Table.mem_rowsOf.mp hmem
      simp only [Option.map_some, Option.some.injEq, Prod.mk.injEq, true_and]
      unfold occurrenceIdentities
      congr 2
      -- the observations of the occurrence are those of the job
      rw [Table.rowsOf, List.filter_filter]
      refine List.filter_congr fun b hb => ?_
      rw [Bool.eq_iff_iff]
      simp only [Bool.and_eq_true, decide_eq_true_eq]
      constructor
      · intro hbo
        obtain ⟨o', ho', hid, hjob⟩ := hwf.observation_occurrence hb
        have : o' = o :=
          List.inj_on_of_nodup_map hwf.occurrenceId_nodup ho' homem (hid.trans hbo)
        exact ⟨hbo, by rw [← hjob, this, hojob]⟩
      · exact fun h => h.1

end WF

/-! ## Company statements -/

@[simp] theorem insertCompany_job (name : Str) (h : Digest) :
    (db.insertCompany name).job h = db.job h := by
  unfold insertCompany
  split_ifs <;> rfl

theorem insertCompany_wf (hwf : db.WF) (name : Str) : (db.insertCompany name).WF := by
  unfold insertCompany
  split_ifs with hany
  · exact hwf
  simp only [List.any_eq_true, decide_eq_true_eq, not_exists, not_and] at hany
  refine { hwf with companyId := ?_, companyName := ?_, company_lt := ?_, posting_company := ?_ }
  · simp only [List.map_append, List.map_cons, List.map_nil]
    refine List.nodup_append.mpr ⟨hwf.companyId, by simp, ?_⟩
    intro i hi j hj
    obtain ⟨c, hc, rfl⟩ := List.mem_map.mp hi
    have := hwf.company_lt c hc
    simp only [List.mem_singleton] at hj
    omega
  · simp only [List.map_append, List.map_cons, List.map_nil]
    refine List.nodup_append.mpr ⟨hwf.companyName, by simp, ?_⟩
    intro n hn m hm
    obtain ⟨c, hc, rfl⟩ := List.mem_map.mp hn
    simp only [List.mem_singleton] at hm
    exact hm ▸ hany c hc
  · intro c hc
    simp only [List.mem_append, List.mem_singleton] at hc
    rcases hc with hc | rfl
    · have := hwf.company_lt c hc
      simp only
      omega
    · simp
  · intro p hp
    have := hwf.posting_company p hp
    simp only [hasCompany, List.any_append, Bool.or_eq_true] at this ⊢
    exact .inl this

end Db

end JobPing
