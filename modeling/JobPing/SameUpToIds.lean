import JobPing.Renumbering

/-!
# Tables up to ids

Two databases hold the same rows up to ids when one renumbering turns the rows of every job of the
first into its rows in the second (`Db.SameUpToIds`). As the ids of different jobs differ, it is
enough to find a renumbering for each job (`sameUpToIds_of_jobs`).
-/

namespace JobPing

variable {cfg : Config} {S : Services} {path : WritePath}

namespace Db

variable {db db' : Db}

/-! ## The relation -/

/-- The name of a company. -/
def companyName (db : Db) (companyId : ℕ) : Option Str :=
  (db.companies.find? (·.id = companyId)).map (·.name)

/-- The rows of a job in two databases, when they agree up to the renumbering and the company is
the same one. -/
def SameRows (db db' : Db) (r : Renumbering) (rows rows' : JobRows) : Prop :=
  rows' = (rows.renumber r).withCompany rows'.posting.companyId ∧
    db.companyName rows.posting.companyId = db'.companyName rows'.posting.companyId

/-- **The same tables up to ids.** -/
def SameUpToIds (db db' : Db) : Prop :=
  (∀ name, name ∈ db.companies.map (·.name) ↔ name ∈ db'.companies.map (·.name)) ∧
    ∃ r : Renumbering, ∀ h, Option.Rel (db.SameRows db' r) (db.job h) (db'.job h)

/-! ## Companies -/

/-- A company keeps its name. -/
theorem companyName_prefix (h : db.companies <+: db'.companies) {id : ℕ}
    (hid : db.hasCompany id = true) : db'.companyName id = db.companyName id := by
  obtain ⟨new, hnew⟩ := h
  have hsome : (db.companies.find? (·.id = id)).isSome := by
    rw [List.find?_isSome]
    exact List.any_eq_true.mp hid
  obtain ⟨c, hc⟩ := Option.isSome_iff_exists.mp hsome
  rw [companyName, companyName, ← hnew, List.find?_append, hc]
  rfl

/-- The company found by a name has that name. -/
theorem WF.companyName_of (hwf : db.WF) {name : Str} {id : ℕ}
    (h : db.companyIdOf name = some id) : db.companyName id = some name := by
  obtain ⟨c, hc, rfl⟩ := Option.map_eq_some_iff.mp h
  have hmem := List.mem_of_find?_eq_some hc
  rw [Db.companyName, Table.find?_key hwf.companyId hmem]
  simpa using List.find?_some hc

theorem companyIdOf_isSome {name : Str} :
    (db.companyIdOf name).isSome ↔ name ∈ db.companies.map (·.name) := by
  rw [companyIdOf, Option.isSome_map, List.find?_isSome]
  simp

/-! ## One renumbering for all jobs -/

/-- The job a posting id belongs to. -/
def postingOwner (db : Db) (id : ℕ) : Option Digest :=
  (db.jobPostings.find? (·.id = id)).map (·.baseHash)

/-- The job an occurrence id belongs to. -/
def occurrenceOwner (db : Db) (id : ℕ) : Option Digest :=
  (db.jobOccurrences.find? (·.id = id)).bind fun o => db.postingOwner o.jobId

theorem WF.postingOwner_eq (hwf : db.WF) {h : Digest} {rows : JobRows}
    (hj : db.job h = some rows) : db.postingOwner rows.posting.id = some h := by
  obtain ⟨hp, -⟩ := mem_of_job hj
  rw [postingOwner, Table.find?_key hwf.posting_id_nodup hp, Option.map_some, job_baseHash hj]

theorem WF.occurrenceOwner_eq (hwf : db.WF) {h : Digest} {rows : JobRows}
    (hj : db.job h = some rows) {i : ℕ} (hi : i ∈ rows.occurrenceIds) :
    db.occurrenceOwner i = some h := by
  obtain ⟨o, ho, rfl⟩ := List.mem_map.mp hi
  rw [(mem_of_job hj).2] at ho
  obtain ⟨homem, hojob⟩ := Table.mem_rowsOf.mp ho
  rw [occurrenceOwner, Table.find?_key hwf.occurrenceId_nodup homem, Option.bind_some, hojob]
  exact hwf.postingOwner_eq hj

theorem WF.exists_posting_job (hwf : db.WF) {i : ℕ} (hi : i ∈ db.jobPostings.map (·.id)) :
    ∃ h rows, db.job h = some rows ∧ rows.posting.id = i := by
  obtain ⟨p, hp, rfl⟩ := List.mem_map.mp hi
  exact ⟨_, _, hwf.jobOf_posting hp, rfl⟩

theorem WF.exists_occurrence_job (hwf : db.WF) {i : ℕ} (hi : i ∈ db.jobOccurrences.map (·.id)) :
    ∃ h rows, db.job h = some rows ∧ i ∈ rows.occurrenceIds := by
  obtain ⟨o, ho, rfl⟩ := List.mem_map.mp hi
  obtain ⟨p, hp, -, hmem⟩ := hwf.occurrence_posting ho
  exact ⟨_, _, hwf.jobOf_posting hp, List.mem_map_of_mem (f := (·.id)) hmem⟩

theorem sameRows_ids {r : Renumbering} {rows rows' : JobRows} (h : db.SameRows db' r rows rows') :
    rows'.posting.id = r.posting rows.posting.id ∧
      rows'.occurrenceIds = rows.occurrenceIds.map r.occurrence := by
  rw [h.1]
  refine ⟨rfl, ?_⟩
  simp [JobRows.occurrenceIds, JobRows.withCompany, JobRows.renumber, JobOccurrence.renumber]

/-- **Job by job is enough**: the renumberings of the jobs are parts of one. -/
theorem sameUpToIds_of_jobs (hwf : db.WF) (hwf' : db'.WF)
    (hlife : ∀ h rows, db.job h = some rows → rows.Lifecycle)
    (hcompanies : ∀ name, name ∈ db.companies.map (·.name) ↔ name ∈ db'.companies.map (·.name))
    (hjobs : ∀ h, ∃ r, Option.Rel (db.SameRows db' r) (db.job h) (db'.job h)) :
    db.SameUpToIds db' := by
  refine ⟨hcompanies, ?_⟩
  choose r hr using hjobs
  obtain ⟨g, hg⟩ : ∃ g : Option Digest → Renumbering, ∀ h, g (some h) = r h :=
    ⟨fun owner => owner.elim .refl r, fun _ => rfl⟩
  have hrows : ∀ h rows, db.job h = some rows → ∃ rows', db'.job h = some rows' ∧
      db.SameRows db' (r h) rows rows' := fun h rows hj => by
    have hrel := hr h
    rw [hj] at hrel
    cases hj' : db'.job h with
    | none =>
      rw [hj'] at hrel
      cases hrel
    | some rows' =>
      rw [hj'] at hrel
      cases hrel with
      | some hsame => exact ⟨rows', rfl, hsame⟩
  -- the ids of a job go to ids of the same job
  have hposting : ∀ h rows, db.job h = some rows →
      db'.postingOwner ((g (some h)).posting rows.posting.id) = some h := fun h rows hj => by
    obtain ⟨rows', hj', hsame⟩ := hrows h rows hj
    rw [hg, ← (sameRows_ids hsame).1]
    exact hwf'.postingOwner_eq hj'
  have hoccurrence : ∀ h rows, db.job h = some rows → ∀ i ∈ rows.occurrenceIds,
      db'.occurrenceOwner ((g (some h)).occurrence i) = some h := fun h rows hj i hi => by
    obtain ⟨rows', hj', hsame⟩ := hrows h rows hj
    refine hwf'.occurrenceOwner_eq hj' ?_
    rw [hg, (sameRows_ids hsame).2]
    exact List.mem_map_of_mem hi
  obtain ⟨σ, hσ⟩ := Table.exists_perm_gluing (db.jobPostings.map (·.id)).toFinset
    db.postingOwner (fun owner => (g owner).posting) (by
      intro i hi j hj hij
      obtain ⟨h, rows, hjob, rfl⟩ := hwf.exists_posting_job (List.mem_toFinset.mp hi)
      obtain ⟨k, rows₂, hjob₂, rfl⟩ := hwf.exists_posting_job (List.mem_toFinset.mp hj)
      simp only [hwf.postingOwner_eq hjob, hwf.postingOwner_eq hjob₂] at hij ⊢
      exact (hposting h rows hjob).symm.trans ((congrArg _ hij).trans (hposting k rows₂ hjob₂)))
  obtain ⟨τ, hτ⟩ := Table.exists_perm_gluing (db.jobOccurrences.map (·.id)).toFinset
    db.occurrenceOwner (fun owner => (g owner).occurrence) (by
      intro i hi j hj hij
      obtain ⟨h, rows, hjob, hi⟩ := hwf.exists_occurrence_job (List.mem_toFinset.mp hi)
      obtain ⟨k, rows₂, hjob₂, hj⟩ := hwf.exists_occurrence_job (List.mem_toFinset.mp hj)
      simp only [hwf.occurrenceOwner_eq hjob hi, hwf.occurrenceOwner_eq hjob₂ hj] at hij ⊢
      exact (hoccurrence h rows hjob i hi).symm.trans
        ((congrArg _ hij).trans (hoccurrence k rows₂ hjob₂ j hj)))
  refine ⟨⟨σ, τ⟩, fun h => ?_⟩
  cases hj : db.job h with
  | none =>
    have hrel := hr h
    rw [hj] at hrel
    cases hj' : db'.job h with
    | none => exact .none
    | some rows' =>
      rw [hj'] at hrel
      cases hrel
  | some rows =>
    obtain ⟨rows', hj', heq, hname⟩ := hrows h rows hj
    rw [hj']
    refine .some ⟨?_, hname⟩
    have hmem := mem_of_job hj
    have hagree : rows.renumber ⟨σ, τ⟩ = rows.renumber (r h) := by
      refine (hwf.refers_inside hj (hlife h rows hj)).renumber_congr ?_ fun i hi => ?_
      · have hid : rows.posting.id ∈ (db.jobPostings.map (·.id)).toFinset :=
          List.mem_toFinset.mpr (List.mem_map_of_mem (f := (·.id)) hmem.1)
        simpa only [hwf.postingOwner_eq hj, hg] using hσ _ hid
      · have hid : i ∈ (db.jobOccurrences.map (·.id)).toFinset := by
          obtain ⟨o, ho, rfl⟩ := List.mem_map.mp hi
          rw [hmem.2] at ho
          exact List.mem_toFinset.mpr
            (List.mem_map_of_mem (f := (·.id)) (Table.mem_rowsOf.mp ho).1)
        simpa only [hwf.occurrenceOwner_eq hj hi, hg] using hτ i hid
    rw [hagree]
    exact heq

end Db

end JobPing
