import JobPing.Batching
import JobPing.ContentHashes
import JobPing.KeptRows

/-!
# What the cache decides

The cache decides which of several rows of one job in one commit or file comes last in the loops of
`persist_results`: the first of them when the cache holds its hash, a later one when it holds nothing.
It decides nothing else: a batch does not depend on the cache exactly when no job has all its
different rows, two or more, in one commit or file, and the tables it leaves then do not depend on
it either, up to ids (`cache_transparent_iff`).
-/

namespace JobPing

variable {cfg : Config} {I : Ingestion}

/-! ## Rows of one job in one commit or file -/

theorem Digest.ext {a b : Digest} (h : a.hex = b.hex) : a = b := by
  cases a
  cases b
  cases h
  rfl

/-- After the first row the states are updates and closures. -/
theorem statesOf_later {row : KeptRow} {rows : List KeptRow}
    (hnd : ((row :: rows).map (·.job.contentHash)).Nodup) (item : PipelineItem)
    (h : item ∈ statesOf (some row.job.contentHash.hex) rows) :
    (item.state = .roleUpdated ∨ item.state = .roleClosed) ∧
      ∃ later ∈ rows, later.job = item.job := by
  induction rows generalizing row with
  | nil => cases h
  | cons next rows ih =>
    rw [List.map_cons, List.nodup_cons] at hnd
    rcases List.mem_cons.mp h with rfl | h
    · have hne : row.job.contentHash.hex ≠ next.job.contentHash.hex := fun heq =>
        hnd.1 (List.mem_map.mpr ⟨next, List.mem_cons_self, (Digest.ext heq).symm⟩)
      refine ⟨?_, next, List.mem_cons_self, rfl⟩
      rw [classifyAndUpdate, KeptRow.cacheWrite]
      simp only [hne, if_false]
      split_ifs <;> simp
    · obtain ⟨hstate, later, hlater, hjob⟩ := ih hnd.2 h
      exact ⟨hstate, later, List.mem_cons_of_mem _ hlater, hjob⟩

/-- A first item that is `NO_OP` comes last. -/
theorem lastListed_of_no_op {first : PipelineItem} {rest : List PipelineItem}
    (hfirst : first.state = .noOp)
    (hrest : ∀ item ∈ rest, item.state = .roleUpdated ∨ item.state = .roleClosed) :
    lastListed (first :: rest) = some first := by
  have hnone : rest.filter (·.state = .noOp) = [] := by
    rw [List.filter_eq_nil_iff]
    intro item hitem
    rcases hrest item hitem with h | h <;> simp [h]
  simp [lastListed, DeduplicationState.all, hfirst, hnone]

/-- A first item that is `NEW_ROLE` comes first. -/
theorem lastListed_of_new_role {first : PipelineItem} {rest : List PipelineItem}
    (hfirst : first.state = .newRole) (hrest : rest ≠ []) :
    lastListed (first :: rest) = lastListed rest := by
  have hlisted : DeduplicationState.all.flatMap (fun state =>
      (first :: rest).filter (·.state = state)) =
        first :: DeduplicationState.all.flatMap fun state => rest.filter (·.state = state) := by
    simp [DeduplicationState.all, hfirst]
  have hsome := lastListed_isSome.mpr hrest
  unfold lastListed at hsome ⊢
  rw [hlisted, List.getLast?_cons]
  obtain ⟨last, hlast⟩ := Option.isSome_iff_exists.mp hsome
  rw [hlast]
  rfl

/-- **One commit or file**: the cache decides between several rows of a job. -/
theorem group_const_iff {rows : List KeptRow} (hnd : (rows.map (·.job.contentHash)).Nodup) :
    (∀ previous previous', (lastListed (statesOf previous rows)).map (·.job) =
        (lastListed (statesOf previous' rows)).map (·.job)) ↔ rows.length < 2 := by
  match rows with
  | [] => simp [statesOf]
  | [row] =>
    have hone : ∀ item : PipelineItem, lastListed [item] = some item := fun item => by
      obtain ⟨found, hfound⟩ := Option.isSome_iff_exists.mp
        (lastListed_isSome.mpr (List.cons_ne_nil item []))
      rw [hfound, List.mem_singleton.mp (mem_of_lastListed hfound)]
    simp [statesOf, hone]
  | row :: next :: rows =>
    simp only [List.length_cons, show ¬ rows.length + 1 + 1 < 2 by omega, iff_false, not_forall]
    -- a current key against a missing one
    refine ⟨some row.job.contentHash.hex, none, fun heq => ?_⟩
    have hlater := statesOf_later hnd
    rw [statesOf, lastListed_of_no_op (by simp [classifyAndUpdate, KeptRow.cacheWrite])
      fun item hitem => (hlater item hitem).1, statesOf,
      lastListed_of_new_role rfl (by simp [statesOf])] at heq
    obtain ⟨item, hitem, hjob⟩ := Option.map_eq_some_iff.mp heq.symm
    obtain ⟨-, later, hmem, hlaterjob⟩ := hlater item (mem_of_lastListed hitem)
    rw [List.map_cons, List.nodup_cons] at hnd
    refine hnd.1 (List.mem_map.mpr ⟨later, hmem, ?_⟩)
    rw [hlaterjob, hjob]

/-! ## Rows of one job in several commits or files -/

theorem winningJob_isSome {previous : Option Str} {groups : List (List KeptRow)} :
    (winningJob previous groups).isSome ↔ groups.flatten ≠ [] := by
  induction groups generalizing previous with
  | nil => simp [winningJob]
  | cons rows groups ih =>
    have hrows : statesOf previous rows ≠ [] ↔ rows ≠ [] := by cases rows <;> simp [statesOf]
    rw [winningJob, Option.isSome_or, Bool.or_eq_true, ih, Option.isSome_map, lastListed_isSome,
      hrows, List.flatten_cons]
    simp only [ne_eq, List.append_eq_nil_iff]
    tauto

/-- **The cache decides the winner** of a hash exactly when its rows, two or more, are all in one
commit or file. -/
theorem winningJob_const_iff {groups : List (List KeptRow)}
    (hnd : ∀ rows ∈ groups, (rows.map (·.job.contentHash)).Nodup) :
    (∀ previous previous', winningJob previous groups = winningJob previous' groups) ↔
      ¬ ∃ rows ∈ groups, 2 ≤ rows.length ∧ groups.flatten = rows := by
  induction groups with
  | nil => simp [winningJob]
  | cons rows groups ih =>
    have hih := ih fun rows hrows => hnd rows (List.mem_cons_of_mem _ hrows)
    by_cases hgroups : groups.flatten = []
    · -- the rows of this commit or file are all there are
      have hnone : ∀ previous, winningJob previous groups = none := fun previous => by
        rw [← Option.not_isSome_iff_eq_none, winningJob_isSome]
        exact fun h => h hgroups
      have hempty : ∀ other ∈ groups, other = [] := List.flatten_eq_nil_iff.mp hgroups
      simp only [winningJob, hnone, Option.none_or, List.flatten_cons, hgroups,
        List.append_nil, group_const_iff (hnd rows List.mem_cons_self)]
      constructor
      · rintro hlt ⟨other, -, hlen, rfl⟩
        omega
      · intro hnot
        by_contra hlen
        exact hnot ⟨rows, List.mem_cons_self, by omega, rfl⟩
    · cases rows with
      | nil =>
        have hor : ∀ previous, winningJob previous ([] :: groups) =
            winningJob previous groups := fun previous => by
          have hnone : lastListed [] = none := rfl
          simp [winningJob, leftBy, statesOf, hnone]
        simp only [hor, hih, List.flatten_cons, List.nil_append, List.mem_cons, exists_eq_or_imp]
        simp
      | cons row rows =>
        -- a later commit or file has rows too, and sees what this one leaves
        have hconst : ∀ previous previous', winningJob previous ((row :: rows) :: groups) =
            winningJob previous' ((row :: rows) :: groups) := fun previous previous' => by
          have hsome : ∀ p, (winningJob p groups).isSome := fun p =>
            winningJob_isSome.mpr hgroups
          simp only [winningJob, Option.or_of_isSome (hsome _), leftBy_cons]
        refine iff_of_true hconst ?_
        rintro ⟨other, hother, -, hflat⟩
        have hlen := congrArg List.length hflat
        have hpos : 0 < groups.flatten.length := List.length_pos_iff.mpr hgroups
        rw [List.flatten_cons, List.length_append] at hlen
        rcases List.mem_cons.mp hother with rfl | hother
        · omega
        · have hle : other.length ≤ groups.flatten.length :=
            (List.sublist_flatten_of_mem hother).length_le
          rw [List.length_cons] at hlen
          omega

/-! ## The cache and the tables -/

/-- The job has two or more different rows, all in one commit or file. -/
def TwiceInOne (I : Ingestion) (repository : Option Db) (sources : List SimplifySource)
    (h : Digest) : Prop :=
  ∃ rows ∈ hashGroups I repository sources h,
    2 ≤ rows.length ∧ (hashGroups I repository sources h).flatten = rows

theorem nodup_hashGroups (repository : Option Db) (sources : List SimplifySource) (h : Digest) :
    ∀ rows ∈ hashGroups I repository sources h, (rows.map (·.job.contentHash)).Nodup := by
  intro rows hrows
  obtain ⟨source, -, rfl⟩ := List.mem_map.mp hrows
  have hsignatures : ((rowsOfHash h (keptRows I repository source)).map (·.signature)).Nodup :=
    (nodup_keptRows I repository source).sublist (List.filter_sublist.map _)
  refine (List.nodup_map_iff_inj_on (List.Nodup.of_map _ hsignatures)).mpr ?_
  intro row hrow row' hrow' heq
  have hh : row.job.baseHash = h := of_decide_eq_true (List.mem_filter.mp hrow).2
  have hh' : row'.job.baseHash = h := of_decide_eq_true (List.mem_filter.mp hrow').2
  exact List.inj_on_of_nodup_map hsignatures hrow hrow' (Prod.ext (hh.trans hh'.symm) heq)

/-- A job of the pipeline names its company. -/
theorem PipelineItem.Classified.accepts {db : Db} {simplify : SimplifyConfig}
    {repository : Option Db} {item : PipelineItem} (h : item.Classified I simplify repository) :
    db.Accepts I.toServices .bulk item.job := by
  obtain ⟨normalized, hnormalized, hjob⟩ := Option.map_eq_some_iff.mp h.job
  obtain ⟨details, hvalid⟩ := SimplifyCandidate.normalize_eq_some hnormalized
  rw [← hjob, reconcileExistingUrl_eq, (NormalizedJob.validate_eq_some hvalid).2]
  intro hpath
  cases hpath

/-- **The cache is only a cache exactly when** no job has its rows, two or more, all in one commit or
file: then the batch has the same jobs, and the tables it leaves are the same up to ids, for any two
contents of the cache; otherwise two contents give the batch different jobs. -/
theorem cache_transparent_iff {db : Db} (hreach : Reachable cfg I.toServices db)
    (repository : Option Db) (sources : List SimplifySource) :
    ((∀ h, ¬ TwiceInOne I repository sources h) → ∀ cache cache',
      (persistResultsDb cfg I db (processAll I repository cache sources).1).SameUpToIds
        (persistResultsDb cfg I db (processAll I repository cache' sources).1)) ∧
    ((∀ h, ¬ TwiceInOne I repository sources h) ↔ ∀ cache cache',
      ((winners (processAll I repository cache sources).1).map (·.job)).Perm
        ((winners (processAll I repository cache' sources).1).map (·.job))) := by
  have hconst : (∀ h, ¬ TwiceInOne I repository sources h) ↔ ∀ cache cache',
      ((winners (processAll I repository cache sources).1).map (·.job)).Perm
        ((winners (processAll I repository cache' sources).1).map (·.job)) := by
    simp only [winners_perm_iff, winnerJob_eq]
    have hiff := fun h => winningJob_const_iff (nodup_hashGroups (I := I) repository sources h)
    constructor
    · intro hnot cache cache' h
      exact (hiff h).mpr (hnot h) (cache h) (cache' h)
    · intro hall h
      exact (hiff h).mp fun previous previous' => hall (fun _ => previous) (fun _ => previous') h
  refine ⟨fun hnot cache cache' => ?_, hconst⟩
  have hperm := hconst.mp hnot cache' cache
  have hrun : ∀ cache, persistResultsDb cfg I db (processAll I repository cache sources).1 =
      (Call.bulk ((winners (processAll I repository cache sources).1).map (·.job))).exec cfg
        I.toServices db := fun cache => (Ingest.simplify repository cache sources).run_eq db
  rw [hrun, hrun]
  refine bulk_perm_sameUpToIds hreach hperm fun job hjob => ?_
  obtain ⟨item, hitem, rfl⟩ := List.mem_map.mp hjob
  obtain ⟨result, hresult, hmem⟩ := mem_winners hitem
  obtain ⟨source, -, -, hclassified⟩ := processed_items hresult hmem
  exact hclassified.accepts

/-! ## A job listed twice -/

/-- Tables that are the same up to ids list a job in the same place. -/
theorem Db.SameUpToIds.location {db db' : Db} (h : db.SameUpToIds db') (baseHash : Digest) :
    (db.job baseHash).map (·.posting.location) = (db'.job baseHash).map (·.posting.location) := by
  obtain ⟨r, hr⟩ := h.2
  have hrows := hr baseHash
  revert hrows
  cases db.job baseHash <;> cases db'.job baseHash <;> intro hrows <;> cases hrows
  · rfl
  · next hsame => rw [hsame.1]; rfl

/-- A row of the sample job, and one in another place. -/
def remoteRow : SimplifyCandidate := sampleTableRow "https://jobs.lever.co/acme/1" "Remote" false

def berlinRow : SimplifyCandidate := sampleTableRow "https://jobs.lever.co/acme/1" "Berlin" false

/-- The cache after the first row. -/
def remoteCache : Cache :=
  (processAll .ascii (some .empty) (fun _ => none) [sampleCommit "c0ffee" [remoteRow]]).2

/-- One commit with both rows leaves the second with an empty cache, the first with a current one. -/
theorem cache_chooses_row : Reachable sampleConfig Ingestion.ascii.toServices .empty ∧
    ¬ (persistResultsDb sampleConfig .ascii .empty (processAll .ascii (some .empty)
        (fun _ => none) [sampleCommit "decade" [remoteRow, berlinRow]]).1).SameUpToIds
      (persistResultsDb sampleConfig .ascii .empty (processAll .ascii (some .empty)
        remoteCache [sampleCommit "decade" [remoteRow, berlinRow]]).1) := by
  refine ⟨⟨[], rfl⟩, fun hsame => ?_⟩
  have hlocation := hsame.location
    (Ingestion.ascii.generateBaseHash remoteRow.row.company remoteRow.row.title)
  revert hlocation
  decide +kernel

/-- One row in each of two commits leaves the same tables with both. -/
theorem separate_rows_same :
    (persistResultsDb sampleConfig .ascii .empty (processAll .ascii (some .empty)
        (fun _ => none) [sampleCommit "c0ffee" [remoteRow],
          sampleCommit "decade" [berlinRow]]).1).SameUpToIds
      (persistResultsDb sampleConfig .ascii .empty (processAll .ascii (some .empty)
        remoteCache [sampleCommit "c0ffee" [remoteRow], sampleCommit "decade" [berlinRow]]).1) := by
  refine (cache_transparent_iff ⟨[], rfl⟩ (some .empty) _).1 ?_ _ _
  rintro h ⟨rows, hrows, htwo, -⟩
  have hlengths : ∀ source ∈ [sampleCommit "c0ffee" [remoteRow],
      sampleCommit "decade" [berlinRow]],
      (keptRows .ascii (some .empty) source).length < 2 := by decide +kernel
  obtain ⟨source, hsource, rfl⟩ := List.mem_map.mp hrows
  have hle : (rowsOfHash h (keptRows .ascii (some .empty) source)).length ≤
      (keptRows .ascii (some .empty) source).length := List.length_filter_le _ _
  exact absurd (hlengths source hsource) (by omega)

end JobPing
