import JobPing.ContentHashes

/-!
# Reported and persisted outcomes

`persist_results` regroups its winning items under states of its own, derived from a read before the
SQL write and from the cached classification (`reportedItem`); the bulk path derives the state of a
write from the occurrence and the change of hash. The two agree on every discovery, closure, reopening
and repost (`reported_state`, `deliver_bulkState`), and on an update exactly when its two hashes
compare alike and the cache has not classified a changed closed row as `ROLE_CLOSED`
(`reported_agrees_iff`).
-/

namespace JobPing

variable {cfg : Config} {S : Services} {I : Ingestion}

/-! ## The state the bulk path reports -/

/-- **The outcome of the bulk path** on a job that satisfies the invariant. -/
theorem deliver_bulkState {ids : WriteIds} {base : Option JobRows}
    (hlife : ∀ b, base = some b → b.Lifecycle) {job : NormalizedJob} {rows : JobRows}
    {state : DeduplicationState}
    (h : deliverJob cfg S .bulk ids base job = some (rows, state)) :
    state = match decision S base job with
      | .discover => .newRole
      | .close => .roleClosed
      | .reopen => .roleUpdated
      | .repost => .roleReposted
      | _ => if base.any fun b => b.posting.contentHash ≠ rows.posting.contentHash then
          .roleUpdated else .noOp := by
  have hdecided := decided S hlife job
  cases base with
  | none =>
    obtain ⟨details, -, -, hstate⟩ := writeEffects_eq_some h
    rw [hstate]
    rfl
  | some b =>
    have hb := hlife b rfl
    obtain ⟨init, last, hinit, hlast⟩ := hb.chain.exists_last
    by_cases hquiet : decision S (some b) job = .openUpdate ∨
        decision S (some b) job = .ambiguousReopen
    · obtain ⟨-, -, -, hstate⟩ := deliver_quiet hb hquiet h
      rw [hstate]
      rcases hquiet with hd | hd <;> rw [hd] <;> simp [contentChanged]
    · obtain ⟨details, -, hrows, hstate⟩ := writeEffects_eq_some h
      set upserted := upsertRows .bulk ids.posting _ _ (some b)
      have hp : upserted.posting.isClosed = (candidate S (some b) job).isClosed :=
        upsertRows_isClosed ..
      have hlast' : upserted.occurrences.getLast? = some last := hlast
      have hstep := hb.transitionOf_decision hlast .bulk job hp
      have hclosed := hb.closed last hlast
      rw [candidate_isClosed hdecided] at hp
      simp only [Option.map_some, hlast'] at hstate
      rw [hstep, hp] at hstate
      rw [hstate]
      cases hd : decision S (some b) job with
      | repost =>
        rw [hb.repost_starts hd]
        rfl
      | _ =>
        rw [hd] at hdecided hquiet
        cases hdecided <;> simp_all [stateForPersistence, created, previouslyClosed,
          OccurrenceStep.createdRepost]

/-! ## The state `persist_results` reports -/

/-- The hash `persist_results` compares with that of the posting. -/
def comparedHash (S : Services) (posting : JobPosting) (job : NormalizedJob) : Digest :=
  S.generateContentHash job.baseHash
    (S.chooseCanonicalApplyUrl posting.applyUrl job.applyUrl) job.location job.isClosed

/-- The hash of the job reconciled with the posting. -/
def reconciledHash (S : Services) (db : Db) (posting : JobPosting) (job : NormalizedJob) :
    Digest :=
  (effectiveJob S (prepareCandidate S job (db.classify S job) (some posting))
    (some posting)).contentHash

/-- The state of an update under its cached classification. -/
def updatedState (S : Services) (posting : JobPosting) (item : PipelineItem) :
    DeduplicationState :=
  if posting.contentHash = comparedHash S posting item.job then .noOp
  else if item.state = .noOp ∨ item.state = .newRole then .roleUpdated
  else item.state

/-- **The state an item is regrouped under.** -/
theorem reported_state {db : Db} (hwf : db.WF) {item : PipelineItem}
    (hlife : ∀ b, db.job item.job.baseHash = some b → b.Lifecycle) :
    (reportedItem I db item).state = match db.classify I.toServices item.job with
      | .discover => .newRole
      | .close => .roleClosed
      | .reopen => .roleUpdated
      | .repost => .roleReposted
      | .ambiguousReopen => .noOp
      | .openUpdate => (db.postingByHash item.job.baseHash).elim .newRole fun posting =>
          updatedState I.toServices posting item := by
  have hdecided := decided I.toServices hlife item.job
  rw [← hwf.classify_eq] at hdecided
  have hposting := db.job_posting item.job.baseHash
  unfold reportedItem
  simp only
  rw [show decideOccurrence I.toServices item.job (item.job.source.getD [])
    (db.postingByHash item.job.baseHash)
    (db.currentOccurrenceEvidence I.toServices item.job.baseHash) =
      db.classify I.toServices item.job from rfl]
  cases hbase : db.job item.job.baseHash with
  | none =>
    rw [hbase] at hdecided hposting
    simp only [Option.map_none] at hposting
    rw [← hposting]
    cases hd : db.classify I.toServices item.job <;> rw [hd] at hdecided <;> cases hdecided
  | some b =>
    rw [hbase] at hdecided hposting
    simp only [Option.map_some] at hposting
    simp only [← hposting, Option.elim_some]
    cases hd : db.classify I.toServices item.job <;> rw [hd] at hdecided <;> cases hdecided
    · -- an update leaves the closed flag as it is, so the hash and the cache decide
      simp_all only [prepareCandidate, updatedState, comparedHash, Bool.and_not_self,
        Bool.not_and_self, Bool.false_eq_true, if_false]
      rfl
    all_goals simp_all [prepareCandidate]

/-! ## Agreement -/

/-- An update of a stored posting compares alike in both places, and the cache does not call a changed
row closed; an ambiguous reopening keeps the hash of the posting. -/
def OutcomeAgrees (S : Services) (db : Db) (item : PipelineItem) : Prop :=
  ∀ posting, db.postingByHash item.job.baseHash = some posting →
    match db.classify S item.job with
    | .openUpdate =>
      (posting.contentHash = comparedHash S posting item.job ↔
          posting.contentHash = reconciledHash S db posting item.job) ∧
        (posting.contentHash ≠ reconciledHash S db posting item.job →
          item.state ≠ .roleClosed)
    | .ambiguousReopen => posting.contentHash = reconciledHash S db posting item.job
    | _ => True

/-- **One item** is regrouped under the state of its write exactly when its outcome agrees. -/
theorem item_agrees_iff {db : Db} (hwf : db.WF) {item : PipelineItem}
    (hlife : ∀ b, db.job item.job.baseHash = some b → b.Lifecycle)
    (hstate : item.state ≠ .roleReposted) {ids : WriteIds} {rows : JobRows}
    {state : DeduplicationState}
    (h : deliverJob cfg I.toServices .bulk ids (db.job item.job.baseHash) item.job =
      some (rows, state)) :
    (reportedItem I db item).state = state ↔ OutcomeAgrees I.toServices db item := by
  have hdecided := decided I.toServices hlife item.job
  have hposting := db.job_posting item.job.baseHash
  obtain ⟨hhash, -⟩ := deliverJob_columns h
  rw [reported_state hwf hlife, deliver_bulkState hlife h, OutcomeAgrees]
  simp only [reconciledHash, hwf.classify_eq]
  cases hbase : db.job item.job.baseHash with
  | none =>
    rw [hbase] at hdecided hposting
    simp only [Option.map_none] at hposting
    cases hd : decision I.toServices none item.job <;> rw [hd] at hdecided <;> cases hdecided
    simp [← hposting]
  | some b =>
    rw [hbase] at hdecided hposting hhash
    simp only [Option.map_some] at hposting hhash
    simp only [← hposting, Option.some.injEq, forall_eq', Option.any_some, Option.elim_some,
      decide_eq_true_eq, hhash, candidate, Option.map_some]
    cases hd : decision I.toServices (some b) item.job <;> rw [hd] at hdecided <;> cases hdecided
    · -- an update
      simp only [updatedState]
      cases hs : item.state <;> simp_all <;> split_ifs <;> simp_all
    all_goals simp_all

/-- A winning item is regrouped under its reported state. -/
theorem mem_regrouped {db : Db} {results : List PipelineResult} {item : PipelineItem}
    (h : item ∈ winners results) :
    ∃ result ∈ results.zipIdx.map fun (result, index) =>
        result.regroup I db (latestItems results) index,
      reportedItem I db item ∈ result.categorized (reportedItem I db item).state := by
  obtain ⟨⟨key, index, found⟩, hmem, rfl⟩ := List.mem_map.mp h
  obtain ⟨rfl, result, hget, hitem⟩ := mem_latestItems hmem
  refine ⟨result.regroup I db (latestItems results) index, ?_, ?_⟩
  · exact List.mem_map.mpr ⟨(result, index), List.mem_zipIdx_iff_getElem?.mpr hget, rfl⟩
  · have hwinner : Dict.get? found.job.baseHash (latestItems results) = some (index, found) :=
      Dict.get?_of_mem (Dict.nodup_keys_ofList _) hmem
    refine List.mem_filter.mpr ⟨List.mem_map.mpr ⟨found, PipelineResult.mem_listed.mpr hitem, ?_⟩, ?_⟩
    · exact if_pos hwinner
    · simp

/-- **Reported and persisted outcomes agree exactly when** the outcome of the item does: for every
winning item of every batch of results, the state it is regrouped under is the state of its write if
and only if `OutcomeAgrees`. -/
theorem reported_agrees_iff {db : Db} (hreach : Reachable cfg I.toServices db)
    {repository : Option Db} {cache : Cache} {sources : List SimplifySource}
    {deduplicator : Option Cache} {persisted : Persisted}
    (h : persistResults cfg I db (processAll I repository cache sources).1 deduplicator =
      .ok persisted) :
    List.Forall₂ (fun item result =>
      (∃ group ∈ persisted.results, reportedItem I db item ∈
        group.categorized (reportedItem I db item).state) ∧
      ((reportedItem I db item).state = result.state ↔ OutcomeAgrees I.toServices db item))
      (winners (processAll I repository cache sources).1) persisted.postings := by
  have hwf := hreach.wf
  set results := (processAll I repository cache sources).1 with hresults
  obtain ⟨hbulk, hregrouped⟩ := persistResults_ok h
  rw [hregrouped]
  have hall := (bulk_ok hwf hbulk).delivered
  rw [List.forall₂_map_left_iff] at hall
  refine Table.forall₂_imp_mem hall fun item hmem result hdel => ?_
  refine ⟨mem_regrouped hmem, ?_⟩
  obtain ⟨ids, rows, -, -, -, hdel, -⟩ := hdel
  obtain ⟨group, hgroup, hitem⟩ := mem_winners hmem
  obtain ⟨source, -, -, hclassified⟩ := processed_items hgroup hitem
  exact item_agrees_iff hwf (fun b hb => hreach.lifecycle hb) hclassified.not_reposted hdel

/-! ## A closed row that moves -/

/-- The first commit lists a closed row in Remote. -/
def closedCommit : SimplifySource :=
  sampleCommit "c0ffee" [sampleTableRow "https://jobs.lever.co/acme/1" "Remote" true]

/-- The second one moves it to Berlin. -/
def movedCommit : SimplifySource :=
  sampleCommit "decade" [sampleTableRow "https://jobs.lever.co/acme/1" "Berlin" true]

/-- The tables and the cache after the first commit. -/
def closedListing : Db :=
  ingestAll sampleConfig .ascii .empty [.simplify (some .empty) (fun _ => none) [closedCommit]]

def closedCache : Cache := (processAll .ascii (some .empty) (fun _ => none) [closedCommit]).2

/-- The moved row is regrouped as `ROLE_CLOSED`, while its write is a `ROLE_UPDATED`. -/
theorem moved_row_misreported : ∃ persisted,
    Reachable sampleConfig Ingestion.ascii.toServices closedListing ∧
    persistResults sampleConfig .ascii closedListing
      (processAll .ascii (some closedListing) closedCache [movedCommit]).1 none =
        .ok persisted ∧
    ¬ List.Forall₂ (fun item result => (reportedItem .ascii closedListing item).state =
        result.state)
      (winners (processAll .ascii (some closedListing) closedCache [movedCommit]).1)
      persisted.postings := by
  have hrun : (persistResults sampleConfig .ascii closedListing
      (processAll .ascii (some closedListing) closedCache [movedCommit]).1
        none).toOption.any (fun persisted => persisted.postings.map (·.state) = [.roleUpdated]) =
      true := by decide +kernel
  have hreported : (winners (processAll .ascii (some closedListing) closedCache
      [movedCommit]).1).map (fun item => (reportedItem .ascii closedListing item).state) =
      [.roleClosed] := by decide +kernel
  cases hpersist : persistResults sampleConfig .ascii closedListing
      (processAll .ascii (some closedListing) closedCache [movedCommit]).1 none with
  | error e =>
    rw [hpersist] at hrun
    cases hrun
  | ok persisted =>
    rw [hpersist] at hrun
    simp only [Except.toOption, Option.any_some, decide_eq_true_eq] at hrun
    refine ⟨persisted, ingestAll_reachable .., rfl, fun hall => ?_⟩
    have hsame := Table.forall₂_map_eq (g := (·.state))
      (f := fun item => (reportedItem .ascii closedListing item).state)
      (hall.imp fun _ _ h => h.symm)
    rw [hrun, hreported] at hsame
    cases hsame

/-- The closed row is listed again: there is one winner, and its outcome agrees exactly when
`OutcomeAgrees`. -/
theorem closed_row_listed_again : ∃ persisted,
    persistResults sampleConfig .ascii closedListing
      (processAll .ascii (some closedListing) closedCache [closedCommit]).1 none =
        .ok persisted ∧
    List.Forall₂ (fun item result =>
      (∃ group ∈ persisted.results, reportedItem .ascii closedListing item ∈
        group.categorized (reportedItem .ascii closedListing item).state) ∧
      ((reportedItem .ascii closedListing item).state = result.state ↔
        OutcomeAgrees Ingestion.ascii.toServices closedListing item))
      (winners (processAll .ascii (some closedListing) closedCache [closedCommit]).1)
      persisted.postings := by
  have hok : (persistResults sampleConfig .ascii closedListing
      (processAll .ascii (some closedListing) closedCache [closedCommit]).1
        none).toOption.isSome = true := by decide +kernel
  cases hpersist : persistResults sampleConfig .ascii closedListing
      (processAll .ascii (some closedListing) closedCache [closedCommit]).1 none with
  | error e =>
    rw [hpersist] at hok
    cases hok
  | ok persisted =>
    exact ⟨persisted, rfl, reported_agrees_iff (ingestAll_reachable ..) hpersist⟩

end JobPing
