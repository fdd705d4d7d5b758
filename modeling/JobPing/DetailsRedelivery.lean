import JobPing.JobDetails

/-!
# Details of an observation that comes again

Merging an observation a second time changes nothing where the first merge took one of the two facts;
where it recorded a dispute between two sources, the second merge adds the evidence of the
observation again (`mergeDetails_twice`).
-/

namespace JobPing

variable {before fact merged : PolicyFact} {pay incoming : List CompensationRange}

/-- The fact contradicts a stored one of equal rank that other sources state. -/
def Disputes (before fact : PolicyFact) : Prop :=
  fact.rank = before.rank ∧
    ¬(newestObservation fact.evidence).getD 0 < (newestObservation before.evidence).getD 0 ∧
    sameSources before.evidence fact.evidence = false ∧ before.value ≠ fact.value

/-! ## Merging a fact again -/

theorem sameSources_self (evidence : List Evidence) : sameSources evidence evidence = true := by
  rw [sameSources, Bool.and_eq_true, List.all_eq_true]
  have hself : ∀ x ∈ evidence, (evidence.any fun y => x.source = y.source) = true := fun x hx =>
    List.any_eq_true.mpr ⟨x, hx, decide_eq_true rfl⟩
  refine ⟨hself, List.all_eq_true.mpr fun y hy => ?_⟩
  exact List.any_eq_true.mpr ⟨y, hy, decide_eq_true rfl⟩

theorem evidence_ne_nil_of_rank (h : fact.evidence ≠ []) (hrank : fact.rank = before.rank) :
    before.evidence ≠ [] := by
  intro hnil
  have hzero : before.rank = 0 := evidenceRank_eq_zero.mpr hnil
  exact h (evidenceRank_eq_zero.mp (hrank.trans hzero))

/-- The branch for facts of equal rank. -/
theorem mergeEqualRank_eq (h : fact.evidence ≠ []) (hbefore : before.evidence ≠ []) :
    mergeEqualRank before fact = some
      (if (newestObservation fact.evidence).getD 0 < (newestObservation before.evidence).getD 0
        then before
      else if sameSources before.evidence fact.evidence || before.value = fact.value then fact
      else before.conflict fact h) := by
  obtain ⟨newest, hnewest⟩ := newestObservation_isSome h
  obtain ⟨oldest, holdest⟩ := newestObservation_isSome hbefore
  simp [mergeEqualRank, h, hnewest, holdest]

/-- **What becomes of a stored fact**: it is replaced, it stays, or the dispute is recorded. -/
theorem mergeFact_cases (h : fact.evidence ≠ []) (before : PolicyFact) :
    mergeFact (some before) fact = some fact ∨
      (mergeFact (some before) fact = some before ∧ ¬Disputes before fact) ∨
      (mergeFact (some before) fact = some (before.conflict fact h) ∧ Disputes before fact) := by
  by_cases hlt : before.rank < fact.rank
  · exact .inl (by simp only [mergeFact, if_pos hlt])
  by_cases heq : fact.rank = before.rank
  · have hne := evidence_ne_nil_of_rank h heq
    simp only [mergeFact, if_neg hlt, if_pos heq, mergeEqualRank_eq h hne]
    by_cases hold : (newestObservation fact.evidence).getD 0 <
        (newestObservation before.evidence).getD 0
    · rw [if_pos hold]
      exact .inr (.inl ⟨rfl, fun hdisputes => hdisputes.2.1 hold⟩)
    · rw [if_neg hold]
      split_ifs with hsame
      · exact .inl rfl
      · obtain ⟨hsources, hvalue⟩ := Bool.or_eq_false_iff.mp (Bool.eq_false_iff.mpr hsame)
        exact .inr (.inr ⟨rfl, heq, hold, hsources, of_decide_eq_false hvalue⟩)
  · refine .inr (.inl ⟨?_, fun hdisputes => heq hdisputes.1⟩)
    simp only [mergeFact, if_neg hlt, if_neg heq]

theorem mergeFact_of_disputes (h : fact.evidence ≠ []) (hdisputes : Disputes before fact) :
    mergeFact (some before) fact = some (before.conflict fact h) := by
  obtain ⟨hrank, hold, hsources, hvalue⟩ := hdisputes
  have hne := evidence_ne_nil_of_rank h hrank
  have hlt : ¬before.rank < fact.rank := by omega
  simp only [mergeFact, if_neg hlt, if_pos hrank, mergeEqualRank_eq h hne, if_neg hold,
    hsources, Bool.false_or, decide_eq_true_eq, if_neg hvalue]

/-- A fact merged into itself. -/
theorem mergeFact_self (h : fact.evidence ≠ []) : mergeFact (some fact) fact = some fact := by
  simp only [mergeFact, if_neg (lt_irrefl _), if_true, mergeEqualRank_eq h h,
    sameSources_self, Bool.true_or]

/-! ## Merging into a dispute -/

theorem conflict_evidence (h : fact.evidence ≠ []) :
    (before.conflict fact h).evidence =
      before.evidence.drop (before.evidence.length + fact.evidence.length - 10) ++ fact.evidence := by
  have hbound := fact.bounded
  simp only [PolicyFact.conflict, List.length_append, List.drop_append]
  have hzero : before.evidence.length + fact.evidence.length - 10 - before.evidence.length = 0 := by
    omega
  rw [hzero, List.drop_zero]

theorem evidenceRank_append (a b : List Evidence) :
    evidenceRank (a ++ b) = max (evidenceRank a) (evidenceRank b) := by
  induction a with
  | nil => simp [evidenceRank]
  | cons e es ih =>
    simp only [evidenceRank, List.cons_append, List.map_cons, List.foldr_cons] at ih ⊢
    rw [ih, max_assoc]

theorem evidenceRank_drop_le (n : ℕ) (evidence : List Evidence) :
    evidenceRank (evidence.drop n) ≤ evidenceRank evidence := by
  conv_rhs => rw [← List.take_append_drop n evidence, evidenceRank_append]
  exact le_max_right _ _

theorem le_newest {evidence : List Evidence} {e : Evidence} (h : e ∈ evidence) :
    e.observedAt ≤ (newestObservation evidence).getD 0 := by
  obtain ⟨t, ht⟩ := newestObservation_isSome (List.ne_nil_of_mem h)
  rw [ht]
  exact (List.max?_eq_some_iff.mp ht).2 _ (List.mem_map_of_mem h)

theorem newest_mem {evidence : List Evidence} (h : evidence ≠ []) :
    ∃ e ∈ evidence, e.observedAt = (newestObservation evidence).getD 0 := by
  obtain ⟨t, ht⟩ := newestObservation_isSome h
  obtain ⟨e, he, heq⟩ := List.mem_map.mp (List.max?_eq_some_iff.mp ht).1
  exact ⟨e, he, by rw [ht, heq]; rfl⟩

/-- A recorded dispute has the rank of both facts. -/
theorem conflict_rank (h : fact.evidence ≠ []) (hrank : fact.rank = before.rank) :
    (before.conflict fact h).rank = fact.rank := by
  rw [PolicyFact.rank, conflict_evidence, evidenceRank_append]
  exact max_eq_right ((evidenceRank_drop_le _ _).trans (le_of_eq hrank.symm))

/-- A recorded dispute is as new as the fact that made it one. -/
theorem conflict_newest (h : fact.evidence ≠ [])
    (hold : ¬(newestObservation fact.evidence).getD 0 <
      (newestObservation before.evidence).getD 0) :
    (newestObservation (before.conflict fact h).evidence).getD 0 ≤
      (newestObservation fact.evidence).getD 0 := by
  have hne : (before.conflict fact h).evidence ≠ [] := by
    rw [conflict_evidence]
    exact List.append_ne_nil_of_right_ne_nil _ h
  obtain ⟨e, he, heq⟩ := newest_mem hne
  rw [← heq]
  rw [conflict_evidence] at he
  rcases List.mem_append.mp he with he | he
  · exact (le_newest (List.mem_of_mem_drop he)).trans (not_lt.mp hold)
  · exact le_newest he

/-- A list that dropping some elements and adding them again leaves as it is has no others. -/
theorem mem_of_shift {α : Type*} {l f : List α} (hpos : 0 < f.length)
    (h : l = l.drop f.length ++ f) : ∀ e ∈ l, e ∈ f := by
  -- downwards along the positions: each element is one further right, or one of those added
  have hdown : ∀ m i, l.length - i = m → ∀ hi : i < l.length, l[i] ∈ f := by
    intro m
    induction m using Nat.strong_induction_on with
    | _ m ih =>
      intro i hm hi
      by_cases hshift : i + f.length < l.length
      · have hget : l[i] = l[i + f.length] := by
          conv_lhs => rw [List.getElem_of_eq h]
          rw [List.getElem_append_left (by rw [List.length_drop]; omega), List.getElem_drop]
          simp only [Nat.add_comm]
        rw [hget]
        exact ih (l.length - (i + f.length)) (by omega) _ rfl hshift
      · have hlength := congrArg List.length h
        rw [List.length_append, List.length_drop] at hlength
        have hbound : i - (l.length - f.length) < f.length := by omega
        have hget : l[i] = f[i - (l.length - f.length)] := by
          conv_lhs => rw [List.getElem_of_eq h]
          rw [List.getElem_append_right (by rw [List.length_drop]; omega)]
          simp only [List.length_drop]
        rw [hget]
        exact List.getElem_mem _
  intro e he
  obtain ⟨i, hi, rfl⟩ := List.mem_iff_getElem.mp he
  exact hdown _ i rfl hi

/-- Merging into a recorded dispute. -/
theorem mergeFact_conflict_eq (h : fact.evidence ≠ []) (hdisputes : Disputes before fact) :
    mergeFact (some (before.conflict fact h)) fact = some
      (if sameSources (before.conflict fact h).evidence fact.evidence ||
          (before.conflict fact h).value = fact.value then fact
      else (before.conflict fact h).conflict fact h) := by
  obtain ⟨hrank, hold, -, -⟩ := hdisputes
  have heq := (conflict_rank h hrank).symm
  have hlt : ¬(before.conflict fact h).rank < fact.rank := by omega
  simp only [mergeFact, if_neg hlt, if_pos heq,
    mergeEqualRank_eq h (evidence_ne_nil_of_rank h heq),
    if_neg (not_lt.mpr (conflict_newest h hold))]

/-- The dispute is the fact itself where the evidence of the fact leaves no room. -/
theorem conflict_eq_fact (h : fact.evidence ≠ []) (hbefore : before.evidence ≠ []) :
    before.conflict fact h = fact ↔ fact.value = .conflicting ∧ fact.evidence.length = 10 := by
  have hbound := fact.bounded
  have hpos := List.length_pos_iff.mpr hbefore
  have hevidence : (before.conflict fact h).evidence = _ := conflict_evidence h
  constructor
  · intro heq
    have hlength := congrArg List.length hevidence
    rw [heq, List.length_append, List.length_drop] at hlength
    exact ⟨by rw [← heq]; rfl, by omega⟩
  · rintro ⟨hvalue, hten⟩
    have hsame : (before.conflict fact h).evidence = fact.evidence := by
      rw [hevidence, hten]
      simp
    have hvalues : (before.conflict fact h).value = fact.value := hvalue.symm
    cases hc : before.conflict fact h
    cases fact
    rw [hc] at hsame hvalues
    simp only at hsame hvalues
    subst hsame hvalues
    rfl

/-- A dispute is never recorded without a change. -/
theorem conflict_ne (h : fact.evidence ≠ [])
    (hsources : sameSources before.evidence fact.evidence = false) :
    before.conflict fact h ≠ before := by
  intro heq
  have hpos := List.length_pos_iff.mpr h
  have hten := before.bounded
  have hsame := congrArg PolicyFact.evidence heq
  rw [conflict_evidence] at hsame
  have hlength := congrArg List.length hsame
  rw [List.length_append, List.length_drop] at hlength
  have hdrop : before.evidence.length + fact.evidence.length - 10 = fact.evidence.length := by omega
  rw [hdrop] at hsame
  -- the evidence would be that of the fact over and over
  have hall := mem_of_shift hpos hsame.symm
  refine absurd ?_ (Bool.eq_false_iff.mp hsources)
  rw [sameSources, Bool.and_eq_true, List.all_eq_true, List.all_eq_true]
  refine ⟨fun x hx => ?_, fun y hy => ?_⟩
  · exact List.any_eq_true.mpr ⟨x, hall x hx, decide_eq_true rfl⟩
  · refine List.any_eq_true.mpr ⟨y, ?_, decide_eq_true rfl⟩
    rw [← hsame]
    exact List.mem_append_right _ hy

/-- **A dispute is recorded once more** on every delivery, unless the fact is a conflict itself and
its evidence leaves no room. -/
theorem mergeFact_conflict (h : fact.evidence ≠ []) (hdisputes : Disputes before fact) :
    mergeFact (some (before.conflict fact h)) fact = some (before.conflict fact h) ↔
      fact.value = .conflicting ∧ fact.evidence.length = 10 := by
  have hfact := conflict_eq_fact h (evidence_ne_nil_of_rank h hdisputes.1)
  rw [mergeFact_conflict_eq h hdisputes, Option.some.injEq, ← hfact]
  split_ifs with hif
  · exact eq_comm
  · obtain ⟨hsources, -⟩ := Bool.or_eq_false_iff.mp (Bool.eq_false_iff.mpr hif)
    refine iff_of_false (conflict_ne h hsources) fun heq => ?_
    rw [heq, sameSources_self] at hsources
    cases hsources

/-! ## Merging details again -/

/-- A fact that may be merged into what is stored for its key and again into the result. -/
def Repeatable (stored : Option PolicyFact) (fact : PolicyFact) : Prop :=
  (fact.evidence = [] → ∃ before, stored = some before ∧ before.evidence ≠ []) ∧
    ∀ before, stored = some before → Disputes before fact →
      fact.value = .conflicting ∧ fact.evidence.length = 10

/-- **A fact comes again** and changes nothing. -/
theorem mergeFact_again (stored : Option PolicyFact) (fact : PolicyFact) :
    (∃ merged, mergeFact stored fact = some merged ∧ mergeFact (some merged) fact = some merged) ↔
      Repeatable stored fact := by
  by_cases hnil : fact.evidence = []
  · -- a fact without evidence gives way to one that has some, and fails on any other
    have hzero : fact.rank = 0 := evidenceRank_eq_zero.mpr hnil
    have hnot : ∀ before, ¬(before.evidence ≠ [] ∧ Disputes before fact) := by
      rintro before ⟨hne, hrank, -⟩
      exact hne (evidenceRank_eq_zero.mp (hrank.symm.trans hzero))
    have hkeeps : ∀ before : PolicyFact, before.evidence ≠ [] →
        mergeFact (some before) fact = some before := fun before hne => by
      have hpos : before.rank ≠ 0 := mt evidenceRank_eq_zero.mp hne
      simp only [mergeFact, hzero, Nat.not_lt_zero, if_false, if_neg hpos.symm]
    constructor
    · rintro ⟨merged, hmerged, hagain⟩
      have hstored : ∃ before, stored = some before ∧ before.evidence ≠ [] := by
        rcases stored with _ | before
        · obtain rfl := Option.some.inj hmerged
          exact absurd (mergeFact_eq_none_iff.mpr ⟨hnil, fact, rfl, hnil⟩) (by rw [hagain]; simp)
        · refine ⟨before, rfl, fun hbefore => ?_⟩
          rw [mergeFact_eq_none_iff.mpr ⟨hnil, before, rfl, hbefore⟩] at hmerged
          cases hmerged
      obtain ⟨before, rfl, hne⟩ := hstored
      refine ⟨fun _ => ⟨before, rfl, hne⟩, fun other hother hdisputes => ?_⟩
      obtain rfl := Option.some.inj hother
      exact absurd ⟨hne, hdisputes⟩ (hnot before)
    · rintro ⟨hstored, -⟩
      obtain ⟨before, rfl, hne⟩ := hstored hnil
      exact ⟨before, hkeeps before hne, hkeeps before hne⟩
  · rcases stored with _ | before
    · refine iff_of_true ⟨fact, rfl, mergeFact_self hnil⟩ ⟨fun h => absurd h hnil, ?_⟩
      exact fun before hbefore => by cases hbefore
    have hrepeatable : Repeatable (some before) fact ↔
        (Disputes before fact → fact.value = .conflicting ∧ fact.evidence.length = 10) := by
      constructor
      · exact fun h hdisputes => h.2 before rfl hdisputes
      · refine fun h => ⟨fun hnil' => absurd hnil' hnil, fun other hother hdisputes => ?_⟩
        obtain rfl := Option.some.inj hother
        exact h hdisputes
    rw [hrepeatable]
    by_cases hdisputes : Disputes before fact
    · rw [mergeFact_of_disputes hnil hdisputes]
      simp only [Option.some.injEq, exists_eq_left', mergeFact_conflict hnil hdisputes,
        hdisputes, true_imp_iff]
    · refine iff_of_true ?_ fun h => absurd h hdisputes
      rcases mergeFact_cases hnil before with hsome | ⟨hsome, -⟩ | ⟨-, h⟩
      · exact ⟨fact, hsome, mergeFact_self hnil⟩
      · exact ⟨before, hsome, hsome⟩
      · exact absurd h hdisputes

theorem mergeCompensation_again (pay incoming : List CompensationRange) :
    mergeCompensation (mergeCompensation pay incoming) incoming =
      mergeCompensation pay incoming := by
  simp only [mergeCompensation]
  split_ifs
  · rfl
  · rfl
  · rfl

/-- The policies that a merge of details leaves for a key. -/
theorem mergeFact_of_mergeDetails {previous observation merged : Option JobDetails}
    (h : mergeDetails previous observation = some merged) {key : PolicyKind}
    (hkey : statedPolicy observation key = some fact) :
    ∃ after, mergeFact (statedPolicy previous key) fact = some after ∧
      statedPolicy merged key = some after := by
  have hmerge := statedPolicy_merge h key
  rw [hkey] at hmerge
  cases hafter : mergeFact (statedPolicy previous key) fact with
  | none =>
    obtain ⟨hnil, before, hbefore, hbefore_nil⟩ := mergeFact_eq_none_iff.mp hafter
    have hnone := mergeDetails_eq_none_iff.mpr ⟨key, fact, before, hkey, hnil, hbefore, hbefore_nil⟩
    rw [h] at hnone
    cases hnone
  | some after => exact ⟨after, rfl, hmerge.trans hafter⟩

/-- What a merge of details stores. -/
theorem mergeDetails_some {previous : Option JobDetails} {incoming : JobDetails}
    {merged : Option JobDetails} (h : mergeDetails previous (some incoming) = some merged) :
    ∃ details : JobDetails, merged = some details ∧ details.compensation =
      mergeCompensation (previous.getD .empty).compensation incoming.compensation := by
  simp only [mergeDetails] at h
  split_ifs at h
  exact ⟨_, (Option.some.inj h).symm, rfl⟩

/-- Details are what they were after a merge where every policy and the compensation are. -/
theorem mergeDetails_eq_self {merged : JobDetails} {incoming : JobDetails} :
    mergeDetails (some merged) (some incoming) = some (some merged) ↔
      (∀ key fact, incoming.policies key = some fact →
        mergeFact (merged.policies key) fact = merged.policies key) ∧
      mergeCompensation merged.compensation incoming.compensation = merged.compensation := by
  have hpolicies : mergePolicies merged.policies incoming.policies = merged.policies ↔
      ∀ key fact, incoming.policies key = some fact →
        mergeFact (merged.policies key) fact = merged.policies key := by
    rw [funext_iff]
    refine forall_congr' fun key => ?_
    cases hkey : incoming.policies key with
    | none => simp [mergePolicies, hkey]
    | some fact => simp [mergePolicies, hkey]
  rw [← hpolicies]
  constructor
  · intro h
    simp only [mergeDetails, Option.getD_some] at h
    split_ifs at h
    have heq := Option.some.inj (Option.some.inj h)
    exact ⟨congrArg JobDetails.policies heq, congrArg JobDetails.compensation heq⟩
  · rintro ⟨hsame, hpay⟩
    have hraises : ¬mergeRaises merged.policies incoming.policies := by
      rintro ⟨key, fact, hkey, hnone⟩
      have hself := hpolicies.mp hsame key fact hkey
      obtain ⟨-, stored, hstored, -⟩ := mergeFact_eq_none_iff.mp hnone
      rw [hnone, hstored] at hself
      cases hself
    simp only [mergeDetails, Option.getD_some, if_neg hraises, Option.some.injEq]
    rw [JobDetails.mk.injEq]
    exact ⟨hsame, hpay⟩

/-- **A second delivery** that states policies for the same keys changes nothing exactly where it
changes none of the policies, nor the compensation, that the first one left. -/
theorem mergeDetails_then {previous : Option JobDetails} {first second : JobDetails}
    (hkeys : ∀ key, (second.policies key).isSome = (first.policies key).isSome) :
    (∃ merged, mergeDetails previous (some first) = some merged ∧
      mergeDetails merged (some second) = some merged) ↔
    (∀ key fact fact', first.policies key = some fact → second.policies key = some fact' →
      ∃ merged, mergeFact (statedPolicy previous key) fact = some merged ∧
        mergeFact (some merged) fact' = some merged) ∧
    mergeCompensation (mergeCompensation (previous.getD .empty).compensation first.compensation)
        second.compensation =
      mergeCompensation (previous.getD .empty).compensation first.compensation := by
  constructor
  · rintro ⟨merged, hmerged, hagain⟩
    obtain ⟨details, rfl, hcompensation⟩ := mergeDetails_some hmerged
    obtain ⟨hpolicies, hpay⟩ := mergeDetails_eq_self.mp hagain
    refine ⟨fun key fact fact' hkey hkey' => ?_, hcompensation ▸ hpay⟩
    obtain ⟨after, hafter, hstated⟩ := mergeFact_of_mergeDetails hmerged hkey
    refine ⟨after, hafter, ?_⟩
    rw [← hstated]
    exact hpolicies key fact' hkey'
  · rintro ⟨hfacts, hpay⟩
    have hboth : ∀ key fact, first.policies key = some fact →
        ∃ fact', second.policies key = some fact' := fun key fact hkey =>
      Option.isSome_iff_exists.mp (by rw [hkeys, hkey]; rfl)
    cases hmerged : mergeDetails previous (some first) with
    | none =>
      obtain ⟨key, fact, before, hkey, hnil, hbefore, hbefore_nil⟩ :=
        mergeDetails_eq_none_iff.mp hmerged
      obtain ⟨fact', hkey'⟩ := hboth key fact hkey
      obtain ⟨after, hafter, -⟩ := hfacts key fact fact' hkey hkey'
      rw [mergeFact_eq_none_iff.mpr ⟨hnil, before, hbefore, hbefore_nil⟩] at hafter
      cases hafter
    | some merged =>
      obtain ⟨details, rfl, hcompensation⟩ := mergeDetails_some hmerged
      refine ⟨_, rfl, mergeDetails_eq_self.mpr ⟨fun key fact' hkey' => ?_, hcompensation ▸ hpay⟩⟩
      obtain ⟨fact, hkey⟩ := Option.isSome_iff_exists.mp
        (show (first.policies key).isSome by rw [← hkeys, hkey']; rfl)
      obtain ⟨after, hafter, hself⟩ := hfacts key fact fact' hkey hkey'
      obtain ⟨after', hsome, hstated⟩ := mergeFact_of_mergeDetails hmerged hkey
      obtain rfl := Option.some.inj (hafter.symm.trans hsome)
      rw [show details.policies key = some after from hstated, hself]

/-- **Delivering an observation again** changes nothing exactly where every policy it states may be
repeated: none is a dispute with a stored one. -/
theorem mergeDetails_twice (previous observation : Option JobDetails) :
    (∃ merged, mergeDetails previous observation = some merged ∧
      mergeDetails merged observation = some merged) ↔
    ∀ key fact, statedPolicy observation key = some fact →
      Repeatable (statedPolicy previous key) fact := by
  rcases observation with _ | observation
  · exact iff_of_true ⟨previous, rfl, rfl⟩ fun key fact hkey => by cases hkey
  rw [mergeDetails_then fun _ => rfl, and_iff_left (mergeCompensation_again _ _)]
  refine forall_congr' fun key => forall_congr' fun fact => ?_
  constructor
  · intro h hkey
    exact (mergeFact_again _ _).mp (h fact hkey hkey)
  · intro h fact' hkey hkey'
    obtain rfl := Option.some.inj (hkey.symm.trans hkey')
    exact (mergeFact_again _ _).mpr (h hkey)

/-! ## Runs -/

/-- The details after some observations, from none. -/
def observed (observations : List (Option JobDetails)) : Option (Option JobDetails) :=
  observations.foldlM mergeDetails none

/-- Every observation may be repeated where it arrives. -/
def RepeatableRun (details : Option JobDetails) : List (Option JobDetails) → Prop
  | [] => True
  | observation :: rest =>
    (∀ key fact, statedPolicy observation key = some fact →
      Repeatable (statedPolicy details key) fact) ∧
    ∀ merged, mergeDetails details observation = some merged → RepeatableRun merged rest

theorem foldlM_repeated {details : Option JobDetails} {observations : List (Option JobDetails)}
    (h : RepeatableRun details observations) :
    (observations.flatMap fun o => [o, o]).foldlM mergeDetails details =
      observations.foldlM mergeDetails details := by
  induction observations generalizing details with
  | nil => rfl
  | cons observation rest ih =>
    obtain ⟨hrepeatable, hrest⟩ := h
    obtain ⟨merged, hmerged, hagain⟩ := (mergeDetails_twice details observation).mpr hrepeatable
    rw [List.flatMap_cons, List.foldlM_append, List.foldlM_cons, hmerged]
    simp only [List.foldlM_cons, List.foldlM_nil, bind, Option.bind, hmerged, hagain, pure]
    exact ih (hrest merged hmerged)

/-! ## Sample details -/

/-- The details of a source that states one policy on OPT. -/
def optDetails (source : Str) (value : PolicyValue) (observedAt : Time) : JobDetails where
  policies key := if key = .opt then some {
      value := value
      evidence := [⟨source, "https://example.com/jobs/1".toList, "We accept OPT.".toList, observedAt⟩]
      bounded := Nat.le_add_left 1 9
      supported_value := fun _ => List.cons_ne_nil _ _ }
    else none
  compensation := []
  bounded := no_compensation_bounded

theorem optDetails_policy {source : Str} {value : PolicyValue} {observedAt : Time}
    {key : PolicyKind} (h : statedPolicy (some (optDetails source value observedAt)) key = some fact) :
    fact.evidence ≠ [] := by
  simp only [statedPolicy, Option.bind_some, optDetails] at h
  split_ifs at h
  obtain rfl := Option.some.inj h
  exact List.cons_ne_nil _ _

end JobPing
