import JobPing.Agreement
import JobPing.DetailsRedelivery
import JobPing.Dict

/-!
# Policies and the latest statements of their sources

What a policy should be, given everything its sources have said: what the latest statements of the
best ranked sources agree on (`latestValue`). `merge_details` stores one fact and some of its
evidence, not the statements. Its policy is the expected one after every observation of a run exactly
where no step has forgotten or kept a disagreement it should not (`latest_statements`).
-/

namespace JobPing

open Agreement

/-! ## Statements -/

/-- The details that one source gives at one time. -/
structure SourceDetails where
  source : Str
  observedAt : Time
  details : JobDetails
  sourced : ∀ key fact, details.policies key = some fact → fact.evidence ≠ [] ∧
    ∀ e ∈ fact.evidence, e.source = source ∧ e.observedAt = observedAt

/-- The statements of a run on a policy. -/
def statementsOn (key : PolicyKind) (run : List SourceDetails) : List (Str × PolicyValue) :=
  run.filterMap fun o => (o.details.policies key).map fun fact => (o.source, fact.value)

/-- The best rank of the sources. -/
def topRank (stated : List (Str × PolicyValue)) : ℕ :=
  (stated.map fun s => sourceRank s.1).foldr max 0

/-- The latest statement of every source of the best rank. -/
def latestStated (stated : List (Str × PolicyValue)) : List (Str × PolicyValue) :=
  Dict.ofList (stated.filter fun s => sourceRank s.1 = topRank stated)

/-- What the latest statements agree on. -/
def latestValue (stated : List (Str × PolicyValue)) : Option PolicyValue :=
  agreed .conflicting ((latestStated stated).map (·.2))

variable {stated : List (Str × PolicyValue)} {source : Str} {value : PolicyValue}

theorem topRank_concat (stated : List (Str × PolicyValue)) (source : Str) (value : PolicyValue) :
    topRank (stated ++ [(source, value)]) = max (topRank stated) (sourceRank source) := by
  induction stated with
  | nil => simp [topRank]
  | cons s rest ih =>
    simp only [topRank, List.cons_append, List.map_cons, List.foldr_cons] at ih ⊢
    rw [ih, max_assoc]

theorem le_topRank {s : Str × PolicyValue} (h : s ∈ stated) : sourceRank s.1 ≤ topRank stated := by
  induction stated with
  | nil => cases h
  | cons head rest ih =>
    rcases List.mem_cons.mp h with rfl | h
    · exact le_max_left _ _
    · exact (ih h).trans (le_max_right _ _)

theorem nodup_latest (stated : List (Str × PolicyValue)) : (Dict.keys (latestStated stated)).Nodup :=
  Dict.nodup_keys_ofList _

/-- A statement of a lower rank is not heard. -/
theorem latest_concat_lower (h : sourceRank source < topRank stated) (value : PolicyValue) :
    latestStated (stated ++ [(source, value)]) = latestStated stated := by
  have htop : topRank (stated ++ [(source, value)]) = topRank stated := by
    rw [topRank_concat, max_eq_left h.le]
  rw [latestStated, htop, List.filter_append, List.filter_cons_of_neg (by simpa using h.ne),
    List.filter_nil, List.append_nil, latestStated]

/-- A statement of a higher rank is the only one. -/
theorem latest_concat_higher (h : topRank stated < sourceRank source) (value : PolicyValue) :
    latestStated (stated ++ [(source, value)]) = [(source, value)] := by
  have htop : topRank (stated ++ [(source, value)]) = sourceRank source := by
    rw [topRank_concat, max_eq_right h.le]
  have hnone : (stated.filter fun s => sourceRank s.1 = sourceRank source) = [] := by
    refine List.filter_eq_nil_iff.mpr fun s hs => ?_
    have hle := le_topRank hs
    simp only [decide_eq_true_eq]
    omega
  rw [latestStated, htop, List.filter_append, hnone, List.filter_cons_of_pos (by simp)]
  rfl

/-- A statement of the same rank replaces that of its source. -/
theorem latest_concat_equal (h : sourceRank source = topRank stated) (value : PolicyValue) :
    latestStated (stated ++ [(source, value)]) = Dict.set source value (latestStated stated) := by
  have htop : topRank (stated ++ [(source, value)]) = topRank stated := by
    rw [topRank_concat, max_eq_left h.le]
  rw [latestStated, htop, List.filter_append, List.filter_cons_of_pos (by simpa using h), List.filter_nil,
    Dict.ofList_concat, latestStated]

/-- The other sources of the best rank now say the same. -/
def OthersSay (stated : List (Str × PolicyValue)) (source : Str) (value : PolicyValue) : Prop :=
  ∀ s ∈ latestStated stated, s.1 ≠ source → s.2 = value

theorem mem_latest_concat (h : sourceRank source = topRank stated) {s : Str × PolicyValue} :
    s ∈ latestStated (stated ++ [(source, value)]) ↔
      s = (source, value) ∨ s ∈ latestStated stated ∧ s.1 ≠ source := by
  rw [latest_concat_equal h, Dict.mem_set_iff (nodup_latest stated)]

/-- With the others saying the same, the statement is what is agreed. -/
theorem latestValue_of_others (h : sourceRank source = topRank stated)
    (hothers : OthersSay stated source value) :
    latestValue (stated ++ [(source, value)]) = some value := by
  have hmem : (source, value) ∈ latestStated (stated ++ [(source, value)]) :=
    (mem_latest_concat h).mpr (.inl rfl)
  refine agreed_eq_some (List.ne_nil_of_mem (List.mem_map_of_mem hmem)) fun v hv => ?_
  obtain ⟨s, hs, rfl⟩ := List.mem_map.mp hv
  rcases (mem_latest_concat h).mp hs with rfl | ⟨hs, hne⟩
  · rfl
  · exact hothers s hs hne

/-- With another source saying something else, there is a conflict. -/
theorem latestValue_of_not_others (h : sourceRank source = topRank stated)
    (hothers : ¬OthersSay stated source value) :
    latestValue (stated ++ [(source, value)]) = some .conflicting := by
  simp only [OthersSay, not_forall] at hothers
  obtain ⟨s, hs, hne, hvalue⟩ := hothers
  have hmem : (source, value) ∈ latestStated (stated ++ [(source, value)]) :=
    (mem_latest_concat h).mpr (.inl rfl)
  have hother : s ∈ latestStated (stated ++ [(source, value)]) :=
    (mem_latest_concat h).mpr (.inr ⟨hs, hne⟩)
  exact agreed_eq_conflict (List.mem_map_of_mem hother) (List.mem_map_of_mem hmem) hvalue

/-- A statement that is a conflict, or repeats what was agreed, is what is agreed. -/
theorem latestValue_of_same (h : sourceRank source = topRank stated)
    (hsame : latestValue stated = some value ∨ value = .conflicting) :
    latestValue (stated ++ [(source, value)]) = some value := by
  by_cases hconflict : value = .conflicting
  · subst hconflict
    refine agreed_of_conflict_mem (List.mem_map.mpr ⟨(source, .conflicting), ?_, rfl⟩)
    exact (mem_latest_concat h).mpr (.inl rfl)
  · have hagreed := hsame.resolve_right hconflict
    refine latestValue_of_others h fun s hs _ => ?_
    exact eq_of_agreed hagreed hconflict (List.mem_map_of_mem hs)

/-! ## The stored policy -/

variable {key : PolicyKind} {run : List SourceDetails} {o : SourceDetails} {before fact : PolicyFact}
  {stored : Option PolicyFact}

/-- The observations arrive in the order of their times. -/
def InOrder (run : List SourceDetails) : Prop := run.Pairwise (·.observedAt ≤ ·.observedAt)

/-- What is stored of a run: the rank of its best sources, and evidence as old as the run. -/
structure Represents (stored : Option PolicyFact) (run : List SourceDetails) (key : PolicyKind) :
    Prop where
  stated : stored = none ↔ statementsOn key run = []
  evidence : ∀ before, stored = some before → before.evidence ≠ []
  rank : ∀ before, stored = some before → before.rank = topRank (statementsOn key run)
  times : ∀ before, stored = some before → ∀ e ∈ before.evidence, ∃ o ∈ run,
    e.observedAt = o.observedAt

theorem statementsOn_concat (key : PolicyKind) (run : List SourceDetails) (o : SourceDetails) :
    statementsOn key (run ++ [o]) = statementsOn key run ++
      ((o.details.policies key).map fun fact => (o.source, fact.value)).toList := by
  rw [statementsOn, List.filterMap_append, ← statementsOn]
  cases h : o.details.policies key <;> simp [h]

theorem SourceDetails.fact_rank (o : SourceDetails) (h : o.details.policies key = some fact) :
    fact.rank = sourceRank o.source := by
  obtain ⟨hne, hall⟩ := o.sourced key fact h
  have hrank : ∀ evidence : List Evidence, evidence ≠ [] → (∀ e ∈ evidence, e.source = o.source) →
      evidenceRank evidence = sourceRank o.source := by
    intro evidence
    induction evidence with
    | nil => exact fun hnil => absurd rfl hnil
    | cons e es ih =>
      intro _ hsources
      have he := hsources e List.mem_cons_self
      by_cases hes : es = []
      · simp [evidenceRank, hes, he]
      · have hes' := ih hes fun e he => hsources e (List.mem_cons_of_mem _ he)
        simp only [evidenceRank, List.map_cons, List.foldr_cons] at hes' ⊢
        rw [hes', he, max_self]
  exact hrank _ hne fun e he => (hall e he).1

theorem SourceDetails.newest (o : SourceDetails) (h : o.details.policies key = some fact) :
    (newestObservation fact.evidence).getD 0 = o.observedAt := by
  obtain ⟨hne, hall⟩ := o.sourced key fact h
  obtain ⟨e, he, heq⟩ := newest_mem hne
  rw [← heq, (hall e he).2]

/-- The evidence that is stored is all of one source. -/
theorem sameSources_iff (h : o.details.policies key = some fact) (hbefore : before.evidence ≠ []) :
    sameSources before.evidence fact.evidence = true ↔
      ∀ e ∈ before.evidence, e.source = o.source := by
  obtain ⟨hne, hall⟩ := o.sourced key fact h
  rw [sameSources, Bool.and_eq_true, List.all_eq_true, List.all_eq_true]
  constructor
  · rintro ⟨hleft, -⟩ e he
    obtain ⟨y, hy, heq⟩ := List.any_eq_true.mp (hleft e he)
    rw [of_decide_eq_true heq, (hall y hy).1]
  · intro hsources
    refine ⟨fun x hx => ?_, fun y hy => ?_⟩
    · obtain ⟨y, hy⟩ := List.exists_mem_of_ne_nil _ hne
      exact List.any_eq_true.mpr ⟨y, hy, decide_eq_true (by rw [hsources x hx, (hall y hy).1])⟩
    · obtain ⟨x, hx⟩ := List.exists_mem_of_ne_nil _ hbefore
      exact List.any_eq_true.mpr ⟨x, hx, decide_eq_true (by rw [hsources x hx, (hall y hy).1])⟩

/-- A statement of the same rank, later than what is stored. -/
theorem mergeFact_equal (h : o.details.policies key = some fact)
    (hstored : Represents (some before) run key) (horder : InOrder (run ++ [o]))
    (hrank : fact.rank = before.rank) :
    mergeFact (some before) fact = some (if sameSources before.evidence fact.evidence ||
      before.value = fact.value then fact else before.conflict fact (o.sourced key fact h).1) := by
  have hbefore := hstored.evidence before rfl
  have hnot : ¬(newestObservation fact.evidence).getD 0 <
      (newestObservation before.evidence).getD 0 := by
    rw [o.newest h, not_lt]
    obtain ⟨e, he, heq⟩ := newest_mem hbefore
    obtain ⟨o', ho', htime⟩ := hstored.times before rfl e he
    rw [← heq, htime]
    exact (List.pairwise_append.mp horder).2.2 o' ho' o (List.mem_singleton_self o)
  have hlt : ¬before.rank < fact.rank := by omega
  simp only [mergeFact, if_neg hlt, if_pos hrank,
    mergeEqualRank_eq (o.sourced key fact h).1 hbefore, if_neg hnot]

/-- **One observation** of a run keeps the representation. -/
theorem Represents.step (hstored : Represents stored run key) (horder : InOrder (run ++ [o]))
    (h : o.details.policies key = some fact) :
    ∃ after, mergeFact stored fact = some after ∧ Represents (some after) (run ++ [o]) key := by
  obtain ⟨hne, hall⟩ := o.sourced key fact h
  have hstatements : statementsOn key (run ++ [o]) =
      statementsOn key run ++ [(o.source, fact.value)] := by
    rw [statementsOn_concat, h]
    rfl
  have htop : topRank (statementsOn key (run ++ [o])) =
      max (topRank (statementsOn key run)) fact.rank := by
    rw [hstatements, topRank_concat, o.fact_rank h]
  have hmake : ∀ after : PolicyFact, after.evidence ≠ [] →
      after.rank = topRank (statementsOn key (run ++ [o])) →
      (∀ e ∈ after.evidence, e ∈ fact.evidence ∨ ∃ before, stored = some before ∧
        e ∈ before.evidence) → Represents (some after) (run ++ [o]) key := by
    intro after hafter hrank hevidence
    refine ⟨iff_of_false (Option.some_ne_none after) fun hnil => ?_, ?_, ?_, ?_⟩
    · rw [hstatements] at hnil
      simp at hnil
    · intro other hother
      obtain rfl := Option.some.inj hother
      exact hafter
    · intro other hother
      obtain rfl := Option.some.inj hother
      exact hrank
    · intro other hother e he
      obtain rfl := Option.some.inj hother
      rcases hevidence e he with he | ⟨before, hbefore, he⟩
      · exact ⟨o, by simp, (hall e he).2⟩
      · obtain ⟨o', ho', htime⟩ := hstored.times before hbefore e he
        exact ⟨o', List.mem_append_left _ ho', htime⟩
  have hfact : fact.rank = topRank (statementsOn key (run ++ [o])) →
      Represents (some fact) (run ++ [o]) key := fun hrank =>
    hmake fact hne hrank fun e he => .inl he
  rcases stored with _ | before
  · refine ⟨fact, rfl, hfact ?_⟩
    rw [htop, hstored.stated.mp rfl]
    simp [topRank]
  have hrank := hstored.rank before rfl
  rcases lt_trichotomy before.rank fact.rank with hlt | heq | hgt
  · refine ⟨fact, by simp only [mergeFact, if_pos hlt], hfact ?_⟩
    rw [htop, ← hrank, max_eq_right hlt.le]
  · have hmerge := mergeFact_equal h hstored horder heq.symm
    have htop' : topRank (statementsOn key (run ++ [o])) = fact.rank := by
      rw [htop, ← hrank, heq, max_self]
    split_ifs at hmerge
    · exact ⟨fact, hmerge, hfact htop'.symm⟩
    · refine ⟨_, hmerge, hmake _ ?_ ?_ fun e he => ?_⟩
      · rw [conflict_evidence]
        exact List.append_ne_nil_of_right_ne_nil _ hne
      · rw [conflict_rank hne heq.symm, htop']
      · rw [conflict_evidence] at he
        rcases List.mem_append.mp he with he | he
        · exact .inr ⟨before, rfl, List.mem_of_mem_drop he⟩
        · exact .inl he
  · have hlt : ¬before.rank < fact.rank := by omega
    refine ⟨before, by simp only [mergeFact, if_neg hlt, if_neg hgt.ne], ?_⟩
    refine hmake before (hstored.evidence before rfl) ?_ fun e he => .inr ⟨before, rfl, he⟩
    rw [htop, ← hrank, max_eq_left hgt.le]

/-! ## When the policy is the expected one -/

/-- The policy is what the latest statements agree on. -/
def Reflects (stored : Option PolicyFact) (run : List SourceDetails) (key : PolicyKind) : Prop :=
  stored.map (·.value) = latestValue (statementsOn key run)

/-- A statement of the rank of the stored policy and of another value is its source's alone exactly
where no other source is left to contradict it: the evidence that is stored is all of its source, if
and only if the latest statements of the other sources have its value. -/
def HeardOut (stored : Option PolicyFact) (run : List SourceDetails) (o : SourceDetails)
    (key : PolicyKind) : Prop :=
  ∀ fact, o.details.policies key = some fact → ∀ before, stored = some before →
    fact.rank = before.rank → before.value ≠ fact.value → fact.value ≠ .conflicting →
    ((∀ e ∈ before.evidence, e.source = o.source) ↔
      OthersSay (statementsOn key run) o.source fact.value)

/-- Of a policy that was stored, a statement is heard out by its source's evidence. -/
theorem heardOut_some (h : o.details.policies key = some fact)
    (hevidence : before.evidence ≠ []) :
    HeardOut (some before) run o key ↔
      (fact.rank = before.rank → before.value ≠ fact.value → fact.value ≠ .conflicting →
        (sameSources before.evidence fact.evidence = true ↔
          OthersSay (statementsOn key run) o.source fact.value)) := by
  rw [sameSources_iff h hevidence]
  constructor
  · exact fun hheard => hheard fact h before rfl
  · intro hheard other hother stored hbefore
    obtain rfl := Option.some.inj (h.symm.trans hother)
    obtain rfl := Option.some.inj hbefore
    exact hheard

/-- A statement against the stored policy, of a source of the same rank. -/
theorem reflects_contradicted (horder : sourceRank o.source = topRank (statementsOn key run))
    (hnot : fact.value ≠ .conflicting) (hne : fact.evidence ≠ []) :
    some (if sameSources before.evidence fact.evidence then fact
        else before.conflict fact hne).value =
      latestValue (statementsOn key run ++ [(o.source, fact.value)]) ↔
      (sameSources before.evidence fact.evidence = true ↔
        OthersSay (statementsOn key run) o.source fact.value) := by
  by_cases hothers : OthersSay (statementsOn key run) o.source fact.value
  · -- all others agree: the policy is the statement if it is heard alone
    rw [latestValue_of_others horder hothers]
    split_ifs with hsources
    · exact iff_of_true rfl (iff_of_true hsources hothers)
    · refine iff_of_false (fun hconflict => hnot ?_) fun hiff => hsources (hiff.mpr hothers)
      exact (Option.some.inj hconflict).symm
  · rw [latestValue_of_not_others horder hothers]
    split_ifs with hsources
    · refine iff_of_false (fun hconflict => hnot ?_) fun hiff => hothers (hiff.mp hsources)
      exact Option.some.inj hconflict
    · exact iff_of_true rfl (iff_of_false hsources hothers)

/-- **One observation** leaves the expected policy exactly where it was heard out. -/
theorem reflects_step (hstored : Represents stored run key) (hreflects : Reflects stored run key)
    (horder : InOrder (run ++ [o])) (h : o.details.policies key = some fact) {after : PolicyFact}
    (hafter : mergeFact stored fact = some after) :
    Reflects (some after) (run ++ [o]) key ↔ HeardOut stored run o key := by
  have hstatements : statementsOn key (run ++ [o]) =
      statementsOn key run ++ [(o.source, fact.value)] := by
    rw [statementsOn_concat, h]
    rfl
  rw [Reflects, hstatements, Option.map_some]
  rcases stored with _ | before
  · -- the first statement
    obtain rfl := Option.some.inj hafter
    have hnil := hstored.stated.mp rfl
    refine iff_of_true ?_ fun _ _ before hbefore => by cases hbefore
    have hlow : topRank [] < sourceRank o.source := sourceRank_pos _
    rw [hnil, latestValue, latest_concat_higher hlow]
    rfl
  rw [heardOut_some h (hstored.evidence before rfl)]
  have hrank := hstored.rank before rfl
  have hsource := o.fact_rank h
  rcases lt_trichotomy before.rank fact.rank with hlt | heq | hgt
  · -- a better source
    rw [mergeFact, if_pos hlt] at hafter
    obtain rfl := Option.some.inj hafter
    refine iff_of_true ?_ fun hsame => absurd hsame hlt.ne'
    rw [latestValue, latest_concat_higher (by rw [← hrank, ← hsource]; exact hlt)]
    rfl
  · have htop : sourceRank o.source = topRank (statementsOn key run) := by
      rw [← hrank, ← hsource, heq]
    rw [mergeFact_equal h hstored horder heq.symm] at hafter
    obtain rfl := Option.some.inj hafter
    by_cases hvalue : before.value = fact.value ∨ fact.value = .conflicting
    · -- the value that was agreed again, or a conflict
      have hexpected := latestValue_of_same htop (hvalue.imp_left fun heq => by
        rw [← hreflects, Option.map_some, heq])
      rw [hexpected]
      refine iff_of_true (congrArg some ?_) fun _ hne hnot => absurd hvalue (not_or.mpr ⟨hne, hnot⟩)
      split_ifs with hif
      · rfl
      · refine (hvalue.resolve_left fun heq => hif ?_).symm
        rw [decide_eq_true heq, Bool.or_true]
    · obtain ⟨hne, hnot⟩ := not_or.mp hvalue
      rw [decide_eq_false hne, Bool.or_false, reflects_contradicted htop hnot]
      exact ⟨fun hiff _ _ _ => hiff, fun hheard => hheard heq.symm hne hnot⟩
  · -- a source of a lower rank
    have hlt : ¬before.rank < fact.rank := by omega
    rw [mergeFact, if_neg hlt, if_neg hgt.ne] at hafter
    obtain rfl := Option.some.inj hafter
    refine iff_of_true ?_ fun hsame => absurd hsame hgt.ne
    rw [latestValue, latest_concat_lower (by rw [← hrank, ← hsource]; exact hgt)]
    exact hreflects

/-! ## Runs -/

/-- The policy that is stored after a run. -/
def policyAfter (run : List SourceDetails) (key : PolicyKind) : Option PolicyFact :=
  statedPolicy ((observed (run.map fun o => some o.details)).getD none) key

/-- Details whose policies have evidence merge without an exception. -/
theorem SourceDetails.merge (o : SourceDetails) (details : Option JobDetails) :
    ∃ merged, mergeDetails details (some o.details) = some merged := by
  rw [← Option.ne_none_iff_exists']
  intro hnone
  obtain ⟨key, fact, -, hkey, hnil, -⟩ := mergeDetails_eq_none_iff.mp hnone
  exact (o.sourced key fact hkey).1 hnil

theorem observed_concat {details merged : Option JobDetails}
    (h : observed (run.map fun o => some o.details) = some details)
    (hmerged : mergeDetails details (some o.details) = some merged) :
    observed ((run ++ [o]).map fun o => some o.details) = some merged := by
  rw [observed, List.map_append, List.foldlM_append, ← observed, h]
  simp [hmerged]

/-- The policy after an observation that does not state it, or does. -/
theorem statedPolicy_observed {details merged : Option JobDetails}
    (hmerged : mergeDetails details (some o.details) = some merged) (key : PolicyKind) :
    statedPolicy merged key =
      (o.details.policies key).elim (statedPolicy details key)
        (mergeFact (statedPolicy details key)) := by
  rw [statedPolicy_merge hmerged key]
  simp only [statedPolicy, Option.bind_some]
  cases o.details.policies key <;> rfl

/-- **A run** merges without an exception, and what is stored represents it. -/
theorem represents_run (run : List SourceDetails) (horder : InOrder run) :
    ∃ details, observed (run.map fun o => some o.details) = some details ∧
      ∀ key, Represents (statedPolicy details key) run key := by
  induction run using List.reverseRecOn with
  | nil =>
    have hnone : ∀ key before, statedPolicy none key ≠ some before := fun _ _ h => by cases h
    refine ⟨none, rfl, fun key => ⟨iff_of_true rfl rfl, ?_, ?_, ?_⟩⟩ <;>
      exact fun before hbefore => absurd hbefore (hnone key before)
  | append_singleton run o ih =>
    obtain ⟨details, hdetails, hall⟩ := ih (List.pairwise_append.mp horder).1
    obtain ⟨merged, hmerged⟩ := o.merge details
    refine ⟨merged, observed_concat hdetails hmerged, fun key => ?_⟩
    rw [statedPolicy_observed hmerged]
    cases hfact : o.details.policies key with
    | none =>
      have hstatements : statementsOn key (run ++ [o]) = statementsOn key run := by
        rw [statementsOn_concat, hfact]
        simp
      obtain ⟨hstated, hevidence, hrank, htimes⟩ := hall key
      refine ⟨by rw [hstatements]; exact hstated, hevidence, by rw [hstatements]; exact hrank, ?_⟩
      intro before hbefore e he
      obtain ⟨o', ho', htime⟩ := htimes before hbefore e he
      exact ⟨o', List.mem_append_left _ ho', htime⟩
    | some fact =>
      obtain ⟨after, hafter, hrepresents⟩ := (hall key).step horder hfact
      rw [Option.elim_some, hafter]
      exact hrepresents

/-- **One observation of a run** leaves the expected policy exactly where it was heard out. -/
theorem reflects_concat (horder : InOrder (run ++ [o]))
    (hreflects : Reflects (policyAfter run key) run key) :
    Reflects (policyAfter (run ++ [o]) key) (run ++ [o]) key ↔
      HeardOut (policyAfter run key) run o key := by
  obtain ⟨details, hdetails, hall⟩ := represents_run run (List.pairwise_append.mp horder).1
  obtain ⟨merged, hmerged⟩ := o.merge details
  have hbefore : policyAfter run key = statedPolicy details key := by
    rw [policyAfter, hdetails, Option.getD_some]
  have hafter : policyAfter (run ++ [o]) key = statedPolicy merged key := by
    rw [policyAfter, observed_concat hdetails hmerged, Option.getD_some]
  rw [hbefore] at hreflects ⊢
  rw [hafter, statedPolicy_observed hmerged]
  cases hfact : o.details.policies key with
  | none =>
    have hstatements : statementsOn key (run ++ [o]) = statementsOn key run := by
      rw [statementsOn_concat, hfact]
      simp
    refine iff_of_true ?_ fun fact h => ?_
    · rw [Reflects, hstatements]
      exact hreflects
    · rw [hfact] at h
      cases h
  | some fact =>
    obtain ⟨after, hmerge, -⟩ := (hall key).step horder hfact
    rw [Option.elim_some, hmerge]
    exact reflects_step (hall key) hreflects horder hfact hmerge

/-- **Policies reflect the latest statements** throughout a run exactly where every observation of
the run is heard out. -/
theorem latest_statements (key : PolicyKind) (run : List SourceDetails) (horder : InOrder run) :
    (∀ seen, seen <+: run → Reflects (policyAfter seen key) seen key) ↔
      ∀ seen o, seen ++ [o] <+: run → HeardOut (policyAfter seen key) seen o key := by
  constructor
  · intro hreflects seen o hprefix
    have horder' : InOrder (seen ++ [o]) := horder.sublist hprefix.sublist
    have hseen := hreflects seen ((List.prefix_append _ _).trans hprefix)
    exact (reflects_concat horder' hseen).mp (hreflects _ hprefix)
  · intro hheard seen
    induction seen using List.reverseRecOn with
    | nil => exact fun _ => rfl
    | append_singleton seen o ih =>
      intro hprefix
      have horder' : InOrder (seen ++ [o]) := horder.sublist hprefix.sublist
      have hseen := ih ((List.prefix_append _ _).trans hprefix)
      exact (reflects_concat horder' hseen).mpr (hheard seen o hprefix)

/-- A statement of one source on OPT. -/
def optStatement (source : Str) (value : PolicyValue) (observedAt : Time) : SourceDetails where
  source := source
  observedAt := observedAt
  details := optDetails source value observedAt
  sourced key fact h := by
    simp only [optDetails] at h
    split_ifs at h
    obtain rfl := Option.some.inj h
    refine ⟨List.cons_ne_nil _ _, fun e he => ?_⟩
    obtain rfl := List.mem_singleton.mp he
    exact ⟨rfl, rfl⟩

/-- Two sources that disagree. -/
def disagreement : List SourceDetails :=
  [optStatement "lever".toList .allowed 0, optStatement "greenhouse".toList .denied 1]

theorem disagreement_heard :
    InOrder disagreement ∧
      ∀ seen o, seen ++ [o] <+: disagreement → HeardOut (policyAfter seen .opt) seen o .opt := by
  have horder : InOrder disagreement := by simp [InOrder, disagreement, optStatement]
  refine ⟨horder, (latest_statements .opt disagreement horder).mp ?_⟩
  intro seen hseen
  have hmem := (List.mem_inits _ _).mpr hseen
  simp only [disagreement, List.inits, List.mem_cons, List.not_mem_nil, or_false, List.map_cons,
    List.map_nil] at hmem
  rcases hmem with rfl | rfl | rfl <;> rfl

/-- The two sources come to agree, and the conflict stays. -/
theorem agreement_unheard :
    InOrder (disagreement ++ [optStatement "lever".toList .denied 2]) ∧
      (policyAfter (disagreement ++ [optStatement "lever".toList .denied 2]) .opt).map (·.value) =
        some .conflicting ∧
      latestValue (statementsOn .opt (disagreement ++ [optStatement "lever".toList .denied 2])) =
        some .denied := by
  refine ⟨?_, by decide +kernel, by decide +kernel⟩
  simp [InOrder, disagreement, optStatement]

end JobPing
