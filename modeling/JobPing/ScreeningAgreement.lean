import JobPing.Screening

/-!
# Screening in memory and in SQL

`evaluate` and `bucket_expression` give the same bucket (`screening_agrees`). The sections of the two
policies are compared one by one: a section of `evaluate` finds a failure if and only if one of its
conditions over columns is true, and so with a review (`Findings.Agree`).
-/

namespace JobPing

variable {U : Unicode} {profile : Requirements} {row : ScreenedJob} {data : Projection}

/-! ## Sections -/

/-- A section finds what its conditions say. -/
structure Findings.Agree (f : Findings) (c : Conditions) : Prop where
  fails : f.fails ≠ [] ↔ some true ∈ c.failures
  reviews : f.reviews ≠ [] ↔ some true ∈ c.reviews

theorem Findings.Agree.append {f g : Findings} {c d : Conditions} (hf : f.Agree c)
    (hg : g.Agree d) : (f.append g).Agree (c.append d) where
  fails := by
    rw [Findings.append, Conditions.append, List.mem_append, ← hf.fails, ← hg.fails, ne_eq,
      List.append_eq_nil_iff, not_and_or]
  reviews := by
    rw [Findings.append, Conditions.append, List.mem_append, ← hf.reviews, ← hg.reviews, ne_eq,
      List.append_eq_nil_iff, not_and_or]

theorem Findings.agree_none : Findings.none.Agree ⟨[], []⟩ := ⟨by simp [none], by simp [none]⟩

theorem restrictionColumn_eq (hdata : row.data = some data) (key : RestrictionKind) :
    row.restrictionColumn key = (data.restrictions key).map Restriction.value := by
  rw [ScreenedJob.restrictionColumn, hdata, Option.bind_some]

theorem policyColumn_eq (hdata : row.data = some data) (key : PolicyKind) :
    row.policyColumn key = some (data.policyValue key) := by
  rw [ScreenedJob.policyColumn, hdata, Option.bind_some]
  rfl

theorem mem_restrictionValues {value : RestrictionValue} :
    value ∈ data.restrictionValues ↔
      ∃ key, (data.restrictions key).map Restriction.value = some value := by
  unfold Projection.restrictionValues
  rw [List.mem_filterMap]
  constructor
  · rintro ⟨key, -, h⟩
    exact ⟨key, h⟩
  · rintro ⟨key, h⟩
    exact ⟨key, by cases key <;> decide, h⟩

/-- A section that can only fail. -/
theorem agree_fail {found : Bool} {reason : Str} {conditions : List Sql.Truth}
    (h : found = true ↔ some true ∈ conditions) :
    (if found then Findings.fail reason else .none).Agree ⟨conditions, []⟩ := by
  cases found with
  | true => exact ⟨by simpa [Findings.fail] using h, by simp [Findings.fail]⟩
  | false => exact ⟨by simpa [Findings.none] using h, by simp [Findings.none]⟩

/-- A section that can only ask for a review. -/
theorem agree_review {found : Bool} {reason : Str} {conditions : List Sql.Truth}
    (h : found = true ↔ some true ∈ conditions) :
    (if found then Findings.review reason else .none).Agree ⟨[], conditions⟩ := by
  cases found with
  | true => exact ⟨by simp [Findings.review], by simpa [Findings.review] using h⟩
  | false => exact ⟨by simp [Findings.none], by simpa [Findings.none] using h⟩

theorem agree_restriction (hdata : row.data = some data) :
    (restrictionFindings profile data).Agree (restrictionConditions profile row) := by
  unfold restrictionFindings restrictionConditions
  by_cases hneeds : profile.needsWorkAuth = true
  · rw [if_pos hneeds, if_pos hneeds]
    have hfail : data.restrictionValues.any (· = .required) = true ↔ some true ∈ [Sql.or_
        [Sql.eq (row.restrictionColumn .citizenshipRequired) (some .required),
          Sql.eq (row.restrictionColumn .permanentAuthorizationRequired) (some .required)]] := by
      simp only [List.any_eq_true, decide_eq_true_eq, exists_eq_right, mem_restrictionValues,
        eq_comm (a := some true), Sql.or_eq_true, List.mem_cons, List.not_mem_nil, or_false,
        Sql.eq_eq_true, restrictionColumn_eq hdata]
      constructor
      · rintro ⟨_ | _, h⟩
        · exact .inl h
        · exact .inr h
      · rintro (h | h)
        · exact ⟨_, h⟩
        · exact ⟨_, h⟩
    have hreview : data.restrictionValues.any (· ≠ .required) = true ↔
        some true ∈ RestrictionKind.all.map fun key => Sql.and_
          [Sql.isNotNull (row.restrictionColumn key),
            Sql.ne (row.restrictionColumn key) (some .required)] := by
      simp only [List.any_eq_true, decide_eq_true_eq, mem_restrictionValues, List.mem_map,
        Sql.and_eq_true, List.forall_mem_cons, List.not_mem_nil, false_imp_iff, implies_true,
        and_true, Sql.ne_eq_true, restrictionColumn_eq hdata, Sql.isNotNull]
      constructor
      · rintro ⟨value, ⟨key, hkey⟩, hne⟩
        exact ⟨key, by cases key <;> decide, by rw [hkey]; rfl, value, hkey, hne⟩
      · rintro ⟨key, -, -, value, hkey, hne⟩
        exact ⟨value, ⟨key, hkey⟩, hne⟩
    exact (agree_fail hfail).append (agree_review hreview)
  · rw [if_neg hneeds, if_neg hneeds]
    exact Findings.agree_none

theorem agree_authorization (hdata : row.data = some data) :
    (authorizationFindings profile data).Agree (authorizationConditions profile row) := by
  unfold authorizationFindings authorizationConditions
  cases profile.policy with
  | none => exact Findings.agree_none
  | some key =>
    dsimp only
    rw [policyColumn_eq hdata]
    cases data.policyValue key <;>
      exact ⟨by simp [Findings.pass, Findings.fail, Findings.review, Sql.eq_some],
        by simp [Findings.pass, Findings.fail, Findings.review, Sql.notIn, Sql.in_]⟩

/-- There is a summary when one of the filings is recent. -/
theorem recentH1bSummary_isSome {records : List EmployerRecord} :
    (recentH1bSummary records).isSome = true ↔ ∃ r ∈ records,
      r.kind.any (· ∈ h1bKinds) = true ∧ minActiveH1bYear ≤ r.year ∧ 1 ≤ r.count := by
  unfold recentH1bSummary
  dsimp only
  generalize hvalid : (records.filter fun r =>
    r.kind.any (· ∈ h1bKinds) && decide (1 ≤ r.count)) = valid
  have hmem (r : EmployerRecord) : r ∈ valid ↔
      r ∈ records ∧ r.kind.any (· ∈ h1bKinds) = true ∧ 1 ≤ r.count := by
    rw [← hvalid, List.mem_filter, Bool.and_eq_true, decide_eq_true_eq]
  constructor
  · intro h
    split_ifs at h with hnone
    · cases h
    · rw [Bool.not_eq_true', Bool.not_eq_false] at hnone
      obtain ⟨r, hr, hyear⟩ := List.any_eq_true.mp hnone
      obtain ⟨hrecord, hkind, hcount⟩ := (hmem r).mp hr
      exact ⟨r, hrecord, hkind, of_decide_eq_true hyear, hcount⟩
  · rintro ⟨r, hr, hkind, hyear, hcount⟩
    have hvalid : r ∈ valid := (hmem r).mpr ⟨hr, hkind, hcount⟩
    have hany : (valid.any fun r => decide (minActiveH1bYear ≤ r.year)) = true :=
      List.any_eq_true.mpr ⟨r, hvalid, decide_eq_true hyear⟩
    rw [hany, Bool.not_true, if_neg Bool.false_ne_true, Option.isSome_map]
    have hyears : valid.map EmployerRecord.year ≠ [] :=
      List.ne_nil_of_mem (List.mem_map_of_mem hvalid)
    cases hmax : (valid.map EmployerRecord.year).max? with
    | none => exact absurd (List.max?_eq_none_iff.mp hmax) hyears
    | some latest => rfl

/-- The query finds recent filings when there is a summary of them. -/
theorem companyHasRecentH1b_eq (row : ScreenedJob) :
    row.companyHasRecentH1b = some (recentH1bSummary row.immigrationRecords).isSome := by
  unfold ScreenedJob.companyHasRecentH1b
  rw [Sql.exists_filter]
  congr 1
  rw [Bool.eq_iff_iff, List.any_eq_true, recentH1bSummary_isSome]
  refine exists_congr fun r => and_congr_right fun _ => ?_
  simp only [decide_eq_true_eq, Sql.and_eq_true, List.forall_mem_cons, List.not_mem_nil,
    false_imp_iff, implies_true, and_true, Sql.in_, Sql.compare, Option.map_some,
    Option.some_inj]
  refine and_congr_left fun _ => ?_
  cases r.kind <;> simp

theorem has_restriction_eq (hdata : row.data = some data) :
    Sql.or_ [Sql.isNotNull (row.restrictionColumn .citizenshipRequired),
        Sql.isNotNull (row.restrictionColumn .permanentAuthorizationRequired)] =
      some !data.restrictionValues.isEmpty := by
  unfold Sql.isNotNull Projection.restrictionValues
  rw [Sql.or_pair, restrictionColumn_eq hdata, restrictionColumn_eq hdata]
  cases hcitizenship : data.restrictions .citizenshipRequired <;>
    cases hpermanent : data.restrictions .permanentAuthorizationRequired <;>
    simp [RestrictionKind.all, hcitizenship, hpermanent]

theorem agree_sponsorship (hdata : row.data = some data) :
    (sponsorshipFindings profile data row.immigrationRecords).Agree
      (sponsorshipConditions profile row) := by
  unfold sponsorshipFindings sponsorshipConditions
  by_cases hfuture : profile.futureSponsorship = true
  · rw [if_pos hfuture, if_pos hfuture]
    dsimp only
    rw [has_restriction_eq hdata, policyColumn_eq hdata, policyColumn_eq hdata,
      companyHasRecentH1b_eq]
    generalize (!data.restrictionValues.isEmpty) = has_restriction
    generalize recentH1bSummary row.immigrationRecords = summary
    simp only [Sql.eq_some, Sql.and_pair, Sql.or_pair, Sql.and_triple, Sql.not_some]
    generalize data.policyValue .futureSponsorship = futureVal
    generalize data.policyValue .sponsorship = sponsVal
    cases futureVal <;> cases sponsVal <;> cases has_restriction <;> cases summary <;>
      exact ⟨by simp [Findings.pass, Findings.fail, Findings.review],
        by simp [Findings.pass, Findings.fail, Findings.review]⟩
  · rw [if_neg hfuture, if_neg hfuture]
    exact Findings.agree_none

theorem agree_location (hdata : row.data = some data) :
    (locationFindings U profile data).Agree (locationConditions U profile row) := by
  unfold locationFindings locationConditions
  rw [hdata]
  cases (profile.accepted U).isEmpty with
  | true => exact Findings.agree_none
  | false =>
    by_cases hmem : data.locationKey ∈ profile.accepted U
    · exact ⟨by simp [hmem, Findings.none], by
        simp [hmem, Findings.none, Sql.notIn, Sql.in_, Sql.coalesce]⟩
    · exact ⟨by simp [hmem, Findings.review], by
        simp [hmem, Findings.review, Sql.notIn, Sql.in_, Sql.coalesce]⟩

/-! ## Pay -/

/-- Every range has an amount. -/
theorem Pay.amount_isSome (pay : Pay) : pay.amount.isSome = true := by
  unfold amount
  rcases pay.some_bound with hminimum | hmaximum
  · obtain ⟨minimum, hminimum⟩ := Option.ne_none_iff_exists'.mp hminimum
    cases pay.maximum <;> simp [hminimum]
  · obtain ⟨maximum, hmaximum⟩ := Option.ne_none_iff_exists'.mp hmaximum
    simp [hmaximum]

/-- The query reads the ranges that are compared in memory. -/
theorem comparable_eq (hdata : row.data = some data) (kind : JobType) :
    comparable U profile kind row = applicablePay U profile kind data := by
  unfold comparable applicablePay ScreenedJob.payRows Sql.filter
  rw [hdata]
  refine List.filter_congr fun pay _ => ?_
  rw [Bool.eq_iff_iff, decide_eq_true_eq, Sql.and_eq_true]
  cases (profile.accepted U).isEmpty with
  | true => simp [Sql.isTrue, Sql.isNotNull, Pay.amount_isSome, and_assoc]
  | false => simp [Sql.isTrue, Sql.isNotNull, Sql.in_, Pay.amount_isSome, and_assoc]

instance lawfulOrderMax_rat : Std.LawfulOrderMax ℚ where
  max_eq_or := max_choice
  max_le_iff _ _ _ := max_le_iff

/-- The largest amount reaches a floor when one of the amounts does. -/
theorem max_reaches_iff {amounts : List ℚ} {floor : ℚ} :
    amounts.max?.any (floor ≤ ·) = true ↔ ∃ amount ∈ amounts, floor ≤ amount := by
  cases hmax : amounts.max? with
  | none =>
    rw [List.max?_eq_none_iff.mp hmax]
    simp
  | some largest =>
    obtain ⟨hmem, hle⟩ := List.max?_eq_some_iff.mp hmax
    rw [Option.any_some, decide_eq_true_eq]
    constructor
    · exact fun h => ⟨largest, hmem, h⟩
    · rintro ⟨amount, hamount, h⟩
      exact le_trans h (hle amount hamount)

/-- The floor of another category says nothing. -/
theorem agree_otherPay {kind : JobType} (hkind : row.job.jobType ≠ kind) :
    Findings.none.Agree (payConditions U profile kind row) := by
  have hfalse (rest : List Sql.Truth) :
      some true ≠ Sql.and_ (Sql.eq (some row.job.jobType) (some kind) :: rest) := fun h => by
    have heq := Sql.and_eq_true.mp h.symm _ List.mem_cons_self
    rw [Sql.eq_eq_true] at heq
    exact hkind (Option.some_inj.mp heq)
  unfold payConditions
  cases profile.floorFor kind with
  | none => exact Findings.agree_none
  | some floor =>
    exact ⟨by simpa [Findings.none] using hfalse _, by simpa [Findings.none] using hfalse _⟩

theorem agree_own_pay (hdata : row.data = some data) :
    (payFindings U profile row.job.jobType data).Agree
      (payConditions U profile row.job.jobType row) := by
  unfold payFindings payConditions
  cases profile.floorFor row.job.jobType with
  | none => exact Findings.agree_none
  | some floor =>
    dsimp only
    rw [comparable_eq hdata, Sql.exists_filter, Sql.exists_filter, hdata]
    generalize applicablePay U profile row.job.jobType data = pay
    have hamount (item : ScreenedPay) : ∃ amount, item.amount = some amount :=
      Option.isSome_iff_exists.mp item.amount_isSome
    have hempty : (pay.filterMap fun item => item.amount).isEmpty = pay.isEmpty := by
      cases pay with
      | nil => rfl
      | cons item pay =>
        obtain ⟨amount, heq⟩ := hamount item
        simp [heq]
    have hmeets : (pay.filterMap fun item => item.amount).max?.any (floor.value ≤ ·) =
        pay.any fun item => Sql.compare item.amount (floor.value ≤ ·) = some true := by
      rw [Bool.eq_iff_iff, max_reaches_iff, List.any_eq_true]
      constructor
      · rintro ⟨amount, hmem, hle⟩
        obtain ⟨item, hitem, heq⟩ := List.mem_filterMap.mp hmem
        exact ⟨item, hitem, by simp [Sql.compare, heq, hle]⟩
      · rintro ⟨item, hitem, hle⟩
        obtain ⟨amount, heq⟩ := hamount item
        refine ⟨amount, List.mem_filterMap.mpr ⟨item, hitem, heq⟩, ?_⟩
        simpa [Sql.compare, heq] using hle
    have hunbounded : (pay.any fun item => item.maximum.isNone) =
        pay.any fun item => Sql.isNull item.maximum = some true := by
      congr 1
      funext item
      cases item.maximum <;> rfl
    rw [hempty, hmeets, hunbounded]
    unfold Sql.exists_
    generalize (pay.any fun item => Sql.compare item.amount (floor.value ≤ ·) = some true) = meets
    generalize (pay.any fun item => Sql.isNull item.maximum = some true) = unbounded
    generalize pay.isEmpty = noneStated
    simp only [Option.map_some, Sql.coalesce, Option.getD_some, Sql.eq_some, decide_true,
      Sql.not_some, Sql.and_pair]
    generalize data.payConflicting = conflict
    cases conflict <;> cases noneStated <;> cases meets <;> cases unbounded <;>
      exact ⟨by decide, by decide⟩

/-! ## The bucket -/

theorem Findings.append_none (f : Findings) : f.append none = f := by simp [append, none]

theorem Findings.none_append (f : Findings) : none.append f = f := by simp [append, none]

/-- The floor of the posting's own category decides. -/
theorem agree_pay (hdata : row.data = some data) :
    (payFindings U profile row.job.jobType data).Agree
      ((payConditions U profile .internship row).append
        (payConditions U profile .newGrad row)) := by
  have hown : (payFindings U profile row.job.jobType data).Agree
      (payConditions U profile row.job.jobType row) := agree_own_pay hdata
  cases hkind : row.job.jobType with
  | internship =>
    have hother : Findings.none.Agree (payConditions U profile .newGrad row) :=
      agree_otherPay (hkind ▸ by decide)
    rw [hkind] at hown
    rw [← Findings.append_none (payFindings U profile .internship data)]
    exact hown.append hother
  | newGrad =>
    have hother : Findings.none.Agree (payConditions U profile .internship row) :=
      agree_otherPay (hkind ▸ by decide)
    rw [hkind] at hown
    rw [← Findings.none_append (payFindings U profile .newGrad data)]
    exact hother.append hown

theorem Conditions.append_assoc (a b c : Conditions) :
    (a.append b).append c = a.append (b.append c) := by simp [append]

variable (U profile) in
/-- All the sections. -/
theorem agree_screening (hdata : row.data = some data) :
    (((((restrictionFindings profile data).append (authorizationFindings profile data)).append
      (sponsorshipFindings profile data row.immigrationRecords)).append
      (locationFindings U profile data)).append
      (payFindings U profile row.job.jobType data)).Agree (screeningConditions U profile row) := by
  rw [screeningConditions, Conditions.append_assoc]
  exact ((((agree_restriction hdata).append (agree_authorization hdata)).append
    (agree_sponsorship hdata)).append (agree_location hdata)).append (agree_pay hdata)

/-- The bucket of findings, from their conditions. -/
theorem screened_bucket {f : Findings} {c : Conditions} (h : f.Agree c) :
    f.screened.bucket = Sql.case_ [(Sql.coalesce (Sql.or_ c.failures) false, .excluded),
      (Sql.coalesce (Sql.or_ c.reviews) false, .review)] .matches := by
  have hfails : decide (some true ∈ c.failures) = !f.fails.isEmpty := by
    rw [Bool.eq_iff_iff]
    simp [← h.fails]
  have hreviews : decide (some true ∈ c.reviews) = !f.reviews.isEmpty := by
    rw [Bool.eq_iff_iff]
    simp [← h.reviews]
  rw [Sql.coalesce_or, Sql.coalesce_or, hfails, hreviews]
  unfold Findings.screened
  dsimp only
  cases f.fails.isEmpty <;> cases f.reviews.isEmpty <;> rfl

/-- A row without a projection is not fresh. -/
theorem fresh_of_no_data {now : Time} (hdata : row.data = none) :
    Sql.coalesce (row.fresh now) false = some false := by
  unfold ScreenedJob.fresh
  rw [Sql.coalesce_and, hdata]
  simp [Sql.isTrue]

/-- The check of `evaluate` on the evidence, and `fresh`. -/
theorem fresh_eq {now : Time} {check : ScreenedCheck} (hcheck : row.check = some check)
    (hdata : check.projection = some data) :
    Sql.coalesce (row.fresh now) false = some (data.usRole &&
      !(some check.status ≠ some .complete || data.extractionVersion ≠ extractorVersion ||
        check.verifiedAt.isNone || !check.targetCurrent row.job ||
        check.verifiedAt.any (· ≤ now - hours 24))) := by
  unfold ScreenedJob.fresh ScreenedJob.data ScreenedCheck.targetCurrent
  rw [Sql.coalesce_and, hcheck, Option.bind_some, hdata]
  congr 1
  rw [Bool.eq_iff_iff]
  cases hverified : check.verifiedAt with
  | none => simp [Sql.compare, hverified]
  | some verifiedAt =>
    have hfresh : (check.status = .complete ∧ data.extractionVersion = extractorVersion ∧
        now - hours 24 < verifiedAt ∧ check.target.url = row.job.applyUrl ∧
        check.target.location = row.job.location ∧ check.target.title = some row.job.title ∧
        data.usRole = true) ↔ data.usRole = true ∧ ((check.status = .complete ∧
        data.extractionVersion = extractorVersion) ∧ (check.target.url = row.job.applyUrl ∧
        check.target.location = row.job.location) ∧ check.target.title = some row.job.title) ∧
        now - hours 24 < verifiedAt := by
      constructor
      · rintro ⟨hstatus, hversion, hage, hurl, hlocation, htitle, hrole⟩
        exact ⟨hrole, ⟨⟨hstatus, hversion⟩, ⟨hurl, hlocation⟩, htitle⟩, hage⟩
      · rintro ⟨hrole, ⟨⟨hstatus, hversion⟩, ⟨hurl, hlocation⟩, htitle⟩, hage⟩
        exact ⟨hstatus, hversion, hage, hurl, hlocation, htitle, hrole⟩
    simpa [Sql.compare, Sql.isTrue, Sql.eq_eq_true, hverified] using hfresh

/-- **The two policies put every row in the same bucket.** -/
theorem bucket_eq (profile : Option Requirements) (now : Time) (row : ScreenedJob) :
    (screening U profile now row).bucket = bucketExpression U profile now row := by
  unfold screening evaluate bucketExpression
  by_cases hclosed : row.job.isClosed = true
  · rw [if_pos hclosed, hclosed]
    cases profile.filter Requirements.configured <;> rfl
  rw [if_neg hclosed, Bool.eq_false_of_not_eq_true hclosed]
  cases profile.filter Requirements.configured with
  | none => rfl
  | some profile =>
    dsimp only
    cases hdata : row.check.bind ScreenedCheck.projection with
    | none =>
      rw [fresh_of_no_data hdata]
      rfl
    | some data =>
      obtain ⟨check, hcheck, hprojection⟩ := Option.bind_eq_some_iff.mp hdata
      rw [fresh_eq hcheck hprojection, hcheck]
      cases hrole : data.usRole with
      | false =>
        rw [Option.filter_some_neg (by simp [hrole])]
        rfl
      | true =>
        rw [Option.filter_some_pos hrole, Bool.true_and]
        dsimp only [Option.map_some, Option.bind_some, Option.any_some]
        by_cases hstale : (some check.status ≠ some .complete ||
            data.extractionVersion ≠ extractorVersion || check.verifiedAt.isNone ||
            !check.targetCurrent row.job || check.verifiedAt.any (· ≤ now - hours 24)) = true
        · rw [if_pos hstale, hstale]
          rfl
        · have hagree := agree_screening U profile hdata
          rw [if_neg hstale, Bool.eq_false_of_not_eq_true hstale, screened_bucket hagree]
          rfl

/-- **Screening agrees with its SQL** for the evidence of any documents, whatever the target, the
status and the age of the check, the posting and the records of the employer. -/
theorem screening_agrees (rules : TextRules) (U : Unicode) (profile : Option Requirements)
    (now : Time) (job : JobPosting) (immigrationRecords : List EmployerRecord) (target : Target)
    (status : CheckStatus) (verifiedAt : Option Time) (documents : List Document)
    (location : Str) :
    let row : ScreenedJob :=
      { job := job
        immigrationRecords := immigrationRecords
        check := some
          { target := target
            status := status
            verifiedAt := verifiedAt
            projection := some (projection rules U (reconcile (extracted rules documents))
              location) } }
    (screening U profile now row).bucket = bucketExpression U profile now row :=
  bucket_eq profile now _

end JobPing
