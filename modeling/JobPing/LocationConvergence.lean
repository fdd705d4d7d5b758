import JobPing.ContentHashes
import JobPing.LocationProvenance
import Mathlib.Data.Char
import Mathlib.Data.List.Lex
import Mathlib.Data.List.MinMax
import Mathlib.Data.Finset.Max
import Mathlib.Data.Prod.Lex
import Mathlib.Order.OrderDual

/-!
# Location authority converges

The rule between two recognised sources compares them in one linear order, by tier and then by
name. So the fold of `reconcile_location` over observations keeps the greatest source it has met
(`observeAll_spec`), whatever their order, and settles on the top source of the set as soon as
every source was observed (`location_authority_converges`).
-/

namespace JobPing

/-! ## Names of sources -/

/-- A lower-case ASCII letter or `_`. -/
def isNameChar (c : Char) : Bool := c.isLower || c = '_'

/-- `str.split` and `str.casefold` leave lower-case ASCII names alone. -/
structure Unicode.KeepsNames (U : Unicode) : Prop where
  casefold_eq : ∀ name : Str, name.all isNameChar = true → U.casefold name = name
  not_space : ∀ c, isNameChar c = true → U.isSpace c = false

theorem name_of_sourceTier {name : Str} (h : (sourceTier name).isSome = true) :
    name ≠ [] ∧ name.all isNameChar = true := by
  unfold sourceTier at h
  split_ifs at h with h₁ h₂ h₃
  · simp only [List.mem_cons, List.not_mem_nil, or_false] at h₁
    rcases h₁ with rfl | rfl <;> decide
  · subst h₂
    decide
  · simp only [List.mem_cons, List.not_mem_nil, or_false] at h₃
    rcases h₃ with rfl | rfl | rfl | rfl | rfl <;> decide
  · exact absurd h Bool.false_ne_true

theorem tier_pos {name : Str} {tier : ℕ} (h : sourceTier name = some tier) : 0 < tier := by
  unfold sourceTier at h
  split_ifs at h <;> cases h <;> decide

variable {S : Services} {c k : Str}

/-- A recognised name is its own source name. -/
theorem sourceName_of_tier (hnames : S.text.KeepsNames) {name : Str}
    (h : (sourceTier name).isSome = true) : sourceName S (some name) = some name := by
  obtain ⟨hne, hall⟩ := name_of_sourceTier h
  have hspace : ∀ c ∈ name, S.text.isSpace c = false := fun c hc =>
    hnames.not_space c (List.all_eq_true.mp hall c hc)
  have hsplit : S.text.split name = [name] := by
    rw [Unicode.split, List.splitOnP_eq_singleton hspace]
    simp [hne]
  have hnormal : S.text.casefold (S.text.squeeze name) = name := by
    rw [Unicode.squeeze, hsplit, List.intercalate_singleton]
    exact hnames.casefold_eq name hall
  simp only [sourceName, hnormal, if_neg hne]

/-! ## One linear order -/

/-- The authority of a source: its tier, and among equal tiers the smaller name. -/
def authority (name : Str) : ℕ ×ₗ Strᵒᵈ :=
  toLex ((sourceTier name).getD 0, OrderDual.toDual name)

theorem authority_injective : Function.Injective authority := by
  intro a b hab
  exact OrderDual.toDual_inj.mp (congrArg (fun key => (ofLex key).2) hab)

theorem authority_lt_iff : authority c < authority k ↔
    (sourceTier c).getD 0 < (sourceTier k).getD 0 ∨
      (sourceTier c).getD 0 = (sourceTier k).getD 0 ∧ k < c := Prod.Lex.lt_iff

/-- **The winner of two recognised sources** is the one of greater authority. -/
theorem sourceWins_iff (hnames : S.text.KeepsNames) (hc : (sourceTier c).isSome = true)
    (hk : (sourceTier k).isSome = true) :
    sourceWins S (some c) (some k) = true ↔ authority k ≤ authority c := by
  obtain ⟨tier, htier⟩ := Option.isSome_iff_exists.mp hc
  have hpos := tier_pos htier
  simp only [sourceWins, sourceName_of_tier hnames hc, sourceName_of_tier hnames hk]
  by_cases hck : c = k
  · subst hck
    simp
  · have hne : authority k ≠ authority c := fun heq => hck (authority_injective heq).symm
    rw [if_neg hck, le_iff_lt_or_eq, or_iff_left hne, authority_lt_iff, htier, Option.getD_some]
    by_cases htiers : tier = (sourceTier k).getD 0
    · rw [if_neg (not_not.mpr htiers), if_neg hpos.ne', ← htiers]
      simp
    · rw [if_pos htiers]
      simp [Ne.symm htiers]

/-! ## Observations -/

/-- What a posting stores of its location. -/
abbrev StoredLocation := Option Str × Option Str

/-- One observation of the posting. -/
def observe (S : Services) (stored : StoredLocation) (job : NormalizedJob) : StoredLocation :=
  let result := reconcileLocation S job stored.1 stored.2
  (some result.location, result.locationSource)

/-- Observations of a posting that has no location yet. -/
def observeAll (S : Services) (jobs : List NormalizedJob) : StoredLocation :=
  jobs.foldl (observe S) (none, none)

/-- The observation is that of a recognised source: its location is meaningful. -/
def observedName (S : Services) (job : NormalizedJob) : Option Str :=
  if isMeaningfulLocation S (some job.location) then sourceName S job.locationSource else none

/-- Every meaningful observation is one of a source of the set, which reports its own location. -/
def Reports (S : Services) (sources : Finset Str) (report : Str → Str) (job : NormalizedJob) :
    Prop :=
  isMeaningfulLocation S (some job.location) = true →
    ∃ name ∈ sources, sourceName S job.locationSource = some name ∧ job.location = report name

/-- The sources of the set are recognised, and each reports a meaningful location. -/
def Recognised (S : Services) (sources : Finset Str) (report : Str → Str) : Prop :=
  ∀ name ∈ sources, (sourceTier name).isSome = true ∧
    isMeaningfulLocation S (some (report name)) = true

section

variable {sources : Finset Str} {report : Str → Str} {job : NormalizedJob}
  {jobs : List NormalizedJob} {location source : Option Str}

theorem observe_of_replaced (h : locationReplaced S job location source = true) :
    observe S (location, source) job = (some job.location, sourceName S job.locationSource) := by
  have heffective := effectiveLocation_of_replaced h
  simp only [observe, reconcileLocation, heffective]

theorem observe_of_kept (h : locationReplaced S job location source = false) :
    observe S (location, source) job = (some (locationOr location job.location), source) := by
  have heffective := effectiveLocation_of_kept h
  simp only [observe, reconcileLocation, heffective]

/-- The stored pair after some observations: that of the greatest source among them, or no
meaningful location. -/
def Settled (S : Services) (report : Str → Str) (names : List Str) (stored : StoredLocation) :
    Prop :=
  match names.argmax authority with
  | none => isMeaningfulLocation S stored.1 = false ∧ stored.2 = none
  | some top => stored = (some (report top), some top)

theorem locationOr_of_not_meaningful {l : Str}
    (hlocation : isMeaningfulLocation S location = false)
    (hl : isMeaningfulLocation S (some l) = false) :
    isMeaningfulLocation S (some (locationOr location l)) = false := by
  unfold locationOr
  split
  · exact hlocation
  · exact hl

/-- **One observation** keeps the greatest source. -/
theorem Settled.observe (hnames : S.text.KeepsNames) (hsources : Recognised S sources report)
    {names : List Str} {stored : StoredLocation} (hall : ∀ name ∈ names, name ∈ sources)
    (h : Settled S report names stored) (hjob : Reports S sources report job) :
    Settled S report (names ++ (observedName S job).toList) (JobPing.observe S stored job) := by
  obtain ⟨location, source⟩ := stored
  by_cases hmeaningful : isMeaningfulLocation S (some job.location) = true
  · obtain ⟨name, hname, hsource, hlocation⟩ := hjob hmeaningful
    have hobserved : observedName S job = some name := by
      rw [observedName, if_pos hmeaningful, hsource]
    rw [hobserved, Option.toList_some, Settled, List.argmax_concat]
    unfold Settled at h
    cases htop : names.argmax authority with
    | none =>
      rw [htop] at h
      have hreplaced : locationReplaced S job location source = true := by
        have hstored : isMeaningfulLocation S location = false := h.1
        simp [locationReplaced, hmeaningful, hstored]
      rw [observe_of_replaced hreplaced, hsource, hlocation]
    | some top =>
      rw [htop] at h
      obtain ⟨rfl, rfl⟩ := Prod.mk.inj h
      have htop : top ∈ sources := hall top (List.argmax_mem htop)
      have hwins := sourceWins_iff hnames (hsources name hname).1 (hsources top htop).1
      have hreplaced : locationReplaced S job (some (report top)) (some top) =
          sourceWins S (some name) (some top) := by
        simp [locationReplaced, hmeaningful, (hsources top htop).2, hsource]
      by_cases hle : authority top ≤ authority name
      · rw [observe_of_replaced (hreplaced.trans (hwins.mpr hle)), hsource, hlocation]
        rcases hle.lt_or_eq with hlt | heq
        · simp only [if_pos hlt]
        · rw [authority_injective heq]
          simp
      · have hlost : sourceWins S (some name) (some top) = false := by
          rw [← Bool.not_eq_true, hwins]
          exact hle
        have hne : report top ≠ [] := ne_nil_of_meaningful (hsources top htop).2
        have hnot : ¬authority top < authority name := fun hlt => hle hlt.le
        rw [observe_of_kept (hreplaced.trans hlost), locationOr_some hne]
        simp only [if_neg hnot]
  · have hobserved : observedName S job = none := by rw [observedName, if_neg hmeaningful]
    have hkept : locationReplaced S job location source = false := by
      simp [locationReplaced, hmeaningful]
    rw [hobserved, Option.toList_none, List.append_nil, observe_of_kept hkept]
    unfold Settled at h ⊢
    cases htop : names.argmax authority with
    | none =>
      rw [htop] at h
      exact ⟨locationOr_of_not_meaningful h.1 (by simpa using hmeaningful), h.2⟩
    | some top =>
      rw [htop] at h
      obtain ⟨rfl, rfl⟩ := Prod.mk.inj h
      have htop : top ∈ sources := hall top (List.argmax_mem htop)
      rw [locationOr_some (ne_nil_of_meaningful (hsources top htop).2)]

theorem mem_of_observed (hjobs : ∀ job ∈ jobs, Reports S sources report job) {name : Str}
    (h : name ∈ jobs.filterMap (observedName S)) : name ∈ sources := by
  obtain ⟨job, hjob, hname⟩ := List.mem_filterMap.mp h
  unfold observedName at hname
  split_ifs at hname with hmeaningful
  obtain ⟨source, hsource, hname', -⟩ := hjobs job hjob hmeaningful
  rw [hname] at hname'
  cases hname'
  exact hsource

/-- **A run of observations** keeps the greatest source that was observed. -/
theorem observeAll_spec (hnames : S.text.KeepsNames) (hsources : Recognised S sources report)
    (hjobs : ∀ job ∈ jobs, Reports S sources report job) :
    Settled S report (jobs.filterMap (observedName S)) (observeAll S jobs) := by
  induction jobs using List.reverseRecOn with
  | nil => exact ⟨rfl, rfl⟩
  | append_singleton jobs job ih =>
    have hbefore : ∀ job ∈ jobs, Reports S sources report job := fun job hjob =>
      hjobs job (List.mem_append_left _ hjob)
    have hjob := hjobs job (List.mem_append_right _ List.mem_cons_self)
    have hstep := (ih hbefore).observe hnames hsources (fun name => mem_of_observed hbefore) hjob
    have hnames' : (jobs ++ [job]).filterMap (observedName S) =
        jobs.filterMap (observedName S) ++ (observedName S job).toList := by
      rw [List.filterMap_append]
      cases h : observedName S job <;> simp [h]
    rw [hnames', observeAll, List.foldl_append]
    exact hstep

/-! ## Convergence -/

/-- The top source of a set: highest tier, then smallest name. -/
def IsTop (sources : Finset Str) (top : Str) : Prop :=
  top ∈ sources ∧ ∀ name ∈ sources, name ≠ top →
    (sourceTier name).getD 0 < (sourceTier top).getD 0 ∨
      (sourceTier name).getD 0 = (sourceTier top).getD 0 ∧ top < name

theorem isTop_iff {top : Str} : IsTop sources top ↔
    top ∈ sources ∧ ∀ name ∈ sources, authority name ≤ authority top := by
  refine and_congr_right fun htop => forall₂_congr fun name hname => ?_
  rw [← authority_lt_iff]
  constructor
  · intro h
    by_cases heq : name = top
    · rw [heq]
    · exact (h heq).le
  · intro hle hne
    exact lt_of_le_of_ne hle fun heq => hne (authority_injective heq)

theorem exists_isTop (h : sources.Nonempty) : ∃ top, IsTop sources top := by
  obtain ⟨top, htop, hmax⟩ := sources.exists_max_image authority h
  exact ⟨top, isTop_iff.mpr ⟨htop, hmax⟩⟩

/-- Every source of the set has been observed. -/
def Observed (S : Services) (sources : Finset Str) (jobs : List NormalizedJob) : Prop :=
  ∀ name ∈ sources, ∃ job ∈ jobs, isMeaningfulLocation S (some job.location) = true ∧
    sourceName S job.locationSource = some name

/-- Once every source was observed the stored pair is that of the top source. -/
theorem observeAll_of_observed (hnames : S.text.KeepsNames)
    (hsources : Recognised S sources report) {top : Str} (htop : IsTop sources top)
    (hjobs : ∀ job ∈ jobs, Reports S sources report job) (hobserved : Observed S sources jobs) :
    observeAll S jobs = (some (report top), some top) := by
  have hspec := observeAll_spec hnames hsources hjobs
  obtain ⟨htop, hmax⟩ := isTop_iff.mp htop
  have hmem : top ∈ jobs.filterMap (observedName S) := by
    obtain ⟨job, hjob, hmeaningful, hsource⟩ := hobserved top htop
    refine List.mem_filterMap.mpr ⟨job, hjob, ?_⟩
    rw [observedName, if_pos hmeaningful, hsource]
  have hargmax : (jobs.filterMap (observedName S)).argmax authority = some top := by
    cases hwinner : (jobs.filterMap (observedName S)).argmax authority with
    | none =>
      rw [List.argmax_eq_none.mp hwinner] at hmem
      exact absurd hmem List.not_mem_nil
    | some winner =>
      have hle := List.le_of_mem_argmax hmem hwinner
      have hge := hmax winner (mem_of_observed hjobs (List.argmax_mem hwinner))
      rw [authority_injective (le_antisymm hge hle)]
  unfold Settled at hspec
  rw [hargmax] at hspec
  exact hspec

end

/-- **Location authority converges.** A set of recognised sources has one top source, and whatever
the order of their observations, the pair of that source is stored from the moment each was
observed; and every result is hashed as the observation is. -/
theorem location_authority_converges (S : Services) (hnames : S.text.KeepsNames)
    (sources : Finset Str) (hne : sources.Nonempty) (report : Str → Str)
    (hsources : Recognised S sources report) :
    (∃! top, IsTop sources top) ∧
      ∀ top, IsTop sources top → ∀ jobs : List NormalizedJob,
        (∀ job ∈ jobs, Reports S sources report job) →
        (∀ before after, jobs = before ++ after → Observed S sources before →
          observeAll S before = (some (report top), some top) ∧
            observeAll S jobs = (some (report top), some top)) ∧
        ∀ before job after, jobs = before ++ job :: after → job.Hashed S →
          (reconcileLocation S job (observeAll S before).1 (observeAll S before).2).Hashed S := by
  constructor
  · obtain ⟨top, htop⟩ := exists_isTop hne
    refine ⟨top, htop, fun other hother => ?_⟩
    have hle := (isTop_iff.mp htop).2 other hother.1
    have hge := (isTop_iff.mp hother).2 top htop.1
    exact authority_injective (le_antisymm hle hge)
  · intro top htop jobs hjobs
    constructor
    · intro before after hsplit hobserved
      have hbefore : ∀ job ∈ before, Reports S sources report job := fun job hjob =>
        hjobs job (hsplit ▸ List.mem_append_left _ hjob)
      have hall : Observed S sources jobs := by
        intro name hname
        obtain ⟨job, hjob, h⟩ := hobserved name hname
        exact ⟨job, hsplit ▸ List.mem_append_left _ hjob, h⟩
      exact ⟨observeAll_of_observed hnames hsources htop hbefore hobserved,
        observeAll_of_observed hnames hsources htop hjobs hall⟩
    · intro before job after _ hhashed
      exact reconcileLocation_hashed (.inl hhashed)

/-- An observation of the sample by a source. -/
def located (source location : String) : NormalizedJob :=
  { sampleJob with location := location.toList, locationSource := some source.toList }

/-- Two job boards and a list, one observation without a location among them. -/
def locatedJobs : List NormalizedJob :=
  [located "lever" "New York", located "meta_careers" "Unspecified",
    located "greenhouse" "Remote, U.S.", located "applyguy_internships" "Remote",
    located "lever" "New York"]

/-- What each source of the sample reports. -/
def sampleReport (name : Str) : Str :=
  if name = "greenhouse".toList then "Remote, U.S.".toList
  else if name = "lever".toList then "New York".toList else "Remote".toList

theorem ascii_keepsNames : Services.ascii.text.KeepsNames := by
  constructor
  · intro name hname
    have hlower : ∀ c ∈ name, c.toLower = id c := by
      intro c hc
      have hchar := List.all_eq_true.mp hname c hc
      rw [isNameChar, Bool.or_eq_true, decide_eq_true_eq] at hchar
      refine dif_neg ?_
      rintro ⟨hlow, hhigh⟩
      rcases hchar with hletter | rfl
      · have hlow' : 'a'.val ≤ c.val := of_decide_eq_true (Bool.and_eq_true_iff.mp hletter).1
        exact absurd (UInt32.le_trans hlow' hhigh) (by decide)
      · exact absurd hhigh (by decide)
    exact (List.map_congr_left hlower).trans (List.map_id name)
  · intro c hc
    rw [Bool.eq_false_iff]
    intro hspace
    have hmem : c ∈ [' ', '\t', '\n', '\r', Char.ofNat 11, Char.ofNat 12, Char.ofNat 28,
        Char.ofNat 29, Char.ofNat 30, Char.ofNat 31] := of_decide_eq_true hspace
    simp only [List.mem_cons, List.not_mem_nil, or_false] at hmem
    rcases hmem with rfl | rfl | rfl | rfl | rfl | rfl | rfl | rfl | rfl | rfl <;>
      exact absurd hc (by decide)

theorem located_jobs_converge :
    observeAll .ascii locatedJobs = (some "Remote, U.S.".toList, some "greenhouse".toList) := by
  obtain ⟨-, hall⟩ := location_authority_converges Services.ascii ascii_keepsNames
    {"greenhouse".toList, "lever".toList, "applyguy_internships".toList} (by decide) sampleReport
    (by unfold Recognised; decide +kernel)
  have hjobs := (hall "greenhouse".toList (by unfold IsTop; decide +kernel) locatedJobs
    (by unfold Reports; decide +kernel)).1 locatedJobs [] rfl
    (by unfold Observed; decide +kernel)
  exact hjobs.2

end JobPing
