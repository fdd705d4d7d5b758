import JobPing.Dict
import JobPing.UrlParse
import Mathlib.Data.List.Perm.Basic

/-!
# Companies of employers

`match_company_aliases` of `app/services/employer_history.py`: the names of legal entities are
looked up among those of the companies, case-folded, and then by what is left of them without legal
suffixes. A canonical key of two companies matches none, while the last of two companies with one
case-folded name is taken: a mapping is unambiguous, in whatever order the names come, exactly if no
employer has the case-folded name of two companies (`matching_unambiguous_iff`).
-/

namespace JobPing

variable (P : Python)

/-! ## The functions -/

/-- `_LEGAL_SUFFIXES`. -/
def legalSuffixes : List Str :=
  ["inc", "incorporated", "llc", "corp", "corporation", "co", "company", "ltd", "limited", "lp",
    "llp", "plc", "pllc", "pc"].map String.toList

/-- `[a-z0-9&+#]`. -/
def isKeyChar (c : Char) : Bool := c.isLower || c.isDigit || c ∈ ['&', '+', '#']

/-- The loop that pops legal suffixes, on the tokens from the last one. -/
def popSuffixes : List Str → List Str
  | last :: token :: tokens =>
    if last ∈ legalSuffixes then popSuffixes (token :: tokens) else last :: token :: tokens
  | tokens => tokens

/-- `canonical_company_key`. -/
def canonicalCompanyKey (name : Str) : Str :=
  let normalized := P.casefold (P.nfkc name)
  let tokens := (normalized.splitOnP fun c => !isKeyChar c).filter (· ≠ [])
  [' '].intercalate (popSuffixes tokens.reverse).reverse

/-- The two indexes of the companies. -/
structure CompanyIndex where
  byCanonical : List (Str × List Str)
  exactNames : List (Str × Str)

/-- The first loop. -/
def indexCompany (index : CompanyIndex) (company : Str) : CompanyIndex :=
  let cleaned := P.strip company
  if cleaned = [] then index
  else
    let key := canonicalCompanyKey P cleaned
    { exactNames := Dict.set (P.casefold cleaned) cleaned index.exactNames
      byCanonical :=
        if key = [] then index.byCanonical
        else
          Dict.set key ((Dict.get? key index.byCanonical).getD [] ++ [cleaned])
            index.byCanonical }

def companyIndex (companies : List Str) : CompanyIndex :=
  companies.foldl (indexCompany P) ⟨[], []⟩

/-- The explicit aliases that are resolved first. -/
def explicitEntries (explicitAliases : Option (List (Str × Str))) : List (Str × Str) :=
  (explicitAliases.getD []).foldl (fun resolved item =>
    if P.strip item.1 ≠ [] ∧ P.strip item.2 ≠ [] then
      Dict.set (P.strip item.1) (P.strip item.2) resolved
    else resolved) []

/-- The only one of some candidates. -/
def onlyCandidate : List Str → Option Str
  | [company] => some company
  | _ => none

/-- The company of a legal name that is not resolved yet. -/
def CompanyIndex.company (index : CompanyIndex) (legal : Str) : Option Str :=
  (Dict.get? (P.casefold legal) index.exactNames).or
    (onlyCandidate ((Dict.get? (canonicalCompanyKey P legal) index.byCanonical).getD []))

/-- The body of the last loop. -/
def matchName (index : CompanyIndex) (resolved : List (Str × Str)) (rawName : Str) :
    List (Str × Str) :=
  let legal := P.strip rawName
  if legal = [] ∨ (Dict.get? legal resolved).isSome then resolved
  else
    match index.company P legal with
    | some company => Dict.set legal company resolved
    | none => resolved

/-- **`match_company_aliases`**. -/
def matchCompanyAliases (employerNames companies : List Str)
    (explicitAliases : Option (List (Str × Str))) : List (Str × Str) :=
  employerNames.foldl (matchName P (companyIndex P companies))
    (explicitEntries P explicitAliases)

/-! ## Claims -/

/-- The names of the companies, as they are indexed. -/
def cleanedNames (companies : List Str) : List Str := (companies.map P.strip).filter (· ≠ [])

/-- The companies with the case-folded name of an employer. -/
def exactClaims (companies : List Str) (legal : Str) : List Str :=
  (cleanedNames P companies).filter (P.casefold · = P.casefold legal)

/-- The companies with the canonical key of an employer. -/
def canonicalClaims (companies : List Str) (legal : Str) : List Str :=
  (cleanedNames P companies).filter fun company =>
    canonicalCompanyKey P company = canonicalCompanyKey P legal ∧
      canonicalCompanyKey P legal ≠ []

/-- The order of the names and of the companies does not matter. -/
def OrderFree (employerNames companies : List Str)
    (explicitAliases : Option (List (Str × Str))) : Prop :=
  ∀ employerNames' companies', employerNames.Perm employerNames' → companies.Perm companies' →
    ∀ legal, Dict.get? legal (matchCompanyAliases P employerNames' companies' explicitAliases) =
      Dict.get? legal (matchCompanyAliases P employerNames companies explicitAliases)

/-- An employer that no alias maps goes to the only company that could claim it. -/
def Unambiguous (employerNames companies : List Str)
    (explicitAliases : Option (List (Str × Str))) : Prop :=
  ∀ legal company,
    Dict.get? legal (matchCompanyAliases P employerNames companies explicitAliases) =
      some company →
    Dict.get? legal (explicitEntries P explicitAliases) = none →
    exactClaims P companies legal = [company] ∨
      exactClaims P companies legal = [] ∧ canonicalClaims P companies legal = [company]

variable {P} {employerNames companies companies' : List Str}
  {explicitAliases : Option (List (Str × Str))} {legal company : Str}

/-! ## The indexes -/

theorem cleanedNames_concat (companies : List Str) (company : Str) :
    cleanedNames P (companies ++ [company]) =
      cleanedNames P companies ++ if P.strip company = [] then [] else [P.strip company] := by
  unfold cleanedNames
  rw [List.map_append, List.filter_append]
  congr 1
  split_ifs with h <;> simp [h]

theorem indexCompany_blank {index : CompanyIndex} (h : P.strip company = []) :
    indexCompany P index company = index := if_pos h

theorem indexCompany_exact {index : CompanyIndex} (h : P.strip company ≠ []) :
    (indexCompany P index company).exactNames =
      Dict.set (P.casefold (P.strip company)) (P.strip company) index.exactNames := by
  rw [indexCompany, if_neg h]

theorem indexCompany_canonical {index : CompanyIndex} (h : P.strip company ≠ []) :
    (indexCompany P index company).byCanonical =
      if canonicalCompanyKey P (P.strip company) = [] then index.byCanonical
      else
        Dict.set (canonicalCompanyKey P (P.strip company))
          ((Dict.get? (canonicalCompanyKey P (P.strip company)) index.byCanonical).getD [] ++
            [P.strip company]) index.byCanonical := by
  rw [indexCompany, if_neg h]

theorem companyIndex_concat (companies : List Str) (company : Str) :
    companyIndex P (companies ++ [company]) =
      indexCompany P (companyIndex P companies) company := List.foldl_concat ..

/-- The last company with a case-folded name is taken. -/
theorem exactNames_eq (companies : List Str) (key : Str) :
    Dict.get? key (companyIndex P companies).exactNames =
      ((cleanedNames P companies).filter (P.casefold · = key)).getLast? := by
  induction companies using List.reverseRecOn with
  | nil => rfl
  | append_singleton companies company ih =>
    rw [companyIndex_concat, cleanedNames_concat]
    by_cases hcleaned : P.strip company = []
    · rw [indexCompany_blank hcleaned, if_pos hcleaned, List.append_nil, ih]
    rw [indexCompany_exact hcleaned, if_neg hcleaned, List.filter_append, Dict.get?_set, ih]
    by_cases hkey : P.casefold (P.strip company) = key
    · rw [if_pos hkey.symm, List.filter_cons_of_pos (by simpa using hkey), List.filter_nil,
        List.getLast?_concat]
    · rw [if_neg (Ne.symm hkey), List.filter_cons_of_neg (by simpa using hkey), List.filter_nil,
        List.append_nil]

/-- All companies with a canonical key are candidates. -/
theorem byCanonical_eq (companies : List Str) (key : Str) :
    (Dict.get? key (companyIndex P companies).byCanonical).getD [] =
      (cleanedNames P companies).filter fun company =>
        canonicalCompanyKey P company = key ∧ key ≠ [] := by
  induction companies using List.reverseRecOn with
  | nil => rfl
  | append_singleton companies company ih =>
    rw [companyIndex_concat, cleanedNames_concat]
    by_cases hcleaned : P.strip company = []
    · rw [indexCompany_blank hcleaned, if_pos hcleaned, List.append_nil, ih]
    rw [indexCompany_canonical hcleaned, if_neg hcleaned, List.filter_append, ← ih]
    by_cases hkey : canonicalCompanyKey P (P.strip company) = key
    · subst hkey
      by_cases hempty : canonicalCompanyKey P (P.strip company) = []
      · rw [if_pos hempty, List.filter_cons_of_neg (by simp [hempty]), List.filter_nil,
          List.append_nil]
      · rw [if_neg hempty, List.filter_cons_of_pos (by simp [hempty]), List.filter_nil,
          Dict.get?_set, if_pos rfl, Option.getD_some]
    · rw [List.filter_cons_of_neg (by simp [hkey]), List.filter_nil, List.append_nil]
      split_ifs
      · rfl
      · rw [Dict.get?_set, if_neg (Ne.symm hkey)]

/-- **The company of a legal name**, among those that claim it. -/
theorem company_eq (companies : List Str) (legal : Str) :
    (companyIndex P companies).company P legal =
      (exactClaims P companies legal).getLast?.or
        (onlyCandidate (canonicalClaims P companies legal)) := by
  rw [CompanyIndex.company, exactNames_eq, byCanonical_eq]
  rfl

/-! ## The mapping -/

/-- A name that is not resolved yet gets its company. -/
theorem matchName_get? (index : CompanyIndex) (resolved : List (Str × Str))
    (rawName legal : Str) :
    Dict.get? legal (matchName P index resolved rawName) =
      (Dict.get? legal resolved).or
        (if legal ≠ [] ∧ P.strip rawName = legal then index.company P legal else none) := by
  unfold matchName
  dsimp only
  by_cases hname : P.strip rawName = legal
  · subst hname
    by_cases hblank : P.strip rawName = []
    · rw [if_pos (.inl hblank), if_neg fun h => h.1 hblank, Option.or_none]
    rw [if_pos (show P.strip rawName ≠ [] ∧ P.strip rawName = P.strip rawName from
      ⟨hblank, rfl⟩)]
    cases hresolved : Dict.get? (P.strip rawName) resolved with
    | some company =>
      rw [if_pos (.inr rfl), hresolved]
      rfl
    | none =>
      rw [if_neg (by simpa using hblank), Option.none_or]
      cases index.company P (P.strip rawName) with
      | none => exact hresolved
      | some company => exact (Dict.get?_set ..).trans (if_pos rfl)
  · rw [if_neg (show ¬(legal ≠ [] ∧ P.strip rawName = legal) from fun h => hname h.2),
      Option.or_none]
    split_ifs
    · rfl
    · cases index.company P (P.strip rawName) with
      | none => rfl
      | some company => exact (Dict.get?_set ..).trans (if_neg (Ne.symm hname))

/-- **What is resolved**: the aliases first, then the names of employers. -/
theorem matchCompanyAliases_eq (employerNames companies : List Str)
    (explicitAliases : Option (List (Str × Str))) (legal : Str) :
    Dict.get? legal (matchCompanyAliases P employerNames companies explicitAliases) =
      (Dict.get? legal (explicitEntries P explicitAliases)).or
        (if legal ≠ [] ∧ legal ∈ employerNames.map P.strip then
          (companyIndex P companies).company P legal
        else none) := by
  unfold matchCompanyAliases
  induction employerNames using List.reverseRecOn with
  | nil => simp
  | append_singleton names rawName ih =>
    rw [List.foldl_concat, matchName_get?, ih, Option.or_assoc]
    congr 1
    have hmem : legal ∈ (names ++ [rawName]).map P.strip ↔
        legal ∈ names.map P.strip ∨ P.strip rawName = legal := by
      rw [List.map_append, List.mem_append, List.map_singleton, List.mem_singleton]
      exact or_congr_right eq_comm
    by_cases hblank : legal = []
    · simp [hblank]
    · by_cases hnames : legal ∈ names.map P.strip
      · rw [if_pos ⟨hblank, hnames⟩, if_pos (show legal ≠ [] ∧
          legal ∈ (names ++ [rawName]).map P.strip from ⟨hblank, hmem.mpr (.inl hnames)⟩)]
        split_ifs
        · exact Option.or_self
        · exact Option.or_none
      · rw [if_neg fun h => hnames h.2, Option.none_or]
        refine if_congr ?_ rfl rfl
        rw [hmem, or_iff_right hnames]

/-! ## Order -/

theorem exactClaims_perm (hcompanies : companies.Perm companies') (legal : Str) :
    (exactClaims P companies legal).Perm (exactClaims P companies' legal) :=
  ((hcompanies.map _).filter _).filter _

theorem canonicalClaims_perm (hcompanies : companies.Perm companies') (legal : Str) :
    (canonicalClaims P companies legal).Perm (canonicalClaims P companies' legal) :=
  ((hcompanies.map _).filter _).filter _

theorem onlyCandidate_eq_some {candidates : List Str} :
    onlyCandidate candidates = some company ↔ candidates = [company] := by
  constructor
  · intro h
    unfold onlyCandidate at h
    split at h
    · rw [Option.some.inj h]
    · cases h
  · rintro rfl
    rfl

/-- The company of a name that one company at most claims exactly, in any order. -/
theorem company_perm (hcompanies : companies.Perm companies')
    (hone : (exactClaims P companies legal).length ≤ 1) :
    (companyIndex P companies').company P legal = (companyIndex P companies).company P legal := by
  have hexact : exactClaims P companies' legal = exactClaims P companies legal := by
    have hperm : (exactClaims P companies legal).Perm (exactClaims P companies' legal) :=
      exactClaims_perm hcompanies legal
    cases hclaims : exactClaims P companies legal with
    | nil =>
      rw [hclaims] at hperm
      exact List.nil_perm.mp hperm
    | cons company rest =>
      rw [hclaims] at hone hperm
      obtain rfl : rest = [] := List.length_eq_zero_iff.mp (by simpa using hone)
      exact (List.singleton_perm.mp hperm).symm
  have hcanonical : onlyCandidate (canonicalClaims P companies' legal) =
      onlyCandidate (canonicalClaims P companies legal) := by
    have hperm : (canonicalClaims P companies legal).Perm (canonicalClaims P companies' legal) :=
      canonicalClaims_perm hcompanies legal
    refine Option.ext fun company => ?_
    rw [onlyCandidate_eq_some, onlyCandidate_eq_some]
    constructor
    · intro h
      rw [h] at hperm
      exact List.perm_singleton.mp hperm
    · intro h
      rw [h] at hperm
      exact (List.singleton_perm.mp hperm).symm
  rw [company_eq, company_eq, hexact, hcanonical]

/-- **Company matching**: it is order free and unambiguous exactly if no employer without an alias
has the case-folded name of two companies. -/
theorem matching_unambiguous_iff (P : Python) (employerNames companies : List Str)
    (explicitAliases : Option (List (Str × Str))) :
    OrderFree P employerNames companies explicitAliases ∧
        Unambiguous P employerNames companies explicitAliases ↔
      ∀ name ∈ employerNames, P.strip name ≠ [] →
        Dict.get? (P.strip name) (explicitEntries P explicitAliases) = none →
        (exactClaims P companies (P.strip name)).length ≤ 1 := by
  constructor
  · rintro ⟨-, hunambiguous⟩ name hname hblank halias
    by_contra hmany
    -- the last of several companies is taken
    obtain ⟨company, hlast⟩ : ∃ company,
        (exactClaims P companies (P.strip name)).getLast? = some company := by
      refine Option.isSome_iff_exists.mp (List.getLast?_isSome.mpr fun hnil => hmany ?_)
      rw [hnil]
      exact Nat.zero_le 1
    have hentry : Dict.get? (P.strip name)
        (matchCompanyAliases P employerNames companies explicitAliases) = some company := by
      rw [matchCompanyAliases_eq, halias, Option.none_or,
        if_pos ⟨hblank, List.mem_map_of_mem hname⟩, company_eq, hlast]
      rfl
    rcases hunambiguous _ _ hentry halias with hone | ⟨hnone, -⟩
    · exact hmany (by rw [hone]; exact le_rfl)
    · exact hmany (by rw [hnone]; exact Nat.zero_le 1)
  · intro hone
    refine ⟨fun employerNames' companies' hnames hcompanies legal => ?_,
      fun legal company hentry halias => ?_⟩
    · rw [matchCompanyAliases_eq, matchCompanyAliases_eq]
      have hmem : legal ∈ employerNames'.map P.strip ↔ legal ∈ employerNames.map P.strip :=
        (hnames.map P.strip).mem_iff.symm
      cases halias : Dict.get? legal (explicitEntries P explicitAliases) with
      | some target => rfl
      | none =>
        rw [Option.none_or, Option.none_or]
        by_cases hin : legal ≠ [] ∧ legal ∈ employerNames.map P.strip
        · rw [if_pos hin, if_pos ⟨hin.1, hmem.mpr hin.2⟩]
          obtain ⟨name, hname, rfl⟩ := List.mem_map.mp hin.2
          exact company_perm hcompanies (hone name hname hin.1 halias)
        · rw [if_neg hin, if_neg fun h => hin ⟨h.1, hmem.mp h.2⟩]
    · rw [matchCompanyAliases_eq, halias, Option.none_or] at hentry
      split_ifs at hentry with hin
      obtain ⟨name, hname, rfl⟩ := List.mem_map.mp hin.2
      have hclaims := hone name hname hin.1 halias
      rw [company_eq] at hentry
      cases hexact : exactClaims P companies (P.strip name) with
      | nil =>
        rw [hexact] at hentry
        exact .inr ⟨rfl, onlyCandidate_eq_some.mp hentry⟩
      | cons claim rest =>
        rw [hexact] at hclaims hentry
        obtain rfl : rest = [] := List.length_eq_zero_iff.mp (by simpa using hclaims)
        cases hentry
        exact .inl rfl

/-- Two companies whose names differ in case only. -/
theorem acme_twice :
    ¬∀ (P : Python) (employerNames companies : List Str)
      (explicitAliases : Option (List (Str × Str))), companies.Nodup →
      OrderFree P employerNames companies explicitAliases ∧
        Unambiguous P employerNames companies explicitAliases := by
  intro h
  have horder := (h .ascii ["acme".toList] ["Acme".toList, "ACME".toList] none (by decide)).1
  have hswapped := horder ["acme".toList] ["ACME".toList, "Acme".toList] (List.Perm.refl _)
    (List.Perm.swap _ _ _) "acme".toList
  revert hswapped
  decide +kernel

end JobPing
