import JobPing.Schema
import Mathlib.Data.Char
import Mathlib.Data.List.Lex
import Mathlib.Data.List.Sort

/-!
# Facts of the employer's documents

`extract` and `reconcile` of `app/evidence/extract.py` and `projection` of
`app/evidence/screening.py`. What the regular expressions find in a text is a parameter (`TextRules`);
the spans of the quotes, which only a view shows, are left out.
-/

namespace JobPing

/-! ## Documents -/

/-- A `Decimal` that is not negative. Its text shows the exponent: numbers that are equal may be
written differently. -/
structure Decimal where
  coefficient : ℕ
  exponent : ℤ
  deriving DecidableEq

def Decimal.value (d : Decimal) : ℚ :=
  mkRat (d.coefficient * 10 ^ d.exponent.toNat) (10 ^ (-d.exponent).toNat)

/-- A range of pay, as `CompensationRange` dumps it. -/
structure Pay extends Evidence where
  minimum : Option Decimal
  maximum : Option Decimal
  currency : Str
  interval : PayInterval
  location : Option Str
  component : PayComponent
  some_bound : minimum ≠ none ∨ maximum ≠ none
  deriving DecidableEq

inductive DocumentKind
  | posting
  | application
  | companyPolicy
  deriving DecidableEq

/-- What a check is about; rows from before titles were compared have none. -/
structure Target where
  url : Str
  location : Str
  company : Str
  title : Option Str
  identity : Option Identity
  deriving DecidableEq

structure Document where
  sourceUrl : Str
  finalUrl : Str
  kind : DocumentKind
  text : Str
  observedAt : Time
  roleIdentity : Target
  complete : Bool
  structuredPay : List Pay
  location : Option Str
  source : Str

/-! ## Facts -/

inductive RestrictionKind
  | citizenshipRequired
  | permanentAuthorizationRequired
  deriving DecidableEq

def RestrictionKind.all : List RestrictionKind :=
  [.citizenshipRequired, .permanentAuthorizationRequired]

inductive RestrictionValue
  | required
  | conditional
  | conflicting
  deriving DecidableEq

structure Restriction where
  value : RestrictionValue
  evidence : List Evidence
  deriving DecidableEq

/-- The quoted assertions of a document. -/
structure Facts where
  policies : PolicyKind → Option PolicyFact
  compensation : List Pay
  restrictions : RestrictionKind → Option Restriction

def Facts.empty : Facts := ⟨fun _ => none, [], fun _ => none⟩

/-- A clause of a sentence: the text its patterns are looked for in, and the quote. -/
structure Clause where
  line : Str
  excerpt : Str

/-- What the regular expressions find. -/
structure TextRules where
  /-- The clauses of the sentences that are no questions and no choices of a form. -/
  clauses : Str → List Clause
  /-- `_TERMS`. -/
  mentions : PolicyKind → Str → Bool
  /-- `_policy_value`. -/
  policyValue : PolicyKind → Str → PolicyValue
  isConditional : Str → Bool
  isFuture : Str → Bool
  isCurrent : Str → Bool
  restricts : RestrictionKind → Str → Bool
  /-- The validated ranges of `structured_pay` whose excerpts the text has. -/
  structuredRanges : Document → List Pay
  /-- The validated ranges of the text, with the bounds and components its words give. -/
  textRanges : Document → List Pay
  /-- `_US` and `_FOREIGN`. -/
  us : Str → Bool
  foreign : Str → Bool

variable (rules : TextRules)

/-! ## `extract` -/

/-- The keys of `_TERMS`. -/
def terms : List PolicyKind := [.cpt, .opt, .stemOpt, .sponsorship]

def Document.evidence (document : Document) (clause : Clause) : Evidence where
  source := document.source
  sourceUrl := document.finalUrl
  excerpt := clause.excerpt
  observedAt := document.observedAt

/-- What a clause states about the term of a key. -/
def policyStatements (document : Document) (clause : Clause) (key : PolicyKind) :
    List (PolicyKind × PolicyValue × Evidence) :=
  let evidence := document.evidence clause
  let found := rules.policyValue key clause.line
  let value := if rules.isConditional clause.line && found ≠ .unknown then .conditional else found
  if !rules.mentions key clause.line || value = .unknown then []
  else if key = .sponsorship && rules.isFuture clause.line then
    (.futureSponsorship, value, evidence) ::
      -- a future-only restriction does not deny current support
      if rules.isCurrent clause.line then [(key, value, evidence)] else []
  else [(key, value, evidence)]

/-- The policy of its statements. -/
def foundPolicy : List (PolicyValue × Evidence) → Option PolicyFact
  | [] => none
  | first :: rest => some {
      value := if rest.all (·.1 = first.1) then first.1 else .conflicting
      evidence := ((first :: rest).take 10).map (·.2)
      bounded := by
        rw [List.length_map, List.length_take]
        exact Nat.min_le_left _ _
      supported_value := fun _ => by simp }

/-- `_merge_restriction`. -/
def mergeRestriction (previous : Option Restriction) (current : Restriction) : Restriction :=
  match previous with
  | none => current
  | some previous => {
      value := if previous.value = current.value then previous.value else .conflicting
      evidence := (previous.evidence ++ current.evidence).take 10 }

/-- The restriction that clauses state, the later ones merged into the first. -/
def mergeRestrictions (found : List Restriction) : Option Restriction :=
  found.foldl (fun previous current => some (mergeRestriction previous current)) none

def clauseRestriction (document : Document) (key : RestrictionKind) (clause : Clause) :
    Option Restriction :=
  if rules.restricts key clause.line then
    some ⟨if rules.isConditional clause.line then .conditional else .required,
      [document.evidence clause]⟩
  else none

/-- The amounts, the unit and the scope of a range. -/
def Pay.key (pay : Pay) :
    Option ℚ × Option ℚ × Str × PayInterval × PayComponent × Option Str :=
  (pay.minimum.map Decimal.value, pay.maximum.map Decimal.value, pay.currency, pay.interval,
    pay.component, pay.location)

/-- The first range of each key. -/
def uniqueRanges (ranges : List Pay) : List Pay :=
  ranges.foldl (fun unique pay =>
    if unique.any fun other => other.key = pay.key then unique else unique ++ [pay]) []

/-- **`extract`**: a linked company policy is no assertion about the role. -/
def extract (document : Document) : Facts :=
  if document.kind = .companyPolicy then .empty
  else
    let clauses := rules.clauses document.text
    let statements := clauses.flatMap fun clause =>
      terms.flatMap (policyStatements rules document clause)
    { policies := fun key => foundPolicy ((statements.filter (·.1 = key)).map (·.2))
      compensation :=
        (uniqueRanges (rules.structuredRanges document ++ rules.textRanges document)).take 20
      restrictions := fun key =>
        mergeRestrictions (clauses.filterMap (clauseRestriction rules document key)) }

/-! ## `reconcile` -/

/-- A policy of one more document. -/
def mergePolicy (previous : Option PolicyFact) (fact : PolicyFact) : PolicyFact :=
  match previous with
  | none => fact
  | some previous => {
      value := if previous.value = fact.value then previous.value else .conflicting
      evidence := (previous.evidence ++ fact.evidence).take 10
      bounded := by
        rw [List.length_take]
        exact Nat.min_le_left _ _
      supported_value := fun h => by
        have hsome : previous.evidence ++ fact.evidence ≠ [] := fun hnil => by
          obtain ⟨hprevious, hfact⟩ := List.append_eq_nil_iff.mp hnil
          have hunknown := not_imp_comm.mp previous.supported_value (not_not.mpr hprevious)
          have hunknown' := not_imp_comm.mp fact.supported_value (not_not.mpr hfact)
          rw [hunknown, hunknown', if_pos rfl] at h
          exact h rfl
        rw [← List.length_pos_iff] at hsome ⊢
        rw [List.length_take]
        omega }

/-- The facts of a document merged into those of the documents before it. -/
def mergeFacts (merged facts : Facts) : Facts where
  policies key := ((facts.policies key).map (mergePolicy (merged.policies key))).or
    (merged.policies key)
  compensation := merged.compensation ++ facts.compensation
  restrictions key := ((facts.restrictions key).map
    (mergeRestriction (merged.restrictions key))).or (merged.restrictions key)

/-- Two ranges of one scope with different bounds, as they are written. -/
def Pay.contradicts (left right : Pay) : Bool :=
  (left.currency = right.currency && left.interval = right.interval &&
    left.component = right.component && left.location = right.location) &&
  (left.minimum, left.maximum) ≠ (right.minimum, right.maximum)

def payConflict : List Pay → Bool
  | [] => false
  | left :: rest => rest.any left.contradicts || payConflict rest

/-- The facts of the current documents of a role. -/
structure RoleFacts extends Facts where
  payConflicting : Bool
  bounded : compensation.length ≤ 20

/-- **`reconcile`**. -/
def reconcile (documents : List (Document × Facts)) : RoleFacts :=
  let current := (documents.insertionSort (·.1.sourceUrl ≤ ·.1.sourceUrl)).filter fun pair =>
    pair.1.complete && pair.1.kind ≠ .companyPolicy
  let merged := (current.map (·.2)).foldl mergeFacts .empty
  { merged with
    compensation := merged.compensation.take 20
    payConflicting := payConflict merged.compensation
    bounded := List.length_take_le 20 _ }

/-! ## `projection` -/

def usLocation (value : Option Str) : Bool :=
  rules.us (value.getD []) && !rules.foreign (value.getD [])

variable (U : Unicode)

def locationKey (value : Option Str) : Str := U.squeeze (U.casefold (value.getD []))

structure ScreenedPay extends Pay where
  us : Bool
  locationKey : Str
  deriving DecidableEq

/-- The `projection` column. -/
structure Projection where
  policies : PolicyKind → Option PolicyFact
  compensation : List ScreenedPay
  restrictions : RestrictionKind → Option Restriction
  payConflicting : Bool
  extractionVersion : Str
  usRole : Bool
  locationKey : Str
  bounded : compensation.length ≤ 20

/-- `VERSION`. -/
def extractorVersion : Str := "rules-1".toList

/-- **`projection`**. -/
def projection (facts : RoleFacts) (location : Str) : Projection where
  policies := facts.policies
  compensation := facts.compensation.map fun pay =>
    { pay with us := usLocation rules pay.location, locationKey := locationKey U pay.location }
  restrictions := facts.restrictions
  payConflicting := facts.payConflicting
  extractionVersion := extractorVersion
  usRole := usLocation rules (some location)
  locationKey := locationKey U (some location)
  bounded := by
    rw [List.length_map]
    exact facts.bounded

/-- The range of pay that the details of a job have. -/
def Pay.range (pay : Pay) : CompensationRange where
  toEvidence := pay.toEvidence
  minimum := pay.minimum.map Decimal.value
  maximum := pay.maximum.map Decimal.value
  currency := pay.currency
  interval := pay.interval
  location := pay.location
  component := pay.component
  some_bound := by simpa using pay.some_bound

/-- The details of a job: the projection without what only screening reads. -/
def Projection.details (data : Projection) : JobDetails where
  policies := data.policies
  compensation := data.compensation.map fun pay => pay.range
  bounded := by
    rw [List.length_map]
    exact data.bounded

/-- The documents with their facts. -/
def extracted (documents : List Document) : List (Document × Facts) :=
  documents.map fun document => (document, extract rules document)

/-- The statuses of a check. -/
inductive CheckStatus
  | queued
  | running
  | complete
  | partial_
  | failed
  | blocked
  deriving DecidableEq

end JobPing
