import JobPing.DetailExtraction

/-!
# Extraction of evidence from pages

`extract` of `app/evidence/extract.py` on the text of a page: the sentences and clauses its patterns
find, the spans of the quotes, and the ranges of pay of its text and of its structured data. What the
clauses state is computed by the rules of `EvidenceFacts`, over these patterns (`pageRules`).
-/

namespace JobPing

/-- A document as it is collected: its structured pay is not validated yet. -/
structure Page where
  sourceUrl : Str
  finalUrl : Str
  finalUrl_le : finalUrl.length ≤ 2048
  kind : DocumentKind
  text : Str
  observedAt : Time
  roleIdentity : Target
  complete : Bool
  structuredPay : List Entries
  location : Option Str
  source : Str

/-- A quote, with its place in the text. -/
inductive SpanField
  | policy (key : PolicyKind)
  | restriction (kind : RestrictionKind)
  | compensation
  deriving DecidableEq

structure Span where
  start : ℕ
  stop : ℕ
  field : SpanField
  quote : Str
  deriving DecidableEq

variable (L : Libraries)

/-! ## Sentences and clauses -/

/-- `re.sub(r"U\.S\.", "US  ", text)`: the points end no sentence. -/
def hidePoints : Str → Str
  | 'U' :: '.' :: 'S' :: '.' :: rest => 'U' :: 'S' :: ' ' :: ' ' :: hidePoints rest
  | c :: rest => c :: hidePoints rest
  | [] => []

/-- `text[start:stop]`. -/
def slice (text : Str) (start stop : ℕ) : Str := (text.drop start).take (stop - start)

/-- The line around a position. -/
def lineAround (text : Str) (start stop : ℕ) : Str :=
  ((text.take start).reverse.takeWhile (· ≠ '\n')).reverse ++ slice text start stop ++
    (text.drop stop).takeWhile (· ≠ '\n')

/-- The line offers choices of a form or asks a question, and asserts nothing. -/
def skipped (context : Str) : Bool :=
  (Pattern.formChoice.search context ||
      "Question:".toList.isPrefixOf (context.dropWhile L.isSpace)) &&
    !(Pattern.assertion L.toCharTables).search context

/-- What is read of a sentence or clause; not what is empty or ends in a question mark. -/
def stated (text : Str) : Bool := text ≠ [] && text.getLast? ≠ some '?'

/-- The sentences of the scanned text whose clauses are read. -/
def examinedSentence (scan : Str) (sentence : Regex.Match Char PayGroup) : Bool :=
  let whole := L.strip sentence.text
  !skipped L (lineAround scan sentence.start sentence.start) && stated whole &&
    whole.length ≤ 1500

/-- A clause with its place: the line its patterns are looked for in, and the original text. -/
structure PageClause where
  start : ℕ
  stop : ℕ
  line : Str
  original : Str

/-- The clauses of a sentence. -/
def sentenceClauses (text : Str) (sentence : Regex.Match Char PayGroup) : List PageClause :=
  ((Pattern.clause L.toCharTables).finditer sentence.text).filterMap fun clause =>
    let start := sentence.start + clause.start
    let stop := sentence.start + clause.stop
    let line := L.strip clause.text
    if stated line then some ⟨start, stop, line, slice text start stop⟩ else none

/-- The clauses of a page. -/
def pageClauses (text : Str) : List PageClause :=
  let scan := hidePoints text
  ((Pattern.sentence.finditer scan).filter (examinedSentence L scan)).flatMap
    (sentenceClauses L text)

/-- The quote of a clause. -/
def PageClause.quoted (clause : PageClause) : Clause := ⟨clause.line, L.strip clause.original⟩

/-- The rules of the patterns, with ranges of pay that are read separately. -/
def pageRules (structuredPay textPay : List Pay) : TextRules where
  clauses text := (pageClauses L text).map (PageClause.quoted L)
  mentions key line := (Pattern.term L.toCharTables key).search line
  policyValue := policyValue L
  isConditional line := (Pattern.condition L.toCharTables).search line
  isFuture line := (Pattern.future L.toCharTables).search line
  isCurrent line := (Pattern.current L.toCharTables).search line
  restricts
    | .citizenshipRequired, line => (Pattern.citizenship L.toCharTables).search line
    | .permanentAuthorizationRequired, line =>
      (Pattern.permanentAuthorization L.toCharTables).search line
  structuredRanges _ := structuredPay
  textRanges _ := textPay
  us text := (Pattern.usPlace L.toCharTables).search text
  foreign text := (Pattern.foreignPlace L.toCharTables).search text

namespace Page

variable (page : Page)

/-- `Evidence(...)` for a quote. -/
def evidence (excerpt : Str) : Except Raised Evidence :=
  makeEvidence L page.source (some page.finalUrl) excerpt page.observedAt

/-- The page as a document whose URL and ranges of pay are validated. -/
def document (structuredPay : List Pay) : Document where
  sourceUrl := page.sourceUrl
  finalUrl := (L.httpUrl page.finalUrl).getD page.finalUrl
  kind := page.kind
  text := page.text
  observedAt := page.observedAt
  roleIdentity := page.roleIdentity
  complete := page.complete
  structuredPay := structuredPay
  location := page.location
  source := page.source

/-- What a clause states of the role: the fields it gives evidence for. -/
def clauseFields (clause : PageClause) : List SpanField :=
  let rules := pageRules L [] []
  let document := page.document L []
  (terms.flatMap (policyStatements rules document (clause.quoted L))).map (.policy ·.1) ++
    (RestrictionKind.all.filter fun kind => rules.restricts kind clause.line).map .restriction

/-- The spans of a clause. -/
def clauseSpans (clause : PageClause) : List Span :=
  (page.clauseFields L clause).map fun field =>
    ⟨clause.start, clause.stop, field, clause.original⟩

/-- The facts and spans of the clauses, without pay. The evidence of every clause is validated,
whether or not it states anything. -/
def findings : Except Raised (Facts × List Span) :=
  if page.kind = .companyPolicy then .ok (.empty, [])
  else do
    let clauses := pageClauses L page.text
    let _ ← clauses.mapM fun clause => page.evidence L (L.strip clause.original)
    pure (extract (pageRules L [] []) (page.document L []), clauses.flatMap (page.clauseSpans L))

/-! ## Pay of the text -/

/-- The page as a record of its employer. -/
def raw : RawJobPayload where
  source := "greenhouse".toList
  sourceId := none
  company := none
  title := none
  applyUrl := some (L.strip page.finalUrl)
  location := page.location.elim .missing fun location => .text (L.strip location)
  jobType := none
  isClosed := .missing
  observedAt := some page.observedAt
  payload := ⟨none, none, .empty, [("content".toList, .str page.text)]⟩

/-- The title of the role. -/
def title : Str := page.roleIdentity.title.getD []

/-- The period of a match of `_PREFIX_PAY`. -/
def prefixPeriod (period : Str) : Except Raised PayInterval :=
  let word := period.map fold
  if word = "annual".toList ∨ word = "yearly".toList then .ok .year
  else if word = "hourly".toList then .ok .hour
  else if word = "monthly".toList then .ok .month
  else if word = "weekly".toList then .ok .week
  else .error .keyError

/-- Pay that is on target earnings is no base pay, in a sales role or one without a title. -/
def prefixComponent (paragraph : Str) : PayComponent :=
  let onTarget := (strFind "OTE".toList paragraph).isSome || Pattern.onTarget.search paragraph
  if onTarget && (page.title = [] || Pattern.salesTitle.search page.title) then .unspecified
  else .base

/-- A range of `_PREFIX_PAY`, and whether its component is ambiguous. -/
def prefixRange (m : Regex.Match Char PayGroup) : Except Raised (Option (Pay × Bool)) :=
  let symbol := (m.group .currency).getD []
  let inUs := inUs L page.location
  let paragraph := lineAround page.text m.start m.stop
  if (symbol = ['$'] && !((m.group .us).isSome || inUs)) || Pattern.estimate.search paragraph then
    .ok none
  else
    let component := page.prefixComponent paragraph
    let range : Except Raised Pay := do
      let low := (m.group .min).getD []
      let minimum ← amountValue L.toCharTables low
      let maximum ← amountValue L.toCharTables ((m.group .max).getD low)
      let interval ← prefixPeriod ((m.group .period).getD [])
      let currency := currencyOf symbol
      let fields : PayFields :=
        { minimum := some (some minimum)
          maximum := some (some maximum)
          currency := some (if currency = ['$'] then "USD".toList else currency)
          interval := some interval
          location := some (if inUs then page.location
            else if (m.group .us).isSome then some "United States".toList else page.location)
          component := some component }
      fields.validate (page.evidence L (m.text.take 1500))
    (caught [.validationError] range).map
      (·.map fun pay => (pay, decide (component = .unspecified)))

/-- The component that the words of the excerpt give. -/
def wordedComponent (pay : Pay) : PayComponent :=
  if (Pattern.otherPay L.toCharTables).search pay.excerpt then
    if Pattern.totalPay.search pay.excerpt then .total else .unspecified
  else if (Pattern.basePay L.toCharTables).search pay.excerpt then .base
  else pay.component

/-- An amount that is an upper or a lower bound is no fixed one. -/
def wordedBounds (pay : Pay) : Pay :=
  if h : pay.minimum.map Decimal.value = pay.maximum.map Decimal.value then
    have hsome : pay.minimum ≠ none ∧ pay.maximum ≠ none := by
      have hbound := pay.some_bound
      cases hmin : pay.minimum <;> cases hmax : pay.maximum <;> simp [hmin, hmax] at h hbound ⊢
    if (Pattern.upperBound L.toCharTables).search pay.excerpt then
      { pay with minimum := none, some_bound := .inr hsome.2 }
    else if (Pattern.lowerBound L.toCharTables).search pay.excerpt then
      { pay with maximum := none, some_bound := .inl hsome.1 }
    else pay
  else pay

/-- A range of the text as the words around it qualify it. -/
def worded (range : Pay × Bool) : Pay :=
  if range.2 then range.1
  else
    { wordedBounds L range.1 with
      component := wordedComponent L range.1
      source := page.source }

/-- `text_pay`. -/
def textPay : Except Raised (List Pay) := do
  let parsed ← extractJobDetails L page.observedAt (page.raw L)
  let prefixed ← (Pattern.prefixPay L.toCharTables).finditer page.text |>.mapM (page.prefixRange L)
  let ranges := (parsed.elim [] (·.compensation)).map (·, false) ++ prefixed.reduceOption
  pure (ranges.map (page.worded L))

/-! ## Structured pay -/

def parseInterval : Json → Option PayInterval
  | .str text =>
    [("hour".toList, .hour), ("month".toList, .month), ("year".toList, .year),
      ("week".toList, .week), ("unknown".toList, .unknown)].lookup text
  | _ => none

def parseComponent : Json → Option PayComponent
  | .str text =>
    [("base".toList, .base), ("total".toList, .total),
      ("unspecified".toList, .unspecified)].lookup text
  | _ => none

/-- The unit, the component and the place of a range; `none` is refused. -/
structure PayScope where
  interval : Option PayInterval
  component : Option PayComponent
  location : Option (Option Str)

/-- `json.loads`; a text that is no JSON is no dictionary. -/
def rangeEntries (excerpt : Str) : Except Raised (Option Entries) :=
  match L.loads excerpt with
  | .ok (.dict range) => .ok (some range)
  | .ok _ => .ok none
  | .error .valueError => .ok none
  | .error error => .error error

/-- The scope of an excerpt whose title and blurb have the unit. -/
def labelledScope (scope : PayScope) (excerpt : Str) : Except Raised PayScope := do
  match ← rangeEntries L excerpt with
  | none => pure scope
  | some range =>
    let label ← ((range.get "title").orElse (.str [])).text L
    let blurb ← ((range.get "blurb").orElse (.str [])).text L
    let unitText := label ++ ['\n'] ++ blurb
    let sales := (Pattern.salesRole L.toCharTables).search page.title
    let onTarget := (Pattern.targetPay L.toCharTables).search unitText
    let base := (Pattern.base L.toCharTables).search unitText || !(sales && onTarget)
    let location :=
      if (Pattern.genericLabel L.toCharTables).fullmatch label then some page.location
      else scope.location
    match statedPeriods L unitText with
    | [period] =>
      pure ⟨some period, if base then some .base else scope.component, location⟩
    | _ => pure { scope with location := location }

/-- The scope an item of `structured_pay` gives. -/
def itemScope (item : Entries) (excerpt : Str) : Except Raised PayScope :=
  let location := item.get "location"
  let scope : PayScope :=
    { interval := parseInterval ((item.lookup "interval".toList).getD (.str "unknown".toList))
      component :=
        parseComponent ((item.lookup "component".toList).getD (.str "unspecified".toList))
      location := if location.truthy then location.optionalStr else some page.location }
  if scope.interval = some .unknown && excerpt.head? = some '{' &&
      (strFind "title".toList excerpt).isSome then
    page.labelledScope L scope excerpt
  else pure scope

/-- A range of `structured_pay`, with its span. -/
def structuredRange (item : Entries) : Except Raised (Option (Pay × Span)) :=
  match item.get "excerpt" with
  | .str excerpt =>
    match strFind excerpt page.text with
    | none => .ok none
    | some start =>
      if excerpt = [] then .ok none
      else do
        let scope ← page.itemScope L item excerpt
        let range ← caught [.validationError, .keyError, .invalidOperation] do
          let currency ← (item.lookup "currency".toList).elim (.error .keyError) .ok
          let fields : PayFields :=
            { minimum := (item.get "minimum").bound L
              maximum := (item.get "maximum").bound L
              currency := currency.asStr
              interval := scope.interval
              location := scope.location
              component := scope.component }
          fields.validate (page.evidence L excerpt)
        pure (range.map fun pay => (pay, ⟨start, start + excerpt.length, .compensation, excerpt⟩))
  | _ => .ok none

/-- The span of a range of the text, if the text has its excerpt. -/
def paySpan (pay : Pay) : Option Span :=
  (strFind pay.excerpt page.text).map fun start =>
    ⟨start, start + pay.excerpt.length, .compensation, pay.excerpt⟩

/-- **`extract`**. -/
def extract : Except Raised (Facts × List Span) := do
  if page.kind = .companyPolicy then pure (.empty, [])
  else
    let (_, spans) ← page.findings L
    let textPay ← page.textPay L
    let structured ← page.structuredPay.mapM (page.structuredRange L)
    let structuredPay := structured.reduceOption.map (·.1)
    pure (JobPing.extract (pageRules L structuredPay textPay) (page.document L structuredPay),
      spans ++ structured.reduceOption.map (·.2) ++ textPay.filterMap page.paySpan)

end Page

/-! ## A sample page -/

/-- The libraries on ASCII texts without tags and escapes, and on URLs in their normal form. -/
def Libraries.ascii : Libraries :=
  { Python.ascii with
    digit := fun c => if c.isDigit then some (c.toNat - 48) else none
    isWord := fun c => c.isAlphanum || c = '_'
    upper := fun s => s.map Char.toUpper
    unescape := fun s => s
    htmlEvents := fun _ text => .ok [.data text]
    loads := fun _ => .error .valueError
    shown := fun _ => .error .other
    decimal := fun _ => none
    toDecimal := fun _ => none
    httpUrl := some
    httpUrl_strip := fun _ => rfl }

theorem posting_url_le : "https://acme.example/jobs/1".toList.length ≤ 2048 := by decide

/-- A posting of a role in Austin. -/
def austinPage (sourceUrl : String) (text : String) (hurl : sourceUrl.toList.length ≤ 2048) :
    Page where
  sourceUrl := sourceUrl.toList
  finalUrl := sourceUrl.toList
  finalUrl_le := hurl
  kind := .posting
  text := text.toList
  observedAt := 0
  roleIdentity := ⟨sourceUrl.toList, "Austin, TX".toList, "Acme".toList, none, none⟩
  complete := true
  structuredPay := []
  location := some "Austin, TX".toList
  source := "greenhouse".toList

end JobPing
