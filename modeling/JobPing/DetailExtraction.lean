import JobPing.EvidenceFacts
import JobPing.Ingestion
import JobPing.Patterns
import Mathlib.Data.Nat.Log

/-!
# Extraction of advertised job facts

`extract_job_details` of `app/services/job_details.py`: the policies that the lines of a description
state, the markers of a table row, and the ranges of pay. The libraries around it are parameters:
Python's parsers of HTML and JSON, and the conversions of pydantic.
-/

namespace JobPing

/-- The exceptions that the program tells apart. -/
inductive Raised
  | validationError
  | valueError
  | invalidOperation
  | typeError
  | keyError
  | other
  deriving DecidableEq

/-- What the extraction calls outside the repository. -/
structure Libraries extends CharTables where
  lower : Str → Str
  upper : Str → Str
  /-- `html.unescape`. -/
  unescape : Str → Str
  /-- Its exception, where a reference is a number of too many digits. -/
  unescapeError : Str → Option Raised := fun _ => none
  /-- What `HTMLParser` reports of a text that is fed to it, and then closed. -/
  htmlEvents : Bool → Str → Except Raised (List HtmlEvent)
  /-- `json.loads`. -/
  loads : Str → Except Raised Json
  /-- `str(value)` of a value that is no text. -/
  shown : Json → Except Raised Str
  /-- `Decimal(text)`, when it is finite and not negative. -/
  decimal : Str → Option Decimal
  /-- The number pydantic reads from a value, when it is finite and not negative. -/
  toDecimal : Json → Option Decimal
  /-- `str(HttpUrl(·))`; `none` is the `ValidationError`. -/
  httpUrl : Str → Option Str
  /-- Blanks around a URL do not make it valid. -/
  httpUrl_strip : ∀ {url}, (httpUrl url).isSome → (httpUrl (toUnicode.strip url)).isSome

/-! ## Decimals -/

namespace Decimal

/-- Rounded to the 28 digits of the context, halves to even. -/
def rounded (d : Decimal) : Decimal :=
  if d.coefficient < 10 ^ 28 then d
  else
    let excess := Nat.log 10 d.coefficient + 1 - 28
    let quotient := d.coefficient / 10 ^ excess
    let rest := 2 * (d.coefficient % 10 ^ excess)
    let up := 10 ^ excess < rest ∨ (rest = 10 ^ excess ∧ quotient % 2 = 1)
    ⟨if up then quotient + 1 else quotient, d.exponent + excess⟩

/-- `d * n`. -/
def times (d : Decimal) (n : ℕ) : Decimal := rounded ⟨d.coefficient * n, d.exponent⟩

/-- `d / 100`: no more decimals than it takes. -/
def hundredth (d : Decimal) : Decimal :=
  rounded (if 100 ∣ d.coefficient then ⟨d.coefficient / 100, d.exponent⟩
    else if 10 ∣ d.coefficient then ⟨d.coefficient / 10, d.exponent - 1⟩
    else ⟨d.coefficient, d.exponent - 2⟩)

end Decimal

variable (L : Libraries)

/-- The number of decimal digits. -/
def digitsValue (T : CharTables) (digits : Str) : Option ℕ :=
  digits.foldlM (fun n c => (T.digit c).map (10 * n + ·)) 0

/-- `Decimal(text)` of digits, with or without a point among them. -/
def parseDecimal (T : CharTables) (text : Str) : Option Decimal :=
  let whole := text.takeWhile (· ≠ '.')
  let fraction := (text.dropWhile (· ≠ '.')).tail
  if whole = [] then none
  else (digitsValue T (whole ++ fraction)).map fun n => ⟨n, -fraction.length⟩

/-- `_amount`: an amount is made of digits, commas, a point and a `k`. -/
def amountValue (T : CharTables) (value : Str) : Except Raised Decimal :=
  let folded := value.map fold
  let thousands := folded.getLast? = some 'k'
  let digits := (if thousands then folded.dropLast else folded).filter (· ≠ ',')
  match parseDecimal T digits with
  | none => .error .invalidOperation
  | some d => .ok (d.times (if thousands then 1000 else 1))

/-! ## Text -/

/-- `text or ""`, and `str(value)`. -/
def Json.text (value : Json) : Except Raised Str :=
  match value with
  | .str text => .ok text
  | value => L.shown value

/-- `d.get(key, default)` as a text. -/
def Entries.text (d : Entries) (key : String) (default : Str) : Except Raised Str :=
  ((d.lookup key.toList).getD (.str default)).text L

/-- A field that takes texts only. -/
def Json.asStr : Json → Option Str
  | .str text => some text
  | _ => none

/-- What ends a line for `str.splitlines`. -/
def lineEnds : List Char :=
  ['\n', '\r', '\x0b', '\x0c', '\x1c', '\x1d', '\x1e', '\u0085', '\u2028', '\u2029']

/-- `str.splitlines`, with the line before the text in reverse. -/
def splitlinesFrom (line : Str) : Str → List Str
  | [] => if line = [] then [] else [line.reverse]
  | '\r' :: '\n' :: rest => line.reverse :: splitlinesFrom [] rest
  | c :: rest =>
    if c ∈ lineEnds then line.reverse :: splitlinesFrom [] rest
    else splitlinesFrom (c :: line) rest

/-- `str.splitlines`. -/
def splitlines (text : Str) : List Str := splitlinesFrom [] text

/-- `text.find(sub)`, without the `-1`. -/
def strFind (sub : Str) : Str → Option ℕ
  | [] => if sub = [] then some 0 else none
  | c :: text => if sub.isPrefixOf (c :: text) then some 0 else (strFind sub text).map (· + 1)

/-- The `parts` of `_Text`, and how many scripts and styles are open. -/
structure VisibleText where
  parts : Str
  hidden : ℕ

/-- The handlers of `_Text`. -/
def VisibleText.handle (t : VisibleText) : HtmlEvent → VisibleText
  | .start tag _ _ =>
    { parts := if tag ∈ ["p", "br", "li", "div"].map String.toList then t.parts ++ ['\n'] else t.parts
      hidden := if tag ∈ ["script", "style"].map String.toList then t.hidden + 1 else t.hidden }
  | .stop tag =>
    { parts := if tag ∈ ["p", "li", "div"].map String.toList then t.parts ++ ['\n'] else t.parts
      hidden := if tag ∈ ["script", "style"].map String.toList then t.hidden - 1 else t.hidden }
  | .data text => if t.hidden = 0 then { t with parts := t.parts ++ text } else t

/-- `plain_description`. -/
def plainDescription (value : Json) : Except Raised Str :=
  match value with
  | .str text =>
    let value := text.take 200000
    match L.unescapeError value with
    | some error => .error error
    | none => (L.htmlEvents false (L.unescape value)).map fun events =>
      (events.foldl VisibleText.handle ⟨[], 0⟩).parts
  | _ => .ok []

/-- `us_location`. -/
def inUs (value : Option Str) : Bool :=
  (Pattern.usPlace L.toCharTables).search (value.getD []) &&
    !(Pattern.foreignPlace L.toCharTables).search (value.getD [])

/-- `_location`. -/
def RawLocation.joined : RawLocation → Option Str
  | .list values => some (("; ".toList.intercalate values).take 500)
  | .text value => some value
  | .missing => none

/-- `_interval`. -/
def payInterval (value : Str) : PayInterval :=
  let word := L.lower value
  if word ∈ ["hour", "hourly", "hr"].map String.toList then .hour
  else if word ∈ ["year", "yearly", "annual", "annually", "annum"].map String.toList then .year
  else if word = "month".toList then .month
  else if word = "week".toList then .week
  else .unknown

/-! ## Validation -/

/-- `Evidence(...)`. -/
def makeEvidence (source : Str) (sourceUrl : Option Str) (excerpt : Str) (observedAt : Time) :
    Except Raised Evidence :=
  match sourceUrl.bind L.httpUrl with
  | some url =>
    if fits 1 100 source && fits 1 1500 excerpt then .ok ⟨source, url, excerpt, observedAt⟩
    else .error .validationError
  | none => .error .validationError

/-- The arguments of `CompensationRange(...)`; a field of a wrong type is `none`. -/
structure PayFields where
  minimum : Option (Option Decimal)
  maximum : Option (Option Decimal)
  currency : Option Str
  interval : Option PayInterval
  location : Option (Option Str)
  component : Option PayComponent

/-- `ge=0, le=100_000_000`. -/
def Decimal.inBounds (d : Decimal) : Bool := d.value ≤ 100000000

/-- `^[A-Z]{3}$`. -/
def isCurrency (currency : Str) : Bool :=
  currency.length = 3 && currency.all fun c => 'A' ≤ c && c ≤ 'Z'

/-- The bounds are in order. -/
def inOrder (minimum maximum : Option Decimal) : Bool :=
  minimum.all fun low => maximum.all fun high => low.value ≤ high.value

/-- The checks of `CompensationRange`. -/
def PayFields.pay (fields : PayFields) (evidence : Evidence) : Option Pay := do
  let minimum ← fields.minimum
  let maximum ← fields.maximum
  let currency ← fields.currency
  let interval ← fields.interval
  let location ← fields.location
  let component ← fields.component
  if h : minimum ≠ none ∨ maximum ≠ none then
    if minimum.all Decimal.inBounds && maximum.all Decimal.inBounds && isCurrency currency &&
        location.all (fits 0 500) && inOrder minimum maximum then
      some ⟨evidence, minimum, maximum, currency, interval, location, component, h⟩
    else none
  else none

/-- `CompensationRange(...)`. -/
def PayFields.validate (fields : PayFields) (evidence : Except Raised Evidence) :
    Except Raised Pay := do
  match fields.pay (← evidence) with
  | some pay => .ok pay
  | none => .error .validationError

/-- `try: ranges.append(...)`, passing over the exceptions that are caught. -/
def caught (errors : List Raised) (range : Except Raised Pay) : Except Raised (Option Pay) :=
  match range with
  | .ok pay => .ok (some pay)
  | .error error => if error ∈ errors then .ok none else .error error

/-- A bound that pydantic reads from a value. -/
def Json.bound (value : Json) : Option (Option Decimal) :=
  match value with
  | .null => some none
  | value => (L.toDecimal value).map some

/-- A text, or `None`. -/
def Json.optionalStr : Json → Option (Option Str)
  | .null => some none
  | .str text => some (some text)
  | _ => none

/-! ## Policies -/

/-- `_policy_value`. -/
def policyValue (key : PolicyKind) (line : Str) : PolicyValue :=
  let T := L.toCharTables
  let topic := Pattern.term T key
  if (Pattern.negative T topic).search line then .denied
  else if (Pattern.positive T topic).search line then
    if (Pattern.conditional T).search line then .conditional else .allowed
  else .unknown

namespace RawJobPayload

variable (now : Time) (raw : RawJobPayload)

/-- The text that facts are extracted from. -/
def description : Except Raised Str :=
  let lever := (raw.payload.facts.get "raw").entries
  let lists := (lever.get "lists").elements.filter Json.isDict
  let pieces := [raw.payload.facts.get "content", raw.payload.facts.get "description",
      (lever.get "descriptionPlain").orElse (lever.get "description"),
      (lever.get "additionalPlain").orElse (lever.get "additional"),
      lever.get "salaryDescriptionPlain"] ++
    lists.map fun item => item.entries.get "content"
  (pieces.mapM (plainDescription L)).map ['\n'].intercalate

/-- `Evidence(**evidence, excerpt=excerpt)`. -/
def evidence (excerpt : Str) : Except Raised Evidence :=
  makeEvidence L raw.source raw.applyUrl excerpt (raw.observedAt.getD now)

/-- What the lines of the text state about a key. -/
def keyStatements (text : Str) (key : PolicyKind) : Except Raised (List (PolicyValue × Evidence)) :=
  let T := L.toCharTables
  let lines := ((Pattern.statementEnd T).split text).map fun line => (L.squeeze line).take 1500
  let stating := lines.filter fun line =>
    line ≠ [] && !line.contains '?' && (Pattern.term T key).search line &&
      policyValue L key line ≠ .unknown
  stating.mapM fun line => (raw.evidence L now line).map (policyValue L key line, ·)

/-- The policies that the text states. -/
def textPolicies (text : Str) : Except Raised (PolicyKind → Option PolicyFact) := do
  let found ← terms.mapM fun key => (raw.keyStatements L now text key).map (key, foundPolicy ·)
  let policies key := (found.lookup key).join
  -- future sponsorship is separate from acceptance of current work authorization
  let future := ((policies .sponsorship).elim [] (·.evidence)).filter fun item =>
    (Pattern.futureWord L.toCharTables).search item.excerpt
  if future = [] then pure policies
  else pure (Function.update policies .futureSponsorship
    (foundPolicy (future.map fun item => (policyValue L .sponsorship item.excerpt, item))))

/-- Denied by a marker of the row. -/
def marked (policies : PolicyKind → Option PolicyFact) (keys : List PolicyKind) (excerpt : String) :
    Except Raised (PolicyKind → Option PolicyFact) :=
  (raw.evidence L now excerpt.toList).map fun item key =>
    if key ∈ keys then foundPolicy [(.denied, item)] else policies key

/-- The sources whose rows have markers. -/
def markerSources : List Str := ["github_markdown".toList, "simplify".toList]

/-- The policies, with those of the markers: `🛂` for no sponsorship, `🇺🇸` for citizenship. -/
def policies (text : Str) : Except Raised (PolicyKind → Option PolicyFact) := do
  let stated ← raw.textPolicies L now text
  let row ← raw.payload.facts.text L "raw_row" []
  let marks := decide (raw.source ∈ markerSources)
  let sponsored ← (if marks && row.contains '🛂' then
      raw.marked L now stated [.sponsorship] "Simplify marker 🛂: does not offer sponsorship"
    else pure stated)
  if marks && (strFind "🇺🇸".toList row).isSome then
    raw.marked L now sponsored [.cpt, .opt, .stemOpt] "Simplify marker 🇺🇸: requires U.S. citizenship"
  else pure sponsored

end RawJobPayload

/-! ## Pay -/

/-- The currency of a symbol; that of `$` depends on the place. -/
def currencyOf (symbol : Str) : Str :=
  let upper := symbol.map fun c => (fold c).toUpper
  if upper = ['€'] then "EUR".toList
  else if upper = ['£'] then "GBP".toList
  else if upper = "US$".toList then "USD".toList
  else if upper = "CA$".toList then "CAD".toList
  else upper

/-- The periods that a text names a unit of pay for. -/
def statedPeriods (unitText : Str) : List PayInterval :=
  [("hourly", .hour), ("annual", .year), ("monthly", .month), ("weekly", .week)].filterMap
    fun (word, period) =>
      if (Pattern.unitOf L.toCharTables word).search unitText then some period else none

/-- `_cents`; `none` is a number that is refused. -/
def cents (value : Json) : Except Raised (Option (Option Decimal)) :=
  match value with
  | .null => .ok (some none)
  | value => (value.text L).map fun text => (L.decimal text).map fun d => some d.hundredth

/-- The details that are found, with the amounts as they are written. -/
structure FoundDetails where
  policies : PolicyKind → Option PolicyFact
  compensation : List Pay
  bounded : compensation.length ≤ 20

/-- The details of a job. -/
def FoundDetails.details (found : FoundDetails) : JobDetails where
  policies := found.policies
  compensation := found.compensation.map Pay.range
  bounded := by
    rw [List.length_map]
    exact found.bounded

namespace RawJobPayload

variable (now : Time) (raw : RawJobPayload)

/-- The `salaryRange` of a Lever posting. -/
def salaryRange (structured : Entries) : Except Raised (Option Pay) :=
  caught [.validationError] do
    let excerpt ← L.shown (.dict structured)
    let currency ← structured.text L "currency" []
    let interval ← (structured.get "interval").text L
    let fields : PayFields :=
      { minimum := (structured.get "min").bound L
        maximum := (structured.get "max").bound L
        currency := some (L.upper currency)
        interval := some (payInterval L interval)
        location := some raw.location.joined
        component := some .unspecified }
    fields.validate (raw.evidence L now (excerpt.take 1500))

/-- The range of the salary, if there is one. -/
def salary (lever : Entries) : Except Raised (Option Pay) :=
  match lever.get "salaryRange" with
  | .dict structured => raw.salaryRange L now structured
  | _ => .ok none

/-- One of the `pay_input_ranges` of Greenhouse. Its amounts are cents, and only the words of its
title and blurb give a period. -/
def inputRange (item : Entries) : Except Raised (Option Pay) := do
  let label ← ((item.get "title").orElse (.str [])).text L
  let blurb ← plainDescription L (item.get "blurb")
  let period : PayInterval :=
    match statedPeriods L (label ++ ['\n'] ++ blurb) with
    | [period] => period
    | _ => .unknown
  let generic := (Pattern.genericLabel L.toCharTables).fullmatch label
  caught [.validationError, .invalidOperation, .typeError] do
    let excerpt ← L.shown (.dict item)
    let minimum ← cents L (item.get "min_cents")
    let maximum ← cents L (item.get "max_cents")
    let fields : PayFields :=
      { minimum := minimum
        maximum := maximum
        currency := (item.get "currency_type").asStr
        interval := some period
        location := if generic then some raw.location.joined else (item.get "title").optionalStr
        component := some (if period ≠ .unknown then .base else .unspecified) }
    fields.validate (raw.evidence L now (excerpt.take 1500))

/-- A range that a line of the text states. -/
def statedRange (line : Str) (m : Regex.Match Char PayGroup) : Except Raised (Option Pay) :=
  let currency := currencyOf ((m.group .currency).getD [])
  if currency = ['$'] && !inUs L raw.location.joined then .ok none
  else caught [.validationError] do
    let low := (m.group .min).getD []
    let minimum ← amountValue L.toCharTables low
    let maximum ← amountValue L.toCharTables ((m.group .max).getD low)
    let base := (Pattern.base L.toCharTables).search line
    let fields : PayFields :=
      { minimum := some (some minimum)
        maximum := some (some maximum)
        currency := some (if currency = ['$'] then "USD".toList else currency)
        interval := some (payInterval L ((m.group .period).getD []))
        location := some raw.location.joined
        component := some (if base then .base else .unspecified) }
    fields.validate (raw.evidence L now ((L.squeeze line).take 1500))

/-- The ranges of a line, unless it shows what others estimate. -/
def linePay (line : Str) : Except Raised (List Pay) :=
  if Pattern.marketEstimate.search line then .ok []
  else (((Pattern.pay L.toCharTables).finditer line).mapM (raw.statedRange L now line)).map
    List.reduceOption

/-- The ranges that were posted as such, or else those of the text. -/
def compensation (text : Str) : Except Raised (List Pay) := do
  let salary ← raw.salary L now (raw.payload.facts.get "raw").entries
  let items := (raw.payload.facts.get "pay_input_ranges").elements.filter Json.isDict
  let ranges ← items.mapM fun item => raw.inputRange L now item.entries
  let posted := (salary :: ranges).reduceOption
  if posted ≠ [] then pure posted
  else ((splitlines text).mapM (raw.linePay L now)).map List.flatten

/-- The sources whose descriptions are the employer's own. -/
def employerSources : List Str :=
  ["greenhouse", "lever", "workday", "meta", "amazon"].map String.toList

end RawJobPayload

/-- **`extract_job_details`**. -/
def extractJobDetails (now : Time) (raw : RawJobPayload) :
    Except Raised (Option FoundDetails) := do
  let text ← raw.description L
  let policies ← raw.policies L now text
  let stated := decide (∃ key, (policies key).isSome)
  -- an aggregator cannot establish that pay was posted by the employer
  if raw.source ∉ RawJobPayload.employerSources then
    pure (if stated then some ⟨policies, [], by decide⟩ else none)
  else
    let pay ← raw.compensation L now text
    pure (if stated || pay ≠ [] then
      some ⟨policies, pay.take 20, List.length_take_le 20 _⟩ else none)

end JobPing
