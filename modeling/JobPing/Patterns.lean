import JobPing.Regex
import JobPing.Schema

/-!
# The patterns of the evidence rules

The regular expressions of `app/evidence/extract.py` and `app/services/job_details.py`, all of them
with `re.I`. Their letters are ASCII letters and `é`: `fold` is the case folding of `re` on the
characters that match these. What `\s`, `\d` and `\w` match is read from Python's tables.
-/

namespace JobPing

/-- What the patterns read from Python's Unicode tables. -/
structure CharTables extends Unicode where
  /-- The value of a decimal digit, `\d`. -/
  digit : Char → Option ℕ
  /-- `\w`. -/
  isWord : Char → Bool

/-- The names of the groups. -/
inductive PayGroup
  | period
  | us
  | currency
  | min
  | max
  deriving DecidableEq

abbrev Pattern := Regex Char PayGroup

/-- The case folding of `re` for the letters of the patterns: `İ` and `ı` match `i`, `ſ` matches
`s`, and the Kelvin sign matches `k`. -/
def fold (c : Char) : Char :=
  if c = 'İ' ∨ c = 'ı' then 'i'
  else if c = 'ſ' then 's'
  else if c = '\u212a' then 'k'
  else if c = 'É' then 'é'
  else c.toLower

namespace Pattern

/-! ## Building patterns -/

/-- A text, ignoring case. -/
def lit (s : String) : Pattern :=
  s.toList.foldr (fun c r => .seq (.set fun x => fold x = fold c) r) .empty

def seqs : List Pattern → Pattern := List.foldr .seq .empty

def alts : List Pattern → Pattern
  | [] => .set fun _ => false
  | [r] => r
  | r :: rest => .alt r (alts rest)

/-- One of some texts. -/
def anyOf (texts : List String) : Pattern := alts (texts.map lit)

def opt (r : Pattern) : Pattern := .many 0 (some 1) r

def star (r : Pattern) : Pattern := .many 0 none r

def plus (r : Pattern) : Pattern := .many 1 none r

def upto (n : ℕ) (r : Pattern) : Pattern := .many 0 (some n) r

/-- `[…]`. -/
def among (chars : String) : Pattern := .set fun c => chars.toList.contains c

/-- `[^…]`. -/
def noneOf (chars : String) : Pattern := .set fun c => !chars.toList.contains c

/-- `.`. -/
def dot : Pattern := noneOf "\n"

/-- `(?<!…)`. -/
def notAfter (text : String) : Pattern :=
  .notBehind (text.toList.reverse.map fun c x => fold x = fold c)

variable (T : CharTables)

/-- `\b`. -/
def b : Pattern := .boundary T.isWord

/-- `\s+` and `\s*`. -/
def spaces : Pattern := plus (.set T.isSpace)

def blanks : Pattern := star (.set T.isSpace)

/-- `\d`. -/
def digit : Pattern := .set fun c => (T.digit c).isSome

/-- `\b(?:…)\b`. -/
def wholeWords (texts : List String) : Pattern := seqs [b T, anyOf texts, b T]

/-! ## Sentences and clauses -/

/-- `[^\n;.!?]+(?:[.!?]|$)`. -/
def sentence : Pattern :=
  .seq (plus (noneOf "\n;.!?")) (.alt (among ".!?") (.finish fun c => c = '\n'))

/-- `,?\s+\b(?:but|however|although|though|while|whereas)\b\s+`. -/
def contrast : Pattern :=
  seqs [opt (lit ","), spaces T,
    wholeWords T ["but", "however", "although", "though", "while", "whereas"], spaces T]

/-- `_CLAUSE`. -/
def clause : Pattern := plus (.seq (.ahead false (contrast T)) (.set fun _ => true))

/-- `[\n;]|(?<=[.!])\s+`, or a word of contrast: where a statement ends. -/
def statementEnd : Pattern :=
  alts [among "\n;", .seq (.behind fun c => c = '.' || c = '!') (spaces T), contrast T]

/-- `please select|choose an option|if yes|not applicable`. -/
def formChoice : Pattern :=
  anyOf ["please select", "choose an option", "if yes", "not applicable"]

/-- `\bthis (?:role|position)|\bwe (?:do not|cannot|will not|offer|provide|accept)`. -/
def assertion : Pattern := alts
  [seqs [b T, lit "this ", anyOf ["role", "position"]],
    seqs [b T, lit "we ", anyOf ["do not", "cannot", "will not", "offer", "provide", "accept"]]]

/-- `\b(?:if|unless|except|depending|subject to|may|might|case.by.case)\b`. -/
def condition : Pattern := seqs [b T,
  alts [anyOf ["if", "unless", "except", "depending", "subject to", "may", "might"],
    seqs [lit "case", dot, lit "by", dot, lit "case"]], b T]

/-! ## Policies -/

/-- `H[- ]?1B`. -/
def h1b : Pattern := seqs [lit "H", opt (among "- "), lit "1B"]

/-- `(?:visa |immigration |work |employment |H[- ]?1B )?`. -/
def sponsorshipKind : Pattern :=
  opt (alts [anyOf ["visa ", "immigration ", "work ", "employment "], .seq h1b (lit " ")])

/-- `_TERMS`. -/
def term : PolicyKind → Pattern
  | .cpt => .alt (wholeWords T ["CPT"]) (lit "curricular practical training")
  | .opt => .alt (seqs [notAfter "STEM ", notAfter "STEM-", wholeWords T ["OPT"]])
      (.seq (notAfter "STEM ") (lit "optional practical training"))
  | .stemOpt => .alt (seqs [b T, lit "STEM", among "- ", lit "OPT", b T])
      (lit "STEM optional practical training")
  | .sponsorship => .alt (seqs [b T, sponsorshipKind, lit "sponsorship", b T])
      (seqs [b T, lit "sponsor", opt (anyOf ["ing", "ed"]), b T,
        .ahead true (seqs [upto 35 (noneOf ".;"), b T,
          alts [anyOf ["visa", "visas"], h1b, anyOf ["work", "immigration", "employment"],
            seqs [lit "candidate", opt (lit "s")], seqs [lit "applicant", opt (lit "s")],
            seqs [lit "student", opt (lit "s")], anyOf ["status", "role", "position"]], b T])])
  | .futureSponsorship => .set fun _ => false

def refusals : List String :=
  ["do not", "does not", "did not", "will not", "won't", "cannot", "can't", "unable to",
    "not able to"]

/-- `(?:currently\s+|presently\s+|be able to\s+)?`. -/
def presently : Pattern :=
  opt (alts [.seq (lit "currently") (spaces T), .seq (lit "presently") (spaces T),
    .seq (lit "be able to") (spaces T)])

/-- `negative` of `_policy_value`. -/
def negative (topic : Pattern) : Pattern := alts
  [seqs [b T, anyOf refusals, spaces T, presently T,
      anyOf ["accept", "support", "hire", "offer", "provide", "consider", "extend", "sponsor"], b T,
      upto 70 (noneOf ".;"), topic],
    seqs [b T, anyOf refusals, spaces T, presently T, topic],
    seqs [b T, anyOf ["must not", "do not", "does not", "cannot", "can't", "will not"], spaces T,
      opt (.seq (lit "currently") (spaces T)), anyOf ["require", "need"], b T,
      upto 50 (noneOf ".;"), topic],
    seqs [b T, lit "without", spaces T,
      opt (alts [.seq (lit "requiring") (spaces T), .seq (lit "needing") (spaces T),
        .seq (lit "current or future") (spaces T), .seq (lit "employer") (spaces T)]), topic],
    seqs [b T, lit "not", spaces T, opt (.seq (lit "currently") (spaces T)),
      anyOf ["eligible", "available", "offered", "provided", "supported", "accepted", "permitted"],
      spaces T, lit "for", b T, upto 40 (noneOf ".;"), topic],
    seqs [b T, lit "no", spaces T, opt (.seq (lit "current or future") (spaces T)),
      sponsorshipKind, topic],
    seqs [topic, upto 40 (noneOf ".;"), b T,
      opt (alts [.seq (lit "is") (spaces T), .seq (lit "are") (spaces T),
        seqs [lit "will", spaces T, lit "be", spaces T]]),
      anyOf ["not accepted", "not eligible", "not available", "not supported", "not offered",
        "not provided", "ineligible", "unavailable", "not permitted"], b T],
    seqs [b T, anyOf ["require", "requiring", "need", "needing"], b T, upto 30 (noneOf ".;"),
      topic, spaces T, anyOf ["are", "is", "will be"], spaces T,
      anyOf ["not eligible", "ineligible", "not considered"], b T]]

/-- `positive` of `_policy_value`. -/
def positive (topic : Pattern) : Pattern := alts
  [seqs [b T, anyOf ["accept", "accepts", "welcome", "support", "supports", "offer", "offers",
      "provide", "provides"], b T, upto 60 (noneOf ".;"), topic],
    seqs [topic, upto 35 (noneOf ".;"), b T,
      anyOf ["welcome", "eligible", "accepted", "available", "supported", "permitted"], b T],
    seqs [b T, anyOf ["can", "will"], spaces T, opt (.seq (lit "currently") (spaces T)), topic]]

/-- `_CONDITIONAL`. -/
def conditional : Pattern := seqs [b T,
  alts [anyOf ["may", "might"], seqs [lit "case", dot, lit "by", dot, lit "case"],
    anyOf ["consider", "depending", "subject to"]], b T]

/-- The two forms of a statement on future sponsorship. -/
def future : Pattern := .alt
  (seqs [b T, lit "future", spaces T, opt (.seq (lit "visa") (spaces T)), lit "sponsorship", b T])
  (seqs [b T, lit "sponsorship", spaces T,
    upto 14 (.seq (anyOf ["is", "will", "be", "not", "available", "provided", "offered",
      "supported", "now", "or", "and", "currently", "either", "both"]) (spaces T)),
    lit "in", spaces T, opt (.seq (lit "the") (spaces T)), lit "future", b T])

/-- `\bfuture\b|now or (?:in the )?future`. -/
def futureWord : Pattern :=
  .alt (wholeWords T ["future"]) (seqs [lit "now or ", opt (lit "in the "), lit "future"])

/-- `\bnow\b|\bcurrently\b|\bat any time\b`. -/
def current : Pattern :=
  alts [wholeWords T ["now"], wholeWords T ["currently"], wholeWords T ["at any time"]]

/-- `U\.?S\.?`. -/
def us : Pattern := seqs [lit "U", opt (lit "."), lit "S", opt (lit ".")]

/-- The pattern of `citizenship_required`. -/
def citizenship : Pattern :=
  seqs [b T, alts [lit "must be", .seq (lit "require") (opt (lit "s")), lit "only",
      lit "restricted to"], spaces T, opt (.seq (lit "a") (spaces T)),
    alts [us, lit "United States"], spaces T, .seq (lit "citizen") (opt (lit "s")), b T]

/-- The pattern of `permanent_authorization_required`. -/
def permanentAuthorization : Pattern :=
  seqs [b T, alts [lit "must have", .seq (lit "require") (opt (lit "s")), lit "only"], spaces T,
    anyOf ["unrestricted", "permanent"], spaces T, opt (.seq us (spaces T)),
    lit "work authorization", b T]

/-! ## Locations -/

def stateNames : List String :=
  ["Alabama", "Alaska", "Arizona", "Arkansas", "California", "Colorado", "Connecticut", "Delaware",
    "Florida", "Georgia", "Hawaii", "Idaho", "Illinois", "Indiana", "Iowa", "Kansas", "Kentucky",
    "Louisiana", "Maine", "Maryland", "Massachusetts", "Michigan", "Minnesota", "Mississippi",
    "Missouri", "Montana", "Nebraska", "Nevada", "New Hampshire", "New Jersey", "New Mexico",
    "New York", "North Carolina", "North Dakota", "Ohio", "Oklahoma", "Oregon", "Pennsylvania",
    "Rhode Island", "South Carolina", "South Dakota", "Tennessee", "Texas", "Utah", "Vermont",
    "Virginia", "Washington", "West Virginia", "Wisconsin", "Wyoming", "District of Columbia"]

def metros : List String :=
  ["San Francisco", "South San Francisco", "SF Bay Area", "Bay Area", "Silicon Valley",
    "Mountain View", "Palo Alto", "Sunnyvale", "Santa Clara", "Cupertino", "Menlo Park",
    "Redwood City", "San Jose", "Seattle", "Bellevue", "Redmond", "New York City", "NYC"]

/-- `US_STATES`. -/
def stateCodes : List String :=
  ["AL", "AK", "AZ", "AR", "CA", "CO", "CT", "DE", "FL", "GA", "HI", "ID", "IL", "IN", "IA", "KS",
    "KY", "LA", "ME", "MD", "MA", "MI", "MN", "MS", "MO", "MT", "NE", "NV", "NH", "NJ", "NM", "NY",
    "NC", "ND", "OH", "OK", "OR", "PA", "RI", "SC", "SD", "TN", "TX", "UT", "VT", "VA", "WA", "WV",
    "WI", "WY", "DC"]

/-- `_US`. -/
def usPlace : Pattern := .alt
  (seqs [b T, alts [lit "USA", us, lit "United States", anyOf stateNames, anyOf metros], b T])
  (seqs [lit ",", blanks T, anyOf stateCodes, b T])

/-- `_FOREIGN`. -/
def foreignPlace : Pattern := .alt
  (seqs [b T, alts [anyOf ["Canada", "Canadian", "Toronto", "Vancouver", "Montreal"],
      seqs [lit "Montr", .alt (lit "e") (lit "é"), lit "al"],
      anyOf ["Ottawa", "Waterloo", "Calgary", "Ontario", "Quebec"],
      seqs [lit "Qu", .alt (lit "e") (lit "é"), lit "bec"],
      anyOf ["British Columbia", "Alberta", "UK", "United Kingdom", "England", "Scotland",
        "London", "Cambridge", "Oxford", "Edinburgh", "Ireland", "Dublin", "Germany", "Berlin",
        "Munich", "France", "Paris", "Netherlands", "Amsterdam", "Poland", "Warsaw", "Serbia",
        "Belgrade", "Denmark", "Aarhus", "Copenhagen", "Sweden", "Stockholm", "Switzerland",
        "Zurich", "Spain", "Madrid", "Barcelona", "Italy", "Milan", "Rome", "Tbilisi", "India",
        "Bengaluru", "Bangalore", "Hyderabad", "Mumbai", "Pune", "Delhi", "Gurgaon", "Chennai",
        "Australia", "Sydney", "Melbourne", "Singapore", "Mexico", "China", "Beijing", "Shanghai",
        "Japan", "Tokyo", "Korea", "Seoul", "Brazil", "Israel", "Tel Aviv", "Taiwan", "Taipei"]],
    b T])
  (seqs [lit ",", blanks T, anyOf ["BC", "ON", "QC", "AB"], b T])

/-! ## Pay -/

def currency : Pattern := anyOf ["USD", "CAD", "EUR", "GBP", "US$", "CA$", "$", "€", "£"]

/-- `\d[\d,]*(?:\.\d{1,2})?k?`. -/
def amount : Pattern :=
  seqs [digit T, star (.set fun c => (T.digit c).isSome || c = ','),
    opt (.seq (lit ".") (.many 1 (some 2) (digit T))), opt (lit "k")]

/-- `[-–—]|to`. -/
def through : Pattern := .alt (among "-–—") (lit "to")

/-- `_PAY`. -/
def pay : Pattern :=
  seqs [.group .currency currency, blanks T, .group .min (amount T), blanks T,
    opt (seqs [through, blanks T, opt currency, blanks T, .group .max (amount T), blanks T]),
    opt (alts [lit "/", .seq (lit "per") (spaces T),
      seqs [lit "a", opt (lit "n"), spaces T]]),
    .group .period (alts [.seq (lit "hour") (opt (lit "ly")), lit "hr", lit "year", lit "annum",
      .seq (lit "annual") (opt (lit "ly")), lit "month", lit "week"]), b T]

/-- `_PREFIX_PAY`. -/
def prefixPay : Pattern :=
  seqs [.group .period (anyOf ["annual", "yearly", "hourly", "monthly", "weekly"]), spaces T,
    opt (.group .us (.seq (lit "US") (spaces T))), lit "base", spaces T,
    anyOf ["salary", "pay", "wage", "rate"], opt (.seq (spaces T) (lit "range")),
    upto 70 (noneOf "\n.;$€£"), .group .currency currency, blanks T, .group .min (amount T),
    blanks T, opt (seqs [through, blanks T, opt currency, blanks T, .group .max (amount T)])]

/-- `market estimate|estimated market|third.party|industry average`. -/
def marketEstimate : Pattern :=
  alts [lit "market estimate", lit "estimated market", seqs [lit "third", dot, lit "party"],
    lit "industry average"]

/-- `estimate|third.party|industry average`. -/
def estimate : Pattern :=
  alts [lit "estimate", seqs [lit "third", dot, lit "party"], lit "industry average"]

/-- `on.target earnings`. -/
def onTarget : Pattern := seqs [lit "on", dot, lit "target earnings"]

/-- `sales|account executive|business development`. -/
def salesTitle : Pattern := anyOf ["sales", "account executive", "business development"]

/-- `\b(?:account executive|sales|business development|bdr|sdr|solutions? consultant)\b`. -/
def salesRole : Pattern := seqs [b T,
  alts [anyOf ["account executive", "sales", "business development", "bdr", "sdr"],
    seqs [lit "solution", opt (lit "s"), lit " consultant"]], b T]

/-- `\b(?:bonus|equity|stock|stipend|total compensation|OTE)\b`. -/
def otherPay : Pattern :=
  wholeWords T ["bonus", "equity", "stock", "stipend", "total compensation", "OTE"]

/-- `total compensation|OTE`. -/
def totalPay : Pattern := anyOf ["total compensation", "OTE"]

/-- `\b(?:base|salary|hourly pay|pay rate|wage|hourly rate)\b`. -/
def basePay : Pattern :=
  wholeWords T ["base", "salary", "hourly pay", "pay rate", "wage", "hourly rate"]

/-- `\b(?:up to|maximum)\b` and `\b(?:from|starting at|at least|minimum)\b`. -/
def upperBound : Pattern := wholeWords T ["up to", "maximum"]

def lowerBound : Pattern := wholeWords T ["from", "starting at", "at least", "minimum"]

/-- `(?:bachelors?|masters?|phd|intern(?:ship)?)`, the levels of a pay title. -/
def degree : List Pattern :=
  [.seq (lit "bachelor") (opt (lit "s")), .seq (lit "master") (opt (lit "s")), lit "phd"]

/-- The unit of a period: the word followed by what it is the pay of. -/
def unitOf (word : String) : Pattern :=
  seqs [b T, lit word, spaces T,
    star (.seq (alts (lit "base" :: degree ++ [.seq (lit "intern") (opt (lit "ship"))])) (spaces T)),
    anyOf ["salary", "pay", "rate", "wage"], b T]

/-- `\b(?:ote|on[- ]target|commission|variable|total target|incentive)\b`. -/
def targetPay : Pattern := seqs [b T,
  alts [lit "ote", seqs [lit "on", among "- ", lit "target"],
    anyOf ["commission", "variable", "total target", "incentive"]], b T]

/-- `\bbase\b`. -/
def base : Pattern := wholeWords T ["base"]

/-- `[\s:,-]*`. -/
def separators : Pattern := star (.set fun c => T.isSpace c || ":,-".toList.contains c)

/-- A title that says nothing about the place. -/
def genericLabel : Pattern :=
  plus (seqs [separators T,
    plus (alts ([anyOf ["annual", "hourly", "monthly", "weekly", "local", "base", "salary", "pay",
        "wage", "rate", "range", "internship", "intern"]] ++ degree ++
      [anyOf ["new grad", "graduate", "entry level", "compensation"]])), separators T])

end Pattern

end JobPing
