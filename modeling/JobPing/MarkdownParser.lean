import JobPing.PageExtraction
import JobPing.RowCoalescing

/-!
# The table parser

`app/scrapers/markdown_parser.py`: a row of a Markdown or HTML table as a raw record, and the parser
that keeps the columns of the last HTML header row and the company of the last record. A lazy `.*?`
stops where what follows it first matches (`lazily`).
-/

namespace JobPing

variable (L : Libraries)

/-! ## Texts -/

/-- The text before and after the first `sub`. -/
def splitAt (sub text : Str) : Option (Str × Str) :=
  (strFind sub text).map fun i => (text.take i, text.drop (i + sub.length))

/-- `text.strip(chars)`. -/
def stripChars (chars : List Char) (text : Str) : Str :=
  ((text.dropWhile (chars.contains ·)).reverse.dropWhile (chars.contains ·)).reverse

/-- `text.replace("\\c", "c")`. -/
def unescapeChar (c : Char) : Str → Str
  | '\\' :: x :: text =>
    if x = c then c :: unescapeChar c text else '\\' :: unescapeChar c (x :: text)
  | x :: text => x :: unescapeChar c text
  | [] => []

/-- `html.escape(data, quote=False)`. -/
def htmlEscape (data : Str) : Str :=
  data.flatMap fun c =>
    if c = '&' then "&amp;".toList
    else if c = '<' then "&lt;".toList
    else if c = '>' then "&gt;".toList
    else [c]

/-! ## Patterns -/

/-- The group of an address in a tag. -/
inductive LinkGroup
  | url
  deriving DecidableEq

namespace Pattern

/-- `p*?` before what follows. -/
def lazily {γ : Type} (p : Char → Bool) (rest : Regex Char γ) : Regex Char γ :=
  .seq (.many 0 none (.seq (.ahead false rest) (.set p))) rest

variable (T : CharTables)

/-- `_SEPARATOR_CELL`. -/
def separatorCell : Pattern := seqs [opt (lit ":"), Regex.many 3 none (lit "-"), opt (lit ":")]

/-- `_HTML_TAG`. -/
def htmlTag : Pattern := seqs [lit "<", star (noneOf "<>"), lit ">"]

/-- `_TERM`. -/
def seasonTerm : Pattern :=
  seqs [b T, anyOf ["winter", "spring", "summer", "fall", "autumn"], spaces T, lit "20",
    Regex.many 2 (some 2) (digit T), b T]

/-- `_LOCATION_CELL_END`. -/
def locationCellEnd : Pattern := seqs [lit "</", anyOf ["td", "li"], blanks T, lit ">"]

/-- `_DETAILS_SUMMARY`. -/
def detailsSummary : Pattern :=
  seqs [lit "<summary", b T, star (noneOf ">"), lit ">",
    lazily (fun _ => true) (seqs [lit "</summary", blanks T, lit ">"])]

/-- `_IMAGE`. -/
def image : Pattern :=
  seqs [lit "![", star (noneOf "]\r\n"), lit "](", star (noneOf "\r\n)"), lit ")"]

/-- `_BARE_URL`. -/
def bareUrl : Pattern :=
  seqs [lit "http", opt (lit "s"), lit "://",
    plus (.set fun c => !T.isSpace c && !"<>\"'".toList.contains c)]

/-- A quote, an address and the quote: `(?P<quote>['"])(?P<url>https?://.*?)\1`. -/
def quotedUrl (quote : Char) : Regex Char LinkGroup :=
  let one (c : Char) : Regex Char LinkGroup := .set fun x => fold x = c
  .seq (one quote) <| .seq (.group .url <|
    .seq (one 'h') <| .seq (one 't') <| .seq (one 't') <| .seq (one 'p') <|
    .seq (.many 0 (some 1) (one 's')) <| .seq (one ':') <| .seq (one '/') <| .seq (one '/') <|
    .many 0 none (.set fun c => c ≠ quote && c ≠ '\n')) (one quote)

/-- `_HTML_HREF`. -/
def htmlHref : Regex Char LinkGroup :=
  let one (c : Char) : Regex Char LinkGroup := .set fun x => fold x = c
  let spaces : Regex Char LinkGroup := .many 0 none (.set T.isSpace)
  let word : Regex Char LinkGroup := .boundary T.isWord
  .seq (one '<') <| .seq (one 'a') <| .seq word <|
    lazily (fun c => c ≠ '<' && c ≠ '>') <|
    .seq word <| .seq (one 'h') <| .seq (one 'r') <| .seq (one 'e') <| .seq (one 'f') <|
    .seq spaces <| .seq (one '=') <| .seq spaces <| .alt (quotedUrl '\'') (quotedUrl '"')

/-- `_LOCK_ICON`. -/
def lockIcon : Pattern :=
  seqs [lit "🔒", opt (among "\ufe0e\ufe0f"), opt (lit "\ufe0f")]

/-- `_STRIKETHROUGH`. -/
def strikethrough : Pattern :=
  let visible (c : Char) : Bool := !T.isSpace c
  seqs [lit "~~", .ahead true (.set visible), star (noneOf "\r\n~"), .behind visible, lit "~~"]

/-- `_MARKDOWN_MARKUP`. -/
def markdownMarkup : Pattern := seqs [notAfter "\\", among "*_`"]

/-- `_STRIKE_MARKER`. -/
def strikeMarker : Pattern := lit "~~"

/-- `_BREAK_TAG`. -/
def breakTag : Pattern := seqs [lit "<", opt (lit "/"), lit "br", blanks T, opt (lit "/"), lit ">"]

/-- `_LOCATION_SEPARATOR`. -/
def locationSeparator : Pattern :=
  seqs [blanks T, alts [among "•·", plus (lit "\n")], blanks T]

/-- `(?:;\s*)+`. -/
def semicolons : Pattern := plus (seqs [lit ";", blanks T])

/-- `_CLOSED_STATUS`. -/
def closedStatus : Pattern :=
  let marks : Pattern := star (.set fun c => T.isSpace c || "*_`~".toList.contains c)
  seqs [marks, lit "closed", marks]

end Pattern

/-! ## Cells -/

/-- The fields of `_HTMLRowCells`. -/
structure HtmlRowCells where
  cells : List Str
  kinds : List Str
  depth : ℕ
  content : Str

/-- `tag in {"td", "th"}`. -/
def isCellTag (tag : Str) : Bool := tag ∈ ["td", "th"].map String.toList

/-- The handlers of `_HTMLRowCells`. -/
def HtmlRowCells.handle (row : HtmlRowCells) : HtmlEvent → HtmlRowCells
  | .start tag _ text =>
    if isCellTag tag then
      if row.depth = 0 then { row with content := [], kinds := row.kinds ++ [tag], depth := 1 }
      else { row with content := row.content ++ text, depth := row.depth + 1 }
    else if row.depth ≠ 0 then { row with content := row.content ++ text }
    else row
  | .stop tag =>
    let closing := "</".toList ++ tag ++ ">".toList
    if isCellTag tag && row.depth ≠ 0 then
      if row.depth = 1 then { row with cells := row.cells ++ [row.content], depth := 0 }
      else { row with content := row.content ++ closing, depth := row.depth - 1 }
    else if row.depth ≠ 0 then { row with content := row.content ++ closing }
    else row
  | .data data =>
    if row.depth ≠ 0 then { row with content := row.content ++ htmlEscape data } else row

/-- `_html_cells`. -/
def htmlCells (row : Str) : Except Raised HtmlRowCells :=
  (L.htmlEvents true row).map fun events => events.foldl HtmlRowCells.handle ⟨[], [], 0, []⟩

/-- What the loop of `_split_row` carries; the current cell is in reverse. -/
structure Splitting where
  cells : List Str
  current : Str
  escaped : Bool
  htmlQuote : Option Char
  inHtmlTag : Bool
  linkDepth : ℕ
  previous : Option Char

namespace Splitting

/-- What a character does to the tag or the link it stands in. -/
def enter (s : Splitting) (character : Char) : Splitting :=
  if s.inHtmlTag then
    match s.htmlQuote with
    | some quote => if character = quote && !s.escaped then { s with htmlQuote := none } else s
    | none =>
      if character = '"' || character = '\'' then { s with htmlQuote := some character }
      else if character = '>' then { s with inHtmlTag := false }
      else s
  else if character = '<' then { s with inHtmlTag := true }
  else if character = '(' && s.previous = some ']' && !s.escaped then { s with linkDepth := 1 }
  else if s.linkDepth ≠ 0 && character = '(' && !s.escaped then
    { s with linkDepth := s.linkDepth + 1 }
  else if s.linkDepth ≠ 0 && character = ')' && !s.escaped then
    { s with linkDepth := s.linkDepth - 1 }
  else s

/-- One round of the loop. -/
def add (s : Splitting) (character : Char) : Splitting :=
  let entered := s.enter character
  let ends := character = '|' && !s.escaped && !entered.inHtmlTag && entered.linkDepth = 0
  { entered with
    cells := if ends then s.cells ++ [L.strip s.current.reverse] else s.cells
    current := if ends then [] else character :: s.current
    escaped := character = '\\' && !s.escaped
    previous := some character }

end Splitting

/-- `_split_row`. -/
def splitRow (row : Str) : List Str :=
  let text := L.strip row
  if text.head? = some '|' then
    let s := text.tail.foldl (Splitting.add L) ⟨[], [], false, none, false, 0, none⟩
    let cells := if s.current = [] then s.cells else s.cells ++ [L.strip s.current.reverse]
    if cells.getLast? = some [] && text.getLast? = some '|' then cells.dropLast else cells
  else []

/-! ## Links -/

/-- `_balanced_url_end`: the address and what follows its parenthesis. -/
def balancedUrlEnd (previous : Char) (depth : ℕ) : Str → Option (Str × Str)
  | [] => none
  | c :: text =>
    if c = ')' && previous ≠ '\\' && depth = 0 then some ([], text)
    else
      let depth :=
        if c = '(' && previous ≠ '\\' then depth + 1
        else if c = ')' && previous ≠ '\\' then depth - 1
        else depth
      (balancedUrlEnd c depth text).map fun found => (c :: found.1, found.2)

/-- The loop of `_replace_links_with_labels`. -/
def replaceLinks : ℕ → Str → Str
  | 0, value => value
  | fuel + 1, value =>
    let found := do
      let (before, rest) ← splitAt "[".toList value
      let (label, rest) ← splitAt "](".toList rest
      let (_, rest) ← balancedUrlEnd '(' 0 rest
      return (before ++ label, rest)
    match found with
    | none => value
    | some (visible, rest) => visible ++ replaceLinks fuel rest

/-- `_replace_links_with_labels`. -/
def replaceLinksWithLabels (value : Str) : Str := replaceLinks value.length value

/-- The loop of `_extract_url` over Markdown links: `none` without a target, and `some none` when no
target is a URL. -/
def markdownTarget : ℕ → Str → Option (Option Str)
  | 0, _ => none
  | fuel + 1, value =>
    match splitAt "](".toList value with
    | none => none
    | some (_, rest) =>
      match balancedUrlEnd '(' 0 rest with
      | none => some none
      | some (target, rest) =>
        let candidate := L.strip target
        if "https://".toList.isPrefixOf (L.lower candidate) ||
            "http://".toList.isPrefixOf (L.lower candidate) then
          some (some (unescapeChar ')' candidate))
        else some (markdownTarget fuel rest).join

/-- The loop of `_trim_url_punctuation`, on a text in reverse. -/
def trimClosing : Str → Str
  | ')' :: value =>
    if value.count '(' < value.count ')' + 1 then trimClosing value else ')' :: value
  | value => value

/-- `_trim_url_punctuation`. -/
def trimUrlPunctuation (value : Str) : Str :=
  (trimClosing (value.reverse.dropWhile (".,;:!?".toList.contains ·))).reverse

/-- `_extract_url`. -/
def extractUrl (cell : Str) : Option Str :=
  let T := L.toCharTables
  let value := L.strip (L.unescape cell)
  match (Pattern.htmlHref T).first value with
  | some anchor => (anchor.group .url).map L.strip
  | none =>
    if (strFind "<a".toList (L.casefold value)).isSome then none
    else
      match markdownTarget L value.length value with
      | some target => target
      | none => ((Pattern.bareUrl T).first value).map fun m => trimUrlPunctuation m.text

/-! ## Texts of cells -/

/-- The text of a cell without its tags and links, which `_plain_text` unescapes. -/
def unlinkedText (cell : Str) (location : Bool) : Str :=
  let T := L.toCharTables
  let value :=
    if location then
      (Pattern.breakTag T).sub "; ".toList ((Pattern.locationCellEnd T).sub "; ".toList
        ((Pattern.detailsSummary T).sub [] cell))
    else cell
  Pattern.htmlTag.sub [] (replaceLinksWithLabels (Pattern.image.sub [] value))

/-- `_plain_text`. -/
def plainText (cell : Str) (location : Bool) : Str :=
  let T := L.toCharTables
  let value := L.unescape (unlinkedText L cell location)
  let value := if location then (Pattern.locationSeparator T).sub "; ".toList value else value
  let value := Pattern.markdownMarkup.sub [] (Pattern.strikeMarker.sub []
    (Pattern.lockIcon.sub [] value))
  let value := unescapeChar '_' (unescapeChar '*' (unescapeChar '|' value))
  let value := if location then (Pattern.semicolons T).sub "; ".toList value else value
  stripChars (if location then [' ', ';'] else [' ']) (L.squeeze value)

/-- The exception of `_plain_text`. -/
def plainTextError (cell : Str) (location : Bool) : Option Raised :=
  L.unescapeError (unlinkedText L cell location)

/-- `_without_url_targets`. -/
def withoutUrlTargets (cell : Str) : Str :=
  (Pattern.bareUrl L.toCharTables).sub [] (replaceLinksWithLabels (L.unescape cell))

/-- `_clean_status_artifacts`. -/
def cleanStatusArtifacts (value : Str) : Str :=
  if (Pattern.closedStatus L.toCharTables).fullmatch value then [] else value

/-- `_is_closed_status`. -/
def isClosedStatus (cell : Str) : Bool :=
  (Pattern.closedStatus L.toCharTables).fullmatch
    (L.strip (L.unescape (Pattern.htmlTag.sub [] cell)))

/-- The exception of `any(p(cell) for cell in cells)`, which evaluates no cell after the first that
has the property. -/
def anyError (raises : Str → Option Raised) (p : Str → Bool) : List Str → Option Raised
  | [] => none
  | cell :: cells => (raises cell).or (if p cell then none else anyError raises p cells)

/-- `_COMPANY_BADGE.sub("", ·)`. -/
def dropBadge (value : Str) : Str :=
  value.dropWhile fun c => L.isSpace c || "🔥⭐🆕".toList.contains c

/-! ## Columns -/

/-- The names of the columns. -/
inductive Column
  | company
  | title
  | location
  | applyUrl
  | date
  | extra
  deriving DecidableEq

/-- `_HEADER_ALIASES`. -/
def headerAliases : List (Column × List Str) :=
  [(.company, ["company", "employer"]), (.title, ["role", "title", "position", "job title"]),
    (.location, ["location", "locations"]),
    (.applyUrl, ["application", "application link", "apply", "link"]),
    (.date, ["date", "date posted", "posted", "posting date", "age"])].map
      fun entry => (entry.1, entry.2.map String.toList)

/-- `header_values`. -/
def headerValues : List Str := headerAliases.flatMap Prod.snd

/-- `_canonical_columns`; a cell beyond the columns is an extra one. -/
def canonicalColumns (headers : Option (List Str)) : List Column :=
  match headers with
  | none => [.company, .title, .location, .applyUrl, .date]
  | some headers =>
    headers.map fun header =>
      let normalized := L.casefold (plainText L header false)
      ((headerAliases.find? (·.2.contains normalized)).map Prod.fst).getD .extra

/-- `columns`, of which those without a cell are left out. -/
def columns (headers : Option (List Str)) (cells : List Str) : List Column :=
  if headers = none ∧ cells.length = 6 ∧
      (Pattern.seasonTerm L.toCharTables).search (plainText L (cells.getD 3 []) true) then
    [.company, .title, .location, .extra, .applyUrl, .date]
  else canonicalColumns L headers

/-- The exception of the names of the columns. -/
def columnsError (headers : Option (List Str)) (cells : List Str) : Option Raised :=
  match headers with
  | none => if cells.length = 6 then plainTextError L (cells.getD 3 []) true else none
  | some headers => headers.findSome? fun header => plainTextError L header false

/-- The cells of a row with the names of their columns. -/
structure MappedRow where
  cells : List Str
  columns : List Column

/-- `mapped.get(name)`: a later column of the name takes the place of an earlier one. -/
def MappedRow.get (row : MappedRow) (name : Column) : Option Str :=
  (((row.columns.zip row.cells).filter (·.1 = name)).getLast?).map Prod.snd

/-- `cells`. -/
def rowCells (row : Str) : Except Raised (List Str) := do
  let found ←
    if (strFind "<td".toList (L.casefold row)).isSome then (htmlCells L row).map (·.cells)
    else pure []
  return if found = [] then splitRow L row else found

/-- The mapped cells of a row; `none` for a row with less than four cells and for a separator. -/
def mappedRow (headers : Option (List Str)) (row : Str) : Except Raised (Option MappedRow) := do
  let cells ← rowCells L row
  if cells.length < 4 ∨ cells.all fun cell => Pattern.separatorCell.fullmatch (L.strip cell) then
    return none
  else
    match columnsError L headers cells with
    | some error => .error error
    | none => return some ⟨cells, columns L headers cells⟩

namespace MappedRow

variable (row : MappedRow)

/-- `company`. -/
def company : Str :=
  dropBadge L (cleanStatusArtifacts L (plainText L ((row.get .company).getD []) false))

/-- `title`. -/
def title : Str := cleanStatusArtifacts L (plainText L ((row.get .title).getD []) false)

/-- `location`. -/
def location : Str := cleanStatusArtifacts L (plainText L ((row.get .location).getD []) true)

/-- `date`. -/
def datePosted : Option Str :=
  let date := plainText L ((row.get .date).getD []) false
  if date = [] then none else some date

/-- `relevant`. -/
def relevant : List Str :=
  [Column.company, .title, .location, .applyUrl].map fun name => (row.get name).getD []

/-- `_LOCK_ICON.search(_without_url_targets(cell))`. -/
def isLocked (cell : Str) : Bool := Pattern.lockIcon.search (withoutUrlTargets L cell)

/-- `_STRIKETHROUGH.search(_without_url_targets(cell))`. -/
def isStruck (cell : Str) : Bool :=
  (Pattern.strikethrough L.toCharTables).search (withoutUrlTargets L cell)

/-- `_is_closed_row`. -/
def isClosed : Bool :=
  row.cells.any (isLocked L) || row.relevant.any (isStruck L) || row.cells.any (isClosedStatus L)

/-- The exception of `_is_closed_row`. -/
def isClosedError : Option Raised :=
  (anyError L.unescapeError (isLocked L) row.cells).or <|
    if row.cells.any (isLocked L) then none
    else (anyError L.unescapeError (isStruck L) row.relevant).or <|
      if row.relevant.any (isStruck L) then none
      else anyError (fun cell => L.unescapeError (Pattern.htmlTag.sub [] cell))
        (isClosedStatus L) row.cells

/-- The exception of the texts of a complete row, but for its date. -/
def textsError : Option Raised :=
  (row.isClosedError L).or <|
    (plainTextError L ((row.get .company).getD []) false).or <|
    (plainTextError L ((row.get .title).getD []) false).or <|
    (plainTextError L ((row.get .location).getD []) true).or <|
    L.unescapeError ((row.get .applyUrl).getD [])

/-- The company or the title is the name of a column. -/
def namesColumns : Bool :=
  headerValues.contains (L.casefold (row.company L)) ||
    headerValues.contains (L.casefold (row.title L))

/-- `{"company", "title", "location", "apply_url"}.issubset(mapped)`. -/
def isComplete : Bool :=
  [Column.company, .title, .location, .applyUrl].all fun name => (row.get name).isSome

end MappedRow

/-! ## Rows -/

/-- The source of a table: its name, and the commit or blob with the file. -/
structure RowOrigin where
  source : Str
  source_ne : source ≠ []
  sourceId : Str
  sourceId_ne : sourceId ≠ []

variable (origin : RowOrigin)

/-- `RawJobPayload(...)`, which checks the lengths of its fields. -/
def TableRow.validate (row : TableRow) : Except Raised TableRow :=
  if row.source.length ≤ 100 ∧ row.sourceId.length ≤ 500 ∧ row.company.length ≤ 500 ∧
      row.title.length ≤ 1000 ∧ row.applyUrl.length ≤ 4096 then .ok row
  else .error .validationError

/-- The record of the mapped cells of a row. -/
def MappedRow.record (text : Str) (row : MappedRow) : Except Raised (Option TableRow) :=
  if row.isComplete then
    match row.textsError L, extractUrl L ((row.get .applyUrl).getD []) with
    | some error, _ => .error error
    | none, none => .ok none
    | none, some applyUrl =>
      if row.company L = [] ∨ row.title L = [] ∨ row.location L = [] ∨ row.namesColumns L then
        .ok none
      else
        match plainTextError L ((row.get .date).getD []) false with
        | some error => .error error
        | none =>
          (TableRow.validate
            { source := origin.source
              source_ne := origin.source_ne
              sourceId := origin.sourceId
              sourceId_ne := origin.sourceId_ne
              company := row.company L
              title := row.title L
              applyUrl := applyUrl
              location := row.location L
              isClosed := row.isClosed L
              rawRow := text
              datePosted := row.datePosted L }).map some
  else .ok none

/-- `parse_markdown_table_row`. -/
def parseMarkdownTableRow (headers : Option (List Str)) (row : Str) :
    Except Raised (Option TableRow) := do
  match ← mappedRow L headers row with
  | none => pure none
  | some mapped => mapped.record L origin row

/-! ## The parser -/

/-- The state of `MarkdownTableParser`. -/
structure TableParser where
  lastCompany : Option Str
  headers : Option (List Str)

/-- The cells of an HTML header row: all of its cells are `<th>`. -/
def headerCells (row : Str) : Except Raised (Option (List Str)) :=
  if (strFind "<th".toList (L.casefold row)).isSome then
    (htmlCells L row).map fun header =>
      if header.cells ≠ [] ∧ header.kinds.all (· = "th".toList) then some header.cells else none
  else .ok none

/-- The marker of a row of the same company. -/
def continuationMarker : Str := "↳".toList

/-- **`MarkdownTableParser.parse`**: the record of a row, and the parser after it. -/
def TableParser.parse (parser : TableParser) (row : Str) :
    Except Raised (Option TableRow × TableParser) := do
  match ← headerCells L row with
  | some header => return (none, ⟨none, some header⟩)
  | none =>
    match ← parseMarkdownTableRow L origin parser.headers row with
    | none => return (none, parser)
    | some raw =>
      let company := L.strip raw.company
      if company = continuationMarker then
        match parser.lastCompany with
        | none => return (none, parser)
        | some lastCompany => return (some { raw with company := lastCompany }, parser)
      else return (some raw, { parser with lastCompany := some company })

end JobPing
