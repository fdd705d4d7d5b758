import JobPing.DetailExtraction
import JobPing.Dict
import JobPing.UrlParse

/-!
# Public text of a page

`PublicHTML` of `app/evidence/collect.py`, on what `HTMLParser` reports. An exception leaves the
collector as it was raised in. `urljoin` is that of `urllib.parse`; it raises where one of its URLs
cannot be split.
-/

namespace JobPing

/-! ## Joining URLs -/

/-- `usesRelative`. -/
def usesRelative : List Str :=
  ["", "ftp", "http", "gopher", "nntp", "imap", "wais", "file", "https", "shttp", "mms", "prospero",
    "rtsp", "rtspu", "sftp", "svn", "svn+ssh", "ws", "wss"].map String.toList

/-- `usesParams`. -/
def usesParams : List Str :=
  ["", "ftp", "hdl", "prospero", "http", "imap", "https", "shttp", "rtsp", "rtspu", "sip", "sips",
    "mms", "sftp", "tel"].map String.toList

/-- `ParseResult`: the path without its parameters, and these. -/
structure ParseResult extends SplitResult where
  params : Str

/-- `_splitparams`: the parameters are those of the last segment. -/
def splitParams (path : Str) : Str × Str :=
  let (before, found, last) := rpartition '/' path
  let (segment, _, params) := partition ';' last
  ((if found then before ++ ['/'] else []) ++ segment, params)

/-- `urlparse(url, scheme)`. -/
def urlparse (P : Python) (url scheme : Str) : Option ParseResult :=
  (urlsplit P url).map fun parts =>
    let parts := { parts with scheme := if parts.scheme = [] then scheme else parts.scheme }
    let (path, params) :=
      if parts.scheme ∈ usesParams then splitParams parts.path else (parts.path, [])
    { parts with path := path, params := params }

/-- `urlunparse`. -/
def urlunparse (parts : ParseResult) : Str :=
  urlunsplit { parts.toSplitResult with
    path := if parts.params = [] then parts.path else parts.path ++ ';' :: parts.params }

/-- `segments[1:-1] = filter(None, segments[1:-1])`. -/
def dropBlankSegments : List Str → List Str
  | first :: second :: segments =>
    first :: (second :: segments).dropLast.filter (· ≠ []) ++
      [((second :: segments).getLast?).getD []]
  | segments => segments

/-- `resolvedPath` of some segments. -/
def resolveSegments (segments : List Str) : List Str :=
  let resolvedPath := segments.foldl (fun resolved seg =>
    if seg = "..".toList then resolved.dropLast
    else if seg = ".".toList then resolved
    else resolved ++ [seg]) []
  if segments.getLast? = some ".".toList ∨ segments.getLast? = some "..".toList then
    resolvedPath ++ [[]]
  else resolvedPath

/-- `urljoin`; `none` is the `ValueError`. -/
def urljoin (P : Python) (base url : Str) : Option Str :=
  if base = [] then some url
  else if url = [] then some base
  else do
    let base ← urlparse P base []
    let parts ← urlparse P url base.scheme
    if parts.scheme ≠ base.scheme ∨ parts.scheme ∉ usesRelative then return url
    if parts.scheme ∈ usesNetloc ∧ parts.netloc ≠ [] then return urlunparse parts
    let netloc := if parts.scheme ∈ usesNetloc then base.netloc else parts.netloc
    if parts.path = [] ∧ parts.params = [] then
      return urlunparse { parts with
        netloc := netloc
        path := base.path
        params := base.params
        query := if parts.query = [] then base.query else parts.query }
    let baseParts := base.path.splitOn '/'
    let baseParts := if baseParts.getLast? = some [] then baseParts else baseParts.dropLast
    let segments :=
      if parts.path.head? = some '/' then parts.path.splitOn '/'
      else dropBlankSegments (baseParts ++ parts.path.splitOn '/')
    let resolved := ['/'].intercalate (resolveSegments segments)
    return urlunparse { parts with
      netloc := netloc
      path := if resolved = [] then ['/'] else resolved }

/-! ## Attributes -/

/-- `dict(attrs)`. -/
abbrev Attributes := List (Str × Option Str)

/-- `attributes.get(name)`. -/
def Attributes.get (attributes : Attributes) (name : String) : Option Str :=
  (Dict.get? name.toList attributes).join

/-- `ROLE_IDS`. -/
def roleIds : List Str := ["content", "application_form", "application-form"].map String.toList

/-- `ROLE_CLASSES`. -/
def roleClasses : List Str :=
  ["posting-description", "posting-additional", "application-form", "job__description",
    "job__pay-ranges", "application--form", "careers-listing-details__body"].map String.toList

/-- The tags whose content is hidden. -/
def hiddenTags : List Str :=
  ["script", "style", "noscript", "textarea", "select", "nav", "footer", "aside"].map String.toList

/-- The tags of elements without an end. -/
def voidTags : List Str :=
  ["br", "input", "img", "meta", "link", "hr", "source", "wbr", "area", "embed", "param", "track",
    "col", "base"].map String.toList

/-- The tags that start a line. -/
def blockTags : List Str :=
  ["p", "br", "li", "div", "label", "h1", "h2", "h3"].map String.toList

/-- The tags that end a line. -/
def closingTags : List Str := ["p", "li", "div", "label"].map String.toList

/-- `related|recommended|similar.jobs|other.jobs`. -/
def Pattern.relatedJobs : Pattern :=
  alts [lit "related", lit "recommended", seqs [lit "similar", dot, lit "jobs"],
    seqs [lit "other", dot, lit "jobs"]]

/-- `display\s*:\s*none|visibility\s*:\s*hidden`. -/
def Pattern.hidingStyle (T : CharTables) : Pattern :=
  alts [seqs [lit "display", blanks T, lit ":", blanks T, lit "none"],
    seqs [lit "visibility", blanks T, lit ":", blanks T, lit "hidden"]]

variable (L : Libraries)

/-- What `hidden` takes from the element itself. -/
def hides (tag : Str) (attributes : Attributes) : Bool :=
  tag ∈ hiddenTags ||
    Pattern.relatedJobs.search
      ((attributes.get "id").getD [] ++ ' ' :: (attributes.get "class").getD []) ||
    (Dict.get? "hidden".toList attributes).isSome ||
    attributes.get "aria-hidden" = some "true".toList ||
    (Pattern.hidingStyle L.toCharTables).search ((attributes.get "style").getD [])

/-- What `scoped` takes from the element itself. -/
def scopesRole (attributes : Attributes) : Bool :=
  (attributes.get "id").any (· ∈ roleIds) ||
    (L.split ((attributes.get "class").getD [])).any (· ∈ roleClasses) ||
    attributes.get "itemprop" = some "description".toList

/-- A script with structured data. -/
def isLd (tag : Str) (attributes : Attributes) : Bool :=
  tag = "script".toList && attributes.get "type" = some "application/ld+json".toList

/-! ## Structured data -/

/-- `{key: value.get(key) for key in keys}`. -/
def pick (value : Entries) (keys : List String) : Entries :=
  keys.map fun key => (key.toList, value.get key)

/-- What `_jobs` appends of a job posting. -/
def structuredJob (value : Entries) : Json :=
  let salary := (value.get "baseSalary").entries
  .dict (pick value ["url", "title", "description"] ++
    [("hiringOrganization".toList,
      match value.get "hiringOrganization" with
      | .dict organization => .dict (pick organization ["name"])
      | _ => .null),
    ("baseSalary".toList,
      match salary.get "value" with
      | .dict quantity => .dict [("currency".toList, salary.get "currency"),
          ("value".toList, .dict (pick quantity ["minValue", "maxValue", "value", "unitText"]))]
      | _ => .null)])

/-- `value.get("@type") == "JobPosting"`. -/
def isJobPosting (value : Entries) : Bool :=
  match value.get "@type" with
  | .str type => type = "JobPosting".toList
  | _ => false

/-- `_jobs`, with so many frames left below the recursion limit; its exception is that there are no
more, and has what was appended until then. -/
def collectJobs : ℕ → List Json → Json → Except (List Json) (List Json)
  | 0, structured, _ => .error structured
  | frames + 1, structured, .list items =>
    (items.take 50).foldlM (collectJobs frames) structured
  | frames + 1, structured, .dict items =>
    let value : Entries := items
    let structured :=
      if isJobPosting value && structured.length < 20 then structured ++ [structuredJob value]
      else structured
    match value.get "@graph" with
    | .list graph => collectJobs frames structured (.list graph)
    | _ => .ok structured
  | _ + 1, structured, _ => .ok structured

/-! ## The collector -/

/-- The arguments of `PublicHTML`, and the frames that its handlers may take. -/
structure PublicPage where
  url : Str
  roleOnly : Bool
  frames : ℕ

/-- The fields of `PublicHTML`. -/
structure PublicHtml where
  parts : List Str
  links : List (Str × Str)
  structured : List Json
  stack : List Bool
  tags : List Str
  scopes : List Bool
  ld : Option (List Str)
  link : Option (Str × List Str)

/-- `PublicHTML(url)`. -/
def PublicHtml.initial : PublicHtml := ⟨[], [], [], [], [], [], none, none⟩

/-- What a handler returns: an exception has the collector as it is then. -/
abbrev Handled := Except (Raised × PublicHtml) PublicHtml

namespace PublicHtml

variable (P : Python) (page : PublicPage) (s : PublicHtml)

/-- `handle_starttag`. -/
def handleStarttag (tag : Str) (attrs : List (Str × Option Str)) : Handled :=
  let attributes : Attributes := Dict.ofList attrs
  let hidden := s.stack.getLast?.getD false || hides L tag attributes
  let in_scope := s.scopes.getLast?.getD false || scopesRole L attributes
  let visible := !hidden && (!page.roleOnly || in_scope)
  let opens := tag ∉ voidTags
  let s := { s with
    ld := if isLd tag attributes then some [] else s.ld
    stack := if opens then s.stack ++ [hidden] else s.stack
    tags := if opens then s.tags ++ [tag] else s.tags
    scopes := if opens then s.scopes ++ [in_scope] else s.scopes
    parts := s.parts ++
      (if tag ∈ blockTags && visible then
        "\n".toList :: if tag = "label".toList then ["Question: ".toList] else []
      else []) }
  let href := (attributes.get "href").getD []
  if tag = "a".toList && visible && href ≠ [] then
    match urljoin P page.url href with
    | none => .error (.valueError, s)
    | some url => .ok { s with link := some (url, []) }
  else .ok s

/-- The end of a script with structured data; a `ValueError` or a `TypeError` is passed over. -/
def endLd (ld : List Str) : Handled :=
  match L.loads ld.flatten with
  | .ok value =>
    match collectJobs page.frames s.structured value with
    | .ok structured => .ok { s with structured := structured, ld := none }
    | .error structured => .error (.other, { s with structured := structured })
  | .error e =>
    if e = .valueError ∨ e = .typeError then .ok { s with ld := none } else .error (e, s)

/-- The last element of a tag and those in it are closed. -/
def close (tag : Str) : PublicHtml :=
  if tag ∈ s.tags then
    let index := s.tags.length - 1 - s.tags.reverse.idxOf tag
    { s with
      tags := s.tags.take index
      stack := s.stack.take index
      scopes := s.scopes.take index }
  else s

/-- The rest of `handle_endtag`. -/
def endElement (tag : Str) : PublicHtml :=
  let s :=
    match s.link with
    | some (url, texts) =>
      if tag = "a".toList then { s with links := s.links ++ [(url, texts.flatten)], link := none }
      else s
    | none => s
  let s := s.close tag
  { s with parts := s.parts ++ if tag ∈ closingTags then ["\n".toList] else [] }

/-- `handle_endtag`. -/
def handleEndtag (tag : Str) : Handled :=
  let handled :=
    match s.ld with
    | some ld => if tag = "script".toList then s.endLd L page ld else .ok s
    | none => .ok s
  handled.map fun s => s.endElement tag

/-- `handle_data`. -/
def handleData (data : Str) : PublicHtml :=
  let s := { s with ld := s.ld.map (· ++ [data]) }
  if !s.stack.getLast?.getD false && (!page.roleOnly || s.scopes.getLast?.getD false) then
    { s with
      parts := s.parts ++ [data]
      link := s.link.map fun link => (link.1, link.2 ++ [data]) }
  else s

/-- The handlers. -/
def handle : HtmlEvent → Handled
  | .start tag attrs _ => s.handleStarttag L P page tag attrs
  | .stop tag => s.handleEndtag L page tag
  | .data data => .ok (s.handleData page data)

/-- `feed`. -/
def feed (events : List HtmlEvent) : Handled := events.foldlM (handle L P page) s

end PublicHtml

/-- The collector after a call, whether it returned or not. -/
def Handled.collector : Handled → PublicHtml
  | .ok s => s
  | .error raised => raised.2

end JobPing
