import JobPing.DocumentTrees
import JobPing.PageExtraction
import JobPing.PublicHtml
import JobPing.Raising
import Mathlib.Data.List.Infix

/-!
# Hidden content of a page

The handlers of `PublicHTML` on what the parser reports of a well-nested document. The three stacks
hold what the open elements are, so a text is collected exactly if no element around it is hidden
and, in the mode for roles, one is a scope of the role (`collected_iff`). This holds as long as no
handler raises: neither `urljoin` at the address of a visible link nor the nesting of structured
data is guarded against.
-/

namespace JobPing

/-! ## Documents -/

/-- How an element ends: with an end tag, not at all, or in its start tag. -/
inductive ElementForm
  | paired
  | void
  | closed
  deriving DecidableEq

/-- The tags of an element. -/
structure PageElement where
  tag : Str
  attrs : List (Str × Option Str)
  form : ElementForm

abbrev PageForest := Forest PageElement Str

def PageElement.attributes (e : PageElement) : Attributes := Dict.ofList e.attrs

/-- No elements, but texts. -/
def Flat (children : PageForest) : Prop := children.All (fun _ _ _ => False) []

/-- An element with an end tag is no void one, and a script has no elements in it; any other element
has a void tag, and no content. -/
def PageElement.WellNested (_ : List PageElement) (e : PageElement) (children : PageForest) :
    Prop :=
  if e.form = .paired then e.tag ∉ voidTags ∧ (e.tag = "script".toList → Flat children)
  else e.tag ∈ voidTags ∧ children = .nil

/-- A well-nested document. -/
structure HtmlDocument where
  forest : PageForest
  well_nested : forest.All PageElement.WellNested []

/-- What the parser reports inside the elements of `path`; the source of a tag is not read. -/
def pageEvents (path : List PageElement) (forest : PageForest) : List HtmlEvent :=
  forest.walk (fun _ e => [.start e.tag e.attrs []])
    (fun _ e => if e.form = .void then [] else [.stop e.tag]) (fun _ text => [.data text]) path

variable (L : Libraries) (P : Python) (page : PublicPage)

/-! ## What is visible -/

/-- An element is hidden that the text is in. -/
def hiddenIn (path : List PageElement) : Bool := path.any fun e => hides L e.tag e.attributes

/-- An element is a scope of the role that the text is in. -/
def roleIn (path : List PageElement) : Bool := path.any fun e => scopesRole L e.attributes

/-- What stands there is collected. -/
def visibleIn (path : List PageElement) : Bool :=
  !hiddenIn L path && (!page.roleOnly || roleIn L path)

/-- A part: one of the two marks, or a text of the page. -/
inductive Piece
  | newline
  | question
  | text (shown : Str)

def Piece.shown : Piece → Str
  | newline => "\n".toList
  | question => "Question: ".toList
  | text shown => shown

/-- The text of the page. -/
def Piece.text? : Piece → Option Str
  | text shown => some shown
  | _ => none

/-- The marks at the start of an element. -/
def startMarks (path : List PageElement) (e : PageElement) : List Piece :=
  if e.tag ∈ blockTags && visibleIn L page (path ++ [e]) then
    .newline :: if e.tag = "label".toList then [.question] else []
  else []

/-- The mark at its end. -/
def endMarks (e : PageElement) : List Piece :=
  if e.tag ∈ closingTags then [.newline] else []

/-- The text where it is visible. -/
def visibleText (path : List PageElement) (text : Str) : List Piece :=
  if visibleIn L page path then [.text text] else []

/-- The parts of a forest: the visible texts between the marks. -/
def pageParts (path : List PageElement) (forest : PageForest) : List Piece :=
  forest.walk (startMarks L page) (fun _ => endMarks) (visibleText L page) path

/-! ## What raises -/

/-- The structured data nests no deeper than the frames reach. -/
def nests : ℕ → Json → Bool
  | 0, _ => false
  | frames + 1, .list items => (items.take 50).all (nests frames)
  | frames + 1, .dict items =>
    match Entries.get items "@graph" with
    | .list graph => nests frames (.list graph)
    | _ => true
  | _ + 1, _ => true

/-- A text of structured data is read, or passed over for a `ValueError` or a `TypeError`. -/
def LdReturns (text : Str) : Prop :=
  match L.loads text with
  | .ok value => nests page.frames value = true
  | .error e => e = .valueError ∨ e = .typeError

/-- `urljoin` accepts the address of a visible link. -/
def LinkReturns (path : List PageElement) (e : PageElement) : Prop :=
  e.tag = "a".toList → visibleIn L page (path ++ [e]) = true →
    (e.attributes.get "href").getD [] ≠ [] →
      (urljoin P page.url ((e.attributes.get "href").getD [])).isSome

/-- The texts of a script. -/
def scriptTexts (children : PageForest) : List Str := (children.leaves []).map Prod.snd

/-- **No handler raises** at an element. -/
def Returns (path : List PageElement) (e : PageElement) (children : PageForest) : Prop :=
  LinkReturns L P page path e ∧
    (isLd e.tag e.attributes = true → LdReturns L page (scriptTexts children).flatten)

/-! ## The stacks -/

/-- A stack with what holds of the elements up to each one. -/
def stackOf (p : List PageElement → Bool) (path : List PageElement) : List Bool :=
  path.inits.tail.map p

variable {L P page} {path : List PageElement} {e : PageElement} {out front shown : List Piece}
  {ld : Option (List Str)} {s : PublicHtml} {forest children : PageForest} {text : Str}
  {p : List PageElement → Bool}

theorem stackOf_concat : stackOf p (path ++ [e]) = stackOf p path ++ [p (path ++ [e])] := by
  have hne : path.inits ≠ [] := by
    cases path <;> simp
  rw [stackOf, List.inits_append, List.tail_append_of_ne_nil hne, List.map_append]
  rfl

theorem length_stackOf : (stackOf p path).length = path.length := by
  rw [stackOf, List.length_map, List.length_tail, List.length_inits, Nat.add_sub_cancel]

theorem stackOf_last (hp : p [] = false) : (stackOf p path).getLast?.getD false = p path := by
  rcases List.eq_nil_or_concat path with rfl | ⟨init, last, rfl⟩
  · exact hp.symm
  · rw [List.concat_eq_append, stackOf_concat, List.getLast?_concat]
    rfl

/-- The collector inside the elements of `path`, with the parts so far. -/
structure Open (L : Libraries) (page : PublicPage) (path : List PageElement) (out : List Piece)
    (ld : Option (List Str)) (s : PublicHtml) : Prop where
  tags : s.tags = path.map (·.tag)
  stack : s.stack = stackOf (hiddenIn L) path
  scopes : s.scopes = stackOf (roleIn L) path
  parts : s.parts = out.map Piece.shown
  ld : s.ld = ld
  no_void : ∀ e ∈ path, e.tag ∉ voidTags

theorem hidden_concat : hiddenIn L (path ++ [e]) =
    (hiddenIn L path || hides L e.tag e.attributes) := by
  simp [hiddenIn]

theorem role_concat : roleIn L (path ++ [e]) = (roleIn L path || scopesRole L e.attributes) := by
  simp [roleIn]

/-- The element that a handler asks its stacks about is the innermost one. -/
theorem Open.visible (h : Open L page path out ld s) :
    (!s.stack.getLast?.getD false && (!page.roleOnly || s.scopes.getLast?.getD false)) =
      visibleIn L page path := by
  rw [h.stack, h.scopes, stackOf_last rfl, stackOf_last rfl]
  rfl

theorem Open.parts_append (h : Open L page path out ld s) (more : List Piece) :
    s.parts ++ more.map Piece.shown = (out ++ more).map Piece.shown := by
  rw [List.map_append, h.parts]

/-- A text. -/
theorem Open.data (h : Open L page path out ld s) (text : Str) :
    Open L page path (out ++ visibleText L page path text) (ld.map (· ++ [text]))
      (s.handleData page text) := by
  have hld : s.ld.map (· ++ [text]) = ld.map (· ++ [text]) := by rw [h.ld]
  unfold PublicHtml.handleData visibleText
  simp only [h.visible]
  split_ifs
  · exact ⟨h.tags, h.stack, h.scopes, h.parts_append [.text text], hld, h.no_void⟩
  · rw [List.append_nil]
    exact ⟨h.tags, h.stack, h.scopes, h.parts, hld, h.no_void⟩

/-! ## What a handler does -/

/-- What comes of handling a part of the document: without an exception its parts are appended, with
one only some of them are, and elements stay open. -/
inductive Fed (L : Libraries) (page : PublicPage) (path : List PageElement)
    (out shown : List Piece) (ld : Option (List Str)) (returns : Prop) : Handled → Prop
  | returned {s : PublicHtml} (hreturns : returns) (hopen : Open L page path (out ++ shown) ld s) :
    Fed L page path out shown ld returns (.ok s)
  | raised {e : Raised} {s : PublicHtml} {front : List Piece} (hraises : ¬ returns)
    (hfront : front <+: shown) (hparts : s.parts = (out ++ front).map Piece.shown)
    (htags : s.tags ≠ []) : Fed L page path out shown ld returns (.error (e, s))

variable {path' : List PageElement} {shown' : List Piece} {ld' : Option (List Str)}
  {returns returns' : Prop} {first result : Handled} {next : PublicHtml → Handled}

theorem Fed.after (hreturns : returns)
    (h : Fed L page path (out ++ shown) shown' ld returns' result) :
    Fed L page path out (shown ++ shown') ld (returns ∧ returns') result := by
  cases h with
  | returned hreturns' hopen =>
    rw [List.append_assoc] at hopen
    exact .returned ⟨hreturns, hreturns'⟩ hopen
  | raised hraises hfront hparts htags =>
    rw [List.append_assoc] at hparts
    exact .raised (fun h => hraises h.2) ((List.prefix_append_right_inj _).mpr hfront) hparts htags

/-- One part after another. -/
theorem Fed.seq (h : Fed L page path out shown ld returns first)
    (hnext : ∀ s, Open L page path (out ++ shown) ld s →
      Fed L page path' (out ++ shown) shown' ld' returns' (next s)) :
    Fed L page path' out (shown ++ shown') ld' (returns ∧ returns') (first >>= next) := by
  cases h with
  | returned hreturns hopen => exact (hnext _ hopen).after hreturns
  | raised hraises hfront hparts htags =>
    exact .raised (fun h => hraises h.1) (hfront.trans (List.prefix_append _ _)) hparts htags

theorem Fed.of_iff (hiff : returns ↔ returns') (h : Fed L page path out shown ld returns result) :
    Fed L page path out shown ld returns' result :=
  propext hiff ▸ h

/-! ## Elements -/

theorem feed_cons {event : HtmlEvent} {events : List HtmlEvent} :
    s.feed L P page (event :: events) =
      s.handle L P page event >>= fun s => s.feed L P page events :=
  List.foldlM_cons

theorem feed_append {events events' : List HtmlEvent} : s.feed L P page (events ++ events') =
    s.feed L P page events >>= fun s => s.feed L P page events' :=
  List.foldlM_append

theorem feed_singleton {event : HtmlEvent} :
    s.feed L P page [event] = s.handle L P page event := by
  rw [feed_cons]
  exact bind_pure _

theorem link_not_void : "a".toList ∉ voidTags := by decide

theorem script_not_void : "script".toList ∉ voidTags := by decide

theorem closing_not_void {tag : Str} (hvoid : tag ∈ voidTags) : tag ∉ closingTags := by
  have hnone : ∀ tag ∈ voidTags, tag ∉ closingTags := by decide
  exact hnone tag hvoid

theorem startMarks_shown : (startMarks L page path e).map Piece.shown =
    if e.tag ∈ blockTags && visibleIn L page (path ++ [e]) then
      "\n".toList :: if e.tag = "label".toList then ["Question: ".toList] else []
    else [] := by
  unfold startMarks
  split_ifs <;> rfl

theorem Open.hidden (h : Open L page path out ld s) :
    (s.stack.getLast?.getD false || hides L e.tag (Dict.ofList e.attrs)) =
      hiddenIn L (path ++ [e]) := by
  rw [h.stack, stackOf_last rfl, hidden_concat]
  rfl

theorem Open.in_scope (h : Open L page path out ld s) :
    (s.scopes.getLast?.getD false || scopesRole L (Dict.ofList e.attrs)) =
      roleIn L (path ++ [e]) := by
  rw [h.scopes, stackOf_last rfl, role_concat]
  rfl

/-- An element with an end is opened. -/
theorem Open.opened (h : Open L page path out ld s) (hvoid : e.tag ∉ voidTags)
    (link : Option (Str × List Str)) :
    Open L page (path ++ [e]) (out ++ startMarks L page path e)
      (if isLd e.tag e.attributes then some [] else ld)
      { s with
        parts := s.parts ++ (startMarks L page path e).map Piece.shown
        stack := s.stack ++ [hiddenIn L (path ++ [e])]
        tags := s.tags ++ [e.tag]
        scopes := s.scopes ++ [roleIn L (path ++ [e])]
        ld := if isLd e.tag e.attributes then some [] else s.ld
        link := link } where
  tags := by rw [List.map_append, h.tags]; rfl
  stack := by rw [stackOf_concat, h.stack]
  scopes := by rw [stackOf_concat, h.scopes]
  parts := h.parts_append _
  ld := by rw [h.ld]
  no_void := List.forall_mem_append.mpr ⟨h.no_void, List.forall_mem_singleton.mpr hvoid⟩

/-- The start of an element with an end: only `urljoin` raises, and then the element is open. -/
theorem Open.start (h : Open L page path out ld s) (hvoid : e.tag ∉ voidTags) :
    Fed L page (path ++ [e]) out (startMarks L page path e)
      (if isLd e.tag e.attributes then some [] else ld) (LinkReturns L P page path e)
      (s.handleStarttag L P page e.tag e.attrs) := by
  have hopen := h.opened hvoid
  have hvisible : (!hiddenIn L (path ++ [e]) && (!page.roleOnly || roleIn L (path ++ [e]))) =
    visibleIn L page (path ++ [e]) := rfl
  simp only [startMarks_shown, PageElement.attributes] at hopen
  unfold PublicHtml.handleStarttag LinkReturns PageElement.attributes
  simp only [h.hidden, h.in_scope, hvoid, not_false_eq_true, if_true, hvisible]
  by_cases hlink : (decide (e.tag = "a".toList) && visibleIn L page (path ++ [e]) &&
    decide ((Attributes.get (Dict.ofList e.attrs) "href").getD [] ≠ [])) = true
  · rw [if_pos hlink]
    simp only [Bool.and_eq_true, decide_eq_true_eq] at hlink
    cases hurl : urljoin P page.url ((Attributes.get (Dict.ofList e.attrs) "href").getD []) with
    | none =>
      refine .raised (fun hreturns => ?_) List.prefix_rfl (hopen s.link).parts (by simp)
      cases hreturns hlink.1.1 hlink.1.2 hlink.2
    | some url => exact .returned (fun _ _ _ => rfl) (hopen _)
  · rw [if_neg hlink]
    refine .returned (fun htag hvisible hhref => ?_) (hopen s.link)
    exact absurd (by simp [htag, hvisible, hhref]) hlink

theorem void_tag_ne {tag other : Str} (hvoid : tag ∈ voidTags) (hother : other ∉ voidTags) :
    tag ≠ other :=
  fun heq => hother (heq ▸ hvoid)

theorem void_not_ld (hvoid : e.tag ∈ voidTags) : isLd e.tag e.attributes = false := by
  rw [isLd, decide_eq_false (void_tag_ne hvoid script_not_void)]
  rfl

/-- A void element is not opened. -/
theorem Open.start_void (h : Open L page path out ld s) (hvoid : e.tag ∈ voidTags) :
    Fed L page path out (startMarks L page path e) ld (LinkReturns L P page path e)
      (s.handleStarttag L P page e.tag e.attrs) := by
  have hlink := void_tag_ne hvoid link_not_void
  have hld : isLd e.tag (Dict.ofList e.attrs) = false := void_not_ld hvoid
  have hvisible : (!hiddenIn L (path ++ [e]) && (!page.roleOnly || roleIn L (path ++ [e]))) =
    visibleIn L page (path ++ [e]) := rfl
  have hopen : Open L page path (out ++ startMarks L page path e) ld
      { s with parts := s.parts ++ (startMarks L page path e).map Piece.shown } :=
    ⟨h.tags, h.stack, h.scopes, h.parts_append _, h.ld, h.no_void⟩
  rw [startMarks_shown] at hopen
  unfold PublicHtml.handleStarttag
  simp only [h.hidden, h.in_scope, hvoid, hvisible, hld, hlink, not_true_eq_false, decide_false,
    Bool.false_and, Bool.false_eq_true, if_false]
  exact .returned (fun htag => absurd htag hlink) hopen

/-- The last open element and those in it: the one that is closed. -/
theorem Open.close (h : Open L page (path ++ [e]) out ld s) :
    Open L page path out ld (s.close e.tag) := by
  have htags : s.tags = path.map (·.tag) ++ [e.tag] := by rw [h.tags, List.map_append]; rfl
  have hindex : s.tags.length - 1 - s.tags.reverse.idxOf e.tag = path.length := by
    rw [htags, List.reverse_append]
    simp
  unfold PublicHtml.close
  rw [if_pos (by rw [htags]; exact List.mem_append_right _ (List.mem_singleton.mpr rfl))]
  simp only [hindex]
  refine ⟨?_, ?_, ?_, h.parts, h.ld, fun e' he' => h.no_void e' (List.mem_append_left _ he')⟩
  · rw [htags]
    exact List.take_left' (List.length_map _)
  · rw [h.stack, stackOf_concat]
    exact List.take_left' length_stackOf
  · rw [h.scopes, stackOf_concat]
    exact List.take_left' length_stackOf

/-- No void element is open. -/
theorem Open.close_void (h : Open L page path out ld s) (hvoid : e.tag ∈ voidTags) :
    s.close e.tag = s := by
  refine if_neg fun hmem => ?_
  rw [h.tags] at hmem
  obtain ⟨e', he', htag⟩ := List.mem_map.mp hmem
  exact h.no_void e' he' (htag ▸ hvoid)

theorem Open.marked (h : Open L page path out ld s) :
    Open L page path (out ++ endMarks e) ld
      { s with parts := s.parts ++ if e.tag ∈ closingTags then ["\n".toList] else [] } := by
  have hparts := h.parts_append (endMarks e)
  unfold endMarks at hparts ⊢
  split_ifs at hparts ⊢ <;> exact ⟨h.tags, h.stack, h.scopes, hparts, h.ld, h.no_void⟩

theorem Open.with_links (h : Open L page path out ld s) (links : List (Str × Str))
    (link : Option (Str × List Str)) :
    Open L page path out ld { s with links := links, link := link } :=
  ⟨h.tags, h.stack, h.scopes, h.parts, h.ld, h.no_void⟩

/-- The end of an element, whatever becomes of a link. -/
theorem Open.endElement {path' : List PageElement} (h : Open L page path out ld s)
    (hclose : ∀ s, Open L page path out ld s → Open L page path' out ld (s.close e.tag)) :
    Open L page path' (out ++ endMarks e) ld (s.endElement e.tag) := by
  unfold PublicHtml.endElement
  cases hlink : s.link with
  | none => exact (hclose s h).marked
  | some link =>
    by_cases htag : e.tag = "a".toList
    · simp only [htag, if_true]
      rw [← htag]
      exact (hclose _ (h.with_links _ _)).marked
    · simp only [htag, if_false]
      exact (hclose s h).marked

theorem Open.handleEndtag (h : Open L page path out none s) :
    s.handleEndtag L page e.tag = .ok (s.endElement e.tag) := by
  unfold PublicHtml.handleEndtag
  rw [h.ld]
  rfl

/-- The end of an element that is no script with structured data. -/
theorem Open.stop (h : Open L page (path ++ [e]) out none s) :
    Fed L page path out (endMarks e) none True (s.handleEndtag L page e.tag) := by
  rw [h.handleEndtag]
  exact .returned trivial (h.endElement fun _ hs => hs.close)

/-- A void element has nothing to close, if it has an end at all. -/
theorem Open.stop_void (h : Open L page path out none s) (hvoid : e.tag ∈ voidTags) :
    Fed L page path out (endMarks e) none True
      (s.feed L P page (if e.form = .void then [] else [.stop e.tag])) := by
  split_ifs
  · rw [endMarks, if_neg (closing_not_void hvoid)]
    exact .returned trivial (by rw [List.append_nil]; exact h)
  · rw [feed_singleton]
    change Fed _ _ _ _ _ _ _ (s.handleEndtag L page e.tag)
    rw [h.handleEndtag]
    exact .returned trivial (h.endElement fun _ hs => (hs.close_void hvoid).symm ▸ hs)

/-! ## Structured data -/

/-- `_jobs` returns where the frames suffice for the nesting. -/
theorem collectJobs_returns (frames : ℕ) (structured : List Json) (value : Json) :
    (∃ structured', collectJobs frames structured value = .ok structured') ↔
      nests frames value = true := by
  induction frames generalizing structured value with
  | zero => simp [collectJobs, nests]
  | succ frames ih =>
    cases value with
    | list items =>
      rw [collectJobs, nests, List.all_eq_true]
      exact Raising.foldlM_returns ih _ structured
    | dict items =>
      rw [collectJobs, nests]
      cases Entries.get items "@graph" with
      | list graph => exact ih _ _
      | _ => simp
    | _ => simp [collectJobs, nests]

/-- The end of a script with structured data. -/
theorem Open.stop_ld {texts : List Str} (h : Open L page (path ++ [e]) out (some texts) s)
    (hscript : e.tag = "script".toList) :
    Fed L page path out (endMarks e) none (LdReturns L page texts.flatten)
      (s.handleEndtag L page e.tag) := by
  have htags : s.tags ≠ [] := by
    rw [h.tags]
    simp
  have hread (structured : List Json) : Open L page (path ++ [e]) out none
      { s with structured := structured, ld := none } :=
    ⟨h.tags, h.stack, h.scopes, h.parts, rfl, h.no_void⟩
  have hclosed (structured : List Json) := (hread structured).endElement fun _ hs => hs.close
  have hparts : s.parts = (out ++ []).map Piece.shown := by rw [List.append_nil, h.parts]
  unfold PublicHtml.handleEndtag PublicHtml.endLd LdReturns
  simp only [h.ld]
  rw [if_pos hscript]
  cases L.loads texts.flatten with
  | ok value =>
    have hreturns := collectJobs_returns page.frames s.structured value
    cases hjobs : collectJobs page.frames s.structured value with
    | ok structured =>
      simp only [hjobs]
      exact .returned (hreturns.mp ⟨_, hjobs⟩) (hclosed structured)
    | error structured =>
      simp only [hjobs]
      refine .raised (fun hnests => ?_) List.nil_prefix ?_ ?_
      · obtain ⟨structured', hok⟩ := hreturns.mpr hnests
        rw [hjobs] at hok
        cases hok
      · exact hparts
      · exact htags
  | error e =>
    by_cases hcaught : e = .valueError ∨ e = .typeError
    · simp only [hcaught, if_true]
      exact .returned trivial (hclosed s.structured)
    · simp only [hcaught, if_false]
      exact .raised id List.nil_prefix hparts htags

/-! ## Documents -/

theorem flat_nil : Flat .nil := trivial

theorem flat_all {q : List PageElement → PageElement → PageForest → Prop} (hflat : Flat children)
    (path : List PageElement) : children.All q path := by
  unfold Flat at hflat
  induction children with
  | nil => trivial
  | leaf text rest ih => exact ih hflat
  | node e children rest => exact hflat.1.elim

/-- The texts of a script. -/
theorem Open.feed_flat (hflat : Flat children) (h : Open L page path out ld s) :
    Fed L page path out (pageParts L page path children) (ld.map (· ++ scriptTexts children)) True
      (s.feed L P page (pageEvents path children)) := by
  unfold Flat at hflat
  induction children generalizing out ld s with
  | nil =>
    have hld : ld.map (· ++ scriptTexts .nil) = ld := by
      cases ld with
      | none => rfl
      | some texts => exact congrArg some (List.append_nil texts)
    rw [hld]
    exact .returned trivial (by rw [pageParts, Forest.walk, List.append_nil]; exact h)
  | leaf text rest ih =>
    have hld : ld.map (· ++ scriptTexts (.leaf text rest)) =
        (ld.map (· ++ [text])).map (· ++ scriptTexts rest) := by
      cases ld with
      | none => rfl
      | some texts => exact congrArg some (List.append_cons ..)
    rw [hld]
    exact ((ih hflat (h.data text)).after trivial).of_iff (and_iff_right trivial)
  | node e children rest => exact hflat.1.elim

theorem returns_iff (hld : isLd e.tag e.attributes = false) :
    Returns L P page path e children ↔ LinkReturns L P page path e :=
  and_iff_left fun h => absurd h (Bool.eq_false_iff.mp hld)

/-- An element with its content, by what comes of the content. -/
theorem Open.feed_element (hnested : e.WellNested path children)
    (hcontent : ∀ out s, Open L page (path ++ [e]) out none s →
      Fed L page (path ++ [e]) out (pageParts L page (path ++ [e]) children) none
        (children.All (Returns L P page) (path ++ [e]))
        (s.feed L P page (pageEvents (path ++ [e]) children)))
    (h : Open L page path out none s) :
    Fed L page path out
      (startMarks L page path e ++ pageParts L page (path ++ [e]) children ++ endMarks e) none
      (Returns L P page path e children ∧ children.All (Returns L P page) (path ++ [e]))
      (s.feed L P page ([.start e.tag e.attrs []] ++ pageEvents (path ++ [e]) children ++
        if e.form = .void then [] else [.stop e.tag])) := by
  rw [feed_append, feed_append, feed_singleton]
  unfold PageElement.WellNested at hnested
  by_cases hpaired : e.form = .paired
  · have hform : e.form ≠ .void := by rw [hpaired]; decide
    rw [if_pos hpaired] at hnested
    simp only [if_neg hform, feed_singleton]
    have hstart := h.start (P := P) hnested.1
    by_cases hld : isLd e.tag e.attributes = true
    · -- The texts of the script are read at its end.
      have hscript : e.tag = "script".toList := by
        rw [isLd, Bool.and_eq_true, decide_eq_true_eq] at hld
        exact hld.1
      have hflat := hnested.2 hscript
      rw [if_pos hld] at hstart
      refine ((hstart.seq fun s hs => hs.feed_flat hflat).seq fun s hs =>
        hs.stop_ld hscript).of_iff ?_
      simp only [Returns, hld, forall_true_left, and_true, flat_all hflat]
      rfl
    · rw [if_neg hld] at hstart
      refine ((hstart.seq fun s hs => hcontent _ s hs).seq fun s hs => hs.stop).of_iff ?_
      rw [and_true, returns_iff (by simpa using hld)]
  · rw [if_neg hpaired] at hnested
    obtain ⟨hvoid, rfl⟩ := hnested
    refine (((h.start_void hvoid).seq fun s hs => hs.feed_flat flat_nil).seq fun s hs =>
      hs.stop_void hvoid).of_iff ?_
    rw [returns_iff (void_not_ld hvoid), and_true, and_true]
    exact (and_iff_left trivial).symm

/-- **What comes of a forest.** -/
theorem Open.feed (hnested : forest.All PageElement.WellNested path)
    (h : Open L page path out none s) :
    Fed L page path out (pageParts L page path forest) none (forest.All (Returns L P page) path)
      (s.feed L P page (pageEvents path forest)) := by
  induction forest generalizing path out s with
  | nil => exact .returned trivial (by rw [pageParts, Forest.walk, List.append_nil]; exact h)
  | leaf text rest ih =>
    exact ((ih hnested (h.data text)).after trivial).of_iff (and_iff_right trivial)
  | node e children rest hchildren hrest =>
    have helement := h.feed_element hnested.1 fun out s hs => hchildren hnested.2.1 hs
    have hall := helement.seq fun s hs => hrest hnested.2.2 hs
    rw [← feed_append] at hall
    exact hall.of_iff and_assoc

/-! ## Lengths of the stacks -/

/-- The stacks are equally long. -/
def PublicHtml.Balanced (s : PublicHtml) : Prop :=
  s.stack.length = s.tags.length ∧ s.scopes.length = s.tags.length

theorem PublicHtml.Balanced.handleStarttag (h : s.Balanced) (tag : Str)
    (attrs : List (Str × Option Str)) :
    (s.handleStarttag L P page tag attrs).collector.Balanced := by
  have hpushed (hidden in_scope : Bool) :
      (s.stack ++ [hidden]).length = (s.tags ++ [tag]).length ∧
        (s.scopes ++ [in_scope]).length = (s.tags ++ [tag]).length := by
    rw [List.length_append, List.length_append, List.length_append, h.1, h.2]
    exact ⟨rfl, rfl⟩
  unfold PublicHtml.handleStarttag
  by_cases hvoid : tag ∈ voidTags
  · simp only [hvoid, not_true_eq_false, if_false]
    split
    · split <;> exact h
    · exact h
  · simp only [hvoid, not_false_eq_true, if_true]
    split
    · split <;> exact hpushed _ _
    · exact hpushed _ _

theorem PublicHtml.Balanced.close (h : s.Balanced) (tag : Str) : (s.close tag).Balanced := by
  unfold PublicHtml.close
  split_ifs
  · unfold PublicHtml.Balanced
    rw [List.length_take, List.length_take, List.length_take, h.1, h.2]
    exact ⟨rfl, rfl⟩
  · exact h

theorem PublicHtml.Balanced.endElement (h : s.Balanced) (tag : Str) :
    (s.endElement tag).Balanced := by
  unfold PublicHtml.endElement
  cases s.link with
  | none => exact h.close tag
  | some link =>
    by_cases htag : tag = "a".toList
    · simp only [htag, if_true]
      have hlinks : { s with
        links := s.links ++ [(link.1, link.2.flatten)]
        link := none }.Balanced := h
      exact hlinks.close _
    · simp only [htag, if_false]
      exact h.close tag

theorem PublicHtml.Balanced.endLd (h : s.Balanced) (texts : List Str) :
    (s.endLd L page texts).collector.Balanced := by
  unfold PublicHtml.endLd
  split
  · split <;> exact h
  · split_ifs <;> exact h

theorem PublicHtml.Balanced.handleEndtag (h : s.Balanced) (tag : Str) :
    (s.handleEndtag L page tag).collector.Balanced := by
  have hend (handled : Handled) (hhandled : handled.collector.Balanced) :
      (Handled.collector (handled.map fun s => s.endElement tag)).Balanced := by
    cases handled with
    | ok s => exact hhandled.endElement tag
    | error raised => exact hhandled
  refine hend _ ?_
  cases s.ld with
  | none => exact h
  | some texts =>
    dsimp only
    split_ifs
    · exact h.endLd texts
    · exact h

theorem PublicHtml.Balanced.handle (h : s.Balanced) (event : HtmlEvent) :
    (s.handle L P page event).collector.Balanced := by
  cases event with
  | start tag attrs => exact h.handleStarttag tag attrs
  | stop tag => exact h.handleEndtag tag
  | data text =>
    change (s.handleData page text).Balanced
    unfold PublicHtml.handleData
    dsimp only
    split_ifs <;> exact h

theorem PublicHtml.Balanced.feed (h : s.Balanced) (events : List HtmlEvent) :
    (s.feed L P page events).collector.Balanced := by
  induction events generalizing s with
  | nil => exact h
  | cons event events ih =>
    rw [feed_cons]
    have hnext : (s.handle L P page event).collector.Balanced := h.handle event
    cases hevent : s.handle L P page event with
    | ok s' =>
      rw [hevent] at hnext
      exact ih hnext
    | error raised =>
      rw [hevent] at hnext
      exact hnext

/-! ## What is collected -/

namespace HtmlDocument

variable (L P page) (doc : HtmlDocument)

/-- `PublicHTML` when it has been fed the document, or has raised. -/
def collector : PublicHtml :=
  (PublicHtml.initial.feed L P page (pageEvents [] doc.forest)).collector

/-- The texts that no element hides, inside the role where that is asked for. -/
def visibleTexts : List Str :=
  ((doc.forest.leaves []).filter fun leaf => visibleIn L page leaf.1).map Prod.snd

/-- The visible texts are collected in their order, between marks, and nothing else is; the stacks
are equally long all the time, and empty at the end. -/
structure Collected : Prop where
  parts : (doc.collector L P page).parts = (pageParts L page [] doc.forest).map Piece.shown
  texts : (pageParts L page [] doc.forest).filterMap Piece.text? = doc.visibleTexts L page
  balanced : ∀ front, front <+: pageEvents [] doc.forest →
    (PublicHtml.initial.feed L P page front).collector.Balanced
  stack : (doc.collector L P page).stack = []
  tags : (doc.collector L P page).tags = []
  scopes : (doc.collector L P page).scopes = []

variable {L page}

theorem texts_of_pieces : (pageParts L page [] doc.forest).filterMap Piece.text? =
    doc.visibleTexts L page := by
  have htexts : doc.visibleTexts L page = (doc.forest.leaves []).filterMap fun leaf =>
      (Option.guard (fun leaf => visibleIn L page leaf.1) leaf).map Prod.snd := by
    rw [← List.map_filterMap, List.filterMap_eq_filter]
    rfl
  rw [htexts]
  refine Forest.filterMap_walk (fun path e => ?_) (fun path e => ?_) (fun path text => ?_) [] _
  · unfold startMarks
    split_ifs <;> rfl
  · unfold endMarks
    split_ifs <;> rfl
  · unfold visibleText Option.guard
    dsimp only
    split_ifs <;> rfl

end HtmlDocument

theorem open_initial : Open L page [] [] none PublicHtml.initial :=
  ⟨rfl, rfl, rfl, rfl, rfl, fun _ h => absurd h List.not_mem_nil⟩

theorem balanced_initial : PublicHtml.initial.Balanced := ⟨rfl, rfl⟩

/-- **Hidden content is never collected, and all other content exactly if no handler raises**: if
`urljoin` accepts the address of each visible link, and structured data is read, or passed over, and
nests no deeper than `_jobs` can follow. -/
theorem collected_iff (L : Libraries) (P : Python) (page : PublicPage) (doc : HtmlDocument) :
    (doc.Collected L P page ↔ doc.forest.All (Returns L P page) []) ∧
      ∃ front, front <+: pageParts L page [] doc.forest ∧
        (doc.collector L P page).parts = front.map Piece.shown := by
  have hfed : Fed L page [] [] (pageParts L page [] doc.forest) none
      (doc.forest.All (Returns L P page) [])
      (PublicHtml.initial.feed L P page (pageEvents [] doc.forest)) :=
    open_initial.feed doc.well_nested
  have hcollector : doc.collector L P page =
    (PublicHtml.initial.feed L P page (pageEvents [] doc.forest)).collector := rfl
  generalize PublicHtml.initial.feed L P page (pageEvents [] doc.forest) = result
    at hfed hcollector
  cases hfed with
  | @returned s hreturns hopen =>
    change doc.collector L P page = s at hcollector
    refine ⟨⟨fun _ => hreturns, fun _ => ?_⟩, _, List.prefix_rfl, hcollector ▸ hopen.parts⟩
    exact ⟨hcollector ▸ hopen.parts, doc.texts_of_pieces,
      fun front _ => balanced_initial.feed front, hcollector ▸ hopen.stack,
      hcollector ▸ hopen.tags, hcollector ▸ hopen.scopes⟩
  | @raised e s front hraises hfront hparts htags =>
    change doc.collector L P page = s at hcollector
    refine ⟨⟨fun h => absurd h.tags ?_, fun h => absurd h hraises⟩, front, hfront, ?_⟩
    · rw [hcollector]
      exact htags
    · rw [hcollector]
      exact hparts

/-! ## A link in brackets -/

/-- `<a href="http://[">Apply</a><p>Visa sponsorship</p>`. -/
def bracketedLink : PageForest :=
  .node ⟨"a".toList, [("href".toList, some "http://[".toList)], .paired⟩
    (.leaf "Apply".toList .nil)
    (.node ⟨"p".toList, [], .paired⟩ (.leaf "Visa sponsorship".toList .nil) .nil)

theorem paired_nested {tag : Str} {attrs : List (Str × Option Str)}
    (htag : tag ∉ "script".toList :: voidTags) :
    PageElement.WellNested path ⟨tag, attrs, .paired⟩ children := by
  rw [PageElement.WellNested, if_pos rfl]
  exact ⟨fun hvoid => htag (List.mem_cons_of_mem _ hvoid),
    fun hscript => absurd (List.mem_cons.mpr (.inl hscript)) htag⟩

theorem bracketedLink_nested : bracketedLink.All PageElement.WellNested [] :=
  ⟨paired_nested (by decide), trivial, paired_nested (by decide), trivial, trivial⟩

/-- The visible text after a link with a bracket is lost. -/
theorem bracketed_link_raises :
    ∃ (doc : HtmlDocument) (page : PublicPage), doc.forest = bracketedLink ∧
      "Visa sponsorship".toList ∈ doc.visibleTexts Libraries.ascii page ∧
      "Visa sponsorship".toList ∉ (doc.collector Libraries.ascii Python.ascii page).parts ∧
      ¬ doc.Collected Libraries.ascii Python.ascii page := by
  refine ⟨⟨bracketedLink, bracketedLink_nested⟩,
    ⟨"https://acme.example/jobs/1".toList, false, 900⟩, rfl, by decide, by decide, fun h => ?_⟩
  exact absurd h.tags (by decide)

end JobPing
