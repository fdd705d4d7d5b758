import JobPing.ExtractionReturns
import JobPing.MarkdownParser

/-!
# Links in a text

`_replace_links_with_labels` takes the first opening bracket for the one of the next link. The text
before a link loses its first opening bracket, and the bracket of the link stays
(`replaceLinks_written`): the text is as it was exactly where nothing but opening brackets follows
that bracket (`link_stripping_iff`).
-/

namespace JobPing

/-! ## The scanner -/

/-- One round of the loop: what is shown up to the end of the next link, and what follows it. -/
def nextLink (value : Str) : Option (Str × Str) := do
  let (before, rest) ← splitAt "[".toList value
  let (label, rest) ← splitAt "](".toList rest
  let (_, rest) ← balancedUrlEnd '(' 0 rest
  return (before ++ label, rest)

variable {value rest visible text sub url : Str} {previous : Char} {depth n m : ℕ}

theorem replaceLinks_of_none (h : nextLink value = none) : replaceLinks n value = value := by
  cases n with
  | zero => rfl
  | succ n =>
    unfold nextLink at h
    simp only [replaceLinks, h]

theorem replaceLinks_of_some (h : nextLink value = some (visible, rest)) :
    replaceLinks (n + 1) value = visible ++ replaceLinks n rest := by
  unfold nextLink at h
  simp only [replaceLinks, h]

theorem splitAt_length {found : Str × Str} (h : splitAt sub text = some found) :
    found.1.length + sub.length + found.2.length = text.length := by
  obtain ⟨i, hi, rfl⟩ := Option.map_eq_some_iff.mp h
  obtain ⟨hle, -⟩ := strFind_spec hi
  rw [List.length_take, List.length_drop]
  omega

theorem balancedUrlEnd_length {found : Str × Str}
    (h : balancedUrlEnd previous depth text = some found) :
    found.1.length + 1 + found.2.length = text.length := by
  induction text generalizing previous depth found with
  | nil => cases h
  | cons c text ih =>
    rw [balancedUrlEnd] at h
    split_ifs at h
    · obtain rfl := Option.some.inj h
      simp only [List.length_nil, List.length_cons]
      omega
    all_goals
      obtain ⟨inner, hinner, rfl⟩ := Option.map_eq_some_iff.mp h
      have hlength := ih hinner
      simp only [List.length_cons]
      omega

/-- A link is longer than what is shown of it. -/
theorem nextLink_length (h : nextLink value = some (visible, rest)) :
    visible.length + rest.length < value.length := by
  obtain ⟨opened, hopened, h⟩ := Option.bind_eq_some_iff.mp h
  obtain ⟨closed, hclosed, h⟩ := Option.bind_eq_some_iff.mp h
  obtain ⟨ended, hended, h⟩ := Option.bind_eq_some_iff.mp h
  obtain ⟨rfl, rfl⟩ := Prod.mk.inj (Option.some.inj h)
  have hopen : opened.1.length + 1 + opened.2.length = value.length := splitAt_length hopened
  have hclose : closed.1.length + 2 + closed.2.length = opened.2.length := splitAt_length hclosed
  have hend := balancedUrlEnd_length hended
  rw [List.length_append]
  omega

/-- **The scanner terminates**: rounds beyond the length of the text change nothing. -/
theorem replaceLinks_fuel (hn : value.length ≤ n) (hm : value.length ≤ m) :
    replaceLinks n value = replaceLinks m value := by
  induction n generalizing m value with
  | zero =>
    obtain rfl := List.length_eq_zero_iff.mp (Nat.le_zero.mp hn)
    exact (replaceLinks_of_none rfl).symm
  | succ n ih =>
    cases hnext : nextLink value with
    | none => rw [replaceLinks_of_none hnext, replaceLinks_of_none hnext]
    | some found =>
      have hlength := nextLink_length hnext
      obtain ⟨m, rfl⟩ := Nat.exists_eq_add_of_lt (Nat.zero_lt_of_lt (hlength.trans_le hm))
      rw [Nat.zero_add] at hm ⊢
      rw [replaceLinks_of_some hnext, replaceLinks_of_some hnext,
        ih (m := m) (by omega) (by omega)]

theorem replaceLinksWithLabels_of_some (h : nextLink value = some (visible, rest)) :
    replaceLinksWithLabels value = visible ++ replaceLinksWithLabels rest := by
  have hlength := nextLink_length h
  obtain ⟨n, hn⟩ := Nat.exists_eq_add_of_lt (Nat.zero_lt_of_lt hlength)
  rw [Nat.zero_add] at hn
  rw [replaceLinksWithLabels, hn, replaceLinks_of_some h, replaceLinksWithLabels,
    replaceLinks_fuel (by omega) le_rfl]

/-! ## Links -/

/-- The parentheses of a kind in a text after `previous`; one after a backslash is none. -/
def parentheses (mark : Char) : Char → Str → ℕ
  | _, [] => 0
  | previous, c :: text =>
    (if c = mark ∧ previous ≠ '\\' then 1 else 0) + parentheses mark c text

/-- An address with balanced parentheses, which leaves the parenthesis after it a parenthesis. -/
structure BalancedUrl (url : Str) : Prop where
  nested : ∀ front, front <+: url → parentheses ')' '(' front ≤ parentheses '(' '(' front
  closed : parentheses ')' '(' url = parentheses '(' '(' url
  ends : url.getLast? ≠ some '\\'

/-- A link, with the plain text before it: pieces of plain text that follow each other are one text.
The text has no bracketed word that a parenthesis follows. -/
structure TextLink where
  text : Str
  label : Str
  url : Str
  text_plain : ¬ [']', '('] <:+: text
  opens : '[' ∉ label
  closes : ']' ∉ label
  balanced : BalancedUrl url

/-- Links, and the plain text after the last one. -/
structure LinkedText where
  links : List TextLink
  last : Str
  last_plain : ¬ [']', '('] <:+: last

/-- `text[label](url)`. -/
def TextLink.written (link : TextLink) : Str :=
  link.text ++ '[' :: (link.label ++ ']' :: '(' :: (link.url ++ [')']))

/-- The text with its links in Markdown. -/
def LinkedText.written (doc : LinkedText) : Str := doc.links.flatMap TextLink.written ++ doc.last

/-- The plain pieces and the labels. -/
def LinkedText.labelled (doc : LinkedText) : Str :=
  (doc.links.flatMap fun link => link.text ++ link.label) ++ doc.last

/-- Nothing but opening brackets follows the first opening bracket. -/
def EndsInBrackets (text : Str) : Prop := ∀ c ∈ text.dropWhile (· ≠ '['), c = '['

/-- The scanner finds the end of a balanced address. -/
theorem balancedUrlEnd_of_nested
    (hnested : ∀ front, front <+: url →
      parentheses ')' previous front ≤ depth + parentheses '(' previous front)
    (hclosed : parentheses ')' previous url = depth + parentheses '(' previous url)
    (hends : (previous :: url).getLast? ≠ some '\\') (rest : Str) :
    balancedUrlEnd previous depth (url ++ ')' :: rest) = some (url, rest) := by
  induction url generalizing previous depth with
  | nil =>
    have hdepth : depth = 0 := by simpa [parentheses] using hclosed.symm
    have hprevious : previous ≠ '\\' := fun heq => hends (congrArg some heq)
    rw [List.nil_append, balancedUrlEnd, if_pos (by simp [hdepth, hprevious])]
  | cons c url ih =>
    rw [List.getLast?_cons_cons] at hends
    have hone := hnested [c] ⟨url, rfl⟩
    have htail (front : Str) (hfront : front <+: url) :=
      hnested (c :: front) ((List.prefix_cons_inj c).mpr hfront)
    simp only [parentheses, Nat.add_zero] at hone htail hclosed
    rw [List.cons_append, balancedUrlEnd]
    by_cases hescaped : previous = '\\'
    · simp only [hescaped, ne_eq, not_true_eq_false, and_false, if_false, Nat.zero_add]
        at htail hclosed
      simp [hescaped, ih htail hclosed hends]
    · by_cases hopen : c = '('
      · subst hopen
        have hinner : balancedUrlEnd '(' (depth + 1) (url ++ ')' :: rest) = some (url, rest) :=
          ih (fun front hfront => by have := htail front hfront; simp [hescaped] at this; omega)
            (by simp [hescaped] at hclosed; omega) hends
        simp [hescaped, hinner]
      · by_cases hclose : c = ')'
        · subst hclose
          have hdepth : 1 ≤ depth := by simpa [hescaped] using hone
          have hinner : balancedUrlEnd ')' (depth - 1) (url ++ ')' :: rest) = some (url, rest) :=
            ih (fun front hfront => by have := htail front hfront; simp [hescaped] at this; omega)
              (by simp [hescaped] at hclosed; omega) hends
          simp [hescaped, hinner]
          omega
        · simp only [hopen, hclose, false_and, if_false, Nat.zero_add] at htail hclosed
          simp [hopen, hclose, ih htail hclosed hends]

theorem BalancedUrl.found (h : BalancedUrl url) (rest : Str) :
    balancedUrlEnd '(' 0 (url ++ ')' :: rest) = some (url, rest) := by
  refine balancedUrlEnd_of_nested (fun front hfront => ?_) ?_ ?_ rest
  · rw [Nat.zero_add]
    exact h.nested front hfront
  · rw [Nat.zero_add]
    exact h.closed
  · cases url with
    | nil => exact fun heq => absurd (Option.some.inj heq) (by decide)
    | cons c url =>
      rw [List.getLast?_cons_cons]
      exact h.ends

/-! ## Reading a link -/

theorem splitAt_of_find (h : strFind sub text = some n) :
    splitAt sub text = some (text.take n, text.drop (n + sub.length)) :=
  Option.map_eq_some_iff.mpr ⟨n, h, rfl⟩

theorem splitAt_bracket (h : '[' ∉ text) (rest : Str) :
    splitAt ['['] (text ++ '[' :: rest) = some (text, rest) := by
  have hfind : strFind ['['] (text ++ '[' :: rest) = some text.length := by
    induction text with
    | nil => rfl
    | cons c text ih =>
      obtain ⟨hc, htext⟩ := not_or.mp (mt List.mem_cons.mpr h)
      rw [List.cons_append, strFind, ih htext, if_neg]
      · rfl
      · intro hfront
        exact hc (List.cons_prefix_cons.mp (List.isPrefixOf_iff_prefix.mp hfront)).1
  rw [splitAt_of_find hfind, List.take_left, ← List.drop_drop, List.drop_left]
  rfl

/-- No `](` ends beyond a text before a character that is no parenthesis. -/
theorem target_front {c x : Char} (hx : x ≠ '(') (h : [']', '('] <+: c :: (text ++ x :: rest)) :
    [']', '('] <+: c :: text := by
  obtain ⟨rfl, hfront⟩ := List.cons_prefix_cons.mp h
  cases text with
  | nil => exact absurd (List.cons_prefix_cons.mp hfront).1.symm hx
  | cons d text =>
    obtain ⟨rfl, -⟩ := List.cons_prefix_cons.mp hfront
    exact ⟨text, rfl⟩

theorem not_target_label (h : ¬ [']', '('] <:+: text) {label : Str} (hlabel : ']' ∉ label) :
    ¬ [']', '('] <:+: text ++ '[' :: label := by
  induction text with
  | nil =>
    intro hpart
    rcases List.mem_cons.mp (hpart.subset List.mem_cons_self) with heq | hmem
    · exact absurd heq (by decide)
    · exact hlabel hmem
  | cons c text ih =>
    obtain ⟨hbegins, htext⟩ := not_or.mp (mt List.infix_cons_iff.mpr h)
    intro hpart
    rcases List.infix_cons_iff.mp hpart with hfront | hpart
    · exact hbegins (target_front (by decide) hfront)
    · exact ih htext hpart

/-- The first `](` is not one that begins in a text without one. -/
theorem splitAt_target (h : ¬ [']', '('] <:+: text) (rest : Str) :
    splitAt [']', '('] (text ++ ']' :: '(' :: rest) = some (text, rest) := by
  have hfind : strFind [']', '('] (text ++ ']' :: '(' :: rest) = some text.length := by
    induction text with
    | nil => rfl
    | cons c text ih =>
      obtain ⟨hbegins, htext⟩ := not_or.mp (mt List.infix_cons_iff.mpr h)
      rw [List.cons_append, strFind, ih htext, if_neg]
      · rfl
      · exact fun hfront =>
          hbegins (target_front (by decide) (List.isPrefixOf_iff_prefix.mp hfront))
  rw [splitAt_of_find hfind, List.take_left, ← List.drop_drop, List.drop_left]
  rfl

theorem nextLink_of_no_target (h : ¬ [']', '('] <:+: text) : nextLink text = none := by
  unfold nextLink
  cases hopened : splitAt "[".toList text with
  | none => rfl
  | some found =>
    have hrest : ¬ "](".toList <:+: found.2 := by
      obtain ⟨i, -, rfl⟩ := Option.map_eq_some_iff.mp hopened
      exact fun hpart => h (hpart.trans (List.drop_suffix _ _).isInfix)
    have hclosed : splitAt "](".toList found.2 = none := by
      rw [splitAt, Option.map_eq_none_iff, ← Option.not_isSome_iff_eq_none, strFind_isSome]
      exact hrest
    simp only [Option.bind_eq_bind, Option.bind_some, hclosed, Option.bind_none]

/-- The text up to the first opening bracket of a text with an opening bracket after it, and what
stands between the bracket and the label. -/
theorem first_bracket (text : Str) :
    ∃ before after, text ++ ['['] = before ++ '[' :: after ∧ '[' ∉ before ∧
      (text ++ ['[']).erase '[' = before ++ after := by
  have hmem : '[' ∈ text ++ ['['] := List.mem_append_right _ List.mem_cons_self
  obtain ⟨before, after, hbefore, hsplit, herase⟩ := List.exists_erase_eq hmem
  exact ⟨before, after, hsplit, hbefore, herase⟩

/-- **A link is read** with the text before it, which loses its first opening bracket. -/
theorem nextLink_written (link : TextLink) (rest : Str) :
    nextLink (link.written ++ rest) =
      some ((link.text ++ ['[']).erase '[' ++ link.label, rest) := by
  obtain ⟨before, after, hsplit, hbefore, herase⟩ := first_bracket link.text
  have hwritten : link.written ++ rest =
      before ++ '[' :: ((after ++ link.label) ++ ']' :: '(' :: (link.url ++ ')' :: rest)) := by
    calc link.written ++ rest
        = (link.text ++ ['[']) ++ (link.label ++ ']' :: '(' :: (link.url ++ ')' :: rest)) := by
          simp [TextLink.written]
      _ = before ++ '[' :: ((after ++ link.label) ++ ']' :: '(' :: (link.url ++ ')' :: rest)) := by
          rw [hsplit]
          simp
  have hopened : splitAt "[".toList (link.written ++ rest) =
      some (before, (after ++ link.label) ++ ']' :: '(' :: (link.url ++ ')' :: rest)) :=
    hwritten ▸ splitAt_bracket hbefore _
  have htarget : ¬ [']', '('] <:+: after ++ link.label := by
    have hlabel : link.text ++ '[' :: link.label = before ++ '[' :: (after ++ link.label) := by
      calc link.text ++ '[' :: link.label
          = (link.text ++ ['[']) ++ link.label := by simp
        _ = before ++ '[' :: (after ++ link.label) := by rw [hsplit, List.append_assoc]; rfl
    have hnone := not_target_label link.text_plain link.closes
    rw [hlabel] at hnone
    exact fun hpart =>
      hnone (hpart.trans ((List.suffix_cons _ _).trans (List.suffix_append _ _)).isInfix)
  have hclosed : splitAt "](".toList
      ((after ++ link.label) ++ ']' :: '(' :: (link.url ++ ')' :: rest)) =
        some (after ++ link.label, link.url ++ ')' :: rest) := splitAt_target htarget _
  unfold nextLink
  simp only [Option.bind_eq_bind, Option.bind_some, hopened, hclosed, link.balanced.found, herase]
  rw [List.append_assoc]
  rfl

/-- **What becomes of a text with links**: each text before a link loses its first opening bracket,
and the bracket of the link stays. -/
theorem replaceLinks_written (links : List TextLink) {last : Str}
    (hlast : ¬ [']', '('] <:+: last) :
    replaceLinksWithLabels (links.flatMap TextLink.written ++ last) =
      (links.flatMap fun link => (link.text ++ ['[']).erase '[' ++ link.label) ++ last := by
  induction links with
  | nil => exact replaceLinks_of_none (nextLink_of_no_target hlast)
  | cons link links ih =>
    rw [List.flatMap_cons, List.flatMap_cons, List.append_assoc, List.append_assoc,
      replaceLinksWithLabels_of_some (nextLink_written link _), ih]

/-! ## Brackets -/

theorem concat_eq_cons_iff {c : Char} : text ++ [c] = c :: text ↔ ∀ x ∈ text, x = c := by
  induction text with
  | nil => simp
  | cons x text ih =>
    rw [List.cons_append, List.cons.injEq, List.forall_mem_cons]
    refine and_congr_right fun hx => ?_
    rw [hx]
    exact ih

/-- A text with an opening bracket after it loses the first one. -/
theorem erase_bracket_iff : (text ++ ['[']).erase '[' = text ↔ EndsInBrackets text := by
  induction text with
  | nil => simp [EndsInBrackets]
  | cons c text ih =>
    by_cases hc : c = '['
    · subst hc
      rw [List.cons_append, List.erase_cons_head, concat_eq_cons_iff]
      simp [EndsInBrackets]
    · rw [List.cons_append, List.erase_cons_tail (by simpa using hc), List.cons_inj_right, ih]
      simp [EndsInBrackets, hc]

/-- A link keeps its length but for its markup. -/
theorem length_erase_bracket : ((text ++ ['[']).erase '[').length = text.length := by
  rw [List.length_erase_of_mem (List.mem_append_right _ List.mem_cons_self), List.length_append]
  rfl

/-- The texts are as they were exactly where each of them is. -/
theorem erase_brackets_iff {links : List TextLink} {last : Str} :
    (links.flatMap fun link => (link.text ++ ['[']).erase '[' ++ link.label) ++ last =
        (links.flatMap fun link => link.text ++ link.label) ++ last ↔
      ∀ link ∈ links, EndsInBrackets link.text := by
  rw [List.append_left_inj]
  induction links with
  | nil => simp
  | cons link links ih =>
    rw [List.flatMap_cons, List.flatMap_cons, List.forall_mem_cons, ← erase_bracket_iff, ← ih]
    have hlength : ((link.text ++ ['[']).erase '[' ++ link.label).length =
        (link.text ++ link.label).length := by
      rw [List.length_append, length_erase_bracket, List.length_append]
    constructor
    · intro heq
      obtain ⟨hfirst, hrest⟩ := List.append_inj heq hlength
      exact ⟨List.append_cancel_right hfirst, hrest⟩
    · rintro ⟨hfirst, hrest⟩
      rw [hfirst, hrest]

/-- **Link stripping** leaves the plain text and the labels exactly where every text before a link
ends in its opening brackets; and on every string it ends: each round leaves a shorter rest, and
rounds beyond the length of the string change nothing. -/
theorem link_stripping_iff (doc : LinkedText) (value : Str) :
    (replaceLinksWithLabels doc.written = doc.labelled ↔
      ∀ link ∈ doc.links, EndsInBrackets link.text) ∧
    (∀ rounds, value.length ≤ rounds →
      replaceLinks rounds value = replaceLinksWithLabels value) ∧
    (nextLink value = none → replaceLinksWithLabels value = value) ∧
    ∀ visible rest, nextLink value = some (visible, rest) →
      rest.length < value.length ∧
        replaceLinksWithLabels value = visible ++ replaceLinksWithLabels rest := by
  refine ⟨?_, fun _ hrounds => replaceLinks_fuel hrounds le_rfl, replaceLinks_of_none,
    fun visible rest hsome => ⟨?_, ?_⟩⟩
  · rw [LinkedText.written, LinkedText.labelled, replaceLinks_written doc.links doc.last_plain]
    exact erase_brackets_iff
  · have hlength := nextLink_length hsome
    omega
  · exact replaceLinksWithLabels_of_some hsome

theorem bracketed_word_plain : ¬ [']', '('] <:+: "[x] ".toList := by decide

theorem no_bracket_opens : '[' ∉ "label".toList := by decide

theorem no_bracket_closes : ']' ∉ "label".toList := by decide

theorem no_parentheses_balanced : BalancedUrl "url".toList where
  nested front hfront :=
    have hinits : ∀ front ∈ "url".toList.inits,
      parentheses ')' '(' front ≤ parentheses '(' '(' front := by decide
    hinits front ((List.mem_inits front _).mpr hfront)
  closed := rfl
  ends := by decide

/-- A bracketed word loses its bracket to the link after it. -/
theorem bracket_moved :
    ∃ doc : LinkedText, doc.written = "[x] [label](url)".toList ∧
      replaceLinksWithLabels doc.written = "x] [label".toList ∧
      replaceLinksWithLabels doc.written ≠ doc.labelled :=
  ⟨⟨[⟨"[x] ".toList, "label".toList, "url".toList, bracketed_word_plain, no_bracket_opens,
    no_bracket_closes, no_parentheses_balanced⟩], [], by decide⟩, by decide, by decide, by decide⟩

end JobPing
