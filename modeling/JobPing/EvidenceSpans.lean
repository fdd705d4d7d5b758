import JobPing.PageExtraction
import JobPing.Raising
import Mathlib.Data.List.ReduceOption

/-!
# The spans of the evidence

The patterns are run over a copy of the text in which the points of `U.S.` are hidden. The copy is as
long as the text, so the place of a clause in it is its place in the text, and every span is one of
the text (`evidence_spans`).
-/

namespace JobPing

open Raising

variable {L : Libraries} {text sub : Str} {page : Page}

/-! ## Places in the text -/

@[simp] theorem hidePoints_length (text : Str) : (hidePoints text).length = text.length := by
  induction text using hidePoints.induct with
  | case1 rest ih => simp [hidePoints, ih]
  | case2 c rest hne ih =>
    rw [hidePoints, List.length_cons, List.length_cons, ih]
    exact hne
  | case3 => rfl

theorem slice_infix (text : Str) (start stop : ℕ) : slice text start stop <:+: text :=
  (List.take_prefix _ _).isInfix.trans (List.drop_suffix _ _).isInfix

theorem strip_infix (s : Str) : L.strip s <:+: s := by
  have hdrop : s.dropWhile L.isSpace <:+: s := (List.dropWhile_suffix _).isInfix
  have hrev := List.reverse_infix.mpr
    (List.dropWhile_suffix L.isSpace (l := (s.dropWhile L.isSpace).reverse)).isInfix
  rw [List.reverse_reverse] at hrev
  exact hrev.trans hdrop

theorem strFind_spec {n : ℕ} (h : strFind sub text = some n) :
    n + sub.length ≤ text.length ∧ slice text n (n + sub.length) = sub := by
  induction text generalizing n with
  | nil =>
    rw [strFind] at h
    split_ifs at h with hsub
    obtain rfl := Option.some.inj h
    subst hsub
    exact ⟨le_rfl, rfl⟩
  | cons c text ih =>
    rw [strFind] at h
    split_ifs at h with hprefix
    · obtain rfl := Option.some.inj h
      have hsub := List.isPrefixOf_iff_prefix.mp hprefix
      refine ⟨(Nat.zero_add _).symm ▸ hsub.length_le, ?_⟩
      rw [slice, List.drop_zero, Nat.zero_add, Nat.sub_zero]
      exact (List.prefix_iff_eq_take.mp hsub).symm
    · obtain ⟨m, hm, rfl⟩ := Option.map_eq_some_iff.mp h
      obtain ⟨hle, hslice⟩ := ih hm
      refine ⟨by rw [List.length_cons]; omega, ?_⟩
      rw [slice] at hslice ⊢
      rw [List.drop_succ_cons]
      convert hslice using 2
      omega

/-- A place in the text, with what stands there. -/
structure Span.In (span : Span) (text : Str) : Prop where
  nonempty : span.start < span.stop
  bounded : span.stop ≤ text.length
  quote_eq : slice text span.start span.stop = span.quote

theorem in_of_find {n : ℕ} {field : SpanField} (h : strFind sub text = some n) (hne : sub ≠ []) :
    Span.In ⟨n, n + sub.length, field, sub⟩ text := by
  obtain ⟨hle, hslice⟩ := strFind_spec h
  exact ⟨Nat.lt_add_of_pos_right (List.length_pos_iff.mpr hne), hle, hslice⟩

/-! ## Clauses -/

/-- The clauses are in their places. -/
theorem pageClauses_in {clause : PageClause} (h : clause ∈ pageClauses L text) :
    clause.start < clause.stop ∧ clause.stop ≤ text.length ∧
      clause.original = slice text clause.start clause.stop := by
  obtain ⟨sentence, hsentence, hclause⟩ := List.mem_flatMap.mp h
  obtain ⟨m, hm, hstated⟩ := List.mem_filterMap.mp hclause
  have hplace := Regex.finditer_spec (List.mem_of_mem_filter hsentence)
  have hpart := Regex.finditer_spec hm
  -- a sentence is as long as its place, so a clause of it ends before it does
  have hlength : sentence.text.length ≤ sentence.stop - sentence.start := by
    rw [hplace.text_eq]
    exact List.length_take_le _ _
  have hle := hplace.bounded
  rw [hidePoints_length] at hle
  have hlt := hplace.nonempty
  have hpartlt := hpart.nonempty
  have hpartle := hpart.bounded
  simp only [Option.ite_none_right_eq_some, Option.some.injEq] at hstated
  obtain ⟨-, rfl⟩ := hstated
  refine ⟨?_, ?_, rfl⟩
  · simp only
    omega
  · simp only
    omega

theorem clauseSpans_in {clause : PageClause} (h : clause ∈ pageClauses L page.text) {span : Span}
    (hspan : span ∈ page.clauseSpans L clause) : span.In page.text := by
  obtain ⟨hlt, hle, horiginal⟩ := pageClauses_in h
  obtain ⟨field, -, rfl⟩ := List.mem_map.mp hspan
  exact ⟨hlt, hle, horiginal.symm⟩

/-- The evidence of the facts is quoted from the text. -/
theorem clause_excerpt_infix {clause : Clause} {structuredPay textPay : List Pay}
    (h : clause ∈ (pageRules L structuredPay textPay).clauses text) : clause.excerpt <:+: text := by
  obtain ⟨placed, hplaced, rfl⟩ := List.mem_map.mp h
  obtain ⟨-, -, horiginal⟩ := pageClauses_in hplaced
  have hinfix : L.strip placed.original <:+: placed.original := strip_infix placed.original
  refine hinfix.trans ?_
  rw [horiginal]
  exact slice_infix _ _ _

section Facts

variable {rules : TextRules} {document : Document} {clause : Clause} {e : Evidence}

theorem statement_evidence {key : PolicyKind} {s : PolicyKind × PolicyValue × Evidence}
    (h : s ∈ policyStatements rules document clause key) : s.2.2 = document.evidence clause := by
  unfold policyStatements at h
  extract_lets evidence found value at h
  split_ifs at h <;> simp only [List.mem_cons, List.not_mem_nil, or_false] at h
  · rcases h with rfl | rfl <;> rfl
  · rw [h]
  · rw [h]

theorem foundPolicy_evidence {l : List (PolicyValue × Evidence)} {fact : PolicyFact}
    (h : foundPolicy l = some fact) (he : e ∈ fact.evidence) : e ∈ l.map (·.2) := by
  cases l with
  | nil => cases h
  | cons first rest =>
    obtain rfl := Option.some.inj h
    exact List.map_subset _ (List.take_subset _ _) he

theorem mergeRestrictions_evidence {found : List Restriction} {restriction : Restriction}
    (h : mergeRestrictions found = some restriction) (he : e ∈ restriction.evidence) :
    ∃ r ∈ found, e ∈ r.evidence := by
  induction found using List.reverseRecOn generalizing restriction with
  | nil => cases h
  | append_singleton found r ih =>
    rw [mergeRestrictions, List.foldl_append] at h
    obtain rfl := Option.some.inj h
    change e ∈ (mergeRestriction (mergeRestrictions found) r).evidence at he
    cases hprevious : mergeRestrictions found with
    | none =>
      rw [hprevious] at he
      exact ⟨r, by simp, he⟩
    | some previous =>
      rw [hprevious] at he
      rcases List.mem_append.mp (List.mem_of_mem_take he) with he | he
      · obtain ⟨r', hr', he'⟩ := ih hprevious he
        exact ⟨r', List.mem_append_left _ hr', he'⟩
      · exact ⟨r, by simp, he⟩

/-- The evidence of a policy quotes a clause. -/
theorem extract_policy_evidence {key : PolicyKind} {fact : PolicyFact}
    (h : (extract rules document).policies key = some fact) (he : e ∈ fact.evidence) :
    ∃ clause ∈ rules.clauses document.text, e = document.evidence clause := by
  unfold extract at h
  split_ifs at h
  · cases h
  · have hmem := foundPolicy_evidence h he
    simp only [List.mem_map, List.mem_filter, List.mem_flatMap] at hmem
    obtain ⟨-, ⟨s, ⟨⟨clause, hclause, key', -, hs⟩, -⟩, rfl⟩, rfl⟩ := hmem
    exact ⟨clause, hclause, statement_evidence hs⟩

/-- So does that of a restriction. -/
theorem extract_restriction_evidence {kind : RestrictionKind} {restriction : Restriction}
    (h : (extract rules document).restrictions kind = some restriction)
    (he : e ∈ restriction.evidence) :
    ∃ clause ∈ rules.clauses document.text, e = document.evidence clause := by
  unfold extract at h
  split_ifs at h
  · cases h
  · obtain ⟨r, hr, he⟩ := mergeRestrictions_evidence h he
    obtain ⟨clause, hclause, hr⟩ := List.mem_filterMap.mp hr
    simp only [clauseRestriction, Option.ite_none_right_eq_some, Option.some.injEq] at hr
    obtain ⟨-, rfl⟩ := hr
    exact ⟨clause, hclause, List.mem_singleton.mp he⟩

end Facts

/-! ## Pay -/

theorem makeEvidence_ok {source excerpt : Str} {sourceUrl : Option Str} {observedAt : Time}
    {e : Evidence} (h : makeEvidence L source sourceUrl excerpt observedAt = .ok e) :
    e.excerpt = excerpt ∧ excerpt ≠ [] := by
  unfold makeEvidence at h
  split at h
  · split_ifs at h with hfits
    obtain rfl := Except.ok.inj h
    rw [Bool.and_eq_true, fits, fits, Bool.and_eq_true, Bool.and_eq_true] at hfits
    exact ⟨rfl, List.length_pos_iff.mp (of_decide_eq_true hfits.2.1)⟩
  · cases h

theorem makeEvidence_error {source excerpt : Str} {sourceUrl : Option Str} {observedAt : Time}
    {e : Raised} (h : makeEvidence L source sourceUrl excerpt observedAt = .error e) :
    e = .validationError := by
  unfold makeEvidence at h
  split at h
  · split_ifs at h
    exact (Except.error.inj h).symm
  · exact (Except.error.inj h).symm

theorem PayFields.pay_evidence {fields : PayFields} {e : Evidence} {pay : Pay}
    (h : fields.pay e = some pay) : pay.toEvidence = e := by
  simp only [PayFields.pay, Option.bind_eq_bind, Option.bind_eq_some_iff] at h
  obtain ⟨minimum, -, maximum, -, currency, -, interval, -, location, -, component, -, h⟩ := h
  split_ifs at h
  obtain rfl := Option.some.inj h
  rfl

theorem PayFields.validate_ok {fields : PayFields} {evidence : Except Raised Evidence} {pay : Pay}
    (h : fields.validate evidence = .ok pay) : evidence = .ok pay.toEvidence := by
  obtain ⟨e, he, hpay⟩ := Raising.bind_eq_ok.mp h
  cases hfields : fields.pay e with
  | none =>
    simp only [hfields] at hpay
    cases hpay
  | some pay' =>
    simp only [hfields] at hpay
    obtain rfl := Except.ok.inj hpay
    rw [he, PayFields.pay_evidence hfields]

theorem caught_eq_some {errors : List Raised} {range : Except Raised Pay} {pay : Pay}
    (h : caught errors range = .ok (some pay)) : range = .ok pay := by
  unfold caught at h
  split at h
  · exact congrArg Except.ok (Option.some.inj (Except.ok.inj h))
  · split_ifs at h
    cases h

/-- A range that is validated has a quote. -/
theorem quoted_of_validate {fields : PayFields} {source excerpt : Str} {sourceUrl : Option Str}
    {observedAt : Time} {pay : Pay}
    (h : fields.validate (makeEvidence L source sourceUrl excerpt observedAt) = .ok pay) :
    pay.excerpt = excerpt ∧ pay.excerpt ≠ [] := by
  obtain ⟨hexcerpt, hne⟩ := makeEvidence_ok (PayFields.validate_ok h)
  rw [hexcerpt]
  exact ⟨rfl, hne⟩

section Details

variable {now : Time} {raw : RawJobPayload} {pay : Pay}

theorem salaryRange_quoted {structured : Entries}
    (h : raw.salaryRange L now structured = .ok (some pay)) : pay.excerpt ≠ [] := by
  obtain ⟨_, -, h⟩ := Raising.bind_eq_ok.mp (caught_eq_some h)
  obtain ⟨_, -, h⟩ := Raising.bind_eq_ok.mp h
  obtain ⟨_, -, h⟩ := Raising.bind_eq_ok.mp h
  exact (quoted_of_validate h).2

theorem inputRange_quoted {item : Entries} (h : raw.inputRange L now item = .ok (some pay)) :
    pay.excerpt ≠ [] := by
  obtain ⟨_, -, h⟩ := Raising.bind_eq_ok.mp h
  obtain ⟨_, -, h⟩ := Raising.bind_eq_ok.mp h
  obtain ⟨_, -, h⟩ := Raising.bind_eq_ok.mp (caught_eq_some h)
  obtain ⟨_, -, h⟩ := Raising.bind_eq_ok.mp h
  obtain ⟨_, -, h⟩ := Raising.bind_eq_ok.mp h
  exact (quoted_of_validate h).2

theorem statedRange_quoted {line : Str} {m : Regex.Match Char PayGroup}
    (h : raw.statedRange L now line m = .ok (some pay)) : pay.excerpt ≠ [] := by
  unfold RawJobPayload.statedRange at h
  extract_lets currency at h
  split at h
  · cases h
  · obtain ⟨_, -, h⟩ := Raising.bind_eq_ok.mp (caught_eq_some h)
    obtain ⟨_, -, h⟩ := Raising.bind_eq_ok.mp h
    exact (quoted_of_validate h).2

theorem linePay_quoted {line : Str} {pays : List Pay} (h : raw.linePay L now line = .ok pays)
    (hpay : pay ∈ pays) : pay.excerpt ≠ [] := by
  unfold RawJobPayload.linePay at h
  split_ifs at h
  · obtain rfl := Except.ok.inj h
    cases hpay
  · obtain ⟨ranges, hranges, rfl⟩ := map_eq_ok.mp h
    obtain ⟨m, -, hm⟩ := exists_of_mapM hranges (List.reduceOption_mem_iff.mp hpay)
    exact statedRange_quoted hm

theorem compensation_quoted {text : Str} {pays : List Pay}
    (h : raw.compensation L now text = .ok pays) (hpay : pay ∈ pays) : pay.excerpt ≠ [] := by
  obtain ⟨salary, hsalary, h⟩ := Raising.bind_eq_ok.mp h
  obtain ⟨ranges, hranges, h⟩ := Raising.bind_eq_ok.mp h
  dsimp only at h
  split_ifs at h with hposted
  · obtain rfl := Except.ok.inj h
    rcases List.mem_cons.mp (List.reduceOption_mem_iff.mp hpay) with rfl | hmem
    · unfold RawJobPayload.salary at hsalary
      split at hsalary
      · exact salaryRange_quoted hsalary
      · cases hsalary
    · obtain ⟨item, -, hitem⟩ := exists_of_mapM hranges hmem
      exact inputRange_quoted hitem
  · obtain ⟨lines, hlines, rfl⟩ := map_eq_ok.mp h
    obtain ⟨found, hfound, hmem⟩ := List.mem_flatten.mp hpay
    obtain ⟨line, -, hline⟩ := exists_of_mapM hlines hfound
    exact linePay_quoted hline hmem

theorem extractJobDetails_quoted {found : FoundDetails}
    (h : extractJobDetails L now raw = .ok (some found)) (hpay : pay ∈ found.compensation) :
    pay.excerpt ≠ [] := by
  obtain ⟨text, -, h⟩ := Raising.bind_eq_ok.mp h
  obtain ⟨policies, -, h⟩ := Raising.bind_eq_ok.mp h
  dsimp only at h
  split at h
  · have hfound := Except.ok.inj h
    split_ifs at hfound
    obtain rfl := Option.some.inj hfound
    cases hpay
  · obtain ⟨pays, hpays, h⟩ := Raising.bind_eq_ok.mp h
    have hfound := Except.ok.inj h
    split_ifs at hfound
    obtain rfl := Option.some.inj hfound
    exact compensation_quoted hpays (List.mem_of_mem_take hpay)

end Details

theorem prefixRange_quoted {m : Regex.Match Char PayGroup} {pay : Pay} {ambiguous : Bool}
    (h : page.prefixRange L m = .ok (some (pay, ambiguous))) : pay.excerpt ≠ [] := by
  unfold Page.prefixRange at h
  extract_lets symbol inUs paragraph component range at h
  split at h
  · cases h
  · obtain ⟨found, hrange, h⟩ := map_eq_ok.mp h
    obtain ⟨pay', rfl, hpair⟩ := Option.map_eq_some_iff.mp h
    obtain rfl := (Prod.ext_iff.mp hpair).1
    obtain ⟨_, -, h⟩ := Raising.bind_eq_ok.mp (caught_eq_some hrange)
    obtain ⟨_, -, h⟩ := Raising.bind_eq_ok.mp h
    obtain ⟨_, -, h⟩ := Raising.bind_eq_ok.mp h
    exact (quoted_of_validate h).2

theorem worded_excerpt (range : Pay × Bool) : (page.worded L range).excerpt = range.1.excerpt := by
  unfold Page.worded Page.wordedBounds
  split_ifs <;> rfl

theorem textPay_quoted {pays : List Pay} (h : page.textPay L = .ok pays) {pay : Pay}
    (hpay : pay ∈ pays) : pay.excerpt ≠ [] := by
  obtain ⟨parsed, hparsed, h⟩ := Raising.bind_eq_ok.mp h
  obtain ⟨prefixed, hprefixed, h⟩ := Raising.bind_eq_ok.mp h
  obtain rfl := Except.ok.inj h
  obtain ⟨range, hrange, rfl⟩ := List.mem_map.mp hpay
  rw [worded_excerpt]
  rcases List.mem_append.mp hrange with hrange | hrange
  · obtain ⟨pay, hfound, rfl⟩ := List.mem_map.mp hrange
    cases parsed with
    | none => cases hfound
    | some found => exact extractJobDetails_quoted hparsed hfound
  · obtain ⟨m, -, hm⟩ := exists_of_mapM hprefixed (List.reduceOption_mem_iff.mp hrange)
    exact prefixRange_quoted hm

/-- A range of the structured data stands in the text. -/
theorem structuredRange_in {item : Entries} {pay : Pay} {span : Span}
    (h : page.structuredRange L item = .ok (some (pay, span))) : span.In page.text := by
  unfold Page.structuredRange at h
  split at h
  · next excerpt _ =>
    cases hfind : strFind excerpt page.text with
    | none =>
      simp only [hfind] at h
      cases h
    | some start =>
      simp only [hfind] at h
      split at h
      · cases h
      · next hne =>
        obtain ⟨scope, -, h⟩ := Raising.bind_eq_ok.mp h
        obtain ⟨range, -, h⟩ := Raising.bind_eq_ok.mp h
        obtain ⟨pay', -, h⟩ := Option.map_eq_some_iff.mp (Except.ok.inj h)
        obtain rfl := (Prod.ext_iff.mp h).2
        exact in_of_find hfind hne
  · cases h

/-- **Evidence spans are exact.** Where `extract` returns, every span is a place in the text of the
document with what stands there, and the evidence of policies and restrictions quotes the text. -/
theorem evidence_spans (L : Libraries) (page : Page) {facts : Facts} {spans : List Span}
    (h : page.extract L = .ok (facts, spans)) :
    (∀ span ∈ spans, 0 ≤ span.start ∧ span.start < span.stop ∧ span.stop ≤ page.text.length ∧
      slice page.text span.start span.stop = span.quote) ∧
    (∀ key fact, facts.policies key = some fact → ∀ e ∈ fact.evidence, e.excerpt <:+: page.text) ∧
    ∀ kind restriction, facts.restrictions kind = some restriction →
      ∀ e ∈ restriction.evidence, e.excerpt <:+: page.text := by
  unfold Page.extract at h
  split_ifs at h with hkind
  · cases Except.ok.inj h
    refine ⟨fun span hspan => ?_, fun key fact hfact => ?_, fun kind restriction hfact => ?_⟩
    · cases hspan
    · cases hfact
    · cases hfact
  · obtain ⟨⟨found, quoted⟩, hfindings, h⟩ := Raising.bind_eq_ok.mp h
    obtain ⟨textPay, htext, h⟩ := Raising.bind_eq_ok.mp h
    obtain ⟨structured, hstructured, h⟩ := Raising.bind_eq_ok.mp h
    cases Except.ok.inj h
    refine ⟨fun span hspan => ?_, fun key fact hfact e he => ?_,
      fun kind restriction hfact e he => ?_⟩
    · suffices hin : span.In page.text from
        ⟨Nat.zero_le _, hin.nonempty, hin.bounded, hin.quote_eq⟩
      rcases List.mem_append.mp hspan with hspan | hspan
      · rcases List.mem_append.mp hspan with hspan | hspan
        · rw [Page.findings, if_neg hkind] at hfindings
          obtain ⟨-, -, hfindings⟩ := Raising.bind_eq_ok.mp hfindings
          cases Except.ok.inj hfindings
          obtain ⟨clause, hclause, hspan⟩ := List.mem_flatMap.mp hspan
          exact clauseSpans_in hclause hspan
        · obtain ⟨⟨pay, span⟩, hpay, rfl⟩ := List.mem_map.mp hspan
          obtain ⟨item, -, hitem⟩ := exists_of_mapM hstructured (List.reduceOption_mem_iff.mp hpay)
          exact structuredRange_in hitem
      · obtain ⟨pay, hpay, hspan⟩ := List.mem_filterMap.mp hspan
        obtain ⟨start, hstart, rfl⟩ := Option.map_eq_some_iff.mp hspan
        exact in_of_find hstart (textPay_quoted htext hpay)
    · obtain ⟨clause, hclause, rfl⟩ := extract_policy_evidence hfact he
      exact clause_excerpt_infix hclause
    · obtain ⟨clause, hclause, rfl⟩ := extract_restriction_evidence hfact he
      exact clause_excerpt_infix hclause

/-- A page that states two policies and a range of pay. -/
def offeringPage : Page :=
  austinPage "https://acme.example/jobs/1"
    "We accept CPT but do not offer visa sponsorship.\nPay: $50/hour." posting_url_le

theorem offering_spans : ∃ facts spans, offeringPage.extract .ascii = .ok (facts, spans) ∧
    spans.length = 3 ∧ ∀ span ∈ spans, 0 ≤ span.start ∧ span.start < span.stop ∧
      span.stop ≤ offeringPage.text.length ∧
      slice offeringPage.text span.start span.stop = span.quote := by
  have hreturns : (offeringPage.extract .ascii).map (·.2.length) = .ok 3 := by decide +kernel
  obtain ⟨⟨facts, spans⟩, h, hlength⟩ := map_eq_ok.mp hreturns
  exact ⟨facts, spans, h, hlength, (evidence_spans .ascii offeringPage h).1⟩

end JobPing
