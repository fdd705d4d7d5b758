import JobPing.EvidenceSpans
import JobPing.GroupTexts

/-!
# Pages whose extraction returns

`extract` passes over a sentence of more than 1500 characters, but it measures the copy in which the
points of `U.S.` are hidden. Where a text ends in `U.S.` the copy ends in blanks, which are not
counted, and the quote has the points again: one of more than 1500 characters is refused with an
exception that nothing catches. Apart from that, a page fails where one of the parsers of the
standard library does (`extract_returns_iff`).
-/

namespace JobPing

open Raising

variable {L : Libraries} {T : CharTables} {page : Page} {text t : Str}

/-! ## Texts of patterns -/

namespace Pattern

theorem lit_spells {s : String} (h : (lit s).Spells t) : t.map fold = s.toList.map fold := by
  unfold lit at h
  generalize s.toList = cs at h ⊢
  induction cs generalizing t with
  | nil =>
    obtain rfl := h
    rfl
  | cons c cs ih =>
    obtain ⟨_, u, ⟨x, hx, rfl⟩, hu, rfl⟩ := h
    rw [List.map_cons, List.map_append, List.map_singleton, of_decide_eq_true hx, ih hu]
    rfl

theorem alts_spells {rs : List Pattern} (h : (alts rs).Spells t) : ∃ r ∈ rs, r.Spells t := by
  induction rs with
  | nil =>
    obtain ⟨_, hfalse, -⟩ := h
    cases hfalse
  | cons r rest ih =>
    cases rest with
    | nil => exact ⟨r, List.mem_cons_self, h⟩
    | cons r' rest =>
      rcases h with h | h
      · exact ⟨r, List.mem_cons_self, h⟩
      · obtain ⟨r'', hr'', h⟩ := ih h
        exact ⟨r'', List.mem_cons_of_mem _ hr'', h⟩

theorem anyOf_spells {words : List String} (h : (anyOf words).Spells t) :
    ∃ word ∈ words, t.map fold = word.toList.map fold := by
  obtain ⟨r, hr, h⟩ := alts_spells h
  obtain ⟨word, hword, rfl⟩ := List.mem_map.mp hr
  exact ⟨word, hword, lit_spells h⟩

theorem opt_spells {r : Pattern} (h : (opt r).Spells t) : t = [] ∨ r.Spells t := by
  obtain ⟨pieces, hpieces, rfl, hlength⟩ := h
  have hle := hlength 1 rfl
  cases pieces with
  | nil => exact .inl rfl
  | cons piece rest =>
    obtain rfl : rest = [] := by
      rw [List.length_cons] at hle
      exact List.length_eq_zero_iff.mp (by omega)
    rw [List.flatten_singleton]
    exact .inr (hpieces piece List.mem_cons_self)

theorem many_set_spells {p : Char → Bool} {min : ℕ} {max : Option ℕ}
    (h : (Regex.many min max (.set p) : Pattern).Spells t) : ∀ c ∈ t, p c = true := by
  obtain ⟨pieces, hpieces, rfl, -⟩ := h
  intro c hc
  obtain ⟨piece, hpiece, hc⟩ := List.mem_flatten.mp hc
  obtain ⟨a, ha, rfl⟩ := hpieces piece hpiece
  rw [List.mem_singleton.mp hc]
  exact ha

end Pattern

/-! ## Amounts and periods -/

/-- What Python's tables say of digits, which are no letters and none of the marks of an amount, and
of the characters of `U.S.`, which are no blanks. -/
structure CharTables.Plain (T : CharTables) : Prop where
  digit_fold : ∀ c, (T.digit c).isSome → fold c = c
  mark_not_digit : ∀ c ∈ ['.', ',', 'k'], T.digit c = none
  not_space : ∀ c ∈ ['.', 'S'], T.isSpace c = false

theorem digitsValue_returns (h : ∀ c ∈ t, (T.digit c).isSome) :
    ∃ n, digitsValue T t = some n := by
  unfold digitsValue
  suffices hfold : ∀ n, ∃ m, t.foldlM (fun n c => (T.digit c).map (10 * n + ·)) n = some m from
    hfold 0
  induction t with
  | nil => exact fun n => ⟨n, rfl⟩
  | cons c t ih =>
    intro n
    obtain ⟨d, hd⟩ := Option.isSome_iff_exists.mp (h c List.mem_cons_self)
    obtain ⟨m, hm⟩ := ih (fun c hc => h c (List.mem_cons_of_mem _ hc)) (10 * n + d)
    refine ⟨m, ?_⟩
    rw [List.foldlM_cons, hd]
    exact hm

/-- Digits, of which the first is there, with or without a fraction. -/
theorem parseDecimal_returns {whole fraction : Str} (hne : whole ≠ [])
    (hwhole : ∀ c ∈ whole, (T.digit c).isSome) (hfraction : ∀ c ∈ fraction, (T.digit c).isSome)
    (hpoint : T.digit '.' = none) (ht : t = whole ∨ t = whole ++ '.' :: fraction) :
    ∃ d, parseDecimal T t = some d := by
  have hne_point : ∀ c ∈ whole, decide (c ≠ '.') = true := by
    intro c hc
    refine decide_eq_true fun heq => ?_
    have hsome := hwhole c hc
    rw [heq, hpoint] at hsome
    cases hsome
  have htake : t.takeWhile (· ≠ '.') = whole := by
    rcases ht with rfl | rfl
    · exact List.takeWhile_eq_self_iff.mpr hne_point
    · rw [List.takeWhile_append_of_pos hne_point, List.takeWhile_cons_of_neg (by simp),
        List.append_nil]
  have hdrop : ∀ c ∈ (t.dropWhile (· ≠ '.')).tail, (T.digit c).isSome := by
    rcases ht with rfl | rfl
    · rw [List.dropWhile_eq_nil_iff.mpr hne_point]
      exact fun c hc => absurd hc List.not_mem_nil
    · rw [List.dropWhile_append_of_pos hne_point, List.dropWhile_cons_of_neg (by simp)]
      exact hfraction
  obtain ⟨n, hn⟩ := @digitsValue_returns T (whole ++ (t.dropWhile (· ≠ '.')).tail) fun c hc =>
    (List.mem_append.mp hc).elim (hwhole c) (hdrop c)
  refine ⟨⟨n, -((t.dropWhile (· ≠ '.')).tail.length : ℤ)⟩, ?_⟩
  unfold parseDecimal
  extract_lets found rest
  have hfound : found = whole := htake
  rw [hfound, if_neg hne]
  exact Option.map_eq_some_iff.mpr ⟨n, hn, rfl⟩

/-- A number with or without a `k`, whose commas are left out. -/
theorem amountValue_of_number {number unit : Str} (hk : 'k' ∉ number)
    (hunit : unit = [] ∨ unit = ['k']) (hfold : t.map fold = number ++ unit)
    (hnumber : ∃ d, parseDecimal T (number.filter (· ≠ ',')) = some d) :
    ∃ d, amountValue T t = .ok d := by
  have hdigits : (if (t.map fold).getLast? = some 'k' then (t.map fold).dropLast else t.map fold) =
      number := by
    rw [hfold]
    rcases hunit with rfl | rfl
    · rw [List.append_nil, if_neg fun h => hk (List.mem_of_getLast? h)]
    · rw [List.getLast?_concat, if_pos rfl, List.dropLast_concat]
  obtain ⟨d, hd⟩ := hnumber
  unfold amountValue
  extract_lets folded thousands digits
  have hfound : digits = number.filter (· ≠ ',') := by
    simp only [digits, thousands, folded, hdigits]
  rw [hfound, hd]
  exact ⟨_, rfl⟩

/-- **What a pattern of amounts matches is an amount.** -/
theorem amountValue_returns (hT : T.Plain) (h : (Pattern.amount T).Spells t) :
    ∃ d, amountValue T t = .ok d := by
  obtain ⟨_, _, ⟨first, hfirst, rfl⟩, ⟨digits, _, hdigits, ⟨fraction, _, hfraction, ⟨unit, _, hunit,
    rfl, rfl⟩, rfl⟩, rfl⟩, rfl⟩ := h
  replace hfirst : (T.digit first).isSome := hfirst
  have hcomma := hT.mark_not_digit ',' (by simp)
  have hpoint := hT.mark_not_digit '.' (by simp)
  have hletter := hT.mark_not_digit 'k' (by simp)
  have hhead : ∀ c ∈ first :: digits, (T.digit c).isSome ∨ c = ',' := by
    intro c hc
    rcases List.mem_cons.mp hc with rfl | hc
    · exact .inl hfirst
    · have hor := Pattern.many_set_spells hdigits c hc
      rwa [Bool.or_eq_true, decide_eq_true_eq] at hor
  have hheadfold : (first :: digits).map fold = first :: digits := by
    conv_rhs => rw [← List.map_id (first :: digits)]
    refine List.map_congr_left fun c hc => ?_
    rcases hhead c hc with hdigit | rfl
    · exact hT.digit_fold c hdigit
    · rfl
  -- the fraction, after its point
  obtain ⟨decimals, hdecimals, hfractionfold⟩ : ∃ decimals, (∀ c ∈ decimals, (T.digit c).isSome) ∧
      (fraction.map fold = [] ∨ fraction.map fold = '.' :: decimals) := by
    rcases Pattern.opt_spells hfraction with rfl | ⟨point, decimals, hp, hdecimals, rfl⟩
    · exact ⟨[], by simp, .inl rfl⟩
    · have hdigit := Pattern.many_set_spells hdecimals
      refine ⟨decimals, hdigit, .inr ?_⟩
      have hsame : decimals.map fold = decimals := by
        conv_rhs => rw [← List.map_id decimals]
        exact List.map_congr_left fun c hc => hT.digit_fold c (hdigit c hc)
      rw [List.map_append, Pattern.lit_spells hp, hsame]
      rfl
  have hunitfold : unit.map fold = [] ∨ unit.map fold = ['k'] := by
    rcases Pattern.opt_spells hunit with rfl | hunit
    · exact .inl rfl
    · exact .inr (Pattern.lit_spells hunit)
  have hnone : ∀ {c}, T.digit c = none → ∀ cs : Str, (∀ x ∈ cs, (T.digit x).isSome) → c ∉ cs := by
    intro c hc cs hcs hmem
    have hsome := hcs c hmem
    rw [hc] at hsome
    cases hsome
  have hkhead : 'k' ∉ first :: digits := fun hmem => by
    rcases hhead 'k' hmem with hdigit | heq
    · rw [hletter] at hdigit
      cases hdigit
    · cases heq
  have hwhole : ∀ c ∈ (first :: digits).filter (· ≠ ','), (T.digit c).isSome := by
    intro c hc
    obtain ⟨hmem, hne⟩ := List.mem_filter.mp hc
    exact (hhead c hmem).resolve_right (of_decide_eq_true hne)
  have hfirstne : first ≠ ',' := fun heq => by
    rw [heq, hcomma] at hfirst
    cases hfirst
  have hne : (first :: digits).filter (· ≠ ',') ≠ [] :=
    List.ne_nil_of_mem (List.mem_filter.mpr ⟨List.mem_cons_self, decide_eq_true hfirstne⟩)
  refine @amountValue_of_number T _ (first :: digits ++ fraction.map fold) (unit.map fold) ?_
    hunitfold ?_ (parseDecimal_returns hne hwhole hdecimals hpoint ?_)
  · rw [List.mem_append, not_or]
    refine ⟨hkhead, ?_⟩
    rcases hfractionfold with hfold | hfold
    · rw [hfold]
      exact List.not_mem_nil
    · rw [hfold, List.mem_cons, not_or]
      exact ⟨by decide, hnone hletter decimals hdecimals⟩
  · rw [List.singleton_append, ← List.cons_append, List.map_append, hheadfold, List.map_append,
      List.append_assoc]
    simp
  · rw [List.filter_append]
    rcases hfractionfold with hfold | hfold
    · rw [hfold]
      exact .inl (List.append_nil _)
    · refine .inr ?_
      have hkeep : decimals.filter (· ≠ ',') = decimals :=
        List.filter_eq_self.mpr fun c hc =>
          decide_eq_true fun heq => hnone hcomma decimals hdecimals (heq ▸ hc)
      have hpointed : ('.' :: decimals).filter (· ≠ ',') = '.' :: decimals := by
        rw [List.filter_cons_of_pos (by decide), hkeep]
      rw [hfold, hpointed]

theorem prefixPeriod_returns
    (h : (Pattern.anyOf ["annual", "yearly", "hourly", "monthly", "weekly"]).Spells t) :
    ∃ period, Page.prefixPeriod t = .ok period := by
  obtain ⟨word, hword, heq⟩ := Pattern.anyOf_spells h
  unfold Page.prefixPeriod
  rw [heq]
  simp only [List.mem_cons, List.not_mem_nil, or_false] at hword
  rcases hword with rfl | rfl | rfl | rfl | rfl
  · exact ⟨.year, by decide⟩
  · exact ⟨.year, by decide⟩
  · exact ⟨.hour, by decide⟩
  · exact ⟨.month, by decide⟩
  · exact ⟨.week, by decide⟩

section Groups

variable {r : Pattern} {m : Regex.Match Char PayGroup}

/-- The amounts of a match: those of a group that is always there and, in its place, of one that may
be missing. -/
theorem amounts_return (hT : T.Plain) (hbinds : r.binds .min = true)
    (hmin : r.named .min = [Pattern.amount T]) (hmax : r.named .max = [Pattern.amount T])
    (h : m ∈ r.finditer text) : (∃ d, amountValue T ((m.group .min).getD []) = .ok d) ∧
      ∃ d, amountValue T ((m.group .max).getD ((m.group .min).getD [])) = .ok d := by
  have hspells : ∀ name t, r.named name = [Pattern.amount T] → m.group name = some t →
      ∃ d, amountValue T t = .ok d := by
    intro name t hname hgroup
    obtain ⟨p, hp, hspells⟩ := Regex.group_spells h hgroup
    rw [hname] at hp
    exact amountValue_returns hT (List.mem_singleton.mp hp ▸ hspells)
  obtain ⟨low, hlow⟩ := Regex.group_isSome h hbinds
  rw [hlow]
  refine ⟨hspells .min low hmin hlow, ?_⟩
  cases hhigh : m.group .max with
  | none => exact hspells .min low hmin hlow
  | some high => exact hspells .max high hmax hhigh

theorem pay_groups (T : CharTables) : (Pattern.pay T).binds .min = true ∧
    (Pattern.pay T).named .min = [Pattern.amount T] ∧
    (Pattern.pay T).named .max = [Pattern.amount T] := by
  exact ⟨rfl, rfl, rfl⟩

theorem prefixPay_groups (T : CharTables) : (Pattern.prefixPay T).binds .min = true ∧
    (Pattern.prefixPay T).named .min = [Pattern.amount T] ∧
    (Pattern.prefixPay T).named .max = [Pattern.amount T] := by
  exact ⟨rfl, rfl, rfl⟩

end Groups

/-! ## The copy of the text -/

/-- Where the copy has another character, the text has one of `U.S.`. -/
theorem hidePoints_forall (text : Str) :
    List.Forall₂ (fun c x => x = c ∨ c ∈ ['.', 'S']) text (hidePoints text) := by
  induction text using hidePoints.induct with
  | case1 rest ih =>
    rw [hidePoints]
    refine .cons (.inl rfl) (.cons (.inr ?_) (.cons (.inr ?_) (.cons (.inr ?_) ih)))
    · simp
    · simp
    · simp
  | case2 c rest hne ih =>
    rw [hidePoints.eq_2 _ _ hne]
    exact .cons (.inl rfl) ih
  | case3 => exact .nil

/-- A text without `U.S.` is its own copy. -/
theorem hidePoints_eq_self (h : ¬ "U.S.".toList <:+: text) : hidePoints text = text := by
  induction text using hidePoints.induct with
  | case1 rest ih => exact absurd ⟨[], rest, rfl⟩ h
  | case2 c rest hne ih =>
    rw [hidePoints.eq_2 _ _ hne,
      ih fun hpart => h (hpart.trans (List.suffix_cons c rest).isInfix)]
  | case3 => rfl

theorem strip_eq_nil_iff : L.strip t = [] ↔ ∀ c ∈ t, L.isSpace c = true := by
  rw [Unicode.strip, List.reverse_eq_nil_iff, List.dropWhile_eq_nil_iff]
  constructor
  · intro h c hc
    rw [← List.takeWhile_append_dropWhile (p := L.isSpace) (l := t)] at hc
    rcases List.mem_append.mp hc with hc | hc
    · exact List.mem_takeWhile_imp hc
    · exact h c (List.mem_reverse.mpr hc)
  · intro h c hc
    exact h c ((List.dropWhile_suffix _).mem (List.mem_reverse.mp hc))

theorem dropWhile_of_part {α : Type*} (p : α → Bool) {s t : List α} (h : s <:+: t) :
    s.dropWhile p <:+: t.dropWhile p := by
  obtain ⟨a, b, rfl⟩ := h
  rw [List.dropWhile_append, List.dropWhile_append]
  split_ifs with ha hs hs
  · rw [List.isEmpty_iff.mp hs]
    exact List.nil_infix
  · exact (List.prefix_append _ b).isInfix
  · rw [List.isEmpty_iff, List.append_eq_nil_iff] at hs
    exact absurd (List.isEmpty_iff.mpr hs.1) ha
  · exact (List.dropWhile_suffix p).isInfix.trans (List.infix_append _ s b)

/-- What is read of a part of a text is part of what is read of the text. -/
theorem strip_infix_strip {s : Str} (h : s <:+: t) : L.strip s <:+: L.strip t :=
  List.reverse_infix.mpr (dropWhile_of_part _ (List.reverse_infix.mpr (dropWhile_of_part _ h)))

/-- A clause of a page is one of a sentence of the copy, at a place where the text has its quote. -/
theorem pageClauses_scanned {clause : PageClause} (h : clause ∈ pageClauses L text) :
    ∃ sentence scanned : Str, scanned <:+: sentence ∧ (L.strip sentence).length ≤ 1500 ∧
      scanned = slice (hidePoints text) clause.start clause.stop ∧
      clause.original = slice text clause.start clause.stop ∧ L.strip scanned ≠ [] := by
  obtain ⟨sentence, hsentence, hclause⟩ := List.mem_flatMap.mp h
  obtain ⟨m, hm, hstated⟩ := List.mem_filterMap.mp hclause
  obtain ⟨hsentence, hexamined⟩ := List.mem_filter.mp hsentence
  have hplace := Regex.finditer_spec hsentence
  have hpart := Regex.finditer_spec hm
  simp only [Option.ite_none_right_eq_some, Option.some.injEq] at hstated
  obtain ⟨hline, rfl⟩ := hstated
  simp only [examinedSentence, Bool.and_eq_true, decide_eq_true_eq] at hexamined
  simp only [stated, Bool.and_eq_true, decide_eq_true_eq] at hline
  refine ⟨sentence.text, m.text, ?_, hexamined.2, ?_, rfl, hline.1⟩
  · rw [hpart.text_eq]
    exact slice_infix sentence.text m.start m.stop
  · -- a part of a part of the copy
    have hlength : sentence.text.length = sentence.stop - sentence.start := by
      rw [hplace.text_eq, List.length_take, List.length_drop]
      have hle := hplace.bounded
      omega
    have hbounded := hpart.bounded
    have hnonempty := hpart.nonempty
    rw [hpart.text_eq, hplace.text_eq, slice, List.drop_take, List.drop_drop, List.take_take]
    congr 1
    dsimp only
    omega

/-- Every quote has a character. -/
theorem quote_ne_nil (hL : L.Plain) {clause : PageClause} (h : clause ∈ pageClauses L text) :
    L.strip clause.original ≠ [] := by
  obtain ⟨-, scanned, -, -, hscanned, horiginal, hne⟩ := pageClauses_scanned h
  have hsame : List.Forall₂ (fun c x => x = c ∨ c ∈ ['.', 'S']) clause.original scanned := by
    rw [hscanned, horiginal]
    exact List.forall₂_take _ (List.forall₂_drop _ (hidePoints_forall text))
  intro hnil
  refine hne (strip_eq_nil_iff.mpr ?_)
  have hspaces := strip_eq_nil_iff.mp hnil
  clear hscanned horiginal hne hnil
  generalize clause.original = original at hsame hspaces
  induction hsame with
  | nil => exact fun c hc => absurd hc List.not_mem_nil
  | @cons c x original scanned hcx _ ih =>
    obtain ⟨hc, hrest⟩ := List.forall_mem_cons.mp hspaces
    refine List.forall_mem_cons.mpr ⟨?_, ih hrest⟩
    rcases hcx with rfl | hmem
    · exact hc
    · rw [hL.not_space c hmem] at hc
      cases hc

/-- **Only `U.S.` makes a quote too long.** -/
theorem quote_length_le (h : ¬ "U.S.".toList <:+: text) {clause : PageClause}
    (hclause : clause ∈ pageClauses L text) : (L.strip clause.original).length ≤ 1500 := by
  obtain ⟨sentence, scanned, hpart, hsentence, hscanned, horiginal, -⟩ :=
    pageClauses_scanned hclause
  rw [hidePoints_eq_self h, ← horiginal] at hscanned
  rw [← hscanned]
  exact (strip_infix_strip hpart).length_le.trans hsentence

/-! ## Exceptions -/

theorem makeEvidence_returns {source excerpt : Str} {sourceUrl : Option Str} {observedAt : Time}
    (hurl : (sourceUrl.bind L.httpUrl).isSome) (hsource : fits 1 100 source = true) :
    (∃ e, makeEvidence L source sourceUrl excerpt observedAt = .ok e) ↔
      excerpt ≠ [] ∧ excerpt.length ≤ 1500 := by
  obtain ⟨url, hurl⟩ := Option.isSome_iff_exists.mp hurl
  have hfits : fits 1 1500 excerpt = true ↔ excerpt ≠ [] ∧ excerpt.length ≤ 1500 := by
    rw [fits, Bool.and_eq_true, decide_eq_true_eq, decide_eq_true_eq, Nat.one_le_iff_ne_zero, ne_eq,
      List.length_eq_zero_iff]
  rw [makeEvidence, hurl, hsource, Bool.true_and, ← hfits]
  cases fits 1 1500 excerpt <;> simp

theorem caught_returns {errors : List Raised} {range : Except Raised Pay}
    (h : ∀ e, range = .error e → e ∈ errors) : ∃ pay, caught errors range = .ok pay := by
  cases range with
  | ok pay => exact ⟨some pay, rfl⟩
  | error e => exact ⟨none, by rw [caught, if_pos (h e rfl)]⟩

theorem PayFields.validate_error {fields : PayFields} {source excerpt : Str}
    {sourceUrl : Option Str} {observedAt : Time} {e : Raised}
    (h : fields.validate (makeEvidence L source sourceUrl excerpt observedAt) = .error e) :
    e = .validationError := by
  rcases bind_eq_error.mp h with h | ⟨evidence, -, h⟩
  · exact makeEvidence_error h
  · split at h
    · cases h
    · exact (Except.error.inj h).symm

/-! ## The text -/

section Details

variable {now : Time} {raw : RawJobPayload}

theorem statedRange_returns (hL : L.Plain) {line : Str} {m : Regex.Match Char PayGroup}
    (hm : m ∈ (Pattern.pay L.toCharTables).finditer line) :
    ∃ pay, raw.statedRange L now line m = .ok pay := by
  obtain ⟨hbinds, hmin, hmax⟩ := pay_groups L.toCharTables
  obtain ⟨⟨low, hlow⟩, ⟨high, hhigh⟩⟩ := amounts_return hL hbinds hmin hmax hm
  unfold RawJobPayload.statedRange
  extract_lets currency
  split
  · exact ⟨none, rfl⟩
  · refine caught_returns fun e he => List.mem_singleton.mpr ?_
    rw [hlow, hhigh] at he
    exact PayFields.validate_error he

theorem linePay_returns (hL : L.Plain) (line : Str) :
    ∃ pays, raw.linePay L now line = .ok pays := by
  unfold RawJobPayload.linePay
  split_ifs
  · exact ⟨[], rfl⟩
  · exact map_returns.mpr (mapM_returns.mpr fun m hm => statedRange_returns hL hm)

end Details

variable (L)

/-- The parsers of the standard library raise nothing on the text. -/
def Page.Parses (page : Page) : Prop :=
  L.unescapeError (page.text.take 200000) = none ∧
    ∃ events, L.htmlEvents false (L.unescape (page.text.take 200000)) = .ok events

variable {L}

theorem plainDescription_returns :
    (∃ shown, plainDescription L (.str page.text) = .ok shown) ↔ page.Parses L := by
  unfold plainDescription Page.Parses
  dsimp only
  cases L.unescapeError (page.text.take 200000) with
  | some error => simp
  | none => rw [map_returns, eq_self_iff_true, true_and]

theorem description_returns :
    (∃ shown, (page.raw L).description L = .ok shown) ↔ page.Parses L := by
  rw [← plainDescription_returns]
  -- the other pieces are not there
  have hpieces : (page.raw L).description L =
      ([Json.str page.text, .null, .null, .null, .null].mapM (plainDescription L)).map
        ['\n'].intercalate := rfl
  have hnull : ∃ shown, plainDescription L .null = .ok shown := ⟨[], rfl⟩
  have hall := @mapM_returns _ _ _ (plainDescription L)
    [Json.str page.text, .null, .null, .null, .null]
  simp only [List.forall_mem_cons, hnull, List.not_mem_nil, false_imp_iff, implies_true, and_true]
    at hall
  rw [hpieces, map_returns, hall]

theorem raw_evidence_returns (hurl : (L.httpUrl page.finalUrl).isSome) (now : Time)
    {excerpt : Str} (hne : excerpt ≠ []) (hle : excerpt.length ≤ 1500) :
    ∃ e, (page.raw L).evidence L now excerpt = .ok e := by
  have hsource : fits 1 100 "greenhouse".toList = true := by decide
  have hsome : ((some (L.strip page.finalUrl)).bind L.httpUrl).isSome := L.httpUrl_strip hurl
  exact (makeEvidence_returns hsome hsource).mpr ⟨hne, hle⟩

theorem keyStatements_return (hurl : (L.httpUrl page.finalUrl).isSome) (now : Time) (shown : Str)
    (key : PolicyKind) : ∃ found, (page.raw L).keyStatements L now shown key = .ok found := by
  unfold RawJobPayload.keyStatements
  extract_lets T lines stating
  refine mapM_returns.mpr fun line hline => ?_
  obtain ⟨hmem, hstates⟩ := List.mem_filter.mp hline
  obtain ⟨whole, -, rfl⟩ := List.mem_map.mp hmem
  simp only [Bool.and_eq_true, decide_eq_true_eq] at hstates
  exact map_returns.mpr
    (raw_evidence_returns hurl now hstates.1.1.1 (List.length_take_le 1500 _))

theorem policies_return (hurl : (L.httpUrl page.finalUrl).isSome) (now : Time) (shown : Str) :
    ∃ policies, (page.raw L).policies L now shown = .ok policies := by
  have htext : ∃ policies, (page.raw L).textPolicies L now shown = .ok policies := by
    have hpure : ∀ (p : Prop) [Decidable p] (a b : PolicyKind → Option PolicyFact),
        ∃ policies, (if p then pure a else pure b : Except Raised _) = .ok policies := by
      intro p _ a b
      split_ifs
      · exact ⟨a, rfl⟩
      · exact ⟨b, rfl⟩
    obtain ⟨found, hfound⟩ := mapM_returns.mpr fun key (_ : key ∈ terms) =>
      (map_returns (f := (key, foundPolicy ·))).mpr (keyStatements_return hurl now shown key)
    exact bind_returns.mpr ⟨found, hfound, hpure _ _ _⟩
  obtain ⟨policies, hpolicies⟩ := htext
  refine ⟨policies, bind_eq_ok.mpr ⟨policies, hpolicies, ?_⟩⟩
  rfl

theorem compensation_returns (hL : L.Plain) (now : Time) (shown : Str) :
    ∃ pays, (page.raw L).compensation L now shown = .ok pays := by
  have hsalary : (page.raw L).salary L now ((page.raw L).payload.facts.get "raw").entries =
      .ok none := rfl
  have hitems : ((page.raw L).payload.facts.get "pay_input_ranges").elements.filter
      Json.isDict = [] := rfl
  unfold RawJobPayload.compensation
  rw [hsalary, hitems]
  exact map_returns.mpr (mapM_returns.mpr fun line _ => linePay_returns hL line)

/-- The details of a page are extracted if its text is parsed. -/
theorem extractJobDetails_returns (hL : L.Plain) (hurl : (L.httpUrl page.finalUrl).isSome)
    (now : Time) :
    (∃ details, extractJobDetails L now (page.raw L) = .ok details) ↔ page.Parses L := by
  have hemployer : ¬ (page.raw L).source ∉ RawJobPayload.employerSources := by
    have hmem : "greenhouse".toList ∈ RawJobPayload.employerSources := by decide
    exact fun h => h hmem
  rw [← description_returns, extractJobDetails, bind_returns]
  refine exists_congr fun shown => and_iff_left ?_
  obtain ⟨pays, hpays⟩ := compensation_returns hL now shown
  obtain ⟨policies, hpolicies⟩ := policies_return hurl now shown
  refine bind_returns.mpr ⟨policies, hpolicies, ?_⟩
  dsimp only
  rw [if_neg hemployer]
  exact bind_returns.mpr ⟨pays, hpays, _, rfl⟩

theorem prefixRange_returns (hL : L.Plain) {m : Regex.Match Char PayGroup}
    (hm : m ∈ (Pattern.prefixPay L.toCharTables).finditer page.text) :
    ∃ pay, page.prefixRange L m = .ok pay := by
  obtain ⟨hbinds, hmin, hmax⟩ := prefixPay_groups L.toCharTables
  obtain ⟨⟨low, hlow⟩, ⟨high, hhigh⟩⟩ := amounts_return hL hbinds hmin hmax hm
  obtain ⟨interval, hinterval⟩ : ∃ interval,
      Page.prefixPeriod ((m.group .period).getD []) = .ok interval := by
    obtain ⟨word, hword⟩ : ∃ word, m.group .period = some word := Regex.group_isSome hm rfl
    obtain ⟨p, hp, hspells⟩ := Regex.group_spells hm hword
    obtain rfl := List.mem_singleton.mp hp
    rw [hword]
    exact prefixPeriod_returns hspells
  unfold Page.prefixRange
  extract_lets symbol inUs paragraph component lowest currency range
  split
  · exact ⟨none, rfl⟩
  · refine map_returns.mpr (caught_returns fun e he => List.mem_singleton.mpr ?_)
    simp only [range, lowest] at he
    rw [hlow, hhigh, hinterval] at he
    exact PayFields.validate_error he

theorem textPay_returns (hL : L.Plain) (hurl : (L.httpUrl page.finalUrl).isSome) :
    (∃ pays, page.textPay L = .ok pays) ↔ page.Parses L := by
  rw [← extractJobDetails_returns hL hurl page.observedAt, Page.textPay, bind_returns]
  refine exists_congr fun details => and_iff_left ?_
  obtain ⟨prefixed, hprefixed⟩ := mapM_returns.mpr fun m hm => @prefixRange_returns L page hL m hm
  exact bind_returns.mpr ⟨prefixed, hprefixed, _, rfl⟩

/-! ## Structured data -/

/-- The excerpt of an item whose title and blurb are read for its unit. -/
structure Page.Labelled (page : Page) (item : Entries) (excerpt : Str) : Prop where
  excerpt_eq : item.get "excerpt" = .str excerpt
  excerpt_ne : excerpt ≠ []
  quoted : excerpt <:+: page.text
  unknown :
    parseInterval ((item.lookup "interval".toList).getD (.str "unknown".toList)) = some .unknown
  opened : excerpt.head? = some '{'
  titled : "title".toList <:+: excerpt

variable (L)

/-- `json.loads` raises nothing on the excerpt but a `ValueError`, and the title and blurb it finds
can be shown. -/
structure Readable (excerpt : Str) : Prop where
  loads : ∀ e, L.loads excerpt = .error e → e = .valueError
  title : ∀ range : Entries, L.loads excerpt = .ok (.dict range) →
    ∃ shown, ((range.get "title").orElse (.str [])).text L = .ok shown
  blurb : ∀ range : Entries, L.loads excerpt = .ok (.dict range) →
    ∃ shown, ((range.get "blurb").orElse (.str [])).text L = .ok shown

variable {L} {item : Entries} {excerpt sub : Str}

theorem strFind_isSome : (strFind sub text).isSome ↔ sub <:+: text := by
  constructor
  · intro h
    obtain ⟨n, hn⟩ := Option.isSome_iff_exists.mp h
    obtain ⟨-, hslice⟩ := strFind_spec hn
    exact hslice ▸ slice_infix text n _
  · intro h
    induction text with
    | nil =>
      rw [List.infix_nil.mp h]
      rfl
    | cons c text ih =>
      rw [strFind]
      split_ifs with hprefix
      · rfl
      · rw [Option.isSome_map]
        refine ih ((List.infix_cons_iff.mp h).resolve_left fun hp => hprefix ?_)
        exact List.isPrefixOf_iff_prefix.mpr hp

theorem labelledScope_returns {scope : Page.PayScope} :
    (∃ labelled, page.labelledScope L scope excerpt = .ok labelled) ↔ Readable L excerpt := by
  rw [Page.labelledScope, bind_returns]
  cases hloads : L.loads excerpt with
  | error e =>
    have hentries : Page.rangeEntries L excerpt =
        if e = .valueError then .ok none else .error e := by
      rw [Page.rangeEntries, hloads]
      cases e <;> rfl
    rw [hentries]
    constructor
    · rintro ⟨found, h, -⟩
      split_ifs at h with he
      refine ⟨fun e' h' => ?_, fun range h' => ?_, fun range h' => ?_⟩
      · rw [hloads] at h'
        exact (Except.error.inj h') ▸ he
      · rw [hloads] at h'
        cases h'
      · rw [hloads] at h'
        cases h'
    · intro h
      rw [if_pos (h.loads e hloads)]
      exact ⟨none, rfl, scope, rfl⟩
  | ok value =>
    have hraise : ∀ e, L.loads excerpt = .error e → e = .valueError := fun e h => by
      rw [hloads] at h
      cases h
    by_cases hdict : ∃ range, value = .dict range
    · obtain ⟨range, rfl⟩ := hdict
      have hentries : Page.rangeEntries L excerpt = .ok (some range) := by
        rw [Page.rangeEntries, hloads]
      have hsame : ∀ other : Entries, L.loads excerpt = .ok (.dict other) → other = range := by
        intro other h
        rw [hloads] at h
        exact (Json.dict.inj (Except.ok.inj h)).symm
      rw [hentries]
      constructor
      · rintro ⟨found, h, h'⟩
        obtain rfl := Except.ok.inj h
        obtain ⟨label, hlabel, h'⟩ := bind_returns.mp h'
        obtain ⟨blurb, hblurb, -⟩ := bind_returns.mp h'
        exact ⟨hraise, fun other h => ⟨label, hsame other h ▸ hlabel⟩,
          fun other h => ⟨blurb, hsame other h ▸ hblurb⟩⟩
      · intro h
        obtain ⟨label, hlabel⟩ := h.title range hloads
        obtain ⟨blurb, hblurb⟩ := h.blurb range hloads
        refine ⟨some range, rfl, bind_returns.mpr ⟨label, hlabel,
          bind_returns.mpr ⟨blurb, hblurb, ?_⟩⟩⟩
        dsimp only
        split
        · exact ⟨_, rfl⟩
        · exact ⟨_, rfl⟩
    · have hnone : ∀ range, value ≠ .dict range := fun range h => hdict ⟨range, h⟩
      have hentries : Page.rangeEntries L excerpt = .ok none := by
        rw [Page.rangeEntries, hloads]
        cases value with
        | dict range => exact absurd rfl (hnone range)
        | _ => rfl
      have hother : ∀ range : Entries, L.loads excerpt ≠ .ok (.dict range) := fun range h => by
        rw [hloads] at h
        exact hnone range (Except.ok.inj h)
      rw [hentries]
      exact ⟨fun _ => ⟨hraise, fun range h => absurd h (hother range),
        fun range h => absurd h (hother range)⟩, fun _ => ⟨none, rfl, scope, rfl⟩⟩

theorem itemScope_returns (hexcerpt : item.get "excerpt" = .str excerpt) (hne : excerpt ≠ [])
    (hquoted : excerpt <:+: page.text) :
    (∃ scope, page.itemScope L item excerpt = .ok scope) ↔
      (page.Labelled item excerpt → Readable L excerpt) := by
  have hlabelled : page.Labelled item excerpt ↔
      (decide (Page.parseInterval ((item.lookup "interval".toList).getD
        (.str "unknown".toList)) = some .unknown) && decide (excerpt.head? = some '{') &&
        (strFind "title".toList excerpt).isSome) = true := by
    rw [Bool.and_eq_true, Bool.and_eq_true, decide_eq_true_eq, decide_eq_true_eq, strFind_isSome]
    exact ⟨fun h => ⟨⟨h.unknown, h.opened⟩, h.titled⟩,
      fun h => ⟨hexcerpt, hne, hquoted, h.1.1, h.1.2, h.2⟩⟩
  unfold Page.itemScope
  dsimp only
  by_cases hread : page.Labelled item excerpt
  · rw [if_pos (hlabelled.mp hread)]
    exact labelledScope_returns.trans ⟨fun h _ => h, fun h => h hread⟩
  · rw [if_neg (mt hlabelled.mpr hread)]
    exact ⟨fun _ h => absurd h hread, fun _ => ⟨_, rfl⟩⟩

/-- A range is refused or found unless the label of its excerpt cannot be read. -/
theorem structuredRange_returns :
    (∃ range, page.structuredRange L item = .ok range) ↔
      ∀ excerpt, page.Labelled item excerpt → Readable L excerpt := by
  unfold Page.structuredRange
  split
  · next excerpt hexcerpt =>
    have hsame : ∀ other, page.Labelled item other → other = excerpt := fun other h => by
      have heq := h.excerpt_eq
      rw [hexcerpt] at heq
      exact (Json.str.inj heq).symm
    cases hfind : strFind excerpt page.text with
    | none =>
      refine ⟨fun _ other h => ?_, fun _ => ⟨none, rfl⟩⟩
      have hquoted := strFind_isSome.mpr (hsame other h ▸ h.quoted)
      rw [hfind] at hquoted
      cases hquoted
    | some start =>
      have hquoted : excerpt <:+: page.text := by
        rw [← strFind_isSome, hfind]
        rfl
      dsimp only
      split_ifs with hne
      · exact ⟨fun _ other h => absurd (hsame other h ▸ hne) h.excerpt_ne, fun _ => ⟨none, rfl⟩⟩
      · have hlabel := itemScope_returns (L := L) hexcerpt hne hquoted
        have hall : (page.Labelled item excerpt → Readable L excerpt) ↔
            ∀ other, page.Labelled item other → Readable L other :=
          ⟨fun h other hother => by
            obtain rfl := hsame other hother
            exact h hother, fun h => h excerpt⟩
        rw [← hall, ← hlabel, bind_returns]
        refine exists_congr fun scope => and_iff_left (bind_returns.mpr ?_)
        refine (exists_congr fun range => and_iff_left ⟨_, rfl⟩).mpr (caught_returns fun e he => ?_)
        rcases bind_eq_error.mp he with he | ⟨currency, -, he⟩
        · cases hcurrency : item.lookup "currency".toList with
          | none =>
            rw [hcurrency] at he
            rw [← Except.error.inj he]
            decide
          | some currency =>
            rw [hcurrency] at he
            cases he
        · rw [PayFields.validate_error he]
          decide
  · next hother =>
    exact ⟨fun _ excerpt h => absurd h.excerpt_eq (hother excerpt), fun _ => ⟨none, rfl⟩⟩

variable (L)

/-- No clause that is read is longer in the text than the copy of a sentence may be. -/
def Page.QuotesFit (page : Page) : Prop :=
  ∀ clause ∈ pageClauses L page.text, (L.strip clause.original).length ≤ 1500

variable {L}

theorem findings_return (hL : L.Plain) (hkind : page.kind ≠ .companyPolicy)
    (hurl : (L.httpUrl page.finalUrl).isSome) (hsource : fits 1 100 page.source = true) :
    (∃ found, page.findings L = .ok found) ↔ page.QuotesFit L := by
  have hclause : ∀ clause ∈ pageClauses L page.text,
      (∃ e, page.evidence L (L.strip clause.original) = .ok e) ↔
        (L.strip clause.original).length ≤ 1500 := fun clause hclause => by
    have hsome : ((some page.finalUrl).bind L.httpUrl).isSome := hurl
    exact (makeEvidence_returns hsome hsource).trans (and_iff_right (quote_ne_nil hL hclause))
  rw [Page.QuotesFit, ← forall₂_congr hclause, ← mapM_returns, Page.findings, if_neg hkind,
    bind_returns]
  exact exists_congr fun evidence => and_iff_left ⟨_, rfl⟩

/-- **`extract` returns** exactly on policies of companies and on pages that have no quote of more
than 1500 characters and on whose text and labels the parsers raise nothing. -/
theorem extract_returns_iff (L : Libraries) (page : Page) (hL : L.Plain)
    (hurl : (L.httpUrl page.finalUrl).isSome) (hsource : fits 1 100 page.source = true) :
    (∃ found, page.extract L = .ok found) ↔ page.kind = .companyPolicy ∨
      page.QuotesFit L ∧ page.Parses L ∧
        ∀ item ∈ page.structuredPay, ∀ excerpt, page.Labelled item excerpt →
          Readable L excerpt := by
  by_cases hkind : page.kind = .companyPolicy
  · rw [Page.extract, if_pos hkind]
    exact ⟨fun _ => .inl hkind, fun _ => ⟨_, rfl⟩⟩
  · rw [or_iff_right hkind, ← findings_return hL hkind hurl hsource, ← textPay_returns hL hurl,
      ← forall₂_congr fun item _ => structuredRange_returns, ← mapM_returns, Page.extract,
      if_neg hkind, bind_returns]
    constructor
    · rintro ⟨findings, hfindings, h⟩
      obtain ⟨textPay, htext, h⟩ := bind_returns.mp h
      obtain ⟨structured, hstructured, -⟩ := bind_returns.mp h
      exact ⟨⟨findings, hfindings⟩, ⟨textPay, htext⟩, ⟨structured, hstructured⟩⟩
    · rintro ⟨⟨findings, hfindings⟩, ⟨textPay, htext⟩, ⟨structured, hstructured⟩⟩
      exact ⟨findings, hfindings, bind_returns.mpr ⟨textPay, htext,
        bind_returns.mpr ⟨structured, hstructured, _, rfl⟩⟩⟩

theorem plain_ascii : Libraries.ascii.Plain where
  digit_fold c hc := by
    have hdigit : c.isDigit = true := by
      by_contra hnot
      have hnone : Libraries.ascii.digit c = none := if_neg hnot
      rw [hnone] at hc
      cases hc
    obtain ⟨hlow, hhigh⟩ := Char.isDigit_iff_toNat.mp hdigit
    have hall : ∀ n ∈ List.range' 48 10, fold (Char.ofNat n) = Char.ofNat n := by decide
    rw [← Char.ofNat_toNat c]
    exact hall c.toNat (List.mem_range'_1.mpr ⟨hlow, Nat.lt_succ_of_le hhigh⟩)
  mark_not_digit c hc := by
    simp only [List.mem_cons, List.not_mem_nil, or_false] at hc
    rcases hc with rfl | rfl | rfl
    · rfl
    · rfl
    · rfl
  not_space c hc := by
    simp only [List.mem_cons, List.not_mem_nil, or_false] at hc
    rcases hc with rfl | rfl
    · rfl
    · rfl

/-- A page without structured data, whose text has no `U.S.`. -/
theorem offering_returns : ∃ found, offeringPage.extract .ascii = .ok found := by
  have hus : ¬ "U.S.".toList <:+: offeringPage.text := by decide
  refine (extract_returns_iff .ascii offeringPage plain_ascii rfl (by decide)).mpr
    (.inr ⟨?_, ?_, ?_⟩)
  · exact fun clause hclause => quote_length_le hus hclause
  · exact ⟨rfl, _, rfl⟩
  · exact fun item hitem => absurd hitem List.not_mem_nil

/-- A page of one sentence of 1502 characters, whose copy ends in two blanks. -/
def placePage : Page :=
  { austinPage "https://acme.example/jobs/1" "" posting_url_le with
    text := List.replicate 1498 'x' ++ "U.S.".toList }

/-- **The sentence is read but its quote is refused**: `extract` raises on a page. -/
theorem place_raises : (Libraries.ascii.httpUrl placePage.finalUrl).isSome ∧
    fits 1 100 placePage.source = true ∧ ¬ ∃ found, placePage.extract .ascii = .ok found := by
  refine ⟨rfl, by decide, ?_⟩
  have hquote : (pageClauses .ascii placePage.text).any
      (fun clause => decide (1500 < (Libraries.ascii.strip clause.original).length)) = true := by
    decide +kernel
  rintro ⟨found, h⟩
  rw [Page.extract, if_neg (by decide)] at h
  obtain ⟨findings, hfindings, -⟩ := bind_eq_ok.mp h
  obtain ⟨clause, hclause, hlong⟩ := List.any_eq_true.mp hquote
  have hle := (findings_return plain_ascii (by decide) rfl (by decide)).mp ⟨findings, hfindings⟩
    clause hclause
  exact absurd (of_decide_eq_true hlong) (Nat.not_lt.mpr hle)

end JobPing
