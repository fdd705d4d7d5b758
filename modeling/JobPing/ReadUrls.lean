import JobPing.CanonicalNetloc

/-!
# What `urlsplit` reads

The characters of the parts of a URL that was read (`urlsplit_read`), and the first and the last
character of one that is written.
-/

namespace JobPing

variable {P : Python} {parts : SplitResult} {s url : Str}

/-! ## Schemes -/

/-- A text that starts with the name of a scheme. -/
def namesScheme (s : Str) : Prop :=
  ∃ scheme rest, s = scheme ++ ':' :: rest ∧ scheme.head?.any Char.isAlpha = true ∧
    scheme.all isSchemeChar = true

theorem namesScheme_of_initial {a : Str} (h : namesScheme a) (hle : a <+: s) :
    namesScheme s := by
  obtain ⟨scheme, rest, rfl, hscheme⟩ := h
  obtain ⟨b, rfl⟩ := hle
  exact ⟨scheme, rest ++ b, by simp, hscheme⟩

/-- A name of a scheme ends before the first character that no scheme has. -/
theorem namesScheme_of_append {a b : Str} (h : namesScheme (a ++ b))
    (hb : ∀ c, b.head? = some c → c ≠ ':' ∧ isSchemeChar c = false) : namesScheme a := by
  obtain ⟨scheme, rest, heq, hhead, hall⟩ := h
  rcases List.append_eq_append_iff.mp heq with ⟨after, hscheme, hb'⟩ | ⟨after, ha, hrest⟩
  · cases after with
    | nil => exact absurd rfl (hb ':' (by rw [hb']; rfl)).1
    | cons c after =>
      have hc := (hb c (by rw [hb']; rfl)).2
      rw [List.all_eq_true.mp hall c (by simp [hscheme])] at hc
      cases hc
  · cases after with
    | nil => exact absurd rfl (hb ':' (by rw [← List.nil_append b, ← hrest]; rfl)).1
    | cons c after =>
      obtain ⟨rfl, -⟩ := List.cons.inj hrest
      exact ⟨scheme, after, ha, hhead, hall⟩

theorem splitScheme_plain (h : ¬namesScheme url) : splitScheme P url = ([], url) := by
  unfold splitScheme
  rcases partition_cases ':' url with ⟨-, hpart⟩ | ⟨scheme, rest, heq, -, hpart⟩
  · simp only [hpart, Bool.false_and, Bool.false_eq_true, if_false]
  · simp only [hpart, Bool.true_and]
    rw [if_neg]
    rw [Bool.and_eq_true]
    exact fun hscheme => h ⟨scheme, rest, heq, hscheme.1, hscheme.2⟩

/-- A scheme is read, or the text stays. -/
theorem splitScheme_cases (P : Python) (url : Str) :
    ¬namesScheme url ∧ splitScheme P url = ([], url) ∨
      ∃ scheme rest, url = scheme ++ ':' :: rest ∧ scheme.head?.any Char.isAlpha = true ∧
        scheme.all isSchemeChar = true ∧ splitScheme P url = (P.lower scheme, rest) := by
  by_cases hnames : namesScheme url
  · obtain ⟨scheme, rest, rfl, hhead, hall⟩ := hnames
    refine .inr ⟨scheme, rest, rfl, hhead, hall, ?_⟩
    unfold splitScheme
    rw [partition_append (scheme_char_ne_colon hall)]
    simp only [hhead, hall, Bool.and_self, if_true]
  · exact .inl ⟨hnames, splitScheme_plain hnames⟩

theorem isAscii_of_scheme_char {c : Char} (h : isSchemeChar c = true) : isAscii c = true := by
  rw [isAscii, decide_eq_true_eq]
  rcases Bool.or_eq_true_iff.mp h with h | h
  · exact isAscii_of_safe (alwaysSafe_iff.mpr (.inl h))
  · have hall : ∀ c ∈ ['+', '-', '.'], c.toNat < 128 := List.all_iff_forall_prop.mp (by decide)
    exact hall c (of_decide_eq_true h)

/-- **A scheme in lower case** is one, and in lower case. -/
theorem lower_scheme (laws : UnicodeLaws P) (hhead : s.head?.any Char.isAlpha = true)
    (hall : s.all isSchemeChar = true) :
    (P.lower s).head?.any Char.isAlpha = true ∧ (P.lower s).all isSchemeChar = true := by
  have hchar : ∀ n < 128, (isSchemeChar (Char.ofNat n) = true →
      isSchemeChar (Char.ofNat n).toLower = true) ∧
      ((Char.ofNat n).isAlpha = true → (Char.ofNat n).toLower.isAlpha = true) := by decide
  have hlower (c : Char) (hc : c ∈ s) := ascii_all (p := fun c =>
    (isSchemeChar c = true → isSchemeChar c.toLower = true) ∧
      (c.isAlpha = true → c.toLower.isAlpha = true)) hchar
    (isAscii_of_scheme_char (List.all_eq_true.mp hall c hc))
  rw [laws.lower_ascii s fun c hc => isAscii_of_scheme_char (List.all_eq_true.mp hall c hc)]
  constructor
  · cases s with
    | nil => cases hhead
    | cons c s => exact (hlower c List.mem_cons_self).2 hhead
  · rw [List.all_eq_true]
    intro c hc
    obtain ⟨d, hd, rfl⟩ := List.mem_map.mp hc
    exact (hlower d hd).1 (List.all_eq_true.mp hall d hd)

/-! ## Parts -/

/-- What a network location is read from. -/
theorem splitNetloc_cases (url : Str) :
    (¬"//".toList <+: url ∧ splitNetloc url = ([], url)) ∨
      ∃ netloc rest, url = "//".toList ++ netloc ++ rest ∧ splitNetloc url = (netloc, rest) ∧
        (∀ c ∈ netloc, c ∉ netlocEnds) ∧ (∀ c, rest.head? = some c → c ∈ netlocEnds) := by
  by_cases hslashes : "//".toList <+: url
  · obtain ⟨after, rfl⟩ := hslashes
    refine .inr ⟨after.takeWhile (· ∉ netlocEnds), after.dropWhile (· ∉ netlocEnds), ?_, rfl,
      fun c hc =>
        of_decide_eq_true (List.mem_takeWhile_imp (p := fun c => decide (c ∉ netlocEnds)) hc),
      fun c hc => ?_⟩
    · rw [List.append_assoc, List.takeWhile_append_dropWhile]
    · have hnot := List.head?_dropWhile_not (fun c => decide (c ∉ netlocEnds)) after
      rw [hc] at hnot
      simpa using hnot
  · exact .inl ⟨hslashes, splitNetloc_plain hslashes⟩

/-- **What `urlsplit` has told apart.** -/
structure SplitResult.Told (parts : SplitResult) (P : Python) : Prop where
  scheme : parts.scheme ≠ [] → parts.scheme.head?.any Char.isAlpha = true ∧
    parts.scheme.all isSchemeChar = true
  lower : P.lower parts.scheme = parts.scheme
  netloc : ∀ c ∈ parts.netloc, c ∉ netlocEnds
  rooted : parts.netloc ≠ [] → parts.path = [] ∨ parts.path.head? = some '/'
  path : '?' ∉ parts.path ∧ '#' ∉ parts.path
  plain : ∀ c, c ∈ parts.netloc ∨ c ∈ parts.path ∨ c ∈ parts.fragment →
    isUnsafeUrlChar c = false
  start : parts.scheme = [] → parts.netloc = [] → ∀ c, parts.path.head? = some c →
    isC0ControlOrSpace c = false
  relative : parts.scheme = [] → parts.netloc = [] → ¬namesScheme parts.path
  brackets : '[' ∈ parts.netloc ↔ ']' ∈ parts.netloc
  bracketed : '[' ∈ parts.netloc → checkBracketedNetloc P parts.netloc = true

/-- The path, the query and the fragment that follow a network location. -/
theorem path_of_rest {rest : Str} (hfragment : parts.fragment = (partition '#' rest).2.2)
    (hpath : parts.path = (partition '?' (partition '#' rest).1).1) :
    parts.path <+: rest ∧ '?' ∉ parts.path ∧ '#' ∉ parts.path ∧
      ∀ c ∈ parts.fragment, c ∈ rest := by
  have hbefore {separator : Char} (s : Str) : separator ∉ (partition separator s).1 ∧
      (partition separator s).1 <+: s := by
    rcases partition_cases separator s with ⟨hplain, hpart⟩ | ⟨before, after, rfl, hplain, hpart⟩
    · rw [hpart]
      exact ⟨hplain, List.prefix_rfl⟩
    · rw [hpart]
      exact ⟨hplain, List.prefix_append _ _⟩
  have hle : parts.path <+: (partition '#' rest).1 := by
    rw [hpath]
    exact (hbefore _).2
  refine ⟨hle.trans (hbefore rest).2, ?_, fun h => (hbefore rest).1 (hle.mem h), fun c hc => ?_⟩
  · rw [hpath]
    exact (hbefore _).1
  · rw [hfragment] at hc
    rcases partition_cases '#' rest with ⟨-, hpart⟩ | ⟨before, after, rfl, -, hpart⟩
    · rw [hpart] at hc
      cases hc
    · rw [hpart] at hc
      exact List.mem_append_right _ (List.mem_cons_of_mem _ hc)

/-- The text of a URL without what `urlsplit` drops. -/
def cleanedUrl (url : Str) : Str :=
  (url.dropWhile isC0ControlOrSpace).filter fun c => !isUnsafeUrlChar c

theorem cleanedUrl_start {c : Char} (h : (cleanedUrl url).head? = some c) :
    isC0ControlOrSpace c = false := by
  have hnot := List.head?_dropWhile_not isC0ControlOrSpace url
  unfold cleanedUrl at h
  cases hdrop : url.dropWhile isC0ControlOrSpace with
  | nil =>
    rw [hdrop] at h
    cases h
  | cons d rest =>
    rw [hdrop] at h hnot
    have hd : isC0ControlOrSpace d = false := by simpa using hnot
    have hsafe : isUnsafeUrlChar d = false := by
      have hall : ∀ c ∈ ['\t', '\r', '\n'], isC0ControlOrSpace c = true :=
        List.all_iff_forall_prop.mp (by decide)
      rw [isUnsafeUrlChar, decide_eq_false_iff_not]
      intro hmem
      rw [hall d hmem] at hd
      cases hd
    rw [List.filter_cons_of_pos (by rw [hsafe]; rfl)] at h
    obtain rfl := Option.some.inj h
    exact hd

theorem namesScheme_head (h : namesScheme s) : ∃ c, s.head? = some c ∧ c.isAlpha = true := by
  obtain ⟨scheme, rest, rfl, hhead, -⟩ := h
  cases scheme with
  | nil => cases hhead
  | cons c scheme => exact ⟨c, rfl, hhead⟩

/-- How `urlsplit` has told the parts apart. -/
theorem urlsplit_eq_some (h : urlsplit P url = some parts) : ∃ rest after,
    splitScheme P (cleanedUrl url) = (parts.scheme, rest) ∧
      splitNetloc rest = (parts.netloc, after) ∧
      ('[' ∈ parts.netloc ↔ ']' ∈ parts.netloc) ∧
      ('[' ∈ parts.netloc → checkBracketedNetloc P parts.netloc = true) ∧
      parts.fragment = (partition '#' after).2.2 ∧
      parts.path = (partition '?' (partition '#' after).1).1 := by
  rcases hscheme : splitScheme P (cleanedUrl url) with ⟨scheme, rest⟩
  rcases hnetloc : splitNetloc rest with ⟨netloc, after⟩
  unfold urlsplit at h
  rw [← cleanedUrl] at h
  simp only [hscheme, hnetloc] at h
  split_ifs at h with hbrackets hbracketed hchecked
  obtain rfl := Option.some.inj h
  refine ⟨rest, after, rfl, hnetloc, ?_, ?_, rfl, rfl⟩
  · have heq : netloc.contains '[' = netloc.contains ']' := by simpa using hbrackets
    rw [Bool.eq_iff_iff, List.contains_iff_mem, List.contains_iff_mem] at heq
    exact heq
  · intro hopen
    by_contra hrefused
    refine hbracketed ?_
    rw [Bool.and_eq_true, List.contains_iff_mem, Bool.not_eq_true']
    exact ⟨hopen, by simpa using hrefused⟩

/-- **What `urlsplit` returns** has been told apart. -/
theorem urlsplit_told (laws : UnicodeLaws P) (h : urlsplit P url = some parts) :
    parts.Told P := by
  obtain ⟨rest, after, hscheme, hnetloc, hbrackets, hbracketed, hfragment, hpath⟩ :=
    urlsplit_eq_some h
  obtain ⟨hinitial, hquestion, hsharp, hmem⟩ := path_of_rest hfragment hpath
  have hhead {c : Char} (hc : parts.path.head? = some c) : after.head? = some c := by
    obtain ⟨path, hpath⟩ := List.head?_eq_some_iff.mp hc
    obtain ⟨text, htext⟩ := hinitial
    rw [← htext, hpath]
    rfl
  -- the text after the scheme, and the one after the network location
  have hrest : (∀ c ∈ rest, c ∈ cleanedUrl url) ∧ (parts.scheme = [] →
      rest = cleanedUrl url ∧ ¬namesScheme rest) ∧ (parts.scheme ≠ [] →
        parts.scheme.head?.any Char.isAlpha = true ∧ parts.scheme.all isSchemeChar = true) ∧
      P.lower parts.scheme = parts.scheme := by
    rcases splitScheme_cases P (cleanedUrl url) with
      ⟨hnames, hsplit⟩ | ⟨scheme, text, heq, halpha, hall, hsplit⟩
    · obtain ⟨hnil, rfl⟩ := Prod.mk.inj (hscheme.symm.trans hsplit)
      rw [hnil]
      exact ⟨fun _ hc => hc, fun _ => ⟨rfl, hnames⟩, fun hne => absurd rfl hne, P.lower_nil⟩
    · obtain ⟨hlower, rfl⟩ := Prod.mk.inj (hscheme.symm.trans hsplit)
      rw [hlower]
      have hname := lower_scheme laws halpha hall
      refine ⟨fun c hc => ?_, fun hnil => ?_, fun _ => hname, laws.lower_lower scheme⟩
      · rw [heq]
        exact List.mem_append_right _ (List.mem_cons_of_mem _ hc)
      · rw [hnil] at hname
        cases hname.1
  obtain ⟨hclean, hplain, hname, hlower⟩ := hrest
  have hsafe {c : Char} (hc : c ∈ rest) : isUnsafeUrlChar c = false := by
    have hkept := (List.mem_filter.mp (hclean c hc)).2
    simpa using hkept
  rcases splitNetloc_cases rest with
    ⟨-, hsplit⟩ | ⟨netloc, text, heq, hsplit, hends, hafter⟩
  · obtain ⟨hnil, rfl⟩ := Prod.mk.inj (hnetloc.symm.trans hsplit)
    refine ⟨hname, hlower, ?_, fun hne => absurd hnil hne, ⟨hquestion, hsharp⟩, ?_, ?_, ?_,
      hbrackets, hbracketed⟩
    · rw [hnil]
      exact fun c hc => absurd hc List.not_mem_nil
    · rintro c (hc | hc | hc)
      · rw [hnil] at hc
        cases hc
      · exact hsafe (hinitial.mem hc)
      · exact hsafe (hmem c hc)
    · intro hnone _ c hc
      rw [(hplain hnone).1] at hhead
      exact cleanedUrl_start (hhead hc)
    · exact fun hnone _ hnames => (hplain hnone).2 (namesScheme_of_initial hnames hinitial)
  · obtain ⟨hnetloc', rfl⟩ := Prod.mk.inj (hnetloc.symm.trans hsplit)
    rw [← hnetloc'] at hends heq
    have hroot {c : Char} (hc : parts.path.head? = some c) : c = '/' := by
      have hmem := List.mem_of_mem_head? (Option.mem_def.mpr hc)
      have hend := hafter c (hhead hc)
      simp only [netlocEnds, List.mem_cons, List.not_mem_nil, or_false] at hend
      rcases hend with rfl | rfl | rfl
      · rfl
      · exact absurd hmem hquestion
      · exact absurd hmem hsharp
    refine ⟨hname, hlower, hends, fun _ => ?_, ⟨hquestion, hsharp⟩, ?_, ?_, ?_, hbrackets,
      hbracketed⟩
    · cases hpath : parts.path with
      | nil => exact .inl rfl
      | cons c path =>
        have hc := hroot (c := c) (by rw [hpath]; rfl)
        exact .inr (by rw [hc]; rfl)
    · rintro c (hc | hc | hc)
      · exact hsafe (heq ▸ List.mem_append_left _ (List.mem_append_right _ hc))
      · exact hsafe (heq ▸ List.mem_append_right _ (hinitial.mem hc))
      · exact hsafe (heq ▸ List.mem_append_right _ (hmem c hc))
    · intro _ _ c hc
      rw [hroot hc]
      decide
    · intro _ _ hnames
      obtain ⟨c, hc, halpha⟩ := namesScheme_head hnames
      rw [hroot hc] at halpha
      cases halpha

/-! ## What is written -/

/-- The characters that are written between the parts. -/
def writtenMarks : List Char := [':', '/', '?', '#']

section Written

variable (hrooted : parts.netloc ≠ [] → parts.path = [] ∨ parts.path.head? = some '/')
include hrooted

theorem mem_urlunsplit {c : Char} (hc : c ∈ urlunsplit parts) :
    c ∈ writtenMarks ∨ c ∈ parts.scheme ∨ c ∈ parts.netloc ∨ c ∈ parts.path ∨
      c ∈ parts.query ∨ c ∈ parts.fragment := by
  have hpart {m c : Char} {a : Str} (hm : m ∈ writtenMarks)
      (hc : c ∈ if a ≠ [] then m :: a else []) : c ∈ writtenMarks ∨ c ∈ a := by
    split_ifs at hc
    · rcases List.mem_cons.mp hc with rfl | hc
      · exact .inl hm
      · exact .inr hc
    · cases hc
  have hslashes : ∀ c ∈ "//".toList, c ∈ writtenMarks := List.all_iff_forall_prop.mp (by decide)
  rw [urlunsplit_eq hrooted, SplitResult.afterScheme, SplitResult.afterNetloc] at hc
  simp only [List.mem_append] at hc
  rcases hc with hc | hc | (hc | hc) | hc
  · split_ifs at hc
    · rcases List.mem_append.mp hc with hc | hc
      · exact .inr (.inl hc)
      · rw [List.mem_singleton.mp hc]
        exact .inl (by decide)
    · cases hc
  · split_ifs at hc
    · rcases List.mem_append.mp hc with hc | hc
      · exact .inl (hslashes c hc)
      · exact .inr (.inr (.inl hc))
    · cases hc
  · exact .inr (.inr (.inr (.inl hc)))
  · exact (hpart (by decide) hc).imp_right fun hc => .inr (.inr (.inr (.inl hc)))
  · exact (hpart (by decide) hc).imp_right fun hc => .inr (.inr (.inr (.inr hc)))

/-- The first character that is written: the one of the scheme, one that ends a network location,
or the one of the path. -/
theorem urlunsplit_head {c : Char} (hc : (urlunsplit parts).head? = some c) :
    parts.scheme.head? = some c ∨ parts.scheme = [] ∧ (c ∈ netlocEnds ∨
      parts.netloc = [] ∧ parts.path.head? = some c) := by
  rw [urlunsplit_eq hrooted] at hc
  by_cases hscheme : parts.scheme = []
  · rw [if_neg (not_not.mpr hscheme), List.nil_append, SplitResult.afterScheme] at hc
    refine .inr ⟨hscheme, ?_⟩
    by_cases hslashes : parts.hasSlashes
    · rw [if_pos hslashes] at hc
      obtain rfl := Option.some.inj hc
      exact .inl (by decide)
    · rw [if_neg hslashes, List.nil_append, SplitResult.afterNetloc] at hc
      cases hpath : parts.path with
      | nil =>
        rw [hpath, List.nil_append] at hc
        split_ifs at hc
        · obtain rfl := Option.some.inj hc
          exact .inl (by decide)
        · obtain rfl := Option.some.inj hc
          exact .inl (by decide)
        · obtain rfl := Option.some.inj hc
          exact .inl (by decide)
        · cases hc
      | cons d path =>
        rw [hpath] at hc
        exact .inr ⟨not_not.mp (not_or.mp hslashes).1, hc⟩
  · obtain ⟨d, scheme, hd⟩ := List.exists_cons_of_ne_nil hscheme
    rw [if_pos hscheme, hd] at hc
    exact .inl (by rw [hd]; exact hc)

/-- The last character that is written. -/
theorem urlunsplit_last {c : Char} (hc : (urlunsplit parts).getLast? = some c) :
    c ∈ writtenMarks ∨ parts.fragment.getLast? = some c ∨
      parts.fragment = [] ∧ (parts.query.getLast? = some c ∨
        parts.query = [] ∧ (parts.path.getLast? = some c ∨
          parts.path = [] ∧ parts.netloc.getLast? = some c)) := by
  have happend {a b : Str} (h : (a ++ b).getLast? = some c) :
      b.getLast? = some c ∨ b = [] ∧ a.getLast? = some c := by
    rwa [List.getLast?_append, Option.or_eq_some_iff, List.getLast?_eq_none_iff] at h
  have hpart {m : Char} {a b : Str} (h : (a ++ if b ≠ [] then m :: b else []).getLast? = some c) :
      b.getLast? = some c ∨ b = [] ∧ a.getLast? = some c := by
    split_ifs at h with hb
    · rw [List.append_cons] at h
      exact .inl ((happend h).resolve_right fun hnil => hb hnil.1)
    · rw [List.append_nil] at h
      exact .inr ⟨not_not.mp hb, h⟩
  rw [urlunsplit_eq hrooted, SplitResult.afterScheme, SplitResult.afterNetloc,
    ← List.append_assoc, ← List.append_assoc, ← List.append_assoc] at hc
  rcases hpart hc with hc | ⟨hfragment, hc⟩
  · exact .inr (.inl hc)
  rcases hpart hc with hc | ⟨hquery, hc⟩
  · exact .inr (.inr ⟨hfragment, .inl hc⟩)
  rcases happend hc with hc | ⟨hpath, hc⟩
  · exact .inr (.inr ⟨hfragment, .inr ⟨hquery, .inl hc⟩⟩)
  by_cases hslashes : parts.hasSlashes
  · rw [if_pos hslashes, ← List.append_assoc] at hc
    rcases happend hc with hc | ⟨-, hc⟩
    · exact .inr (.inr ⟨hfragment, .inr ⟨hquery, .inr ⟨hpath, hc⟩⟩⟩)
    · rcases happend hc with hc | ⟨hslashes, -⟩
      · obtain rfl := Option.some.inj hc
        exact .inl (by decide)
      · cases hslashes
  · rw [if_neg hslashes, List.append_nil] at hc
    split_ifs at hc
    · rw [List.getLast?_concat] at hc
      obtain rfl := Option.some.inj hc
      exact .inl (by decide)
    · cases hc

end Written

/-! ## Normalized texts -/

section Normalized

variable (laws : UnicodeLaws P)
include laws

theorem nfkc_mark_append {c : Char} {a b : Str} (hc : c ∈ urlMarks) (ha : P.nfkc a = a)
    (hb : P.nfkc b = b) : P.nfkc (a ++ c :: b) = a ++ c :: b := by
  rw [laws.nfkc_mark c hc, ha, hb]

/-- What follows a mark in a normalized text is normalized, and so is what comes before. -/
theorem nfkc_of_mark {c : Char} {a b : Str} (hc : c ∈ urlMarks)
    (h : P.nfkc (a ++ c :: b) = a ++ c :: b) (hb : P.nfkc b = b) : P.nfkc a = a := by
  rw [laws.nfkc_mark c hc, hb] at h
  exact List.append_cancel_right h

theorem nfkc_append {a b : Str} (ha : P.nfkc a = a) (hb : P.nfkc b = b)
    (hmark : ∀ c, b.head? = some c → c ∈ urlMarks) : P.nfkc (a ++ b) = a ++ b := by
  cases b with
  | nil => rwa [List.append_nil]
  | cons c b =>
    have hc := hmark c rfl
    have hnil : P.nfkc (c :: b) = c :: P.nfkc b := by
      have hsplit := laws.nfkc_mark c hc [] b
      rwa [P.nfkc_nil] at hsplit
    rw [hnil] at hb
    exact nfkc_mark_append laws hc ha (List.cons.inj hb).2

/-- **What is written is normalized**, as its parts are. -/
theorem nfkc_urlunsplit
    (hrooted : parts.netloc ≠ [] → parts.path = [] ∨ parts.path.head? = some '/')
    (hscheme : P.nfkc parts.scheme = parts.scheme) (hnetloc : P.nfkc parts.netloc = parts.netloc)
    (hpath : P.nfkc parts.path = parts.path) (hquery : P.nfkc parts.query = parts.query)
    (hfragment : P.nfkc parts.fragment = parts.fragment) :
    P.nfkc (urlunsplit parts) = urlunsplit parts := by
  have hpart {c : Char} {a b : Str} (hc : c ∈ urlMarks) (ha : P.nfkc a = a)
      (hb : P.nfkc b = b) : P.nfkc (a ++ if b ≠ [] then c :: b else []) =
        a ++ if b ≠ [] then c :: b else [] := by
    split_ifs
    · exact nfkc_mark_append laws hc ha hb
    · rwa [List.append_nil]
  have hafter : P.nfkc parts.afterNetloc = parts.afterNetloc :=
    hpart (by decide) (hpart (by decide) hpath hquery) hfragment
  have hscheme' : P.nfkc parts.afterScheme = parts.afterScheme := by
    unfold SplitResult.afterScheme
    by_cases hslashes : parts.hasSlashes
    · have hends : ∀ c ∈ netlocEnds, c ∈ urlMarks := List.all_iff_forall_prop.mp (by decide)
      have hrest : P.nfkc (parts.netloc ++ parts.afterNetloc) =
          parts.netloc ++ parts.afterNetloc :=
        nfkc_append laws hnetloc hafter fun c hc =>
          hends c (afterNetloc_head (rooted_of_slashes hrooted hslashes) c hc)
      rw [if_pos hslashes, List.append_assoc]
      exact nfkc_mark_append laws (a := ['/']) (by decide)
        (laws.nfkc_ascii _ (List.all_iff_forall_prop.mp (by decide))) hrest
    · rwa [if_neg hslashes, List.nil_append]
  rw [urlunsplit_eq hrooted]
  split_ifs
  · rw [List.append_assoc]
    exact nfkc_mark_append laws (by decide) hscheme hscheme'
  · rwa [List.nil_append]

end Normalized

end JobPing
