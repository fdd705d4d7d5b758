import JobPing.ReadUrls

/-!
# Canonical URLs

`canonicalize_apply_url` of what it has returned: the same URL, if normalization, white space and
brackets find nothing new in what is left of the parts (`Settled`, `canonicalize_again`). Where
they do, as at a blank before the slash that ends a path, it is another one, or none.
-/

namespace JobPing

variable {P : Python} {parts : SplitResult} {s url v netloc : Str}

/-! ## Paths -/

/-- A path without the slashes at its end. -/
def canonicalPath (path : Str) : Str :=
  if path.rdropWhile (· = '/') ≠ [] then path.rdropWhile (· = '/')
  else if path ≠ [] then ['/'] else []

theorem canonicalPath_cases (path : Str) :
    canonicalPath path = path.rdropWhile (· = '/') ∧ (canonicalPath path = [] → path = []) ∨
      canonicalPath path = ['/'] ∧ ∃ rest, path = '/' :: rest := by
  unfold canonicalPath
  split_ifs with hdrop hpath
  · exact .inl ⟨rfl, fun h => absurd h hdrop⟩
  · refine .inr ⟨rfl, ?_⟩
    obtain ⟨c, rest, rfl⟩ := List.exists_cons_of_ne_nil hpath
    have hall := List.rdropWhile_eq_nil_iff.mp (not_not.mp hdrop) c List.mem_cons_self
    exact ⟨rest, by rw [of_decide_eq_true hall]⟩
  · rw [not_not.mp hpath]
    exact .inl ⟨rfl, fun _ => rfl⟩

theorem canonicalPath_is_initial (path : Str) : canonicalPath path <+: path := by
  rcases canonicalPath_cases path with ⟨h, -⟩ | ⟨h, rest, hpath⟩
  · rw [h]
    exact List.rdropWhile_prefix _ _
  · rw [h, hpath]
    exact ⟨rest, rfl⟩

theorem canonicalPath_eq_nil {path : Str} : canonicalPath path = [] ↔ path = [] := by
  refine ⟨fun h => ?_, fun h => by rw [h]; rfl⟩
  rcases canonicalPath_cases path with ⟨-, hnil⟩ | ⟨h', -⟩
  · exact hnil h
  · rw [h] at h'
    cases h'

theorem canonicalPath_again (path : Str) :
    canonicalPath (canonicalPath path) = canonicalPath path := by
  rcases canonicalPath_cases path with ⟨h, -⟩ | ⟨h, -⟩
  · rw [h, canonicalPath, List.rdropWhile_idempotent]
    split_ifs with hdrop
    · rfl
    · exact (not_not.mp hdrop).symm
  · rw [h]
    rfl

theorem canonicalPath_head {path : Str} {c : Char} (hc : (canonicalPath path).head? = some c) :
    path.head? = some c := by
  obtain ⟨rest, hrest⟩ := canonicalPath_is_initial path
  obtain ⟨text, htext⟩ := List.head?_eq_some_iff.mp hc
  rw [← hrest, htext]
  rfl

theorem canonicalPath_rooted {path : Str} (h : path = [] ∨ path.head? = some '/') :
    canonicalPath path = [] ∨ (canonicalPath path).head? = some '/' := by
  cases hcanonical : canonicalPath path with
  | nil => exact .inl rfl
  | cons c rest =>
    have hc : path.head? = some c := canonicalPath_head (by rw [hcanonical]; rfl)
    rcases h with h | h
    · rw [h] at hc
      cases hc
    · exact .inr (hc.symm.trans h)

/-- A path is normalized without the slashes at its end. -/
theorem nfkc_canonicalPath (laws : UnicodeLaws P) {path : Str} (h : P.nfkc path = path) :
    P.nfkc (canonicalPath path) = canonicalPath path := by
  rcases canonicalPath_cases path with ⟨hdrop, -⟩ | ⟨hroot, -⟩
  · have hsplit : path = canonicalPath path ++ path.rtakeWhile (· = '/') := by
      rw [hdrop, List.rdropWhile_append_rtakeWhile]
    have hslashes : ∀ c ∈ path.rtakeWhile (· = '/'), c = '/' := fun c hc =>
      of_decide_eq_true (List.mem_rtakeWhile_imp (p := fun c => decide (c = '/')) hc)
    cases hrest : path.rtakeWhile (· = '/') with
    | nil =>
      rw [hrest, List.append_nil] at hsplit
      rwa [← hsplit]
    | cons c rest =>
      rw [hrest] at hsplit hslashes
      obtain rfl := hslashes c List.mem_cons_self
      have hascii : ∀ c ∈ rest, isAscii c = true := fun c hc => by
        rw [hslashes c (List.mem_cons_of_mem _ hc)]
        rfl
      rw [hsplit] at h
      exact nfkc_of_mark laws (by decide) h (laws.nfkc_ascii rest hascii)
  · rw [hroot]
    exact laws.nfkc_ascii _ (List.all_iff_forall_prop.mp (by decide))

/-! ## Queries -/

/-- The query parameters that are kept. -/
def keptParameters (P : Python) (query : Str) : List (Str × Str) :=
  (parseQsl true query).filter fun pair => !isTrackingParameter P pair.1

theorem kept_again (P : Python) (query : Str) :
    keptParameters P (urlencode (keptParameters P query)) = keptParameters P query := by
  unfold keptParameters
  rw [parseQsl_urlencode, List.filter_filter]
  simp only [Bool.and_self]

theorem mem_urlencode {query : List (Str × Str)} {c : Char} (hc : c ∈ urlencode query) :
    isQuoted c = true ∨ c ∈ ['=', '&'] := by
  have hpart (pair : Str × Str) (hc : c ∈ quotePlus pair.1 ++ '=' :: quotePlus pair.2) :
      isQuoted c = true ∨ c ∈ ['=', '&'] := by
    rcases List.mem_append.mp hc with hc | hc
    · exact .inl (quotePlus_quoted _ c hc)
    · rcases List.mem_cons.mp hc with rfl | hc
      · exact .inr (by decide)
      · exact .inl (quotePlus_quoted _ c hc)
  induction query with
  | nil => cases hc
  | cons pair query ih =>
    cases query with
    | nil =>
      change c ∈ ['&'].intercalate [quotePlus pair.1 ++ '=' :: quotePlus pair.2] at hc
      rw [List.intercalate_singleton] at hc
      exact hpart pair hc
    | cons next query =>
      have hcons : urlencode (pair :: next :: query) =
          (quotePlus pair.1 ++ '=' :: quotePlus pair.2) ++ ['&'] ++ urlencode (next :: query) :=
        List.intercalate_cons_cons
      rw [hcons, List.mem_append, List.mem_append] at hc
      rcases hc with (hc | hc) | hc
      · exact hpart pair hc
      · rw [List.mem_singleton.mp hc]
        exact .inr (by decide)
      · exact ih hc

theorem not_mem_urlencode {query : List (Str × Str)} {c : Char} (hc : isQuoted c = false)
    (hnot : c ∉ ['=', '&']) : c ∉ urlencode query := fun hmem =>
  (mem_urlencode hmem).elim (fun h => by rw [hc] at h; cases h) hnot

theorem isAscii_of_urlencode {query : List (Str × Str)} {c : Char} (hc : c ∈ urlencode query) :
    isAscii c = true := by
  have hall : ∀ c ∈ ['=', '&'], isAscii c = true := List.all_iff_forall_prop.mp (by decide)
  exact (mem_urlencode hc).elim isAscii_of_quoted (hall c)

/-- An escaped text has no blank. -/
theorem isSpace_urlencode (laws : UnicodeLaws P) {query : List (Str × Str)} {c : Char}
    (hc : c ∈ urlencode query) : P.isSpace c = false := by
  have hascii := isAscii_of_urlencode hc
  refine laws.isSpace_ascii c hascii ?_
  have hall : ∀ n < 128, isQuoted (Char.ofNat n) = true ∨ Char.ofNat n ∈ ['=', '&'] →
      0x20 < (Char.ofNat n).toNat := by decide
  exact ascii_all (p := fun c => isQuoted c = true ∨ c ∈ ['=', '&'] → 0x20 < c.toNat) hall hascii
    (mem_urlencode hc)

theorem start_of_scheme {c : Char} (hc : isSchemeChar c = true) :
    isC0ControlOrSpace c = false := by
  have hall : ∀ n < 128, isSchemeChar (Char.ofNat n) = true →
      isC0ControlOrSpace (Char.ofNat n) = false := by decide
  exact ascii_all (p := fun c => isSchemeChar c = true → isC0ControlOrSpace c = false) hall
    (isAscii_of_scheme_char hc) hc

theorem strip_eq_self (hhead : ∀ c, s.head? = some c → P.isSpace c = false)
    (hlast : ∀ c, s.getLast? = some c → P.isSpace c = false) : P.strip s = s := by
  have hdrop {s : Str} (h : ∀ c, s.head? = some c → P.isSpace c = false) :
      s.dropWhile P.isSpace = s := by
    cases s with
    | nil => rfl
    | cons c s => exact List.dropWhile_cons_of_neg (by rw [h c rfl]; exact Bool.false_ne_true)
  unfold Unicode.strip
  rw [hdrop hhead, hdrop (by rwa [List.head?_reverse]), List.reverse_reverse]

/-! ## What is left of the parts -/

theorem canonicalUrlParts_eq (hlower : P.lower parts.scheme = parts.scheme) :
    canonicalUrlParts P parts (some netloc) =
      { scheme := parts.scheme, netloc, path := canonicalPath parts.path,
        query := urlencode (keptParameters P parts.query), fragment := parts.fragment } := by
  unfold canonicalUrlParts canonicalPath keptParameters
  rw [hlower]
  rfl

/-- **What is left of the parts stays.** -/
theorem canonicalUrlParts_again (hlower : P.lower parts.scheme = parts.scheme) :
    canonicalUrlParts P (canonicalUrlParts P parts (some netloc)) (some netloc) =
      canonicalUrlParts P parts (some netloc) := by
  rw [canonicalUrlParts_eq hlower, canonicalUrlParts_eq (by exact hlower),
    canonicalPath_again, kept_again]

/-- The text that a canonical URL ends with, where it may end in white space. -/
def lastText (P : Python) (parts : SplitResult) : Str :=
  if parts.fragment ≠ [] then parts.fragment
  else if keptParameters P parts.query ≠ [] then []
  else if parts.path ≠ [] then canonicalPath parts.path
  else if parts.hostinfo.1 = [] then parts.netloc
  else if parts.port = some none ∧ ':' ∉ parts.hostinfo.1 then parts.hostinfo.1
  else []

/-- **The host can be told apart** again: what lower case made of it is normalized, and a host that
loses its brackets stays apart. -/
structure LegibleHost (P : Python) (parts : SplitResult) : Prop where
  user_info : P.nfkc (canonicalUserInfo parts) = canonicalUserInfo parts
  host : P.nfkc (P.lower parts.hostinfo.1) = P.lower parts.hostinfo.1
  no_host : parts.hostinfo.1 = [] → P.nfkc parts.netloc = parts.netloc
  apart : parts.staysApart

/-- **Nothing new is found** in what is left of the parts: what `urlsplit` brought together is
normalized, and there is no white space at the ends. -/
structure SettledUrl (P : Python) (parts : SplitResult) : Prop extends LegibleHost P parts where
  path : P.nfkc parts.path = parts.path
  fragment : P.nfkc parts.fragment = parts.fragment
  begins : parts.scheme = [] → parts.netloc = [] → parts.path.head?.any P.isSpace = false
  ends : (lastText P parts).getLast?.any P.isSpace = false

section Written

variable (laws : UnicodeLaws P) (legible : LegibleHost P parts)
  (hnetloc : canonicalNetloc P parts = some netloc)
include laws legible hnetloc

/-- **The network location that is written is normalized.** -/
theorem nfkc_netloc : P.nfkc netloc = netloc := by
  rcases written_netloc laws hnetloc with ⟨hhost, rfl⟩ | ⟨-, port, -, hwritten⟩
  · exact legible.no_host hhost
  have hport : P.nfkc (portText port) = portText port :=
    laws.nfkc_ascii _ fun c hc => by
      rcases mem_portText hc with rfl | hdigit
      · rfl
      · exact isAscii_of_hex (by rw [hexValue, if_pos hdigit]; rfl)
  have hport_head (c : Char) (hc : (portText port).head? = some c) : c ∈ urlMarks := by
    cases port with
    | none => cases hc
    | some n =>
      obtain rfl := Option.some.inj hc
      decide
  have hhost : P.nfkc (foldedHost P parts.hostinfo.1) = foldedHost P parts.hostinfo.1 := by
    unfold foldedHost
    cases hlookup : atsHostAliases.lookup (P.lower parts.hostinfo.1) with
    | none => exact legible.host
    | some host => exact laws.nfkc_ascii host fun c hc => ((alias_spec hlookup).2.1 c hc).1
  have htext : P.nfkc (canonicalHost P parts.hostinfo.1 ++ portText port) =
      canonicalHost P parts.hostinfo.1 ++ portText port := by
    rw [canonicalHost_eq]
    split_ifs
    · have hrest := nfkc_mark_append laws (c := ']') (by decide) hhost hport
      have hopen := nfkc_mark_append laws (c := '[') (a := []) (by decide) P.nfkc_nil hrest
      simpa only [List.nil_append, List.cons_append, List.append_assoc] using hopen
    · exact nfkc_append laws hhost hport hport_head
  have huser := legible.user_info
  rw [hwritten]
  rcases canonicalUserInfo_cases parts with ⟨hnone, -⟩ | ⟨before, hsome, -, -⟩
  · rwa [hnone, List.nil_append]
  · rw [hsome] at huser ⊢
    rw [List.append_assoc]
    exact nfkc_mark_append laws (by decide)
      (nfkc_of_mark laws (by decide) huser P.nfkc_nil) htext

omit legible in
/-- A network location is written where one was read. -/
theorem netloc_eq_nil : netloc = [] ↔ parts.netloc = [] := by
  rcases written_netloc laws hnetloc with ⟨-, rfl⟩ | ⟨hhost, port, -, hwritten⟩
  · rfl
  · have hread : parts.netloc ≠ [] := fun hnil => hhost (by
      rw [SplitResult.hostinfo, hnil]
      rfl)
    have hne : canonicalHost P parts.hostinfo.1 ≠ [] := by
      rw [canonicalHost_eq]
      split_ifs
      · exact List.cons_ne_nil _ _
      · exact foldedHost_ne_nil laws hhost
    refine iff_of_false ?_ hread
    rw [hwritten]
    simp [hne]

omit legible in
/-- A separator of the location that is written was read, but for those of the host. -/
theorem mem_netloc {c : Char} (hc : isSeparator c = true) (hdigit : c.isDigit = false)
    (hnot : c ∉ [':', '[', ']']) (hmem : c ∈ netloc) : c ∈ parts.netloc := by
  simp only [List.mem_cons, List.not_mem_nil, or_false, not_or] at hnot
  rcases written_netloc laws hnetloc with ⟨-, rfl⟩ | ⟨-, port, -, rfl⟩
  · exact hmem
  rw [netloc_eq parts]
  rcases List.mem_append.mp hmem with hmem | hmem
  · exact List.mem_append_left _ hmem
  refine List.mem_append_right _ ((hostinfo_spec parts).1 c ((mem_foldedHost laws hc).mp ?_))
  rcases List.mem_append.mp hmem with hmem | hmem
  · rw [canonicalHost_eq] at hmem
    split_ifs at hmem
    · rcases List.mem_append.mp hmem with hmem | hmem
      · exact (List.mem_cons.mp hmem).resolve_left hnot.2.1
      · exact absurd (List.mem_singleton.mp hmem) hnot.2.2
    · exact hmem
  · rcases mem_portText hmem with h | h
    · exact absurd h hnot.1
    · rw [hdigit] at h
      cases h

omit legible in
/-- The characters of what is written are those that `urlsplit` keeps. -/
theorem plain_canonical (told : parts.Told P)
    (hrooted : netloc ≠ [] → canonicalPath parts.path = [] ∨
      (canonicalPath parts.path).head? = some '/') :
    ∀ c ∈ urlunsplit (canonicalUrlParts P parts (some netloc)),
      isUnsafeUrlChar c = false := by
  intro c hc
  rw [canonicalUrlParts_eq told.lower] at hc
  by_contra hunsafe
  have hunsafe' : c ∈ ['\t', '\r', '\n'] := by
    rwa [isUnsafeUrlChar, decide_eq_false_iff_not, not_not] at hunsafe
  have hall : ∀ c ∈ ['\t', '\r', '\n'], c ∉ writtenMarks ∧ isSchemeChar c = false ∧
      isSeparator c = true ∧ c.isDigit = false ∧ c ∉ [':', '[', ']'] ∧ isQuoted c = false ∧
      c ∉ ['=', '&'] := List.all_iff_forall_prop.mp (by decide)
  obtain ⟨hmarks, hscheme, hseparator, hdigit, hnot, hquoted, hquery⟩ := hall c hunsafe'
  rcases mem_urlunsplit hrooted hc with hc | hc | hc | hc | hc | hc
  · exact hmarks hc
  · have hne : parts.scheme ≠ [] := List.ne_nil_of_mem hc
    have hchar := List.all_eq_true.mp (told.scheme hne).2 c hc
    rw [hscheme] at hchar
    cases hchar
  · exact hunsafe (told.plain c (.inl (mem_netloc laws hnetloc hseparator hdigit hnot hc)))
  · exact hunsafe (told.plain c (.inr (.inl ((canonicalPath_is_initial _).mem hc))))
  · exact not_mem_urlencode hquoted hquery hc
  · exact hunsafe (told.plain c (.inr (.inr hc)))

omit legible in
/-- What is written without a scheme starts with the name of none. -/
theorem relative_canonical (told : parts.Told P) (hscheme : parts.scheme = [])
    (hrooted : netloc ≠ [] → canonicalPath parts.path = [] ∨
      (canonicalPath parts.path).head? = some '/') :
    ¬namesScheme (urlunsplit (canonicalUrlParts P parts (some netloc))) := by
  intro hnames
  rw [canonicalUrlParts_eq told.lower] at hnames
  obtain ⟨c, hc, halpha⟩ := namesScheme_head hnames
  have hends : ∀ c ∈ netlocEnds, c.isAlpha = false := List.all_iff_forall_prop.mp (by decide)
  have hmark {c : Char} (hc : c ∈ netlocEnds) (halpha : c.isAlpha = true) : False := by
    rw [hends c hc] at halpha
    cases halpha
  rcases urlunsplit_head hrooted hc with hc' | ⟨-, hc' | ⟨hnil, -⟩⟩
  · dsimp only at hc'
    rw [hscheme] at hc'
    cases hc'
  · exact hmark hc' halpha
  rw [urlunsplit_eq hrooted, if_neg (not_not.mpr hscheme), List.nil_append,
    SplitResult.afterScheme] at hnames hc
  split_ifs at hnames hc with hslashes
  · obtain rfl := Option.some.inj hc
    exact hmark (by decide) halpha
  rw [List.nil_append, SplitResult.afterNetloc, List.append_assoc] at hnames
  have hnames' := namesScheme_of_append hnames fun c hc => by
    split_ifs at hc <;> cases hc <;> decide
  exact told.relative hscheme ((netloc_eq_nil laws hnetloc).mp hnil)
    (namesScheme_of_initial hnames' (canonicalPath_is_initial _))

/-- **What is left of the parts is read back.** -/
theorem readable_canonical (told : parts.Told P) :
    (canonicalUrlParts P parts (some netloc)).Readable P := by
  have hrooted : netloc ≠ [] → canonicalPath parts.path = [] ∨
      (canonicalPath parts.path).head? = some '/' := fun hne =>
    canonicalPath_rooted (told.rooted (mt (netloc_eq_nil laws hnetloc).mpr hne))
  have hends : ∀ c ∈ netloc, c ∉ netlocEnds := fun c hc hend => by
    have hall : ∀ c ∈ netlocEnds, isSeparator c = true ∧ c.isDigit = false ∧
        c ∉ [':', '[', ']'] := List.all_iff_forall_prop.mp (by decide)
    obtain ⟨hseparator, hdigit, hnot⟩ := hall c hend
    exact told.netloc c (mem_netloc laws hnetloc hseparator hdigit hnot hc) hend
  obtain ⟨hbrackets, hbracketed⟩ :=
    netloc_accepted laws hnetloc told.brackets told.bracketed legible.apart
  have hplain := plain_canonical laws hnetloc told hrooted
  have hrelative := relative_canonical laws hnetloc told
  have hstart : ∀ c, (urlunsplit (canonicalUrlParts P parts (some netloc))).head? = some c →
      isC0ControlOrSpace c = false := by
    intro c hc
    rw [canonicalUrlParts_eq told.lower] at hc
    have hends : ∀ c ∈ netlocEnds, isC0ControlOrSpace c = false :=
      List.all_iff_forall_prop.mp (by decide)
    rcases urlunsplit_head hrooted hc with hc | ⟨hscheme, hc | ⟨hnil, hc⟩⟩
    · have hmem := List.mem_of_mem_head? (Option.mem_def.mpr hc)
      exact start_of_scheme
        (List.all_eq_true.mp (told.scheme (List.ne_nil_of_mem hmem)).2 c hmem)
    · exact hends c hc
    · exact told.start hscheme ((netloc_eq_nil laws hnetloc).mp hnil) c (canonicalPath_head hc)
  have hchecked : checkNetloc P netloc = true := by
    unfold checkNetloc
    split_ifs
    · rfl
    · refine Bool.or_eq_true_iff.mpr (.inr (List.all_eq_true.mpr fun c hc => ?_))
      rw [decide_eq_true_eq]
      intro hmark
      have hall : ∀ c ∈ ['/', '?', '#', '@', ':'], c ∈ urlMarks ∧ (c ∈ ['@', ':', '#', '?'] ∨
          c ∈ netlocEnds) := List.all_iff_forall_prop.mp (by decide)
      have hmade := laws.nfkc_made c (hall c hmark).1 netloc _ (nfkc_netloc laws legible hnetloc)
        (fun d hd => (List.mem_filter.mp hd).1) hc
      obtain ⟨hmem, hkept⟩ := List.mem_filter.mp hmade
      exact (hall c hmark).2.elim (by simpa using hkept) (hends c hmem)
  rw [canonicalUrlParts_eq told.lower] at hplain hstart hrelative ⊢
  refine ⟨fun hne => ⟨(told.scheme hne).1, (told.scheme hne).2, told.lower⟩, hends, hrooted,
    ⟨fun h => told.path.1 ((canonicalPath_is_initial _).mem h),
      fun h => told.path.2 ((canonicalPath_is_initial _).mem h)⟩,
    not_mem_urlencode (by decide) (by decide), hplain, hstart,
    fun hscheme => splitScheme_plain (hrelative hscheme hrooted), ?_, ?_, hchecked⟩
  · rw [Bool.eq_iff_iff, List.contains_iff_mem, List.contains_iff_mem]
    exact hbrackets
  · rw [List.contains_iff_mem]
    exact hbracketed

end Written

/-- A folded host ends in white space only where it was read so. -/
theorem foldedHost_last (laws : UnicodeLaws P)
    (hends : parts.hostinfo.1.getLast?.any P.isSpace = false) :
    (foldedHost P parts.hostinfo.1).getLast?.any P.isSpace = false := by
  unfold foldedHost
  cases hlookup : atsHostAliases.lookup (P.lower parts.hostinfo.1) with
  | none => exact (laws.lower_space _).trans hends
  | some host =>
    cases hlast : host.getLast? with
    | none => exact (congrArg (Option.any P.isSpace) hlast).trans rfl
    | some c =>
      obtain ⟨hascii, hc⟩ := (alias_spec hlookup).2.1 c (List.mem_of_getLast? hlast)
      have hall : ∀ n < 128, (Char.ofNat n).isAlpha = true ∨ Char.ofNat n ∈ ['-', '.'] →
          0x20 < (Char.ofNat n).toNat := by decide
      have hspace := laws.isSpace_ascii c hascii
        (ascii_all (p := fun c => c.isAlpha = true ∨ c ∈ ['-', '.'] → 0x20 < c.toNat) hall hascii
          hc)
      exact (congrArg (Option.any P.isSpace) hlast).trans hspace

section Settled

variable (laws : UnicodeLaws P) (settled : SettledUrl P parts)
  (hnetloc : canonicalNetloc P parts = some netloc)
include laws settled hnetloc

theorem nfkc_canonical (told : parts.Told P) :
    P.nfkc (urlunsplit (canonicalUrlParts P parts (some netloc))) =
      urlunsplit (canonicalUrlParts P parts (some netloc)) := by
  have readable := readable_canonical laws settled.toLegibleHost hnetloc told
  rw [canonicalUrlParts_eq told.lower] at readable ⊢
  refine nfkc_urlunsplit laws readable.rooted ?_ (nfkc_netloc laws settled.toLegibleHost hnetloc)
    (nfkc_canonicalPath laws settled.path)
    (laws.nfkc_ascii _ fun c hc => isAscii_of_urlencode hc) settled.fragment
  by_cases hscheme : parts.scheme = []
  · dsimp only
    rw [hscheme, P.nfkc_nil]
  · exact laws.nfkc_ascii _ fun c hc => isAscii_of_scheme_char
      (List.all_eq_true.mp (told.scheme hscheme).2 c hc)

/-- The network location that is written does not end in white space, where nothing follows it. -/
theorem netloc_last (hlast : lastText P parts =
      if parts.hostinfo.1 = [] then parts.netloc
      else if parts.port = some none ∧ ':' ∉ parts.hostinfo.1 then parts.hostinfo.1 else []) :
    netloc.getLast?.any P.isSpace = false := by
  have hends := settled.ends
  rw [hlast] at hends
  have happend {a b : Str} (hb : b ≠ []) : (a ++ b).getLast? = b.getLast? := by
    rw [List.getLast?_append, List.getLast?_eq_some_getLast hb, Option.some_or]
  rcases written_netloc laws hnetloc with ⟨hhost, rfl⟩ | ⟨hhost, port, hport, rfl⟩
  · rwa [if_pos hhost] at hends
  rw [if_neg hhost] at hends
  cases port with
  | some n =>
    have hne : portText (some n) ≠ [] := List.cons_ne_nil _ _
    rw [← List.append_assoc, happend hne]
    cases hc : (portText (some n)).getLast? with
    | none => rfl
    | some c =>
      have hall : ∀ n < 128, (Char.ofNat n).isDigit = true → 0x20 < (Char.ofNat n).toNat := by
        decide
      rcases mem_portText (List.mem_of_getLast? hc) with rfl | hdigit
      · exact laws.isSpace_ascii ':' (by decide) (by decide)
      · have hascii : isAscii c = true :=
          isAscii_of_hex (by rw [hexValue, if_pos hdigit]; rfl)
        exact laws.isSpace_ascii c hascii
          (ascii_all (p := fun c => c.isDigit = true → 0x20 < c.toNat) hall hascii hdigit)
  | none =>
    have hnil : portText none = [] := rfl
    rw [hnil, List.append_nil, canonicalHost_eq]
    split_ifs with hcolon
    · rw [← List.append_assoc, List.getLast?_concat]
      exact laws.isSpace_ascii ']' (by decide) (by decide)
    · have hcolon' : ':' ∉ parts.hostinfo.1 := by
        rwa [List.contains_iff_mem, mem_foldedHost laws (by decide)] at hcolon
      rw [if_pos ⟨hport, hcolon'⟩] at hends
      rw [happend (foldedHost_ne_nil laws hhost)]
      exact foldedHost_last laws hends

/-- No white space is at the ends of what is written. -/
theorem strip_canonical (told : parts.Told P) :
    P.strip (urlunsplit (canonicalUrlParts P parts (some netloc))) =
      urlunsplit (canonicalUrlParts P parts (some netloc)) := by
  have readable := readable_canonical laws settled.toLegibleHost hnetloc told
  rw [canonicalUrlParts_eq told.lower] at readable ⊢
  have hany {s : Str} {c : Char} (hs : s.getLast?.any P.isSpace = false)
      (hc : s.getLast? = some c) : P.isSpace c = false := by
    rwa [hc] at hs
  refine strip_eq_self (fun c hc => ?_) fun c hc => ?_
  · have hends : ∀ c ∈ netlocEnds, isAscii c = true ∧ 0x20 < c.toNat :=
      List.all_iff_forall_prop.mp (by decide)
    rcases urlunsplit_head readable.rooted hc with hc | ⟨hscheme, hc | ⟨hnil, hc⟩⟩
    · have hmem := List.mem_of_mem_head? (Option.mem_def.mpr hc)
      have hchar := List.all_eq_true.mp (told.scheme (List.ne_nil_of_mem hmem)).2 c hmem
      refine laws.isSpace_ascii c (isAscii_of_scheme_char hchar) ?_
      have hstart := start_of_scheme hchar
      rwa [isC0ControlOrSpace, decide_eq_false_iff_not, not_le] at hstart
    · exact laws.isSpace_ascii c (hends c hc).1 (hends c hc).2
    · have hbegins := settled.begins hscheme ((netloc_eq_nil laws hnetloc).mp hnil)
      rwa [canonicalPath_head hc] at hbegins
  · have hmarks : ∀ c ∈ writtenMarks, isAscii c = true ∧ 0x20 < c.toNat :=
      List.all_iff_forall_prop.mp (by decide)
    have hends := settled.ends
    have hkept (hquery : urlencode (keptParameters P parts.query) = []) :
        keptParameters P parts.query = [] := by
      rw [← parseQsl_urlencode (keptParameters P parts.query), hquery]
      rfl
    rcases urlunsplit_last readable.rooted hc with
      hc | hc | ⟨hfragment, hc | ⟨hquery, hc | ⟨hpath, hc⟩⟩⟩
    · exact laws.isSpace_ascii c (hmarks c hc).1 (hmarks c hc).2
    · rw [lastText, if_pos (List.ne_nil_of_mem (List.mem_of_getLast? hc))] at hends
      exact hany hends hc
    · exact isSpace_urlencode laws (List.mem_of_getLast? hc)
    · have hpath : parts.path ≠ [] := fun hnil =>
        List.ne_nil_of_mem (List.mem_of_getLast? hc) (canonicalPath_eq_nil.mpr hnil)
      rw [lastText, if_neg (not_not.mpr hfragment), if_neg (not_not.mpr (hkept hquery)),
        if_pos hpath] at hends
      exact hany hends hc
    · refine hany (netloc_last laws settled hnetloc ?_) hc
      rw [lastText, if_neg (not_not.mpr hfragment), if_neg (not_not.mpr (hkept hquery)),
        if_neg (not_not.mpr (canonicalPath_eq_nil.mp hpath))]

end Settled

/-! ## The tables of ASCII texts -/

/-- Only ASCII letters have another lower case. -/
theorem to_lower_cases (c : Char) : isAscii c = true ∨ c.toLower = c := by
  unfold Char.toLower
  split
  · rename_i hupper
    left
    rw [isAscii, decide_eq_true_eq]
    exact lt_of_le_of_lt hupper.2 (by decide)
  · exact .inr rfl

theorem ascii_lower (c : Char) : c.toLower.toLower = c.toLower ∧
    (c.toLower = c ∨ c.isAlpha = true ∧ c.toLower.isAlpha = true) ∧
    Python.ascii.isSpace c.toLower = Python.ascii.isSpace c := by
  rcases to_lower_cases c with hascii | hsame
  · have hall : ∀ n < 128, (Char.ofNat n).toLower.toLower = (Char.ofNat n).toLower ∧
        ((Char.ofNat n).toLower = Char.ofNat n ∨
          (Char.ofNat n).isAlpha = true ∧ (Char.ofNat n).toLower.isAlpha = true) ∧
        Python.ascii.isSpace (Char.ofNat n).toLower = Python.ascii.isSpace (Char.ofNat n) := by
      decide
    exact ascii_all (p := fun c => c.toLower.toLower = c.toLower ∧
      (c.toLower = c ∨ c.isAlpha = true ∧ c.toLower.isAlpha = true) ∧
      Python.ascii.isSpace c.toLower = Python.ascii.isSpace c) hall hascii
  · rw [hsame]
    exact ⟨hsame, .inl rfl, rfl⟩

/-- The laws hold of ASCII texts, and of the tables that leave other characters alone. -/
theorem ascii_laws : UnicodeLaws Python.ascii where
  nfkc_mark _ _ _ _ := rfl
  nfkc_ascii _ _ := rfl
  nfkc_made _ _ _ _ _ _ h := h
  lower_lower s := by
    change (s.map Char.toLower).map Char.toLower = s.map Char.toLower
    rw [List.map_map]
    exact List.map_congr_left fun c _ => (ascii_lower c).1
  lower_ascii _ _ := rfl
  lower_start a b _ := ⟨b.map Char.toLower, List.map_append, by simp⟩
  lower_mem c s _ halpha := by
    change c ∈ s.map Char.toLower ↔ c ∈ s
    have hne {d : Char} (hd : d.isAlpha = true) : d ≠ c := by
      rintro rfl
      rw [hd] at halpha
      cases halpha
    rw [List.mem_map]
    constructor
    · rintro ⟨d, hd, hlower⟩
      rcases (ascii_lower d).2.1 with hsame | ⟨-, hletter⟩
      · rwa [← hlower, hsame]
      · exact absurd hlower (hne hletter)
    · intro hc
      rcases (ascii_lower c).2.1 with hsame | ⟨hletter, -⟩
      · exact ⟨c, hc, hsame⟩
      · exact absurd rfl (hne hletter)
  lower_percent _ _ := List.map_append
  lower_space s := by
    change (s.map Char.toLower).getLast?.any Python.ascii.isSpace = _
    rw [List.getLast?_map, Option.any_map]
    congr 1
    funext c
    exact (ascii_lower c).2.2
  isSpace_ascii c hascii hlt := by
    have hall : ∀ n < 128, 0x20 < (Char.ofNat n).toNat →
        Python.ascii.isSpace (Char.ofNat n) = false := by decide
    exact ascii_all (p := fun c => 0x20 < c.toNat → Python.ascii.isSpace c = false) hall hascii
      hlt
  ipv6_colon _ h := by cases h
  ipv6_lower _ h := by cases h
  ipv6_version _ := rfl

/-- A link with a tracking parameter, to a host that is an alias. -/
def trackedUrl : Str := "HTTPS://Jobs.eu.Lever.co:443/a/?utm_source=x&b=1#f".toList

def trackedParts : SplitResult where
  scheme := "https".toList
  netloc := "Jobs.eu.Lever.co:443".toList
  path := "/a/".toList
  query := "utm_source=x&b=1".toList
  fragment := "f".toList

theorem trackedUrl_read : urlsplit Python.ascii
    (Python.ascii.strip (Python.ascii.nfkc trackedUrl)) = some trackedParts := by
  decide +kernel

theorem trackedUrl_canonical : canonicalizeApplyUrl Python.ascii trackedUrl =
    some "https://jobs.lever.co:443/a?b=1#f".toList := by
  decide +kernel

theorem tracked_legible : LegibleHost Python.ascii trackedParts where
  user_info := rfl
  host := rfl
  no_host _ := rfl
  apart h := absurd h (by decide +kernel)

/-! ## Canonical URLs -/

/-- **What a canonical URL keeps.** Read again, it has the scheme, the user information, the port
and the fragment of the URL it was made of, the folded host, the path without the slashes at its
end, and the query parameters that track nothing, in their order. -/
theorem canonical_url_keeps (laws : UnicodeLaws P) (h : canonicalizeApplyUrl P url = some v)
    (hlegible : ∀ parts, urlsplit P (P.strip (P.nfkc url)) = some parts → LegibleHost P parts) :
    ∃ parts parts', urlsplit P (P.strip (P.nfkc url)) = some parts ∧
      urlsplit P v = some parts' ∧ parts'.scheme = parts.scheme ∧
      canonicalUserInfo parts' = canonicalUserInfo parts ∧
      parts'.hostinfo.1 = foldedHost P parts.hostinfo.1 ∧
      parts'.port = parts.port ∧
      parts'.path = canonicalPath parts.path ∧
      parseQsl true parts'.query =
        (parseQsl true parts.query).filter (fun pair => !isTrackingParameter P pair.1) ∧
      parts'.fragment = parts.fragment := by
  rw [canonicalize_eq] at h
  obtain ⟨parts, hparts, h⟩ := Option.bind_eq_some_iff.mp h
  obtain ⟨netloc, hnetloc, rfl⟩ := Option.map_eq_some_iff.mp h
  have legible := hlegible parts hparts
  have told := urlsplit_told laws hparts
  have readable := readable_canonical laws legible hnetloc told
  refine ⟨parts, canonicalUrlParts P parts (some netloc), hparts, urlsplit_urlunsplit readable,
    told.lower, ?_⟩
  have hrest : parseQsl true (canonicalUrlParts P parts (some netloc)).query =
      keptParameters P parts.query := parseQsl_urlencode _
  have hwritten : (canonicalUrlParts P parts (some netloc)).netloc = netloc := rfl
  rcases written_netloc laws hnetloc with ⟨hhost, hsame⟩ | ⟨hhost, port, hport, hnetloc'⟩
  · have hinfo : (canonicalUrlParts P parts (some netloc)).hostinfo = parts.hostinfo := by
      unfold SplitResult.hostinfo
      rw [hwritten, hsame]
    have huser : canonicalUserInfo (canonicalUrlParts P parts (some netloc)) =
        canonicalUserInfo parts := by
      unfold canonicalUserInfo SplitResult.userinfo
      rw [hwritten, hsame]
    have hfolded : foldedHost P [] = [] := by
      rw [foldedHost, P.lower_nil]
      rfl
    have hport : (canonicalUrlParts P parts (some netloc)).port = parts.port := by
      unfold SplitResult.port
      rw [hinfo]
    refine ⟨huser, ?_, hport, rfl, hrest, rfl⟩
    rw [hinfo, hhost, hfolded]
  · obtain ⟨huser, -, hinfo⟩ :=
      hostinfo_again laws (plain_host legible.apart) (hwritten.trans hnetloc')
    refine ⟨huser, by rw [hinfo], ?_, rfl, hrest, rfl⟩
    rw [hport]
    exact port_again (by rw [hinfo]) fun n hn => port_le (hn ▸ hport)

theorem tracked_url_keeps : ∃ parts', urlsplit Python.ascii
    "https://jobs.lever.co:443/a?b=1#f".toList = some parts' ∧
      parseQsl true parts'.query = [("b".toList, "1".toList)] := by
  obtain ⟨parts, parts', hparts, hparts', -, -, -, -, -, hquery, -⟩ :=
    canonical_url_keeps ascii_laws trackedUrl_canonical fun parts hparts => by
      obtain rfl := Option.some.inj (trackedUrl_read.symm.trans hparts)
      exact tracked_legible
  obtain rfl := Option.some.inj (trackedUrl_read.symm.trans hparts)
  have hkept : (parseQsl true trackedParts.query).filter
      (fun pair => !isTrackingParameter Python.ascii pair.1) = [("b".toList, "1".toList)] := by
    decide +kernel
  exact ⟨parts', hparts', hquery.trans hkept⟩

/-- **A canonical URL is canonical**, if nothing new is found in what is left of its parts. -/
theorem canonicalize_again (laws : UnicodeLaws P) (h : canonicalizeApplyUrl P url = some v)
    (hsettled : ∀ parts, urlsplit P (P.strip (P.nfkc url)) = some parts → SettledUrl P parts) :
    canonicalizeApplyUrl P v = some v := by
  rw [canonicalize_eq] at h
  obtain ⟨parts, hparts, h⟩ := Option.bind_eq_some_iff.mp h
  obtain ⟨netloc, hnetloc, rfl⟩ := Option.map_eq_some_iff.mp h
  have settled := hsettled parts hparts
  have told := urlsplit_told laws hparts
  have readable := readable_canonical laws settled.toLegibleHost hnetloc told
  have hnfkc := nfkc_canonical laws settled hnetloc told
  rw [canonicalize_eq, hnfkc, strip_canonical laws settled hnetloc told,
    urlsplit_urlunsplit readable, Option.bind_some,
    canonicalNetloc_again laws hnetloc (plain_host settled.apart) rfl, Option.map_some,
    canonicalUrlParts_again told.lower]

theorem tracked_url_again : canonicalizeApplyUrl Python.ascii
    "https://jobs.lever.co:443/a?b=1#f".toList =
      some "https://jobs.lever.co:443/a?b=1#f".toList :=
  canonicalize_again ascii_laws trackedUrl_canonical fun parts hparts => by
    obtain rfl := Option.some.inj (trackedUrl_read.symm.trans hparts)
    exact { toLegibleHost := tracked_legible, path := rfl, fragment := rfl,
            begins := fun h => absurd h (by decide), ends := by decide +kernel }

end JobPing
