import JobPing.NetworkLocations

/-!
# Canonical network locations

`canonicalize_apply_url` writes the user information, the folded host and the port of a URL again.
What Python's Unicode tables do at the characters that separate these is assumed
(`UnicodeLaws`). The location that is written is folded to itself (`canonicalNetloc_again`), and
`urlsplit` accepts it unless the host lost the brackets it stood in (`netloc_accepted`).
-/

namespace JobPing

/-- The characters at which the parts of a URL are told apart. -/
def urlMarks : List Char := ['/', '?', '#', ':', '@', '[', ']']

/-- **What the tables of Unicode say** of normalization, lower case and white space next to ASCII
characters, and what is known of the texts of IPv6 addresses. -/
structure UnicodeLaws (P : Python) : Prop where
  /-- A mark composes with nothing. -/
  nfkc_mark : ∀ c ∈ urlMarks, ∀ a b, P.nfkc (a ++ c :: b) = P.nfkc a ++ c :: P.nfkc b
  nfkc_ascii : ∀ s : Str, (∀ c ∈ s, isAscii c = true) → P.nfkc s = s
  /-- The characters of a normalized text make no mark. -/
  nfkc_made : ∀ c ∈ urlMarks, ∀ s t, P.nfkc s = s → (∀ d ∈ t, d ∈ s) → c ∈ P.nfkc t → c ∈ t
  lower_lower : ∀ s, P.lower (P.lower s) = P.lower s
  lower_ascii : ∀ s : Str, (∀ c ∈ s, isAscii c = true) → P.lower s = s.map Char.toLower
  /-- ASCII characters at the start are put in lower case one by one. -/
  lower_start : ∀ a b : Str, (∀ c ∈ a, isAscii c = true) →
    ∃ b', P.lower (a ++ b) = a.map Char.toLower ++ b' ∧ (b = [] ↔ b' = [])
  /-- ASCII characters that are no letters are neither lost nor made. -/
  lower_mem : ∀ c s, isAscii c = true → c.isAlpha = false → (c ∈ P.lower s ↔ c ∈ s)
  /-- A percent sign ends a word. -/
  lower_percent : ∀ a b, P.lower (a ++ '%' :: b) = P.lower a ++ '%' :: P.lower b
  /-- White space at the end is neither lost nor made. -/
  lower_space : ∀ s, (P.lower s).getLast?.any P.isSpace = s.getLast?.any P.isSpace
  isSpace_ascii : ∀ c, isAscii c = true → 0x20 < c.toNat → P.isSpace c = false
  ipv6_colon : ∀ s, P.isIpv6Address s = true → ':' ∈ s
  ipv6_lower : ∀ s, P.isIpv6Address s = true → P.isIpv6Address (P.lower s) = true
  ipv6_version : ∀ s, P.isIpv6Address ('v' :: s) = false

variable {P : Python} {parts parts' : SplitResult} {s netloc hostname : Str}

/-! ## Folded hosts -/

/-- The host in lower case, or the one that it is an alias of. -/
def foldedHost (P : Python) (hostname : Str) : Str :=
  (atsHostAliases.lookup (P.lower hostname)).getD (P.lower hostname)

theorem canonicalHost_eq (P : Python) (hostname : Str) : canonicalHost P hostname =
    if (foldedHost P hostname).contains ':' then '[' :: foldedHost P hostname ++ [']']
    else foldedHost P hostname := rfl

/-- The names of the table: they have no other characters, and stand for themselves. -/
theorem alias_spec {host : Str} (h : atsHostAliases.lookup s = some host) :
    ((∀ c ∈ s, c.isAlpha = true ∨ c ∈ ['-', '.']) ∧ s.head? ≠ some 'v') ∧
      (∀ c ∈ host, isAscii c = true ∧ (c.isAlpha = true ∨ c ∈ ['-', '.'])) ∧ host ≠ [] ∧
      host.map Char.toLower = host ∧ atsHostAliases.lookup host = some host := by
  obtain ⟨front, back, heq, -⟩ := List.lookup_eq_some_iff.mp h
  have hmem : (s, host) ∈ atsHostAliases := by
    rw [heq]
    exact List.mem_append_right _ List.mem_cons_self
  have hall : ∀ pair ∈ atsHostAliases,
      (pair.1.all (fun c => c.isAlpha = true ∨ c ∈ ['-', '.']) = true ∧ pair.1.head? ≠ some 'v') ∧
        pair.2.all (fun c => isAscii c = true ∧ (c.isAlpha = true ∨ c ∈ ['-', '.'])) = true ∧
        pair.2 ≠ [] ∧ pair.2.map Char.toLower = pair.2 ∧
        atsHostAliases.lookup pair.2 = some pair.2 := by
    decide
  obtain ⟨⟨hname, hversion⟩, hhost, hsame⟩ := hall (s, host) hmem
  exact ⟨⟨List.all_iff_forall_prop.mp hname, hversion⟩, List.all_iff_forall_prop.mp hhost, hsame⟩

/-- A punctuation character that stands in no name of the table. -/
def isSeparator (c : Char) : Bool := isAscii c && !c.isAlpha && c ∉ ['-', '.']

theorem separator_iff {c : Char} : isSeparator c = true ↔
    isAscii c = true ∧ c.isAlpha = false ∧ c ∉ ['-', '.'] := by
  simp [isSeparator, and_assoc]

/-- **Separators stay** as they are in a host that is folded. -/
theorem mem_foldedHost (laws : UnicodeLaws P) {c : Char} (hc : isSeparator c = true) :
    c ∈ foldedHost P hostname ↔ c ∈ hostname := by
  obtain ⟨hascii, halpha, hnot⟩ := separator_iff.mp hc
  rw [← laws.lower_mem c hostname hascii halpha, foldedHost]
  cases hlookup : atsHostAliases.lookup (P.lower hostname) with
  | none => rfl
  | some host =>
    obtain ⟨⟨hkey, -⟩, hhost, -⟩ := alias_spec hlookup
    have hno : ¬(c.isAlpha = true ∨ c ∈ ['-', '.']) := by
      rw [halpha]
      exact fun h => h.elim Bool.false_ne_true hnot
    exact iff_of_false (fun hmem => hno (hhost c hmem).2) fun hmem => hno (hkey c hmem)

/-- The host of `hostname`: in lower case, but for the zone of a scoped address. -/
def lowerHost (P : Python) (host : Str) : Str :=
  P.lower (partition '%' host).1 ++
    if (partition '%' host).2.1 then '%' :: (partition '%' host).2.2 else []

theorem hostname_eq : parts.hostname P =
    if parts.hostinfo.1 = [] then none else some (lowerHost P parts.hostinfo.1) := rfl

/-- **Lower case** of a host in lower case is that of the whole text. -/
theorem lower_lowerHost (laws : UnicodeLaws P) (s : Str) :
    P.lower (lowerHost P s) = P.lower s := by
  rcases partition_cases '%' s with ⟨-, hpart⟩ | ⟨before, after, rfl, -, hpart⟩
  · have hlower : lowerHost P s = P.lower s := by
      rw [lowerHost, hpart]
      exact List.append_nil _
    rw [hlower, laws.lower_lower]
  · have hlower : lowerHost P (before ++ '%' :: after) = P.lower before ++ '%' :: after := by
      rw [lowerHost, hpart]
      rfl
    rw [hlower, laws.lower_percent, laws.lower_percent, laws.lower_lower]

theorem folded_lowerHost (laws : UnicodeLaws P) (s : Str) :
    foldedHost P (lowerHost P s) = foldedHost P s := by
  rw [foldedHost, foldedHost, lower_lowerHost laws]

/-- **A folded host is folded to itself.** -/
theorem foldedHost_again (laws : UnicodeLaws P) (s : Str) :
    foldedHost P (foldedHost P s) = foldedHost P s := by
  cases hlookup : atsHostAliases.lookup (P.lower s) with
  | none =>
    have hfolded : foldedHost P s = P.lower s := by
      rw [foldedHost, hlookup]
      rfl
    rw [hfolded, foldedHost, laws.lower_lower, hlookup]
    rfl
  | some host =>
    obtain ⟨-, hhost, -, hlower, hself⟩ := alias_spec hlookup
    have hfolded : foldedHost P s = host := by
      rw [foldedHost, hlookup]
      rfl
    rw [hfolded, foldedHost, laws.lower_ascii host fun c hc => (hhost c hc).1, hlower, hself]
    rfl

theorem lower_ne_nil (laws : UnicodeLaws P) (hne : s ≠ []) : P.lower s ≠ [] := by
  obtain ⟨lower, hlower, hnil⟩ := laws.lower_start [] s (by simp)
  rw [List.nil_append] at hlower
  rw [hlower]
  exact fun h => hne (hnil.mpr h)

theorem foldedHost_ne_nil (laws : UnicodeLaws P) (hne : hostname ≠ []) :
    foldedHost P hostname ≠ [] := by
  unfold foldedHost
  cases hlookup : atsHostAliases.lookup (P.lower hostname) with
  | none => exact lower_ne_nil laws hne
  | some host => exact (alias_spec hlookup).2.2.1

/-- A host that starts with `v` is no alias. -/
theorem folded_version (laws : UnicodeLaws P) (rest : Str) :
    foldedHost P ('v' :: rest) = P.lower ('v' :: rest) ∧
      (P.lower ('v' :: rest)).head? = some 'v' := by
  have hhead : (P.lower ('v' :: rest)).head? = some 'v' := by
    obtain ⟨lower, hlower, -⟩ := laws.lower_start ['v'] rest
      (List.all_iff_forall_prop.mp (by decide))
    rw [List.singleton_append] at hlower
    rw [hlower]
    rfl
  refine ⟨?_, hhead⟩
  unfold foldedHost
  cases hlookup : atsHostAliases.lookup (P.lower ('v' :: rest)) with
  | none => rfl
  | some host => exact absurd hhead (alias_spec hlookup).1.2

/-! ## Network locations -/

/-- The network location that is written. -/
def canonicalNetloc (P : Python) (parts : SplitResult) : Option Str :=
  match parts.hostname P with
  | none => some parts.netloc
  | some hostname => parts.port.map fun port =>
      canonicalUserInfo parts ++ canonicalHost P hostname ++ portText port

theorem canonicalize_eq (P : Python) (url : Str) : canonicalizeApplyUrl P url =
    (urlsplit P (P.strip (P.nfkc url))).bind fun parts =>
      (canonicalNetloc P parts).map fun netloc =>
        urlunsplit (canonicalUrlParts P parts (some netloc)) := by
  unfold canonicalizeApplyUrl canonicalNetloc
  cases urlsplit P (P.strip (P.nfkc url)) with
  | none => rfl
  | some parts =>
    rw [Option.bind_eq_bind, Option.bind_some, Option.bind_some]
    cases parts.hostname P with
    | none => rfl
    | some hostname =>
      cases parts.port with
      | none => rfl
      | some port => cases port <;> rfl

/-- **What is read from a location that has been written**: the user information, the folded host
and the port. -/
theorem hostinfo_again (laws : UnicodeLaws P) {port : Option ℕ}
    (hplain : ':' ∉ parts.hostinfo.1 → '[' ∉ parts.hostinfo.1)
    (hnetloc : parts'.netloc = canonicalUserInfo parts ++
      (canonicalHost P parts.hostinfo.1 ++ portText port)) :
    canonicalUserInfo parts' = canonicalUserInfo parts ∧
      parts'.hostPort = canonicalHost P parts.hostinfo.1 ++ portText port ∧
      parts'.hostinfo = (foldedHost P parts.hostinfo.1, port.map (Nat.toDigits 10)) := by
  set host := foldedHost P parts.hostinfo.1 with hhost
  have hmem {c : Char} (hc : isSeparator c = true) : c ∈ host ↔ c ∈ parts.hostinfo.1 :=
    mem_foldedHost laws hc
  have hport {c : Char} (hc : c ∈ portText port) : c ≠ '@' ∧ c ≠ '[' := by
    constructor <;> rintro rfl <;> exact absurd (mem_portText hc) (by decide)
  obtain ⟨hspec, hclosed⟩ := hostinfo_spec parts
  have hat : '@' ∉ host := fun h =>
    at_not_mem_hostPort parts (hspec _ ((hmem (by decide)).mp h))
  by_cases hcolon : ':' ∈ host
  · have hclose : ']' ∉ host := fun h =>
      hclosed.elim (·.2 ((hmem (by decide)).mp hcolon)) (· ((hmem (by decide)).mp h))
    have htext : canonicalHost P parts.hostinfo.1 ++ portText port =
        [] ++ '[' :: (host ++ ']' :: portText port) := by
      rw [canonicalHost_eq, ← hhost, if_pos (List.contains_iff_mem.mpr hcolon)]
      simp
    have hat' : '@' ∉ canonicalHost P parts.hostinfo.1 ++ portText port := by
      rw [htext]
      simp only [List.nil_append, List.mem_cons, List.mem_append, not_or]
      exact ⟨by decide, hat, by decide, fun h => (hport h).1 rfl⟩
    obtain ⟨huser, hrest⟩ := user_info_again hat' hnetloc
    refine ⟨huser, hrest, ?_⟩
    rw [hostinfo_bracketed (hrest.trans htext) List.not_mem_nil, partition_append hclose]
    exact congrArg _ (portOf_text port)
  · have hcanonical : canonicalHost P parts.hostinfo.1 = host := by
      rw [canonicalHost_eq, if_neg (by rwa [List.contains_iff_mem])]
    have hopen : '[' ∉ host := fun h =>
      hplain (fun h => hcolon ((hmem (by decide)).mpr h)) ((hmem (by decide)).mp h)
    have hat' : '@' ∉ canonicalHost P parts.hostinfo.1 ++ portText port := by
      rw [hcanonical, List.mem_append, not_or]
      exact ⟨hat, fun h => (hport h).1 rfl⟩
    obtain ⟨huser, hrest⟩ := user_info_again hat' hnetloc
    refine ⟨huser, hrest, ?_⟩
    rw [hcanonical] at hrest
    have hplain' : '[' ∉ parts'.hostPort := by
      rw [hrest, List.mem_append, not_or]
      exact ⟨hopen, fun h => (hport h).2 rfl⟩
    rw [hostinfo_plain hplain', hrest]
    cases port with
    | none =>
      have htext : host ++ portText none = host := List.append_nil _
      rw [htext, partition_plain hcolon]
      rfl
    | some n =>
      have htext : host ++ portText (some n) = host ++ ':' :: Nat.toDigits 10 n := rfl
      rw [htext, partition_append hcolon]
      exact congrArg _ (if_neg Nat.toDigits_ne_nil)

/-- **The location that is written**: the one that was read where it has no host, and else its
user information, folded host and port. -/
theorem written_netloc (laws : UnicodeLaws P) (h : canonicalNetloc P parts = some netloc) :
    parts.hostinfo.1 = [] ∧ netloc = parts.netloc ∨
      parts.hostinfo.1 ≠ [] ∧ ∃ port, parts.port = some port ∧ netloc =
        canonicalUserInfo parts ++ (canonicalHost P parts.hostinfo.1 ++ portText port) := by
  rw [canonicalNetloc, hostname_eq] at h
  by_cases hhost : parts.hostinfo.1 = []
  · rw [if_pos hhost] at h
    exact .inl ⟨hhost, (Option.some.inj h).symm⟩
  · have hsame : canonicalHost P (lowerHost P parts.hostinfo.1) =
        canonicalHost P parts.hostinfo.1 := by
      rw [canonicalHost_eq, canonicalHost_eq, folded_lowerHost laws]
    rw [if_neg hhost] at h
    obtain ⟨port, hport, hwritten⟩ := Option.map_eq_some_iff.mp h
    rw [List.append_assoc, hsame] at hwritten
    exact .inr ⟨hhost, port, hport, hwritten.symm⟩

/-- **A network location that was written is written again**, if a host without a colon has no
bracket. -/
theorem canonicalNetloc_again (laws : UnicodeLaws P)
    (h : canonicalNetloc P parts = some netloc)
    (hplain : ':' ∉ parts.hostinfo.1 → '[' ∉ parts.hostinfo.1)
    (hnetloc : parts'.netloc = netloc) : canonicalNetloc P parts' = some netloc := by
  subst hnetloc
  rcases written_netloc laws h with ⟨hhost, hsame⟩ | ⟨hhost, port, hport, hwritten⟩
  · have hinfo : parts'.hostinfo = parts.hostinfo := by
      unfold SplitResult.hostinfo
      rw [hsame]
    rw [canonicalNetloc, hostname_eq, hinfo, if_pos hhost]
  · obtain ⟨huser, -, hinfo⟩ := hostinfo_again laws hplain hwritten
    have hport' : parts'.port = some port :=
      port_again (by rw [hinfo]) fun n hn => port_le (hn ▸ hport)
    have hcanonical : canonicalHost P (lowerHost P (foldedHost P parts.hostinfo.1)) =
        canonicalHost P parts.hostinfo.1 := by
      rw [canonicalHost_eq, canonicalHost_eq, folded_lowerHost laws, foldedHost_again laws]
    rw [canonicalNetloc, hostname_eq, hinfo, if_neg (foldedHost_ne_nil laws hhost)]
    dsimp only
    rw [hport', huser, hcanonical]
    exact congrArg some ((List.append_assoc _ _ _).trans hwritten.symm)

/-! ## Brackets -/

/-- What holds of every ASCII character, one after another. -/
theorem ascii_all {p : Char → Prop} (hall : ∀ n < 128, p (Char.ofNat n)) {c : Char}
    (hc : isAscii c = true) : p c := by
  rw [isAscii, decide_eq_true_eq] at hc
  have hp := hall c.toNat hc
  rwa [Char.ofNat_toNat] at hp

theorem isAscii_of_hex {c : Char} (hc : (hexValue c).isSome = true) : isAscii c = true := by
  rw [isAscii, decide_eq_true_eq]
  have hlt {d : Char} (hle : c ≤ d) (hd : d.toNat < 128) : c.toNat < 128 := lt_of_le_of_lt hle hd
  unfold hexValue at hc
  split_ifs at hc with hdigit hlower hupper
  · simp only [Char.isDigit, Bool.and_eq_true, decide_eq_true_eq] at hdigit
    exact hlt hdigit.2 (by decide)
  · exact hlt hlower.2 (by decide)
  · exact hlt hupper.2 (by decide)
  · cases hc

theorem hexValue_lower {c : Char} (hc : (hexValue c).isSome = true) :
    (hexValue c.toLower).isSome = true := by
  have hall : ∀ n < 128, (hexValue (Char.ofNat n)).isSome = true →
      (hexValue (Char.ofNat n).toLower).isSome = true := by decide
  exact ascii_all (p := fun c => (hexValue c).isSome = true → (hexValue c.toLower).isSome = true)
    hall (isAscii_of_hex hc) hc

/-- **What a versioned address is**: a version of hexadecimal digits, a full stop and a text. -/
theorem check_version_iff {rest : Str} : checkBracketedHost P ('v' :: rest) = true ↔
    ∃ version address, rest = version ++ '.' :: address ∧ version ≠ [] ∧
      (∀ c ∈ version, (hexValue c).isSome = true) ∧ address ≠ [] ∧ '\n' ∉ address := by
  have hdot : hexValue '.' = none := by decide
  have hends {address : Str} : address.all (· ≠ '\n') = true ↔ '\n' ∉ address := by
    rw [List.all_eq_true]
    exact ⟨fun h hmem => of_decide_eq_true (h _ hmem) rfl, fun h c hc =>
      decide_eq_true fun heq => h (heq ▸ hc)⟩
  rcases partition_cases '.' rest with ⟨hplain, hpart⟩ | ⟨version, address, rfl, hversion, hpart⟩
  · simp only [checkBracketedHost, hpart, Bool.false_and, Bool.false_eq_true, false_iff]
    rintro ⟨version, address, rfl, -⟩
    exact hplain (List.mem_append_right _ List.mem_cons_self)
  · simp only [checkBracketedHost, hpart, Bool.true_and, Bool.and_eq_true, decide_eq_true_eq,
      List.all_eq_true (p := fun c => (hexValue c).isSome), hends]
    constructor
    · rintro ⟨⟨⟨hne, hhex⟩, haddress⟩, hline⟩
      exact ⟨version, address, rfl, hne, hhex, haddress, hline⟩
    · rintro ⟨version', address', heq, hne, hhex, haddress, hline⟩
      have hversion' : '.' ∉ version' := fun hmem => by
        have hsome := hhex '.' hmem
        rw [hdot] at hsome
        cases hsome
      rw [heq, partition_append hversion'] at hpart
      obtain ⟨rfl, -, rfl⟩ : version' = version ∧ true = true ∧ address' = address := by
        simpa using hpart
      exact ⟨⟨⟨hne, hhex⟩, haddress⟩, hline⟩

/-- **An address that is checked** passes the check in lower case. -/
theorem check_foldedHost (laws : UnicodeLaws P) (h : checkBracketedHost P s = true) :
    checkBracketedHost P (foldedHost P s) = true := by
  unfold checkBracketedHost at h
  split at h
  · rename_i rest
    obtain ⟨version, address, rfl, hne, hhex, haddress, hline⟩ :=
      (check_version_iff (P := P)).mp h
    have hascii : ∀ c ∈ 'v' :: version ++ ['.'], isAscii c = true := by
      intro c hc
      simp only [List.cons_append, List.mem_cons, List.mem_append, List.not_mem_nil,
        or_false] at hc
      rcases hc with rfl | hc | rfl
      · rfl
      · exact isAscii_of_hex (hhex c hc)
      · rfl
    obtain ⟨lower, hlower, hnil⟩ := laws.lower_start _ address hascii
    have htext : 'v' :: version ++ ['.'] ++ address = 'v' :: (version ++ '.' :: address) := by
      simp
    have hwritten : ('v' :: version ++ ['.']).map Char.toLower ++ lower =
        'v' :: (version.map Char.toLower ++ '.' :: lower) := by
      simp
    rw [htext, hwritten] at hlower
    rw [(folded_version laws _).1, hlower]
    refine check_version_iff.mpr ⟨_, lower, rfl, ?_, ?_, fun h => haddress (hnil.mpr h), ?_⟩
    · simpa using hne
    · intro c hc
      obtain ⟨d, hd, rfl⟩ := List.mem_map.mp hc
      exact hexValue_lower (hhex d hd)
    · intro hmem
      have hread : '\n' ∈ 'v' :: (version ++ '.' :: address) := by
        rw [← laws.lower_mem '\n' _ (by decide) (by decide), hlower]
        exact List.mem_cons_of_mem _ (List.mem_append_right _ (List.mem_cons_of_mem _ hmem))
      simp only [List.mem_cons, List.mem_append] at hread
      rcases hread with hread | hread | hread | hread
      · exact absurd hread (by decide)
      · exact absurd (hhex _ hread) (by decide)
      · exact absurd hread (by decide)
      · exact hline hread
  · have hlower := laws.ipv6_lower s h
    have hcolon : ':' ∈ P.lower s := laws.ipv6_colon _ hlower
    have hfolded : foldedHost P s = P.lower s := by
      unfold foldedHost
      cases hlookup : atsHostAliases.lookup (P.lower s) with
      | none => rfl
      | some host => exact absurd ((alias_spec hlookup).1.1 _ hcolon) (by decide)
    rw [hfolded]
    unfold checkBracketedHost
    split
    · rename_i rest hversion
      rw [hversion, laws.ipv6_version] at hlower
      cases hlower
    · exact hlower

/-- **The host stays apart**: where it loses its brackets, no bracket is left in it, and the user
information has both or none. -/
def SplitResult.staysApart (parts : SplitResult) : Prop :=
  '[' ∈ parts.hostPort → ':' ∉ parts.hostinfo.1 → '[' ∉ parts.hostinfo.1 ∧
    ('[' ∈ canonicalUserInfo parts ↔ ']' ∈ canonicalUserInfo parts)

theorem plain_host (h : parts.staysApart) (hcolon : ':' ∉ parts.hostinfo.1) :
    '[' ∉ parts.hostinfo.1 := fun hopen =>
  (h ((hostinfo_spec parts).1 _ hopen) hcolon).1 hopen

/-- **The location that is written is accepted**, if the host stays apart. -/
theorem netloc_accepted (laws : UnicodeLaws P) (h : canonicalNetloc P parts = some netloc)
    (hbrackets : '[' ∈ parts.netloc ↔ ']' ∈ parts.netloc)
    (hbracketed : '[' ∈ parts.netloc → checkBracketedNetloc P parts.netloc = true)
    (hstays : parts.staysApart) :
    ('[' ∈ netloc ↔ ']' ∈ netloc) ∧
      ('[' ∈ netloc → checkBracketedNetloc P netloc = true) := by
  rcases written_netloc laws h with ⟨-, rfl⟩ | ⟨hhost, port, hport, hwritten⟩
  · exact ⟨hbrackets, hbracketed⟩
  set host := foldedHost P parts.hostinfo.1 with hfolded
  have hmem {c : Char} (hc : isSeparator c = true) : c ∈ host ↔ c ∈ parts.hostinfo.1 :=
    mem_foldedHost laws hc
  let written : SplitResult := { parts with netloc := netloc }
  have hsame : written.netloc = canonicalUserInfo parts ++
      (canonicalHost P parts.hostinfo.1 ++ portText port) := hwritten
  obtain ⟨-, hrest, hinfo⟩ := hostinfo_again laws (plain_host hstays) hsame
  have hnetloc := netloc_eq parts
  by_cases hcolon : ':' ∈ parts.hostinfo.1
  · have htext : canonicalHost P parts.hostinfo.1 ++ portText port =
        '[' :: (host ++ ']' :: portText port) := by
      rw [canonicalHost_eq, ← hfolded,
        if_pos (List.contains_iff_mem.mpr ((hmem (by decide)).mpr hcolon))]
      simp
    have hclose : ']' ∉ host := fun h =>
      (hostinfo_spec parts).2.elim (·.2 hcolon) (· ((hmem (by decide)).mp h))
    have hopen : '[' ∈ parts.netloc := by
      rw [hnetloc]
      exact List.mem_append_right _ (by_contra fun hplain => colon_not_mem_host hplain hcolon)
    rw [htext] at hwritten hrest
    have haccepted : checkBracketedNetloc P written.netloc = true :=
      bracketed_accepted hclose (check_foldedHost laws (checked_host (hbracketed hopen))) hrest
    refine ⟨iff_of_true ?_ ?_, fun _ => haccepted⟩
    · rw [hwritten]
      simp
    · rw [hwritten]
      simp
  · have hcanonical : canonicalHost P parts.hostinfo.1 = host := by
      rw [canonicalHost_eq, if_neg]
      rwa [List.contains_iff_mem, ← hfolded, hmem (by decide)]
    have hport_text : '[' ∉ portText port ∧ ']' ∉ portText port := by
      constructor <;> exact fun h => absurd (mem_portText h) (by decide)
    have hplain : '[' ∉ host := fun h => plain_host hstays hcolon ((hmem (by decide)).mp h)
    have hopen : '[' ∈ netloc ↔ '[' ∈ canonicalUserInfo parts := by
      rw [hwritten, hcanonical, List.mem_append, List.mem_append]
      simp only [hplain, hport_text.1, or_false]
    have hclose : ']' ∈ netloc ↔ ']' ∈ canonicalUserInfo parts ∨ ']' ∈ parts.hostinfo.1 := by
      rw [hwritten, hcanonical, List.mem_append, List.mem_append, hmem (by decide)]
      simp only [hport_text.2, or_false]
    have hread : '[' ∈ canonicalUserInfo parts → '[' ∈ parts.netloc := fun h => by
      rw [hnetloc]
      exact List.mem_append_left _ h
    refine ⟨?_, fun h => ?_⟩
    · rw [hopen, hclose]
      by_cases hbracket : '[' ∈ parts.hostPort
      · -- the brackets of the host are not written
        have hnot := (hostinfo_spec parts).2.resolve_left fun h => h.1 hbracket
        rw [(hstays hbracket hcolon).2, or_iff_left hnot]
      · rw [hnetloc, List.mem_append, List.mem_append, or_iff_left hbracket,
          closed_host hport hbracket] at hbrackets
        exact hbrackets
    · have hplain' : '[' ∉ written.hostPort := by
        rw [hrest, hcanonical, List.mem_append, not_or]
        exact ⟨hplain, hport_text.1⟩
      have hcheck := check_plain (P := P) hplain'
      rw [hinfo] at hcheck
      exact hcheck.trans
        (check_foldedHost laws (checked_host (hbracketed (hread (hopen.mp h)))))

end JobPing
