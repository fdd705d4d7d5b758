import JobPing.Text
import Mathlib.Data.List.SplitBy

/-!
# URLs of the standard library

The functions of Python's `urllib.parse` that the program calls: `urlsplit` with the parts of its
result, `urlunsplit`, `parse_qsl`, `urlencode` and `unquote`, over texts whose escapes are UTF-8.
`none` stands for a `ValueError`.
-/

namespace JobPing

/-- What the program reads from the rest of Python's standard library. -/
structure Python extends Unicode where
  /-- `str.lower`. -/
  lower : Str → Str
  lower_nil : lower [] = []
  /-- `str.isalnum` of one character. -/
  isAlnum : Char → Bool
  /-- A decimal digit, `\d`. -/
  isDecimal : Char → Bool
  /-- `ipaddress.ip_address` returns an IPv6 address. -/
  isIpv6Address : Str → Bool

/-- The tables of ASCII texts; on these, those of Unicode agree with them. -/
def Python.ascii : Python where
  nfkc s := s
  nfkc_nil := rfl
  casefold s := s.map Char.toLower
  casefold_nil := rfl
  isSpace c := c ∈ [' ', '\t', '\n', '\r', Char.ofNat 11, Char.ofNat 12, Char.ofNat 28,
    Char.ofNat 29, Char.ofNat 30, Char.ofNat 31]
  lower s := s.map Char.toLower
  lower_nil := rfl
  isAlnum := Char.isAlphanum
  isDecimal := Char.isDigit
  isIpv6Address _ := false

/-! ## Text -/

/-- `str.partition`: the text before the first separator, whether there is one, and the text after
it. -/
def partition (separator : Char) (s : Str) : Str × Bool × Str :=
  (s.takeWhile (· ≠ separator), s.contains separator, (s.dropWhile (· ≠ separator)).tail)

/-- `str.rpartition`, for the last separator; without one everything comes after it. -/
def rpartition (separator : Char) (s : Str) : Str × Bool × Str :=
  let (after, found, before) := partition separator s.reverse
  (before.reverse, found, after.reverse)

/-- `str.removeprefix`. -/
def removeprefix (start s : Str) : Str :=
  if start.isPrefixOf s then s.drop start.length else s

def isAscii (c : Char) : Bool := c.toNat < 128

/-! ## UTF-8 -/

/-- The bytes of a character. -/
def utf8Encode (c : Char) : List ℕ :=
  let n := c.toNat
  if n < 0x80 then [n]
  else if n < 0x800 then [0xC0 + n / 64, 0x80 + n % 64]
  else if n < 0x10000 then [0xE0 + n / 4096, 0x80 + n / 64 % 64, 0x80 + n % 64]
  else [0xF0 + n / 262144, 0x80 + n / 4096 % 64, 0x80 + n / 64 % 64, 0x80 + n % 64]

/-- A character of which some bytes are still to come, and the range of the next one. -/
structure Utf8Pending where
  needed : ℕ
  code : ℕ
  low : ℕ
  high : ℕ

/-- `U+FFFD`. -/
def replacementCharacter : Char := Char.ofNat 0xFFFD

/-- The first byte of a character: the character itself, or what is to come. -/
def utf8Start (b : ℕ) : Char ⊕ Utf8Pending :=
  if b < 0x80 then .inl (Char.ofNat b)
  else if 0xC2 ≤ b ∧ b ≤ 0xDF then .inr ⟨1, b - 0xC0, 0x80, 0xBF⟩
  else if b = 0xE0 then .inr ⟨2, 0, 0xA0, 0xBF⟩
  else if b = 0xED then .inr ⟨2, 0xD, 0x80, 0x9F⟩
  else if 0xE1 ≤ b ∧ b ≤ 0xEF then .inr ⟨2, b - 0xE0, 0x80, 0xBF⟩
  else if b = 0xF0 then .inr ⟨3, 0, 0x90, 0xBF⟩
  else if b = 0xF4 then .inr ⟨3, 4, 0x80, 0x8F⟩
  else if 0xF1 ≤ b ∧ b ≤ 0xF3 then .inr ⟨3, b - 0xF0, 0x80, 0xBF⟩
  else .inl replacementCharacter

/-- `bytes.decode("utf-8", "replace")`: an ill-formed sequence becomes one replacement character,
and decoding goes on at the first byte that does not belong to it. -/
def utf8Decode : Option Utf8Pending → List ℕ → Str
  | none, [] => []
  | some _, [] => [replacementCharacter]
  | none, b :: bs =>
    match utf8Start b with
    | .inl c => c :: utf8Decode none bs
    | .inr pending => utf8Decode (some pending) bs
  | some pending, b :: bs =>
    if pending.low ≤ b ∧ b ≤ pending.high then
      let code := pending.code * 64 + (b - 0x80)
      if pending.needed = 1 then Char.ofNat code :: utf8Decode none bs
      else utf8Decode (some ⟨pending.needed - 1, code, 0x80, 0xBF⟩) bs
    else
      replacementCharacter ::
        match utf8Start b with
        | .inl c => c :: utf8Decode none bs
        | .inr pending => utf8Decode (some pending) bs

/-! ## Escapes -/

/-- The value of a hexadecimal digit. -/
def hexValue (c : Char) : Option ℕ :=
  if c.isDigit then some (c.toNat - 48)
  else if 'a' ≤ c ∧ c ≤ 'f' then some (c.toNat - 87)
  else if 'A' ≤ c ∧ c ≤ 'F' then some (c.toNat - 55)
  else none

/-- The upper-case digit of `%02X`. -/
def hexDigit (n : ℕ) : Char := Char.ofNat (if n < 10 then 48 + n else 55 + n)

/-- `unquoteToBytes`, on ASCII text. -/
def unquoteToBytes : Str → List ℕ
  | [] => []
  | '%' :: a :: b :: rest =>
    match hexValue a, hexValue b with
    | some a, some b => (16 * a + b) :: unquoteToBytes rest
    | _, _ => 37 :: unquoteToBytes (a :: b :: rest)
  | c :: rest => c.toNat :: unquoteToBytes rest

/-- A run of ASCII characters is decoded as a whole, any other text stays. -/
def unquoteRun (run : Str) : Str :=
  if run.all isAscii then utf8Decode none (unquoteToBytes run) else run

/-- `unquote`. -/
def unquote (s : Str) : Str :=
  if s.contains '%' then ((s.splitBy fun a b => isAscii a == isAscii b).map unquoteRun).flatten
  else s

/-- The characters `quote` never escapes. -/
def alwaysSafe (c : Char) : Bool := c.isAlphanum || c ∈ ['_', '.', '-', '~']

/-- `quotePlus`. -/
def quotePlus (s : Str) : Str :=
  s.flatMap fun c =>
    if c = ' ' then ['+']
    else if alwaysSafe c then [c]
    else (utf8Encode c).flatMap fun b => ['%', hexDigit (b / 16), hexDigit (b % 16)]

/-- `unquote(value.replace("+", " "))`. -/
def unquotePlus (s : Str) : Str := unquote (s.map fun c => if c = '+' then ' ' else c)

/-! ## Queries -/

/-- `parse_qsl`. -/
def parseQsl (keepBlankValues : Bool) (query : Str) : List (Str × Str) :=
  ((query.splitOn '&').filter (· ≠ [])).filterMap fun nameValue =>
    let (name, _, value) := partition '=' nameValue
    if keepBlankValues || value ≠ [] then some (unquotePlus name, unquotePlus value) else none

/-- `urlencode`, also with `doseq`: the values are texts. -/
def urlencode (query : List (Str × Str)) : Str :=
  ['&'].intercalate (query.map fun (name, value) => quotePlus name ++ '=' :: quotePlus value)

/-! ## URLs -/

/-- `SplitResult`. -/
structure SplitResult where
  scheme : Str
  netloc : Str
  path : Str
  query : Str
  fragment : Str
  deriving DecidableEq

variable (P : Python)

/-- `_check_bracketed_host`. -/
def checkBracketedHost (hostname : Str) : Bool :=
  match hostname with
  | 'v' :: rest =>
    let (version, found, address) := partition '.' rest
    found && version ≠ [] && version.all (fun c => (hexValue c).isSome) && address ≠ [] &&
      address.all (· ≠ '\n')
  | _ => P.isIpv6Address hostname

/-- `_check_bracketed_netloc`. -/
def checkBracketedNetloc (netloc : Str) : Bool :=
  let hostname_and_port := (rpartition '@' netloc).2.2
  let (beforeBracket, have_open_br, bracketed) := partition '[' hostname_and_port
  if have_open_br then
    let (hostname, _, port) := partition ']' bracketed
    beforeBracket = [] && (port = [] || port.head? = some ':') && checkBracketedHost P hostname
  else checkBracketedHost P (partition ':' hostname_and_port).1

/-- `_checknetloc`: no delimiter hides behind a compatibility character. -/
def checkNetloc (netloc : Str) : Bool :=
  if netloc.all isAscii then true
  else
    let n := netloc.filter fun c => c ∉ ['@', ':', '#', '?']
    let netloc2 := P.nfkc n
    n = netloc2 || netloc2.all fun c => c ∉ ['/', '?', '#', '@', ':']

def isC0ControlOrSpace (c : Char) : Bool := c.toNat ≤ 0x20

def isUnsafeUrlChar (c : Char) : Bool := c ∈ ['\t', '\r', '\n']

def isSchemeChar (c : Char) : Bool := c.isAlphanum || c ∈ ['+', '-', '.']

/-- The scheme of a URL and what follows it. -/
def splitScheme (url : Str) : Str × Str :=
  let (scheme, found, rest) := partition ':' url
  if found && scheme.head?.any Char.isAlpha && scheme.all isSchemeChar then (P.lower scheme, rest)
  else ([], url)

/-- The network location of a URL without scheme, and what follows it. -/
def splitNetloc (url : Str) : Str × Str :=
  match url with
  | '/' :: '/' :: rest =>
    (rest.takeWhile (· ∉ ['/', '?', '#']), rest.dropWhile (· ∉ ['/', '?', '#']))
  | _ => ([], url)

/-- `urlsplit`. -/
def urlsplit (url : Str) : Option SplitResult :=
  let url := (url.dropWhile isC0ControlOrSpace).filter fun c => !isUnsafeUrlChar c
  let (scheme, url) := splitScheme P url
  let (netloc, url) := splitNetloc url
  if netloc.contains '[' != netloc.contains ']' then none
  else if netloc.contains '[' && !checkBracketedNetloc P netloc then none
  else
    let (url, _, fragment) := partition '#' url
    let (path, _, query) := partition '?' url
    if checkNetloc P netloc then some ⟨scheme, netloc, path, query, fragment⟩ else none

namespace SplitResult

variable (parts : SplitResult)

/-- `_userinfo`. -/
def userinfo : Option Str × Option Str :=
  let (userinfo, have_info, _) := rpartition '@' parts.netloc
  if have_info then
    let (username, have_password, password) := partition ':' userinfo
    (some username, if have_password then some password else none)
  else (none, none)

/-- `_hostinfo`. -/
def hostinfo : Str × Option Str :=
  let hostinfo := (rpartition '@' parts.netloc).2.2
  let (_, have_open_br, bracketed) := partition '[' hostinfo
  let (hostname, port) :=
    if have_open_br then
      let (hostname, _, port) := partition ']' bracketed
      (hostname, (partition ':' port).2.2)
    else
      let (hostname, _, port) := partition ':' hostinfo
      (hostname, port)
  (hostname, if port = [] then none else some port)

/-- `hostname`: lower case, but for the zone of a scoped address. -/
def hostname : Option Str :=
  let hostname := parts.hostinfo.1
  if hostname = [] then none
  else
    let (hostname, percent, zone) := partition '%' hostname
    some (P.lower hostname ++ if percent then '%' :: zone else [])

/-- `port`; the outer `none` is the exception. -/
def port : Option (Option ℕ) :=
  match parts.hostinfo.2 with
  | none => some none
  | some port =>
    if port.all Char.isDigit then
      let port := port.foldl (fun n c => 10 * n + (c.toNat - 48)) 0
      if port ≤ 65535 then some (some port) else none
    else none

end SplitResult

/-- `usesNetloc`. -/
def usesNetloc : List Str :=
  ["", "ftp", "http", "gopher", "nntp", "telnet", "imap", "wais", "file", "mms", "https", "shttp",
    "snews", "prospero", "rtsp", "rtspu", "rsync", "svn", "svn+ssh", "sftp", "nfs", "git",
    "git+ssh", "ws", "wss"].map String.toList

/-- `urlunsplit`. -/
def urlunsplit (parts : SplitResult) : Str :=
  let url :=
    if parts.netloc ≠ [] then
      "//".toList ++ parts.netloc ++
        (if parts.path ≠ [] ∧ parts.path.head? ≠ some '/' then '/' :: parts.path else parts.path)
    else if "//".toList.isPrefixOf parts.path then "//".toList ++ parts.path
    else if parts.scheme ≠ [] ∧ parts.scheme ∈ usesNetloc ∧
        (parts.path = [] ∨ parts.path.head? = some '/') then "//".toList ++ parts.path
    else parts.path
  (if parts.scheme ≠ [] then parts.scheme ++ [':'] else []) ++ url ++
    (if parts.query ≠ [] then '?' :: parts.query else []) ++
    (if parts.fragment ≠ [] then '#' :: parts.fragment else [])

/-! ## Unquoting keeps text -/

theorem utf8Decode_ne_nil {pending : Option Utf8Pending} {bs : List ℕ}
    (h : pending.isSome ∨ bs ≠ []) : utf8Decode pending bs ≠ [] := by
  induction bs generalizing pending with
  | nil =>
    cases pending with
    | none => simp at h
    | some p => simp [utf8Decode]
  | cons b bs ih =>
    cases pending with
    | none =>
      rw [utf8Decode]
      split
      · simp
      · exact ih (.inl rfl)
    | some p =>
      rw [utf8Decode]
      split_ifs
      · simp
      · exact ih (.inl rfl)
      · simp

theorem unquoteToBytes_ne_nil {s : Str} (h : s ≠ []) : unquoteToBytes s ≠ [] := by
  unfold unquoteToBytes
  split
  · exact absurd rfl h
  · split <;> simp
  · simp

theorem unquoteRun_ne_nil {s : Str} (h : s ≠ []) : unquoteRun s ≠ [] := by
  unfold unquoteRun
  split_ifs
  · exact utf8Decode_ne_nil (.inr (unquoteToBytes_ne_nil h))
  · exact h

/-- Unquoting leaves some text of a text. -/
theorem unquote_ne_nil {s : Str} (h : s ≠ []) : unquote s ≠ [] := by
  unfold unquote
  split_ifs
  · intro hnil
    obtain ⟨run, hrun⟩ : ∃ run, run ∈ s.splitBy fun a b => isAscii a == isAscii b := by
      refine List.exists_mem_of_ne_nil _ fun hempty => h ?_
      simpa using hempty
    have hrun' : run ≠ [] := List.ne_nil_of_mem_splitBy hrun
    have := List.flatten_eq_nil_iff.mp hnil _ (List.mem_map_of_mem hrun)
    exact unquoteRun_ne_nil hrun' this
  · exact h

end JobPing
