import JobPing.UrlParse
import Mathlib.Data.Bool.AllAny

/-!
# Round trips of queries

What `urlencode` writes is read back by `parse_qsl`, for all of Unicode: the bytes of a character
are decoded to it (`utf8Decode_encode`), its escapes to its bytes, and the separators of a query
stand in no escaped text (`parseQsl_urlencode`).
-/

namespace JobPing

/-! ## UTF-8 -/

variable {c : Char} {bs : List ℕ} {s : Str}

theorem valid_char (c : Char) : c.toNat < 0xD800 ∨ 0xDFFF < c.toNat ∧ c.toNat < 0x110000 :=
  c.valid

/-- The last byte of a character. -/
theorem utf8Decode_last {code n : ℕ} (hcode : code = n / 64) (hc : c.toNat = n) :
    utf8Decode (some ⟨1, code, 0x80, 0xBF⟩) ((0x80 + n % 64) :: bs) = c :: utf8Decode none bs := by
  have hrange : 0x80 ≤ 0x80 + n % 64 ∧ 0x80 + n % 64 ≤ 0xBF := by omega
  have hn : code * 64 + (0x80 + n % 64 - 0x80) = n := by omega
  rw [utf8Decode, if_pos hrange]
  simp only [hn, if_true]
  rw [← hc, Char.ofNat_toNat]

/-- A byte before the last one. -/
theorem utf8Decode_next {needed code low high b n : ℕ} (hlow : low ≤ b) (hhigh : b ≤ high)
    (hcode : code * 64 + (b - 0x80) = n) (hneeded : needed ≠ 0) :
    utf8Decode (some ⟨needed + 1, code, low, high⟩) (b :: bs) =
      utf8Decode (some ⟨needed, n, 0x80, 0xBF⟩) bs := by
  have hne : needed + 1 ≠ 1 := by omega
  rw [utf8Decode, if_pos ⟨hlow, hhigh⟩]
  simp only [hcode, hne, if_false, Nat.add_sub_cancel]

/-- **A character is decoded** from its bytes. -/
theorem utf8Decode_encode (c : Char) (bs : List ℕ) :
    utf8Decode none (utf8Encode c ++ bs) = c :: utf8Decode none bs := by
  have hvalid := valid_char c
  unfold utf8Encode
  dsimp only
  split_ifs with h1 h2 h3
  · have hstart : utf8Start c.toNat = .inl c := by
      rw [utf8Start, if_pos h1, Char.ofNat_toNat]
    rw [List.singleton_append, utf8Decode, hstart]
  · have hstart : utf8Start (0xC0 + c.toNat / 64) = .inr ⟨1, c.toNat / 64, 0x80, 0xBF⟩ := by
      rw [utf8Start, if_neg (by omega), if_pos (by omega), Nat.add_sub_cancel_left]
    rw [List.cons_append, List.singleton_append, utf8Decode, hstart]
    exact utf8Decode_last rfl rfl
  · have hstart : ∃ low high, utf8Start (0xE0 + c.toNat / 4096) =
        .inr ⟨2, c.toNat / 4096, low, high⟩ ∧ low ≤ 0x80 + c.toNat / 64 % 64 ∧
          0x80 + c.toNat / 64 % 64 ≤ high := by
      unfold utf8Start
      rw [if_neg (by omega), if_neg (by omega)]
      split_ifs
      · exact ⟨0xA0, 0xBF, by simp; omega, by omega, by omega⟩
      · exact ⟨0x80, 0x9F, by simp; omega, by omega, by omega⟩
      · exact ⟨0x80, 0xBF, by simp, by omega, by omega⟩
      all_goals omega
    obtain ⟨low, high, hstart, hlow, hhigh⟩ := hstart
    rw [List.cons_append, List.cons_append, List.singleton_append, utf8Decode, hstart]
    dsimp only
    rw [utf8Decode_next hlow hhigh rfl Nat.one_ne_zero]
    exact utf8Decode_last (by omega) rfl
  · have hstart : ∃ low high, utf8Start (0xF0 + c.toNat / 262144) =
        .inr ⟨3, c.toNat / 262144, low, high⟩ ∧ low ≤ 0x80 + c.toNat / 4096 % 64 ∧
          0x80 + c.toNat / 4096 % 64 ≤ high := by
      unfold utf8Start
      rw [if_neg (by omega), if_neg (by omega), if_neg (by omega), if_neg (by omega),
        if_neg (by omega)]
      split_ifs
      · exact ⟨0x90, 0xBF, by simp; omega, by omega, by omega⟩
      · exact ⟨0x80, 0x8F, by simp; omega, by omega, by omega⟩
      · exact ⟨0x80, 0xBF, by simp, by omega, by omega⟩
      all_goals omega
    obtain ⟨low, high, hstart, hlow, hhigh⟩ := hstart
    rw [List.cons_append, List.cons_append, List.cons_append, List.singleton_append, utf8Decode,
      hstart]
    dsimp only
    rw [utf8Decode_next hlow hhigh rfl (Nat.succ_ne_zero 1),
      utf8Decode_next (by omega) (by omega) rfl Nat.one_ne_zero]
    exact utf8Decode_last (by omega) rfl

theorem utf8Decode_text (s : Str) : utf8Decode none (s.flatMap utf8Encode) = s := by
  induction s with
  | nil => rfl
  | cons c s ih => rw [List.flatMap_cons, utf8Decode_encode, ih]

theorem utf8Encode_lt {b : ℕ} (hb : b ∈ utf8Encode c) : b < 256 := by
  have hvalid := valid_char c
  unfold utf8Encode at hb
  dsimp only at hb
  split_ifs at hb <;> simp only [List.mem_cons, List.not_mem_nil, or_false] at hb <;> omega

/-! ## Escapes -/

theorem hexValue_digit {n : ℕ} (hn : n < 16) : hexValue (hexDigit n) = some n := by
  have hall : ∀ n < 16, hexValue (hexDigit n) = some n := by decide
  exact hall n hn

/-- The characters that escapes are written with: none of them separates the parts of a query or of
a URL. -/
def isQuoted (c : Char) : Bool := alwaysSafe c || c ∈ ['+', '%']

theorem alwaysSafe_iff :
    alwaysSafe c = true ↔ c.isAlphanum = true ∨ c ∈ ['_', '.', '-', '~'] := by
  rw [alwaysSafe, Bool.or_eq_true, decide_eq_true_eq]

theorem isAscii_of_safe (h : alwaysSafe c = true) : c.toNat < 128 := by
  rcases alwaysSafe_iff.mp h with h | h
  · have hparts : ((c.isUpper || c.isLower) || c.isDigit) = true := h
    simp only [Bool.or_eq_true] at hparts
    rcases hparts with (hupper | hlower) | hdigit
    · have hle : c.toNat ≤ 'Z'.toNat := (of_decide_eq_true hupper).2
      exact lt_of_le_of_lt hle (by decide)
    · have hle : c.toNat ≤ 'z'.toNat := of_decide_eq_true (Bool.and_eq_true_iff.mp hlower).2
      exact lt_of_le_of_lt hle (by decide)
    · exact lt_of_le_of_lt (Char.isDigit_iff_toNat.mp hdigit).2 (by decide)
  · have hall : ∀ c ∈ ['_', '.', '-', '~'], c.toNat < 128 := List.all_iff_forall_prop.mp (by decide)
    exact hall c h

theorem hexDigit_safe {n : ℕ} (hn : n < 16) : alwaysSafe (hexDigit n) = true := by
  have hall : ∀ n < 16, alwaysSafe (hexDigit n) = true := by decide
  exact hall n hn

/-- An escaped byte. -/
def escape (b : ℕ) : Str := ['%', hexDigit (b / 16), hexDigit (b % 16)]

theorem quoted_of_safe (h : alwaysSafe c = true) : isQuoted c = true := by
  rw [isQuoted, h, Bool.true_or]

theorem quotePlus_quoted (s : Str) : ∀ c ∈ quotePlus s, isQuoted c = true := by
  intro c hc
  obtain ⟨d, -, hc⟩ := List.mem_flatMap.mp hc
  split_ifs at hc with hspace hsafe
  · rw [List.mem_singleton.mp hc]
    rfl
  · rw [List.mem_singleton.mp hc]
    exact quoted_of_safe hsafe
  · obtain ⟨b, hb, hc⟩ := List.mem_flatMap.mp hc
    have hlt := utf8Encode_lt hb
    simp only [List.mem_cons, List.not_mem_nil, or_false] at hc
    rcases hc with rfl | rfl | rfl
    · rfl
    · exact quoted_of_safe (hexDigit_safe (by omega))
    · exact quoted_of_safe (hexDigit_safe (by omega))

theorem quoted_iff : isQuoted c = true ↔ alwaysSafe c = true ∨ c ∈ ['+', '%'] := by
  rw [isQuoted, Bool.or_eq_true, decide_eq_true_eq]

theorem isAscii_of_quoted (h : isQuoted c = true) : isAscii c = true := by
  rw [isAscii, decide_eq_true_eq]
  rcases quoted_iff.mp h with h | h
  · exact isAscii_of_safe h
  · have hall : ∀ c ∈ ['+', '%'], c.toNat < 128 := List.all_iff_forall_prop.mp (by decide)
    exact hall c h

/-- A separator is no character of an escaped text. -/
theorem not_mem_quotePlus (hc : isQuoted c = false) (s : Str) : c ∉ quotePlus s := fun hmem => by
  rw [quotePlus_quoted s c hmem] at hc
  cases hc

/-! ## Reading an escaped text -/

/-- `value.replace("+", " ")`. -/
def plusToSpace (s : Str) : Str := s.map fun c => if c = '+' then ' ' else c

theorem unquoteToBytes_escape {b : ℕ} (hb : b < 256) (rest : Str) :
    unquoteToBytes (escape b ++ rest) = b :: unquoteToBytes rest := by
  change unquoteToBytes ('%' :: hexDigit (b / 16) :: hexDigit (b % 16) :: rest) = _
  rw [unquoteToBytes, hexValue_digit (by omega), hexValue_digit (by omega)]
  dsimp only
  rw [Nat.div_add_mod]

theorem unquoteToBytes_cons (hc : c ≠ '%') (rest : Str) :
    unquoteToBytes (c :: rest) = c.toNat :: unquoteToBytes rest := by
  rw [unquoteToBytes]
  rintro a b rest' rfl
  exact absurd rfl hc

theorem safe_ne (hc : alwaysSafe c = true) {d : Char} (hd : alwaysSafe d = false) : c ≠ d := by
  rintro rfl
  rw [hc] at hd
  cases hd

theorem plusToSpace_escape {b : ℕ} (hb : b < 256) : plusToSpace (escape b) = escape b := by
  have hone : hexDigit (b / 16) ≠ '+' := safe_ne (hexDigit_safe (by omega)) rfl
  have htwo : hexDigit (b % 16) ≠ '+' := safe_ne (hexDigit_safe (by omega)) rfl
  rw [plusToSpace, escape, List.map_cons, List.map_cons, List.map_cons, List.map_nil,
    if_neg hone, if_neg htwo]
  rfl

theorem bytes_of_escapes {bs : List ℕ} (hbs : ∀ b ∈ bs, b < 256) (rest : Str) :
    unquoteToBytes (plusToSpace (bs.flatMap escape) ++ rest) = bs ++ unquoteToBytes rest := by
  induction bs with
  | nil => rfl
  | cons b bs ih =>
    obtain ⟨hb, hbs⟩ := List.forall_mem_cons.mp hbs
    rw [List.flatMap_cons, plusToSpace, List.map_append, ← plusToSpace, ← plusToSpace,
      plusToSpace_escape hb, List.append_assoc, unquoteToBytes_escape hb, ih hbs,
      List.cons_append]

/-- **The escapes of a text** are read as its bytes. -/
theorem bytes_of_quotePlus (s : Str) :
    unquoteToBytes (plusToSpace (quotePlus s)) = s.flatMap utf8Encode := by
  induction s with
  | nil => rfl
  | cons c s ih =>
    rw [quotePlus, List.flatMap_cons, ← quotePlus, plusToSpace, List.map_append,
      ← plusToSpace, ← plusToSpace, List.flatMap_cons, ← ih]
    split_ifs with hspace hsafe
    · subst hspace
      exact unquoteToBytes_cons (by decide) _
    · have hplus : plusToSpace [c] = [c] := by
        rw [plusToSpace, List.map_singleton, if_neg (safe_ne hsafe rfl)]
      have hbyte : utf8Encode c = [c.toNat] := by
        rw [utf8Encode]
        exact if_pos (isAscii_of_safe hsafe)
      rw [hplus, hbyte, List.singleton_append, unquoteToBytes_cons (safe_ne hsafe rfl)]
      rfl
    · exact bytes_of_escapes (fun b hb => utf8Encode_lt hb) _

/-! ## ASCII texts -/

theorem unquoteToBytes_plain (h : '%' ∉ s) : unquoteToBytes s = s.map Char.toNat := by
  induction s with
  | nil => rfl
  | cons c s ih =>
    rw [List.mem_cons, not_or] at h
    rw [unquoteToBytes_cons (Ne.symm h.1), ih h.2, List.map_cons]

theorem utf8Decode_ascii (h : ∀ c ∈ s, isAscii c = true) :
    utf8Decode none (s.map Char.toNat) = s := by
  have hbytes : s.map Char.toNat = s.flatMap utf8Encode := by
    rw [List.map_eq_flatMap]
    refine List.flatMap_congr fun c hc => ?_
    rw [utf8Encode]
    exact (if_pos (of_decide_eq_true (h c hc))).symm
  rw [hbytes, utf8Decode_text]

/-- An ASCII text is unquoted as one run. -/
theorem unquote_ascii (h : ∀ c ∈ s, isAscii c = true) :
    unquote s = utf8Decode none (unquoteToBytes s) := by
  unfold unquote
  split_ifs with hpercent
  · have hne : s ≠ [] := by
      rintro rfl
      cases hpercent
    have hchain : s.IsChain fun a b => (isAscii a == isAscii b) = true := by
      refine List.Pairwise.isChain (List.pairwise_of_forall_mem_list fun a ha b hb => ?_)
      rw [h a ha, h b hb]
      rfl
    rw [List.splitBy_of_isChain hne hchain, List.map_singleton, List.flatten_singleton, unquoteRun,
      if_pos (List.all_eq_true.mpr h)]
  · have hplain : '%' ∉ s := fun hmem => hpercent (List.contains_iff_mem.mpr hmem)
    rw [unquoteToBytes_plain hplain, utf8Decode_ascii h]

/-- **An escaped text** is read back. -/
theorem unquotePlus_quotePlus (s : Str) : unquotePlus (quotePlus s) = s := by
  have hascii : ∀ c ∈ plusToSpace (quotePlus s), isAscii c = true := by
    intro c hc
    obtain ⟨d, hd, rfl⟩ := List.mem_map.mp hc
    split_ifs
    · rfl
    · exact isAscii_of_quoted (quotePlus_quoted s d hd)
  change unquote (plusToSpace (quotePlus s)) = s
  rw [unquote_ascii hascii, bytes_of_quotePlus, utf8Decode_text]

/-! ## Queries -/

theorem partition_append {separator : Char} {before : Str} (h : separator ∉ before) (after : Str) :
    partition separator (before ++ separator :: after) = (before, true, after) := by
  have hplain : ∀ c ∈ before, decide (c ≠ separator) = true := fun c hc => by
    rw [decide_eq_true_eq]
    rintro rfl
    exact h hc
  rw [partition, List.takeWhile_append_of_pos hplain, List.dropWhile_append_of_pos hplain]
  simp

/-- **A query is read back**: what `urlencode` has written of some pairs are these pairs. -/
theorem parseQsl_urlencode (query : List (Str × Str)) :
    parseQsl true (urlencode query) = query := by
  have hparts : ((urlencode query).splitOn '&').filter (· ≠ []) =
      query.map fun pair => quotePlus pair.1 ++ '=' :: quotePlus pair.2 := by
    by_cases hquery : query = []
    · subst hquery
      rfl
    · have hne : (query.map fun pair => quotePlus pair.1 ++ '=' :: quotePlus pair.2) ≠ [] := by
        simpa using hquery
      have hplain : ∀ part ∈ query.map fun pair => quotePlus pair.1 ++ '=' :: quotePlus pair.2,
          '&' ∉ part := by
        intro part hpart
        obtain ⟨pair, -, rfl⟩ := List.mem_map.mp hpart
        rw [List.mem_append, List.mem_cons, not_or, not_or]
        exact ⟨not_mem_quotePlus rfl _, by decide, not_mem_quotePlus rfl _⟩
      change ((['&'].intercalate (query.map fun pair =>
        quotePlus pair.1 ++ '=' :: quotePlus pair.2)).splitOn '&').filter (· ≠ []) = _
      rw [List.splitOn_intercalate '&' hplain hne, List.filter_eq_self]
      intro part hpart
      obtain ⟨pair, -, rfl⟩ := List.mem_map.mp hpart
      simp
  unfold parseQsl
  rw [hparts, List.filterMap_map]
  refine (List.filterMap_congr fun pair _ => ?_).trans List.filterMap_some
  simp only [Function.comp_apply, partition_append (not_mem_quotePlus (c := '=') rfl _)]
  rw [Bool.true_or, if_pos rfl, unquotePlus_quotePlus, unquotePlus_quotePlus]

end JobPing
