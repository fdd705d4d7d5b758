import JobPing.Hasher
import JobPing.Ingestion
import JobPing.PrefixCodes
import Mathlib.Data.Set.Function

/-!
# The inputs of the hashes

Every field of a hashed text stands behind its length. So the text determines its fields, also
where these hold digits and colons themselves, and two identities or states share a digest exactly
when they have the same normalized fields (`hash_inputs_unambiguous`).
-/

namespace JobPing

/-! ## Fields with their length -/

/-- The length in front of a field is read up to the colon. -/
theorem takeWhile_lengthPrefixed (field s : Str) :
    (lengthPrefixed field ++ s).takeWhile Char.isDigit = Nat.toDigits 10 field.length := by
  have hdigits : ∀ c ∈ Nat.toDigits 10 field.length, c.isDigit = true := fun c hc =>
    Nat.isDigit_of_mem_toDigits (by decide) (by decide) hc
  rw [lengthPrefixed, List.append_assoc, List.takeWhile_append_of_pos hdigits, List.cons_append,
    List.takeWhile_cons_of_neg (by decide), List.append_nil]

/-- **A field with its length** is recognised whatever follows it. -/
theorem selfDelimiting_lengthPrefixed : SelfDelimiting lengthPrefixed := by
  intro a b s t heq
  have hdigits : Nat.toDigits 10 a.length = Nat.toDigits 10 b.length := by
    rw [← takeWhile_lengthPrefixed a s, heq, takeWhile_lengthPrefixed]
  have hlength : a.length = b.length := by
    rw [← Nat.ofDigitChars_ten_toDigits (n := a.length), hdigits, Nat.ofDigitChars_ten_toDigits]
  simp only [lengthPrefixed, List.append_assoc, List.cons_append, hlength] at heq
  have hrest : a ++ s = b ++ t := (List.cons.inj (List.append_cancel_left heq)).2
  exact List.append_inj hrest hlength

theorem lengthPrefixed_ne_nil (field : Str) : lengthPrefixed field ≠ [] := by
  intro hnil
  exact List.cons_ne_nil _ _ (List.append_eq_nil_iff.mp hnil).2

variable {P : Python} {sha256 : Str → Digest} {texts : Set Str}

/-! ## Identities -/

theorem identityText_inj {company₁ title₁ company₂ title₂ : Str} :
    identityText P company₁ title₁ = identityText P company₂ title₂ ↔
      normalizeIdentityField P company₁ = normalizeIdentityField P company₂ ∧
        normalizeIdentityField P title₁ = normalizeIdentityField P title₂ :=
  selfDelimiting_lengthPrefixed.append_inj

/-! ## States -/

/-- The closed flag is one of two texts. -/
theorem flag_text_inj {closed₁ closed₂ : Bool} :
    (if closed₁ then "true".toList else "false".toList) =
      (if closed₂ then "true".toList else "false".toList) ↔ closed₁ = closed₂ := by
  cases closed₁ <;> cases closed₂ <;> decide

theorem contentState_eq_some {baseHash applyUrl location state : Str} {isClosed : Bool}
    (h : contentState P baseHash applyUrl location isClosed = some state) :
    ∃ canonicalHash canonicalUrl, canonicalizeBaseHash P baseHash = some canonicalHash ∧
      canonicalizeApplyUrl P applyUrl = some canonicalUrl ∧
      state = [canonicalHash, canonicalUrl, normalizeLocation P location,
        if isClosed then "true".toList else "false".toList].flatMap lengthPrefixed := by
  obtain ⟨canonicalHash, hhash, h⟩ := Option.bind_eq_some_iff.mp h
  obtain ⟨canonicalUrl, hurl, h⟩ := Option.bind_eq_some_iff.mp h
  exact ⟨canonicalHash, canonicalUrl, hhash, hurl, (Option.some.inj h).symm⟩

/-- **The text of a state** determines its fields. -/
theorem contentState_inj {base₁ url₁ location₁ state₁ base₂ url₂ location₂ state₂ : Str}
    {closed₁ closed₂ : Bool} (h₁ : contentState P base₁ url₁ location₁ closed₁ = some state₁)
    (h₂ : contentState P base₂ url₂ location₂ closed₂ = some state₂) :
    state₁ = state₂ ↔
      canonicalizeBaseHash P base₁ = canonicalizeBaseHash P base₂ ∧
        canonicalizeApplyUrl P url₁ = canonicalizeApplyUrl P url₂ ∧
        normalizeLocation P location₁ = normalizeLocation P location₂ ∧ closed₁ = closed₂ := by
  obtain ⟨hash₁, canonical₁, hhash₁, hurl₁, rfl⟩ := contentState_eq_some h₁
  obtain ⟨hash₂, canonical₂, hhash₂, hurl₂, rfl⟩ := contentState_eq_some h₂
  have hinj := selfDelimiting_lengthPrefixed.flatMap_injective lengthPrefixed_ne_nil
  rw [hinj.eq_iff, hhash₁, hhash₂, hurl₁, hurl₂]
  simp only [List.cons.injEq, Option.some.injEq, flag_text_inj, and_true]

/-- A digest that is canonical as a text has the state the jobs are hashed by. -/
theorem generateContentHash_eq {baseHash : Digest} (applyUrl location : Str)
    (isClosed : Bool) (h : canonicalizeBaseHash P baseHash.hex = some baseHash.hex) :
    generateContentHash P sha256 baseHash applyUrl location isClosed =
      generateContentHashOfText P sha256 baseHash.hex applyUrl location isClosed := by
  rw [generateContentHashOfText, contentState, h]
  cases hurl : canonicalizeApplyUrl P applyUrl with
  | none => simp [generateContentHash, hurl]
  | some canonicalUrl => simp [generateContentHash, hurl]

/-! ## The digests -/

/-- **Hash inputs are unambiguous.** Where SHA-256 tells the hashed texts apart, two identities
have one digest exactly when their normalized fields are the same, and so have two states. -/
theorem hash_inputs_unambiguous (P : Python) {sha256 : Str → Digest} {texts : Set Str}
    (hsha : Set.InjOn sha256 texts) :
    (∀ company₁ title₁ company₂ title₂ : Str,
      identityText P company₁ title₁ ∈ texts → identityText P company₂ title₂ ∈ texts →
        (generateBaseHash P sha256 company₁ title₁ =
            generateBaseHash P sha256 company₂ title₂ ↔
          normalizeIdentityField P company₁ = normalizeIdentityField P company₂ ∧
            normalizeIdentityField P title₁ = normalizeIdentityField P title₂)) ∧
      ∀ (base₁ url₁ location₁ base₂ url₂ location₂ : Str) (closed₁ closed₂ : Bool)
        (digest₁ digest₂ : Digest),
        (∀ state, contentState P base₁ url₁ location₁ closed₁ = some state → state ∈ texts) →
        (∀ state, contentState P base₂ url₂ location₂ closed₂ = some state → state ∈ texts) →
        generateContentHashOfText P sha256 base₁ url₁ location₁ closed₁ = some digest₁ →
        generateContentHashOfText P sha256 base₂ url₂ location₂ closed₂ = some digest₂ →
        (digest₁ = digest₂ ↔
          canonicalizeBaseHash P base₁ = canonicalizeBaseHash P base₂ ∧
            canonicalizeApplyUrl P url₁ = canonicalizeApplyUrl P url₂ ∧
            normalizeLocation P location₁ = normalizeLocation P location₂ ∧
            closed₁ = closed₂) := by
  refine ⟨?_, ?_⟩
  · intro company₁ title₁ company₂ title₂ h₁ h₂
    rw [← identityText_inj]
    exact hsha.eq_iff h₁ h₂
  · intro base₁ url₁ location₁ base₂ url₂ location₂ closed₁ closed₂ digest₁ digest₂ htext₁ htext₂
      h₁ h₂
    obtain ⟨state₁, hstate₁, rfl⟩ := Option.map_eq_some_iff.mp h₁
    obtain ⟨state₂, hstate₂, rfl⟩ := Option.map_eq_some_iff.mp h₂
    rw [← contentState_inj hstate₁ hstate₂]
    exact hsha.eq_iff (htext₁ state₁ hstate₁) (htext₂ state₂ hstate₂)

/-- A base hash as the callers pass it. -/
def sampleBaseHash : Str := List.replicate 64 'a'

/-- Texts that look alike: a company that takes a letter of the title, and a location that holds
the text of a flag. -/
def lookAlikes : List Str :=
  [identityText .ascii "ab".toList "c".toList, identityText .ascii "a".toList "bc".toList] ++
    (contentState .ascii sampleBaseHash "https://x.io/1".toList "1:a5:false".toList true).toList ++
    (contentState .ascii sampleBaseHash "https://x.io/1".toList "1:a".toList false).toList

theorem look_alikes_told_apart :
    generateBaseHash .ascii sampleDigest "ab".toList "c".toList ≠
        generateBaseHash .ascii sampleDigest "a".toList "bc".toList ∧
      ∃ digest₁ digest₂, generateContentHashOfText .ascii sampleDigest sampleBaseHash
          "https://x.io/1".toList "1:a5:false".toList true = some digest₁ ∧
        generateContentHashOfText .ascii sampleDigest sampleBaseHash
          "https://x.io/1".toList "1:a".toList false = some digest₂ ∧ digest₁ ≠ digest₂ := by
  have hall : ∀ a ∈ lookAlikes, ∀ b ∈ lookAlikes, sampleDigest a = sampleDigest b → a = b := by
    decide +kernel
  have hsha : Set.InjOn sampleDigest {text | text ∈ lookAlikes} := hall
  obtain ⟨hidentity, hstate⟩ := hash_inputs_unambiguous Python.ascii hsha
  constructor
  · intro heq
    exact absurd ((hidentity _ _ _ _ (by decide +kernel) (by decide +kernel)).mp heq).1
      (by decide +kernel)
  · have h₁ : (generateContentHashOfText .ascii sampleDigest sampleBaseHash
        "https://x.io/1".toList "1:a5:false".toList true).isSome = true := by decide +kernel
    have h₂ : (generateContentHashOfText .ascii sampleDigest sampleBaseHash
        "https://x.io/1".toList "1:a".toList false).isSome = true := by decide +kernel
    obtain ⟨digest₁, hdigest₁⟩ := Option.isSome_iff_exists.mp h₁
    obtain ⟨digest₂, hdigest₂⟩ := Option.isSome_iff_exists.mp h₂
    refine ⟨digest₁, digest₂, hdigest₁, hdigest₂, fun heq => ?_⟩
    have hiff := hstate _ _ _ _ _ _ _ _ digest₁ digest₂
      (by
        intro state hs
        have hmem := Option.mem_toList.mpr hs
        exact List.mem_append_left _ (List.mem_append_right _ hmem))
      (by
        intro state hs
        have hmem := Option.mem_toList.mpr hs
        exact List.mem_append_right _ hmem) hdigest₁ hdigest₂
    exact absurd (hiff.mp heq).2.2.2 (by decide)

end JobPing
