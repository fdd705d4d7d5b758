import JobPing.Dict
import JobPing.Interleaving
import Mathlib.Data.Bool.AllAny
import Mathlib.Data.List.Nodup
import Mathlib.Data.List.TakeWhile
import Mathlib.Data.Nat.Digits.Defs
import Mathlib.Data.Nat.Notation

/-!
# JSON texts

What a value is dumped to, with the least separators and no escape that is not needed, and an
automaton that loads a text. A value that can be dumped is loaded again (`loads_dumps`). Texts are
of code points, so that half of a surrogate pair can be there alone, as an escape may leave it. Floats
are the texts they are shown as.
-/

namespace JsonText

/-- A code point: a character, or half of a surrogate pair. -/
inductive Code
  | char (c : Char)
  | half (n : ℕ) (surrogate : 0xD800 ≤ n ∧ n ≤ 0xDFFF)
  deriving DecidableEq

namespace Code

def toNat : Code → ℕ
  | char c => c.toNat
  | half n _ => n

def ofNat (n : ℕ) : Code :=
  if surrogate : 0xD800 ≤ n ∧ n ≤ 0xDFFF then half n surrogate else char (Char.ofNat n)

end Code

/-- The code points of a text without halves of pairs. -/
def codes (text : List Char) : List Code := text.map Code.char

/-- The code points of a literal. -/
def literal (text : String) : List Code := codes text.toList

inductive Value
  | null
  | bool (value : Bool)
  | int (value : ℤ)
  | float (shown : List Char)
  | str (text : List Code)
  | list (items : List Value)
  | dict (items : List (List Code × Value))

/-! ## Dumping -/

/-- The escape of a character of a string. -/
def escapeChar (c : Char) : List Char :=
  if c = '"' then ['\\', '"']
  else if c = '\\' then ['\\', '\\']
  else if c = '\n' then ['\\', 'n']
  else if c = '\r' then ['\\', 'r']
  else if c = '\t' then ['\\', 't']
  else if c.toNat = 8 then ['\\', 'b']
  else if c.toNat = 12 then ['\\', 'f']
  else if c.toNat < 32 then
    ['\\', 'u', '0', '0', Nat.digitChar (c.toNat / 16), Nat.digitChar (c.toNat % 16)]
  else [c]

def escape : Code → List Code
  | .char c => codes (escapeChar c)
  | half => [half]

def quote (text : List Code) : List Code := .char '"' :: text.flatMap escape ++ [.char '"']

def showInt (n : ℤ) : List Char :=
  if n < 0 then '-' :: Nat.toDigits 10 n.natAbs else Nat.toDigits 10 n.natAbs

mutual

def dumps : Value → List Code
  | .null => literal "null"
  | .bool true => literal "true"
  | .bool false => literal "false"
  | .int n => codes (showInt n)
  | .float shown => codes shown
  | .str text => quote text
  | .list [] => literal "[]"
  | .list (v :: items) => .char '[' :: dumps v ++ dumpsItems items
  | .dict [] => literal "\x7b\x7d"
  | .dict ((key, v) :: items) =>
    .char '{' :: quote key ++ .char ':' :: dumps v ++ dumpsEntries items

/-- The rest of a list. -/
def dumpsItems : List Value → List Code
  | [] => [.char ']']
  | v :: items => .char ',' :: dumps v ++ dumpsItems items

/-- The rest of a dictionary. -/
def dumpsEntries : List (List Code × Value) → List Code
  | [] => [.char '}']
  | (key, v) :: items => .char ',' :: quote key ++ .char ':' :: dumps v ++ dumpsEntries items

end

/-! ## Loading -/

/-- The lists and dictionaries that are open, the innermost one first; a dictionary has the key of
its next value. -/
inductive Frame
  | list (items : List Value)
  | dict (items : List (List Code × Value)) (key : List Code)

/-- What comes next, or what is being read. A `\u` escape has its digits so far, and the first half
of a pair that it may be the second one of. -/
inductive Mode
  | value
  | firstItem
  | firstKey
  | key
  | colon
  | after
  | text (isKey : Bool) (read : List Code)
  | escape (isKey : Bool) (read : List Code)
  | surrogate (isKey : Bool) (read : List Code) (high : ℕ)
  | second (isKey : Bool) (read : List Code) (high : ℕ)
  | hex (isKey : Bool) (read : List Code) (high : Option ℕ) (digits : List ℕ)
  | atom (read : List Char)
  | done (v : Value)

structure State where
  mode : Mode
  frames : List Frame

def isSpace (c : Char) : Bool := c = ' ' || c = '\t' || c = '\n' || c = '\r'

/-- A character of a number or of a constant. -/
def isAtomChar (c : Char) : Bool := c.isAlphanum || c = '-' || c = '+' || c = '.'

def hexDigit (c : Char) : Option ℕ :=
  if c.isDigit then some (c.toNat - 48)
  else if 'a' ≤ c && c ≤ 'f' then some (c.toNat - 87)
  else if 'A' ≤ c && c ≤ 'F' then some (c.toNat - 55)
  else none

/-- The longest whole number that is read or shown, in digits. -/
def maxDigits : ℕ := 4300

/-- An exponent, or nothing. -/
def isExponent : List Char → Bool
  | [] => true
  | c :: text => (c = 'e' || c = 'E') &&
      let digits := match text with
        | '+' :: digits => digits
        | '-' :: digits => digits
        | digits => digits
      !digits.isEmpty && digits.all Char.isDigit

/-- A fraction, an exponent, both or none. -/
def isFloatTail : List Char → Bool
  | '.' :: text =>
    !(text.takeWhile Char.isDigit).isEmpty && isExponent (text.dropWhile Char.isDigit)
  | text => isExponent text

/-- A number without its sign. -/
def readNumber (float : List Char → List Char) (negative : Bool) (text : List Char) :
    Option Value :=
  let digits := text.takeWhile Char.isDigit
  let tail := text.dropWhile Char.isDigit
  if digits.isEmpty || digits.head? = some '0' && digits.length ≠ 1 then none
  else if tail.isEmpty then
    if maxDigits < digits.length then none
    else
      some (.int (if negative then -(Nat.ofDigitChars 10 digits 0 : ℤ)
        else Nat.ofDigitChars 10 digits 0))
  else if isFloatTail tail then some (.float (float (if negative then '-' :: text else text)))
  else none

/-- A constant or a number. -/
def readAtom (float : List Char → List Char) (text : List Char) : Option Value :=
  if text = "null".toList then some .null
  else if text = "true".toList then some (.bool true)
  else if text = "false".toList then some (.bool false)
  else if text = "NaN".toList || text = "Infinity".toList || text = "-Infinity".toList then
    some (.float text)
  else match text with
    | '-' :: text => readNumber float true text
    | text => readNumber float false text

/-- A value has been read. -/
def push (v : Value) : List Frame → State
  | [] => ⟨.done v, []⟩
  | .list items :: frames => ⟨.after, .list (items ++ [v]) :: frames⟩
  | .dict items key :: frames => ⟨.after, .dict (Dict.set key v items) key :: frames⟩

/-- A string has been read. -/
def pushText (isKey : Bool) (read : List Code) (frames : List Frame) : Option State :=
  match isKey, frames with
  | false, frames => some (push (.str read) frames)
  | true, .dict items _ :: frames => some ⟨.colon, .dict items read :: frames⟩
  | true, _ => none

/-- The first character of a value. -/
def beginValue (c : Char) (frames : List Frame) : Option State :=
  if c = '"' then some ⟨.text false [], frames⟩
  else if c = '[' then some ⟨.firstItem, .list [] :: frames⟩
  else if c = '{' then some ⟨.firstKey, .dict [] [] :: frames⟩
  else if isAtomChar c then some ⟨.atom [c], frames⟩
  else none

/-- A character between values. -/
def afterValue (c : Char) (frames : List Frame) : Option State :=
  match frames with
  | .list items :: frames =>
    if c = ',' then some ⟨.value, .list items :: frames⟩
    else if c = ']' then some (push (.list items) frames)
    else none
  | .dict items key :: frames =>
    if c = ',' then some ⟨.key, .dict items key :: frames⟩
    else if c = '}' then some (push (.dict items) frames)
    else none
  | [] => none

/-- A `\u` escape. A first half waits for the second one. -/
def unicode (isKey : Bool) (read : List Code) (n : ℕ) : Mode :=
  if 0xD800 ≤ n && n ≤ 0xDBFF then .surrogate isKey read n
  else .text isKey (read ++ [.ofNat n])

/-- A `\u` escape after a first half, which stands alone if this is not the second one. -/
def secondUnicode (isKey : Bool) (read : List Code) (high n : ℕ) : Mode :=
  if 0xDC00 ≤ n && n ≤ 0xDFFF then
    .text isKey (read ++ [.ofNat (0x10000 + (high - 0xD800) * 1024 + (n - 0xDC00))])
  else unicode isKey (read ++ [.ofNat high]) n

/-- The character that an escape other than `\u` stands for. -/
def unescape (c : Char) : Option Char :=
  if c = '"' then some '"'
  else if c = '\\' then some '\\'
  else if c = '/' then some '/'
  else if c = 'b' then some (Char.ofNat 8)
  else if c = 'f' then some (Char.ofNat 12)
  else if c = 'n' then some '\n'
  else if c = 'r' then some '\r'
  else if c = 't' then some '\t'
  else none

section reading

variable (float : List Char → List Char)

/-- One more character of a string, or its end. -/
def textStep (isKey : Bool) (read : List Code) (c : Char) (frames : List Frame) : Option State :=
  if c = '"' then pushText isKey read frames
  else if c = '\\' then some ⟨.escape isKey read, frames⟩
  else if c.toNat < 32 then none
  else some ⟨.text isKey (read ++ [.char c]), frames⟩

/-- One more character. -/
def charStep (c : Char) (s : State) : Option State :=
  match s.mode with
  | .value => if isSpace c then some s else beginValue c s.frames
  | .firstItem =>
    if isSpace c then some s
    else if c = ']' then afterValue c s.frames
    else beginValue c s.frames
  | .firstKey =>
    if isSpace c then some s
    else if c = '}' then afterValue c s.frames
    else if c = '"' then some { s with mode := .text true [] }
    else none
  | .key =>
    if isSpace c then some s
    else if c = '"' then some { s with mode := .text true [] }
    else none
  | .colon =>
    if isSpace c then some s else if c = ':' then some { s with mode := .value } else none
  | .after => if isSpace c then some s else afterValue c s.frames
  | .text isKey read => textStep isKey read c s.frames
  | .escape isKey read =>
    if c = 'u' then some { s with mode := .hex isKey read none [] }
    else (unescape c).map fun c => { s with mode := .text isKey (read ++ [.char c]) }
  | .surrogate isKey read high =>
    if c = '\\' then some { s with mode := .second isKey read high }
    else textStep isKey (read ++ [.ofNat high]) c s.frames
  | .second isKey read high =>
    if c = 'u' then some { s with mode := .hex isKey read (some high) [] }
    else (unescape c).map fun c => { s with mode := .text isKey (read ++ [.ofNat high, .char c]) }
  | .hex isKey read high digits =>
    (hexDigit c).map fun digit =>
      if digits.length < 3 then { s with mode := .hex isKey read high (digits ++ [digit]) }
      else
        let n := Nat.ofDigits 16 (digits ++ [digit]).reverse
        { s with mode := high.elim (unicode isKey read n) (secondUnicode isKey read · n) }
  | .atom read =>
    if isAtomChar c then some { s with mode := .atom (read ++ [c]) }
    else
      (readAtom float read).bind fun v =>
        let s := push v s.frames
        if isSpace c then some s else afterValue c s.frames
  | .done _ => if isSpace c then some s else none

/-- One more code point; half of a pair can only be in a string. -/
def step (code : Code) (s : State) : Option State :=
  match code with
  | .char c => charStep float c s
  | half =>
    match s.mode with
    | .text isKey read => some { s with mode := .text isKey (read ++ [half]) }
    | .surrogate isKey read high =>
      some { s with mode := .text isKey (read ++ [.ofNat high, half]) }
    | _ => none

def finished (s : State) : Option Value :=
  match s.mode with
  | .done v => some v
  | _ => none

/-- The value of a text; a space ends a number. -/
def loads (text : List Code) : Option Value :=
  (Interleaving.run (step float) ⟨.value, []⟩ (text ++ [.char ' '])).bind finished

end reading

/-! ## Strings -/

section strings

variable {float : List Char → List Char} {frames : List Frame} {isKey : Bool}
  {read rest : List Code}

theorem run_cons (c : Code) (s : State) :
    Interleaving.run (step float) s (c :: rest) =
      (step float c s).bind fun s => Interleaving.run (step float) s rest := rfl

theorem hexDigit_digitChar : ∀ d < 16, hexDigit (Nat.digitChar d) = some d := by decide

theorem run_escapeChar (c : Char) :
    Interleaving.run (step float) ⟨.text isKey read, frames⟩ (codes (escapeChar c) ++ rest) =
      Interleaving.run (step float) ⟨.text isKey (read ++ [.char c]), frames⟩ rest := by
  unfold escapeChar
  split_ifs with hquote hslash hn hr ht hb hf hcontrol
  · subst hquote
    rfl
  · subst hslash
    rfl
  · subst hn
    rfl
  · subst hr
    rfl
  · subst ht
    rfl
  · obtain rfl : Char.ofNat 8 = c := by rw [← hb, Char.ofNat_toNat]
    rfl
  · obtain rfl : Char.ofNat 12 = c := by rw [← hf, Char.ofNat_toNat]
    rfl
  · have hhigh := hexDigit_digitChar (c.toNat / 16) (by omega)
    have hlow := hexDigit_digitChar (c.toNat % 16) (by omega)
    have hvalue : Nat.ofDigits 16 [c.toNat % 16, c.toNat / 16, 0, 0] = c.toNat := by
      simp only [Nat.ofDigits_cons, Nat.ofDigits_nil]
      omega
    have hunicode : unicode isKey read c.toNat = .text isKey (read ++ [.char c]) := by
      unfold unicode Code.ofNat
      simp only [Bool.and_eq_true, decide_eq_true_eq]
      rw [if_neg (by omega), dif_neg (by omega), Char.ofNat_toNat]
    have hzero : hexDigit '0' = some 0 := by decide
    simp only [codes, List.map_cons, List.map_nil, List.cons_append, List.nil_append, run_cons]
    simp [step, charStep, textStep, hzero, hhigh, hlow, hvalue, hunicode]
  · simp only [codes, List.map_cons, List.map_nil, List.singleton_append, run_cons]
    simp [step, charStep, textStep, hquote, hslash, hcontrol]

/-- **An escape** is read as its code point. -/
theorem run_escape (code : Code) :
    Interleaving.run (step float) ⟨.text isKey read, frames⟩ (escape code ++ rest) =
      Interleaving.run (step float) ⟨.text isKey (read ++ [code]), frames⟩ rest := by
  cases code with
  | char c => exact run_escapeChar c
  | half n surrogate => rfl

theorem run_text (text : List Code) : Interleaving.run (step float) ⟨.text isKey read, frames⟩
    (text.flatMap escape ++ rest) =
      Interleaving.run (step float) ⟨.text isKey (read ++ text), frames⟩ rest := by
  induction text generalizing read with
  | nil => simp
  | cons code text ih =>
    rw [List.flatMap_cons, List.append_assoc, run_escape, ih, List.append_assoc]
    rfl

/-- **A quoted string** is read as the string. -/
theorem run_quote (text : List Code) :
    Interleaving.run (step float) ⟨.text isKey [], frames⟩ (text.flatMap escape ++ .char '"' :: rest) =
      (pushText isKey text frames).bind fun s => Interleaving.run (step float) s rest := by
  rw [run_text, run_cons]
  rfl

end strings

/-! ## Atoms -/

section atoms

variable {float : List Char → List Char} {frames : List Frame} {read text : List Char}
  {rest : List Code} {c : Char} {v : Value} {n : ℤ}

/-- A character that can come after a value. -/
def Ends (c : Char) : Prop := isSpace c = true ∨ c = ',' ∨ c = ']' ∨ c = '}'

theorem Ends.not_atom (h : Ends c) : isAtomChar c = false := by
  rcases h with h | rfl | rfl | rfl
  · simp only [isSpace, Bool.or_eq_true, decide_eq_true_eq] at h
    rcases h with ((rfl | rfl) | rfl) | rfl <;> decide
  all_goals decide

/-- The end of an atom is what it would be after its value. -/
theorem step_atom (hends : Ends c) (hread : readAtom float read = some v) :
    step float (.char c) ⟨.atom read, frames⟩ = step float (.char c) (push v frames) := by
  have hatom := hends.not_atom
  unfold step charStep
  simp only [hatom, Bool.false_eq_true, if_false, hread, Option.bind_some]
  rcases frames with _ | ⟨_ | _, frames⟩ <;> simp [push, afterValue]

theorem run_atom (htext : ∀ c ∈ text, isAtomChar c = true) (hends : Ends c)
    (hread : readAtom float (read ++ text) = some v) :
    Interleaving.run (step float) ⟨.atom read, frames⟩ (codes text ++ .char c :: rest) =
      Interleaving.run (step float) (push v frames) (.char c :: rest) := by
  induction text generalizing read with
  | nil =>
    rw [List.append_nil] at hread
    change Interleaving.run (step float) ⟨.atom read, frames⟩ (.char c :: rest) = _
    rw [run_cons, run_cons, step_atom hends hread]
  | cons d text ih =>
    have hd : isAtomChar d = true := htext d List.mem_cons_self
    have hstep : step float (.char d) ⟨.atom read, frames⟩ = some ⟨.atom (read ++ [d]), frames⟩ := by
      simp [step, charStep, hd]
    change Interleaving.run (step float) ⟨.atom read, frames⟩
      (.char d :: (codes text ++ .char c :: rest)) = _
    rw [run_cons, hstep]
    refine ih (fun c hc => htext c (List.mem_cons_of_mem _ hc)) ?_
    rwa [List.append_assoc]

theorem digit_ne_zero_of_toDigits {n : ℕ} (hzero : (Nat.toDigits 10 n).head? = some '0') :
    (Nat.toDigits 10 n).length = 1 := by
  induction n using Nat.strong_induction_on with
  | _ n ih =>
    by_cases hn : n < 10
    · rw [Nat.toDigits_of_lt_base hn]
      rfl
    · rw [Nat.toDigits_of_base_le (by decide) (not_lt.mp hn)] at hzero
      have hne : Nat.toDigits 10 (n / 10) ≠ [] := Nat.toDigits_ne_nil
      rw [List.head?_append_of_ne_nil _ hne] at hzero
      -- a number of one digit that is zero is zero
      have hone := ih (n / 10) (by omega) hzero
      have hsmall : n / 10 < 10 := by
        have := (Nat.length_toDigits_le_iff (n := n / 10) (k := 1) (by decide) (by decide)).mp
          hone.le
        omega
      rw [Nat.toDigits_of_lt_base hsmall] at hzero
      have hdigit : n / 10 = 0 := by
        have hall : ∀ d < 10, Nat.digitChar d = '0' → d = 0 := by decide
        exact hall _ hsmall (Option.some.inj hzero)
      omega

theorem readNumber_toDigits (negative : Bool) {n : ℕ}
    (hn : (Nat.toDigits 10 n).length ≤ maxDigits) :
    readNumber float negative (Nat.toDigits 10 n) = some (.int (if negative then -n else n)) := by
  have hdigits : ∀ c ∈ Nat.toDigits 10 n, c.isDigit = true := fun c hc =>
    Nat.isDigit_of_mem_toDigits (by decide) (by decide) hc
  have htake : (Nat.toDigits 10 n).takeWhile Char.isDigit = Nat.toDigits 10 n :=
    List.takeWhile_eq_self_iff.mpr hdigits
  have hdrop : (Nat.toDigits 10 n).dropWhile Char.isDigit = [] :=
    List.dropWhile_eq_nil_iff.mpr hdigits
  unfold readNumber
  simp only [htake, hdrop, Nat.ofDigitChars_ten_toDigits]
  rw [if_neg, if_pos List.isEmpty_nil, if_neg (not_lt.mpr hn)]
  simp only [Bool.or_eq_true, Bool.and_eq_true, decide_eq_true_eq, List.isEmpty_iff, not_or,
    not_and, not_not]
  exact ⟨Nat.toDigits_ne_nil, digit_ne_zero_of_toDigits⟩

theorem showInt_chars (hc : c ∈ showInt n) : c.isDigit = true ∨ c = '-' := by
  unfold showInt at hc
  split_ifs at hc
  · rcases List.mem_cons.mp hc with rfl | hc
    · exact .inr rfl
    · exact .inl (Nat.isDigit_of_mem_toDigits (by decide) (by decide) hc)
  · exact .inl (Nat.isDigit_of_mem_toDigits (by decide) (by decide) hc)

/-- **A whole number** is read as it is shown. -/
theorem readAtom_showInt (hn : (Nat.toDigits 10 n.natAbs).length ≤ maxDigits) :
    readAtom float (showInt n) = some (.int n) := by
  have hletter : ∀ {text : List Char} {c : Char}, c ∈ text → c.isDigit = false → c ≠ '-' →
      showInt n ≠ text := by
    rintro text c hc hdigit hdash rfl
    rcases showInt_chars hc with h | h
    · rw [hdigit] at h
      cases h
    · exact hdash h
  unfold readAtom
  rw [if_neg (hletter (c := 'n') (by decide) (by decide) (by decide)),
    if_neg (hletter (c := 't') (by decide) (by decide) (by decide)),
    if_neg (hletter (c := 'f') (by decide) (by decide) (by decide)), if_neg]
  · unfold showInt
    split_ifs with hneg
    · simp only
      rw [readNumber_toDigits true hn, if_pos rfl]
      congr 2
      omega
    · split
      · next text heq =>
        have hdash : '-' ∈ Nat.toDigits 10 n.natAbs := heq ▸ List.mem_cons_self
        exact absurd (Nat.isDigit_of_mem_toDigits (by decide) (by decide) hdash) (by decide)
      · rw [readNumber_toDigits false hn]
        simp only [Bool.false_eq_true, if_false]
        congr 2
        omega
  · simp only [Bool.or_eq_true, decide_eq_true_eq, not_or]
    exact ⟨⟨hletter (c := 'N') (by decide) (by decide) (by decide),
      hletter (c := 'I') (by decide) (by decide) (by decide)⟩,
      hletter (c := 'I') (by decide) (by decide) (by decide)⟩

end atoms

/-! ## The round trip -/

section roundTrip

variable (float : List Char → List Char)

/-- A float is read as it is shown. -/
def Shown (shown : List Char) : Prop :=
  shown ≠ [] ∧ (∀ c ∈ shown, isAtomChar c = true) ∧
    readAtom float shown = some (.float shown)

/-- **A value that can be dumped**: no number is too long and no key is there twice. -/
inductive Printable : Value → Prop
  | null : Printable .null
  | bool (value : Bool) : Printable (.bool value)
  | int (n : ℤ) : (Nat.toDigits 10 n.natAbs).length ≤ maxDigits → Printable (.int n)
  | float (shown : List Char) : Shown float shown → Printable (.float shown)
  | str (text : List Code) : Printable (.str text)
  | list (items : List Value) : (∀ v ∈ items, Printable v) → Printable (.list items)
  | dict (items : List (List Code × Value)) : (Dict.keys items).Nodup →
      (∀ item ∈ items, Printable item.2) → Printable (.dict items)

/-- A value can begin. -/
def Opens : Mode → Prop
  | .value => True
  | .firstItem => True
  | _ => False

/-- **A dumped value is read** where one can begin, if what follows can come after it. -/
def Reads (v : Value) : Prop :=
  ∀ mode frames (c : Char) rest, Opens mode → Ends c →
    Interleaving.run (step float) ⟨mode, frames⟩ (dumps v ++ .char c :: rest) =
      Interleaving.run (step float) (push v frames) (.char c :: rest)

variable {float} {frames : List Frame} {mode : Mode} {c : Char} {text : List Char}
  {rest : List Code} {v : Value}

theorem step_opens (hopens : Opens mode) (hspace : isSpace c = false) (hclose : c ≠ ']') :
    step float (.char c) ⟨mode, frames⟩ = beginValue c frames := by
  cases mode with
  | value => simp [step, charStep, hspace]
  | firstItem => simp [step, charStep, hspace, hclose]
  | _ => cases hopens

theorem reads_atom (hdumps : dumps v = codes text) (hne : text ≠ [])
    (hchars : ∀ c ∈ text, isAtomChar c = true) (hread : readAtom float text = some v) :
    Reads float v := by
  intro mode frames c rest hopens hends
  obtain ⟨d, text, rfl⟩ := List.exists_cons_of_ne_nil hne
  rw [hdumps]
  have hd : isAtomChar d = true := hchars d List.mem_cons_self
  have hother : ∀ {e : Char}, isAtomChar e = false → d ≠ e := by
    rintro e he rfl
    rw [hd] at he
    cases he
  have hspace : isSpace d = false := by
    simp [isSpace, hother (e := ' ') (by decide), hother (e := '\t') (by decide),
      hother (e := '\n') (by decide), hother (e := '\r') (by decide)]
  have hbegin : beginValue d frames = some ⟨.atom [d], frames⟩ := by
    simp [beginValue, hd, hother (e := '"') (by decide), hother (e := '[') (by decide),
      hother (e := '{') (by decide)]
  change Interleaving.run (step float) ⟨mode, frames⟩ (.char d :: (codes text ++ .char c :: rest)) = _
  rw [run_cons, step_opens hopens hspace (hother (by decide)), hbegin]
  exact run_atom (fun c hc => hchars c (List.mem_cons_of_mem _ hc)) hends hread

theorem showInt_ne_nil (n : ℤ) : showInt n ≠ [] := by
  unfold showInt
  split_ifs
  · exact List.cons_ne_nil _ _
  · exact Nat.toDigits_ne_nil

theorem ends_dumpsItems (items : List Value) :
    ∃ (c : Char) (rest : List Code), dumpsItems items = .char c :: rest ∧ Ends c := by
  cases items with
  | nil => exact ⟨']', [], rfl, .inr (.inr (.inl rfl))⟩
  | cons v items => exact ⟨',', _, rfl, .inr (.inl rfl)⟩

theorem ends_dumpsEntries (items : List (List Code × Value)) :
    ∃ (c : Char) (rest : List Code), dumpsEntries items = .char c :: rest ∧ Ends c := by
  cases items with
  | nil => exact ⟨'}', [], rfl, .inr (.inr (.inr rfl))⟩
  | cons item items => exact ⟨',', _, rfl, .inr (.inl rfl)⟩

/-- The rest of a list is read after its first items. -/
theorem run_dumpsItems (frames : List Frame) (rest : List Code) {items : List Value}
    (hitems : ∀ v ∈ items, Reads float v) (before : List Value) :
    Interleaving.run (step float) ⟨.after, .list before :: frames⟩ (dumpsItems items ++ rest) =
      Interleaving.run (step float) (push (.list (before ++ items)) frames) rest := by
  induction items generalizing before with
  | nil =>
    rw [List.append_nil]
    rfl
  | cons v items ih =>
    obtain ⟨c, tail, heq, hends⟩ := ends_dumpsItems items
    have hv := hitems v List.mem_cons_self .value (.list before :: frames) c (tail ++ rest) trivial
      hends
    have hrest := ih (fun v hv => hitems v (List.mem_cons_of_mem _ hv)) (before ++ [v])
    have htail : dumpsItems items ++ rest = .char c :: (tail ++ rest) := by
      rw [heq, List.cons_append]
    rw [List.append_assoc, htail] at hrest
    simp only [dumpsItems, List.cons_append, List.append_assoc, run_cons, htail]
    change Interleaving.run (step float) ⟨.value, .list before :: frames⟩ _ = _
    rw [hv]
    exact hrest

theorem set_of_not_mem {key : List Code} {d : List (List Code × Value)}
    (h : key ∉ Dict.keys d) : Dict.set key v d = d ++ [(key, v)] := by
  induction d with
  | nil => rfl
  | cons item d ih =>
    have hne : item.1 ≠ key := fun heq => h (heq ▸ List.mem_cons_self)
    rw [Dict.set, if_neg hne, ih fun hmem => h (List.mem_cons_of_mem _ hmem)]
    rfl

/-- A key and its value are read. -/
theorem run_entry (frames : List Frame) (rest known : List Code) {key : List Code}
    {before : List (List Code × Value)} (hv : Reads float v) (hends : Ends c)
    (hnew : key ∉ Dict.keys before) :
    Interleaving.run (step float) ⟨.text true [], .dict before known :: frames⟩
      (key.flatMap escape ++ .char '"' :: .char ':' :: (dumps v ++ .char c :: rest)) =
      Interleaving.run (step float) ⟨.after, .dict (before ++ [(key, v)]) key :: frames⟩
        (.char c :: rest) := by
  rw [run_quote]
  change Interleaving.run (step float) ⟨.value, .dict before key :: frames⟩ _ = _
  rw [hv .value _ c rest trivial hends, push, set_of_not_mem hnew]

/-- The rest of a dictionary is read after its first items. -/
theorem run_dumpsEntries (frames : List Frame) (rest : List Code)
    {items : List (List Code × Value)} (hitems : ∀ item ∈ items, Reads float item.2)
    (before : List (List Code × Value)) (hkeys : (Dict.keys (before ++ items)).Nodup)
    (known : List Code) :
    Interleaving.run (step float) ⟨.after, .dict before known :: frames⟩
      (dumpsEntries items ++ rest) =
      Interleaving.run (step float) (push (.dict (before ++ items)) frames) rest := by
  induction items generalizing before known with
  | nil =>
    rw [List.append_nil]
    rfl
  | cons item items ih =>
    obtain ⟨key, v⟩ := item
    obtain ⟨c, tail, heq, hends⟩ := ends_dumpsEntries items
    have hsplit : before ++ (key, v) :: items = before ++ [(key, v)] ++ items := by simp
    have hnew : key ∉ Dict.keys before := by
      rw [Dict.keys, List.map_append, List.map_cons, List.nodup_append] at hkeys
      exact fun hmem => hkeys.2.2 key hmem key List.mem_cons_self rfl
    rw [hsplit] at hkeys ⊢
    have hrest := ih (fun item hitem => hitems item (List.mem_cons_of_mem _ hitem)) _ hkeys key
    have hentry := run_entry frames (tail ++ rest) known (hitems (key, v) List.mem_cons_self) hends
      hnew
    have htail : dumpsEntries items ++ rest = .char c :: (tail ++ rest) := by
      rw [heq, List.cons_append]
    rw [← hrest, htail, ← hentry]
    simp only [dumpsEntries, quote, List.cons_append, List.append_assoc, List.nil_append, htail]
    rfl

/-- **Every value that can be dumped is read again.** -/
theorem Printable.reads (h : Printable float v) : Reads float v := by
  induction h with
  | null => exact reads_atom rfl (by decide) (List.all_iff_forall_prop.mp (by decide)) rfl
  | bool value =>
    cases value
    · exact reads_atom rfl (by decide) (List.all_iff_forall_prop.mp (by decide)) rfl
    · exact reads_atom rfl (by decide) (List.all_iff_forall_prop.mp (by decide)) rfl
  | int n hn =>
    refine reads_atom rfl (showInt_ne_nil n) (fun c hc => ?_) (readAtom_showInt hn)
    rcases showInt_chars hc with hdigit | rfl
    · simp [isAtomChar, Char.isAlphanum, hdigit]
    · decide
  | float shown hshown => exact reads_atom rfl hshown.1 hshown.2.1 hshown.2.2
  | str text =>
    intro mode frames c rest hopens hends
    have hquote : dumps (.str text) ++ .char c :: rest =
        .char '"' :: (text.flatMap escape ++ .char '"' :: .char c :: rest) := by simp [dumps, quote]
    rw [hquote, run_cons, step_opens hopens (by decide) (by decide)]
    exact run_quote text
  | list items hitems ih =>
    intro mode frames c rest hopens hends
    cases items with
    | nil =>
      have hopen : dumps (.list []) ++ .char c :: rest = .char '[' :: .char ']' :: .char c :: rest := rfl
      rw [hopen, run_cons, step_opens hopens (by decide) (by decide)]
      rfl
    | cons v items =>
      obtain ⟨d, tail, heq, hd⟩ := ends_dumpsItems items
      have hv := ih v List.mem_cons_self .firstItem (.list [] :: frames) d (tail ++ .char c :: rest)
        trivial hd
      have hrest := run_dumpsItems frames (.char c :: rest)
        (fun v hv => ih v (List.mem_cons_of_mem _ hv)) [v]
      have htail : dumpsItems items ++ .char c :: rest = .char d :: (tail ++ .char c :: rest) := by
        rw [heq, List.cons_append]
      rw [htail] at hrest
      simp only [dumps, List.cons_append, List.append_assoc, run_cons, htail]
      rw [step_opens hopens (by decide) (by decide)]
      change Interleaving.run (step float) ⟨.firstItem, .list [] :: frames⟩ _ = _
      rw [hv]
      exact hrest
  | dict items hkeys hitems ih =>
    intro mode frames c rest hopens hends
    cases items with
    | nil =>
      have hopen : dumps (.dict []) ++ .char c :: rest = .char '{' :: .char '}' :: .char c :: rest := rfl
      rw [hopen, run_cons, step_opens hopens (by decide) (by decide)]
      rfl
    | cons item items =>
      obtain ⟨key, v⟩ := item
      obtain ⟨d, tail, heq, hd⟩ := ends_dumpsEntries items
      have hnew : key ∉ Dict.keys ([] : List (List Code × Value)) := List.not_mem_nil
      have hentry := run_entry frames (tail ++ .char c :: rest) [] (ih (key, v) List.mem_cons_self) hd
        hnew
      have hrest := run_dumpsEntries frames (.char c :: rest)
        (fun item hitem => ih item (List.mem_cons_of_mem _ hitem)) [(key, v)] hkeys key
      have htail : dumpsEntries items ++ .char c :: rest = .char d :: (tail ++ .char c :: rest) := by
        rw [heq, List.cons_append]
      rw [htail] at hrest
      have hopen : dumps (.dict ((key, v) :: items)) ++ .char c :: rest =
          .char '{' :: .char '"' :: (key.flatMap escape ++
            .char '"' :: .char ':' :: (dumps v ++ .char d :: (tail ++ .char c :: rest))) := by
        simp [dumps, quote, htail]
      rw [hopen, run_cons, step_opens hopens (by decide) (by decide)]
      change Interleaving.run (step float) ⟨.text true [], .dict [] [] :: frames⟩ _ = _
      rw [hentry]
      exact hrest

/-- **The round trip.** -/
theorem loads_dumps (h : Printable float v) : loads float (dumps v) = some v := by
  have hreads := h.reads .value [] ' ' [] trivial (.inl rfl)
  unfold loads
  rw [hreads]
  rfl

end roundTrip

end JsonText
