import JobPing.JsonText
import Mathlib.Data.Char
import Mathlib.Data.List.Lex
import Mathlib.Data.List.Sort

/-!
# Loaded values

What is loaded from a text can be dumped again (`printable_of_loads`), and no dumped text has a
control character (`Printable.plain`).
-/

namespace JsonText

section loaded

variable (float : List Char → List Char)

/-- What a number is shown as is read as the same float. -/
def Faithful : Prop :=
  ∀ negative text shown, readNumber float negative text = some (.float shown) → Shown float shown

def Frame.Printable : Frame → Prop
  | .list items => ∀ v ∈ items, JsonText.Printable float v
  | .dict items _ => (Dict.keys items).Nodup ∧ ∀ item ∈ items, JsonText.Printable float item.2

/-- The values that have been read can be dumped. -/
structure State.Printable (s : State) : Prop where
  frames : ∀ frame ∈ s.frames, frame.Printable float
  done : ∀ v, s.mode = .done v → JsonText.Printable float v

variable {float} {frames : List Frame} {c : Char} {text : List Char} {v : Value} {s s' : State}

theorem of_digit_chars_lt {digits : List Char} (hdigits : ∀ c ∈ digits, c.isDigit = true) (n : ℕ) :
    Nat.ofDigitChars 10 digits n < 10 ^ digits.length * (n + 1) := by
  induction digits generalizing n with
  | nil => simp
  | cons c digits ih =>
    have hc : c.toNat - '0'.toNat < 10 := by
      have hdigit := hdigits c List.mem_cons_self
      simp only [Char.isDigit, Bool.and_eq_true, decide_eq_true_eq] at hdigit
      have hle : c.toNat ≤ 57 := hdigit.2
      have hzero : '0'.toNat = 48 := rfl
      omega
    have hrest := ih (fun c hc => hdigits c (List.mem_cons_of_mem _ hc))
      (10 * n + (c.toNat - '0'.toNat))
    rw [Nat.ofDigitChars_cons, List.length_cons, pow_succ]
    refine hrest.trans_le ?_
    rw [mul_assoc]
    exact Nat.mul_le_mul_left _ (by omega)

theorem printable_of_readNumber (hfloat : Faithful float) {negative : Bool}
    (h : readNumber float negative text = some v) : Printable float v := by
  have hread := h
  unfold readNumber at h
  simp only at h
  -- a whole number has no more digits than its text
  have hlength : (text.takeWhile Char.isDigit).length ≤ maxDigits → (Nat.toDigits 10
      (Nat.ofDigitChars 10 (text.takeWhile Char.isDigit) 0)).length ≤ maxDigits := fun hlong => by
    refine (Nat.length_toDigits_le_iff (by decide) (by decide)).mpr ?_
    refine (of_digit_chars_lt (fun c hc => List.mem_takeWhile_imp hc) 0).trans_le ?_
    rw [Nat.zero_add, mul_one]
    exact Nat.pow_le_pow_right (by decide) hlong
  split_ifs at h with hdigits hwhole hlong hneg htail
  · obtain rfl := Option.some.inj h
    refine .int _ ?_
    rw [Int.natAbs_neg, Int.natAbs_natCast]
    exact hlength (not_lt.mp hlong)
  · obtain rfl := Option.some.inj h
    refine .int _ ?_
    rw [Int.natAbs_natCast]
    exact hlength (not_lt.mp hlong)
  all_goals
    obtain rfl := Option.some.inj h
    exact .float _ (hfloat negative text _ hread)

theorem printable_of_readAtom (hfloat : Faithful float) (h : readAtom float text = some v) :
    Printable float v := by
  unfold readAtom at h
  split_ifs at h with hnull htrue hfalse hconstant
  · cases h
    exact .null
  · cases h
    exact .bool true
  · cases h
    exact .bool false
  · cases h
    simp only [Bool.or_eq_true, decide_eq_true_eq] at hconstant
    rcases hconstant with (rfl | rfl) | rfl <;>
      exact .float _ ⟨by decide, List.all_iff_forall_prop.mp (by decide), rfl⟩
  · split at h
    · exact printable_of_readNumber hfloat h
    · exact printable_of_readNumber hfloat h

theorem printable_push (hv : Printable float v)
    (hframes : ∀ frame ∈ frames, frame.Printable float) : (push v frames).Printable float := by
  cases frames with
  | nil => exact ⟨fun _ h => (by cases h), fun w h => by cases h; exact hv⟩
  | cons frame frames =>
    obtain ⟨hframe, hrest⟩ := List.forall_mem_cons.mp hframes
    cases frame with
    | list items =>
      have hitems : ∀ w ∈ items ++ [v], JsonText.Printable float w :=
        List.forall_mem_append.mpr ⟨hframe, List.forall_mem_singleton.mpr hv⟩
      exact ⟨List.forall_mem_cons.mpr ⟨hitems, hrest⟩, fun _ h => by cases h⟩
    | dict items key =>
      obtain ⟨hkeys, hitems⟩ := hframe
      have hset : ∀ item ∈ Dict.set key v items, JsonText.Printable float item.2 :=
        fun item hitem => by
          rcases Dict.mem_set hitem with rfl | hitem
          · exact hv
          · exact hitems item hitem
      exact ⟨List.forall_mem_cons.mpr ⟨⟨Dict.nodup_keys_set hkeys, hset⟩, hrest⟩,
        fun _ h => by cases h⟩

/-- A new mode that is not the end. -/
theorem State.Printable.mode (h : s.Printable float) {mode : Mode} (hmode : ∀ v, mode ≠ .done v) :
    State.Printable float { s with mode := mode } :=
  ⟨h.frames, fun v hv => absurd hv (hmode v)⟩

theorem printable_afterValue (hframes : ∀ frame ∈ frames, frame.Printable float)
    (h : afterValue c frames = some s) : s.Printable float := by
  unfold afterValue at h
  split at h
  next items frames =>
    obtain ⟨hitems, hrest⟩ := List.forall_mem_cons.mp hframes
    split_ifs at h <;> cases h
    · exact ⟨hframes, fun _ h => by cases h⟩
    · exact printable_push (.list items hitems) hrest
  next items key frames =>
    obtain ⟨⟨hkeys, hitems⟩, hrest⟩ := List.forall_mem_cons.mp hframes
    split_ifs at h <;> cases h
    · exact ⟨hframes, fun _ h => by cases h⟩
    · exact printable_push (.dict items hkeys hitems) hrest
  next => cases h

theorem printable_beginValue (hframes : ∀ frame ∈ frames, frame.Printable float)
    (h : beginValue c frames = some s) : s.Printable float := by
  have hopen : ∀ frame : Frame, frame.Printable float → ∀ f ∈ frame :: frames,
      f.Printable float := fun frame hframe => List.forall_mem_cons.mpr ⟨hframe, hframes⟩
  unfold beginValue at h
  split_ifs at h <;> cases h
  · exact ⟨hframes, fun _ h => by cases h⟩
  · exact ⟨hopen (.list []) fun _ h => (by cases h), fun _ h => by cases h⟩
  · exact ⟨hopen (.dict [] []) ⟨List.nodup_nil, fun _ h => (by cases h)⟩, fun _ h => by cases h⟩
  · exact ⟨hframes, fun _ h => by cases h⟩

theorem printable_pushText {isKey : Bool} {text : List Code}
    (hframes : ∀ frame ∈ frames, frame.Printable float) (h : pushText isKey text frames = some s) :
    s.Printable float := by
  unfold pushText at h
  split at h
  · cases h
    exact printable_push (.str text) hframes
  next items known frames =>
    cases h
    obtain ⟨hframe, hrest⟩ := List.forall_mem_cons.mp hframes
    exact ⟨List.forall_mem_cons.mpr ⟨hframe, hrest⟩, fun _ h => by cases h⟩
  · cases h

theorem unicode_ne_done {isKey : Bool} {read : List Code} {n : ℕ} (v : Value) :
    unicode isKey read n ≠ .done v := by
  unfold unicode
  split_ifs <;> simp

theorem secondUnicode_ne_done {isKey : Bool} {read : List Code} {high n : ℕ} (v : Value) :
    secondUnicode isKey read high n ≠ .done v := by
  unfold secondUnicode
  split_ifs
  · simp
  · exact unicode_ne_done v

theorem printable_textStep {isKey : Bool} {read : List Code}
    (hframes : ∀ frame ∈ frames, frame.Printable float)
    (h : textStep isKey read c frames = some s) : s.Printable float := by
  unfold textStep at h
  split_ifs at h
  · exact printable_pushText hframes h
  all_goals
    cases h
    exact ⟨hframes, fun _ h => by cases h⟩

/-- **A character** keeps what has been read in order. -/
theorem State.Printable.charStep (hfloat : Faithful float) (h : s.Printable float)
    (hstep : JsonText.charStep float c s = some s') : s'.Printable float := by
  obtain ⟨mode, frames⟩ := s
  have hmode : ∀ {mode : Mode}, (∀ v, mode ≠ .done v) → State.Printable float ⟨mode, frames⟩ :=
    fun hmode => h.mode hmode
  unfold JsonText.charStep at hstep
  cases mode with
  | value =>
    simp only at hstep
    split_ifs at hstep
    · cases hstep
      exact h
    · exact printable_beginValue h.frames hstep
  | firstItem =>
    simp only at hstep
    split_ifs at hstep
    · cases hstep
      exact h
    · exact printable_afterValue h.frames hstep
    · exact printable_beginValue h.frames hstep
  | firstKey =>
    simp only at hstep
    split_ifs at hstep
    · cases hstep
      exact h
    · exact printable_afterValue h.frames hstep
    · cases hstep
      exact hmode (by simp)
  | key =>
    simp only at hstep
    split_ifs at hstep <;> cases hstep
    · exact h
    · exact hmode (by simp)
  | colon =>
    simp only at hstep
    split_ifs at hstep <;> cases hstep
    · exact h
    · exact hmode (by simp)
  | after =>
    simp only at hstep
    split_ifs at hstep
    · cases hstep
      exact h
    · exact printable_afterValue h.frames hstep
  | text isKey read => exact printable_textStep h.frames hstep
  | escape isKey read =>
    simp only at hstep
    split_ifs at hstep
    · cases hstep
      exact hmode (by simp)
    · obtain ⟨d, -, rfl⟩ := Option.map_eq_some_iff.mp hstep
      exact hmode (by simp)
  | surrogate isKey read high =>
    simp only at hstep
    split_ifs at hstep
    · cases hstep
      exact hmode (by simp)
    · exact printable_textStep h.frames hstep
  | second isKey read high =>
    simp only at hstep
    split_ifs at hstep
    · cases hstep
      exact hmode (by simp)
    · obtain ⟨d, -, rfl⟩ := Option.map_eq_some_iff.mp hstep
      exact hmode (by simp)
  | hex isKey read high digits =>
    obtain ⟨digit, -, rfl⟩ := Option.map_eq_some_iff.mp hstep
    split_ifs
    · exact hmode (by simp)
    · cases high with
      | none => exact hmode unicode_ne_done
      | some high => exact hmode secondUnicode_ne_done
  | atom read =>
    simp only at hstep
    split_ifs at hstep
    · cases hstep
      exact hmode (by simp)
    · obtain ⟨v, hread, hstep⟩ := Option.bind_eq_some_iff.mp hstep
      cases hstep
      exact printable_push (printable_of_readAtom hfloat hread) h.frames
    · obtain ⟨v, hread, hstep⟩ := Option.bind_eq_some_iff.mp hstep
      have hpushed := printable_push (printable_of_readAtom hfloat hread) h.frames
      exact printable_afterValue hpushed.frames hstep
  | done v =>
    simp only at hstep
    split_ifs at hstep
    cases hstep
    exact h

/-- Half of a pair goes into the string that is read. -/
theorem State.Printable.step {code : Code} (hfloat : Faithful float) (h : s.Printable float)
    (hstep : JsonText.step float code s = some s') : s'.Printable float := by
  cases code with
  | char c => exact h.charStep hfloat hstep
  | half n surrogate =>
    unfold JsonText.step at hstep
    split at hstep
    next heq => cases heq
    split at hstep <;> cases hstep
    all_goals exact h.mode (by simp)

theorem le_of_mem_escapeChar {d : Char} (h : d ∈ escapeChar c) : 32 ≤ d.toNat := by
  have hdigit : ∀ n < 16, 32 ≤ (Nat.digitChar n).toNat := by decide
  unfold escapeChar at h
  split_ifs at h with hquote hslash hn hr ht hb hf hcontrol
  all_goals simp only [List.mem_cons, List.not_mem_nil, or_false] at h
  · rcases h with rfl | rfl <;> decide
  · rcases h with rfl | rfl <;> decide
  · rcases h with rfl | rfl <;> decide
  · rcases h with rfl | rfl <;> decide
  · rcases h with rfl | rfl <;> decide
  · rcases h with rfl | rfl <;> decide
  · rcases h with rfl | rfl <;> decide
  · rcases h with rfl | rfl | rfl | rfl | rfl | rfl
    · decide
    · decide
    · decide
    · decide
    · exact hdigit _ (by omega)
    · exact hdigit _ (by omega)
  · subst h
    exact not_lt.mp hcontrol

/-- A dumped text has no control character. -/
def Plain (text : List Code) : Prop := ∀ code ∈ text, 32 ≤ code.toNat

theorem plain_codes (h : ∀ c ∈ text, 32 ≤ c.toNat) : Plain (codes text) := by
  intro code hcode
  obtain ⟨c, hc, rfl⟩ := List.mem_map.mp hcode
  exact h c hc

theorem Plain.cons {text : List Code} (hc : 32 ≤ c.toNat) (h : Plain text) : Plain (.char c :: text) :=
  List.forall_mem_cons.mpr ⟨hc, h⟩

theorem Plain.append {text text' : List Code} (h : Plain text) (h' : Plain text') :
    Plain (text ++ text') := fun code hcode => (List.mem_append.mp hcode).elim (h code) (h' code)

theorem plain_escape (code : Code) : Plain (escape code) := by
  cases code with
  | char c => exact plain_codes fun d hd => le_of_mem_escapeChar hd
  | half n surrogate =>
    intro code hcode
    rw [List.mem_singleton.mp hcode]
    exact le_trans (by decide) surrogate.1

theorem plain_quote (text : List Code) : Plain (quote text) := by
  refine Plain.append (Plain.cons (by decide) fun code hcode => ?_) (@plain_codes ['"'] ?_)
  · obtain ⟨c, -, hc⟩ := List.mem_flatMap.mp hcode
    exact plain_escape c code hc
  · exact List.all_iff_forall_prop.mp (by decide)

theorem le_of_isAtomChar (h : isAtomChar c = true) : 32 ≤ c.toNat := by
  by_contra hlt
  have hsmall : ∀ n < 32, isAtomChar (Char.ofNat n) = false := by decide
  have hfalse := hsmall c.toNat (not_le.mp hlt)
  rw [Char.ofNat_toNat, h] at hfalse
  cases hfalse

theorem plain_dumpsItems {items : List Value} (h : ∀ v ∈ items, Plain (dumps v)) :
    Plain (dumpsItems items) := by
  induction items with
  | nil => exact @plain_codes [']'] (List.all_iff_forall_prop.mp (by decide))
  | cons v items ih =>
    exact ((h v List.mem_cons_self).append (ih fun v hv => h v (List.mem_cons_of_mem _ hv))).cons
      (by decide)

theorem plain_entry {key : List Code} {tail : List Code} (hv : Plain (dumps v))
    (htail : Plain tail) : Plain (quote key ++ .char ':' :: dumps v ++ tail) :=
  ((plain_quote key).append (hv.cons (by decide))).append htail

theorem plain_dumpsEntries {items : List (List Code × Value)}
    (h : ∀ item ∈ items, Plain (dumps item.2)) : Plain (dumpsEntries items) := by
  induction items with
  | nil => exact @plain_codes ['}'] (List.all_iff_forall_prop.mp (by decide))
  | cons item items ih =>
    obtain ⟨key, v⟩ := item
    exact (plain_entry (h (key, v) List.mem_cons_self)
      (ih fun item hitem => h item (List.mem_cons_of_mem _ hitem))).cons (by decide)

/-- **No dumped text has a control character.** -/
theorem Printable.plain (h : Printable float v) : Plain (dumps v) := by
  induction h with
  | null => exact plain_codes (List.all_iff_forall_prop.mp (by decide))
  | bool value =>
    cases value <;> exact plain_codes (List.all_iff_forall_prop.mp (by decide))
  | int n hn =>
    refine plain_codes fun c hc => ?_
    rcases showInt_chars hc with hdigit | rfl
    · exact le_of_isAtomChar (by simp [isAtomChar, Char.isAlphanum, hdigit])
    · decide
  | float shown hshown => exact plain_codes fun c hc => le_of_isAtomChar (hshown.2.1 c hc)
  | str text => exact plain_quote text
  | list items hitems ih =>
    cases items with
    | nil => exact @plain_codes ['[', ']'] (List.all_iff_forall_prop.mp (by decide))
    | cons v items =>
      exact ((ih v List.mem_cons_self).cons (by decide)).append
        (plain_dumpsItems fun v hv => ih v (List.mem_cons_of_mem _ hv))
  | dict items hkeys hitems ih =>
    cases items with
    | nil => exact @plain_codes ['{', '}'] (List.all_iff_forall_prop.mp (by decide))
    | cons item items =>
      obtain ⟨key, v⟩ := item
      exact (plain_entry (ih (key, v) List.mem_cons_self)
        (plain_dumpsEntries fun item hitem => ih item (List.mem_cons_of_mem _ hitem))).cons
          (by decide)

/-! ## Sorted keys -/

/-- Keys are in the order of their code points. -/
def keyOrder (key key' : List Code) : Prop := key.map Code.toNat ≤ key'.map Code.toNat

instance : DecidableRel keyOrder := fun _ _ => inferInstanceAs (Decidable (_ ≤ _))

mutual

/-- The value whose dictionaries are in the order of their keys. -/
def sortKeys : Value → Value
  | .list items => .list (sortKeysItems items)
  | .dict items => .dict ((sortKeysEntries items).insertionSort fun a b => keyOrder a.1 b.1)
  | .null => .null
  | .bool value => .bool value
  | .int n => .int n
  | .float shown => .float shown
  | .str text => .str text

def sortKeysItems : List Value → List Value
  | [] => []
  | v :: items => sortKeys v :: sortKeysItems items

def sortKeysEntries : List (List Code × Value) → List (List Code × Value)
  | [] => []
  | (key, v) :: items => (key, sortKeys v) :: sortKeysEntries items

end

section sorted

variable {float : List Char → List Char} {v : Value} {key : List Code}
  {items : List (List Code × Value)}

theorem sortKeysItems_eq (items : List Value) : sortKeysItems items = items.map sortKeys := by
  induction items with
  | nil => rfl
  | cons v items ih => rw [sortKeysItems, ih, List.map_cons]

theorem sortKeysEntries_eq (items : List (List Code × Value)) :
    sortKeysEntries items = items.map fun item => (item.1, sortKeys item.2) := by
  induction items with
  | nil => rfl
  | cons item items ih =>
    obtain ⟨key, v⟩ := item
    rw [sortKeysEntries, ih, List.map_cons]

/-- The items of a dictionary, in the order of the keys. -/
def sortedEntries (items : List (List Code × Value)) : List (List Code × Value) :=
  (sortKeysEntries items).insertionSort fun a b => keyOrder a.1 b.1

theorem perm_sortedEntries (items : List (List Code × Value)) :
    (sortedEntries items).Perm (items.map fun item => (item.1, sortKeys item.2)) := by
  rw [sortedEntries, sortKeysEntries_eq]
  exact List.perm_insertionSort _ _

theorem nodup_sortedEntries (h : (Dict.keys items).Nodup) :
    (Dict.keys (sortedEntries items)).Nodup := by
  refine ((perm_sortedEntries items).map Prod.fst).nodup_iff.mpr ?_
  rw [List.map_map]
  exact h

/-- The keys are those from before, with their values sorted. -/
theorem get?_sortedEntries (hkeys : (Dict.keys items).Nodup) (hmem : (key, v) ∈ items) :
    Dict.get? key (sortedEntries items) = some (sortKeys v) := by
  refine Dict.get?_of_mem (nodup_sortedEntries hkeys) ((perm_sortedEntries items).mem_iff.mpr ?_)
  exact List.mem_map.mpr ⟨(key, v), hmem, rfl⟩

theorem Printable.sortKeys (h : Printable float v) : Printable float (sortKeys v) := by
  induction h with
  | null => exact .null
  | bool value => exact .bool value
  | int n hn => exact .int n hn
  | float shown hshown => exact .float shown hshown
  | str text => exact .str text
  | list items hitems ih =>
    rw [JsonText.sortKeys, sortKeysItems_eq]
    refine .list _ fun v hv => ?_
    obtain ⟨w, hw, rfl⟩ := List.mem_map.mp hv
    exact ih w hw
  | dict items hkeys hitems ih =>
    refine .dict _ (nodup_sortedEntries hkeys) fun item hitem => ?_
    obtain ⟨item', hitem', rfl⟩ :=
      List.mem_map.mp ((perm_sortedEntries items).mem_iff.mp hitem)
    exact ih item' hitem'

end sorted

end loaded

end JsonText
