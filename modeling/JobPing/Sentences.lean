import JobPing.GreedyRuns
import JobPing.PageExtraction

/-!
# Sentences

What the pattern of sentences finds, as one pass over the text (`finditer_sentence`): a run of
characters up to a point, an exclamation or a question mark. A run that ends otherwise is a sentence
at the end of the text only, or before the newline that ends it.
-/

namespace JobPing

open Regex

/-- `[^\n;.!?]`. -/
def inSentence (c : Char) : Bool := !"\n;.!?".toList.contains c

/-- `[.!?]`. -/
def endsSentence (c : Char) : Bool := ".!?".toList.contains c

abbrev SentenceMatch := Match Char PayGroup

/-- The sentences of a text, after a run in reverse that starts at `pos`. -/
def sentencesFrom (pos : ℕ) (run : Str) : Str → List SentenceMatch
  | [] => if run = [] then [] else [⟨pos, pos + run.length, run.reverse, []⟩]
  | c :: rest =>
    if endsSentence c then
      (if run = [] then [] else [⟨pos, pos + run.length + 1, (c :: run).reverse, []⟩]) ++
        sentencesFrom (pos + run.length + 1) [] rest
    else if inSentence c then sentencesFrom pos (c :: run) rest
    else if c = '\n' ∧ rest = [] ∧ run ≠ [] then [⟨pos, pos + run.length, run.reverse, []⟩]
    else sentencesFrom (pos + run.length + 1) [] rest

theorem not_inSentence_of_ends {c : Char} (h : endsSentence c = true) :
    inSentence c = false := by
  simp only [endsSentence, List.contains_iff_mem] at h
  have hc : c = '.' ∨ c = '!' ∨ c = '?' := by simpa using h
  rcases hc with rfl | rfl | rfl <;> decide

/-! ## Matches of sentences -/

variable {c e : Cursor Char PayGroup}

/-- Where a run stops, as a sentence. -/
def sentenceStop (e : Cursor Char PayGroup) : Option (Cursor Char PayGroup) :=
  if e.next endsSentence then some e.step
  else if e.right = [] ∨ (e.right.length = 1 ∧ e.next fun c => c = '\n') then some e
  else none

theorem sentence_matchAt (c : Cursor Char PayGroup) :
    Pattern.sentence.matchAt c =
      if c.next inSentence = true then
        sentenceStop (({ c with groups := [] } : Cursor Char PayGroup).skip inSentence)
      else none := by
  have hstop : ∀ e : Cursor Char PayGroup,
      ((Pattern.among ".!?").alt (.finish fun c => c = '\n')).run e some = sentenceStop e := by
    intro e
    have hrun : ((Pattern.among ".!?").alt (.finish fun c => c = '\n')).run e some =
        (if e.next endsSentence = true then some e.step else none).or
          (if e.right = [] ∨ (e.right.length = 1 ∧ e.next fun c => c = '\n') then some e
            else none) := rfl
    rw [hrun, sentenceStop]
    cases e.next endsSentence <;> simp
  -- no run stops inside of another
  have hinside : ∀ e : Cursor Char PayGroup, e.next inSentence = true →
      sentenceStop e = none := by
    intro e h
    obtain ⟨left, right, groups⟩ := e
    cases right with
    | nil => cases h
    | cons a rest =>
      have ha : inSentence a = true := h
      have hends : endsSentence a ≠ true := fun hends => by
        rw [not_inSentence_of_ends hends] at ha
        cases ha
      have hnewline : a ≠ '\n' := by
        rintro rfl
        revert ha
        decide
      simp [sentenceStop, Cursor.next, hends, hnewline]
  have hrun := run_plus_set (c := { c with groups := [] }) (k := sentenceStop) hinside
  rw [matchAt, Pattern.sentence, run]
  simp only [hstop]
  exact hrun

theorem matchTo_skip (p : Char → Bool) :
    c.matchTo (({ c with groups := [] } : Cursor Char PayGroup).skip p) =
      ⟨c.left.length, c.left.length + (c.right.takeWhile p).length, c.right.takeWhile p, []⟩ := by
  simp only [Cursor.matchTo, Cursor.skip, Cursor.since, List.length_append, List.length_reverse,
    Nat.add_sub_cancel, Match.mk.injEq, true_and, and_true]
  refine ⟨Nat.add_comm _ _, ?_⟩
  have hlength : (c.right.takeWhile p).length = (c.right.takeWhile p).reverse.length :=
    List.length_reverse.symm
  rw [hlength, List.take_left, List.reverse_reverse]

theorem matchTo_skip_step {p : Char → Bool} {a : Char} {rest : Str}
    (h : c.right.dropWhile p = a :: rest) :
    c.matchTo (({ c with groups := [] } : Cursor Char PayGroup).skip p).step =
      ⟨c.left.length, c.left.length + (c.right.takeWhile p).length + 1,
        c.right.takeWhile p ++ [a], []⟩ := by
  simp only [Cursor.matchTo, Cursor.skip, Cursor.step, h, Cursor.since, List.length_cons,
    List.length_append, List.length_reverse, Match.mk.injEq, true_and, and_true]
  refine ⟨by omega, ?_⟩
  have hcount : (c.right.takeWhile p).length + c.left.length + 1 - c.left.length =
      (a :: (c.right.takeWhile p).reverse).length := by
    rw [List.length_cons, List.length_reverse]
    omega
  rw [hcount, ← List.cons_append, List.take_left, List.reverse_cons, List.reverse_reverse]

/-- A run is read character by character. -/
theorem sentencesFrom_run (pos : ℕ) (acc run rest : Str) (hrun : ∀ c ∈ run, inSentence c = true) :
    sentencesFrom pos acc (run ++ rest) = sentencesFrom pos (run.reverse ++ acc) rest := by
  induction run generalizing acc with
  | nil => rfl
  | cons a run ih =>
    have ha := hrun a List.mem_cons_self
    have hends : endsSentence a ≠ true := fun hends => by
      rw [not_inSentence_of_ends hends] at ha
      cases ha
    rw [List.cons_append, sentencesFrom, if_neg hends, if_pos ha,
      ih _ fun c hc => hrun c (List.mem_cons_of_mem _ hc)]
    simp

/-- A character of no run is passed over before a run. -/
theorem sentencesFrom_cons {pos : ℕ} {a : Char} {rest : Str} (ha : inSentence a = false) :
    sentencesFrom pos [] (a :: rest) = sentencesFrom (pos + 1) [] rest := by
  rw [sentencesFrom, ha]
  split_ifs <;> simp_all

/-- A run that stops nowhere is passed over. -/
theorem found_sentence_skip (hnext : c.next inSentence = true)
    (hstop : sentenceStop
      (({ c with groups := [] } : Cursor Char PayGroup).skip inSentence) = none) :
    Pattern.sentence.found c = Pattern.sentence.found (c.skip inSentence) := by
  induction hn : c.right.length generalizing c with
  | zero =>
    have hnil := List.length_eq_zero_iff.mp hn
    exact absurd hnil (Cursor.right_ne_nil_of_next hnext)
  | succ n ih =>
    have hne := Cursor.right_ne_nil_of_next hnext
    have hlength := Cursor.step_right_length hne
    have hnone : Pattern.sentence.matchAt c = none := by
      rw [sentence_matchAt, if_pos hnext, hstop]
    rw [found_of_none hnone, if_neg hne]
    cases hstep : c.step.next inSentence with
    | false => rw [← Cursor.skip_of_not_next hstep, Cursor.skip_step hnext]
    | true =>
      have hsame := Cursor.skip_step (c := ({ c with groups := [] } : Cursor Char PayGroup)) hnext
      have hclear : ({ c with groups := [] } : Cursor Char PayGroup).step =
          { c.step with groups := [] } := by
        cases hright : c.right <;> simp [Cursor.step, hright]
      rw [← hsame, hclear] at hstop
      rw [ih hstep hstop (by omega), Cursor.skip_step hnext]

theorem not_inSentence_of_dropWhile {s : Str} {a : Char} {rest : Str}
    (h : s.dropWhile inSentence = a :: rest) : inSentence a = false := by
  have hhead := List.head?_dropWhile_not inSentence s
  rw [h] at hhead
  simpa using hhead

theorem length_takeWhile_pos (hnext : c.next inSentence = true) :
    0 < (c.right.takeWhile inSentence).length := by
  obtain ⟨a, rest, hright⟩ := List.exists_cons_of_ne_nil (Cursor.right_ne_nil_of_next hnext)
  have ha : inSentence a = true := by simpa [Cursor.next, hright] using hnext
  simp [hright, ha]

theorem length_right (c : Cursor Char PayGroup) :
    (c.right.takeWhile inSentence).length + (c.right.dropWhile inSentence).length =
      c.right.length := by
  rw [← List.length_append, List.takeWhile_append_dropWhile]

/-- A run at the end of the text, or before the newline that ends it, is a sentence. -/
theorem found_run_end (hnext : c.next inSentence = true)
    (hrest : c.right.dropWhile inSentence = [] ∨ c.right.dropWhile inSentence = ['\n']) :
    Pattern.sentence.found c =
      ⟨c.left.length, c.left.length + (c.right.takeWhile inSentence).length,
        c.right.takeWhile inSentence, []⟩ ::
      Pattern.sentence.found
        (({ c with groups := [] } : Cursor Char PayGroup).skip inSentence) := by
  have hstop : sentenceStop (({ c with groups := [] } : Cursor Char PayGroup).skip inSentence) =
      some (({ c with groups := [] } : Cursor Char PayGroup).skip inSentence) := by
    have hnewline : endsSentence '\n' = false := by decide
    rcases hrest with hrest | hrest <;>
      simp [sentenceStop, Cursor.skip, Cursor.next, hrest, hnewline]
  have hmatch := sentence_matchAt c
  rw [if_pos hnext, hstop] at hmatch
  rw [found_of_match hmatch ?_, matchTo_skip]
  have hpos := length_takeWhile_pos hnext
  have hlength := length_right c
  simp only [Cursor.skip]
  omega

/-- A run before a character that ends sentences is a sentence with it. -/
theorem found_run_closed {a : Char} {rest : Str} (hnext : c.next inSentence = true)
    (hrest : c.right.dropWhile inSentence = a :: rest) (hends : endsSentence a = true) :
    Pattern.sentence.found c =
      ⟨c.left.length, c.left.length + (c.right.takeWhile inSentence).length + 1,
        c.right.takeWhile inSentence ++ [a], []⟩ ::
      Pattern.sentence.found
        (({ c with groups := [] } : Cursor Char PayGroup).skip inSentence).step := by
  have hstop : sentenceStop (({ c with groups := [] } : Cursor Char PayGroup).skip inSentence) =
      some (({ c with groups := [] } : Cursor Char PayGroup).skip inSentence).step := by
    simp [sentenceStop, Cursor.skip, Cursor.next, hrest, hends]
  have hmatch := sentence_matchAt c
  rw [if_pos hnext, hstop] at hmatch
  rw [found_of_match hmatch ?_, matchTo_skip_step hrest]
  have hlength := length_right c
  rw [hrest, List.length_cons] at hlength
  simp only [Cursor.skip, Cursor.step, hrest]
  omega

/-- Any other run is passed over with the character after it. -/
theorem found_run_open {a : Char} {rest : Str} (hnext : c.next inSentence = true)
    (hrest : c.right.dropWhile inSentence = a :: rest) (hends : endsSentence a = false)
    (hlast : ¬(a = '\n' ∧ rest = [])) :
    Pattern.sentence.found c = Pattern.sentence.found (c.skip inSentence).step := by
  have hstop : sentenceStop
      (({ c with groups := [] } : Cursor Char PayGroup).skip inSentence) = none := by
    simp only [sentenceStop, Cursor.skip, Cursor.next, hrest, List.head?_cons, Option.any_some,
      hends, Bool.false_eq_true, if_false, reduceCtorEq, false_or, List.length_cons,
      decide_eq_true_eq]
    rw [if_neg]
    rintro ⟨hone, rfl⟩
    exact hlast ⟨rfl, List.length_eq_zero_iff.mp (by omega)⟩
  have ha : inSentence a = false := not_inSentence_of_dropWhile hrest
  have hskip : (c.skip inSentence).next inSentence = false := by
    simp [Cursor.skip, Cursor.next, hrest, ha]
  have hnone : Pattern.sentence.matchAt (c.skip inSentence) = none := by
    rw [sentence_matchAt, hskip, if_neg Bool.false_ne_true]
  rw [found_sentence_skip hnext hstop, found_of_none hnone, if_neg (by simp [Cursor.skip, hrest])]

/-- The sentences from a cursor on. -/
theorem found_sentence (c : Cursor Char PayGroup) :
    Pattern.sentence.found c = sentencesFrom c.left.length [] c.right := by
  induction hn : c.right.length using Nat.strong_induction_on generalizing c with
  | _ n ih =>
    cases hnext : c.next inSentence with
    | false =>
      have hnone : Pattern.sentence.matchAt c = none := by
        rw [sentence_matchAt, hnext, if_neg Bool.false_ne_true]
      rw [found_of_none hnone]
      cases hright : c.right with
      | nil => rw [if_pos rfl, sentencesFrom, if_pos rfl]
      | cons a rest =>
        have ha : inSentence a = false := by simpa [Cursor.next, hright] using hnext
        have hstep : c.step = ⟨a :: c.left, rest, c.groups⟩ := by rw [Cursor.step, hright]
        have hlength : c.step.right.length < n := by simp [hstep, ← hn, hright]
        rw [if_neg (List.cons_ne_nil _ _), ih _ hlength _ rfl, sentencesFrom_cons ha, hstep]
        rfl
    | true =>
      have hpos := length_takeWhile_pos hnext
      have hlength := length_right c
      have hreverse : (c.right.takeWhile inSentence).reverse ≠ [] :=
        mt List.reverse_eq_nil_iff.mp (List.ne_nil_of_length_pos hpos)
      have hfrom : sentencesFrom c.left.length [] c.right =
          sentencesFrom c.left.length (c.right.takeWhile inSentence).reverse
            (c.right.dropWhile inSentence) := by
        conv_lhs => rw [← List.takeWhile_append_dropWhile (p := inSentence) (l := c.right)]
        rw [sentencesFrom_run _ _ _ _ fun a ha => List.mem_takeWhile_imp ha, List.append_nil]
      rw [hfrom]
      cases hrest : c.right.dropWhile inSentence with
      | nil =>
        rw [hrest, List.length_nil] at hlength
        rw [found_run_end hnext (.inl hrest), ih _ ?_ _ rfl]
        · simp only [Cursor.skip, hrest]
          rw [sentencesFrom, sentencesFrom, if_pos rfl, if_neg hreverse, List.reverse_reverse,
            List.length_reverse]
        · simp only [Cursor.skip, hrest, List.length_nil]
          omega
      | cons a rest =>
        have ha : inSentence a = false := not_inSentence_of_dropWhile hrest
        rw [hrest, List.length_cons] at hlength
        cases hends : endsSentence a with
        | true =>
          rw [found_run_closed hnext hrest hends, ih _ ?_ _ rfl]
          · rw [sentencesFrom, if_pos hends, if_neg hreverse, List.length_reverse,
              List.reverse_cons, List.reverse_reverse]
            simp [Cursor.skip, Cursor.step, hrest, Nat.add_comm]
          · simp only [Cursor.skip, Cursor.step, hrest]
            omega
        | false =>
          by_cases hlast : a = '\n' ∧ rest = []
          · obtain ⟨rfl, rfl⟩ := hlast
            rw [found_run_end hnext (.inr hrest), ih _ ?_ _ rfl]
            · simp only [Cursor.skip, hrest]
              rw [sentencesFrom_cons ha, sentencesFrom, sentencesFrom, if_pos rfl, hends, ha,
                if_neg Bool.false_ne_true, if_neg Bool.false_ne_true, if_pos ⟨rfl, rfl, hreverse⟩,
                List.reverse_reverse, List.length_reverse]
            · simp only [Cursor.skip, hrest, List.length_cons]
              omega
          · rw [found_run_open hnext hrest hends hlast, ih _ ?_ _ rfl]
            · rw [sentencesFrom, hends, ha, if_neg Bool.false_ne_true, if_neg Bool.false_ne_true,
                if_neg fun h => hlast ⟨h.1, h.2.1⟩, List.length_reverse]
              simp [Cursor.skip, Cursor.step, hrest, Nat.add_comm]
            · simp only [Cursor.skip, Cursor.step, hrest]
              omega

/-- **The sentences of a text**, in one pass. -/
theorem finditer_sentence (text : Str) :
    Pattern.sentence.finditer text = sentencesFrom 0 [] text := by
  rw [finditer_eq, found_sentence]
  rfl

/-! ## Lines -/

/-- The same match further on in the text. -/
def shifted (n : ℕ) (m : SentenceMatch) : SentenceMatch :=
  { m with start := m.start + n, stop := m.stop + n }

/-- The sentence has its end. -/
def ended (m : SentenceMatch) : Bool := m.text.getLast?.any endsSentence

variable {line rest run : Str} {pos n : ℕ}

theorem sentencesFrom_shift (n pos : ℕ) (run text : Str) :
    sentencesFrom (pos + n) run text = (sentencesFrom pos run text).map (shifted n) := by
  induction text generalizing pos run with
  | nil =>
    rw [sentencesFrom, sentencesFrom]
    split_ifs
    · rfl
    · simp [shifted, Nat.add_right_comm]
  | cons a rest ih =>
    have hnext : sentencesFrom (pos + n + run.length + 1) [] rest =
        (sentencesFrom (pos + run.length + 1) [] rest).map (shifted n) := by
      rw [← ih]
      congr 1
      omega
    rw [sentencesFrom, sentencesFrom]
    split_ifs
    · rw [List.nil_append, List.nil_append, hnext]
    · rw [List.map_append, hnext]
      simp [shifted, Nat.add_right_comm]
    · exact ih pos (a :: run)
    · simp [shifted, Nat.add_right_comm]
    · exact hnext

theorem not_ended_run (hrun : ∀ c ∈ run, inSentence c = true) (hne : run ≠ []) {start stop : ℕ} :
    ended ⟨start, stop, run.reverse, []⟩ = false := by
  obtain ⟨a, run, rfl⟩ := List.exists_cons_of_ne_nil hne
  have ha := hrun a List.mem_cons_self
  cases hends : endsSentence a with
  | true => rw [not_inSentence_of_ends hends] at ha; cases ha
  | false => simp [ended, hends]

theorem ended_run {a : Char} (h : endsSentence a = true) {start stop : ℕ} :
    ended ⟨start, stop, (a :: run).reverse, []⟩ = true := by
  simp [ended, h]

theorem sentencesFrom_newline_cons (pos : ℕ) (run rest : Str) :
    sentencesFrom pos run ('\n' :: rest) =
      if rest = [] ∧ run ≠ [] then [⟨pos, pos + run.length, run.reverse, []⟩]
      else sentencesFrom (pos + run.length + 1) [] rest := by
  have hends : endsSentence '\n' = false := by decide
  have hin : inSentence '\n' = false := by decide
  rw [sentencesFrom, hends, hin]
  simp

/-- **A line before another one** loses the sentence that has no end. -/
theorem sentencesFrom_line (hline : '\n' ∉ line) (hrest : rest ≠ [])
    (hrun : ∀ c ∈ run, inSentence c = true) :
    sentencesFrom pos run (line ++ '\n' :: rest) =
      (sentencesFrom pos run line).filter ended ++
        sentencesFrom (pos + run.length + line.length + 1) [] rest := by
  induction line generalizing pos run with
  | nil =>
    rw [List.nil_append, sentencesFrom_newline_cons, if_neg fun h => hrest h.1, sentencesFrom]
    split_ifs with hnil
    · rfl
    · rw [List.filter_cons_of_neg (by simp [not_ended_run hrun hnil])]
      rfl
  | cons a line ih =>
    have hnext : a ≠ '\n' := fun h => hline (h ▸ List.mem_cons_self)
    have hline' : '\n' ∉ line := fun h => hline (List.mem_cons_of_mem _ h)
    rw [List.cons_append, sentencesFrom, sentencesFrom]
    cases hends : endsSentence a with
    | true =>
      rw [if_pos rfl, if_pos rfl, ih hline' (by simp), List.filter_append]
      have hkept : (if run = [] then []
          else [⟨pos, pos + run.length + 1, (a :: run).reverse, []⟩] : List SentenceMatch).filter
            ended = if run = [] then []
              else [⟨pos, pos + run.length + 1, (a :: run).reverse, []⟩] := by
        split_ifs
        · rfl
        · rw [List.filter_cons_of_pos (ended_run hends), List.filter_nil]
      rw [hkept, List.append_assoc]
      congr 3
      simp only [List.length_nil, List.length_cons]
      omega
    | false =>
      rw [if_neg Bool.false_ne_true, if_neg Bool.false_ne_true]
      cases hin : inSentence a with
      | true =>
        rw [if_pos rfl, if_pos rfl, ih hline' (List.forall_mem_cons.mpr ⟨hin, hrun⟩)]
        congr 2
        simp only [List.length_cons]
        omega
      | false =>
        rw [if_neg Bool.false_ne_true, if_neg Bool.false_ne_true, if_neg fun h => hnext h.1,
          if_neg fun h => hnext h.1, ih hline' (by simp)]
        congr 2
        simp only [List.length_nil, List.length_cons]
        omega

/-- The newline that ends the text ends no sentence. -/
theorem sentencesFrom_newline (hline : '\n' ∉ line) :
    sentencesFrom pos run (line ++ ['\n']) = sentencesFrom pos run line := by
  induction line generalizing pos run with
  | nil =>
    rw [List.nil_append, sentencesFrom_newline_cons, sentencesFrom, sentencesFrom]
    split_ifs <;> simp_all
  | cons a line ih =>
    have hnext : a ≠ '\n' := fun h => hline (h ▸ List.mem_cons_self)
    have hline' : '\n' ∉ line := fun h => hline (List.mem_cons_of_mem _ h)
    rw [List.cons_append, sentencesFrom, sentencesFrom, ih hline', ih hline',
      if_neg (fun h => hnext h.1 : ¬(a = '\n' ∧ line ++ ['\n'] = [] ∧ run ≠ [])),
      if_neg (fun h => hnext h.1 : ¬(a = '\n' ∧ line = [] ∧ run ≠ []))]

/-- In a line, at most the last sentence has no end. -/
theorem sentencesFrom_ended (hline : '\n' ∉ line) (hrun : ∀ c ∈ run, inSentence c = true) :
    sentencesFrom pos run line = (sentencesFrom pos run line).filter ended ++
      (sentencesFrom pos run line).filter fun m => !ended m := by
  induction line generalizing pos run with
  | nil =>
    rw [sentencesFrom]
    split_ifs with hnil
    · rfl
    · simp [not_ended_run hrun hnil]
  | cons a line ih =>
    have hnext : a ≠ '\n' := fun h => hline (h ▸ List.mem_cons_self)
    have hline' : '\n' ∉ line := fun h => hline (List.mem_cons_of_mem _ h)
    have hnewline : ¬(a = '\n' ∧ line = [] ∧ run ≠ []) := fun h => hnext h.1
    rw [sentencesFrom]
    cases hends : endsSentence a with
    | true =>
      rw [if_pos rfl]
      have hlater : sentencesFrom (pos + run.length + 1) [] line = _ := ih hline' (by simp)
      split_ifs with hnil
      · exact hlater
      · simp only [List.filter_cons, ended_run hends, if_pos,
          Bool.not_true, Bool.false_eq_true, if_false, List.cons_append]
        exact congrArg _ hlater
    | false =>
      rw [if_neg Bool.false_ne_true]
      cases hin : inSentence a with
      | true =>
        rw [if_pos rfl]
        exact ih hline' (List.forall_mem_cons.mpr ⟨hin, hrun⟩)
      | false =>
        rw [if_neg Bool.false_ne_true, if_neg hnewline]
        exact ih hline' (by simp)

end JobPing
