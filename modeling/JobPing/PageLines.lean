import JobPing.EvidenceSpans
import JobPing.Sentences

/-!
# The lines of a page

The clauses of a page are found line by line, but a line that another one follows loses its last
sentence when that has no end (`quotedClauses_lines`).
-/

namespace JobPing

open Regex

variable {L : Libraries} {line rest : Str}

/-! ## Text before and after a newline -/

theorem takeWhile_append_cons {α : Type*} {p : α → Bool} {a : α} (ha : p a = false) (l l' : List α) :
    (l ++ a :: l').takeWhile p = l.takeWhile p := by
  induction l with
  | nil => simp [ha]
  | cons b l ih => cases hb : p b <;> simp [hb, ih]

theorem takeWhile_line (hline : '\n' ∉ line) (rest : Str) :
    (line ++ '\n' :: rest).takeWhile (· ≠ '\n') = line := by
  rw [takeWhile_append_cons (by decide)]
  exact List.takeWhile_eq_self_iff.mpr fun c hc =>
    decide_eq_true fun h => hline (h ▸ hc)

theorem hidePoints_line (line rest : Str) :
    hidePoints (line ++ '\n' :: rest) = hidePoints line ++ '\n' :: hidePoints rest := by
  induction line using hidePoints.induct with
  | case1 line ih => simp [hidePoints, ih]
  | case2 c line hne ih =>
    have hne' : ∀ tail, c = 'U' → line ++ '\n' :: rest = '.' :: 'S' :: '.' :: tail → False := by
      intro tail hc htail
      -- the newline comes after the points
      rcases line with _ | ⟨x, _ | ⟨y, _ | ⟨z, line⟩⟩⟩ <;> simp at htail
      obtain ⟨rfl, rfl, rfl, -⟩ := htail
      exact hne line hc rfl
    rw [List.cons_append, hidePoints.eq_2 _ _ hne', hidePoints.eq_2 _ _ hne, List.cons_append, ih]
  | case3 => simp [hidePoints]

theorem newline_not_mem_hidePoints (hline : '\n' ∉ line) : '\n' ∉ hidePoints line := by
  induction line using hidePoints.induct with
  | case1 line ih => simp_all [hidePoints]
  | case2 c line hne ih => rw [hidePoints.eq_2 _ _ hne]; simp_all
  | case3 => simp [hidePoints]

variable {scan tail : Str} {start stop n : ℕ}

theorem lineAround_line (hscan : '\n' ∉ scan) (hstart : start ≤ scan.length) (tail : Str) :
    lineAround (scan ++ '\n' :: tail) start start = lineAround scan start start := by
  have hdrop : '\n' ∉ scan.drop start := fun h => hscan (List.mem_of_mem_drop h)
  have hself : (scan.drop start).takeWhile (· ≠ '\n') = scan.drop start :=
    List.takeWhile_eq_self_iff.mpr fun c hc => decide_eq_true fun h => hdrop (h ▸ hc)
  rw [lineAround, lineAround, List.take_append_of_le_length hstart,
    List.drop_append_of_le_length hstart, takeWhile_line hdrop, hself, slice, slice, Nat.sub_self,
    List.take_zero, List.take_zero]

theorem drop_line (scan tail : Str) (start : ℕ) :
    (scan ++ '\n' :: tail).drop (start + (scan.length + 1)) = tail.drop start := by
  have hlength : start + (scan.length + 1) = (scan ++ ['\n']).length + start := by
    simp only [List.length_append, List.length_singleton]
    omega
  rw [hlength, List.append_cons scan '\n' tail, List.drop_length_add_append]

theorem lineAround_shift (scan tail : Str) (start : ℕ) :
    lineAround (scan ++ '\n' :: tail) (start + (scan.length + 1)) (start + (scan.length + 1)) =
      lineAround tail start start := by
  have htake : (scan ++ '\n' :: tail).take (start + (scan.length + 1)) =
      scan ++ '\n' :: tail.take start := by
    have hlength : start + (scan.length + 1) = (scan ++ ['\n']).length + start := by
      simp only [List.length_append, List.length_singleton]
      omega
    rw [hlength, List.append_cons scan '\n' tail, List.take_length_add_append, List.append_assoc,
      List.singleton_append]
  have hbefore : (scan ++ '\n' :: tail.take start).reverse =
      (tail.take start).reverse ++ '\n' :: scan.reverse := by simp
  rw [lineAround, lineAround, drop_line, htake, hbefore, takeWhile_append_cons (by decide), slice,
    slice, Nat.sub_self, Nat.sub_self, List.take_zero, List.take_zero]

theorem slice_line (hstop : stop ≤ line.length) (rest : Str) (start : ℕ) :
    slice (line ++ rest) start stop = slice line start stop := by
  rw [slice, slice]
  by_cases hstart : start ≤ line.length
  · rw [List.drop_append_of_le_length hstart, List.take_append_of_le_length]
    rw [List.length_drop]
    omega
  · have hzero : stop - start = 0 := by omega
    rw [hzero, List.take_zero, List.take_zero]

theorem slice_shift (line rest : Str) (start stop : ℕ) :
    slice (line ++ '\n' :: rest) (start + (line.length + 1)) (stop + (line.length + 1)) =
      slice rest start stop := by
  have hcount : stop + (line.length + 1) - (start + (line.length + 1)) = stop - start := by omega
  rw [slice, slice, drop_line, hcount]

/-! ## Clauses -/

variable (L)

/-- What is quoted of some sentences of a text. -/
def clausesOf (text : Str) (sentences : List SentenceMatch) : List Clause :=
  ((sentences.filter (examinedSentence L (hidePoints text))).flatMap
    (sentenceClauses L text)).map (PageClause.quoted L)

/-- The quotes of a text. -/
def quotedClauses (text : Str) : List Clause :=
  clausesOf L text (Pattern.sentence.finditer (hidePoints text))

/-- The quotes of the sentences of a line that have their ends. -/
def heardClauses (line : Str) : List Clause :=
  clausesOf L line ((Pattern.sentence.finditer (hidePoints line)).filter ended)

/-- The quotes of the sentence at the end of a line that has none. -/
def cutClauses (line : Str) : List Clause :=
  clausesOf L line ((Pattern.sentence.finditer (hidePoints line)).filter fun m => !ended m)

/-- No line follows, or only the empty one after the newline that ends the text. -/
def lastLine (rest : List Str) : Bool := rest = [] || rest = [[]]

/-- What `extract` hears of lines. -/
def heard : List Str → List Clause
  | [] => []
  | line :: rest => (if lastLine rest then quotedClauses L line else heardClauses L line) ++ heard rest

/-- What it does not hear of them. -/
def cut : List Str → List Clause
  | [] => []
  | line :: rest => (if lastLine rest then [] else cutClauses L line) ++ cut rest

variable {L} {ms : List SentenceMatch}

theorem quotedClauses_eq (text : Str) :
    quotedClauses L text = (pageClauses L text).map (PageClause.quoted L) := rfl

theorem clausesOf_append (text : Str) (ms ms' : List SentenceMatch) :
    clausesOf L text (ms ++ ms') = clausesOf L text ms ++ clausesOf L text ms' := by
  rw [clausesOf, List.filter_append, List.flatMap_append, List.map_append, clausesOf, clausesOf]

/-- The quotes of a sentence, for one text or another that have it at a place. -/
theorem sentence_quotes (text : Str) (m : SentenceMatch) :
    (sentenceClauses L text m).map (PageClause.quoted L) =
      ((Pattern.clause L.toCharTables).finditer m.text).filterMap fun clause =>
        if stated (L.strip clause.text) then
          some ⟨L.strip clause.text,
            L.strip (slice text (m.start + clause.start) (m.start + clause.stop))⟩
        else none := by
  rw [sentenceClauses, List.map_filterMap]
  refine List.filterMap_congr fun clause _ => ?_
  dsimp only
  split_ifs <;> rfl

theorem clausesOf_line (hline : '\n' ∉ line) (hms : ∀ m ∈ ms, m.In (hidePoints line)) (rest : Str) :
    clausesOf L (line ++ '\n' :: rest) ms = clausesOf L line ms := by
  have hscan := newline_not_mem_hidePoints hline
  have hexamined : ∀ m ∈ ms, examinedSentence L (hidePoints (line ++ '\n' :: rest)) m =
      examinedSentence L (hidePoints line) m := fun m hm => by
    have hplace := hms m hm
    rw [examinedSentence, examinedSentence, hidePoints_line,
      lineAround_line hscan (hplace.nonempty.le.trans hplace.bounded)]
  rw [clausesOf, clausesOf, List.filter_congr hexamined, List.map_flatMap, List.map_flatMap]
  refine List.flatMap_congr fun m hm => ?_
  have hplace := hms m (List.mem_of_mem_filter hm)
  have hlt := hplace.nonempty
  have hle := hplace.bounded
  have hlength := congrArg List.length hplace.text_eq
  rw [List.length_take, List.length_drop] at hlength
  rw [hidePoints_length] at hle hlength
  rw [sentence_quotes, sentence_quotes]
  refine List.filterMap_congr fun clause hclause => ?_
  have hpart := (finditer_spec hclause).bounded
  rw [slice_line (by omega)]

theorem clausesOf_shift (line rest : Str) (ms : List SentenceMatch) :
    clausesOf L (line ++ '\n' :: rest) (ms.map (shifted (line.length + 1))) =
      clausesOf L rest ms := by
  have hexamined : (examinedSentence L (hidePoints (line ++ '\n' :: rest))) ∘
      shifted (line.length + 1) = examinedSentence L (hidePoints rest) := by
    funext m
    have hlength := hidePoints_length line
    rw [Function.comp_apply, examinedSentence, examinedSentence, hidePoints_line]
    simp only [shifted]
    rw [← hlength, lineAround_shift]
    rfl
  rw [clausesOf, clausesOf, List.filter_map, hexamined, List.flatMap_map, List.map_flatMap,
    List.map_flatMap]
  refine List.flatMap_congr fun m _ => ?_
  rw [sentence_quotes, sentence_quotes]
  refine List.filterMap_congr fun clause _ => ?_
  have hplace := slice_shift line rest (m.start + clause.start) (m.start + clause.stop)
  rw [Nat.add_right_comm, Nat.add_right_comm m.start clause.stop] at hplace
  simp only [shifted, hplace]

theorem quotedClauses_newline (hline : '\n' ∉ line) :
    quotedClauses L (line ++ ['\n']) = quotedClauses L line := by
  have hsentences : Pattern.sentence.finditer (hidePoints (line ++ ['\n'])) =
      Pattern.sentence.finditer (hidePoints line) := by
    rw [hidePoints_line, finditer_sentence, finditer_sentence]
    exact sentencesFrom_newline (newline_not_mem_hidePoints hline)
  rw [quotedClauses, hsentences]
  exact clausesOf_line hline (fun m hm => finditer_spec hm) []

/-- **A line before another one** loses the sentence that has no end. -/
theorem quotedClauses_line (hline : '\n' ∉ line) (hrest : rest ≠ []) :
    quotedClauses L (line ++ '\n' :: rest) = heardClauses L line ++ quotedClauses L rest := by
  have hne : hidePoints rest ≠ [] := by
    rw [← List.length_pos_iff, hidePoints_length]
    exact List.length_pos_iff.mpr hrest
  have hsentences : Pattern.sentence.finditer (hidePoints (line ++ '\n' :: rest)) =
      (Pattern.sentence.finditer (hidePoints line)).filter ended ++
        (Pattern.sentence.finditer (hidePoints rest)).map (shifted (line.length + 1)) := by
    have hscan := newline_not_mem_hidePoints hline
    rw [hidePoints_line, finditer_sentence, finditer_sentence, finditer_sentence,
      sentencesFrom_line hscan hne (by simp), ← sentencesFrom_shift, hidePoints_length,
      List.length_nil]
    congr 2
  rw [quotedClauses, hsentences, clausesOf_append, clausesOf_shift,
    clausesOf_line hline fun m hm => finditer_spec (List.mem_of_mem_filter hm)]
  rfl

/-- A line alone is heard to its end. -/
theorem quotedClauses_split (hline : '\n' ∉ line) :
    quotedClauses L line = heardClauses L line ++ cutClauses L line := by
  rw [heardClauses, cutClauses, ← clausesOf_append, quotedClauses]
  congr 1
  rw [finditer_sentence]
  exact sentencesFrom_ended (newline_not_mem_hidePoints hline) (by simp)

/-- The lines of a text, as `"\n"` separates them. -/
def lines (text : Str) : List Str := text.splitOn '\n'

theorem lines_line (hline : '\n' ∉ line) (rest : Str) :
    lines (line ++ '\n' :: rest) = line :: lines rest := by
  rw [lines, List.splitOn_append_cons_self, List.splitOn_eq_singleton hline]
  rfl

theorem lines_self (hline : '\n' ∉ line) : lines line = [line] := List.splitOn_eq_singleton hline

theorem lastLine_lines (rest : Str) : lastLine (lines rest) = decide (rest = []) := by
  by_cases hrest : rest = []
  · subst hrest
    rfl
  · have hlines : lines rest ≠ [[]] := fun h => by
      have hjoin : ['\n'].intercalate (lines rest) = rest := List.intercalate_splitOn '\n'
      rw [h] at hjoin
      exact hrest hjoin.symm
    have hsome : lines rest ≠ [] := List.splitOn_ne_nil _ _
    rw [lastLine, decide_eq_false hsome, decide_eq_false hlines, decide_eq_false hrest]
    rfl

/-- **The clauses of a page, line by line.** -/
theorem quotedClauses_lines (text : Str) : quotedClauses L text = heard L (lines text) := by
  induction hn : text.length using Nat.strong_induction_on generalizing text with
  | _ n ih =>
    by_cases hnewline : '\n' ∈ text
    · obtain ⟨line, rest, rfl, hline⟩ := List.eq_append_cons_of_mem hnewline
      have hlater := ih rest.length (by simp [← hn]; omega) rest rfl
      rw [lines_line hline, heard, lastLine_lines, ← hlater]
      by_cases hrest : rest = []
      · subst hrest
        rw [decide_eq_true rfl, if_pos rfl, quotedClauses_newline hline]
        exact (List.append_nil _).symm
      · rw [decide_eq_false hrest, if_neg Bool.false_ne_true, quotedClauses_line hline hrest]
    · rw [lines_self hnewline, heard, heard, List.append_nil]
      rfl

theorem newline_not_mem_of_lines {text : Str} (h : line ∈ lines text) : '\n' ∉ line := by
  induction hn : text.length using Nat.strong_induction_on generalizing text with
  | _ n ih =>
    by_cases hnewline : '\n' ∈ text
    · obtain ⟨first, rest, rfl, hfirst⟩ := List.eq_append_cons_of_mem hnewline
      rw [lines_line hfirst] at h
      rcases List.mem_cons.mp h with rfl | h
      · exact hfirst
      · exact ih rest.length (by simp [← hn]; omega) h rfl
    · rw [lines_self hnewline] at h
      rwa [List.mem_singleton.mp h]

/-- What is heard of lines comes in the order of the lines. -/
theorem heard_sublist {ls : List Str} (hls : ∀ line ∈ ls, '\n' ∉ line) :
    (heard L ls).Sublist (ls.flatMap (quotedClauses L)) := by
  induction ls with
  | nil => exact List.Sublist.slnil
  | cons line ls ih =>
    rw [heard, List.flatMap_cons]
    refine List.Sublist.append ?_ (ih fun line hline => hls line (List.mem_cons_of_mem _ hline))
    split_ifs
    · exact List.Sublist.refl _
    · rw [quotedClauses_split (hls line List.mem_cons_self)]
      exact List.sublist_append_left _ _

/-- The lines alone say what is heard and what is cut. -/
theorem perm_heard_cut {ls : List Str} (hls : ∀ line ∈ ls, '\n' ∉ line) :
    (ls.flatMap (quotedClauses L)).Perm (heard L ls ++ cut L ls) := by
  induction ls with
  | nil => exact List.Perm.refl _
  | cons line ls ih =>
    have hlater := ih fun line hline => hls line (List.mem_cons_of_mem _ hline)
    rw [heard, cut, List.flatMap_cons]
    split_ifs
    · rw [List.nil_append, List.append_assoc]
      exact hlater.append_left _
    · rw [quotedClauses_split (hls line List.mem_cons_self), List.append_assoc, List.append_assoc]
      refine List.Perm.append_left _ ((hlater.append_left _).trans ?_)
      rw [← List.append_assoc, ← List.append_assoc]
      exact List.perm_append_comm.append_right _

end JobPing
