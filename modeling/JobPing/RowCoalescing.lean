import JobPing.GitPatchParser
import Mathlib.Algebra.Ring.Int.Defs

/-!
# Rows of several lines

`coalesce_html_table_rows` of `app/scrapers/markdown_parser.py` joins the lines of an HTML row. Its
output is the rendering of a partition of the lines into groups (`coalesce_eq`): a group is a joined
row or a line by itself.
-/

namespace JobPing

variable (T : CharTables)

/-- `_ROW_TAG`: `<(?P<closing>/)?tr\b[^>]*>`. -/
def rowTag : Regex Char Unit :=
  let letter (c : Char) : Regex Char Unit := .set fun x => fold x = c
  .seq (letter '<') <| .seq (.many 0 (some 1) (.group () (letter '/'))) <| .seq (letter 't') <|
    .seq (letter 'r') <| .seq (.boundary T.isWord) <| .seq (.many 0 none (.set (· ≠ '>')))
      (letter '>')

namespace ChangedLine

variable (line : ChangedLine)

/-- `line.content.strip().casefold()`. -/
def folded : Str := T.casefold (T.strip line.content)

/-- `depth_change`: the rows a line opens less those it closes. -/
def depthChange : ℤ :=
  (((rowTag T).finditer (line.folded T)).map fun tag =>
    if truthy (tag.group ()) then (-1 : ℤ) else 1).sum

/-- `"</tr>" in content`. -/
def endsRow : Bool := (strFind "</tr>".toList (line.folded T)).isSome

/-- The test on a line that is to start a row. -/
def startsRow : Bool :=
  ((strFind "<tr".toList (line.folded T)).isSome ||
      (strFind "<td".toList (line.folded T)).isSome) &&
    (0 < line.depthChange T || !line.endsRow T)

end ChangedLine

/-- What the loop over the lines carries; `buffered_kind` is `None` when nothing is buffered. -/
structure Coalescing where
  output : List ChangedLine
  buffered : List Str
  bufferedKind : Option ChangeKind
  rowDepth : ℤ

namespace Coalescing

/-- `output.extend(...)` with the buffered lines. -/
def flush (s : Coalescing) : Coalescing :=
  { output := s.output ++ s.buffered.map (⟨s.bufferedKind.getD .added, ·⟩)
    buffered := []
    bufferedKind := none
    rowDepth := 0 }

/-- The end of a round, with nothing buffered. -/
def startRow (s : Coalescing) (line : ChangedLine) : Coalescing :=
  if line.startsRow T then
    { s with
      buffered := [line.content]
      bufferedKind := some line.kind
      rowDepth := line.depthChange T }
  else { s with output := s.output ++ [line] }

/-- One round of the loop. -/
def add (s : Coalescing) (line : ChangedLine) : Coalescing :=
  if s.buffered ≠ [] then
    if some line.kind = s.bufferedKind then
      let buffered := s.buffered ++ [line.content]
      let rowDepth := s.rowDepth + line.depthChange T
      if line.endsRow T && rowDepth ≤ 0 then
        { output := s.output ++ [⟨line.kind, ['\n'].intercalate buffered⟩]
          buffered := []
          bufferedKind := none
          rowDepth := 0 }
      else { s with buffered := buffered, rowDepth := rowDepth }
    else s.flush.startRow T line
  else s.startRow T line

end Coalescing

/-- **`coalesce_html_table_rows`**. -/
def coalesceHtmlTableRows (lines : List ChangedLine) : List ChangedLine :=
  ((lines.foldl (Coalescing.add T) ⟨[], [], none, 0⟩).flush).output

/-! ## Groups of lines -/

/-- The element made of a group of lines. -/
def joined : List ChangedLine → Option ChangedLine
  | [] => none
  | line :: rest => some ⟨line.kind, ['\n'].intercalate ((line :: rest).map (·.content))⟩

/-- The lines of a row that is open have the kind of its first line. -/
def sameKind (row : List ChangedLine) (line : ChangedLine) : Bool :=
  row.head?.any (·.kind = line.kind)

/-- The groups of the lines that follow the lines of an open row, which may be none. -/
def rowGroups : List ChangedLine → ℤ → List ChangedLine → List (List ChangedLine)
  | row, _, [] => row.map ([·])
  | row, depth, line :: lines =>
    if sameKind row line then
      if line.endsRow T && depth + line.depthChange T ≤ 0 then
        (row ++ [line]) :: rowGroups [] 0 lines
      else rowGroups (row ++ [line]) (depth + line.depthChange T) lines
    else
      row.map ([·]) ++
        if line.startsRow T then rowGroups [line] (line.depthChange T) lines
        else [line] :: rowGroups [] 0 lines

variable {T}

/-- The loop holds the lines of an open row. -/
structure Coalescing.Holds (s : Coalescing) (row : List ChangedLine) (depth : ℤ) : Prop where
  buffered : s.buffered = row.map (·.content)
  kind : s.bufferedKind = row.head?.map (·.kind)
  same : ∀ line ∈ row, some line.kind = row.head?.map (·.kind)
  rowDepth : s.rowDepth = depth
  idle : row = [] → depth = 0

theorem joined_singleton (line : ChangedLine) : joined [line] = some line := by
  rw [joined, List.map_cons, List.map_nil, List.intercalate_singleton]

theorem filterMap_singletons (row : List ChangedLine) :
    (row.map ([·])).filterMap joined = row := by
  rw [List.filterMap_map]
  exact (List.filterMap_congr fun line _ => joined_singleton line).trans List.filterMap_some

namespace Coalescing.Holds

variable {s : Coalescing} {row : List ChangedLine} {depth : ℤ} {line : ChangedLine}

/-- The buffered lines, one by one. -/
theorem flush_eq (h : s.Holds row depth) :
    s.flush = ⟨s.output ++ (row.map ([·])).filterMap joined, [], none, 0⟩ := by
  have hrow : s.buffered.map (⟨s.bufferedKind.getD .added, ·⟩) = row := by
    rw [h.buffered, List.map_map]
    conv_rhs => rw [← List.map_id row]
    refine List.map_congr_left fun line hline => ?_
    have hkind : s.bufferedKind = some line.kind := h.kind.trans (h.same line hline).symm
    rw [Function.comp_apply, hkind]
    rfl
  rw [flush, hrow, filterMap_singletons]

theorem sameKind_iff (h : s.Holds row depth) :
    sameKind row line = true ↔ s.buffered ≠ [] ∧ some line.kind = s.bufferedKind := by
  rw [h.buffered, h.kind]
  cases row with
  | nil => simp [sameKind]
  | cons first row =>
    simp only [sameKind, List.head?_cons, Option.any_some, decide_eq_true_eq, List.map_cons,
      Option.map_some, Option.some.injEq, ne_eq, reduceCtorEq, not_false_eq_true, true_and]
    exact eq_comm

/-- A line that the row takes. -/
theorem append (h : s.Holds row depth) (hline : sameKind row line = true)
    (output : List ChangedLine) (change : ℤ) :
    Holds ⟨output, s.buffered ++ [line.content], s.bufferedKind, s.rowDepth + change⟩
      (row ++ [line]) (depth + change) := by
  cases row with
  | nil => cases hline
  | cons first row =>
    have hkind : first.kind = line.kind := of_decide_eq_true hline
    refine ⟨?_, h.kind, fun other hmem => ?_, by rw [h.rowDepth],
      fun hnil => absurd hnil (by simp)⟩
    · rw [h.buffered, List.map_append]
      rfl
    · rcases List.mem_append.mp hmem with hmem | hmem
      · exact h.same other hmem
      · rw [List.mem_singleton.mp hmem, ← hkind]
        rfl

end Coalescing.Holds

/-- A new row. -/
theorem Coalescing.holds_startRow (output : List ChangedLine) (line : ChangedLine) :
    Holds ⟨output, [line.content], some line.kind, line.depthChange T⟩ [line]
      (line.depthChange T) :=
  ⟨rfl, rfl, fun other hmem => by rw [List.mem_singleton.mp hmem]; rfl, rfl,
    fun hnil => absurd hnil (List.cons_ne_nil _ _)⟩

theorem Coalescing.holds_nil (output : List ChangedLine) : Holds ⟨output, [], none, 0⟩ [] 0 :=
  ⟨rfl, rfl, fun _ hmem => absurd hmem List.not_mem_nil, rfl, fun _ => rfl⟩

/-- A line that a row does not take comes after the lines of the row. -/
theorem Coalescing.Holds.add_eq {s : Coalescing} {row : List ChangedLine} {depth : ℤ}
    {line : ChangedLine} (h : s.Holds row depth) (hline : ¬sameKind row line = true) :
    s.add T line = Coalescing.startRow T
      ⟨s.output ++ (row.map ([·])).filterMap joined, [], none, 0⟩ line := by
  rw [add]
  by_cases hbuffered : s.buffered ≠ []
  · have hkind : ¬some line.kind = s.bufferedKind :=
      fun hkind => hline (h.sameKind_iff.mpr ⟨hbuffered, hkind⟩)
    rw [if_pos hbuffered, if_neg hkind, h.flush_eq]
  · have hnil : row = [] := List.map_eq_nil_iff.mp (h.buffered.symm.trans (not_not.mp hbuffered))
    have hnothing : s = ⟨s.output, [], none, 0⟩ := by
      obtain ⟨output, buffered, kind, rowDepth⟩ := s
      obtain ⟨hbuffered, hkind, -, hdepth, hidle⟩ := h
      subst hnil
      simp only at hbuffered hkind hdepth
      rw [hbuffered, hkind, hdepth, hidle rfl]
      rfl
    rw [if_neg hbuffered, hnil, List.map_nil, List.filterMap_nil, List.append_nil, ← hnothing]

/-- The element of a row that is closed. -/
theorem joined_append {row : List ChangedLine} {line : ChangedLine}
    (h : sameKind row line = true) :
    joined (row ++ [line]) =
      some ⟨line.kind, ['\n'].intercalate (row.map (·.content) ++ [line.content])⟩ := by
  cases row with
  | nil => cases h
  | cons first row =>
    have hkind : first.kind = line.kind := of_decide_eq_true h
    rw [List.cons_append, joined, hkind, ← List.cons_append, List.map_append]
    rfl

/-- The loop emits the groups. -/
theorem Coalescing.Holds.output_eq {s : Coalescing} {row : List ChangedLine} {depth : ℤ}
    (h : s.Holds row depth) (lines : List ChangedLine) :
    ((lines.foldl (Coalescing.add T) s).flush).output =
      s.output ++ (rowGroups T row depth lines).filterMap joined := by
  induction lines generalizing s row depth with
  | nil =>
    rw [List.foldl_nil, h.flush_eq, rowGroups]
  | cons line lines ih =>
    rw [List.foldl_cons, rowGroups, add]
    by_cases hsame : sameKind row line = true
    · obtain ⟨hbuffered, hkind⟩ := h.sameKind_iff.mp hsame
      rw [if_pos hsame, if_pos hbuffered, if_pos hkind]
      dsimp only
      rw [h.rowDepth]
      split_ifs with hends
      · rw [ih (holds_nil _), List.filterMap_cons, joined_append hsame, h.buffered,
          List.append_assoc]
        rfl
      · have hrow := ih (h.append hsame s.output (line.depthChange T))
        rw [h.rowDepth] at hrow
        exact hrow
    · have hadd := h.add_eq (T := T) hsame
      rw [add] at hadd
      rw [hadd, startRow, if_neg hsame, List.filterMap_append, ← List.append_assoc]
      split_ifs with hstarts
      · exact ih (holds_startRow _ line)
      · rw [ih (holds_nil _), List.filterMap_cons, joined_singleton, List.append_assoc]
        rfl

/-- **The output renders the groups.** -/
theorem coalesce_eq (lines : List ChangedLine) :
    coalesceHtmlTableRows T lines = (rowGroups T [] 0 lines).filterMap joined := by
  rw [coalesceHtmlTableRows, (Coalescing.holds_nil []).output_eq]
  rfl

end JobPing
