import JobPing.DetailExtraction
import JobPing.SimplifyPipeline

/-!
# The patch parser

`app/scrapers/git_patch_parser.py`: the added and removed lines of the unified diffs of a commit.
The parser splits a patch with `str.splitlines` and passes over empty lines, so what it reads of a
patch are the texts between two line ends (`changedLines_pieces`).
-/

namespace JobPing

variable (U : Unicode)

/-- One added or removed content line. -/
structure ChangedLine where
  kind : ChangeKind
  content : Str
  deriving DecidableEq

/-- Changed lines extracted from a file patch. -/
structure ParsedPatch where
  filename : Option Str
  lines : List ChangedLine

/-- `_DIFF_FILE_HEADER.match`: `^(?:\+\+\+|---)\s`. -/
def isFileHeader (line : Str) : Bool :=
  ("+++".toList.isPrefixOf line || "---".toList.isPrefixOf line) &&
    (line.drop 3).head?.any U.isSpace

/-- One round of the loop over the lines of a patch. -/
def changedLine (line : Str) : Option ChangedLine :=
  if isFileHeader U line then none
  else if line.head? = some '+' then some ⟨.added, line.tail⟩
  else if line.head? = some '-' then some ⟨.removed, line.tail⟩
  else none

/-- The changed lines of a patch; empty lines are passed over. -/
def changedLines (patch : Str) : List ChangedLine :=
  ((splitlines patch).filter (· ≠ [])).filterMap (changedLine U)

/-- **`GitPatchParser.parse`**. -/
def parsePatch (patch : Option Str) (filename : Option Str) : ParsedPatch where
  filename := filename
  lines := if truthy patch then changedLines U (patch.getD []) else []

/-- A file of a commit with its patch, which is absent for a binary or a large file. -/
structure FilePatch where
  filename : Str
  patch : Option Str

/-- `_is_target_readme`. -/
def isTargetReadme (filename : Str) (targets : Option (List Str)) : Bool :=
  let normalized := filename.map fun c => if c = '\\' then '/' else c
  let name := (normalized.reverse.takeWhile (· ≠ '/')).reverse
  U.casefold name ∈ ["readme.md", "readme.mdx"].map String.toList &&
    targets.all (·.contains filename)

/-- `parse_files`: the patches of the targeted files, in their order. -/
def parseFiles (files : List FilePatch) (targets : Option (List Str)) : List ParsedPatch :=
  (files.filter fun file => isTargetReadme U file.filename targets).map fun file =>
    parsePatch U file.patch (some file.filename)

/-! ## Texts between line ends -/

/-- The nonempty texts between the line ends. -/
def pieces (text : Str) : List Str := (text.splitOnP (· ∈ lineEnds)).filter (· ≠ [])

/-- A line end closes the first text. -/
theorem filter_modifyHead_cons (line : Str) (rest : List Str) :
    (([] :: rest).modifyHead (line.reverse ++ ·)).filter (· ≠ []) =
      [line.reverse].filter (· ≠ []) ++ rest.filter (· ≠ []) := by
  rw [List.modifyHead_cons, List.append_nil, ← List.singleton_append, List.filter_append]

theorem modifyHead_nil_append (l : List Str) :
    l.modifyHead (([] : Str).reverse ++ ·) = l := by
  cases l <;> rfl

theorem splitlinesFrom_pieces (line text : Str) :
    (splitlinesFrom line text).filter (· ≠ []) =
      ((text.splitOnP (· ∈ lineEnds)).modifyHead (line.reverse ++ ·)).filter (· ≠ []) := by
  induction line, text using splitlinesFrom.induct with
  | case1 => rfl
  | case2 line hline =>
    rw [splitlinesFrom, if_neg hline, List.splitOnP_nil, List.modifyHead_cons, List.append_nil]
  | case3 line rest ih =>
    -- `\r\n` is one end for `splitlines` and two for the pieces, with nothing between them
    rw [splitlinesFrom, List.splitOnP_cons_eq_if_modifyHead, if_pos (by decide),
      List.splitOnP_cons_eq_if_modifyHead, if_pos (by decide), filter_modifyHead_cons,
      ← List.singleton_append, List.filter_append, ih, modifyHead_nil_append]
    rfl
  | case4 line c rest hrest hend ih =>
    rw [splitlinesFrom, if_pos hend, List.splitOnP_cons_eq_if_modifyHead,
      if_pos (decide_eq_true hend), filter_modifyHead_cons, ← List.singleton_append,
      List.filter_append, ih, modifyHead_nil_append]
    · exact hrest
  | case5 line c rest hrest hend ih =>
    rw [splitlinesFrom, if_neg hend, ih, List.splitOnP_cons_eq_if_modifyHead,
      if_neg (by simpa using hend), List.modifyHead_modifyHead, List.reverse_cons]
    · congr 2
      funext piece
      rw [Function.comp_apply, List.append_assoc, List.singleton_append]
    · exact hrest

/-- The lines that the parser reads are the pieces of the patch. -/
theorem changedLines_pieces (patch : Str) :
    changedLines U patch = (pieces patch).filterMap (changedLine U) := by
  rw [changedLines, splitlines, splitlinesFrom_pieces, modifyHead_nil_append]
  rfl

/-- The pieces before and after a line end. -/
theorem pieces_append {c : Char} (hc : c ∈ lineEnds) (text rest : Str) :
    pieces (text ++ c :: rest) = pieces text ++ pieces rest := by
  rw [pieces, List.splitOnP_append_cons text rest (decide_eq_true hc), List.filter_append]
  rfl

/-- A text without line ends is one piece. -/
theorem pieces_line {line : Str} (hne : line ≠ []) (hline : ∀ c ∈ line, c ∉ lineEnds) :
    pieces line = [line] := by
  rw [pieces, List.splitOnP_eq_singleton fun c hc => decide_eq_false (hline c hc)]
  simp [hne]

theorem not_mem_of_splitOnP {α : Type} {p : α → Bool} {text piece : List α}
    (h : piece ∈ text.splitOnP p) {c : α} (hc : c ∈ piece) : p c = false := by
  induction text generalizing piece with
  | nil =>
    obtain rfl : piece = [] := by simpa using h
    cases hc
  | cons x text ih =>
    rw [List.splitOnP_cons_eq_if_modifyHead] at h
    obtain ⟨first, rest, hsplit⟩ := List.exists_cons_of_ne_nil (List.splitOnP_ne_nil p text)
    rw [hsplit] at h ih
    split_ifs at h with hx
    · rcases List.mem_cons.mp h with rfl | h
      · cases hc
      · exact ih h hc
    · rcases List.mem_cons.mp h with rfl | h
      · rcases List.mem_cons.mp hc with rfl | hc
        · exact Bool.eq_false_of_not_eq_true hx
        · exact ih List.mem_cons_self hc
      · exact ih (List.mem_cons_of_mem _ h) hc

/-- No piece has a line end. -/
theorem not_mem_of_pieces {text piece : Str} (h : piece ∈ pieces text) {c : Char} (hc : c ∈ piece) :
    c ∉ lineEnds :=
  of_decide_eq_false (not_mem_of_splitOnP (List.mem_of_mem_filter h) hc)

end JobPing
