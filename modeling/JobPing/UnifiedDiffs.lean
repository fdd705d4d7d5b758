import JobPing.PatchRoundTrip
import JobPing.RowCoalescing

/-!
# Diffs of a file

A unified diff from one text of a file to the next: lines that are not shown, and the lines of its
hunks. The patch has the shown ones, each after its sign; the next text has the lines of the file.
What is read of either is read of its lines, one after another (`changedLines_patch`,
`splitlines_fileText`), so that the place of a line in it is that of what comes before.
-/

namespace JobPing

/-! ## Diffs -/

/-- What a line of a diff is. A note on a missing newline at the end belongs to neither text. -/
inductive DiffKind
  | hidden
  | heading
  | context
  | added
  | removed
  | note
  deriving DecidableEq

structure DiffLine where
  kind : DiffKind
  content : Str
  one_line : '\n' ∉ content

/-- The line in the patch. -/
def DiffLine.rendered (line : DiffLine) : Option Str :=
  match line.kind with
  | .hidden => none
  | .heading => some ('@' :: '@' :: line.content)
  | .context => some (sign none :: line.content)
  | .added => some (sign (some .added) :: line.content)
  | .removed => some (sign (some .removed) :: line.content)
  | .note => some ('\\' :: line.content)

/-- The line belongs to the next text. -/
def DiffLine.inFile (line : DiffLine) : Bool :=
  line.kind ∈ [DiffKind.hidden, .context, .added]

/-- A diff to a text which may end in a newline; without one, its last line is not empty. -/
structure UnifiedDiff where
  lines : List DiffLine
  newlineAtEnd : Bool
  last_ne : newlineAtEnd = false →
    ∀ line, (lines.filter DiffLine.inFile).getLast? = some line → line.content ≠ []

/-- The patch of a diff. -/
def UnifiedDiff.patch (diff : UnifiedDiff) : Str :=
  ['\n'].intercalate (diff.lines.filterMap DiffLine.rendered)

/-- The text of lines of a file. -/
def fileText (newlineAtEnd : Bool) (lines : List DiffLine) : Str :=
  ['\n'].intercalate ((lines.filter DiffLine.inFile).map DiffLine.content) ++
    if newlineAtEnd then ['\n'] else []

/-- The next text of the file. -/
def UnifiedDiff.text (diff : UnifiedDiff) : Str := fileText diff.newlineAtEnd diff.lines

/-! ## What is read -/

/-- What the patch parser reads of lines of a diff. -/
def changes (U : Unicode) (lines : List DiffLine) : List ChangedLine :=
  (lines.filterMap DiffLine.rendered).flatMap (lineChanges U)

variable {U : Unicode}

/-- **The patch** is read line by line. -/
theorem changedLines_patch (diff : UnifiedDiff) :
    changedLines U diff.patch = changes U diff.lines := by
  rw [changedLines_pieces, UnifiedDiff.patch, pieces_intercalate, List.filterMap_flatMap]
  rfl

theorem parsePatch_lines (diff : UnifiedDiff) (filename : Option Str) :
    (parsePatch U (some diff.patch) filename).lines = changes U diff.lines := by
  rw [← changedLines_patch, parsePatch]
  cases hpatch : diff.patch with
  | nil => rfl
  | cons c rest => rfl

/-- The line up to the first line end of `str.splitlines`. -/
def DiffLine.firstLine (line : DiffLine) : Str := line.content.takeWhile (· ∉ lineEnds)

/-- The line of the patch of an added line is not passed over as the header of a file. -/
def DiffLine.isRead (U : Unicode) (line : DiffLine) : Bool :=
  !isFileHeader U (sign (some .added) :: line.firstLine)

/-- A text is its first line and what comes from its first line end on. -/
theorem firstLine_split (s : Str) :
    ∃ rest, s = s.takeWhile (· ∉ lineEnds) ++ rest ∧ ∀ c ∈ rest.head?, c ∈ lineEnds := by
  refine ⟨s.dropWhile (· ∉ lineEnds), List.takeWhile_append_dropWhile.symm, fun c hc => ?_⟩
  have hnot := List.head?_dropWhile_not (fun c => decide (c ∉ lineEnds)) s
  rw [Option.mem_def.mp hc] at hnot
  simpa using hnot

theorem not_mem_firstLine {s : Str} : ∀ c ∈ s.takeWhile (· ∉ lineEnds), c ∉ lineEnds := by
  intro c hc
  have hnot := List.mem_takeWhile_imp hc
  rwa [decide_eq_true_eq] at hnot

/-- The first piece of a text that does not start with a line end. -/
theorem pieces_first {c : Char} (hc : c ∉ lineEnds) (s : Str) :
    ∃ rest, pieces (c :: s) = (c :: s.takeWhile (· ∉ lineEnds)) :: rest := by
  obtain ⟨rest, hs, hrest⟩ := firstLine_split s
  have hline : ∀ x ∈ c :: s.takeWhile (· ∉ lineEnds), x ∉ lineEnds :=
    List.forall_mem_cons.mpr ⟨hc, not_mem_firstLine⟩
  have hfirst := pieces_line (List.cons_ne_nil c _) hline
  cases rest with
  | nil =>
    rw [List.append_nil] at hs
    exact ⟨[], by rw [← hfirst, ← hs]⟩
  | cons e tail =>
    refine ⟨pieces tail, ?_⟩
    conv_lhs => rw [hs, ← List.cons_append]
    rw [pieces_append (hrest e rfl), hfirst, List.singleton_append]

/-- **The place of an added line** among the changed lines. -/
theorem changes_at {before after : List DiffLine} {line : DiffLine} (hkind : line.kind = .added)
    (hread : line.isRead U = true) :
    (changes U (before ++ line :: after))[(changes U before).length]? =
      some ⟨.added, line.firstLine⟩ := by
  have hrendered : line.rendered = some ('+' :: line.content) := by
    rw [DiffLine.rendered, hkind]
    rfl
  obtain ⟨rest, hpieces⟩ := pieces_first (by decide : '+' ∉ lineEnds) line.content
  have hheader : isFileHeader U ('+' :: line.firstLine) = false :=
    Bool.not_eq_true' _ ▸ hread
  have hfirst : changedLine U ('+' :: line.firstLine) = some ⟨.added, line.firstLine⟩ := by
    rw [changedLine, hheader]
    rfl
  have hchanges : lineChanges U ('+' :: line.content) =
      ⟨.added, line.firstLine⟩ :: rest.filterMap (changedLine U) := by
    rw [lineChanges, hpieces]
    exact List.filterMap_cons_some hfirst
  rw [changes, List.filterMap_append, List.flatMap_append, List.filterMap_cons_some hrendered,
    List.flatMap_cons, hchanges, ← changes, List.getElem?_append_right le_rfl, Nat.sub_self]
  rfl

end JobPing
