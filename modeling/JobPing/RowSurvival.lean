import JobPing.PageExtraction
import JobPing.Partitions
import JobPing.RowCoalescing
import Mathlib.Data.List.DropRight
import Mathlib.Algebra.Ring.Int.Defs

/-!
# Complete rows and their surroundings

A block is the lines of one complete row. It is emitted as one element exactly when no row is left
open by the lines of its kind before it and its last line holds `</tr>`, or it is one line in a row
that is never closed (`row_survives_iff`). The conditions are on the lines as they are read:
`OpenRow` and `Complete` describe sequences of lines of one kind.
-/

namespace JobPing

variable (T : CharTables)

/-! ## Lines of one kind -/

def totalDepth (lines : List ChangedLine) : ℤ := (lines.map (·.depthChange T)).sum

/-- None of the lines closes a row of some depth. -/
def StaysOpen : ℤ → List ChangedLine → Prop
  | _, [] => True
  | depth, line :: lines =>
    ¬(line.endsRow T && depth + line.depthChange T ≤ 0) = true ∧
      StaysOpen (depth + line.depthChange T) lines

/-- Lines of one kind that start a row and do not close it. -/
structure OpenRow (kind : ChangeKind) (row : List ChangedLine) : Prop where
  uniform : ∀ line ∈ row, line.kind = kind
  starts : ∃ line lines, row = line :: lines ∧ line.startsRow T = true ∧
    StaysOpen T (line.depthChange T) lines

/-- Lines of one kind that leave no row open: lines that start none, and rows with the line that
closes them. -/
inductive Complete (kind : ChangeKind) : List ChangedLine → Prop
  | nil : Complete kind []
  | line {run : List ChangedLine} {line : ChangedLine} (hrun : Complete kind run)
      (hkind : line.kind = kind) (hstarts : line.startsRow T = false) :
      Complete kind (run ++ [line])
  | row {run row : List ChangedLine} {line : ChangedLine} (hrun : Complete kind run)
      (hrow : OpenRow T kind row) (hkind : line.kind = kind) (hends : line.endsRow T = true)
      (hdepth : totalDepth T (row ++ [line]) ≤ 0) : Complete kind (run ++ (row ++ [line]))

/-- The lines of one complete row: the first opens it, and it stays open up to the last. -/
structure RowBlock where
  kind : ChangeKind
  first : ChangedLine
  rest : List ChangedLine
  uniform : ∀ line ∈ first :: rest, line.kind = kind
  opens : (strFind "<tr".toList (first.folded T)).isSome = true
  stays_open : ∀ lines, lines ≠ [] → lines <+: first :: rest → lines ≠ first :: rest →
    0 < totalDepth T lines
  balanced : totalDepth T (first :: rest) = 0

variable {T}

/-- The lines of a block. -/
def RowBlock.lines (block : RowBlock T) : List ChangedLine := block.first :: block.rest

/-- The line that closes the row. -/
def RowBlock.last (block : RowBlock T) : ChangedLine :=
  (block.first :: block.rest).getLast (List.cons_ne_nil _ _)

/-- The block is one element of the output, the others are made of the lines around it. -/
def Survives (before : List ChangedLine) (block : RowBlock T) (after : List ChangedLine) : Prop :=
  ∃ g g' : List (List ChangedLine), g.flatten = before ∧ g'.flatten = after ∧
    coalesceHtmlTableRows T (before ++ block.lines ++ after) =
      (g ++ block.lines :: g').filterMap joined

/-- The lines of the block's kind right before it. -/
def RowBlock.runBefore (block : RowBlock T) (before : List ChangedLine) : List ChangedLine :=
  before.rtakeWhile (·.kind = block.kind)

/-- Nothing is in the way of a block: no row is open before it and `</tr>` closes it, or it is a
line of a row that is never closed. -/
def Unobstructed (before : List ChangedLine) (block : RowBlock T) (after : List ChangedLine) :
    Prop :=
  Complete T block.kind (block.runBefore before) ∧ block.last.endsRow T = true ∨
    block.rest = [] ∧ ∃ run row, block.runBefore before = run ++ row ∧
      Complete T block.kind run ∧
      OpenRow T block.kind (row ++ block.lines ++ after.takeWhile (·.kind = block.kind))

section runs

variable {kind : ChangeKind} {row lines rest run : List ChangedLine} {line : ChangedLine}
  {depth : ℤ}

/-! ## Open rows -/

theorem totalDepth_append (lines lines' : List ChangedLine) :
    totalDepth T (lines ++ lines') = totalDepth T lines + totalDepth T lines' := by
  rw [totalDepth, List.map_append, List.sum_append]
  rfl

theorem totalDepth_cons (line : ChangedLine) (lines : List ChangedLine) :
    totalDepth T (line :: lines) = line.depthChange T + totalDepth T lines := by
  rw [totalDepth, List.map_cons, List.sum_cons]
  rfl

theorem totalDepth_singleton (line : ChangedLine) :
    totalDepth T [line] = line.depthChange T := by
  rw [totalDepth, List.map_cons, List.map_nil, List.sum_singleton]

theorem staysOpen_append :
    StaysOpen T depth (lines ++ rest) ↔
      StaysOpen T depth lines ∧ StaysOpen T (depth + totalDepth T lines) rest := by
  induction lines generalizing depth with
  | nil =>
    rw [List.nil_append, totalDepth, List.map_nil, List.sum_nil, add_zero]
    exact (and_iff_right trivial).symm
  | cons line lines ih =>
    rw [List.cons_append, StaysOpen, StaysOpen, ih, totalDepth_cons, add_assoc, and_assoc]

theorem OpenRow.ne_nil (h : OpenRow T kind row) : row ≠ [] := by
  obtain ⟨line, lines, rfl, -⟩ := h.starts
  exact List.cons_ne_nil _ _

/-- A row that starts a longer open row is open. -/
theorem OpenRow.of_append (h : OpenRow T kind (row ++ lines)) (hrow : row ≠ []) :
    OpenRow T kind row := by
  refine ⟨fun line hline => h.uniform line (List.mem_append_left _ hline), ?_⟩
  obtain ⟨first, row, rfl⟩ := List.exists_cons_of_ne_nil hrow
  obtain ⟨line, others, heq, hstarts, hopen⟩ := h.starts
  rw [List.cons_append, List.cons.injEq] at heq
  obtain ⟨rfl, rfl⟩ := heq
  exact ⟨first, row, rfl, hstarts, (staysOpen_append.mp hopen).1⟩

/-- A row stays open as long as no line closes it. -/
theorem OpenRow.append_iff (h : OpenRow T kind row) (hlines : ∀ line ∈ lines, line.kind = kind) :
    OpenRow T kind (row ++ lines) ↔ StaysOpen T (totalDepth T row) lines := by
  obtain ⟨first, others, rfl, hstarts, hopen⟩ := h.starts
  rw [totalDepth_cons]
  constructor
  · intro hrow
    obtain ⟨line, lines', heq, -, hopen'⟩ := hrow.starts
    rw [List.cons_append, List.cons.injEq] at heq
    obtain ⟨rfl, rfl⟩ := heq
    exact (staysOpen_append.mp hopen').2
  · intro hstays
    refine ⟨fun line hline => ?_, first, others ++ lines, rfl, hstarts,
      staysOpen_append.mpr ⟨hopen, hstays⟩⟩
    rcases List.mem_append.mp hline with hline | hline
    · exact h.uniform line hline
    · exact hlines line hline

theorem openRow_singleton (hkind : line.kind = kind) (hstarts : line.startsRow T = true) :
    OpenRow T kind [line] :=
  ⟨fun _ hmem => List.mem_singleton.mp hmem ▸ hkind, line, [], rfl, hstarts, trivial⟩

/-! ## The row that is left open -/

variable (T) in
/-- The open row after one more line of its kind. -/
def pendingStep (row : List ChangedLine) (line : ChangedLine) : List ChangedLine :=
  if row = [] then if line.startsRow T then [line] else []
  else if line.endsRow T && totalDepth T (row ++ [line]) ≤ 0 then [] else row ++ [line]

variable (T) in
/-- The row that lines of one kind leave open. -/
def pending (lines : List ChangedLine) : List ChangedLine := lines.foldl (pendingStep T) []

theorem foldl_pending (hrow : row ≠ []) (hopen : StaysOpen T (totalDepth T row) lines) :
    lines.foldl (pendingStep T) row = row ++ lines := by
  induction lines generalizing row with
  | nil => exact (List.append_nil row).symm
  | cons line lines ih =>
    obtain ⟨hline, hopen⟩ := hopen
    have htotal : totalDepth T (row ++ [line]) = totalDepth T row + line.depthChange T := by
      rw [totalDepth_append, totalDepth_singleton]
    rw [← htotal] at hline hopen
    rw [List.foldl_cons, pendingStep, if_neg hrow, if_neg hline, ih (by simp) hopen,
      List.append_assoc]
    rfl

theorem OpenRow.foldl_eq (h : OpenRow T kind row) : row.foldl (pendingStep T) [] = row := by
  obtain ⟨line, lines, rfl, hstarts, hopen⟩ := h.starts
  rw [List.foldl_cons, pendingStep, if_pos rfl, if_pos hstarts,
    foldl_pending (List.cons_ne_nil _ _)]
  · rfl
  · rwa [totalDepth_singleton]

theorem Complete.pending_eq (h : Complete T kind run) : pending T run = [] := by
  induction h with
  | nil => rfl
  | line hrun hkind hstarts ih =>
    rw [pending, List.foldl_append, ← pending, ih, List.foldl_cons, List.foldl_nil, pendingStep,
      if_pos rfl, if_neg (Bool.eq_false_iff.mp hstarts)]
  | row hrun hrow hkind hends hdepth ih =>
    rw [pending, List.foldl_append, ← pending, ih, List.foldl_append, hrow.foldl_eq,
      List.foldl_cons, List.foldl_nil, pendingStep, if_neg hrow.ne_nil, if_pos]
    rw [hends, Bool.true_and]
    exact decide_eq_true hdepth

/-- There is one way to read lines as complete rows and an open one. -/
theorem Complete.pending_append (h : Complete T kind run) (hrow : OpenRow T kind row) :
    pending T (run ++ row) = row := by
  rw [pending, List.foldl_append, ← pending, h.pending_eq, hrow.foldl_eq]

/-- Lines of one kind are complete rows and, at their end, a row that may be open. -/
theorem exists_complete (huniform : ∀ line ∈ lines, line.kind = kind) :
    ∃ run row, lines = run ++ row ∧ Complete T kind run ∧ (row = [] ∨ OpenRow T kind row) := by
  induction lines using List.reverseRecOn with
  | nil => exact ⟨[], [], rfl, .nil, .inl rfl⟩
  | append_singleton lines line ih =>
    have hkind := huniform line (List.mem_append_right _ (List.mem_singleton_self line))
    obtain ⟨run, row, rfl, hrun, hrow⟩ :=
      ih fun other hmem => huniform other (List.mem_append_left _ hmem)
    rcases hrow with rfl | hrow
    · rw [List.append_nil]
      cases hstarts : line.startsRow T with
      | true => exact ⟨run, [line], rfl, hrun, .inr (openRow_singleton hkind hstarts)⟩
      | false =>
        exact ⟨run ++ [line], [], (List.append_nil _).symm, hrun.line hkind hstarts, .inl rfl⟩
    · by_cases hends : (line.endsRow T && totalDepth T (row ++ [line]) ≤ 0) = true
      · rw [Bool.and_eq_true, decide_eq_true_eq] at hends
        exact ⟨run ++ (row ++ [line]), [], by rw [List.append_assoc, List.append_nil],
          hrun.row hrow hkind hends.1 hends.2, .inl rfl⟩
      · refine ⟨run, row ++ [line], List.append_assoc _ _ _, hrun, .inr ?_⟩
        refine (hrow.append_iff fun _ hmem => List.mem_singleton.mp hmem ▸ hkind).mpr
          ⟨?_, trivial⟩
        rwa [totalDepth_append, totalDepth_singleton] at hends

/-! ## Groups -/

theorem flatten_singletons (row : List ChangedLine) : (row.map ([·])).flatten = row := by
  induction row with
  | nil => rfl
  | cons line row ih => rw [List.map_cons, List.flatten_cons, ih, List.singleton_append]

/-- The groups are a partition of the lines. -/
theorem rowGroups_flatten (row : List ChangedLine) (depth : ℤ) (lines : List ChangedLine) :
    (rowGroups T row depth lines).flatten = row ++ lines := by
  induction lines generalizing row depth with
  | nil => rw [rowGroups, flatten_singletons, List.append_nil]
  | cons line lines ih =>
    rw [rowGroups]
    split_ifs
    · rw [List.flatten_cons, ih, List.nil_append, List.append_assoc, List.singleton_append]
    · rw [ih, List.append_assoc, List.singleton_append]
    · rw [List.flatten_append, flatten_singletons, ih, List.singleton_append]
    · rw [List.flatten_append, flatten_singletons, List.flatten_cons, ih, List.nil_append,
        List.singleton_append]

theorem nil_not_mem_singletons (row : List ChangedLine) : [] ∉ row.map ([·]) := by
  intro hmem
  obtain ⟨line, -, hline⟩ := List.mem_map.mp hmem
  cases hline

theorem nil_not_mem_rowGroups (row : List ChangedLine) (depth : ℤ) (lines : List ChangedLine) :
    [] ∉ rowGroups T row depth lines := by
  induction lines generalizing row depth with
  | nil => exact nil_not_mem_singletons row
  | cons line lines ih =>
    rw [rowGroups]
    split_ifs
    · exact List.not_mem_cons_of_ne_of_not_mem (by simp) (ih [] 0)
    · exact ih _ _
    · exact fun hmem => (List.mem_append.mp hmem).elim (nil_not_mem_singletons row) (ih _ _)
    · exact fun hmem => (List.mem_append.mp hmem).elim (nil_not_mem_singletons row)
        (List.not_mem_cons_of_ne_of_not_mem (by simp) (ih _ _))

/-- A line of another kind ends an open row. -/
theorem rowGroups_cut (hline : ¬sameKind row line = true) (depth : ℤ) (rest : List ChangedLine) :
    rowGroups T row depth (line :: rest) =
      row.map ([·]) ++ rowGroups T [] 0 (line :: rest) := by
  have hnone : ¬sameKind [] line = true := Bool.false_ne_true
  rw [rowGroups, if_neg hline, rowGroups, if_neg hnone]
  rfl

/-- The groups before a place are settled by the lines before it, up to an open row. -/
theorem rowGroups_append (lines row : List ChangedLine) (depth : ℤ) :
    ∃ g row' depth', ∀ rest, rowGroups T row depth (lines ++ rest) =
      g ++ rowGroups T row' depth' rest := by
  induction lines generalizing row depth with
  | nil => exact ⟨[], row, depth, fun rest => rfl⟩
  | cons line lines ih =>
    by_cases hsame : sameKind row line = true
    · by_cases hends : (line.endsRow T && depth + line.depthChange T ≤ 0) = true
      · obtain ⟨g, row', depth', hgroups⟩ := ih [] 0
        refine ⟨(row ++ [line]) :: g, row', depth', fun rest => ?_⟩
        rw [List.cons_append, rowGroups, if_pos hsame, if_pos hends, hgroups, List.cons_append]
      · obtain ⟨g, row', depth', hgroups⟩ := ih (row ++ [line]) (depth + line.depthChange T)
        refine ⟨g, row', depth', fun rest => ?_⟩
        rw [List.cons_append, rowGroups, if_pos hsame, if_neg hends, hgroups]
    · by_cases hstarts : line.startsRow T = true
      · obtain ⟨g, row', depth', hgroups⟩ := ih [line] (line.depthChange T)
        refine ⟨row.map ([·]) ++ g, row', depth', fun rest => ?_⟩
        rw [List.cons_append, rowGroups, if_neg hsame, if_pos hstarts, hgroups, List.append_assoc]
      · obtain ⟨g, row', depth', hgroups⟩ := ih [] 0
        refine ⟨row.map ([·]) ++ [line] :: g, row', depth', fun rest => ?_⟩
        rw [List.cons_append, rowGroups, if_neg hsame, if_neg hstarts, hgroups, List.append_assoc,
          List.cons_append]

/-- What is open after a line has the kind of the line. -/
theorem rowGroups_line (row : List ChangedLine) (depth : ℤ) (line : ChangedLine) :
    ∃ g row' depth', (∀ rest, rowGroups T row depth (line :: rest) =
        g ++ rowGroups T row' depth' rest) ∧
      ∀ next, sameKind row' next = true → next.kind = line.kind := by
  by_cases hsame : sameKind row line = true
  · by_cases hends : (line.endsRow T && depth + line.depthChange T ≤ 0) = true
    · refine ⟨[row ++ [line]], [], 0, fun rest => ?_,
        fun _ hnext => absurd hnext Bool.false_ne_true⟩
      rw [rowGroups, if_pos hsame, if_pos hends]
      rfl
    · refine ⟨[], row ++ [line], depth + line.depthChange T, fun rest => ?_, fun next hnext => ?_⟩
      · rw [rowGroups, if_pos hsame, if_neg hends]
        rfl
      · cases row with
        | nil => cases hsame
        | cons first row =>
          have hfirst : first.kind = line.kind := of_decide_eq_true hsame
          have hfirst' : first.kind = next.kind := of_decide_eq_true hnext
          exact hfirst'.symm.trans hfirst
  · by_cases hstarts : line.startsRow T = true
    · refine ⟨row.map ([·]), [line], line.depthChange T, fun rest => ?_, fun next hnext => ?_⟩
      · rw [rowGroups, if_neg hsame, if_pos hstarts]
      · have hline : line.kind = next.kind := of_decide_eq_true hnext
        exact hline.symm
    · refine ⟨row.map ([·]) ++ [[line]], [], 0, fun rest => ?_,
        fun _ hnext => absurd hnext Bool.false_ne_true⟩
      rw [rowGroups, if_neg hsame, if_neg hstarts, List.append_assoc]
      rfl

/-- Lines that end in another kind leave nothing open. -/
theorem rowGroups_before (hlast : ∀ last ∈ lines.getLast?, last.kind ≠ line.kind) :
    ∃ g, g.flatten = lines ∧ ∀ rest, rowGroups T [] 0 (lines ++ line :: rest) =
      g ++ rowGroups T [] 0 (line :: rest) := by
  rcases List.eq_nil_or_concat lines with rfl | ⟨init, last, rfl⟩
  · exact ⟨[], rfl, fun rest => rfl⟩
  · rw [List.concat_eq_append] at hlast ⊢
    obtain ⟨g, row, depth, hinit⟩ := rowGroups_append (T := T) init [] 0
    obtain ⟨g', row', depth', hline, hkind⟩ := rowGroups_line (T := T) row depth last
    have hcut : ¬sameKind row' line = true := fun hsame =>
      hlast last (List.getLast?_concat) (hkind line hsame).symm
    have hgroups (rest : List ChangedLine) : rowGroups T [] 0 (init ++ [last] ++ line :: rest) =
        (g ++ (g' ++ row'.map ([·]))) ++ rowGroups T [] 0 (line :: rest) := by
      rw [List.append_assoc, List.singleton_append, hinit, hline, rowGroups_cut hcut]
      simp only [List.append_assoc]
    refine ⟨_, ?_, hgroups⟩
    have hflat := congrArg List.flatten (hgroups [])
    rw [rowGroups_flatten, List.flatten_append, rowGroups_flatten, List.nil_append,
      List.nil_append] at hflat
    exact (List.append_cancel_right hflat).symm

/-- A line of the kind of an open row. -/
theorem sameKind_of_uniform (hrow : row ≠ []) (huniform : ∀ line ∈ row, line.kind = kind) :
    sameKind row line = true ↔ line.kind = kind := by
  obtain ⟨first, row, rfl⟩ := List.exists_cons_of_ne_nil hrow
  rw [← huniform first List.mem_cons_self]
  exact decide_eq_true_iff.trans eq_comm

/-- Lines that do not close a row become part of it. -/
theorem rowGroups_open (hrow : row ≠ []) (huniform : ∀ line ∈ row ++ lines, line.kind = kind)
    (hopen : StaysOpen T depth lines) (rest : List ChangedLine) :
    rowGroups T row depth (lines ++ rest) =
      rowGroups T (row ++ lines) (depth + totalDepth T lines) rest := by
  induction lines generalizing row depth with
  | nil => rw [List.nil_append, List.append_nil, totalDepth, List.map_nil, List.sum_nil, add_zero]
  | cons line lines ih =>
    have hsame : sameKind row line = true :=
      (sameKind_of_uniform hrow fun other hmem =>
        huniform other (List.mem_append_left _ hmem)).mpr
          (huniform line (List.mem_append_right _ List.mem_cons_self))
    rw [List.append_cons] at huniform
    rw [List.cons_append, rowGroups, if_pos hsame, if_neg hopen.1,
      ih (by simp) huniform hopen.2, totalDepth_cons, add_assoc, ← List.append_cons]

/-- A row that no line of its kind closes is taken apart. -/
theorem rowGroups_never_closed (hrow : row ≠ []) (huniform : ∀ line ∈ row, line.kind = kind)
    (hopen : StaysOpen T depth (lines.takeWhile (·.kind = kind))) :
    ∃ g, rowGroups T row depth lines =
      (row ++ lines.takeWhile (·.kind = kind)).map ([·]) ++ g := by
  have huniform' (line : ChangedLine) (hline : line ∈ row ++ lines.takeWhile (·.kind = kind)) :
      line.kind = kind := by
    rcases List.mem_append.mp hline with hline | hline
    · exact huniform line hline
    · have hkind := List.mem_takeWhile_imp hline
      exact of_decide_eq_true hkind
  have hgroups := rowGroups_open hrow huniform' hopen (lines.dropWhile (·.kind = kind))
  rw [List.takeWhile_append_dropWhile] at hgroups
  rw [hgroups]
  cases hrest : lines.dropWhile (·.kind = kind) with
  | nil => exact ⟨[], (List.append_nil _).symm⟩
  | cons line rest =>
    have hline : ¬line.kind = kind := by
      have := List.head?_dropWhile_not (fun line : ChangedLine => decide (line.kind = kind)) lines
      rw [hrest] at this
      simpa using this
    refine ⟨_, rowGroups_cut (fun hsame => hline ?_) _ _⟩
    exact (sameKind_of_uniform (by simp [hrow]) huniform').mp hsame

/-- A row that a line of its kind closes is a group with the lines up to it. -/
theorem rowGroups_closed (hrow : row ≠ []) (huniform : ∀ line ∈ row, line.kind = kind)
    (hclosed : ¬StaysOpen T depth (lines.takeWhile (·.kind = kind))) :
    ∃ taken g, taken ≠ [] ∧ rowGroups T row depth lines = (row ++ taken) :: g := by
  induction lines generalizing row depth with
  | nil => exact absurd trivial hclosed
  | cons line lines ih =>
    by_cases hkind : line.kind = kind
    · have hsame := (sameKind_of_uniform hrow huniform).mpr hkind
      rw [List.takeWhile_cons, if_pos (by simpa using hkind), StaysOpen] at hclosed
      by_cases hends : (line.endsRow T && depth + line.depthChange T ≤ 0) = true
      · refine ⟨[line], rowGroups T [] 0 lines, List.cons_ne_nil _ _, ?_⟩
        rw [rowGroups, if_pos hsame, if_pos hends]
      · have huniform' (other : ChangedLine) (hother : other ∈ row ++ [line]) :
            other.kind = kind := by
          rcases List.mem_append.mp hother with hother | hother
          · exact huniform other hother
          · exact List.mem_singleton.mp hother ▸ hkind
        obtain ⟨taken, g, -, hgroups⟩ := ih (by simp) huniform' fun h => hclosed ⟨hends, h⟩
        refine ⟨line :: taken, g, List.cons_ne_nil _ _, ?_⟩
        rw [rowGroups, if_pos hsame, if_neg hends, hgroups, List.append_assoc,
          List.singleton_append]
    · rw [List.takeWhile_cons, if_neg (by simpa using hkind)] at hclosed
      exact absurd trivial hclosed

/-- An open row is read from its first line. -/
theorem OpenRow.rowGroups_eq (h : OpenRow T kind row) (rest : List ChangedLine) :
    rowGroups T [] 0 (row ++ rest) = rowGroups T row (totalDepth T row) rest := by
  obtain ⟨line, lines, rfl, hstarts, hopen⟩ := h.starts
  have hnone : ¬sameKind [] line = true := Bool.false_ne_true
  have hgroups := rowGroups_open (List.cons_ne_nil line [])
    (fun other hmem => h.uniform other hmem) hopen rest
  rw [List.cons_append, rowGroups, if_neg hnone, if_pos hstarts, hgroups, totalDepth_cons]
  rfl

/-- Complete lines are groups of their own. -/
theorem Complete.rowGroups_eq (h : Complete T kind run) :
    ∃ g, ∀ rest, rowGroups T [] 0 (run ++ rest) = g ++ rowGroups T [] 0 rest := by
  induction h with
  | nil => exact ⟨[], fun rest => rfl⟩
  | @line run line hrun hkind hstarts ih =>
    obtain ⟨g, hgroups⟩ := ih
    have hnone : ¬sameKind [] line = true := Bool.false_ne_true
    refine ⟨g ++ [[line]], fun rest => ?_⟩
    rw [List.append_assoc, List.singleton_append, hgroups, rowGroups, if_neg hnone,
      if_neg (Bool.eq_false_iff.mp hstarts), List.append_assoc]
    rfl
  | @row run row line hrun hrow hkind hends hdepth ih =>
    obtain ⟨g, hgroups⟩ := ih
    refine ⟨g ++ [row ++ [line]], fun rest => ?_⟩
    have hsame := (sameKind_of_uniform hrow.ne_nil hrow.uniform).mpr hkind
    rw [totalDepth_append, totalDepth_singleton] at hdepth
    rw [List.append_assoc, List.append_assoc, hgroups, hrow.rowGroups_eq, List.singleton_append,
      rowGroups, if_pos hsame, if_pos (by rw [hends, Bool.true_and, decide_eq_true hdepth]),
      List.append_assoc]
    rfl

end runs

/-! ## Blocks -/

theorem staysOpen_of_positive {depth : ℤ} {lines : List ChangedLine}
    (h : ∀ taken, taken ≠ [] → taken <+: lines → 0 < depth + totalDepth T taken) :
    StaysOpen T depth lines := by
  induction lines generalizing depth with
  | nil => trivial
  | cons line lines ih =>
    refine ⟨fun hends => ?_, ih fun taken hne hprefix => ?_⟩
    · have hline := h [line] (List.cons_ne_nil _ _) ⟨lines, rfl⟩
      rw [totalDepth_singleton] at hline
      rw [Bool.and_eq_true, decide_eq_true_eq] at hends
      omega
    · have htaken := h (line :: taken) (List.cons_ne_nil _ _)
        (List.cons_prefix_cons.mpr ⟨rfl, hprefix⟩)
      rwa [totalDepth_cons, ← add_assoc] at htaken

namespace RowBlock

variable (block : RowBlock T)

theorem lines_eq : block.lines = block.lines.dropLast ++ [block.last] :=
  (List.dropLast_append_getLast _).symm

theorem last_eq (hrest : block.rest = []) : block.last = block.first := by
  simp only [last, hrest, List.getLast_singleton]

theorem last_kind : block.last.kind = block.kind :=
  block.uniform _ (List.getLast_mem (List.cons_ne_nil _ _))

/-- A block of several lines starts a row. -/
theorem first_starts (hrest : block.rest ≠ []) : block.first.startsRow T = true := by
  have hfirst := block.stays_open [block.first] (List.cons_ne_nil _ _) ⟨block.rest, rfl⟩
    fun h => hrest (List.cons.inj h).2.symm
  rw [totalDepth_singleton] at hfirst
  rw [ChangedLine.startsRow, block.opens, decide_eq_true hfirst]
  rfl

/-- The row stays open up to its last line. -/
theorem dropLast_open (hrest : block.rest ≠ []) : OpenRow T block.kind block.lines.dropLast := by
  have hlines : block.lines.dropLast = block.first :: block.rest.dropLast :=
    List.dropLast_cons_of_ne_nil hrest
  refine ⟨fun line hline => block.uniform line (List.mem_of_mem_dropLast hline), block.first,
    block.rest.dropLast, hlines, block.first_starts hrest, ?_⟩
  refine staysOpen_of_positive fun taken hne hprefix => ?_
  have hle := hprefix.length_le
  rw [List.length_dropLast] at hle
  have hpos := List.length_pos_of_ne_nil hrest
  have htaken := block.stays_open (block.first :: taken) (List.cons_ne_nil _ _)
    (List.cons_prefix_cons.mpr ⟨rfl, hprefix.trans (List.dropLast_prefix _)⟩) fun h => by
      rw [(List.cons.inj h).2] at hle
      omega
  rwa [totalDepth_cons] at htaken

theorem totalDepth_lines : totalDepth T block.lines = 0 := block.balanced

/-- `</tr>` closes a block. -/
theorem rowGroups_eq (hends : block.last.endsRow T = true) (rest : List ChangedLine) :
    rowGroups T [] 0 (block.lines ++ rest) = block.lines :: rowGroups T [] 0 rest := by
  have hnone : ¬sameKind [] block.first = true := Bool.false_ne_true
  by_cases hrest : block.rest = []
  · have hdepth := block.balanced
    rw [hrest, totalDepth_singleton] at hdepth
    rw [block.last_eq hrest] at hends
    have hstarts : ¬block.first.startsRow T = true := by
      rw [ChangedLine.startsRow, hends, hdepth]
      simp
    rw [lines, hrest, List.singleton_append, rowGroups, if_neg hnone, if_neg hstarts]
    rfl
  · have hrow := block.dropLast_open hrest
    have hsame := (sameKind_of_uniform hrow.ne_nil hrow.uniform).mpr block.last_kind
    have hdepth := block.totalDepth_lines
    rw [block.lines_eq, totalDepth_append, totalDepth_singleton] at hdepth
    rw [block.lines_eq, List.append_assoc, hrow.rowGroups_eq, List.singleton_append, rowGroups,
      if_pos hsame, if_pos]
    rw [hends, Bool.true_and, decide_eq_true hdepth.le]

/-- Without it a block stays open. -/
theorem lines_open (hends : ¬block.last.endsRow T = true) : OpenRow T block.kind block.lines := by
  by_cases hrest : block.rest = []
  · rw [block.last_eq hrest, Bool.not_eq_true] at hends
    rw [lines, hrest]
    refine openRow_singleton (block.uniform _ List.mem_cons_self) ?_
    rw [ChangedLine.startsRow, block.opens, hends]
    simp
  · rw [block.lines_eq]
    refine ((block.dropLast_open hrest).append_iff fun line hline => ?_).mpr ⟨fun h => ?_, trivial⟩
    · rw [List.mem_singleton.mp hline]
      exact block.last_kind
    · rw [Bool.and_eq_true] at h
      exact hends h.1

end RowBlock

/-! ## Elements and groups -/

/-- An element shows the lines of its group. -/
theorem joined_inj {g g' : List ChangedLine} (hg : ∀ line ∈ g, '\n' ∉ line.content)
    (hg' : ∀ line ∈ g', '\n' ∉ line.content) (h : joined g = joined g') :
    g.map (·.content) = g'.map (·.content) := by
  cases g with
  | nil =>
    cases g' with
    | nil => rfl
    | cons line' g' => cases h
  | cons line g =>
    cases g' with
    | nil => cases h
    | cons line' g' =>
      rw [joined, joined, Option.some.injEq, ChangedLine.mk.injEq] at h
      have hsplit := congrArg (List.splitOn '\n') h.2
      rwa [List.splitOn_intercalate '\n' _ (by simp), List.splitOn_intercalate '\n' _ (by simp)]
        at hsplit
      · intro content hcontent
        obtain ⟨line, hline, rfl⟩ := List.mem_map.mp hcontent
        exact hg' line hline
      · intro content hcontent
        obtain ⟨line, hline, rfl⟩ := List.mem_map.mp hcontent
        exact hg line hline

/-- Two partitions of lines with the same elements are equal. -/
theorem groups_eq_of_joined {g g' : List (List ChangedLine)} (hne : [] ∉ g) (hne' : [] ∉ g')
    (hlines : ∀ line ∈ g.flatten, '\n' ∉ line.content) (hflat : g.flatten = g'.flatten)
    (h : g.filterMap joined = g'.filterMap joined) : g = g' := by
  induction g generalizing g' with
  | nil =>
    cases g' with
    | nil => rfl
    | cons first' g' =>
      rw [List.flatten_nil, List.flatten_cons, eq_comm, List.append_eq_nil_iff] at hflat
      rw [hflat.1] at hne'
      exact absurd List.mem_cons_self hne'
  | cons first g ih =>
    cases g' with
    | nil =>
      rw [List.flatten_nil, List.flatten_cons, List.append_eq_nil_iff] at hflat
      rw [hflat.1] at hne
      exact absurd List.mem_cons_self hne
    | cons first' g' =>
      obtain ⟨line, row, rfl⟩ := List.exists_cons_of_ne_nil
        (List.ne_of_not_mem_cons hne : ([] : List ChangedLine) ≠ first).symm
      obtain ⟨line', row', rfl⟩ := List.exists_cons_of_ne_nil
        (List.ne_of_not_mem_cons hne' : ([] : List ChangedLine) ≠ first').symm
      have hlines' := hlines
      rw [hflat] at hlines'
      rw [List.filterMap_cons, List.filterMap_cons] at h
      rw [joined, joined] at h
      dsimp only at h
      rw [List.cons.injEq] at h
      have hcontents := joined_inj
        (fun other hmem => hlines other (List.mem_flatten_of_mem List.mem_cons_self hmem))
        (fun other hmem => hlines' other (List.mem_flatten_of_mem List.mem_cons_self hmem))
        (congrArg some h.1)
      have hlength := congrArg List.length hcontents
      rw [List.length_map, List.length_map] at hlength
      rw [List.flatten_cons, List.flatten_cons] at hflat
      obtain ⟨hfirst, hrest⟩ := List.append_inj hflat hlength
      rw [hfirst, ih (fun hmem => hne (List.mem_cons_of_mem _ hmem))
        (fun hmem => hne' (List.mem_cons_of_mem _ hmem))
        (fun other hmem => hlines other (List.mem_append_right _ hmem)) hrest h.2]

theorem filterMap_joined_filter (g : List (List ChangedLine)) :
    (g.filter (· ≠ [])).filterMap joined = g.filterMap joined := by
  rw [List.filterMap_filter]
  refine List.filterMap_congr fun group _ => ?_
  cases group <;> rfl

section survival

variable {before after : List ChangedLine} {block : RowBlock T}

/-- A block survives when it is a group. -/
theorem survives_iff_group
    (hlines : ∀ line ∈ before ++ block.lines ++ after, '\n' ∉ line.content) :
    Survives before block after ↔ ∃ g g', g.flatten = before ∧
      rowGroups T [] 0 (before ++ block.lines ++ after) = g ++ block.lines :: g' := by
  constructor
  · rintro ⟨g, g', rfl, rfl, hout⟩
    rw [coalesce_eq, ← filterMap_joined_filter (g ++ _)] at hout
    have hne : ([] : List ChangedLine) ∉ (g ++ block.lines :: g').filter (· ≠ []) := by simp
    have hflat : (rowGroups T [] 0 (g.flatten ++ block.lines ++ g'.flatten)).flatten =
        ((g ++ block.lines :: g').filter (· ≠ [])).flatten := by
      rw [rowGroups_flatten, List.flatten_filter_ne_nil, List.flatten_append, List.flatten_cons,
        List.append_assoc, List.nil_append]
    have heq := groups_eq_of_joined (nil_not_mem_rowGroups [] 0 _) hne
      (by rwa [rowGroups_flatten]) hflat hout
    refine ⟨g.filter (· ≠ []), g'.filter (· ≠ []), List.flatten_filter_ne_nil, ?_⟩
    rw [heq, List.filter_append, List.filter_cons, if_pos (by simp [RowBlock.lines])]
  · rintro ⟨g, g', rfl, hgroups⟩
    refine ⟨g, g', rfl, ?_, by rw [coalesce_eq, hgroups]⟩
    have hflat := congrArg List.flatten hgroups
    rw [rowGroups_flatten, List.flatten_append, List.flatten_cons, List.nil_append,
      List.append_assoc, List.append_cancel_left_eq, List.append_cancel_left_eq] at hflat
    exact hflat.symm

/-- A block survives when it is the group at its place. -/
theorem survives_iff_eq {g g' : List (List ChangedLine)} {first : List ChangedLine}
    (hlines : ∀ line ∈ before ++ block.lines ++ after, '\n' ∉ line.content)
    (hflat : g.flatten = before)
    (hgroups : rowGroups T [] 0 (before ++ block.lines ++ after) = g ++ first :: g') :
    Survives before block after ↔ first = block.lines := by
  rw [survives_iff_group hlines]
  constructor
  · rintro ⟨h, h', hflat', hgroups'⟩
    have hne := nil_not_mem_rowGroups (T := T) [] 0 (before ++ block.lines ++ after)
    rw [hgroups] at hgroups' hne
    obtain ⟨-, heq⟩ := List.boundary_unique hgroups' hne (by rw [hflat, hflat'])
    exact (List.cons.inj heq).1
  · rintro rfl
    exact ⟨g, g', hflat, hgroups⟩

/-- The groups up to a block, when the lines of its kind before it are complete rows and an open
one. -/
theorem rowGroups_at {run row : List ChangedLine} (hrun : block.runBefore before = run ++ row)
    (hcomplete : Complete T block.kind run) (hrow : row = [] ∨ OpenRow T block.kind row)
    (rest : List ChangedLine) :
    ∃ g, g.flatten ++ row = before ∧ rowGroups T [] 0 (before ++ (block.lines ++ rest)) =
      g ++ rowGroups T row (totalDepth T row) (block.lines ++ rest) := by
  have hbefore : before.rdropWhile (·.kind = block.kind) ++ block.runBefore before = before :=
    List.rdropWhile_append_rtakeWhile
  obtain ⟨next, tail, htail, hnext⟩ : ∃ next tail,
      run ++ row ++ (block.lines ++ rest) = next :: tail ∧ next.kind = block.kind := by
    cases hlines : run ++ row with
    | nil => exact ⟨block.first, block.rest ++ rest, rfl, block.uniform _ List.mem_cons_self⟩
    | cons next lines =>
      refine ⟨next, lines ++ (block.lines ++ rest), rfl, ?_⟩
      have hmem : next ∈ block.runBefore before := by
        rw [hrun, hlines]
        exact List.mem_cons_self
      have hkind := List.mem_rtakeWhile_imp hmem
      exact of_decide_eq_true hkind
  have hlast (last : ChangedLine)
      (hmem : last ∈ (before.rdropWhile (·.kind = block.kind)).getLast?) :
      last.kind ≠ next.kind := by
    have hnot := List.head?_dropWhile_not (fun line : ChangedLine => line.kind = block.kind)
      before.reverse
    rw [List.rdropWhile, List.getLast?_reverse, Option.mem_def] at hmem
    rw [hmem] at hnot
    rw [hnext]
    exact of_decide_eq_false (Bool.eq_false_of_not_eq_true (by simpa using hnot))
  obtain ⟨g, -, hg⟩ := rowGroups_before (T := T) hlast
  obtain ⟨g', hg'⟩ := hcomplete.rowGroups_eq
  have hopen : rowGroups T [] 0 (row ++ (block.lines ++ rest)) =
      rowGroups T row (totalDepth T row) (block.lines ++ rest) := by
    rcases hrow with rfl | hrow
    · rfl
    · exact hrow.rowGroups_eq _
  have hgroups : rowGroups T [] 0 (before ++ (block.lines ++ rest)) =
      (g ++ g') ++ rowGroups T row (totalDepth T row) (block.lines ++ rest) := by
    conv_lhs => rw [← hbefore]
    rw [hrun, List.append_assoc, htail, hg, ← htail, List.append_assoc, hg', hopen,
      List.append_assoc]
  refine ⟨g ++ g', ?_, hgroups⟩
  have hflat := congrArg List.flatten hgroups
  rw [List.flatten_append, rowGroups_flatten, rowGroups_flatten, List.nil_append,
    ← List.append_assoc, ← List.append_assoc, ← List.append_assoc] at hflat
  exact (List.append_cancel_right (List.append_cancel_right hflat)).symm

/-- What an open row before a block asks for. -/
theorem unobstructed_open {run row : List ChangedLine}
    (hrun : block.runBefore before = run ++ row) (hcomplete : Complete T block.kind run)
    (hrow : OpenRow T block.kind row) :
    Unobstructed before block after ↔ block.rest = [] ∧
      OpenRow T block.kind (row ++ (block.lines ++ after.takeWhile (·.kind = block.kind))) := by
  have hpending := hcomplete.pending_append hrow
  rw [← hrun] at hpending
  constructor
  · rintro (⟨hcomplete', -⟩ | ⟨hrest, run', row', hrun', hcomplete', hrow'⟩)
    · exact absurd (hpending.symm.trans hcomplete'.pending_eq) hrow.ne_nil
    · refine ⟨hrest, ?_⟩
      rw [List.append_assoc] at hrow'
      by_cases hnil : row' = []
      · rw [hnil, List.append_nil] at hrun'
        rw [hrun', hcomplete'.pending_eq] at hpending
        exact absurd hpending.symm hrow.ne_nil
      · have hpending' := hcomplete'.pending_append (hrow'.of_append hnil)
        rw [← hrun', hpending] at hpending'
        rwa [hpending']
  · rintro ⟨hrest, hopen⟩
    exact .inr ⟨hrest, run, row, hrun, hcomplete, by rwa [List.append_assoc]⟩

/-- What complete rows before a block ask for. -/
theorem unobstructed_complete (hcomplete : Complete T block.kind (block.runBefore before)) :
    Unobstructed before block after ↔ block.last.endsRow T = true ∨ block.rest = [] ∧
      OpenRow T block.kind (block.lines ++ after.takeWhile (·.kind = block.kind)) := by
  constructor
  · rintro (⟨-, hends⟩ | ⟨hrest, run, row, hrun, hcomplete', hrow⟩)
    · exact .inl hends
    · refine .inr ⟨hrest, ?_⟩
      rw [List.append_assoc] at hrow
      by_cases hnil : row = []
      · rwa [hnil] at hrow
      · have hpending := hcomplete'.pending_append (hrow.of_append hnil)
        rw [← hrun, hcomplete.pending_eq] at hpending
        exact absurd hpending.symm hnil
  · rintro (hends | ⟨hrest, hopen⟩)
    · exact .inl ⟨hcomplete, hends⟩
    · exact .inr ⟨hrest, _, [], (List.append_nil _).symm, hcomplete, hopen⟩

/-- A block that is taken apart survives when it is one line. -/
theorem singleton_eq_lines : [block.first] = block.lines ↔ block.rest = [] := by
  rw [RowBlock.lines, List.cons.injEq]
  exact ⟨fun h => h.2.symm, fun h => ⟨rfl, h.symm⟩⟩

end survival

/-- **A complete row** is emitted as one element exactly when nothing is in its way. -/
theorem row_survives_iff (before after : List ChangedLine) (block : RowBlock T)
    (hlines : ∀ line ∈ before ++ block.lines ++ after, '\n' ∉ line.content) :
    Survives before block after ↔ Unobstructed before block after := by
  have huniform (line : ChangedLine) (hline : line ∈ block.runBefore before) :
      line.kind = block.kind := by
    have hkind := List.mem_rtakeWhile_imp hline
    exact of_decide_eq_true hkind
  obtain ⟨run, row, hrun, hcomplete, hrow⟩ := exists_complete (T := T) huniform
  obtain ⟨g, hflat, hgroups⟩ := rowGroups_at hrun hcomplete hrow after
  rw [← List.append_assoc] at hgroups
  rcases hrow with rfl | hrow
  · rw [List.append_nil] at hflat hrun
    rw [← hrun] at hcomplete
    rw [unobstructed_complete hcomplete]
    by_cases hends : block.last.endsRow T = true
    · rw [show totalDepth T [] = 0 from rfl, block.rowGroups_eq hends] at hgroups
      rw [survives_iff_eq hlines hflat hgroups]
      exact iff_of_true rfl (.inl hends)
    · -- the block itself is left open
      have hopen := block.lines_open hends
      rw [show totalDepth T [] = 0 from rfl, hopen.rowGroups_eq] at hgroups
      rw [or_iff_right hends, hopen.append_iff fun line hline => by
        have hkind := List.mem_takeWhile_imp hline
        exact of_decide_eq_true hkind]
      by_cases hstays : StaysOpen T (totalDepth T block.lines)
          (after.takeWhile (·.kind = block.kind))
      · obtain ⟨g', hg'⟩ := rowGroups_never_closed hopen.ne_nil hopen.uniform hstays
        rw [hg', RowBlock.lines, List.cons_append, List.map_cons, List.cons_append] at hgroups
        rw [survives_iff_eq hlines hflat hgroups, singleton_eq_lines, and_iff_left hstays]
      · obtain ⟨taken, g', hne, hg'⟩ :=
          rowGroups_closed hopen.ne_nil hopen.uniform hstays
        rw [hg'] at hgroups
        rw [survives_iff_eq hlines hflat hgroups]
        exact iff_of_false (fun h => hne (List.append_right_eq_self.mp h)) fun h => hstays h.2
  · -- a row is open before the block
    have hblock (line : ChangedLine)
        (hline : line ∈ (block.lines ++ after).takeWhile (·.kind = block.kind)) :
        line.kind = block.kind := by
      have hkind := List.mem_takeWhile_imp hline
      exact of_decide_eq_true hkind
    have htake : (block.lines ++ after).takeWhile (·.kind = block.kind) =
        block.lines ++ after.takeWhile (·.kind = block.kind) :=
      List.takeWhile_append_of_pos fun line hline => decide_eq_true (block.uniform line hline)
    rw [unobstructed_open hrun hcomplete hrow, ← htake, hrow.append_iff hblock]
    rw [List.append_assoc] at hgroups
    by_cases hstays : StaysOpen T (totalDepth T row)
        ((block.lines ++ after).takeWhile (·.kind = block.kind))
    · obtain ⟨g', hg'⟩ := rowGroups_never_closed hrow.ne_nil hrow.uniform hstays
      have hfirst : rowGroups T [] 0 (before ++ block.lines ++ after) =
          (g ++ row.map ([·])) ++ [block.first] ::
            ((block.rest ++ after.takeWhile (·.kind = block.kind)).map ([·]) ++ g') := by
        rw [List.append_assoc, hgroups, hg', htake, List.map_append, RowBlock.lines,
          List.cons_append, List.map_cons]
        simp only [List.append_assoc, List.cons_append]
      rw [survives_iff_eq hlines (by rw [List.flatten_append, flatten_singletons, hflat]) hfirst,
        singleton_eq_lines, and_iff_left hstays]
    · obtain ⟨taken, g', hne, hg'⟩ := rowGroups_closed hrow.ne_nil hrow.uniform hstays
      refine iff_of_false (fun hsurvives => ?_) fun h => hstays h.2
      obtain ⟨h, h', hbefore, hgroups'⟩ := (survives_iff_group hlines).mp hsurvives
      have hnil := nil_not_mem_rowGroups (T := T) [] 0 (before ++ block.lines ++ after)
      rw [hgroups'] at hnil
      rw [List.append_assoc, hgroups, hg'] at hgroups'
      exact List.no_boundary hgroups'.symm hnil (by rw [hbefore, ← hflat]) hrow.ne_nil hne

/-- An added row of three lines. -/
def sampleBlock : RowBlock Libraries.ascii.toCharTables where
  kind := .added
  first := ⟨.added, "<tr>".toList⟩
  rest := [⟨.added, "<td>Acme</td>".toList⟩, ⟨.added, "</tr>".toList⟩]
  uniform := by decide +kernel
  opens := by decide +kernel
  stays_open lines hne hprefix hlines := by
    have hinits : ∀ lines ∈ ([⟨.added, "<tr>".toList⟩, ⟨.added, "<td>Acme</td>".toList⟩,
        ⟨.added, "</tr>".toList⟩] : List ChangedLine).inits, lines ≠ [] →
        lines ≠ [⟨.added, "<tr>".toList⟩, ⟨.added, "<td>Acme</td>".toList⟩,
          ⟨.added, "</tr>".toList⟩] →
        0 < totalDepth Libraries.ascii.toCharTables lines := by
      decide +kernel
    exact hinits lines ((List.mem_inits _ _).mpr hprefix) hne hlines
  balanced := by decide +kernel

/-- Prose before a row is not in its way. -/
theorem row_after_prose :
    Survives [⟨.added, "## Internships".toList⟩] sampleBlock [⟨.added, "</table>".toList⟩] := by
  refine (row_survives_iff [⟨.added, "## Internships".toList⟩] [⟨.added, "</table>".toList⟩]
    sampleBlock (by decide +kernel)).mpr (.inl ⟨?_, by decide +kernel⟩)
  have hprose : Complete Libraries.ascii.toCharTables .added
      ([] ++ [⟨.added, "## Internships".toList⟩]) := .line .nil rfl (by decide +kernel)
  exact hprose

/-- A stray cell before a row becomes part of it. -/
theorem stray_cell_joined :
    ¬Survives [⟨.added, "<td>Boston</td>".toList⟩] sampleBlock [] := by
  rintro ⟨g, g', -, -, hout⟩
  have hmem : ⟨.added, "<tr>\n<td>Acme</td>\n</tr>".toList⟩ ∈
      coalesceHtmlTableRows Libraries.ascii.toCharTables
        ([⟨.added, "<td>Boston</td>".toList⟩] ++ sampleBlock.lines ++ []) := by
    rw [hout]
    refine List.mem_filterMap.mpr ⟨sampleBlock.lines, ?_, by decide +kernel⟩
    exact List.mem_append_right _ List.mem_cons_self
  revert hmem
  decide +kernel

end JobPing
