import JobPing.MarkdownParser

/-!
# Cells of a rendered row

A row that is rendered with its bars is split at them again. `_split_row` appends no cell after the
closing bar, and drops the last cell all the same where it is empty (`splitRow_rendered`): the
cells come back exactly where the last one is not empty (`row_splitting_iff`).
-/

namespace JobPing

/-! ## Stripping blanks -/

namespace Unicode

variable {U : Unicode} {c : Char} {s : Str}

theorem strip_cons (hc : U.isSpace c = true) (s : Str) : U.strip (c :: s) = U.strip s := by
  rw [strip, strip, List.dropWhile_cons_of_pos hc]

theorem strip_concat (hc : U.isSpace c = true) (s : Str) : U.strip (s ++ [c]) = U.strip s := by
  rw [strip, strip, List.dropWhile_append]
  split_ifs with hblank
  · rw [List.isEmpty_iff.mp hblank, List.dropWhile_cons_of_pos hc, List.dropWhile_nil]
  · rw [List.reverse_append, List.reverse_singleton, List.singleton_append,
      List.dropWhile_cons_of_pos hc]

/-- A text between characters that are no white space is stripped. -/
theorem strip_between {first last : Char} (hfirst : U.isSpace first = false)
    (hlast : U.isSpace last = false) (s : Str) :
    U.strip (first :: s ++ [last]) = first :: s ++ [last] := by
  have hdrop : (first :: s ++ [last]).dropWhile U.isSpace = first :: s ++ [last] :=
    List.dropWhile_cons_of_neg (Bool.not_eq_true _ ▸ hfirst)
  rw [strip, hdrop, List.reverse_append, List.reverse_singleton, List.singleton_append,
    List.dropWhile_cons_of_neg (Bool.not_eq_true _ ▸ hlast), List.reverse_cons,
    List.reverse_reverse]

end Unicode

/-! ## Rendered rows -/

/-- The characters that mean something to the scanner. -/
def isMarkup (c : Char) : Bool := c ∈ ['|', '\\', '<', '>', '[', ']', '(', ')']

/-- A cell that is trimmed and has no markup. -/
structure PlainCell (L : Libraries) (cell : Str) : Prop where
  trimmed : L.strip cell = cell
  plain : ∀ c ∈ cell, isMarkup c = false

/-- `| c1 | c2 | ... | cn |`. -/
def renderedRow (cells : List Str) : Str :=
  '|' :: cells.flatMap fun cell => ' ' :: cell ++ [' ', '|']

variable {L : Libraries}

namespace Splitting

/-- The state outside tags and links. -/
def outside (cells : List Str) (current : Str) (previous : Option Char) : Splitting :=
  ⟨cells, current, false, none, false, 0, previous⟩

variable {cells : List Str} {current : Str} {previous : Option Char} {c : Char} {text : Str}

/-- A character without a meaning belongs to the cell. -/
theorem add_plain (hc : isMarkup c = false) :
    (outside cells current previous).add L c = outside cells (c :: current) (some c) := by
  simp only [isMarkup, List.mem_cons, List.not_mem_nil, or_false, decide_eq_false_iff_not,
    not_or] at hc
  obtain ⟨hpipe, hslash, hless, -, -, -, hopen, -⟩ := hc
  simp [add, enter, outside, hpipe, hslash, hless, hopen]

theorem foldl_plain (htext : ∀ c ∈ text, isMarkup c = false) :
    ∃ last, text.foldl (Splitting.add L) (outside cells current previous) =
      outside cells (text.reverse ++ current) last := by
  induction text generalizing current previous with
  | nil => exact ⟨previous, rfl⟩
  | cons c text ih =>
    obtain ⟨hc, htext⟩ := List.forall_mem_cons.mp htext
    obtain ⟨last, hlast⟩ := ih htext
    refine ⟨last, ?_⟩
    rw [List.foldl_cons, add_plain hc, hlast, List.reverse_cons, List.append_assoc,
      List.singleton_append]

/-- A bar ends the cell. -/
theorem add_bar : (outside cells current previous).add L '|' =
    outside (cells ++ [L.strip current.reverse]) [] (some '|') := by
  simp [add, enter, outside]

/-- **A rendered cell** is read back. -/
theorem foldl_cell (hblank : L.isSpace ' ' = true) {cell : Str} (hcell : PlainCell L cell) :
    (' ' :: cell ++ [' ', '|']).foldl (Splitting.add L) (outside cells [] previous) =
      outside (cells ++ [cell]) [] (some '|') := by
  have hplain : ∀ c ∈ ' ' :: cell ++ [' '], isMarkup c = false := by
    intro c hc
    rcases List.mem_append.mp hc with hc | hc
    · rcases List.mem_cons.mp hc with rfl | hc
      · rfl
      · exact hcell.plain c hc
    · obtain rfl := List.mem_singleton.mp hc
      rfl
  obtain ⟨last, hlast⟩ : ∃ last, (' ' :: cell ++ [' ']).foldl (Splitting.add L)
      (outside cells [] previous) = outside cells ((' ' :: cell ++ [' ']).reverse ++ []) last :=
    foldl_plain hplain
  have hsplit : ' ' :: cell ++ [' ', '|'] = (' ' :: cell ++ [' ']) ++ ['|'] := by simp
  rw [hsplit, List.foldl_append, hlast, List.foldl_cons, List.foldl_nil, add_bar,
    List.append_nil, List.reverse_reverse, L.strip_concat hblank, L.strip_cons hblank,
    hcell.trimmed]

theorem foldl_cells (hblank : L.isSpace ' ' = true) {rest : List Str}
    (hrest : ∀ cell ∈ rest, PlainCell L cell) :
    ∃ last, (rest.flatMap fun cell => ' ' :: cell ++ [' ', '|']).foldl (Splitting.add L)
      (outside cells [] previous) = outside (cells ++ rest) [] last := by
  induction rest generalizing cells previous with
  | nil => exact ⟨previous, by rw [List.append_nil]; rfl⟩
  | cons cell rest ih =>
    obtain ⟨hcell, hrest⟩ := List.forall_mem_cons.mp hrest
    obtain ⟨last, hlast⟩ := ih hrest
    refine ⟨last, ?_⟩
    rw [List.flatMap_cons, List.foldl_append, foldl_cell hblank hcell, hlast, List.append_assoc,
      List.singleton_append]

end Splitting

/-- A row with a cell ends in its closing bar. -/
theorem renderedRow_concat {cells : List Str} (hne : cells ≠ []) :
    ∃ inside, renderedRow cells = '|' :: inside ++ ['|'] := by
  obtain ⟨init, last, rfl⟩ := (List.eq_nil_or_concat cells).resolve_left hne
  refine ⟨(init.flatMap fun cell => ' ' :: cell ++ [' ', '|']) ++ ' ' :: last ++ [' '], ?_⟩
  rw [renderedRow, List.concat_eq_append, List.flatMap_append, List.flatMap_singleton]
  simp

/-- **What a rendered row is split into**: its cells, without the last one where it is empty. -/
theorem splitRow_rendered (hblank : L.isSpace ' ' = true) (hbar : L.isSpace '|' = false)
    {cells : List Str} (hne : cells ≠ []) (hcells : ∀ cell ∈ cells, PlainCell L cell) :
    splitRow L (renderedRow cells) =
      if cells.getLast? = some [] then cells.dropLast else cells := by
  obtain ⟨inside, hinside⟩ := renderedRow_concat hne
  have hstrip : L.strip (renderedRow cells) = renderedRow cells := by
    rw [hinside]
    exact L.strip_between hbar hbar inside
  have hend : (renderedRow cells).getLast? = some '|' := by
    rw [hinside]
    exact List.getLast?_concat
  obtain ⟨last, hfold⟩ : ∃ last, (renderedRow cells).tail.foldl (Splitting.add L)
      ⟨[], [], false, none, false, 0, none⟩ = Splitting.outside cells [] last :=
    Splitting.foldl_cells hblank hcells
  have hhead : (renderedRow cells).head? = some '|' := rfl
  unfold splitRow
  simp only [hstrip, hhead, hfold, hend, Splitting.outside, if_true, Bool.and_eq_true,
    decide_eq_true_eq, and_true]

/-- **Row splitting inverts row rendering** exactly where the last cell is not empty. -/
theorem row_splitting_iff (L : Libraries) (hblank : L.isSpace ' ' = true)
    (hbar : L.isSpace '|' = false) (cells : List Str) (hne : cells ≠ [])
    (hcells : ∀ cell ∈ cells, PlainCell L cell) :
    splitRow L (renderedRow cells) = cells ↔ cells.getLast? ≠ some [] := by
  rw [splitRow_rendered hblank hbar hne hcells]
  split_ifs with hlast
  · refine iff_of_false (fun heq => ?_) (not_not.mpr hlast)
    have hlength := congrArg List.length heq
    have hpos := List.length_pos_iff.mpr hne
    rw [List.length_dropLast] at hlength
    omega
  · exact iff_of_true rfl hlast

theorem not_markup_of_any {cell : Str} (h : cell.any isMarkup = false) :
    ∀ c ∈ cell, isMarkup c = false :=
  fun c hc => Bool.eq_false_iff.mpr (List.any_eq_false.mp h c hc)

/-- A row of two cells. -/
theorem two_cells_split : splitRow .ascii (renderedRow ["Acme".toList, "1d".toList]) =
      ["Acme".toList, "1d".toList] ↔ ["Acme".toList, "1d".toList].getLast? ≠ some [] :=
  row_splitting_iff .ascii rfl rfl _ (List.cons_ne_nil _ _) <| by
    intro cell hcell
    simp only [List.mem_cons, List.not_mem_nil, or_false] at hcell
    rcases hcell with rfl | rfl
    · exact ⟨by decide, not_markup_of_any rfl⟩
    · exact ⟨by decide, not_markup_of_any rfl⟩

/-- A row whose last cell is empty has one cell less. -/
theorem empty_cell_dropped :
    splitRow .ascii (renderedRow ["Acme".toList, []]) ≠ ["Acme".toList, []] := by
  decide

end JobPing
