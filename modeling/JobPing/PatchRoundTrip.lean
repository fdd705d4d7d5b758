import JobPing.GitPatchParser
import Mathlib.Algebra.Order.BigOperators.Group.List
import Mathlib.Algebra.Order.Ring.Nat

/-!
# Patches and their lines

A hunk is rendered as a header and its lines, each after its sign. The parser gives back the added
and removed lines of a hunk exactly when no change has a line end inside or reads like the header of
a file, and nothing after a line end of another line reads like a change (`parse_render_iff`).
-/

namespace JobPing

variable {U : Unicode}

/-! ## Hunks -/

/-- A line of a hunk; a line of context has no kind. -/
structure HunkLine where
  kind : Option ChangeKind
  content : Str
  one_line : '\n' ∉ content

/-- A hunk, with what follows `@@` in its header. -/
structure Hunk where
  heading : Str
  one_line : '\n' ∉ heading
  lines : List HunkLine

/-- The sign before a line. -/
def sign : Option ChangeKind → Char
  | some .added => '+'
  | some .removed => '-'
  | none => ' '

def HunkLine.render (line : HunkLine) : Str := sign line.kind :: line.content

/-- The added or removed line. -/
def HunkLine.change (line : HunkLine) : Option ChangedLine := line.kind.map (⟨·, line.content⟩)

namespace Hunk

variable (hunk : Hunk)

def header : Str := '@' :: '@' :: hunk.heading

/-- The patch of a hunk. -/
def render : Str := ['\n'].intercalate (hunk.header :: hunk.lines.map HunkLine.render)

/-- The added and removed lines. -/
def changes : List ChangedLine := hunk.lines.filterMap HunkLine.change

end Hunk

/-- A change has no line end inside and does not read like the header of a file; after a line end of
another line there is nothing that reads like a change. -/
def HunkLine.Clean (U : Unicode) (line : HunkLine) : Prop :=
  match line.kind with
  | some _ => (∀ c ∈ line.content, c ∉ lineEnds) ∧ isFileHeader U line.render = false
  | none => ∀ piece ∈ pieces line.render, changedLine U piece = none

def Hunk.Clean (U : Unicode) (hunk : Hunk) : Prop :=
  (∀ piece ∈ pieces hunk.header, changedLine U piece = none) ∧ ∀ line ∈ hunk.lines, line.Clean U

/-! ## Lines of a patch -/

theorem length_flatMap_le {α β : Type} {f g : α → List β} {l : List α}
    (hsub : ∀ a ∈ l, (g a).Sublist (f a)) : (l.flatMap g).length ≤ (l.flatMap f).length := by
  rw [List.length_flatMap, List.length_flatMap]
  exact List.sum_le_sum fun a ha => (hsub a ha).length_le

/-- Lists that contain others, and together are as long, are equal to them. -/
theorem eq_of_flatMap_eq {α β : Type} {f g : α → List β} {l : List α}
    (hsub : ∀ a ∈ l, (g a).Sublist (f a)) (h : l.flatMap f = l.flatMap g) :
    ∀ a ∈ l, f a = g a := by
  induction l with
  | nil => exact fun a ha => absurd ha List.not_mem_nil
  | cons a l ih =>
    have hrest (b : α) (hb : b ∈ l) : (g b).Sublist (f b) := hsub b (List.mem_cons_of_mem _ hb)
    have hfirst : (g a).length ≤ (f a).length := (hsub a List.mem_cons_self).length_le
    have hle := length_flatMap_le hrest
    have hlength := congrArg List.length h
    rw [List.flatMap_cons, List.flatMap_cons, List.length_append, List.length_append] at hlength
    have heq : g a = f a := (hsub a List.mem_cons_self).eq_of_length (by omega)
    rw [List.flatMap_cons, List.flatMap_cons, heq, List.append_cancel_left_eq] at h
    intro b hb
    rcases List.mem_cons.mp hb with rfl | hb
    · exact heq.symm
    · exact ih hrest h b hb

/-- The pieces of lines that are joined. -/
theorem pieces_intercalate (ls : List Str) :
    pieces (['\n'].intercalate ls) = ls.flatMap pieces := by
  induction ls with
  | nil => rfl
  | cons line ls ih =>
    cases ls with
    | nil =>
      rw [List.intercalate_singleton, List.flatMap_singleton]
    | cons next ls =>
      rw [List.intercalate_cons_cons, List.append_assoc, List.singleton_append,
        pieces_append (by decide), ih]
      rfl

/-- What the parser reads of a line: the changes among its pieces. -/
def lineChanges (U : Unicode) (line : Str) : List ChangedLine :=
  (pieces line).filterMap (changedLine U)

theorem changedLines_render (hunk : Hunk) :
    changedLines U hunk.render =
      lineChanges U hunk.header ++ hunk.lines.flatMap fun line => lineChanges U line.render := by
  rw [changedLines_pieces, Hunk.render, pieces_intercalate, List.flatMap_cons,
    List.filterMap_append, List.filterMap_flatMap, List.flatMap_map]
  rfl

/-- A change that is read has no line end inside and did not read like the header of a file. -/
theorem of_mem_changedLines {patch : Str} {change : ChangedLine}
    (h : change ∈ changedLines U patch) :
    (∀ c ∈ change.content, c ∉ lineEnds) ∧
      isFileHeader U (sign (some change.kind) :: change.content) = false := by
  rw [changedLines_pieces, List.mem_filterMap] at h
  obtain ⟨piece, hpiece, hchange⟩ := h
  have hline (c : Char) (hc : c ∈ piece) : c ∉ lineEnds := not_mem_of_pieces hpiece hc
  unfold changedLine at hchange
  split_ifs at hchange with hheader hadded hremoved
  · obtain ⟨content, rfl⟩ := List.head?_eq_some_iff.mp hadded
    obtain rfl := Option.some.inj hchange
    exact ⟨fun c hc => hline c (List.mem_cons_of_mem _ hc), Bool.eq_false_of_not_eq_true hheader⟩
  · obtain ⟨content, rfl⟩ := List.head?_eq_some_iff.mp hremoved
    obtain rfl := Option.some.inj hchange
    exact ⟨fun c hc => hline c (List.mem_cons_of_mem _ hc), Bool.eq_false_of_not_eq_true hheader⟩

/-- A clean line is read as it was written. -/
theorem HunkLine.Clean.lineChanges {line : HunkLine} (h : line.Clean U) :
    lineChanges U line.render = line.change.toList := by
  unfold HunkLine.Clean at h
  obtain ⟨kind, content, hone⟩ := line
  cases kind with
  | none => exact List.filterMap_eq_nil_iff.mpr h
  | some kind =>
    obtain ⟨hline, hheader⟩ := h
    have hpieces : pieces (HunkLine.render ⟨some kind, content, hone⟩) =
        [sign (some kind) :: content] := by
      refine pieces_line (List.cons_ne_nil _ _) fun c hc => ?_
      rcases List.mem_cons.mp hc with rfl | hc
      · change sign (some kind) ∉ lineEnds
        cases kind <;> decide
      · exact hline c hc
    rw [JobPing.lineChanges, hpieces, List.filterMap_cons, changedLine, if_neg]
    · cases kind <;> rfl
    · exact Bool.eq_false_iff.mp hheader

/-- **Round trip.** The parser gives back the changes of a hunk if and only if the hunk is clean. -/
theorem parse_render_iff (hunk : Hunk) (filename : Option Str) :
    (parsePatch U (some hunk.render) filename).lines = hunk.changes ↔ hunk.Clean U := by
  have hparse : (parsePatch U (some hunk.render) filename).lines =
      changedLines U hunk.render := by
    have hrender : truthy (some hunk.render) = true := by
      rw [Hunk.render, Hunk.header]
      cases hunk.lines <;> rfl
    rw [parsePatch, if_pos hrender]
    rfl
  have hchanges : hunk.changes = hunk.lines.flatMap fun line => line.change.toList := by
    rw [Hunk.changes, List.filterMap_eq_flatMap_toList]
  rw [hparse]
  constructor
  · intro h
    have hread (line : HunkLine) (hline : line ∈ hunk.lines) (kind : ChangeKind)
        (hkind : line.kind = some kind) : line.Clean U := by
      have hmem : ⟨kind, line.content⟩ ∈ changedLines U hunk.render := by
        rw [h]
        refine List.mem_filterMap.mpr ⟨line, hline, ?_⟩
        rw [HunkLine.change, hkind]
        rfl
      have hclean := of_mem_changedLines hmem
      unfold HunkLine.Clean
      rw [HunkLine.render, hkind]
      exact hclean
    have hsub (line : HunkLine) (hline : line ∈ hunk.lines) :
        line.change.toList.Sublist (lineChanges U line.render) := by
      cases hkind : line.kind with
      | none =>
        rw [HunkLine.change, hkind]
        exact List.nil_sublist _
      | some kind => rw [(hread line hline kind hkind).lineChanges]
    rw [changedLines_render, hchanges] at h
    -- what is read of the header and of the context would be too much
    have hheader : lineChanges U hunk.header = [] := by
      have hle := length_flatMap_le hsub
      have hlength := congrArg List.length h
      rw [List.length_append] at hlength
      exact List.eq_nil_of_length_eq_zero (by omega)
    rw [hheader, List.nil_append] at h
    refine ⟨List.filterMap_eq_nil_iff.mp hheader, fun line hline => ?_⟩
    cases hkind : line.kind with
    | none =>
      have hnone := eq_of_flatMap_eq hsub h line hline
      rw [HunkLine.change, hkind] at hnone
      unfold HunkLine.Clean
      rw [hkind]
      exact List.filterMap_eq_nil_iff.mp hnone
    | some kind => exact hread line hline kind hkind
  · rintro ⟨hheader, hlines⟩
    rw [changedLines_render, hchanges]
    have hnone : lineChanges U hunk.header = [] := List.filterMap_eq_nil_iff.mpr hheader
    rw [hnone, List.nil_append]
    exact List.flatMap_congr fun line hline => (hlines line hline).lineChanges

/-- A list entry that starts with a sign of its own. -/
def signedEntry : Hunk where
  heading := " -1,2 +1,1 @@ Internships".toList
  one_line := by decide +kernel
  lines := [⟨none, "## Internships".toList, by decide +kernel⟩,
    ⟨some .removed, "-- closed --".toList, by decide +kernel⟩]

/-- It reads like the header of a file, and the removal is lost. -/
theorem signed_entry_lost :
    (parsePatch Python.ascii.toUnicode (some signedEntry.render) none).lines = [] ∧
      signedEntry.changes = [⟨.removed, "-- closed --".toList⟩] := by
  decide +kernel

end JobPing
