import JobPing.RowSurvival

/-!
# Nothing is lost

The elements that `coalesce_html_table_rows` makes of lines are made of groups of them: each group
is of one kind, and the groups one after another are the lines (`coalesce_lossless`). Where no line
holds a newline, the elements split at their newlines are the lines again (`coalesce_expand`).
-/

namespace JobPing

/-- A line made of lines of its kind. -/
structure JoinedFrom (rows : List ChangedLine) (line : ChangedLine) : Prop where
  nonempty : rows ≠ []
  kind : ∀ row ∈ rows, row.kind = line.kind
  content : line.content = ['\n'].intercalate (rows.map (·.content))

/-- The lines that an element is split into. -/
def ChangedLine.lines (line : ChangedLine) : List ChangedLine :=
  (line.content.splitOn '\n').map (⟨line.kind, ·⟩)

variable {T : CharTables}

/-- The lines of a group have one kind. -/
def OfOneKind (group : List ChangedLine) : Prop :=
  ∀ line ∈ group, some line.kind = group.head?.map (·.kind)

theorem ofOneKind_singletons (row : List ChangedLine) : ∀ g ∈ row.map ([·]), OfOneKind g := by
  intro g hg line hline
  obtain ⟨other, -, rfl⟩ := List.mem_map.mp hg
  obtain rfl := List.mem_singleton.mp hline
  rfl

/-- A line of the kind of an open row belongs to it. -/
theorem OfOneKind.append {row : List ChangedLine} {line : ChangedLine} (h : OfOneKind row)
    (hsame : sameKind row line = true) : OfOneKind (row ++ [line]) := by
  cases row with
  | nil => cases hsame
  | cons first row =>
    have hkind : first.kind = line.kind := of_decide_eq_true hsame
    intro other hother
    rcases List.mem_append.mp hother with hother | hother
    · exact h other hother
    · obtain rfl := List.mem_singleton.mp hother
      exact congrArg some hkind.symm

/-- **No group** has lines of different kinds. -/
theorem rowGroups_kind {row : List ChangedLine} (hrow : OfOneKind row) (depth : ℤ)
    (lines : List ChangedLine) : ∀ g ∈ rowGroups T row depth lines, OfOneKind g := by
  have hnil : OfOneKind [] := fun _ hline => absurd hline List.not_mem_nil
  have hone (line : ChangedLine) : OfOneKind [line] := by
    intro other hother
    obtain rfl := List.mem_singleton.mp hother
    rfl
  induction lines generalizing row depth with
  | nil => exact ofOneKind_singletons row
  | cons line lines ih =>
    rw [rowGroups]
    split_ifs with hsame hends hstarts
    · exact List.forall_mem_cons.mpr ⟨hrow.append hsame, ih hnil 0⟩
    · exact ih (hrow.append hsame) _
    · exact List.forall_mem_append.mpr ⟨ofOneKind_singletons row, ih (hone line) _⟩
    · exact List.forall_mem_append.mpr
        ⟨ofOneKind_singletons row, List.forall_mem_cons.mpr ⟨hone line, ih hnil 0⟩⟩

/-- A group of one kind is joined to a line of that kind. -/
theorem joined_joinedFrom {group : List ChangedLine} (hne : group ≠ []) (hkind : OfOneKind group) :
    ∃ line, joined group = some line ∧ JoinedFrom group line := by
  obtain ⟨first, rest, rfl⟩ := List.exists_cons_of_ne_nil hne
  exact ⟨_, rfl, hne, fun row hrow => Option.some.inj (hkind row hrow), rfl⟩

theorem filterMap_joined {groups : List (List ChangedLine)} (hne : [] ∉ groups)
    (hkind : ∀ g ∈ groups, OfOneKind g) :
    List.Forall₂ JoinedFrom groups (groups.filterMap joined) := by
  induction groups with
  | nil => exact .nil
  | cons group groups ih =>
    obtain ⟨hfirst, hne⟩ := List.ne_and_not_mem_of_not_mem_cons hne
    obtain ⟨hgroup, hkind⟩ := List.forall_mem_cons.mp hkind
    obtain ⟨line, hline, hfrom⟩ := joined_joinedFrom hfirst.symm hgroup
    rw [List.filterMap_cons_some hline]
    exact .cons hfrom (ih hne hkind)

/-- The elements are made of the groups. -/
theorem coalesce_joinedFrom (lines : List ChangedLine) :
    List.Forall₂ JoinedFrom (rowGroups T [] 0 lines) (coalesceHtmlTableRows T lines) := by
  rw [coalesce_eq]
  exact filterMap_joined (nil_not_mem_rowGroups [] 0 lines)
    (rowGroups_kind (fun _ hline => absurd hline List.not_mem_nil) 0 lines)

/-- **Row coalescing is lossless.** The elements are made of consecutive groups of lines, each of
one kind, and the groups are all of the lines, in their order. -/
theorem coalesce_lossless (T : CharTables) (lines : List ChangedLine) :
    ∃ groups : List (List ChangedLine), groups.flatten = lines ∧
      List.Forall₂ JoinedFrom groups (coalesceHtmlTableRows T lines) := by
  refine ⟨rowGroups T [] 0 lines, ?_, coalesce_joinedFrom lines⟩
  rw [rowGroups_flatten, List.nil_append]

/-- An element is split into the lines it is made of. -/
theorem JoinedFrom.lines_eq {rows : List ChangedLine} {line : ChangedLine}
    (h : JoinedFrom rows line) (hrows : ∀ row ∈ rows, '\n' ∉ row.content) : line.lines = rows := by
  have hsplit : line.content.splitOn '\n' = rows.map (·.content) := by
    rw [h.content]
    exact List.splitOn_intercalate '\n' (List.forall_mem_map.mpr hrows)
      (mt List.map_eq_nil_iff.mp h.nonempty)
  rw [ChangedLine.lines, hsplit, List.map_map]
  conv_rhs => rw [← List.map_id rows]
  refine List.map_congr_left fun row hrow => ?_
  rw [Function.comp_apply, ← h.kind row hrow]
  rfl

theorem flatMap_lines {groups : List (List ChangedLine)} {elements : List ChangedLine}
    (h : List.Forall₂ JoinedFrom groups elements)
    (hlines : ∀ line ∈ groups.flatten, '\n' ∉ line.content) :
    elements.flatMap ChangedLine.lines = groups.flatten := by
  induction h with
  | nil => rfl
  | cons hfirst hrest ih =>
    rw [List.flatten_cons] at hlines ⊢
    obtain ⟨hgroup, hlines⟩ := List.forall_mem_append.mp hlines
    rw [List.flatMap_cons, hfirst.lines_eq hgroup, ih hlines]

/-- **The elements split at their newlines** are the lines, where these hold none. -/
theorem coalesce_expand {lines : List ChangedLine} (hlines : ∀ line ∈ lines, '\n' ∉ line.content) :
    (coalesceHtmlTableRows T lines).flatMap ChangedLine.lines = lines := by
  have hflatten : (rowGroups T [] 0 lines).flatten = lines := by
    rw [rowGroups_flatten, List.nil_append]
  rw [flatMap_lines (coalesce_joinedFrom lines) (hflatten.symm ▸ hlines), hflatten]

end JobPing
