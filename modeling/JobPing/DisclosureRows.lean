import JobPing.DisclosureFiles
import JobPing.Raising

/-!
# The rows of a disclosure file

What a row of a file holds under a header, read off the file itself: in a table it is the value of
the last column with the header, in a workbook the text of the last cell in a column with the header,
of those that are read (`cellsRead`). The rows that `_iter_official_rows` yields have the same cases
(`official_cases`).
-/

namespace JobPing

variable (L : DisclosureLibraries)

/-! ## Tables -/

/-- What a row of a table holds under a header. -/
def tableField (row : List (Option Str × Option Str)) (header : Str) : Str :=
  (((row.filter fun item => item.1.any fun key => headerName L key = header).getLast?).bind
    Prod.snd).getD []

/-! ## Workbooks -/

/-- The first worksheet of a workbook, with the texts that its cells share. -/
structure Worksheet where
  texts : List Str
  rows : List (List SheetCell)

/-- The text of a shared string. -/
def SharedString.text (si : SharedString) : Str :=
  match si.onlyT with
  | some text => text.getD []
  | none => si.itertext

/-- The shared strings of a workbook, where it has any. -/
def Workbook.shared (workbook : Workbook) : Option (List SharedString) :=
  if "xl/sharedStrings.xml".toList ∈ workbook.names then workbook.sharedStrings.toOption
  else some []

/-- The worksheet of a workbook that is read. -/
def Workbook.worksheet (workbook : Workbook) : Option Worksheet := do
  let name ← ((workbook.names.filter fun name =>
    "xl/worksheets/sheet".toList.isPrefixOf name &&
      ".xml".toList.isSuffixOf name).insertionSort (· ≤ ·)).head?
  let shared ← workbook.shared
  let rows ← (workbook.rows name).toOption
  return ⟨shared.map SharedString.text, rows⟩

/-- The text of a cell. -/
def sheetText (texts : List Str) (cell : SheetCell) : Str :=
  ((cellText L cell texts).toOption).getD []

/-- The columns with a target header, cell by cell of the header row. -/
def titledColumns (targets texts : List Str) (row : List SheetCell) : List (Str × Str) :=
  row.filterMap fun cell =>
    let title := headerName L (sheetText L texts cell)
    if cell.col ≠ [] ∧ title ∈ targets then some (cell.col, title) else none

/-- The header of a column: that of its last cell in the header row. -/
def columnTitle (columns : List (Str × Str)) (col : Str) : Option Str :=
  ((columns.filter (·.1 = col)).getLast?).map Prod.snd

/-- The cells that are read: those before as many headers are met as there are titled columns. -/
def cellsRead (columns : List (Str × Str)) (met : Finset Str) : List SheetCell → List SheetCell
  | [] => []
  | cell :: cells =>
    if met.card = (columns.map Prod.fst).toFinset.card then []
    else cell :: cellsRead columns ((columnTitle columns cell.col).elim met (insert · met)) cells

/-- What a row of a worksheet holds under a header. -/
def sheetField (columns : List (Str × Str)) (texts : List Str) (row : List SheetCell)
    (header : Str) : Str :=
  ((((cellsRead columns ∅ row).filter fun cell =>
    columnTitle columns cell.col = some header).getLast?).map (sheetText L texts)).getD []

/-- The fields of the rows of a worksheet. -/
def Worksheet.fields (sheet : Worksheet) (targets : List Str) : List (Str → Str) :=
  match sheet.rows with
  | [] => []
  | header :: rows => rows.map (sheetField L (titledColumns L targets sheet.texts header) sheet.texts)

/-! ## Files -/

/-- **The fields of the rows of a file**, in their order. -/
def DisclosureFile.fields (file : DisclosureFile) (targets : List Str) : List (Str → Str) :=
  if L.casefold file.suffix = ".xlsx".toList then
    ((file.workbook.toOption.bind Workbook.worksheet).map (·.fields L targets)).getD []
  else (file.table.toOption.getD []).map (tableField L)

/-- The case and the employer of a row that is certified, of class H-1B, and names both. -/
def caseOf (field : Str → Str) : Option (Str × Str) :=
  let text (header : String) : Str := L.strip (field header.toList)
  if L.upper (text "VISA_CLASS") = "H-1B".toList ∧
      L.casefold (text "CASE_STATUS") = "certified".toList ∧ text "EMPLOYER_NAME" ≠ [] ∧
        text "CASE_NUMBER" ≠ [] then
    some (text "CASE_NUMBER", text "EMPLOYER_NAME")
  else none

/-- The cases of a file with their employers, row by row. -/
def eligibleCases (file : DisclosureFile) : List (Str × Str) :=
  (file.fields L DisclosureProvider.dol.targetHeaders).filterMap (caseOf L)

/-! ## What is yielded -/

variable {L} {values : List (Str × Str)} {field : Str → Str}

/-- A row that holds the fields has their case. -/
theorem certifiedCase_eq (h : ∀ header, (Dict.get? header values).getD [] = field header) :
    certifiedCase L values = caseOf L field := by
  have hfield (header : String) : officialField L values header = L.strip (field header.toList) := by
    rw [officialField, h]
  simp only [certifiedCase, caseOf, hfield]
  by_cases hclass : L.upper (L.strip (field "VISA_CLASS".toList)) = "H-1B".toList
  swap
  · rw [if_pos (.inl hclass), if_neg fun hall => hclass hall.1]
  by_cases hstatus : L.casefold (L.strip (field "CASE_STATUS".toList)) = "certified".toList
  swap
  · rw [if_pos (.inr hstatus), if_neg fun hall => hstatus hall.2.1]
  rw [if_neg (by simp only [hclass, hstatus, ne_eq, not_true, or_self, not_false_iff])]
  by_cases hnamed : L.strip (field "EMPLOYER_NAME".toList) = [] ∨
      L.strip (field "CASE_NUMBER".toList) = []
  · rw [if_pos hnamed, if_neg fun hall => hnamed.elim hall.2.2.1 hall.2.2.2]
  · rw [if_neg hnamed, if_pos ⟨hclass, hstatus, not_or.mp hnamed⟩]

/-- A row of a table. -/
theorem table_values (row : List (Option Str × Option Str)) (header : Str) :
    (Dict.get? header (Dict.ofList (row.filterMap fun item =>
      item.1.map fun key => (headerName L key, item.2.getD [])))).getD [] =
      tableField L row header := by
  induction row using List.reverseRecOn with
  | nil => rfl
  | append_singleton row item ih =>
    obtain ⟨key, value⟩ := item
    rw [List.filterMap_append, tableField, List.filter_append]
    cases key with
    | none => simpa [tableField] using ih
    | some key =>
      change (Dict.get? header (Dict.ofList (_ ++ [(headerName L key, value.getD [])]))).getD [] = _
      rw [Dict.ofList_concat, Dict.get?_set]
      by_cases hkey : header = headerName L key
      · simp [← hkey]
      · simpa [hkey, Ne.symm hkey, tableField] using ih

/-! ### A worksheet -/

variable {texts targets : List Str} {columns : List (Str × Str)} {cell : SheetCell}
  {row : List SheetCell}

theorem sheetText_eq {text : Str} (h : cellText L cell texts = .ok text) :
    sheetText L texts cell = text := by
  rw [sheetText, h]
  rfl

/-- The columns of the header row. -/
theorem headerColumns_eq (h : headerColumns L targets texts row = .ok columns) :
    columns = Dict.ofList (titledColumns L targets texts row) := by
  induction row using List.reverseRecOn generalizing columns with
  | nil =>
    obtain rfl := Except.ok.inj h
    rfl
  | append_singleton row cell ih =>
    rw [headerColumns, List.foldlM_append] at h
    obtain ⟨before, hbefore, h⟩ := Raising.bind_eq_ok.mp h
    obtain rfl := ih hbefore
    simp only [List.foldlM_cons, List.foldlM_nil, bind_pure] at h
    rw [titledColumns, List.filterMap_append, ← titledColumns]
    by_cases hcol : cell.col = []
    · rw [if_pos hcol] at h
      obtain rfl := Except.ok.inj h
      simp [hcol]
    · rw [if_neg hcol] at h
      obtain ⟨text, htext, rfl⟩ := Raising.map_eq_ok.mp h
      have hread := sheetText_eq htext
      by_cases htarget : headerName L text ∈ targets
      · rw [if_pos htarget, List.filterMap_cons_some (by simp [hread, hcol, htarget]; rfl),
          List.filterMap_nil, Dict.ofList_concat]
      · rw [if_neg htarget]
        simp [hread, htarget]

theorem get?_columns (columns : List (Str × Str)) (col : Str) :
    Dict.get? col (Dict.ofList columns) = columnTitle columns col :=
  Dict.get?_ofList col columns

theorem length_columns (columns : List (Str × Str)) :
    (Dict.ofList columns).length = (columns.map Prod.fst).toFinset.card := by
  have hkeys : (Dict.keys (Dict.ofList columns)).toFinset = (columns.map Prod.fst).toFinset := by
    ext key
    rw [List.mem_toFinset, List.mem_toFinset, Dict.mem_keys_ofList]
  rw [← hkeys, List.toFinset_card_of_nodup (Dict.nodup_keys_ofList columns), Dict.keys,
    List.length_map]

/-- A round of the loop of `row_values`. -/
def addValue (L : DisclosureLibraries) (columns : List (Str × Str)) (texts : List Str)
    (values : List (Str × Str)) (cell : SheetCell) : Except Raised (List (Str × Str)) :=
  if values.length = columns.length then .ok values
  else
    match Dict.get? cell.col columns with
    | none => .ok values
    | some header => (cellText L cell texts).map fun text => Dict.set header text values

/-- A row that is full is left. -/
theorem add_values_full {values values' : List (Str × Str)}
    (hfull : values.length = columns.length)
    (h : row.foldlM (addValue L columns texts) values = .ok values') : values' = values := by
  induction row with
  | nil => exact (Except.ok.inj h).symm
  | cons cell row ih =>
    rw [List.foldlM_cons, addValue, if_pos hfull] at h
    exact ih h

/-- **The values of a row** of a worksheet, after those of the cells before. -/
theorem add_values_get? {values values' : List (Str × Str)} (hkeys : (Dict.keys values).Nodup)
    (h : row.foldlM (addValue L (Dict.ofList columns) texts) values = .ok values')
    (header : Str) :
    Dict.get? header values' = ((((cellsRead columns (Dict.keys values).toFinset row).filter
      fun cell => columnTitle columns cell.col = some header).getLast?).map
        (sheetText L texts)).or (Dict.get? header values) := by
  induction row generalizing values with
  | nil =>
    obtain rfl := Except.ok.inj h
    rfl
  | cons cell row ih =>
    have hcard : (Dict.keys values).toFinset.card = values.length := by
      rw [List.toFinset_card_of_nodup hkeys, Dict.keys, List.length_map]
    rw [cellsRead, hcard, ← length_columns]
    by_cases hfull : values.length = (Dict.ofList columns).length
    · rw [if_pos hfull, add_values_full hfull h]
      rfl
    rw [if_neg hfull]
    rw [List.foldlM_cons, addValue, if_neg hfull, get?_columns] at h
    cases htitle : columnTitle columns cell.col with
    | none =>
      rw [htitle] at h
      rw [ih hkeys h, List.filter_cons_of_neg (by simp [htitle])]
      rfl
    | some title =>
      rw [htitle] at h
      obtain ⟨next, hnext, h⟩ := Raising.bind_eq_ok.mp h
      obtain ⟨text, htext, rfl⟩ := Raising.map_eq_ok.mp hnext
      have hmet : (Dict.keys (Dict.set title text values)).toFinset =
          insert title (Dict.keys values).toFinset := by
        ext key
        rw [List.mem_toFinset, Dict.mem_keys_set, Finset.mem_insert, List.mem_toFinset]
      rw [ih (Dict.nodup_keys_set hkeys) h, hmet, Option.elim_some, Dict.get?_set]
      by_cases hheader : header = title
      · subst hheader
        rw [if_pos rfl, List.filter_cons_of_pos (by simp [htitle]), List.getLast?_cons]
        -- the last of the later cells with the header, or this one
        cases ((cellsRead columns (insert header (Dict.keys values).toFinset) row).filter
          fun cell => columnTitle columns cell.col = some header).getLast? with
        | none => exact congrArg some (sheetText_eq htext).symm
        | some last => rfl
      · rw [if_neg hheader, List.filter_cons_of_neg (by simp [htitle, Ne.symm hheader])]

/-- A row of a worksheet. -/
theorem rowValues_field (h : rowValues L (Dict.ofList columns) texts row = .ok values)
    (header : Str) :
    (Dict.get? header values).getD [] = sheetField L columns texts row header := by
  have hnodup : (Dict.keys ([] : List (Str × Str))).Nodup := List.nodup_nil
  rw [add_values_get? hnodup h, sheetField]
  exact congrArg (Option.getD · []) Option.or_none

/-- A row without values has no case. -/
theorem certifiedCase_nil : certifiedCase L [] = none := by
  simp only [certifiedCase]
  split_ifs with hrest
  · rfl
  · rfl
  · next hnamed => exact absurd (.inl rfl) hnamed

/-- The rows after a header row. -/
theorem data_rows_cases {data : List (List SheetCell)} {rows : List (List (Str × Str))}
    (h : (data.mapM (rowValues L (Dict.ofList columns) texts)).map (·.filter (· ≠ [])) =
      .ok rows) :
    rows.filterMap (certifiedCase L) = (data.map (sheetField L columns texts)).filterMap
      (caseOf L) := by
  obtain ⟨all, hall, rfl⟩ := Raising.map_eq_ok.mp h
  have hcases : List.Forall₂ (fun row values => certifiedCase L values =
      caseOf L (sheetField L columns texts row)) data all :=
    (Raising.mapM_eq_ok.mp hall).imp fun row values hvalues =>
      certifiedCase_eq (rowValues_field hvalues)
  have hmap := Table.forall₂_map_eq hcases
  have hkept : (all.filter (· ≠ [])).filterMap (certifiedCase L) =
      all.filterMap (certifiedCase L) := by
    rw [List.filterMap_filter]
    refine List.filterMap_congr fun values _ => ?_
    by_cases hnil : values = []
    · rw [hnil, certifiedCase_nil]
      rfl
    · rw [if_pos (decide_eq_true hnil)]
  calc (all.filter (· ≠ [])).filterMap (certifiedCase L)
      = (all.map (certifiedCase L)).filterMap id := by
        rw [hkept, List.filterMap_map]
        rfl
    _ = (data.map fun row => caseOf L (sheetField L columns texts row)).filterMap id := by
        rw [hmap]
    _ = (data.map (sheetField L columns texts)).filterMap (caseOf L) := by
        rw [List.filterMap_map, List.filterMap_map]
        rfl

/-- The rows that a worksheet yields have the cases of its rows. -/
theorem worksheet_cases {workbook : Workbook} {rows : List (List (Str × Str))}
    (h : iterXlsxRows L workbook targets = .ok rows) :
    ∃ sheet, workbook.worksheet = some sheet ∧
      rows.filterMap (certifiedCase L) = (sheet.fields L targets).filterMap (caseOf L) := by
  unfold iterXlsxRows at h
  dsimp only at h
  unfold Workbook.worksheet
  split at h
  · cases h
  next name _ hsheets =>
  -- the shared strings are read first, where there are any
  obtain ⟨shared, hshared, h⟩ : ∃ shared, workbook.shared = some shared ∧
      (workbook.rows name >>= fun sheetRows =>
        match sheetRows with
        | [] => .ok []
        | header :: data =>
          headerColumns L targets (shared.map SharedString.text) header >>= fun columns =>
            if columns = [] then .error .valueError
            else (data.mapM (rowValues L columns (shared.map SharedString.text))).map
              (·.filter (· ≠ []))) = .ok rows := by
    unfold Workbook.shared
    split_ifs at h ⊢
    · obtain ⟨shared, hshared, h⟩ := Raising.bind_eq_ok.mp h
      exact ⟨shared, by rw [hshared]; rfl, h⟩
    · exact ⟨[], rfl, h⟩
  obtain ⟨sheetRows, hrows, h⟩ := Raising.bind_eq_ok.mp h
  refine ⟨⟨shared.map SharedString.text, sheetRows⟩, ?_, ?_⟩
  · rw [hsheets, hshared]
    change ((workbook.rows name).toOption.bind fun rows =>
      some (Worksheet.mk (shared.map SharedString.text) rows)) = _
    rw [hrows]
    rfl
  · unfold Worksheet.fields
    cases sheetRows with
    | nil =>
      obtain rfl := Except.ok.inj h
      rfl
    | cons header data =>
      obtain ⟨columns, hcolumns, h⟩ := Raising.bind_eq_ok.mp h
      obtain rfl := headerColumns_eq hcolumns
      split_ifs at h
      exact data_rows_cases h

/-- **The cases of the rows that are yielded** are those of the rows of the file. -/
theorem official_cases {file : DisclosureFile} {rows : List (List (Str × Str))}
    (h : iterOfficialRows L file .dol = .ok rows) :
    rows.filterMap (certifiedCase L) = eligibleCases L file := by
  rw [eligibleCases, DisclosureFile.fields]
  unfold iterOfficialRows at h
  split_ifs at h ⊢ with hsuffix
  · obtain ⟨workbook, hworkbook, h⟩ := Raising.bind_eq_ok.mp h
    obtain ⟨sheet, hsheet, hcases⟩ := worksheet_cases h
    rw [hworkbook]
    change _ = ((workbook.worksheet.map fun sheet =>
      sheet.fields L DisclosureProvider.dol.targetHeaders).getD []).filterMap (caseOf L)
    rw [hsheet, hcases]
    rfl
  · obtain ⟨table, htable, rfl⟩ := Raising.map_eq_ok.mp h
    rw [htable, List.filterMap_map]
    change _ = List.filterMap (caseOf L) (List.map (tableField L) table)
    rw [List.filterMap_map]
    exact List.filterMap_congr fun row _ => certifiedCase_eq (table_values row)

end JobPing
