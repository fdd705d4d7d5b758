import JobPing.DisclosureRows
import Mathlib.Algebra.BigOperators.Group.Finset.Basic
import Mathlib.Algebra.GroupWithZero.Nat

/-!
# Counts of a directory

Of the loop of `prepare_dol_directory` over all files, what concerns one year is the tally of the
cases of that year, in the order of the files and their rows (`year_counts`). So its records count
for every employer the cases whose first row names it (`directory_aggregation`), and those of a
directory with one file are the records that `parse_official_csv` makes of the file
(`single_file`).
-/

namespace JobPing

open Tally

variable (L : DisclosureLibraries)

/-! ## What is counted -/

/-- The cases of the files of a year. -/
def yearCases (directory : DisclosureDirectory) (year : ℕ) : List (Str × Str) :=
  (disclosureFiles L directory).flatMap fun file =>
    if inferFiscalYear L file = some year then eligibleCases L file else []

/-- Some file of the year has a certified H-1B row with a named employer for the case. -/
def HasCase (directory : DisclosureDirectory) (year : ℕ) (case : Str) : Prop :=
  ∃ file ∈ disclosureFiles L directory, inferFiscalYear L file = some year ∧
    ∃ field ∈ file.fields L DisclosureProvider.dol.targetHeaders,
      ∃ name, caseOf L field = some (case, name)

/-- The company that an employer is mapped to. -/
def employerCompany (aliases : Option (List (Str × Str))) (companies : Option (List Str))
    (name : Str) : Option Str :=
  match companies with
  | some companies =>
    (Dict.get? name (explicitEntries L.toPython aliases)).or
      ((companyIndex L.toPython companies).company L.toPython name)
  | none => Dict.get? name (aliases.getD [])

variable {L} {directory : DisclosureDirectory} {file : DisclosureFile} {files : List DisclosureFile}
  {year other : ℕ} {values : List (Str × Str)} {counted counted' : DirectoryCounts}
  {case name company : Str} {aliases : Option (List (Str × Str))} {companies : Option (List Str)}

theorem mem_yearCases : case ∈ keys (yearCases L directory year) ↔
    HasCase L directory year case := by
  simp only [mem_keys, List.mem_map, yearCases, List.mem_flatMap]
  constructor
  · rintro ⟨item, ⟨file, hfile, hitem⟩, rfl⟩
    split_ifs at hitem with hyear
    · obtain ⟨field, hfield, hcase⟩ := List.mem_filterMap.mp hitem
      exact ⟨file, hfile, hyear, field, hfield, item.2, hcase⟩
    · cases hitem
  · rintro ⟨file, hfile, hyear, field, hfield, name, hcase⟩
    refine ⟨(case, name), ⟨file, hfile, ?_⟩, rfl⟩
    rw [if_pos hyear]
    exact List.mem_filterMap.mpr ⟨field, hfield, hcase⟩

/-! ## One year of the loop -/

/-- What the loop has counted of a year. -/
def DirectoryCounts.ofYear (counted : DirectoryCounts) (year : ℕ) : CaseCounts :=
  (counted.seenCasesByYear year, restrict year counted.countsByYear)

/-- A row of a file leaves the other years alone. -/
theorem year_add : (counted.add L other values).ofYear year =
    if other = year then (certifiedCase L values).toList.foldl Tally.add (counted.ofYear year)
    else counted.ofYear year := by
  unfold DirectoryCounts.add
  cases hcase : certifiedCase L values with
  | none => split_ifs <;> rfl
  | some item =>
    simp only [Option.toList_some, List.foldl_cons, List.foldl_nil]
    by_cases hyear : other = year
    · subst hyear
      rw [if_pos rfl]
      unfold Tally.add DirectoryCounts.ofYear
      split_ifs with hseen
      · rfl
      · refine Prod.ext (Function.update_self _ _ _) ?_
        change restrict other (increment (other, item.2) counted.countsByYear) = _
        rw [restrict_increment, if_pos rfl]
    · rw [if_neg hyear]
      unfold DirectoryCounts.ofYear
      split_ifs with hseen
      · rfl
      · refine Prod.ext (Function.update_of_ne (Ne.symm hyear) _ _) ?_
        change restrict year (increment (other, item.2) counted.countsByYear) = _
        rw [restrict_increment, if_neg hyear]

theorem year_rows (rows : List (List (Str × Str))) :
    (rows.foldl (DirectoryCounts.add L other) counted).ofYear year =
      if other = year then
        (rows.filterMap (certifiedCase L)).foldl Tally.add (counted.ofYear year)
      else counted.ofYear year := by
  induction rows generalizing counted with
  | nil => split_ifs <;> rfl
  | cons values rows ih =>
    rw [List.foldl_cons, ih, year_add]
    split_ifs
    · rw [List.filterMap_cons]
      cases certifiedCase L values <;> rfl
    · rfl

/-- A file is read into its own year. -/
theorem year_read (h : counted.read L file = .ok counted') : counted'.ofYear year =
    (if inferFiscalYear L file = some year then eligibleCases L file else []).foldl Tally.add
      (counted.ofYear year) := by
  unfold DirectoryCounts.read at h
  cases hyear : inferFiscalYear L file with
  | none =>
    rw [hyear] at h
    obtain rfl := Except.ok.inj h
    rw [if_neg (by simp)]
    rfl
  | some other =>
    simp only [hyear] at h
    split_ifs at h
    obtain ⟨rows, hrows, rfl⟩ := Raising.map_eq_ok.mp h
    rw [year_rows, official_cases hrows]
    simp only [Option.some.injEq]
    split_ifs <;> rfl

/-- **One year of the loop** is the tally of the cases of the year. -/
theorem year_counts (h : files.foldlM (DirectoryCounts.read L) counted = .ok counted') :
    counted'.ofYear year = (files.flatMap fun file =>
      if inferFiscalYear L file = some year then eligibleCases L file else []).foldl Tally.add
        (counted.ofYear year) := by
  induction files generalizing counted with
  | nil =>
    obtain rfl := Except.ok.inj h
    rfl
  | cons file files ih =>
    rw [List.foldlM_cons] at h
    obtain ⟨next, hnext, h⟩ := Raising.bind_eq_ok.mp h
    rw [List.flatMap_cons, List.foldl_append, ← year_read hnext]
    exact ih h

/-! ## Names -/

/-- Nothing is left to strip of a stripped text. -/
theorem strip_strip (U : Unicode) (s : Str) : U.strip (U.strip s) = U.strip s := by
  have hbegins : U.strip s <+: s.dropWhile U.isSpace := by
    have hsuffix := List.dropWhile_suffix U.isSpace (l := (s.dropWhile U.isSpace).reverse)
    exact List.reverse_reverse (s.dropWhile U.isSpace) ▸ List.reverse_prefix.mpr hsuffix
  have hhead : (U.strip s).dropWhile U.isSpace = U.strip s := by
    refine List.dropWhile_eq_self_iff.mpr fun hpos => ?_
    rw [hbegins.getElem hpos]
    exact List.dropWhile_get_zero_not U.isSpace s (hpos.trans_le hbegins.length_le)
  rw [Unicode.strip, hhead]
  unfold Unicode.strip
  rw [List.reverse_reverse, List.dropWhile_idempotent]

theorem certifiedCase_name {item : Str × Str} (h : certifiedCase L values = some item) :
    item.2 ≠ [] ∧ L.strip item.2 = item.2 := by
  simp only [certifiedCase] at h
  split_ifs at h with _ hblank
  obtain rfl := Option.some.inj h
  exact ⟨fun hname => hblank (.inl hname), strip_strip L.toUnicode _⟩

/-- The counts have one entry for every year and employer, and the names are those of the counts,
without blanks around them. -/
structure DirectoryCounts.Sound (L : DisclosureLibraries) (counted : DirectoryCounts) : Prop where
  nodup : (Dict.keys counted.countsByYear).Nodup
  named : ∀ name, name ∈ counted.allEmployerNames ↔
    ∃ year, (year, name) ∈ Dict.keys counted.countsByYear
  stripped : ∀ name ∈ counted.allEmployerNames, name ≠ [] ∧ L.strip name = name

theorem sound_empty : DirectoryCounts.Sound L ⟨fun _ => [], [], []⟩ where
  nodup := List.nodup_nil
  named name := by simp [Dict.keys]
  stripped name hname := absurd hname List.not_mem_nil

theorem DirectoryCounts.Sound.add (h : counted.Sound L) (year : ℕ) (values : List (Str × Str)) :
    (counted.add L year values).Sound L := by
  unfold DirectoryCounts.add
  cases hcase : certifiedCase L values with
  | none => exact h
  | some item =>
    simp only
    split_ifs with hseen
    · exact h
    · exact {
        nodup := Dict.nodup_keys_set h.nodup
        named := fun name => by
          rw [List.mem_insert_iff, h.named]
          simp only [Dict.mem_keys_set, Prod.mk.injEq, exists_or, exists_and_right, exists_eq,
            true_and]
        stripped := fun name hname => by
          rcases List.mem_insert_iff.mp hname with rfl | hname
          · exact certifiedCase_name hcase
          · exact h.stripped name hname }

theorem DirectoryCounts.Sound.read (h : counted.Sound L)
    (hread : counted.read L file = .ok counted') : counted'.Sound L := by
  unfold DirectoryCounts.read at hread
  cases hyear : inferFiscalYear L file with
  | none =>
    rw [hyear] at hread
    obtain rfl := Except.ok.inj hread
    exact h
  | some year =>
    simp only [hyear] at hread
    split_ifs at hread
    obtain ⟨rows, -, rfl⟩ := Raising.map_eq_ok.mp hread
    clear hread
    induction rows generalizing counted with
    | nil => exact h
    | cons values rows ih => exact ih (h.add year values)

theorem DirectoryCounts.Sound.read_all (h : counted.Sound L)
    (hfiles : files.foldlM (DirectoryCounts.read L) counted = .ok counted') :
    counted'.Sound L := by
  induction files generalizing counted with
  | nil =>
    obtain rfl := Except.ok.inj hfiles
    exact h
  | cons file files ih =>
    rw [List.foldlM_cons] at hfiles
    obtain ⟨next, hnext, hfiles⟩ := Raising.bind_eq_ok.mp hfiles
    exact ih (h.read hnext) hfiles

/-- The aliases of a name that was counted. -/
theorem resolvedAliases_eq {names : List Str}
    (hname : name ∈ names ∧ name ≠ [] ∧ L.strip name = name) :
    Dict.get? name (resolvedAliases L names aliases companies) =
      employerCompany L aliases companies name := by
  cases companies with
  | none => rfl
  | some companies =>
    have hmem : name ∈ names.map L.strip := List.mem_map.mpr ⟨name, hname.1, hname.2.2⟩
    exact (matchCompanyAliases_eq ..).trans (by rw [if_pos ⟨hname.2.1, hmem⟩]; rfl)

/-! ## Records -/

variable {origin : RecordOrigin} {count : ℕ} {item : MappedEmployerRecord} {sourceUrl : Str}
  {now : Time} {data : EmployerImport}

/-- What a record is made of. -/
theorem mapped_ok (h : origin.mapped L company year name count = .ok item) :
    item.company = company ∧ item.record.kind = origin.kind ∧ item.record.year = year ∧
      item.record.employerName = name ∧ item.record.count = count := by
  obtain ⟨record, hrecord, h⟩ := Raising.bind_eq_ok.mp h
  split_ifs at h
  obtain rfl := Except.ok.inj h
  unfold RecordOrigin.record at hrecord
  split at hrecord
  · cases hrecord
  · split_ifs at hrecord
    obtain rfl := Except.ok.inj hrecord
    exact ⟨rfl, rfl, rfl, rfl, rfl⟩

theorem employerImport_ok {records : List MappedEmployerRecord}
    (h : employerImport records = .ok data) : data.records = records := by
  unfold employerImport at h
  split_ifs at h
  obtain rfl := Except.ok.inj h
  rfl

/-- The entries that become records, with their companies. -/
def mappedEntries (L : DisclosureLibraries) (aliases : Option (List (Str × Str)))
    (companies : Option (List Str)) (counted : DirectoryCounts) :
    List (Str × (ℕ × Str) × ℕ) :=
  (counted.countsByYear.insertionSort fun a b => toLex a.1 ≤ toLex b.1).filterMap fun entry =>
    (Dict.get? entry.1.2 (resolvedAliases L counted.allEmployerNames aliases companies)).map
      (·, entry)

/-- What a successful call has counted. -/
theorem prepare_ok
    (h : prepareDolDirectory L directory aliases companies sourceUrl now = .ok data) :
    ∃ counted : DirectoryCounts, counted.Sound L ∧
      (∀ year, counted.ofYear year = tally (yearCases L directory year)) ∧
      List.Forall₂ (fun entry item =>
        (RecordOrigin.mk .h1bFilings sourceUrl now).mapped L entry.1 entry.2.1.1 entry.2.1.2
          entry.2.2 = .ok item) (mappedEntries L aliases companies counted) data.records := by
  unfold prepareDolDirectory at h
  split_ifs at h
  obtain ⟨counted, hcounted, h⟩ := Raising.bind_eq_ok.mp h
  obtain ⟨records, hrecords, h⟩ := Raising.bind_eq_ok.mp h
  rw [employerImport_ok h]
  exact ⟨counted, sound_empty.read_all hcounted, fun year => year_counts hcounted,
    Raising.mapM_eq_ok.mp hrecords⟩

theorem DirectoryCounts.Sound.mem_counts (h : counted.Sound L)
    (hyear : counted.ofYear year = tally (yearCases L directory year)) :
    ((year, name), count) ∈ counted.countsByYear ↔
      0 < count ∧ (keysOf (yearCases L directory year) name).card = count := by
  have hget : Dict.get? name (restrict year counted.countsByYear) =
      Dict.get? name (tally (yearCases L directory year)).2 := congrArg _ (congrArg Prod.snd hyear)
  rw [← get?_counts, ← hget, get?_restrict]
  constructor
  · exact fun hmem => Dict.get?_of_mem h.nodup hmem
  · intro hget
    obtain ⟨entry, hentry, rfl⟩ := Option.map_eq_some_iff.mp hget
    have hkey : entry.1 = (year, name) := by simpa using List.find?_some hentry
    exact hkey ▸ List.mem_of_find?_eq_some hentry

/-- The entries of mapped employers. -/
theorem DirectoryCounts.Sound.mem_mappedEntries (h : counted.Sound L)
    {entry : (ℕ × Str) × ℕ} : (company, entry) ∈ mappedEntries L aliases companies counted ↔
      entry ∈ counted.countsByYear ∧
        employerCompany L aliases companies entry.1.2 = some company := by
  unfold mappedEntries
  rw [List.mem_filterMap]
  have hresolved (entry : (ℕ × Str) × ℕ) (hentry : entry ∈ counted.countsByYear) :
      Dict.get? entry.1.2 (resolvedAliases L counted.allEmployerNames aliases companies) =
        employerCompany L aliases companies entry.1.2 := by
    have hname : entry.1.2 ∈ counted.allEmployerNames :=
      (h.named _).mpr ⟨entry.1.1, List.mem_map_of_mem hentry⟩
    exact resolvedAliases_eq ⟨hname, h.stripped _ hname⟩
  constructor
  · rintro ⟨other, hother, hmap⟩
    have hmem := (List.mem_insertionSort _).mp hother
    obtain ⟨company, hcompany, heq⟩ := Option.map_eq_some_iff.mp hmap
    obtain ⟨rfl, rfl⟩ := Prod.mk.inj heq
    exact ⟨hmem, hresolved other hmem ▸ hcompany⟩
  · rintro ⟨hmem, hcompany⟩
    refine ⟨entry, (List.mem_insertionSort _).mpr hmem, ?_⟩
    rw [hresolved entry hmem, hcompany]
    rfl

/-- A record counts the cases of a mapped employer. -/
theorem prepared_item
    (h : prepareDolDirectory L directory aliases companies sourceUrl now = .ok data)
    (hitem : item ∈ data.records) :
    employerCompany L aliases companies item.record.employerName = some item.company ∧
      0 < item.record.count ∧ (keysOf (yearCases L directory item.record.year)
        item.record.employerName).card = item.record.count := by
  obtain ⟨counted, hsound, hyears, hrecords⟩ := prepare_ok h
  obtain ⟨entry, hentry, hmapped⟩ := Table.forall₂_right hrecords hitem
  obtain ⟨hcompany, -, hyear, hname, hcount⟩ := mapped_ok hmapped
  obtain ⟨hmem, hemployer⟩ := hsound.mem_mappedEntries.mp hentry
  rw [hcompany, hyear, hname, hcount]
  exact ⟨hemployer, (hsound.mem_counts (hyears _)).mp hmem⟩

/-- Each mapped employer has a record of its cases, and nothing else is recorded. -/
theorem prepared_record_iff
    (h : prepareDolDirectory L directory aliases companies sourceUrl now = .ok data) :
    (∃ item ∈ data.records, item.company = company ∧ item.record.kind = .h1bFilings ∧
      item.record.year = year ∧ item.record.employerName = name ∧ item.record.count = count) ↔
      employerCompany L aliases companies name = some company ∧ 0 < count ∧
        (keysOf (yearCases L directory year) name).card = count := by
  constructor
  · rintro ⟨item, hitem, rfl, -, rfl, rfl, rfl⟩
    exact prepared_item h hitem
  · rintro ⟨hemployer, hcounted⟩
    obtain ⟨counted, hsound, hyears, hrecords⟩ := prepare_ok h
    have hentry : (company, ((year, name), count)) ∈ mappedEntries L aliases companies counted :=
      hsound.mem_mappedEntries.mpr ⟨(hsound.mem_counts (hyears year)).mpr hcounted, hemployer⟩
    obtain ⟨item, hitem, hmapped⟩ := Table.forall₂_left hrecords hentry
    exact ⟨item, hitem, mapped_ok hmapped⟩

theorem filterMap_pair_sublist {α β : Type*} (g : α → Option β) (l : List α) :
    ((l.filterMap fun a => (g a).map (·, a)).map Prod.snd).Sublist l := by
  induction l with
  | nil => exact .slnil
  | cons a l ih =>
    rw [List.filterMap_cons]
    cases g a with
    | none => exact ih.cons a
    | some b => exact ih.cons_cons a

/-- A year has one record of an employer. -/
theorem prepared_nodup
    (h : prepareDolDirectory L directory aliases companies sourceUrl now = .ok data) :
    (data.records.map fun item => (item.record.year, item.record.employerName)).Nodup := by
  obtain ⟨counted, hsound, -, hrecords⟩ := prepare_ok h
  have hmap : data.records.map (fun item => (item.record.year, item.record.employerName)) =
      (mappedEntries L aliases companies counted).map fun entry => entry.2.1 := by
    refine Table.forall₂_map_eq (hrecords.imp fun entry item hmapped => ?_)
    obtain ⟨-, -, hyear, hname, -⟩ := mapped_ok hmapped
    exact Prod.ext hyear hname
  have hsublist := (filterMap_pair_sublist (fun entry : (ℕ × Str) × ℕ => Dict.get? entry.1.2
    (resolvedAliases L counted.allEmployerNames aliases companies))
      (counted.countsByYear.insertionSort fun a b => toLex a.1 ≤ toLex b.1)).map Prod.fst
  rw [List.map_map] at hsublist
  rw [hmap]
  exact (((List.perm_insertionSort _ _).map Prod.fst).nodup_iff.mpr hsound.nodup).sublist hsublist

/-- **The total of the records of a year** counts the cases whose first row names a mapped
employer. -/
theorem prepared_total
    (h : prepareDolDirectory L directory aliases companies sourceUrl now = .ok data)
    (year : ℕ) :
    ((data.records.filter (·.record.year = year)).map (·.record.count)).sum =
      ((keys (yearCases L directory year)).filter fun case =>
        ((firstValue (yearCases L directory year) case).bind
          (employerCompany L aliases companies)).isSome).card := by
  set cases := yearCases L directory year with hcases
  set records := data.records.filter (·.record.year = year) with hrecords
  have hcount : ∀ item ∈ records,
      item.record.count = (keysOf cases item.record.employerName).card := by
    intro item hitem
    obtain ⟨hitem, hyear⟩ := List.mem_filter.mp hitem
    obtain ⟨-, -, hcard⟩ := prepared_item h hitem
    rw [of_decide_eq_true hyear] at hcard
    exact hcard.symm
  have hnames : (records.map (·.record.employerName)).Nodup := by
    have hnodup := (prepared_nodup h).sublist
      ((List.filter_sublist (p := (·.record.year = year)) (l := data.records)).map _)
    refine List.pairwise_map.mpr ((List.pairwise_map.mp hnodup).imp_of_mem ?_)
    intro a b ha hb hne heq
    have hyears := (of_decide_eq_true (List.mem_filter.mp ha).2).trans
      (of_decide_eq_true (List.mem_filter.mp hb).2).symm
    exact hne (Prod.ext hyears heq)
  calc (records.map (·.record.count)).sum
      = ((records.map (·.record.employerName)).map fun name => (keysOf cases name).card).sum := by
        rw [List.map_map]
        exact congrArg List.sum (List.map_congr_left hcount)
    _ = ∑ name ∈ (records.map (·.record.employerName)).toFinset, (keysOf cases name).card :=
        (List.sum_toFinset _ hnames).symm
    _ = ((keys cases).filter fun case =>
          ((firstValue cases case).bind (employerCompany L aliases companies)).isSome).card := by
        rw [sum_keysOf]
        congr 1
        refine Finset.filter_congr fun case hcase => ?_
        simp only [List.mem_toFinset, List.mem_map]
        constructor
        · rintro ⟨name, ⟨item, hitem, rfl⟩, hfirst⟩
          rw [hfirst, Option.bind_some, (prepared_item h (List.mem_of_mem_filter hitem)).1]
          rfl
        · intro hsome
          obtain ⟨company, hcompany⟩ := Option.isSome_iff_exists.mp hsome
          obtain ⟨name, hname, hcompany⟩ := Option.bind_eq_some_iff.mp hcompany
          have hpos : 0 < (keysOf cases name).card :=
            Finset.card_pos.mpr ⟨case, Finset.mem_filter.mpr ⟨hcase, hname⟩⟩
          obtain ⟨item, hitem, -, -, hyear, rfl, -⟩ :=
            (prepared_record_iff h).mpr ⟨hcompany, hpos, rfl⟩
          exact ⟨_, ⟨item, List.mem_filter.mpr ⟨hitem, decide_eq_true hyear⟩, rfl⟩, hname⟩

/-! ## A single file -/

/-- The rows of `parse_official_csv` are tallied. -/
theorem count_rows (rows : List (List (Str × Str))) (counted : CaseCounts) :
    rows.foldlM (countRow L .dol year) counted =
      .ok ((rows.filterMap (certifiedCase L)).foldl Tally.add counted) := by
  induction rows generalizing counted with
  | nil => rfl
  | cons values rows ih =>
    rw [List.foldlM_cons, List.filterMap_cons]
    cases hcase : certifiedCase L values with
    | none =>
      have hrow : countRow L .dol year counted values = .ok counted := by
        rw [countRow, hcase]
      rw [hrow]
      exact ih counted
    | some item =>
      have hrow : countRow L .dol year counted values = .ok (Tally.add counted item) := by
        rw [countRow, hcase, Tally.add]
        simp only
        split_ifs <;> rfl
      rw [hrow]
      exact ih _

/-- An entry of a year. -/
def inYear (year : ℕ) (entry : Str × ℕ) : (ℕ × Str) × ℕ := ((year, entry.1), entry.2)

/-- Counts of one year only. -/
theorem restrict_inYear {counts : List ((ℕ × Str) × ℕ)} (h : ∀ entry ∈ counts, entry.1.1 = year) :
    counts = (restrict year counts).map (inYear year) := by
  induction counts with
  | nil => rfl
  | cons entry counts ih =>
    obtain ⟨hentry, hcounts⟩ := List.forall_mem_cons.mp h
    rw [restrict_cons, if_pos hentry, List.map_cons, ← ih hcounts]
    exact congrArg (· :: counts) (Prod.ext (Prod.ext hentry rfl) rfl)

theorem counts_of_one_year (rows : List (List (Str × Str)))
    (h : ∀ key ∈ Dict.keys counted.countsByYear, key.1 = year) :
    ∀ key ∈ Dict.keys (rows.foldl (DirectoryCounts.add L year) counted).countsByYear,
      key.1 = year := by
  induction rows generalizing counted with
  | nil => exact h
  | cons values rows ih =>
    refine ih fun key hkey => ?_
    unfold DirectoryCounts.add at hkey
    cases hcase : certifiedCase L values with
    | none =>
      rw [hcase] at hkey
      exact h key hkey
    | some item =>
      simp only [hcase] at hkey
      split_ifs at hkey
      · exact h key hkey
      · rcases Dict.mem_keys_set.mp hkey with rfl | hkey
        · rfl
        · exact h key hkey

theorem rows_sound (rows : List (List (Str × Str))) (h : counted.Sound L) :
    (rows.foldl (DirectoryCounts.add L year) counted).Sound L := by
  induction rows generalizing counted with
  | nil => exact h
  | cons values rows ih => exact ih (h.add year values)

/-- The entries of the counts of one file, in the order of the names. -/
theorem single_entries {counts : List (Str × ℕ)} (hsound : counted.Sound L)
    (hcounts : counted.countsByYear = counts.map (inYear year)) :
    mappedEntries L aliases companies counted =
      ((counts.insertionSort (·.1 ≤ ·.1)).filterMap fun entry =>
        (Dict.get? entry.1 (resolvedAliases L (Dict.keys counts) aliases companies)).map
          (·, entry)).map fun item => (item.1, inYear year item.2) := by
  have hsort : counted.countsByYear.insertionSort (fun a b => toLex a.1 ≤ toLex b.1) =
      (counts.insertionSort (·.1 ≤ ·.1)).map (inYear year) := by
    rw [hcounts]
    refine (List.map_insertionSort _ _ _ _ fun a _ b _ => ?_).symm
    simp [inYear, Prod.Lex.toLex_le_toLex]
  unfold mappedEntries
  rw [hsort, List.filterMap_map, List.map_filterMap]
  refine List.filterMap_congr fun entry hentry => ?_
  have hmem : entry ∈ counts := (List.mem_insertionSort _).mp hentry
  have hname : entry.1 ∈ counted.allEmployerNames := by
    refine (hsound.named _).mpr ⟨year, ?_⟩
    rw [hcounts]
    exact List.mem_map.mpr ⟨inYear year entry, List.mem_map_of_mem hmem, rfl⟩
  have hkey : entry.1 ∈ Dict.keys counts := List.mem_map_of_mem hmem
  have hstripped := hsound.stripped _ hname
  change (Dict.get? entry.1 (resolvedAliases L counted.allEmployerNames aliases companies)).map
    (·, inYear year entry) = _
  rw [resolvedAliases_eq ⟨hname, hstripped⟩, resolvedAliases_eq ⟨hkey, hstripped⟩,
    Option.map_map]
  rfl

/-- **A directory with one file** has the records of the file. -/
theorem single_file (hdir : directory.isDir = true)
    (hfiles : disclosureFiles L directory = [file])
    (hyear : inferFiscalYear L file = some year) :
    prepareDolDirectory L directory aliases companies sourceUrl now =
      parseOfficialCsv L file .dol year sourceUrl aliases companies now := by
  have hopen : (!directory.isDir || (disclosureFiles L directory).isEmpty) = false := by
    rw [hdir, hfiles]
    rfl
  unfold prepareDolDirectory parseOfficialCsv
  rw [hopen, if_neg Bool.false_ne_true, hfiles, List.foldlM_cons, DirectoryCounts.read, hyear]
  by_cases hsize : 500000000 < file.size
  · simp only [if_pos hsize]
    rfl
  · simp only [if_neg hsize]
    cases hrows : iterOfficialRows L file .dol with
    | error e => rfl
    | ok rows =>
      set counted := rows.foldl (DirectoryCounts.add L year) ⟨fun _ => [], [], []⟩ with hcounted
      have hsound : counted.Sound L := rows_sound rows sound_empty
      have htally : counted.ofYear year = tally (rows.filterMap (certifiedCase L)) := by
        rw [hcounted, year_rows, if_pos rfl]
        rfl
      have hcounts : counted.countsByYear =
          (tally (rows.filterMap (certifiedCase L))).2.map (inYear year) := by
        rw [← htally]
        refine restrict_inYear fun entry hentry => ?_
        exact counts_of_one_year rows (fun key hkey => absurd hkey List.not_mem_nil) entry.1
          (List.mem_map_of_mem hentry)
      have hentries : mappedEntries L aliases companies counted = _ :=
        single_entries hsound hcounts
      change ((mappedEntries L aliases companies counted).mapM fun item =>
        (RecordOrigin.mk .h1bFilings sourceUrl now).mapped L item.1 item.2.1.1 item.2.1.2
          item.2.2) >>= employerImport = _
      rw [hentries, List.mapM_map]
      simp only [bind, Except.bind, count_rows]
      rfl

/-- **Directory aggregation equals the reference count.** A successful call has, for every year, one
record of each mapped employer with cases, which counts the cases whose first row in the order of
the files and their rows names the employer; the total of a year over all employers is the number of
its cases, and which these are does not depend on any order. A directory with one file has the
records that are parsed from the file. -/
theorem directory_aggregation (L : DisclosureLibraries) (directory : DisclosureDirectory)
    (aliases : Option (List (Str × Str))) (companies : Option (List Str)) (sourceUrl : Str)
    (now : Time) :
    (∀ data, prepareDolDirectory L directory aliases companies sourceUrl now = .ok data →
      (data.records.map fun item => (item.record.year, item.record.employerName)).Nodup ∧
      ∀ year,
        (∀ name company count, (∃ item ∈ data.records, item.company = company ∧
          item.record.kind = .h1bFilings ∧ item.record.year = year ∧
            item.record.employerName = name ∧ item.record.count = count) ↔
          employerCompany L aliases companies name = some company ∧ 0 < count ∧
            (keysOf (yearCases L directory year) name).card = count) ∧
        ((data.records.filter (·.record.year = year)).map (·.record.count)).sum =
          ((keys (yearCases L directory year)).filter fun case =>
            ((firstValue (yearCases L directory year) case).bind
              (employerCompany L aliases companies)).isSome).card) ∧
    (∀ year, ∑ name ∈ ((yearCases L directory year).map Prod.snd).toFinset,
        (keysOf (yearCases L directory year) name).card =
          (keys (yearCases L directory year)).card ∧
      ∀ case, case ∈ keys (yearCases L directory year) ↔ HasCase L directory year case) ∧
    ∀ file year, directory.isDir = true → disclosureFiles L directory = [file] →
      inferFiscalYear L file = some year →
        prepareDolDirectory L directory aliases companies sourceUrl now =
          parseOfficialCsv L file .dol year sourceUrl aliases companies now :=
  ⟨fun _ h => ⟨prepared_nodup h, fun year => ⟨fun _ _ _ => prepared_record_iff h,
    prepared_total h year⟩⟩, fun _ => ⟨sum_all_keysOf, fun _ => mem_yearCases⟩,
    fun _ _ hdir hfiles hyear => single_file hdir hfiles hyear⟩

/-! ### Two files that share a case -/

/-- The libraries on ASCII texts and on URLs of the Department of Labor in their normal form. -/
def DisclosureLibraries.ascii : DisclosureLibraries :=
  { Python.ascii with
    upper := fun s => s.map Char.toUpper
    digit := fun c => if c.isDigit then some (c.toNat - 48) else none
    isWord := fun c => c.isAlphanum || c = '_'
    isDigit := Char.isDigit
    int := fun s =>
      if s ≠ [] ∧ s.all Char.isDigit then
        .ok (s.foldl (fun n c => 10 * n + (c.toNat - 48)) 0 : ℕ)
      else .error .valueError
    httpUrl := fun text => some ⟨text, "https".toList, "www.dol.gov".toList⟩ }

/-- A row of a table of disclosures. -/
def disclosedRow (case status employer : String) : List (Option Str × Option Str) :=
  [("Case Number", case), ("Case_Status", status), ("Visa_Class", "H-1B"),
    ("Employer_Name", employer)].map fun item => (some item.1.toList, some item.2.toList)

/-- Acme has two cases in a table, and one more that was denied. -/
def firstHalf : DisclosureFile where
  name := "LCA_FY2024_H1.csv".toList
  isFile := true
  size := 400
  table := .ok [disclosedRow "I-1" "Certified" "Acme", disclosedRow "I-2" "Denied" "Acme",
    disclosedRow "I-3" "Certified" " Acme "]
  workbook := .error .valueError

/-- A cell of a worksheet. -/
def inlineCell (r text : String) : SheetCell := ⟨some r.toList, none, none, text.toList⟩

/-- A workbook names another employer for the second of the cases, and has a case of its own. -/
def secondHalf : DisclosureFile where
  name := "LCA_FY24_H2.xlsx".toList
  isFile := true
  size := 9000
  table := .error .valueError
  workbook := .ok {
    names := ["xl/sharedStrings.xml".toList, "xl/worksheets/sheet1.xml".toList]
    sharedStrings := .ok [⟨some (some "Certified".toList), []⟩, ⟨some (some "I-3".toList), []⟩]
    rows := fun _ => .ok [
      [inlineCell "A1" "CASE_NUMBER", inlineCell "B1" "CASE_STATUS",
        inlineCell "C1" "VISA_CLASS", inlineCell "D1" "EMPLOYER_NAME"],
      [⟨some "A2".toList, some ['s'], some (some ['1']), []⟩,
        ⟨some "B2".toList, some ['s'], some (some ['0']), []⟩,
        inlineCell "C2" "H-1B", inlineCell "D2" "Beta"],
      [inlineCell "A3" "I-4", ⟨some "B3".toList, some ['s'], some (some ['0']), []⟩,
        inlineCell "C3" "H-1B", inlineCell "D3" "Beta"]] }

/-- The directory of a fiscal year. -/
def disclosedYear : DisclosureDirectory where
  isDir := true
  files := [secondHalf, firstHalf]
  names_nodup := by decide

/-- The file of the first half alone. -/
def disclosedHalf : DisclosureDirectory where
  isDir := true
  files := [firstHalf]
  names_nodup := by decide

/-- Acme is the only employer that is mapped. -/
def mappedAcme : Option (List (Str × Str)) := some [("Acme".toList, "Acme Inc".toList)]

/-- Both files have the case I-3; it is counted for the employer of the first of them, and only
once. -/
theorem shared_case_counted : ∃ data,
    prepareDolDirectory .ascii disclosedYear mappedAcme none "https://www.dol.gov/lca".toList
      7 = .ok data ∧
    (∃ item ∈ data.records, item.company = "Acme Inc".toList ∧ item.record.kind = .h1bFilings ∧
      item.record.year = 2024 ∧ item.record.employerName = "Acme".toList ∧
        item.record.count = 2) ∧
    ((data.records.filter (·.record.year = 2024)).map (·.record.count)).sum = 2 ∧
    HasCase .ascii disclosedYear 2024 "I-3".toList ∧
    prepareDolDirectory .ascii disclosedHalf mappedAcme none "https://www.dol.gov/lca".toList
      7 = parseOfficialCsv .ascii firstHalf .dol 2024 "https://www.dol.gov/lca".toList
        mappedAcme none 7 := by
  obtain ⟨hprepared, hyears, -⟩ := directory_aggregation .ascii disclosedYear mappedAcme none
    "https://www.dol.gov/lca".toList 7
  obtain ⟨-, hrecords⟩ := hprepared _ rfl
  obtain ⟨hrecord, htotal⟩ := hrecords 2024
  obtain ⟨-, -, hsingle⟩ := directory_aggregation .ascii disclosedHalf mappedAcme none
    "https://www.dol.gov/lca".toList 7
  refine ⟨_, rfl, (hrecord _ _ 2).mpr ⟨by decide, by decide, by decide⟩,
    htotal.trans (by decide), ((hyears 2024).2 _).mp (by decide), hsingle _ _ rfl rfl (by decide)⟩

end JobPing
