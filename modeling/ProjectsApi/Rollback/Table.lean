import ProjectsApi.Foundation.Binary64
import ProjectsApi.Foundation.Words

/-!
# The table of published versions

With `--output text` the AWS CLI prints one row for each published version, and the other columns
as they are: a line break in a description starts a new line.  The script reads the table line by
line and takes the first field of a line for a version if it is a numeral.
-/

namespace ProjectsApi

open Foundation

/-! ## Rows -/

/-- A published version, with the columns that are printed. -/
structure VersionRow where
  version : String
  lastModified : String
  description : String
deriving DecidableEq

/-- The columns of a row, separated by tabs. -/
def VersionRow.columns (row : VersionRow) : List Char :=
  row.version.toList ++ '\t' :: (row.lastModified.toList ++ '\t' :: row.description.toList)

/-- The row with `--output text`. -/
def VersionRow.text (row : VersionRow) : List Char := row.columns ++ ['\n']

/-- `$1` of each line, cut with `-F'\t'`. -/
def firstFields (text : List Char) : List String :=
  (text.splitOnP (· == '\n')).map fun line => String.ofList (line.takeWhile (· ≠ '\t'))

/-- What the script takes for the first column of the table. -/
def firstColumn (rows : List VersionRow) : List String :=
  firstFields (rows.flatMap VersionRow.text)

/-- The published versions. -/
def versionsOf (rows : List VersionRow) : List String := rows.map VersionRow.version

/-- What begins the further lines of the rows, where a column has line breaks. -/
def addedFields (rows : List VersionRow) : List String :=
  rows.flatMap fun row => (firstFields row.columns).tail

/-- `^[0-9]+$` -/
def isNumeral (text : String) : Bool :=
  !text.toList.isEmpty && text.toList.all Char.isDigit

/-- The number of a numeral. -/
def versionNumber (text : String) : Nat := decimalValue text.toList

theorem isNumeral_of_isCanonical {text : String} (h : IsCanonical text.toList) :
    isNumeral text = true := by
  rw [isNumeral, Bool.and_eq_true]
  exact ⟨by simpa using h.1, h.2.1⟩

theorem isNumeral_versionsOf {rows : List VersionRow}
    (hrows : ∀ v ∈ versionsOf rows, IsCanonical v.toList) :
    ∀ v ∈ versionsOf rows, isNumeral v = true :=
  fun v hv => isNumeral_of_isCanonical (hrows v hv)

/-! ## Lines -/

theorem takeWhile_tab {w : String} (hw : ∀ c ∈ w.toList, c ≠ '\t' ∧ c ≠ '\n')
    (cs : List Char) : (w.toList ++ '\t' :: cs).takeWhile (· ≠ '\t') = w.toList := by
  rw [List.takeWhile_append_of_pos fun c hc => decide_eq_true (hw c hc).1]
  simp

/-- The first field of a text that starts without tabs and line breaks. -/
theorem firstFields_tab {w : String} (hw : ∀ c ∈ w.toList, c ≠ '\t' ∧ c ≠ '\n')
    (cs : List Char) : ∃ others, firstFields (w.toList ++ '\t' :: cs) = w :: others := by
  have htab : ∀ c ∈ w.toList ++ ['\t'], (c == '\n') = false := by
    intro c hc
    rcases List.mem_append.mp hc with hc | hc
    · simpa using (hw c hc).2
    · rw [List.mem_singleton.mp hc]
      rfl
  obtain ⟨line, lines, hlines⟩ := List.exists_cons_of_ne_nil
    (List.splitOnP_ne_nil (· == '\n') cs)
  refine ⟨lines.map fun line => String.ofList (line.takeWhile (· ≠ '\t')), ?_⟩
  rw [firstFields, List.append_cons, splitOnP_append_of_forall htab, hlines,
    List.modifyHead_cons, List.map_cons, ← List.append_cons,
    takeWhile_tab hw, String.ofList_toList]

theorem firstColumn_cons (row : VersionRow) (rows : List VersionRow) :
    firstColumn (row :: rows) = firstFields row.columns ++ firstColumn rows := by
  rw [firstColumn, List.flatMap_cons, VersionRow.text, List.append_assoc, List.singleton_append,
    firstFields, List.splitOnP_append_cons _ _ (by rfl), List.map_append]
  rfl

theorem ne_of_isDigit {c : Char} (h : c.isDigit = true) : c ≠ '\t' ∧ c ≠ '\n' := by
  constructor
  · rintro rfl
    exact absurd h (by decide)
  · rintro rfl
    exact absurd h (by decide)

theorem forall_ne_of_isNumeral {w : String} (hw : isNumeral w = true) :
    ∀ c ∈ w.toList, c ≠ '\t' ∧ c ≠ '\n' := by
  intro c hc
  rw [isNumeral, Bool.and_eq_true, List.all_eq_true] at hw
  exact ne_of_isDigit (hw.2 c hc)

/-- The lines of a row begin with its version and with what its line breaks add. -/
theorem firstFields_columns {row : VersionRow} (hrow : isNumeral row.version = true) :
    firstFields row.columns = row.version :: (firstFields row.columns).tail := by
  obtain ⟨others, hfields⟩ := firstFields_tab (forall_ne_of_isNumeral hrow) _
  rw [VersionRow.columns, hfields, List.tail_cons]

/-- The numerals of the first column are the published versions and what line breaks add. -/
theorem mem_firstColumn_iff {rows : List VersionRow}
    (hrows : ∀ v ∈ versionsOf rows, isNumeral v = true) {field : String}
    (hfield : isNumeral field = true) :
    field ∈ firstColumn rows ↔ field ∈ versionsOf rows ∨ field ∈ addedFields rows := by
  induction rows with
  | nil =>
      constructor
      · intro h
        rw [List.mem_singleton.mp h] at hfield
        cases hfield
      · rintro (h | h) <;> cases h
  | cons row rows ih =>
      obtain ⟨hrow, hrows⟩ := List.forall_mem_cons.mp hrows
      have hadded : addedFields (row :: rows) =
          (firstFields row.columns).tail ++ addedFields rows := List.flatMap_cons ..
      have hversions : versionsOf (row :: rows) = row.version :: versionsOf rows := rfl
      rw [firstColumn_cons, List.mem_append, ih hrows, firstFields_columns hrow, hadded,
        hversions, List.mem_cons, List.mem_cons, List.mem_append]
      tauto

/-- Each published version begins a line. -/
theorem mem_firstColumn {rows : List VersionRow}
    (hrows : ∀ v ∈ versionsOf rows, isNumeral v = true) {v : String} (hv : v ∈ versionsOf rows) :
    v ∈ firstColumn rows :=
  (mem_firstColumn_iff hrows (hrows v hv)).mpr (Or.inl hv)

/-- Without line breaks in the columns nothing is added. -/
theorem addedFields_eq_nil {rows : List VersionRow}
    (hbreaks : ∀ row ∈ rows, ∀ c ∈ row.columns, c ≠ '\n') : addedFields rows = [] := by
  apply List.flatMap_eq_nil_iff.mpr
  intro row hrow
  rw [firstFields,
    List.splitOnP_eq_singleton fun c hc => beq_eq_false_iff_ne.mpr (hbreaks row hrow c hc)]
  rfl

/-! ## Two tables -/

/-- Versions in the order of the listing. -/
def sampleRows : List VersionRow :=
  [⟨"3", "2026-09-18T09:00:00.000+0000", "sha3"⟩, ⟨"12", "2026-09-22T10:00:00.000+0000", "sha12"⟩,
    ⟨"5", "2026-09-20T10:00:00.000+0000", "sha5"⟩, ⟨"4", "2026-09-19T09:30:00.000+0000", "None"⟩]

/-- The description of version 3 has a second line. -/
def brokenRows : List VersionRow :=
  [⟨"3", "2026-09-18T09:00:00.000+0000", "hotfix\n4"⟩,
    ⟨"5", "2026-09-20T10:00:00.000+0000", "sha5"⟩]

example : addedFields brokenRows = ["4"] := by decide +kernel

theorem sampleRows_lines : ∀ row ∈ sampleRows, ∀ c ∈ row.columns, c ≠ '\n' := by
  have hbreaks : sampleRows.all (fun row => row.columns.all (· ≠ '\n')) = true := by decide
  intro row hrow c hc
  exact of_decide_eq_true (List.all_eq_true.mp (List.all_eq_true.mp hbreaks row hrow) c hc)

end ProjectsApi
