import Mathlib.Data.Finset.Max
import Mathlib.Data.Prod.Lex
import Mathlib.Data.String.Basic
import ProjectsApi.Rollback.Script

/-!
# The default target

Without `--version` the script keeps the last row of its sorted table that `awk` reads as below
the current version.  The table is cut from text, one line at a time, and the comparison is one
of doubles.  The row is the previous version exactly if the doubles keep the published versions
below the current one and no line break in a description adds a later match
(`default_target_iff`).
-/

namespace ProjectsApi

open Foundation

/-! ## What the default is for -/

/-- The greatest of the versions below the current one. -/
def IsPrevious (target current : String) (versions : List String) : Prop :=
  target ∈ versions ∧ versionNumber target < versionNumber current ∧
    ∀ v ∈ versions, versionNumber v < versionNumber current →
      versionNumber v ≤ versionNumber target

/-- Without `--version` the script goes on with the previous version, or it exits with code 2
and calls nothing. -/
def RollsBackToPrevious (rows : List VersionRow) (current : String) : Prop :=
  ∀ (options : RollbackOptions) (updated : Bool) (after : Option String), options.target = "" →
    (∀ target, IsPrevious target current (versionsOf rows) →
      rollback options ⟨some current, some (firstColumn rows), updated, after⟩ =
        applyTarget options ⟨some current, some (firstColumn rows), updated, after⟩ target) ∧
    ((∀ target, ¬ IsPrevious target current (versionsOf rows)) →
      rollback options ⟨some current, some (firstColumn rows), updated, after⟩ = ⟨2, []⟩)

/-- As doubles, too, the versions below the current one are below it, and what a line break adds
to the first column does not come after all of them. -/
def ReadsVersions (rows : List VersionRow) (current : String) : Prop :=
  (∀ v ∈ versionsOf rows, versionNumber v < versionNumber current → awkLt v current = true) ∧
    ∀ field ∈ firstColumn rows, isNumeral field = true → field ∉ versionsOf rows →
      awkLt field current = true →
        ∃ v ∈ versionsOf rows, versionNumber v < versionNumber current ∧ rowLe field v = true

instance (rows : List VersionRow) (current : String) : Decidable (ReadsVersions rows current) :=
  inferInstanceAs (Decidable (_ ∧ _))

/-! ## Comparisons -/

theorem rowLe_iff (a b : String) :
    rowLe a b = true ↔ toLex (versionNumber a, a) ≤ toLex (versionNumber b, b) := by
  rw [rowLe, Prod.Lex.toLex_le_toLex]
  simp [versionNumber]

theorem versionNumber_le_of_rowLe {a b : String} (h : rowLe a b = true) :
    versionNumber a ≤ versionNumber b := by
  rw [rowLe_iff, Prod.Lex.toLex_le_toLex] at h
  rcases h with hlt | ⟨heq, -⟩
  · exact hlt.le
  · exact heq.le

theorem rowLe_trans {a b c : String} (hab : rowLe a b = true) (hbc : rowLe b c = true) :
    rowLe a c = true := by
  rw [rowLe_iff] at hab hbc ⊢
  exact hab.trans hbc

theorem rowLe_antisymm {a b : String} (hab : rowLe a b = true) (hba : rowLe b a = true) :
    a = b := by
  rw [rowLe_iff] at hab hba
  exact (Prod.mk.inj (toLex.injective (le_antisymm hab hba))).2

theorem rowLe_total (a b : String) : (rowLe a b || rowLe b a) = true := by
  rw [Bool.or_eq_true, rowLe_iff, rowLe_iff]
  exact le_total _ _

/-- A version that is below as a double is below. -/
theorem lt_of_awkLt {a b : String} (h : awkLt a b = true) : versionNumber a < versionNumber b := by
  by_contra hnot
  have hle : versionNumber b ≤ versionNumber a := Nat.le_of_not_lt hnot
  unfold awkLt awkNumber at h
  cases ha : binary64 (versionNumber a) with
  | none =>
      rw [versionNumber] at ha
      rw [ha] at h
      cases h
  | some x =>
      obtain ⟨y, hb, hyx⟩ := exists_binary64_le hle ha
      rw [versionNumber] at ha hb
      rw [ha, hb] at h
      exact absurd (of_decide_eq_true h) (Nat.not_lt.mpr hyx)

/-- Below `2 ^ 53` the doubles compare as the versions do. -/
theorem awkLt_iff {a b : String} (hb : versionNumber b < 2 ^ 53) :
    awkLt a b = true ↔ versionNumber a < versionNumber b := by
  constructor
  · exact lt_of_awkLt
  · intro hlt
    have hx := binary64_of_lt (hlt.trans hb)
    have hy := binary64_of_lt hb
    rw [versionNumber] at hx hy
    unfold awkLt awkNumber
    rw [hx, hy]
    exact decide_eq_true hlt

/-- Versions up to one that is below as a double are so, too. -/
theorem awkLt_of_le {a b c : String} (hab : versionNumber a ≤ versionNumber b)
    (h : awkLt b c = true) : awkLt a c = true := by
  unfold awkLt awkNumber at h ⊢
  cases hb : binary64 (versionNumber b) with
  | none =>
      rw [versionNumber] at hb
      rw [hb] at h
      cases h
  | some y =>
      obtain ⟨x, ha, hxy⟩ := exists_binary64_le hab hb
      rw [versionNumber] at ha hb
      rw [hb] at h
      rw [ha]
      cases hc : binary64 (decimalValue c.toList) with
      | none => rfl
      | some z =>
          rw [hc] at h
          exact decide_eq_true (hxy.trans_lt (of_decide_eq_true h))

/-! ## The last match -/

theorem publishedVersions_sorted (listed : List String) :
    (publishedVersions listed).Pairwise fun a b => rowLe a b = true := by
  have htrans : ∀ a b c : String, rowLe a b = true → rowLe b c = true → rowLe a c = true :=
    fun _ _ _ => rowLe_trans
  rw [publishedVersions]
  exact List.pairwise_mergeSort htrans rowLe_total (listed.filter isNumeral)

/-- `awk` keeps the last matching row of the sorted table: no match comes after it. -/
theorem previousVersion_eq_some {listed : List String} {current picked : String}
    (h : previousVersion (publishedVersions listed) current = some picked) :
    (picked ∈ listed ∧ isNumeral picked = true) ∧ awkLt picked current = true ∧
      ∀ field ∈ listed, isNumeral field = true → awkLt field current = true →
        rowLe field picked = true := by
  obtain ⟨front, hfront⟩ := List.getLast?_eq_some_iff.mp h
  have hmem : ∀ field, field ∈ front ++ [picked] ↔
      (field ∈ listed ∧ isNumeral field = true) ∧ awkLt field current = true := by
    intro field
    rw [← hfront, List.mem_filter, mem_publishedVersions]
  have hsorted : (front ++ [picked]).Pairwise fun a b => rowLe a b = true := by
    rw [← hfront]
    exact (publishedVersions_sorted listed).filter _
  obtain ⟨hpicked, hlt⟩ := (hmem picked).mp (by simp)
  refine ⟨hpicked, hlt, ?_⟩
  intro field hfield hnumeral hbelow
  rcases List.mem_append.mp ((hmem field).mpr ⟨⟨hfield, hnumeral⟩, hbelow⟩) with hmem | hmem
  · exact (List.pairwise_append.mp hsorted).2.2 field hmem picked (by simp)
  · rw [List.mem_singleton.mp hmem]
    simpa using rowLe_total picked picked

theorem previousVersion_eq_none_iff {listed : List String} {current : String} :
    previousVersion (publishedVersions listed) current = none ↔
      ∀ field ∈ listed, isNumeral field = true → awkLt field current = false := by
  rw [previousVersion, List.getLast?_eq_none_iff, List.filter_eq_nil_iff]
  simp only [mem_publishedVersions, and_imp, Bool.not_eq_true]

/-- A match after which no other one comes is the one that is kept. -/
theorem previousVersion_of_last {listed : List String} {current picked : String}
    (hpicked : picked ∈ listed) (hnumeral : isNumeral picked = true)
    (hlt : awkLt picked current = true)
    (hlast : ∀ field ∈ listed, isNumeral field = true → awkLt field current = true →
      rowLe field picked = true) :
    previousVersion (publishedVersions listed) current = some picked := by
  cases hkept : previousVersion (publishedVersions listed) current with
  | none =>
      rw [previousVersion_eq_none_iff.mp hkept picked hpicked hnumeral] at hlt
      cases hlt
  | some kept =>
      obtain ⟨⟨hmem, hkeptNumeral⟩, hkeptLt, hmax⟩ := previousVersion_eq_some hkept
      exact congrArg some (rowLe_antisymm (hlast kept hmem hkeptNumeral hkeptLt)
        (hmax picked hpicked hnumeral hlt))

/-- The script without `--version`. -/
theorem rollback_default {options : RollbackOptions} (htarget : options.target = "")
    {current : String} (hcurrent : isNumeral current = true) {listed : List String}
    (hlisted : ∃ v ∈ listed, isNumeral v = true) (updated : Bool) (after : Option String) :
    rollback options ⟨some current, some listed, updated, after⟩ =
      match previousVersion (publishedVersions listed) current with
      | none => ⟨2, []⟩
      | some picked => applyTarget options ⟨some current, some listed, updated, after⟩ picked := by
  have hne : publishedVersions listed ≠ [] := by
    obtain ⟨v, hv, hnumeral⟩ := hlisted
    exact List.ne_nil_of_mem (mem_publishedVersions.mpr ⟨hv, hnumeral⟩)
  simp only [rollback, pickTarget, htarget, hcurrent, hne, ne_eq, not_true, false_and, if_false,
    if_true, Bool.not_true, Bool.false_eq_true]
  cases previousVersion (publishedVersions listed) current with
  | none => rfl
  | some picked => rfl

/-- Some version below the current one is the greatest. -/
theorem exists_isPrevious {current : String} {versions : List String}
    (h : ∃ v ∈ versions, versionNumber v < versionNumber current) :
    ∃ target, IsPrevious target current versions := by
  obtain ⟨v, hv, hlt⟩ := h
  have hne : (versions.toFinset.filter fun v => versionNumber v < versionNumber current).Nonempty :=
    ⟨v, by simp [hv, hlt]⟩
  obtain ⟨target, htarget, hmax⟩ := Finset.exists_max_image _ versionNumber hne
  simp only [Finset.mem_filter, List.mem_toFinset] at htarget hmax
  exact ⟨target, htarget.1, htarget.2, fun v hv hlt => hmax v ⟨hv, hlt⟩⟩

/-! ## Main result -/

section Rows

variable {rows : List VersionRow} (hne : rows ≠ [])
  (hrows : ∀ v ∈ versionsOf rows, IsCanonical v.toList) {current : String}
  (hcurrent : isNumeral current = true)

include hne hrows in
theorem exists_mem_firstColumn : ∃ v ∈ firstColumn rows, isNumeral v = true := by
  have hnumerals := isNumeral_versionsOf hrows
  obtain ⟨row, hrow⟩ := List.exists_mem_of_ne_nil rows hne
  have hv : row.version ∈ versionsOf rows := List.mem_map_of_mem hrow
  exact ⟨row.version, mem_firstColumn hnumerals hv, hnumerals _ hv⟩

include hrows in
/-- The match that is kept is the previous version. -/
theorem eq_of_previousVersion (hreads : ReadsVersions rows current) {target picked : String}
    (htarget : IsPrevious target current (versionsOf rows))
    (hpicked : previousVersion (publishedVersions (firstColumn rows)) current = some picked) :
    picked = target := by
  obtain ⟨hmem, hbelow, hgreatest⟩ := htarget
  obtain ⟨⟨hlisted, hnumeral⟩, hlt, hlast⟩ := previousVersion_eq_some hpicked
  have hnumerals := isNumeral_versionsOf hrows
  have hle : rowLe target picked = true :=
    hlast target (mem_firstColumn hnumerals hmem) (hnumerals target hmem)
      (hreads.1 target hmem hbelow)
  -- numerals of one number are one text, so the greatest one is unique
  have hunique : ∀ v ∈ versionsOf rows, versionNumber v < versionNumber current →
      rowLe target v = true → v = target := by
    intro v hv hvlt htv
    refine String.toList_inj.mp ((hrows v hv).eq_of_decimalValue (hrows target hmem) ?_)
    exact le_antisymm (hgreatest v hv hvlt) (versionNumber_le_of_rowLe htv)
  by_cases hversion : picked ∈ versionsOf rows
  · exact hunique picked hversion (lt_of_awkLt hlt) hle
  · obtain ⟨v, hv, hvlt, hpv⟩ := hreads.2 picked hlisted hnumeral hversion hlt
    obtain rfl := hunique v hv hvlt (rowLe_trans hle hpv)
    exact rowLe_antisymm hpv hle

include hrows in
/-- Where the rows are read as the versions they are, a match is the previous version. -/
theorem isPrevious_of_previousVersion (hreads : ReadsVersions rows current) {picked : String}
    (hpicked : previousVersion (publishedVersions (firstColumn rows)) current = some picked) :
    IsPrevious picked current (versionsOf rows) := by
  obtain ⟨⟨hlisted, hnumeral⟩, hlt, -⟩ := previousVersion_eq_some hpicked
  -- a match has a version below the current one behind it
  have hbelow : ∃ v ∈ versionsOf rows, versionNumber v < versionNumber current := by
    by_cases hversion : picked ∈ versionsOf rows
    · exact ⟨picked, hversion, lt_of_awkLt hlt⟩
    · obtain ⟨v, hv, hvlt, -⟩ := hreads.2 picked hlisted hnumeral hversion hlt
      exact ⟨v, hv, hvlt⟩
  obtain ⟨target, hprevious⟩ := exists_isPrevious hbelow
  rwa [eq_of_previousVersion hrows hreads hprevious hpicked]

include hne hrows hcurrent in
theorem rollsBackToPrevious_of_reads (hreads : ReadsVersions rows current) :
    RollsBackToPrevious rows current := by
  intro options updated after htarget
  have hnumerals := isNumeral_versionsOf hrows
  rw [rollback_default htarget hcurrent (exists_mem_firstColumn hne hrows)]
  constructor
  · intro target hprevious
    cases hpicked : previousVersion (publishedVersions (firstColumn rows)) current with
    | some picked => rw [eq_of_previousVersion hrows hreads hprevious hpicked]
    | none =>
        have hmem := hprevious.1
        have hnot := previousVersion_eq_none_iff.mp hpicked target
          (mem_firstColumn hnumerals hmem) (hnumerals target hmem)
        rw [hreads.1 target hmem hprevious.2.1] at hnot
        cases hnot
  · intro hnone
    cases hpicked : previousVersion (publishedVersions (firstColumn rows)) current with
    | none => rfl
    | some picked =>
        exact absurd (isPrevious_of_previousVersion hrows hreads hpicked) (hnone picked)

include hne hrows hcurrent in
/-- What the script picks is seen in its call of `update-alias`. -/
theorem isPrevious_of_rollsBack (h : RollsBackToPrevious rows current) :
    (∀ picked, previousVersion (publishedVersions (firstColumn rows)) current = some picked →
        IsPrevious picked current (versionsOf rows)) ∧
      (previousVersion (publishedVersions (firstColumn rows)) current = none →
        ∀ target, ¬ IsPrevious target current (versionsOf rows)) := by
  let options : RollbackOptions := ⟨"", true, false, ""⟩
  have htarget : options.target = "" := rfl
  obtain ⟨hsome, hnone⟩ := h options false none htarget
  have hrun := rollback_default htarget hcurrent (exists_mem_firstColumn hne hrows) false none
  constructor
  · intro picked hpicked
    rw [hpicked] at hrun
    by_cases hprevious : ∃ target, IsPrevious target current (versionsOf rows)
    · obtain ⟨target, htarget⟩ := hprevious
      have hupdates := congrArg RollbackResult.updates (hrun.symm.trans (hsome target htarget))
      obtain rfl : picked = target := by simpa [applyTarget] using hupdates
      exact htarget
    · have hupdates := congrArg RollbackResult.updates
        (hrun.symm.trans (hnone fun target htarget => hprevious ⟨target, htarget⟩))
      simp [applyTarget] at hupdates
  · intro hpicked target htarget
    rw [hpicked] at hrun
    have hupdates := congrArg RollbackResult.updates (hrun.symm.trans (hsome target htarget))
    simp [applyTarget] at hupdates

include hne hrows hcurrent in
theorem reads_of_rollsBackToPrevious (h : RollsBackToPrevious rows current) :
    ReadsVersions rows current := by
  obtain ⟨hsome, hnone⟩ := isPrevious_of_rollsBack hne hrows hcurrent h
  constructor
  · intro v hv hlt
    obtain ⟨target, hprevious⟩ := exists_isPrevious ⟨v, hv, hlt⟩
    cases hpicked : previousVersion (publishedVersions (firstColumn rows)) current with
    | none => exact absurd hprevious (hnone hpicked target)
    | some picked =>
        obtain ⟨-, -, hgreatest⟩ := hsome picked hpicked
        exact awkLt_of_le (hgreatest v hv hlt) (previousVersion_eq_some hpicked).2.1
  · intro field hfield hnumeral _ hlt
    cases hpicked : previousVersion (publishedVersions (firstColumn rows)) current with
    | none =>
        rw [previousVersion_eq_none_iff.mp hpicked field hfield hnumeral] at hlt
        cases hlt
    | some picked =>
        obtain ⟨hmem, hbelow, -⟩ := hsome picked hpicked
        exact ⟨picked, hmem, hbelow,
          (previousVersion_eq_some hpicked).2.2 field hfield hnumeral hlt⟩

include hrows in
/-- Versions below `2 ^ 53` are read as they are if no other column has a line break. -/
theorem readsVersions_of_lt (hlt : versionNumber current < 2 ^ 53)
    (hbreaks : ∀ row ∈ rows, ∀ c ∈ row.columns, c ≠ '\n') : ReadsVersions rows current := by
  constructor
  · intro v _ hbelow
    exact (awkLt_iff hlt).mpr hbelow
  · intro field hfield hnumeral hversion _
    rcases (mem_firstColumn_iff (isNumeral_versionsOf hrows) hnumeral).mp hfield with hv | hadded
    · exact absurd hv hversion
    · rw [addedFields_eq_nil hbreaks] at hadded
      cases hadded

include hne hrows hcurrent in
/-- The default target is the previous version exactly if the rows are read as the versions they
are. -/
theorem default_target_iff : RollsBackToPrevious rows current ↔ ReadsVersions rows current :=
  ⟨reads_of_rollsBackToPrevious hne hrows hcurrent,
    rollsBackToPrevious_of_reads hne hrows hcurrent⟩

end Rows

/-! ## A sample and two misreadings -/

instance (target current : String) (versions : List String) :
    Decidable (IsPrevious target current versions) :=
  inferInstanceAs (Decidable (_ ∧ _ ∧ ∀ v ∈ versions, _ → _))

theorem default_target_sample :
    rollback ⟨"", true, false, ""⟩ ⟨some "5", some (firstColumn sampleRows), true, some "4"⟩ =
      ⟨0, ["4"]⟩ := by
  have hreads : ReadsVersions sampleRows "5" := by decide +kernel
  have hrolls : RollsBackToPrevious sampleRows "5" :=
    (default_target_iff (by decide) (by decide) (by decide)).mpr hreads
  rw [(hrolls ⟨"", true, false, ""⟩ true (some "4") rfl).1 "4" (by decide)]
  rfl

/-- The two versions have one double. -/
def largeRows : List VersionRow :=
  [⟨"9007199254740992", "2026-09-18T09:00:00.000+0000", "sha"⟩,
    ⟨"9007199254740993", "2026-09-20T10:00:00.000+0000", "sha"⟩]

/-- A line of a description is taken for a version, and of two versions with one double none is
below the other. -/
theorem default_target_misread :
    (¬ RollsBackToPrevious brokenRows "5" ∧
      (rollback ⟨"", true, false, ""⟩
        ⟨some "5", some (firstColumn brokenRows), true, some "4"⟩).updates = ["4"]) ∧
      ¬ RollsBackToPrevious largeRows "9007199254740993" ∧
        (rollback ⟨"", true, false, ""⟩
          ⟨some "9007199254740993", some (firstColumn largeRows), true, none⟩).exitCode = 2 := by
  have hbroken : previousVersion (publishedVersions (firstColumn brokenRows)) "5" = some "4" :=
    previousVersion_of_last (by decide +kernel) (by decide) (by decide +kernel)
      (by decide +kernel)
  have hlarge : previousVersion (publishedVersions (firstColumn largeRows)) "9007199254740993" =
      none := previousVersion_eq_none_iff.mpr (by decide +kernel)
  refine ⟨⟨?_, ?_⟩, ?_, ?_⟩
  · intro h
    exact absurd (reads_of_rollsBackToPrevious (by decide) (by decide) (by decide) h)
      (by decide +kernel)
  · rw [rollback_default rfl (by decide) (by decide +kernel), hbroken]
    rfl
  · intro h
    exact absurd (reads_of_rollsBackToPrevious (by decide) (by decide) (by decide) h)
      (by decide +kernel)
  · rw [rollback_default rfl (by decide) (by decide +kernel), hlarge]

end ProjectsApi
