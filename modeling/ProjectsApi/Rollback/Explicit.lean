import ProjectsApi.Rollback.Script

/-!
# An explicit target

With `--version` the script asks `awk` whether the target is published, which compares doubles on
whatever begins a line, and the shell whether the alias is there already, which compares texts.
The target is honoured only as another published version, unless it is confused with one
(`explicit_target_honoured_iff`).
-/

namespace ProjectsApi

open Foundation

/-! ## What an explicit target asks for -/

/-- The number that a text denotes, if it is a numeral. -/
def numeral? (text : String) : Option Nat :=
  if isNumeral text then some (decimalValue text.toList) else none

/-- The target is one of the published versions and not the current one. -/
def IsOtherVersion (target current : String) (versions : List String) : Prop :=
  target ∈ versions ∧ numeral? target ≠ numeral? current

instance (target current : String) (versions : List String) :
    Decidable (IsOtherVersion target current versions) :=
  inferInstanceAs (Decidable (_ ∧ _))

/-- An explicit target is honoured only as another published version: only then is the alias
updated, and without it the script exits with code 2. -/
def Honoured (result : RollbackResult) (target current : String) (versions : List String) :
    Prop :=
  (result.updates ≠ [] → IsOtherVersion target current versions) ∧
    (¬ IsOtherVersion target current versions → result.exitCode = 2 ∧ result.updates = [])

/-! ## What a target is confused with -/

/-- Two texts for one number, such as `05` and `5`. -/
def AnotherSpelling (a b : String) : Prop :=
  a ≠ b ∧ isNumeral a = true ∧ isNumeral b = true ∧ versionNumber a = versionNumber b

/-- Two numbers that have one double. -/
def SharesDouble (a b : String) : Prop :=
  versionNumber a ≠ versionNumber b ∧
    ∃ x, binary64 (versionNumber a) = some x ∧ binary64 (versionNumber b) = some x

/-- The numerals that are a target, or look like it as a double. -/
inductive Resembles (target : String) : String → Prop where
  | itself : Resembles target target
  | spelling {field : String} (hspelling : AnotherSpelling field target)
      (hfinite : (binary64 (versionNumber target)).isSome) : Resembles target field
  | double {field : String} (hdouble : SharesDouble field target) : Resembles target field

/-- The targets that are confused with another published version. -/
inductive Confused (rows : List VersionRow) (target current : String) : Prop where
  /-- The target is published, and the alias is at it in another spelling. -/
  | current (hpublished : target ∈ versionsOf rows) (hspelling : AnotherSpelling current target)
  /-- The target is not published, but looks like a version that is. -/
  | version {v : String} (hnot : target ∉ versionsOf rows) (hother : target ≠ current)
      (hv : v ∈ versionsOf rows) (hlike : Resembles target v)
  /-- The target is not published, but looks like a numeral after a line break in a column. -/
  | line {field : String} (hnot : target ∉ versionsOf rows) (hother : target ≠ current)
      (hfield : field ∈ addedFields rows) (hnumeral : isNumeral field = true)
      (hlike : Resembles target field)

/-! ## The comparison -/

theorem awkEq_iff {a b : String} : awkEq a b = true ↔
    a = b ∨ ∃ x, binary64 (versionNumber a) = some x ∧ binary64 (versionNumber b) = some x := by
  have ha : awkNumber a = binary64 (versionNumber a) := rfl
  have hb : awkNumber b = binary64 (versionNumber b) := rfl
  unfold awkEq
  rw [← ha, ← hb]
  cases hna : awkNumber a with
  | none => simp
  | some x =>
      cases hnb : awkNumber b with
      | none => simp
      | some y =>
          constructor
          · intro h
            exact Or.inr ⟨x, rfl, congrArg some (beq_iff_eq.mp h).symm⟩
          · rintro (rfl | ⟨z, hx, hy⟩)
            · exact beq_iff_eq.mpr (Option.some.inj (hna.symm.trans hnb))
            · exact beq_iff_eq.mpr (Option.some.inj (hx.trans hy.symm))

/-- `awk` takes for the target what resembles it. -/
theorem awkEq_iff_resembles {field target : String} (hfield : isNumeral field = true)
    (htarget : isNumeral target = true) :
    awkEq field target = true ↔ Resembles target field := by
  rw [awkEq_iff]
  constructor
  · rintro (rfl | ⟨x, hx, hy⟩)
    · exact .itself
    · by_cases hsame : field = target
      · exact hsame ▸ .itself
      · by_cases hnumber : versionNumber field = versionNumber target
        · exact .spelling ⟨hsame, hfield, htarget, hnumber⟩ (Option.isSome_of_eq_some hy)
        · exact .double ⟨hnumber, x, hx, hy⟩
  · intro h
    cases h with
    | itself => exact Or.inl rfl
    | spelling hspelling hfinite =>
        obtain ⟨x, hx⟩ := Option.isSome_iff_exists.mp hfinite
        exact Or.inr ⟨x, hspelling.2.2.2 ▸ hx, hx⟩
    | double hdouble => exact Or.inr hdouble.2

/-- Below `2 ^ 53` a target resembles the texts of its number alone. -/
theorem Resembles.versionNumber_eq {target field : String} (h : Resembles target field)
    (hlt : versionNumber target < 2 ^ 53) : versionNumber field = versionNumber target := by
  cases h with
  | itself => rfl
  | spelling hspelling => exact hspelling.2.2.2
  | double hdouble =>
      obtain ⟨x, hx, hy⟩ := hdouble.2
      exact (binary64_eq_iff hlt).mp (hx.trans hy.symm)

theorem numeral?_eq_iff {target current : String} (htarget : isNumeral target = true)
    (hne : target ≠ current) :
    numeral? target = numeral? current ↔ AnotherSpelling current target := by
  unfold numeral?
  rw [if_pos htarget]
  constructor
  · intro h
    split_ifs at h with hcurrent
    exact ⟨hne.symm, hcurrent, htarget, (Option.some.inj h).symm⟩
  · intro h
    rw [if_pos h.2.1]
    exact congrArg some h.2.2.2.symm

/-! ## Main result -/

section Target

variable {rows : List VersionRow} (hrows : ∀ v ∈ versionsOf rows, IsCanonical v.toList)
  {target current : String} (htarget : isNumeral target = true)

include hrows htarget in
/-- The target is found if a version or an added line resembles it. -/
theorem found_firstColumn_iff : Found (firstColumn rows) target ↔
    (∃ v ∈ versionsOf rows, Resembles target v) ∨
      ∃ field ∈ addedFields rows, isNumeral field = true ∧ Resembles target field := by
  have hnumerals := isNumeral_versionsOf hrows
  constructor
  · rintro ⟨field, hfield, hnumeral, heq⟩
    have hlike := (awkEq_iff_resembles hnumeral htarget).mp heq
    rcases (mem_firstColumn_iff hnumerals hnumeral).mp hfield with hv | hadded
    · exact Or.inl ⟨field, hv, hlike⟩
    · exact Or.inr ⟨field, hadded, hnumeral, hlike⟩
  · rintro (⟨v, hv, hlike⟩ | ⟨field, hadded, hnumeral, hlike⟩)
    · have hnumeral := hnumerals v hv
      exact ⟨v, mem_firstColumn hnumerals hv, hnumeral,
        (awkEq_iff_resembles hnumeral htarget).mpr hlike⟩
    · exact ⟨field, (mem_firstColumn_iff hnumerals hnumeral).mpr (Or.inr hadded), hnumeral,
        (awkEq_iff_resembles hnumeral htarget).mpr hlike⟩

include hrows htarget in
/-- A target that is picked is another version, if it is not confused with one. -/
theorem isOtherVersion_of_not_confused (hfound : Found (firstColumn rows) target)
    (hother : target ≠ current) (h : ¬ Confused rows target current) :
    IsOtherVersion target current (versionsOf rows) := by
  by_cases hpublished : target ∈ versionsOf rows
  · refine ⟨hpublished, fun hsame => h ?_⟩
    exact .current hpublished ((numeral?_eq_iff htarget hother).mp hsame)
  · exfalso
    rcases (found_firstColumn_iff hrows htarget).mp hfound with hversion | hline
    · obtain ⟨v, hv, hlike⟩ := hversion
      exact h (.version hpublished hother hv hlike)
    · obtain ⟨field, hfield, hnumeral, hlike⟩ := hline
      exact h (.line hpublished hother hfield hnumeral hlike)

include hrows htarget in
/-- A target that is confused with another version is picked, and it is none. -/
theorem found_of_confused (h : Confused rows target current) :
    (Found (firstColumn rows) target ∧ target ≠ current) ∧
      ¬ IsOtherVersion target current (versionsOf rows) := by
  have hfound := found_firstColumn_iff hrows htarget
  cases h with
  | current hpublished hspelling =>
      have hother : target ≠ current := hspelling.1.symm
      refine ⟨⟨hfound.mpr (Or.inl ⟨target, hpublished, .itself⟩), hother⟩, ?_⟩
      intro hversion
      exact hversion.2 ((numeral?_eq_iff htarget hother).mpr hspelling)
  | version hnot hother hv hlike =>
      exact ⟨⟨hfound.mpr (Or.inl ⟨_, hv, hlike⟩), hother⟩, fun hversion => hnot hversion.1⟩
  | line hnot hother hfield hnumeral hlike =>
      exact ⟨⟨hfound.mpr (Or.inr ⟨_, hfield, hnumeral, hlike⟩), hother⟩,
        fun hversion => hnot hversion.1⟩

include hrows in
/-- Below `2 ^ 53`, without superfluous zeros and without line breaks, nothing is confused. -/
theorem not_confused_of_lt (hcanonical : IsCanonical target.toList)
    (hlt : versionNumber target < 2 ^ 53)
    (hcurrent : isNumeral current = true → IsCanonical current.toList)
    (hbreaks : ∀ row ∈ rows, ∀ c ∈ row.columns, c ≠ '\n') : ¬ Confused rows target current := by
  intro h
  cases h with
  | current _ hspelling =>
      obtain ⟨hne, hnumeral, -, hnumber⟩ := hspelling
      have htext := (hcurrent hnumeral).eq_of_decimalValue hcanonical hnumber
      exact hne (String.toList_inj.mp htext)
  | version hnot _ hv hlike =>
      have htext := (hrows _ hv).eq_of_decimalValue hcanonical (hlike.versionNumber_eq hlt)
      exact hnot (String.toList_inj.mp htext ▸ hv)
  | line _ _ hfield =>
      rw [addedFields_eq_nil hbreaks] at hfield
      cases hfield

end Target

/-- An explicit target is honoured only as another published version, unless it is confused with
one. -/
theorem explicit_target_honoured_iff (options : RollbackOptions)
    (htarget : isNumeral options.target = true) (current : String) (rows : List VersionRow)
    (hrows : ∀ v ∈ versionsOf rows, IsCanonical v.toList) (updated : Bool)
    (after : Option String) :
    Honoured (rollback options ⟨some current, some (firstColumn rows), updated, after⟩)
        options.target current (versionsOf rows) ↔
      ¬ Confused rows options.target current := by
  obtain ⟨hpicked, hrefused⟩ :=
    rollback_explicit htarget (firstColumn rows) current updated after
  constructor
  · intro h hconfused
    obtain ⟨hfound, hnone⟩ := found_of_confused hrows htarget hconfused
    rw [hpicked hfound] at h
    exact applyTarget_exitCode _ _ _ (h.2 hnone).1
  · intro h
    by_cases hfound : Found (firstColumn rows) options.target ∧ options.target ≠ current
    · -- whatever happens to another published version is allowed
      have hversion := isOtherVersion_of_not_confused hrows htarget hfound.1 hfound.2 h
      exact ⟨fun _ => hversion, fun hnone => absurd hversion hnone⟩
    · rw [hrefused hfound]
      exact ⟨fun hupdated => absurd rfl hupdated, fun _ => ⟨rfl, rfl⟩⟩

theorem explicit_target_honoured_sample :
    Honoured (rollback ⟨"3", true, false, ""⟩
        ⟨some "5", some (firstColumn sampleRows), true, some "3"⟩)
      "3" "5" (versionsOf sampleRows) :=
  (explicit_target_honoured_iff ⟨"3", true, false, ""⟩ (by decide) "5" sampleRows (by decide)
    true (some "3")).mpr
      (not_confused_of_lt (by decide) (by decide) (by decide) (by decide) sampleRows_lines)

/-- With the alias at 5, `05` is no published version and denotes the current one, and `4` is a
line of a description, but the alias is updated. -/
theorem padded_target_repoints :
    ((rollback ⟨"05", true, false, ""⟩
          ⟨some "5", some (firstColumn sampleRows), true, some "05"⟩).updates = ["05"] ∧
        ¬ Honoured (rollback ⟨"05", true, false, ""⟩
            ⟨some "5", some (firstColumn sampleRows), true, some "05"⟩)
          "05" "5" (versionsOf sampleRows)) ∧
      (rollback ⟨"4", true, false, ""⟩
          ⟨some "5", some (firstColumn brokenRows), true, some "4"⟩).updates = ["4"] ∧
        ¬ Honoured (rollback ⟨"4", true, false, ""⟩
            ⟨some "5", some (firstColumn brokenRows), true, some "4"⟩)
          "4" "5" (versionsOf brokenRows) := by
  have hpadded : Found (firstColumn sampleRows) "05" := ⟨"5", by decide +kernel⟩
  have hline : Found (firstColumn brokenRows) "4" := ⟨"4", by decide +kernel⟩
  have hfive : rollback ⟨"05", true, false, ""⟩
      ⟨some "5", some (firstColumn sampleRows), true, some "05"⟩ = ⟨0, ["05"]⟩ :=
    (rollback_explicit (by decide) _ "5" true (some "05")).1 ⟨hpadded, by decide⟩
  have hfour : rollback ⟨"4", true, false, ""⟩
      ⟨some "5", some (firstColumn brokenRows), true, some "4"⟩ = ⟨0, ["4"]⟩ :=
    (rollback_explicit (by decide) _ "5" true (some "4")).1 ⟨hline, by decide⟩
  rw [hfive, hfour]
  refine ⟨⟨rfl, ?_⟩, rfl, ?_⟩
  · intro h
    exact absurd (h.1 (by decide)) (by decide)
  · intro h
    exact absurd (h.1 (by decide)) (by decide)

end ProjectsApi
