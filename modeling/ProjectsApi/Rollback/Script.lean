import ProjectsApi.Rollback.Table

/-!
# Rolling back the live alias

`scripts/rollback.sh` from its parsed options on: which version it picks, when it calls
`update-alias` and with which code it exits.  Whether a version exists is decided by `awk`,
which compares texts of digits as doubles; whether the alias is there already is decided by
the shell, which compares texts.
-/

namespace ProjectsApi

open Foundation

/-! ## The script -/

/-- The options of the script that decide what it does. -/
structure RollbackOptions where
  /-- `TARGET`: the argument of `--version`, empty without it -/
  target : String
  /-- `--yes` -/
  assumeYes : Bool
  /-- `--dry-run` -/
  dryRun : Bool
  /-- the answer to the confirmation prompt, as `read` leaves it -/
  answer : String

/-- What the AWS CLI answers; `none` and `false` are failed calls. -/
structure AwsCli where
  /-- `get-alias`: the version that the alias points at -/
  current : Option String
  /-- `list-versions-by-function`: what each line of the answer begins with -/
  versions : Option (List String)
  /-- `update-alias` -/
  updated : Bool
  /-- `get-alias` once more, after the update -/
  after : Option String

/-- How a run of the script ends. -/
structure RollbackResult where
  exitCode : Nat
  /-- the arguments of the `update-alias` calls, in order -/
  updates : List String
deriving Repr, DecidableEq

/-- The double that `awk` reads a text of digits as. -/
def awkNumber (text : String) : Option Nat :=
  binary64 (decimalValue text.toList)

/-- `$1 == v`: both sides look numeric, so they are compared as numbers, and as texts where a
number is beyond the range of a double. -/
def awkEq (field v : String) : Bool :=
  match awkNumber field, awkNumber v with
  | some x, some y => x == y
  | _, _ => field == v

/-- `$1 + 0 < cur + 0` -/
def awkLt (field cur : String) : Bool :=
  match awkNumber field, awkNumber cur with
  | some x, some y => x < y
  | some _, none => true
  | none, _ => false

/-- The order of `sort -k1,1n`: by number, texts of one number by their characters. -/
def rowLe (a b : String) : Bool :=
  decimalValue a.toList < decimalValue b.toList ||
    (decimalValue a.toList == decimalValue b.toList && a ≤ b)

/-- `VERSIONS`: the rows of published versions, numerically sorted. -/
def publishedVersions (listed : List String) : List String :=
  (listed.filter isNumeral).mergeSort rowLe

def versionExists (versions : List String) (version : String) : Bool :=
  versions.any (fun row => awkEq row version)

/-- The highest published version strictly below the current one. -/
def previousVersion (versions : List String) (current : String) : Option String :=
  (versions.filter (fun row => awkLt row current)).getLast?

/-- The target of the rollback, or the code that the script exits with. -/
def pickTarget (target current : String) (versions : List String) : Except Nat String :=
  if target = "" then
    if !isNumeral current then .error 2
    else
      match previousVersion versions current with
      | none => .error 2
      | some previous => .ok previous
  else if !versionExists versions target then .error 2
  else if target = current then .error 2
  else .ok target

/-- Dry run, confirmation, update and the re-read that confirms it. -/
def applyTarget (options : RollbackOptions) (aws : AwsCli) (target : String) :
    RollbackResult :=
  if options.dryRun then ⟨0, []⟩
  else if options.assumeYes = false ∧ options.answer ∉ ["y", "Y", "yes", "YES"] then ⟨1, []⟩
  else if !aws.updated then ⟨3, [target]⟩
  else
    match aws.after with
    | none => ⟨3, [target]⟩
    | some after => if after ≠ target then ⟨3, [target]⟩ else ⟨0, [target]⟩

/-- The script. -/
def rollback (options : RollbackOptions) (aws : AwsCli) : RollbackResult :=
  if options.target ≠ "" ∧ !isNumeral options.target then ⟨1, []⟩
  else
    match aws.current, aws.versions with
    | none, _ => ⟨3, []⟩
    | some _, none => ⟨3, []⟩
    | some current, some listed =>
        let versions := publishedVersions listed
        if versions = [] then ⟨2, []⟩
        else
          match pickTarget options.target current versions with
          | .error code => ⟨code, []⟩
          | .ok target => applyTarget options aws target

/-! ## What the script does with an explicit target -/

theorem mem_publishedVersions {listed : List String} {v : String} :
    v ∈ publishedVersions listed ↔ v ∈ listed ∧ isNumeral v = true := by
  rw [publishedVersions, List.mem_mergeSort, List.mem_filter]

/-- A line of the table begins with a numeral that `awk` takes for the target. -/
def Found (listed : List String) (target : String) : Prop :=
  ∃ field ∈ listed, isNumeral field = true ∧ awkEq field target = true

theorem versionExists_iff {listed : List String} {target : String} :
    versionExists (publishedVersions listed) target = true ↔ Found listed target := by
  rw [versionExists, List.any_eq_true]
  constructor
  · intro h
    obtain ⟨v, hv, heq⟩ := h
    obtain ⟨hlisted, hnumeral⟩ := mem_publishedVersions.mp hv
    exact ⟨v, hlisted, hnumeral, heq⟩
  · intro h
    obtain ⟨v, hlisted, hnumeral, heq⟩ := h
    exact ⟨v, mem_publishedVersions.mpr ⟨hlisted, hnumeral⟩, heq⟩

/-- An explicit target is picked if it is found and is not the current text. -/
theorem pickTarget_explicit {target : String} (hne : target ≠ "") (current : String)
    (listed : List String) :
    (Found listed target ∧ target ≠ current →
        pickTarget target current (publishedVersions listed) = .ok target) ∧
      (¬ (Found listed target ∧ target ≠ current) →
        pickTarget target current (publishedVersions listed) = .error 2) := by
  have hexists : versionExists (publishedVersions listed) target = true ↔ Found listed target :=
    versionExists_iff
  unfold pickTarget
  rw [if_neg hne]
  constructor
  · intro h
    rw [hexists.mpr h.1, if_neg (by decide), if_neg h.2]
  · intro h
    split_ifs with hfound hsame
    · rfl
    · rfl
    · exact absurd ⟨hexists.mp (by simpa using hfound), hsame⟩ h

/-- The script with a numeral as its explicit target. -/
theorem rollback_explicit {options : RollbackOptions} (htarget : isNumeral options.target = true)
    (listed : List String) (current : String) (updated : Bool) (after : Option String) :
    (Found listed options.target ∧ options.target ≠ current →
        rollback options ⟨some current, some listed, updated, after⟩ =
          applyTarget options ⟨some current, some listed, updated, after⟩ options.target) ∧
      (¬ (Found listed options.target ∧ options.target ≠ current) →
        rollback options ⟨some current, some listed, updated, after⟩ = ⟨2, []⟩) := by
  have hne : options.target ≠ "" := by
    intro h
    rw [h] at htarget
    exact absurd htarget (by decide)
  obtain ⟨hpicked, hrefused⟩ := pickTarget_explicit hne current listed
  simp only [rollback, htarget, Bool.not_true, Bool.false_eq_true, and_false, if_false]
  constructor
  · intro h
    obtain ⟨field, hlisted, hnumeral, -⟩ := h.1
    rw [if_neg (List.ne_nil_of_mem (mem_publishedVersions.mpr ⟨hlisted, hnumeral⟩)), hpicked h]
  · intro h
    rw [hrefused h]
    split_ifs <;> rfl

/-- A target that was picked is applied, declined or printed, never refused with code 2. -/
theorem applyTarget_exitCode (options : RollbackOptions) (aws : AwsCli) (target : String) :
    (applyTarget options aws target).exitCode ≠ 2 := by
  unfold applyTarget
  split_ifs
  · simp
  · simp
  · simp
  · cases aws.after with
    | none => simp
    | some after => dsimp only; split_ifs <;> simp

end ProjectsApi
