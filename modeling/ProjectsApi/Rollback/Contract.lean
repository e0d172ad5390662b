import ProjectsApi.Rollback.Arguments
import ProjectsApi.Rollback.Default
import ProjectsApi.Rollback.Explicit

/-!
# What a run of the rollback script may do

The whole script: its arguments, the checks, the pick of the target, the update and the re-read.
Whatever the arguments are and whatever the AWS CLI answers, the script exits with one of its four
codes, updates at most one alias, and only what was asked for and agreed to; an exit with 0 after
an update means that the alias was read back as the target, and the target is another published
version where the table is read as the versions that it lists.
-/

namespace ProjectsApi

open Foundation

/-! ## The script -/

/-- `${FUNCTION:-projects-api-${ENV_NAME}}` -/
def ScriptArguments.functionName (vars : ScriptArguments) : String :=
  if vars.function = "" then "projects-api-" ++ vars.envName else vars.function

/-- The options that `rollback` depends on. -/
def ScriptArguments.options (vars : ScriptArguments) (answer : String) : RollbackOptions where
  target := vars.target
  assumeYes := vars.assumeYes
  dryRun := vars.dryRun
  answer := answer

/-- How a run of the whole script ends. -/
structure ScriptResult where
  exitCode : Nat
  /-- the function and the version of the `update-alias` calls, in order -/
  updates : List (String × String)
  deriving DecidableEq

/-- The script from its arguments on; `aws` is what the AWS CLI answers for a function. -/
def rollbackScript (env : Option String) (args : List String) (answer : String)
    (aws : String → AwsCli) : ScriptResult :=
  match parseArguments (.initial env) args with
  | .help => ⟨0, []⟩
  | .usageError _ => ⟨1, []⟩
  | .go vars =>
      if vars.envName ∉ ["dev", "prod"] then ⟨1, []⟩
      else
        let result := rollback (vars.options answer) (aws vars.functionName)
        ⟨result.exitCode, result.updates.map fun version => (vars.functionName, version)⟩

/-! ## What the settings amount to -/

/-- The value that a setting gives an option. -/
def ValueOption.givenBy (o : ValueOption) : Setting → Option String
  | .value o' text => if o' = o then some text else none
  | _ => none

/-- The last value of an option counts. -/
def lastValue (o : ValueOption) (settings : List Setting) : Option String :=
  (settings.filterMap o.givenBy).getLast?

/-- The variable of an option. -/
def ValueOption.variable (vars : ScriptArguments) : ValueOption → String
  | env => vars.envName
  | function => vars.function
  | version => vars.target

section Settle

variable {vars : ScriptArguments}

theorem settle_snoc (settings : List Setting) (setting : Setting) :
    settle vars (settings ++ [setting]) = setting.apply (settle vars settings) := by
  simp [settle]

theorem variable_apply (o : ValueOption) (setting : Setting) :
    o.variable (setting.apply vars) = (o.givenBy setting).getD (o.variable vars) := by
  cases setting with
  | value o' text => cases o <;> cases o' <;> rfl
  | yes | dryRun => cases o <;> rfl

theorem lastValue_snoc (o : ValueOption) (settings : List Setting) (setting : Setting) :
    lastValue o (settings ++ [setting]) = (o.givenBy setting).or (lastValue o settings) := by
  rw [lastValue, List.filterMap_append]
  cases h : o.givenBy setting <;> simp [lastValue, h]

/-- A variable holds the last value of its option. -/
theorem variable_settle (o : ValueOption) (settings : List Setting) :
    o.variable (settle vars settings) = (lastValue o settings).getD (o.variable vars) := by
  induction settings using List.reverseRecOn with
  | nil => rfl
  | append_singleton settings setting ih =>
      rw [settle_snoc, variable_apply, ih, lastValue_snoc]
      cases o.givenBy setting <;> rfl

theorem assumeYes_settle (settings : List Setting) :
    (settle vars settings).assumeYes = true ↔ vars.assumeYes = true ∨ .yes ∈ settings := by
  induction settings using List.reverseRecOn with
  | nil => simp [settle]
  | append_singleton settings setting ih =>
      rw [settle_snoc]
      cases setting with
      | value o text => cases o <;> simpa [Setting.apply, ValueOption.set] using ih
      | yes => simp [Setting.apply]
      | dryRun => simpa [Setting.apply] using ih

theorem dryRun_settle (settings : List Setting) :
    (settle vars settings).dryRun = true ↔ vars.dryRun = true ∨ .dryRun ∈ settings := by
  induction settings using List.reverseRecOn with
  | nil => simp [settle]
  | append_singleton settings setting ih =>
      rw [settle_snoc]
      cases setting with
      | value o text => cases o <;> simpa [Setting.apply, ValueOption.set] using ih
      | yes => simpa [Setting.apply] using ih
      | dryRun => simp [Setting.apply]

end Settle

/-! ## From the target on -/

/-- What was agreed to: no dry run, and `--yes` or an answer that says so. -/
def Agreed (options : RollbackOptions) : Prop :=
  options.dryRun = false ∧
    (options.assumeYes = true ∨ options.answer ∈ ["y", "Y", "yes", "YES"])

/-- What may come of a target. -/
inductive Applied (options : RollbackOptions) (aws : AwsCli) (target : String) :
    RollbackResult → Prop where
  | dryRun (hdry : options.dryRun = true) : Applied options aws target ⟨0, []⟩
  | aborted (hdry : options.dryRun = false) (hnot : ¬ Agreed options) :
      Applied options aws target ⟨1, []⟩
  | failed (hagreed : Agreed options) (hnot : aws.updated = false ∨ aws.after ≠ some target) :
      Applied options aws target ⟨3, [target]⟩
  | done (hagreed : Agreed options) (hupdated : aws.updated = true)
      (hafter : aws.after = some target) : Applied options aws target ⟨0, [target]⟩

theorem applied_applyTarget (options : RollbackOptions) (aws : AwsCli) (target : String) :
    Applied options aws target (applyTarget options aws target) := by
  unfold applyTarget
  split_ifs with hdry hnot hupdated
  · exact .dryRun hdry
  · refine .aborted (Bool.eq_false_iff.mpr hdry) fun hagreed => ?_
    rcases hagreed.2 with hyes | hanswer
    · rw [hnot.1] at hyes
      cases hyes
    · exact hnot.2 hanswer
  all_goals
    have hagreed : Agreed options := by
      refine ⟨Bool.eq_false_iff.mpr hdry, ?_⟩
      by_contra hneither
      rw [not_or] at hneither
      exact hnot ⟨Bool.eq_false_iff.mpr hneither.1, hneither.2⟩
  · exact .failed hagreed (Or.inl (by simpa using hupdated))
  · cases hafter : aws.after with
    | none => exact .failed hagreed (Or.inr (by simp [hafter]))
    | some after =>
        dsimp only
        split_ifs with hother
        · exact .failed hagreed (Or.inr (by simpa [hafter] using hother))
        · exact .done hagreed (by simpa using hupdated) (by simpa [hafter] using hother)

/-- What may come of the whole script from its options on. -/
inductive RolledBack (options : RollbackOptions) (aws : AwsCli) : RollbackResult → Prop where
  | badTarget (hne : options.target ≠ "") (hbad : isNumeral options.target = false) :
      RolledBack options aws ⟨1, []⟩
  | unread (hunread : aws.current = none ∨ aws.versions = none) : RolledBack options aws ⟨3, []⟩
  | nothing : RolledBack options aws ⟨2, []⟩
  | picked {current target : String} {listed : List String} {result : RollbackResult}
      (hnumeral : options.target ≠ "" → isNumeral options.target = true)
      (hcurrent : aws.current = some current) (hversions : aws.versions = some listed)
      (hpicked : pickTarget options.target current (publishedVersions listed) = .ok target)
      (happlied : Applied options aws target result) : RolledBack options aws result

theorem pickTarget_error {target current : String} {versions : List String} {code : Nat}
    (h : pickTarget target current versions = .error code) : code = 2 := by
  unfold pickTarget at h
  split_ifs at h
  · exact (Except.error.inj h).symm
  · split at h
    · exact (Except.error.inj h).symm
    · cases h
  · exact (Except.error.inj h).symm
  · exact (Except.error.inj h).symm

theorem rolledBack_rollback (options : RollbackOptions) (aws : AwsCli) :
    RolledBack options aws (rollback options aws) := by
  unfold rollback
  split_ifs with hbad
  · exact .badTarget hbad.1 (by simpa using hbad.2)
  · cases hcurrent : aws.current with
    | none => exact .unread (Or.inl hcurrent)
    | some current =>
        cases hversions : aws.versions with
        | none => exact .unread (Or.inr hversions)
        | some listed =>
            dsimp only
            split_ifs with hempty
            · exact .nothing
            · cases hpicked : pickTarget options.target current (publishedVersions listed) with
              | error code =>
                  rw [pickTarget_error hpicked]
                  exact .nothing
              | ok target =>
                  refine .picked ?_ hcurrent hversions hpicked (applied_applyTarget _ _ _)
                  intro hne
                  by_contra hnot
                  exact hbad ⟨hne, by simpa using hnot⟩

/-! ## What is picked -/

/-- The table is read as the versions that it lists: for an explicit target, or without one. -/
def ReadsTable (rows : List VersionRow) (target current : String) : Prop :=
  if target = "" then ReadsVersions rows current else ¬ Confused rows target current

theorem pickTarget_ok {target current picked : String} {listed : List String}
    (h : pickTarget target current (publishedVersions listed) = .ok picked) :
    (target = "" ∧ previousVersion (publishedVersions listed) current = some picked) ∨
      (target ≠ "" ∧ picked = target ∧ Found listed target ∧ target ≠ current) := by
  by_cases hempty : target = ""
  · refine Or.inl ⟨hempty, ?_⟩
    unfold pickTarget at h
    rw [if_pos hempty] at h
    split_ifs at h
    cases hprevious : previousVersion (publishedVersions listed) current with
    | none =>
        rw [hprevious] at h
        cases h
    | some previous =>
        rw [hprevious] at h
        exact congrArg some (Except.ok.inj h)
  · refine Or.inr ⟨hempty, ?_⟩
    obtain ⟨hpicked, hrefused⟩ := pickTarget_explicit hempty current listed
    by_cases hfound : Found listed target ∧ target ≠ current
    · rw [hpicked hfound] at h
      exact ⟨(Except.ok.inj h).symm, hfound⟩
    · rw [hrefused hfound] at h
      cases h

/-- A previous version is another one. -/
theorem IsPrevious.isOtherVersion {rows : List VersionRow}
    (hrows : ∀ v ∈ versionsOf rows, IsCanonical v.toList) {target current : String}
    (h : IsPrevious target current (versionsOf rows)) :
    IsOtherVersion target current (versionsOf rows) := by
  obtain ⟨hmem, hlt, -⟩ := h
  refine ⟨hmem, fun hsame => ?_⟩
  unfold numeral? at hsame
  rw [if_pos (isNumeral_versionsOf hrows target hmem)] at hsame
  split_ifs at hsame
  exact absurd (Option.some.inj hsame) hlt.ne

/-- What is picked from a table that is read well is another published version. -/
theorem isOtherVersion_of_pickTarget {rows : List VersionRow}
    (hrows : ∀ v ∈ versionsOf rows, IsCanonical v.toList) {target current picked : String}
    (hnumeral : target ≠ "" → isNumeral target = true) (hreads : ReadsTable rows target current)
    (h : pickTarget target current (publishedVersions (firstColumn rows)) = .ok picked) :
    IsOtherVersion picked current (versionsOf rows) := by
  unfold ReadsTable at hreads
  rcases pickTarget_ok h with ⟨hempty, hprevious⟩ | ⟨hne, rfl, hfound, hother⟩
  · rw [if_pos hempty] at hreads
    exact (isPrevious_of_previousVersion hrows hreads hprevious).isOtherVersion hrows
  · rw [if_neg hne] at hreads
    exact isOtherVersion_of_not_confused hrows (hnumeral hne) hfound hother hreads

/-! ## The contract -/

/-- The environment that the settings ask for. -/
def askedEnv (env : Option String) (settings : List Setting) : String :=
  (lastValue .env settings).getD ((env.filter (· ≠ "")).getD "dev")

/-- The function that the settings ask for. -/
def askedFunction (env : Option String) (settings : List Setting) : String :=
  ((lastValue .function settings).filter (· ≠ "")).getD ("projects-api-" ++ askedEnv env settings)

/-- The update of an alias was asked for and agreed to. -/
structure Asked (env : Option String) (settings : List Setting) (answer f v : String) :
    Prop where
  environment : askedEnv env settings ∈ ["dev", "prod"]
  function : f = askedFunction env settings
  version : ∀ target, lastValue .version settings = some target → target ≠ "" → v = target
  noDryRun : .dryRun ∉ settings
  agreed : .yes ∈ settings ∨ answer ∈ ["y", "Y", "yes", "YES"]

/-- Production was asked for by name. -/
def AskedForProduction (env : Option String) (settings : List Setting) : Prop :=
  env = some "prod" ∨ lastValue .env settings = some "prod" ∨
    lastValue .function settings = some "projects-api-prod"

/-- The version is a published one and not the current one, where the table is read well. -/
def TakesPublished (settings : List Setting) (aws : AwsCli) (v : String) : Prop :=
  ∀ rows current, aws.versions = some (firstColumn rows) → aws.current = some current →
    (∀ v ∈ versionsOf rows, IsCanonical v.toList) →
      ReadsTable rows ((lastValue .version settings).getD "") current →
        IsOtherVersion v current (versionsOf rows)

/-- What the script promises of a run. -/
structure KeepsContract (env : Option String) (args : List String) (answer : String)
    (aws : String → AwsCli) (r : ScriptResult) : Prop where
  code : r.exitCode ≤ 3
  once : r.updates.length ≤ 1
  /-- A usage error, an abort or nothing to roll back to: no alias was updated. -/
  harmless : r.exitCode = 1 ∨ r.exitCode = 2 → r.updates = []
  /-- Success after an update: the alias was read back as the target. -/
  confirmed : r.exitCode = 0 → ∀ f v, (f, v) ∈ r.updates →
    (aws f).updated = true ∧ (aws f).after = some v
  /-- Success without an update: help or a dry run. -/
  idle : r.exitCode = 0 → r.updates = [] →
    "-h" ∈ args ∨ "--help" ∈ args ∨ ∃ settings, Line settings args ∧ .dryRun ∈ settings
  asked : ∀ f v, (f, v) ∈ r.updates → ∃ settings, Line settings args ∧
    Asked env settings answer f v
  production : ∀ v, ("projects-api-prod", v) ∈ r.updates → ∃ settings, Line settings args ∧
    AskedForProduction env settings
  published : ∀ f v, (f, v) ∈ r.updates → ∃ settings, Line settings args ∧
    TakesPublished settings (aws f) v

variable {env : Option String} {settings : List Setting}

theorem envName_settle :
    (settle (.initial env) settings).envName = askedEnv env settings :=
  variable_settle .env settings

theorem functionName_settle :
    (settle (.initial env) settings).functionName = askedFunction env settings := by
  have hfunction : (settle (.initial env) settings).function =
      (lastValue .function settings).getD "" := variable_settle .function settings
  rw [ScriptArguments.functionName, hfunction, envName_settle, askedFunction]
  cases lastValue .function settings with
  | none => rfl
  | some function => by_cases hempty : function = "" <;> simp [hempty, Option.filter]

theorem target_settle :
    (settle (.initial env) settings).target = (lastValue .version settings).getD "" :=
  variable_settle .version settings

theorem agreed_settle {answer : String}
    (h : Agreed ((settle (.initial env) settings).options answer)) :
    .dryRun ∉ settings ∧ (.yes ∈ settings ∨ answer ∈ ["y", "Y", "yes", "YES"]) := by
  obtain ⟨hdry, hyes⟩ := h
  constructor
  · intro hmem
    have hset : (settle (.initial env) settings).dryRun = true :=
      (dryRun_settle settings).mpr (Or.inr hmem)
    rw [show (settle (.initial env) settings).dryRun = false from hdry] at hset
    cases hset
  · refine hyes.imp_left fun h => ?_
    exact ((assumeYes_settle settings).mp h).resolve_left (by simp [ScriptArguments.initial])

/-- The alias of production is updated only if production was asked for. -/
theorem Asked.production {answer v : String}
    (h : Asked env settings answer "projects-api-prod" v) : AskedForProduction env settings := by
  have hfunction := h.function
  have henv := h.environment
  unfold askedFunction at hfunction
  cases hlast : (lastValue .function settings).filter (· ≠ "") with
  | some function =>
      rw [hlast] at hfunction
      obtain rfl : "projects-api-prod" = function := hfunction
      exact Or.inr (Or.inr (Option.filter_eq_some_iff.mp hlast).1)
  | none =>
      rw [hlast] at hfunction
      rcases List.mem_pair.mp henv with hdev | hprod
      · rw [hdev] at hfunction
        exact absurd hfunction (by decide)
      · unfold askedEnv at hprod
        cases hgiven : lastValue .env settings with
        | some given =>
            rw [hgiven] at hprod
            exact Or.inr (Or.inl (hgiven.trans (congrArg some hprod)))
        | none =>
            rw [hgiven] at hprod
            cases hset : env.filter (· ≠ "") with
            | some set =>
                rw [hset] at hprod
                have hname : set = "prod" := hprod
                exact Or.inl ((Option.filter_eq_some_iff.mp hset).1.trans (congrArg some hname))
            | none =>
                rw [hset] at hprod
                exact absurd hprod (by decide)

/-- A run that updates nothing keeps the contract, if it does not claim success. -/
theorem KeepsContract.of_no_updates {args : List String} {answer : String}
    {aws : String → AwsCli} {code : Nat} (hcode : code ≤ 3)
    (hidle : code = 0 → "-h" ∈ args ∨ "--help" ∈ args ∨
      ∃ settings, Line settings args ∧ .dryRun ∈ settings) :
    KeepsContract env args answer aws ⟨code, []⟩ where
  code := hcode
  once := Nat.zero_le _
  harmless _ := rfl
  confirmed _ _ _ hmem := absurd hmem List.not_mem_nil
  idle hzero _ := hidle hzero
  asked _ _ hmem := absurd hmem List.not_mem_nil
  production _ hmem := absurd hmem List.not_mem_nil
  published _ _ hmem := absurd hmem List.not_mem_nil

/-- A run that updates one alias keeps the contract, if the update was asked for. -/
theorem KeepsContract.of_update {answer : String} {args : List String} {aws : String → AwsCli}
    {f v : String} {code : Nat} (hline : Line settings args)
    (hasked : Asked env settings answer f v)
    (hpublished : TakesPublished settings (aws f) v)
    (hcode : code = 3 ∨ code = 0 ∧ (aws f).updated = true ∧ (aws f).after = some v) :
    KeepsContract env args answer aws ⟨code, [(f, v)]⟩ where
  code := by rcases hcode with rfl | ⟨rfl, -⟩ <;> simp
  once := le_rfl
  harmless h := by
    rcases hcode with rfl | ⟨rfl, -⟩
    · rcases h with h | h <;> cases h
    · rcases h with h | h <;> cases h
  confirmed hzero _ _ hmem := by
    obtain ⟨rfl, rfl⟩ := Prod.mk.inj (List.mem_singleton.mp hmem)
    rcases hcode with rfl | ⟨-, hdone⟩
    · cases hzero
    · exact hdone
  idle _ hnone := by cases hnone
  asked _ _ hmem := by
    obtain ⟨rfl, rfl⟩ := Prod.mk.inj (List.mem_singleton.mp hmem)
    exact ⟨settings, hline, hasked⟩
  production _ hmem := by
    obtain ⟨rfl, -⟩ := Prod.mk.inj (List.mem_singleton.mp hmem)
    exact ⟨settings, hline, hasked.production⟩
  published _ _ hmem := by
    obtain ⟨rfl, rfl⟩ := Prod.mk.inj (List.mem_singleton.mp hmem)
    exact ⟨settings, hline, hpublished⟩

/-- From accepted arguments on. -/
theorem keepsContract_of_line {args : List String} (hline : Line settings args) (answer : String)
    (aws : String → AwsCli) (henv : askedEnv env settings ∈ ["dev", "prod"])
    {result : RollbackResult}
    (hrolled : RolledBack ((settle (.initial env) settings).options answer)
      (aws (askedFunction env settings)) result) :
    KeepsContract env args answer aws
      ⟨result.exitCode, result.updates.map fun v => (askedFunction env settings, v)⟩ := by
  cases hrolled with
  | badTarget | unread | nothing => exact .of_no_updates (by simp) (by simp)
  | @picked current target listed _ hnumeral hcurrent hversions hpicked happlied =>
      have htarget : ((settle (.initial env) settings).options answer).target =
          (lastValue .version settings).getD "" := target_settle
      rw [htarget] at hnumeral hpicked
      have hpublished : TakesPublished settings (aws (askedFunction env settings)) target := by
        intro rows now hrows hnow hcanonical hreads
        obtain rfl : listed = firstColumn rows := Option.some.inj (hversions.symm.trans hrows)
        obtain rfl : current = now := Option.some.inj (hcurrent.symm.trans hnow)
        exact isOtherVersion_of_pickTarget hcanonical hnumeral hreads hpicked
      have hasked : Agreed ((settle (.initial env) settings).options answer) →
          Asked env settings answer (askedFunction env settings) target := by
        intro hagreed
        obtain ⟨hdry, hyes⟩ := agreed_settle hagreed
        refine ⟨henv, rfl, fun asked hlast hne => ?_, hdry, hyes⟩
        rw [hlast, Option.getD_some] at hpicked
        rcases pickTarget_ok hpicked with ⟨hempty, -⟩ | ⟨-, hsame, -⟩
        · exact absurd hempty hne
        · exact hsame
      cases happlied with
      | dryRun hdry =>
          refine .of_no_updates (by simp) fun _ => Or.inr (Or.inr ⟨settings, hline, ?_⟩)
          exact ((dryRun_settle settings).mp hdry).resolve_left (by simp [ScriptArguments.initial])
      | aborted => exact .of_no_updates (by simp) (by simp)
      | failed hagreed =>
          exact .of_update hline (hasked hagreed) hpublished (Or.inl rfl)
      | done hagreed hupdated hafter =>
          exact .of_update hline (hasked hagreed) hpublished (Or.inr ⟨rfl, hupdated, hafter⟩)

/-- Whatever the arguments are, the prompt is answered and the AWS CLI does, the script keeps its
contract. -/
theorem rollbackScript_contract (env : Option String) (args : List String) (answer : String)
    (aws : String → AwsCli) :
    KeepsContract env args answer aws (rollbackScript env args answer aws) := by
  obtain ⟨settings, words, rest, result, hline, hargs, hstops⟩ := exists_line args
  have hparse : parseArguments (.initial env) args = result (settle (.initial env) settings) := by
    rw [hargs, hline.parse, hstops.parse]
  rw [rollbackScript, hparse]
  cases hstops with
  | @help word hword rest =>
      refine .of_no_updates (by decide) fun _ => ?_
      rw [hargs]
      rcases List.mem_pair.mp hword with rfl | rfl <;> simp
  | dangling | unknown => exact .of_no_updates (by decide) (by simp)
  | done =>
      rw [List.append_nil] at hargs
      subst hargs
      dsimp only
      rw [envName_settle, functionName_settle]
      by_cases henv : askedEnv env settings ∈ ["dev", "prod"]
      · rw [if_neg (not_not.mpr henv)]
        exact keepsContract_of_line hline answer aws henv (rolledBack_rollback _ _)
      · rw [if_pos henv]
        exact .of_no_updates (by decide) (by simp)

end ProjectsApi
