import ProjectsApi.Foundation.Transition
import ProjectsApi.Rollback.Contract

/-!
# Rolling back again and again

A Lambda function is its published versions and the version that `live` points at.  Each run of
the script without `--version` that is agreed to takes the alias one published version further
down, until none is left; then it exits with code 2 and leaves the alias where it is.
-/

namespace ProjectsApi

open Foundation

/-! ## The function -/

structure LambdaFunction where
  rows : List VersionRow
  /-- what the alias points at -/
  live : String

/-- The published versions below a version. -/
def versionsBelow (rows : List VersionRow) (current : String) : Finset String :=
  (versionsOf rows).toFinset.filter fun v => versionNumber v < versionNumber current

theorem mem_versionsBelow {rows : List VersionRow} {current v : String} :
    v ∈ versionsBelow rows current ↔
      v ∈ versionsOf rows ∧ versionNumber v < versionNumber current := by
  rw [versionsBelow, Finset.mem_filter, List.mem_toFinset]

/-- A run of the script for the previous version, agreed to, in which no call of the CLI fails:
the update moves the alias, and the re-read finds it there. -/
def RollsBack (f : LambdaFunction) (r : RollbackResult) (f' : LambdaFunction) : Prop :=
  f'.rows = f.rows ∧ f'.live = r.updates.getLast?.getD f.live ∧
    ∃ options : RollbackOptions, options.target = "" ∧ Agreed options ∧
      r = rollback options ⟨some f.live, some (firstColumn f.rows), true, some f'.live⟩

/-- The rows are read as the versions they are, wherever the alias may come to point. -/
structure Readable (f : LambdaFunction) : Prop where
  published : f.rows ≠ []
  canonical : ∀ v ∈ versionsOf f.rows, IsCanonical v.toList
  live : isNumeral f.live = true
  reads : ∀ v, v = f.live ∨ v ∈ versionsOf f.rows → ReadsVersions f.rows v

/-! ## One run -/

section Step

variable {f f' : LambdaFunction} {r : RollbackResult}

/-- Below the previous version are the same versions, but for itself. -/
theorem versionsBelow_previous {rows : List VersionRow}
    (hrows : ∀ v ∈ versionsOf rows, IsCanonical v.toList) {target current : String}
    (h : IsPrevious target current (versionsOf rows)) :
    versionsBelow rows target = (versionsBelow rows current).erase target := by
  obtain ⟨hmem, hbelow, hgreatest⟩ := h
  ext v
  rw [Finset.mem_erase, mem_versionsBelow, mem_versionsBelow]
  constructor
  · rintro ⟨hv, hlt⟩
    refine ⟨?_, hv, hlt.trans hbelow⟩
    rintro rfl
    exact absurd hlt (lt_irrefl _)
  · rintro ⟨hne, hv, hlt⟩
    refine ⟨hv, lt_of_le_of_ne (hgreatest v hv hlt) fun heq => hne ?_⟩
    -- two numerals of one number are one text
    exact String.toList_inj.mp ((hrows v hv).eq_of_decimalValue (hrows target hmem) heq)

/-- An agreed target is applied, and the exit code tells whether it was read back. -/
theorem Applied.of_agreed {options : RollbackOptions} {aws : AwsCli} {target : String}
    (h : Applied options aws target r) (hagreed : Agreed options) (hupdated : aws.updated = true) :
    r.updates = [target] ∧ (aws.after = some target → r.exitCode = 0) := by
  cases h with
  | dryRun hdry =>
      rw [hagreed.1] at hdry
      cases hdry
  | aborted _ hnot => exact absurd hagreed hnot
  | failed _ hnot =>
      refine ⟨rfl, fun hafter => ?_⟩
      rcases hnot with hnot | hnot
      · rw [hupdated] at hnot
        cases hnot
      · exact absurd hafter hnot
  | done => exact ⟨rfl, fun _ => rfl⟩

/-- A run goes one version down, or there is none and the alias stays. -/
theorem RollsBack.step (h : RollsBack f r f') (hf : Readable f) :
    (IsPrevious f'.live f.live (versionsOf f.rows) ∧ r.exitCode = 0) ∨
      (versionsBelow f.rows f.live = ∅ ∧ f'.live = f.live ∧ r.exitCode = 2) := by
  obtain ⟨-, hlive, options, htarget, hagreed, hr⟩ := h
  have hrolls := rollsBackToPrevious_of_reads hf.published hf.canonical hf.live
    (hf.reads _ (Or.inl rfl))
  obtain ⟨hsome, hnone⟩ := hrolls options true (some f'.live) htarget
  by_cases hbelow : ∃ v ∈ versionsOf f.rows, versionNumber v < versionNumber f.live
  · obtain ⟨target, hprevious⟩ := exists_isPrevious hbelow
    rw [hsome target hprevious] at hr
    obtain ⟨hupdates, hcode⟩ := (hr ▸ applied_applyTarget _ _ _ : Applied _ _ target r).of_agreed
      hagreed rfl
    obtain rfl : f'.live = target := by rw [hlive, hupdates]; rfl
    exact Or.inl ⟨hprevious, hcode rfl⟩
  · have hno : ∀ target, ¬ IsPrevious target f.live (versionsOf f.rows) :=
      fun target hprevious => hbelow ⟨target, hprevious.1, hprevious.2.1⟩
    rw [hnone hno] at hr
    refine Or.inr ⟨?_, by rw [hlive, hr]; rfl, by rw [hr]⟩
    ext v
    rw [mem_versionsBelow]
    exact ⟨fun hv => absurd ⟨v, hv⟩ hbelow, fun hv => absurd hv (Finset.notMem_empty v)⟩

/-- After a run the rows can be read as before. -/
theorem RollsBack.readable (h : RollsBack f r f') (hf : Readable f) : Readable f' where
  published := h.1 ▸ hf.published
  canonical := h.1 ▸ hf.canonical
  live := by
    obtain ⟨hprevious, -⟩ | ⟨-, hsame, -⟩ := h.step hf
    · exact isNumeral_versionsOf hf.canonical _ hprevious.1
    · exact hsame ▸ hf.live
  reads v hv := by
    rw [h.1] at hv ⊢
    refine hf.reads v (hv.elim (fun hlive => ?_) Or.inr)
    obtain ⟨hprevious, -⟩ | ⟨-, hsame, -⟩ := h.step hf
    · exact Or.inr (hlive ▸ hprevious.1)
    · exact Or.inl (hlive.trans hsame)

/-- The versions that are left below, counted. -/
theorem RollsBack.card (h : RollsBack f r f') (hf : Readable f) :
    (versionsBelow f'.rows f'.live).card = (versionsBelow f.rows f.live).card - 1 ∧
      r.exitCode = if 0 < (versionsBelow f.rows f.live).card then 0 else 2 := by
  rw [h.1]
  obtain ⟨hprevious, hcode⟩ | ⟨hnone, hsame, hcode⟩ := h.step hf
  · have hmem : f'.live ∈ versionsBelow f.rows f.live :=
      mem_versionsBelow.mpr ⟨hprevious.1, hprevious.2.1⟩
    rw [versionsBelow_previous hf.canonical hprevious, Finset.card_erase_of_mem hmem, hcode,
      if_pos (Finset.card_pos.mpr ⟨_, hmem⟩)]
    exact ⟨rfl, rfl⟩
  · rw [hsame, hnone, hcode]
    exact ⟨rfl, rfl⟩

end Step

/-! ## Many runs -/

theorem RollsBack.run_readable {f f' : LambdaFunction} {results : List RollbackResult}
    (hrun : Run RollsBack f results f') (hf : Readable f) :
    Readable f' ∧ f'.rows = f.rows := by
  induction hrun with
  | nil => exact ⟨hf, rfl⟩
  | snoc hrun hstep ih => exact ⟨hstep.readable ih.1, hstep.1.trans ih.2⟩

/-- Run after run the alias goes down one published version at a time, with exit code 0, and once
nothing is left below it every further run exits with code 2. -/
theorem rollbacks_descend {f f' : LambdaFunction} {results : List RollbackResult}
    (hf : Readable f) (hrun : Run RollsBack f results f') :
    (f'.live = f.live ∨ f'.live ∈ versionsBelow f.rows f.live) ∧
      (versionsBelow f.rows f'.live).card =
        (versionsBelow f.rows f.live).card - results.length ∧
      ∀ front r back, results = front ++ r :: back →
        r.exitCode = if front.length < (versionsBelow f.rows f.live).card then 0 else 2 := by
  induction hrun with
  | nil => exact ⟨Or.inl rfl, rfl, fun front r back h => absurd h (by simp)⟩
  | @snoc results mid f' r hrun hstep ih =>
      obtain ⟨hmid, hrows⟩ := RollsBack.run_readable hrun hf
      obtain ⟨hlive, hcount, hcodes⟩ := ih
      obtain ⟨hcard, hcode⟩ := hstep.card hmid
      have hrows' := hstep.1.trans hrows
      rw [hrows', hrows, hcount] at hcard
      rw [hrows, hcount] at hcode
      refine ⟨?_, ?_, fun front last back h => ?_⟩
      · obtain ⟨hprevious, -⟩ | ⟨-, hsame, -⟩ := hstep.step hmid
        · rw [hrows] at hprevious
          refine Or.inr (mem_versionsBelow.mpr ⟨hprevious.1, ?_⟩)
          rcases hlive with hlive | hlive
          · exact hlive ▸ hprevious.2.1
          · exact hprevious.2.1.trans (mem_versionsBelow.mp hlive).2
        · rwa [hsame]
      · rw [hcard, List.length_append, List.length_singleton]
        omega
      · -- the last run, or one before it
        rcases List.eq_nil_or_concat back with rfl | ⟨init, last', rfl⟩
        · obtain ⟨rfl, heq⟩ := List.append_inj' h rfl
          obtain rfl := (List.singleton_inj.mp heq)
          rw [hcode]
          simp only [Nat.sub_pos_iff_lt]
        · refine hcodes front last init (List.append_inj_left' (?_ : results ++ [r] =
            (front ++ last :: init) ++ [last']) rfl)
          simpa using h

/-! ## Down to the lowest version -/

/-- Below `2 ^ 53` and without line breaks the rows are read as they are. -/
theorem Readable.of_lt {f : LambdaFunction} (hpublished : f.rows ≠ [])
    (hcanonical : ∀ v ∈ versionsOf f.rows, IsCanonical v.toList) (hlive : isNumeral f.live = true)
    (hlt : ∀ v, v = f.live ∨ v ∈ versionsOf f.rows → versionNumber v < 2 ^ 53)
    (hbreaks : ∀ row ∈ f.rows, ∀ c ∈ row.columns, c ≠ '\n') : Readable f where
  published := hpublished
  canonical := hcanonical
  live := hlive
  reads v hv := readsVersions_of_lt hcanonical (hlt v hv) hbreaks

theorem sampleRows_readable : Readable ⟨sampleRows, "5"⟩ := by
  refine .of_lt (by decide) (by decide) (by decide) ?_ sampleRows_lines
  have hsmall : ∀ v ∈ versionsOf sampleRows, versionNumber v < 2 ^ 53 := by decide
  rintro v (rfl | hv)
  · decide
  · exact hsmall v hv

theorem RollsBack.of_previous {f : LambdaFunction} (hf : Readable f) {target : String}
    (h : IsPrevious target f.live (versionsOf f.rows)) :
    RollsBack f ⟨0, [target]⟩ ⟨f.rows, target⟩ := by
  have hrolls := rollsBackToPrevious_of_reads hf.published hf.canonical hf.live
    (hf.reads _ (Or.inl rfl))
  refine ⟨rfl, rfl, ⟨"", true, false, ""⟩, rfl, ⟨rfl, Or.inl rfl⟩, ?_⟩
  rw [(hrolls ⟨"", true, false, ""⟩ true (some target) rfl).1 target h]
  simp [applyTarget]

/-- Two runs take the sample from version 5 to the lowest one. -/
theorem rollbacks_descend_on_sample :
    ∃ f', Run RollsBack ⟨sampleRows, "5"⟩ [⟨0, ["4"]⟩, ⟨0, ["3"]⟩] f' ∧
      (versionsBelow sampleRows f'.live).card = 0 := by
  have hfirst : RollsBack ⟨sampleRows, "5"⟩ ⟨0, ["4"]⟩ ⟨sampleRows, "4"⟩ :=
    .of_previous sampleRows_readable (by decide)
  have hsecond : RollsBack ⟨sampleRows, "4"⟩ ⟨0, ["3"]⟩ ⟨sampleRows, "3"⟩ :=
    .of_previous (hfirst.readable sampleRows_readable) (by decide)
  have hrun := Run.cons hfirst (Run.single hsecond)
  refine ⟨_, hrun, ?_⟩
  rw [(rollbacks_descend sampleRows_readable hrun).2.1]
  decide

end ProjectsApi
