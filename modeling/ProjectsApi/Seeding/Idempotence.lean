import Mathlib.Logic.Relation
import ProjectsApi.Seeding.Runs

/-!
# Seeding again

The commands of the script may fail, and it may be stopped anywhere; it is run again until it
succeeds.  Nothing is created twice, and nothing that is there is changed
(`seeding_idempotent`).
-/

namespace ProjectsApi.Seeding

open Foundation

/-! ## A run without failures -/

section Succeeds

variable {s s' : Tracker} {args : SeedArguments} {t : Ticket}

theorem listing_self {α : Type} (limit : Nat) (entries : List α) : Listing limit entries entries :=
  ⟨fun _ hx => hx, fun _ _ hx => hx⟩

theorem eval_of_effect {dryRun : Bool} (hdry : dryRun = false) {op : GhOp} {result : op.Result}
    (skipped : op.Result) (h : GhEffect s op result s') :
    Program.Eval GhExec s (run dryRun op skipped) (some result) s' := by
  rw [hdry]
  exact .call (.answered h) (.done _ _)

/-- The loop goes through if each item that is missing can be created. -/
theorem exists_eval_ensureEach {α : Type} (name : α → String) (create : α → Gh (Option Unit))
    (existing : List String) (items : List α) (entries : Tracker → List String)
    (hcreate : ∀ item ∈ items, ∀ s, name item ∉ entries s →
      ∃ s', Program.Eval GhExec s (create item) (some ()) s' ∧
        entries s' = entries s ++ [name item])
    (hnodup : (items.map name).Nodup)
    (hknown : ∀ item ∈ items, name item ∈ entries s → name item ∈ existing) :
    ∃ s', Program.Eval GhExec s (ensureEach name create existing items) (.ok ()) s' := by
  induction items generalizing s with
  | nil => exact ⟨s, .done _ _⟩
  | cons item items ih =>
      obtain ⟨hitem, hcreate⟩ := List.forall_mem_cons.mp hcreate
      obtain ⟨hhead, hknown⟩ := List.forall_mem_cons.mp hknown
      rw [List.map_cons, List.nodup_cons] at hnodup
      rw [ensureEach]
      split_ifs with hexists
      · exact ih hcreate hnodup.2 hknown
      · obtain ⟨s₁, hcreated, hentries⟩ := hitem s fun hthere => hexists (hhead hthere)
        obtain ⟨s₂, hrest⟩ := ih (s := s₁) hcreate hnodup.2 (by
          intro item' hitem' hthere
          rw [hentries, List.mem_append, List.mem_singleton] at hthere
          rcases hthere with hthere | hsame
          · exact hknown item' hitem' hthere
          · exact absurd (hsame ▸ List.mem_map_of_mem hitem') hnodup.1)
        exact ⟨s₂, Program.eval_bind_iff.mpr ⟨some (), s₁, hcreated, hrest⟩⟩

theorem exists_eval_ensureLabels (s : Tracker) :
    ∃ s', Program.Eval GhExec s (ensureLabels false) (.ok ()) s' := by
  obtain ⟨s', hrest⟩ := exists_eval_ensureEach Prod.fst (createLabel false) s.labels labels
    Tracker.labels (fun _ _ s hnew => ⟨_, eval_of_effect rfl () (.labelCreate _ _ hnew), rfl⟩)
    (by decide) (fun _ _ hthere => hthere)
  exact ⟨s', .call (.answered (.labelList (listing_self 200 s.labels))) hrest⟩

theorem exists_eval_ensureMilestones (s : Tracker) :
    ∃ s', Program.Eval GhExec s (ensureMilestones false) (.ok ()) s' := by
  obtain ⟨s', hrest⟩ := exists_eval_ensureEach Prod.fst (createMilestone false) s.milestones
    milestones Tracker.milestones
    (fun _ _ s hnew => ⟨_, eval_of_effect rfl () (.milestoneCreate _ hnew), rfl⟩) (by decide)
    (fun _ _ hthere => hthere)
  exact ⟨s', .call (.answered (.milestoneList (listing_self 100 s.milestones))) hrest⟩

/-- There is a number that no issue has. -/
theorem exists_fresh_number (issues : List Issue) :
    ∃ number : Int, 0 < number ∧ ∀ issue ∈ issues, issue.number < number := by
  induction issues with
  | nil => exact ⟨1, by decide, fun _ h => absurd h List.not_mem_nil⟩
  | cons issue issues ih =>
      obtain ⟨number, hpositive, hless⟩ := ih
      refine ⟨max number (issue.number + 1), by omega, ?_⟩
      rw [List.forall_mem_cons]
      refine ⟨by omega, fun issue' hissue => ?_⟩
      have := hless issue' hissue
      omega

theorem exists_eval_closeDone (hdry : args.dryRun = false) (number : Int) (s : Tracker) :
    ∃ s', Program.Eval GhExec s (closeDone args t number) (some ()) s' := by
  unfold closeDone
  split_ifs with hdone
  · exact ⟨_, eval_of_effect hdry () (.issueClose s number (doneNote args))⟩
  · exact ⟨s, .done _ _⟩

theorem exists_eval_seedTicket (hdry : args.dryRun = false)
    (hmilestone : t.milestone ∈ s.milestones) (hlabels : ∀ label ∈ t.labels, label ∈ s.labels) :
    ∃ s', Program.Eval GhExec s (seedTicket args t) (some ()) s' := by
  obtain ⟨number, hpositive, hless⟩ := exists_fresh_number s.issues
  have hfresh : ∀ issue ∈ s.issues, issue.number ≠ number :=
    fun issue hissue => (hless issue hissue).ne
  have hcreated := eval_of_effect hdry (-1 : Int)
    (.issueCreate hpositive hfresh hmilestone hlabels :
      GhEffect s (.issueCreate t.title (issueBody t) t.milestone t.labels) number _)
  obtain ⟨s₂, hclosed⟩ := exists_eval_closeDone hdry number _
  exact ⟨s₂, Program.eval_bind_iff.mpr ⟨some number, _, hcreated, hclosed⟩⟩

/-- The loop over the tickets goes through if each can be read and has its labels and its
milestone. -/
theorem exists_eval_seedTickets {known : List (String × Int)} {files : List TicketFile}
    (hdry : args.dryRun = false)
    (hfiles : ∀ file ∈ files, ∃ t, parse file = .ok t ∧ t.milestone ∈ s.milestones ∧
      ∀ label ∈ t.labels, label ∈ s.labels) :
    ∃ s', Program.Eval GhExec s (seedTickets args known files) (.ok ()) s' := by
  induction files generalizing s with
  | nil => exact ⟨s, .done _ _⟩
  | cons file files ih =>
      obtain ⟨⟨t, hparse, hmilestone, hlabels⟩, hfiles⟩ := List.forall_mem_cons.mp hfiles
      rw [seedTickets, hparse]
      dsimp only
      split_ifs with hmem
      · exact ih hfiles
      · obtain ⟨s₁, hseeded⟩ := exists_eval_seedTicket hdry hmilestone hlabels
        obtain ⟨issue, -, rfl⟩ := eval_seedTicket hdry hseeded
        obtain ⟨s₂, hrest⟩ := ih (s := { s with issues := s.issues ++ [issue] }) hfiles
        exact ⟨s₂, Program.eval_bind_iff.mpr ⟨some (), _, hseeded, hrest⟩⟩

/-- A run in which no command fails succeeds, if every ticket can be read and its labels and its
milestone are there or are created before it. -/
theorem exists_eval_main (files : List TicketFile) (hdry : args.dryRun = false)
    (hfiles : ∀ file ∈ files, ∃ t, parse file = .ok t ∧
      (t.milestone ∈ milestoneTitles ∨ t.milestone ∈ s.milestones) ∧
        ∀ label ∈ t.labels, label ∈ labelNames ∨ label ∈ s.labels) :
    ∃ s', Program.Eval GhExec s (main files args) (.ok ()) s' := by
  obtain ⟨s₁, hlabels⟩ := exists_eval_ensureLabels s
  obtain ⟨s₂, hmilestones⟩ := exists_eval_ensureMilestones s₁
  have hfirst : Prepares files s s₁ := prepares_ensureLabels hlabels.reaches
  have hsecond : Prepares files s₁ s₂ := prepares_ensureMilestones hmilestones.reaches
  have hready : ∀ file ∈ files, ∃ t, parse file = .ok t ∧ t.milestone ∈ s₂.milestones ∧
      ∀ label ∈ t.labels, label ∈ s₂.labels := by
    intro file hfile
    obtain ⟨t, hparse, hmilestone, hall⟩ := hfiles file hfile
    refine ⟨t, hparse, ?_, fun label hlabel => hsecond.1.labels.subset ?_⟩
    · rcases hmilestone with hlisted | hthere
      · exact eval_ensureMilestones hmilestones _ hlisted
      · exact hsecond.1.milestones.subset (hfirst.1.milestones.subset hthere)
    · rcases hall label hlabel with hlisted | hthere
      · exact eval_ensureLabels hlabels _ hlisted
      · exact hfirst.1.labels.subset hthere
  obtain ⟨s₃, hissues⟩ := exists_eval_seedTickets hdry hready
  have hseed : Program.Eval GhExec s₂ (seedIssues files args) (.ok ()) s₃ :=
    .call (.answered (.issueList (listing_self 500 _))) hissues
  rw [← hdry] at hlabels hmilestones
  refine ⟨s₃, Program.eval_bind_iff.mpr ⟨.ok (), s₁, hlabels, ?_⟩⟩
  exact Program.eval_bind_iff.mpr ⟨.ok (), s₂, hmilestones, hseed⟩

end Succeeds

/-! ## Main result -/

section Main

variable {files : List TicketFile} {s s' : Tracker}

/-- A run of the script, cut off anywhere. -/
def SeedRun (files : List TicketFile) (s s' : Tracker) : Prop :=
  ∃ args, Program.Reaches GhExec s (main files args) s'

/-- However often the script is run, and wherever a run fails or is stopped: nothing that is
there is changed, and no label, milestone or issue is created twice.  A run that succeeds leaves
nothing missing, and adds the issues of just those tickets that had none; after it, as in a dry
run, nothing happens any more.  What a run was stopped from closing therefore stays open. -/
theorem seeding_idempotent (hlimits : WithinLimits files s) (hnodup : (titles files).Nodup)
    (hruns : Relation.ReflTransGen (SeedRun files) s s') :
    Grows files s s' ∧
      (∀ args s'', args.dryRun = false →
        Program.Eval GhExec s' (main files args) (.ok ()) s'' → Seeded files s'' ∧
          ∃ new, s''.issues = s'.issues ++ new ∧ List.Forall₂ Describes
            ((tickets files).filter fun t => t.title ∉ s'.titles) new) ∧
      ∀ args s'', args.dryRun = true ∨ Seeded files s' →
        Program.Reaches GhExec s' (main files args) s'' → s'' = s' := by
  have hgrows : Grows files s s' := by
    induction hruns with
    | refl => exact .refl _ _
    | tail _ hrun ih =>
        obtain ⟨args, hreaches⟩ := hrun
        exact ih.trans (grows_main hlimits ih hnodup hreaches)
  refine ⟨hgrows, ?_, ?_⟩
  · intro args s'' hdry heval
    exact eval_main hlimits hgrows hnodup hdry heval
  · intro args s'' hidle hreaches
    exact main_idle hlimits hgrows hidle hreaches

end Main

/-! ## A run that is stopped -/

/-- A run on an empty tracker, stopped after it has created the first label. -/
theorem seedRun_first_label :
    SeedRun [sampleFile] ⟨[], [], []⟩ ⟨["type:feature"], [], []⟩ := by
  refine ⟨{ doneSha := none, dryRun := false }, ?_⟩
  have hlisting : Listing 200 [] ([] : List String) := listing_self 200 []
  have hcreated : GhEffect ⟨[], [], []⟩ (.labelCreate "type:feature" "1D76DB"
      "User-facing behaviour") () ⟨["type:feature"], [], []⟩ :=
    .labelCreate _ _ List.not_mem_nil
  refine Program.reaches_bind_iff.mpr (Or.inl ?_)
  refine Program.reaches_call_iff.mpr (Or.inr ⟨some [], _, .answered (.labelList hlisting), ?_⟩)
  show Program.Reaches GhExec _ (ensureEach Prod.fst (createLabel false) [] labels) _
  rw [labels, ensureEach, if_neg List.not_mem_nil]
  refine Program.reaches_bind_iff.mpr (Or.inl ?_)
  exact Program.reaches_call_iff.mpr (Or.inr ⟨none, _, .lost hcreated, .stop _ _⟩)

theorem tickets_sampleFile : ∃ t, parse sampleFile = .ok t ∧
    t.title = "S0-001 Repo scaffold: uv" ∧ t.milestone ∈ milestoneTitles ∧
      ∀ label ∈ t.labels, label ∈ labelNames := by
  refine ⟨{ name := "S0-001-repo-scaffold.md", title := "S0-001 Repo scaffold: uv"
            labels := ["type:chore", "pillar:operations", "slice:S0"]
            milestone := "S0 Foundation", status := "done"
            body := "## Description\nCreate the project." }, ?_⟩
  decide +kernel

/-- The next run succeeds.  What the first one has created is not created again, the ticket has
its issue, and nothing is left to do. -/
theorem seeding_idempotent_of_stopped_run :
    ∃ s : Tracker, Program.Eval GhExec ⟨["type:feature"], [], []⟩
        (main [sampleFile] { doneSha := none, dryRun := false }) (.ok ()) s ∧
      Grows [sampleFile] ⟨[], [], []⟩ s ∧ Seeded [sampleFile] s ∧
        s.titles = ["S0-001 Repo scaffold: uv"] ∧
          ∀ args s', Program.Reaches GhExec s (main [sampleFile] args) s' → s' = s := by
  obtain ⟨t, hparse, htitle, hmilestone, hlabels⟩ := tickets_sampleFile
  have htickets : tickets [sampleFile] = [t] := tickets_cons hparse []
  have htitles : titles [sampleFile] = [t.title] := titles_cons hparse []
  have hlimits : WithinLimits [sampleFile] ⟨[], [], []⟩ :=
    ⟨by decide, by decide, by rw [htitles, htitle]; decide⟩
  have hnodup : (titles [sampleFile]).Nodup := by
    rw [htitles]
    exact List.nodup_singleton _
  let args : SeedArguments := { doneSha := none, dryRun := false }
  have hdry : args.dryRun = false := rfl
  obtain ⟨s, hsucceeds⟩ := exists_eval_main (s := ⟨["type:feature"], [], []⟩) [sampleFile] hdry (by
    intro file hfile
    obtain rfl := List.mem_singleton.mp hfile
    exact ⟨t, hparse, Or.inl hmilestone, fun label hlabel => Or.inl (hlabels label hlabel)⟩)
  have hstopped := Relation.ReflTransGen.single seedRun_first_label
  obtain ⟨hseeded, new, hnew, hdescribes⟩ :=
    (seeding_idempotent hlimits hnodup hstopped).2.1 _ s hdry hsucceeds
  obtain ⟨hgrows, -, hidle⟩ :=
    seeding_idempotent hlimits hnodup (hstopped.tail ⟨_, hsucceeds.reaches⟩)
  refine ⟨s, hsucceeds, hgrows, hseeded, ?_, fun args s' => hidle args s' (Or.inr hseeded)⟩
  -- the one ticket had no issue
  have hmissing : ((tickets [sampleFile]).filter fun t =>
      t.title ∉ Tracker.titles ⟨["type:feature"], [], []⟩) = [t] := by
    rw [htickets]
    rfl
  rw [hmissing] at hdescribes
  cases hdescribes with
  | cons hissue hnone =>
      cases hnone
      rw [Tracker.titles, hnew, List.nil_append, List.map_singleton, hissue.title, htitle]

end ProjectsApi.Seeding
