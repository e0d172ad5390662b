import Mathlib.Data.List.Infix
import Mathlib.Data.List.Nodup
import ProjectsApi.Foundation.PartialRun
import ProjectsApi.Seeding.Script

/-!
# Runs of the seeding script

What a run does to the tracker, step by step: where it may be when it is cut off, and what it has
done when it succeeds.
-/

namespace ProjectsApi.Seeding

open Foundation

/-! ## Growth -/

/-- A list with new entries at its end, each one allowed and there once. -/
def Extends (allowed entries entries' : List String) : Prop :=
  ∃ new, entries' = entries ++ new ∧ new.Nodup ∧ ∀ x ∈ new, x ∈ allowed ∧ x ∉ entries

section Extends

variable {allowed entries entries' entries'' : List String}

theorem Extends.refl (allowed entries : List String) : Extends allowed entries entries :=
  ⟨[], (List.append_nil entries).symm, List.nodup_nil, fun _ hx => absurd hx List.not_mem_nil⟩

theorem Extends.trans (h : Extends allowed entries entries')
    (h' : Extends allowed entries' entries'') : Extends allowed entries entries'' := by
  obtain ⟨new, rfl, hnodup, hnew⟩ := h
  obtain ⟨new', rfl, hnodup', hnew'⟩ := h'
  refine ⟨new ++ new', List.append_assoc _ _ _, ?_, ?_⟩
  · refine hnodup.append hnodup' (fun _ hx hx' => ?_)
    exact (hnew' _ hx').2 (List.mem_append_right _ hx)
  · intro x hx
    rcases List.mem_append.mp hx with hx | hx
    · exact hnew x hx
    · exact ⟨(hnew' x hx).1, fun hmem => (hnew' x hx).2 (List.mem_append_left _ hmem)⟩

theorem Extends.snoc {x : String} (hallowed : x ∈ allowed) (hnew : x ∉ entries) :
    Extends allowed entries (entries ++ [x]) := by
  refine ⟨[x], rfl, List.nodup_singleton x, fun y hy => ?_⟩
  obtain rfl := List.mem_singleton.mp hy
  exact ⟨hallowed, hnew⟩

theorem Extends.subset (h : Extends allowed entries entries') : entries ⊆ entries' := by
  obtain ⟨new, rfl, -, -⟩ := h
  exact List.subset_append_left _ _

/-- A list cannot outgrow what is allowed. -/
theorem Extends.length_le (h : Extends allowed entries entries') :
    entries'.length ≤ entries.length + allowed.length := by
  obtain ⟨new, rfl, hnodup, hnew⟩ := h
  have hlength : new.length ≤ allowed.length :=
    (hnodup.subperm fun x hx => (hnew x hx).1).length_le
  rw [List.length_append]
  omega

end Extends

/-- The tickets of the files that can be read. -/
def tickets (files : List TicketFile) : List Ticket :=
  files.filterMap fun file => (parse file).toOption

/-- The titles of the tickets. -/
def titles (files : List TicketFile) : List String := (tickets files).map Ticket.title

/-- The names of the labels that the script creates. -/
def labelNames : List String := labels.map Prod.fst

def milestoneTitles : List String := milestones.map Prod.fst

/-- Nothing is lost or changed; what is added is what the script is for, and is added once. -/
structure Grows (files : List TicketFile) (s s' : Tracker) : Prop where
  labels : Extends labelNames s.labels s'.labels
  milestones : Extends milestoneTitles s.milestones s'.milestones
  titles : Extends (titles files) s.titles s'.titles
  issues : s.issues <+: s'.issues

/-- Everything that the script is for is there. -/
structure Seeded (files : List TicketFile) (s : Tracker) : Prop where
  labels : ∀ name ∈ labelNames, name ∈ s.labels
  milestones : ∀ title ∈ milestoneTitles, title ∈ s.milestones
  titles : ∀ title ∈ titles files, title ∈ s.titles

/-- The lists are read whole, however much of it the script adds. -/
structure WithinLimits (files : List TicketFile) (s : Tracker) : Prop where
  labels : s.labels.length + labelNames.length ≤ 200
  milestones : s.milestones.length + milestoneTitles.length ≤ 100
  issues : s.issues.length + (Seeding.titles files).length ≤ 500

section Growth

variable {files : List TicketFile} {s s' s'' : Tracker}

theorem Grows.refl (files : List TicketFile) (s : Tracker) : Grows files s s :=
  ⟨.refl _ _, .refl _ _, .refl _ _, List.prefix_rfl⟩

theorem Grows.trans (h : Grows files s s') (h' : Grows files s' s'') : Grows files s s'' :=
  ⟨h.labels.trans h'.labels, h.milestones.trans h'.milestones, h.titles.trans h'.titles,
    h.issues.trans h'.issues⟩

/-- What the lists show after some growth is still everything. -/
theorem WithinLimits.listed_issues (h : WithinLimits files s) (hgrows : Grows files s s')
    {known : List (String × Int)}
    (hlisting : Listing 500 (s'.issues.map fun issue => (issue.title, issue.number)) known)
    {title : String} : title ∈ known.map Prod.fst ↔ title ∈ s'.titles := by
  have hlength : s'.titles.length ≤ s.titles.length + (Seeding.titles files).length :=
    hgrows.titles.length_le
  simp only [Tracker.titles, List.length_map] at hlength
  have hissues := h.issues
  have hall := hlisting.2 (by rw [List.length_map]; omega)
  constructor
  · intro htitle
    obtain ⟨entry, hentry, rfl⟩ := List.mem_map.mp htitle
    obtain ⟨issue, hissue, rfl⟩ := List.mem_map.mp (hlisting.1 entry hentry)
    exact List.mem_map_of_mem hissue
  · intro htitle
    obtain ⟨issue, hissue, rfl⟩ := List.mem_map.mp htitle
    exact List.mem_map_of_mem (f := Prod.fst) (hall _ (List.mem_map_of_mem hissue))

theorem WithinLimits.listed_labels (h : WithinLimits files s) (hgrows : Grows files s s')
    {names : List String} (hlisting : Listing 200 s'.labels names) {name : String}
    (hname : name ∈ s'.labels) : name ∈ names := by
  have hlength := hgrows.labels.length_le
  have hlabels := h.labels
  exact hlisting.2 (by omega) name hname

theorem WithinLimits.listed_milestones (h : WithinLimits files s) (hgrows : Grows files s s')
    {titles : List String} (hlisting : Listing 100 s'.milestones titles) {title : String}
    (htitle : title ∈ s'.milestones) : title ∈ titles := by
  have hlength := hgrows.milestones.length_le
  have hmilestones := h.milestones
  exact hlisting.2 (by omega) title htitle

end Growth

/-! ## Commands and loops -/

section Run

variable {s s' : Tracker} {dryRun : Bool} {op : GhOp} {skipped : op.Result}

theorem exec_iff {answer : op.Ans} : GhExec s op answer s' ↔
    (answer = none ∧ s' = s) ∨ (answer = none ∧ ∃ result, GhEffect s op result s') ∨
      ∃ result, answer = some result ∧ GhEffect s op result s' := by
  constructor
  · intro h
    cases h with
    | failed => exact Or.inl ⟨rfl, rfl⟩
    | lost h => exact Or.inr (Or.inl ⟨rfl, _, h⟩)
    | answered h => exact Or.inr (Or.inr ⟨_, rfl, h⟩)
  · rintro (⟨rfl, rfl⟩ | ⟨rfl, result, h⟩ | ⟨result, rfl, h⟩)
    · exact .failed _ _
    · exact .lost h
    · exact .answered h

/-- A command that is cut off has had its effect or none; in a dry run it has none. -/
theorem reaches_run (h : Program.Reaches GhExec s (run dryRun op skipped) s') :
    s' = s ∨ dryRun = false ∧ ∃ result, GhEffect s op result s' := by
  cases dryRun with
  | true => exact Or.inl (Program.reaches_done_iff.mp h)
  | false =>
      obtain rfl | ⟨answer, s₁, hexec, hrest⟩ := Program.reaches_call_iff.mp h
      · exact Or.inl rfl
      · obtain rfl := Program.reaches_done_iff.mp hrest
        rcases exec_iff.mp hexec with ⟨-, rfl⟩ | ⟨-, heffect⟩ | ⟨result, -, heffect⟩
        · exact Or.inl rfl
        · exact Or.inr ⟨rfl, heffect⟩
        · exact Or.inr ⟨rfl, result, heffect⟩

theorem eval_run {result : op.Result}
    (h : Program.Eval GhExec s (run false op skipped) (some result) s') :
    GhEffect s op result s' := by
  obtain ⟨answer, s₁, hexec, hrest⟩ := Program.eval_call_iff.mp h
  obtain ⟨rfl, rfl⟩ := Program.eval_done_iff.mp hrest
  rcases exec_iff.mp hexec with ⟨hnone, -⟩ | ⟨hnone, -⟩ | ⟨result', heq, heffect⟩
  · cases hnone
  · cases hnone
  · obtain rfl := Option.some.inj heq
    exact heffect

end Run

section Each

variable {α : Type} {name : α → String} {create : α → Gh (Option Unit)} {existing : List String}
  {items : List α} {s s' : Tracker}

/-- What every creation preserves, the loop preserves. -/
theorem reaches_ensureEach {R : Tracker → Tracker → Prop} (hrefl : ∀ s, R s s)
    (htrans : ∀ s₁ s₂ s₃, R s₁ s₂ → R s₂ s₃ → R s₁ s₃)
    (hcreate : ∀ item ∈ items, ∀ s s', Program.Reaches GhExec s (create item) s' → R s s')
    (h : Program.Reaches GhExec s (ensureEach name create existing items) s') : R s s' := by
  induction items generalizing s with
  | nil =>
      obtain rfl := Program.reaches_done_iff.mp h
      exact hrefl _
  | cons item items ih =>
      have hrest := fun item' hitem => hcreate item' (List.mem_cons_of_mem _ hitem)
      rw [ensureEach] at h
      split_ifs at h
      · exact ih hrest h
      · rcases Program.reaches_bind_iff.mp h with hcut | ⟨created, s₁, hcreated, hnext⟩
        · exact hcreate item List.mem_cons_self _ _ hcut
        · have hstep := hcreate item List.mem_cons_self _ _ hcreated.reaches
          cases created with
          | none =>
              obtain rfl := Program.reaches_done_iff.mp hnext
              exact hstep
          | some _ => exact htrans _ _ _ hstep (ih hrest hnext)

/-- After a loop that succeeds, every item is there. -/
theorem eval_ensureEach (field : Tracker → List String)
    (hkeep : ∀ item ∈ items, ∀ s s', Program.Reaches GhExec s (create item) s' →
      field s ⊆ field s')
    (hcreate : ∀ item ∈ items, ∀ s s', Program.Eval GhExec s (create item) (some ()) s' →
      name item ∈ field s')
    (h : Program.Eval GhExec s (ensureEach name create existing items) (.ok ()) s') :
    ∀ item ∈ items, name item ∈ existing ∨ name item ∈ field s' := by
  induction items generalizing s with
  | nil => exact fun item hitem => absurd hitem List.not_mem_nil
  | cons item items ih =>
      have hkeep' := fun item' hitem => hkeep item' (List.mem_cons_of_mem _ hitem)
      have hcreate' := fun item' hitem => hcreate item' (List.mem_cons_of_mem _ hitem)
      rw [List.forall_mem_cons]
      rw [ensureEach] at h
      split_ifs at h with hexists
      · exact ⟨Or.inl hexists, ih hkeep' hcreate' h⟩
      · obtain ⟨created, s₁, hcreated, hnext⟩ := Program.eval_bind_iff.mp h
        cases created with
        | none => cases Program.eval_done_iff.mp hnext with | intro h' _ => cases h'
        | some _ =>
            refine ⟨Or.inr ?_, ih hkeep' hcreate' hnext⟩
            have hgrown : field s₁ ⊆ field s' :=
              reaches_ensureEach (R := fun s s' => field s ⊆ field s') (fun _ => List.Subset.refl _)
                (fun _ _ _ => List.Subset.trans) hkeep' hnext.reaches
            exact hgrown (hcreate item List.mem_cons_self _ _ hcreated)

/-- With every item there, and in a dry run, the loop does nothing. -/
theorem ensureEach_idle
    (h : ∀ item ∈ items, name item ∈ existing ∨ create item = .done (some ())) :
    ensureEach name create existing items = .done (.ok ()) := by
  induction items with
  | nil => rfl
  | cons item items ih =>
      obtain ⟨hitem, hitems⟩ := List.forall_mem_cons.mp h
      rw [ensureEach]
      split_ifs with hexists
      · exact ih hitems
      · rw [hitem.resolve_left hexists, Program.done_bind]
        exact ih hitems

end Each

section Read

variable {s s' : Tracker} {op : GhOp} {P : op.Result → Prop}
  {next : op.Ans → Gh (Except SeedError Unit)}

/-- A command that only reads leaves the tracker as it is. -/
theorem exec_read {answer : op.Ans}
    (hread : ∀ result s', GhEffect s op result s' → s' = s ∧ P result)
    (h : GhExec s op answer s') : s' = s ∧ ∀ result, answer = some result → P result := by
  rcases exec_iff.mp h with ⟨rfl, rfl⟩ | ⟨rfl, result, heffect⟩ | ⟨result, rfl, heffect⟩
  · exact ⟨rfl, fun result heq => by cases heq⟩
  · exact ⟨(hread result s' heffect).1, fun result heq => by cases heq⟩
  · obtain ⟨hsame, hresult⟩ := hread result s' heffect
    refine ⟨hsame, fun result' heq => ?_⟩
    obtain rfl := Option.some.inj heq
    exact hresult

/-- A step that starts with such a command has changed something only if it went on. -/
theorem reaches_read (hread : ∀ result s', GhEffect s op result s' → s' = s ∧ P result)
    (hnone : next none = .done (.error .calledProcess))
    (h : Program.Reaches GhExec s (.call op next) s') :
    s' = s ∨ ∃ result, P result ∧ Program.Reaches GhExec s (next (some result)) s' := by
  obtain rfl | ⟨answer, s₁, hexec, hrest⟩ := Program.reaches_call_iff.mp h
  · exact Or.inl rfl
  · obtain ⟨rfl, hresult⟩ := exec_read hread hexec
    cases answer with
    | none =>
        rw [hnone] at hrest
        exact Or.inl (Program.reaches_done_iff.mp hrest)
    | some result => exact Or.inr ⟨result, hresult result rfl, hrest⟩

/-- If it succeeds, it has read what there is. -/
theorem eval_read (hread : ∀ result s', GhEffect s op result s' → s' = s ∧ P result)
    (hnone : next none = .done (.error .calledProcess))
    (h : Program.Eval GhExec s (.call op next) (.ok ()) s') :
    ∃ result, P result ∧ Program.Eval GhExec s (next (some result)) (.ok ()) s' := by
  obtain ⟨answer, s₁, hexec, hrest⟩ := Program.eval_call_iff.mp h
  obtain ⟨rfl, hresult⟩ := exec_read hread hexec
  cases answer with
  | none =>
      rw [hnone] at hrest
      cases (Program.eval_done_iff.mp hrest).1
  | some result => exact ⟨result, hresult result rfl, hrest⟩

end Read

/-! ## One ticket -/

/-- The issue of a ticket. -/
structure Describes (t : Ticket) (issue : Issue) : Prop where
  title : issue.title = t.title
  body : issue.body = issueBody t
  milestone : issue.milestone = t.milestone
  labels : issue.labels = t.labels
  closed : issue.closed = decide (t.status = "done")

section Ticket

variable {args : SeedArguments} {t : Ticket} {s s' : Tracker}

/-- Closing a new issue leaves the others open. -/
theorem map_closeAt_snoc {issues : List Issue} {issue : Issue}
    (hfresh : ∀ issue' ∈ issues, issue'.number ≠ issue.number) :
    (issues ++ [issue]).map (Issue.closeAt issue.number) =
      issues ++ [{ issue with closed := true }] := by
  have hothers : issues.map (Issue.closeAt issue.number) = issues := by
    refine (List.map_congr_left fun issue' hissue => ?_).trans (List.map_id issues)
    exact if_neg (hfresh issue' hissue)
  rw [List.map_append, hothers, List.map_singleton, Issue.closeAt, if_pos rfl]

theorem reaches_closeDone {number : Int}
    (h : Program.Reaches GhExec s (closeDone args t number) s') :
    s' = s ∨ args.dryRun = false ∧ s' = { s with issues := s.issues.map (.closeAt number) } := by
  by_cases hdone : t.status = "done" ∧ 0 < number
  · rw [closeDone, if_pos hdone] at h
    rcases reaches_run h with rfl | ⟨hdry, result, hclose⟩
    · exact Or.inl rfl
    · cases hclose
      exact Or.inr ⟨hdry, rfl⟩
  · rw [closeDone, if_neg hdone] at h
    exact Or.inl (Program.reaches_done_iff.mp h)

theorem eval_closeDone {number : Int} (hdry : args.dryRun = false) (hpositive : 0 < number)
    (h : Program.Eval GhExec s (closeDone args t number) (some ()) s') :
    (t.status = "done" ∧ s' = { s with issues := s.issues.map (.closeAt number) }) ∨
      (t.status ≠ "done" ∧ s' = s) := by
  by_cases hdone : t.status = "done" ∧ 0 < number
  · rw [closeDone, if_pos hdone, hdry] at h
    cases eval_run h
    exact Or.inl ⟨hdone.1, rfl⟩
  · rw [closeDone, if_neg hdone] at h
    exact Or.inr ⟨fun hstatus => hdone ⟨hstatus, hpositive⟩, (Program.eval_done_iff.mp h).2⟩

/-- A new issue, after its creation. -/
structure Created (t : Ticket) (s : Tracker) (issue : Issue) : Prop where
  describes : Describes { t with status := "open" } issue
  positive : 0 < issue.number
  fresh : ∀ issue' ∈ s.issues, issue'.number ≠ issue.number

theorem exists_created {number : Int} (h : GhEffect s (.issueCreate t.title (issueBody t)
    t.milestone t.labels) number s') :
    ∃ issue, Created t s issue ∧ issue.number = number ∧
      s' = { s with issues := s.issues ++ [issue] } := by
  cases h with
  | issueCreate hpositive hfresh hmilestone hlabels =>
      exact ⟨_, ⟨⟨rfl, rfl, rfl, rfl, rfl⟩, hpositive, hfresh⟩, rfl, rfl⟩

/-- A ticket, cut off anywhere, has at most one new issue. -/
theorem reaches_seedTicket (h : Program.Reaches GhExec s (seedTicket args t) s') :
    s' = s ∨ ∃ issue : Issue, issue.title = t.title ∧
      s' = { s with issues := s.issues ++ [issue] } := by
  have hcut : ∀ {s₁ : Tracker}, Program.Reaches GhExec s (run args.dryRun (.issueCreate t.title
      (issueBody t) t.milestone t.labels) (-1 : Int)) s₁ →
        s₁ = s ∨ ∃ issue : Issue, issue.title = t.title ∧
          s₁ = { s with issues := s.issues ++ [issue] } := by
    intro s₁ hreaches
    rcases reaches_run hreaches with rfl | ⟨-, number, heffect⟩
    · exact Or.inl rfl
    · obtain ⟨issue, hcreated, -, rfl⟩ := exists_created heffect
      exact Or.inr ⟨issue, hcreated.describes.title, rfl⟩
  rcases Program.reaches_bind_iff.mp h with hreaches | ⟨created, s₁, hcreated, hnext⟩
  · exact hcut hreaches
  · cases created with
    | none =>
        obtain rfl := Program.reaches_done_iff.mp hnext
        exact hcut hcreated.reaches
    | some number =>
        rcases reaches_closeDone hnext with rfl | ⟨hdry, rfl⟩
        · exact hcut hcreated.reaches
        · rw [hdry] at hcreated
          obtain ⟨issue, hissue, rfl, rfl⟩ := exists_created (eval_run hcreated)
          refine Or.inr ⟨{ issue with closed := true }, hissue.describes.title, ?_⟩
          exact congrArg (fun issues => { s with issues := issues })
            (map_closeAt_snoc hissue.fresh)

/-- A ticket that is not cut off has its issue. -/
theorem eval_seedTicket (hdry : args.dryRun = false)
    (h : Program.Eval GhExec s (seedTicket args t) (some ()) s') :
    ∃ issue, Describes t issue ∧ s' = { s with issues := s.issues ++ [issue] } := by
  obtain ⟨created, s₁, hcreated, hnext⟩ := Program.eval_bind_iff.mp h
  rw [hdry] at hcreated
  cases created with
  | none => cases (Program.eval_done_iff.mp hnext).1
  | some number =>
      obtain ⟨issue, ⟨⟨htitle, hbody, hmilestone, hlabels, hopen⟩, hpositive, hfresh⟩, rfl, rfl⟩ :=
        exists_created (eval_run hcreated)
      rcases eval_closeDone hdry hpositive hnext with ⟨hdone, rfl⟩ | ⟨hdone, rfl⟩
      · refine ⟨{ issue with closed := true }, ?_, congrArg (fun issues => { s with
          issues := issues }) (map_closeAt_snoc hfresh)⟩
        exact ⟨htitle, hbody, hmilestone, hlabels, (decide_eq_true hdone).symm⟩
      · refine ⟨issue, ⟨htitle, hbody, hmilestone, hlabels, ?_⟩, rfl⟩
        rw [decide_eq_false hdone]
        exact hopen

theorem seedTicket_of_dryRun (hdry : args.dryRun = true) :
    seedTicket args t = .done (some ()) := by
  unfold seedTicket run
  rw [hdry]
  show closeDone args t (-1) = _
  exact if_neg fun h => absurd h.2 (by decide)

end Ticket

/-! ## The loop over the tickets -/

theorem tickets_cons {file : TicketFile} {t : Ticket} (hparse : parse file = .ok t)
    (files : List TicketFile) : tickets (file :: files) = t :: tickets files := by
  rw [tickets, List.filterMap_cons, hparse]
  rfl

theorem titles_cons {file : TicketFile} {t : Ticket} (hparse : parse file = .ok t)
    (files : List TicketFile) : titles (file :: files) = t.title :: titles files := by
  rw [titles, tickets_cons hparse, List.map_cons]
  rfl

section Tickets

variable {args : SeedArguments} {known : List (String × Int)} {files rest : List TicketFile}
  {s s' : Tracker}

/-- The loop adds issues only, and one for a ticket at most: the titles that it has not come to
are those that were known, or are still free. -/
theorem grows_seedTickets (hsub : titles rest ⊆ titles files) (hnodup : (titles rest).Nodup)
    (hknown : ∀ title ∈ titles rest, title ∈ s.titles → title ∈ known.map Prod.fst)
    (h : Program.Reaches GhExec s (seedTickets args known rest) s') : Grows files s s' := by
  induction rest generalizing s with
  | nil =>
      obtain rfl := Program.reaches_done_iff.mp h
      exact .refl _ _
  | cons file rest ih =>
      rw [seedTickets] at h
      cases hparse : parse file with
      | error e =>
          rw [hparse] at h
          obtain rfl := Program.reaches_done_iff.mp h
          exact .refl _ _
      | ok t =>
          rw [hparse] at h
          dsimp only at h
          have htitles := titles_cons hparse rest
          rw [htitles] at hsub hnodup hknown
          obtain ⟨htitle, hrest⟩ := List.cons_subset.mp hsub
          obtain ⟨hfresh, hnodup⟩ := List.nodup_cons.mp hnodup
          obtain ⟨hhead, hknown⟩ := List.forall_mem_cons.mp hknown
          split_ifs at h with hmem
          · exact ih hrest hnodup hknown h
          · have hstep : ∀ {s₁ : Tracker}, Program.Reaches GhExec s (seedTicket args t) s₁ →
                Grows files s s₁ ∧ ∀ title ∈ titles rest, title ∈ s₁.titles →
                  title ∈ known.map Prod.fst := by
              intro s₁ hreaches
              rcases reaches_seedTicket hreaches with rfl | ⟨issue, hissue, rfl⟩
              · exact ⟨.refl _ _, hknown⟩
              · have hsnoc : Tracker.titles { s with issues := s.issues ++ [issue] } =
                    s.titles ++ [t.title] := by
                  rw [Tracker.titles, List.map_append, List.map_singleton, hissue]
                  rfl
                refine ⟨⟨.refl _ _, .refl _ _, ?_, List.prefix_append _ _⟩, ?_⟩
                · -- had the title been there, it would have been known
                  rw [hsnoc]
                  exact .snoc htitle fun hthere => hmem (hhead hthere)
                · intro title hin hthere
                  rw [hsnoc, List.mem_append, List.mem_singleton] at hthere
                  rcases hthere with hthere | rfl
                  · exact hknown title hin hthere
                  · exact absurd hin hfresh
            rcases Program.reaches_bind_iff.mp h with hcut | ⟨seeded, s₁, hseeded, hnext⟩
            · exact (hstep hcut).1
            · obtain ⟨hgrows, hknown'⟩ := hstep hseeded.reaches
              cases seeded with
              | none =>
                  obtain rfl := Program.reaches_done_iff.mp hnext
                  exact hgrows
              | some _ => exact hgrows.trans (ih hrest hnodup hknown' hnext)

/-- A loop that succeeds adds the issues of the tickets that were not known, in their order. -/
theorem eval_seedTickets (hdry : args.dryRun = false)
    (h : Program.Eval GhExec s (seedTickets args known rest) (.ok ()) s') :
    ∃ new, s'.issues = s.issues ++ new ∧ List.Forall₂ Describes
      ((tickets rest).filter fun t => t.title ∉ known.map Prod.fst) new := by
  induction rest generalizing s with
  | nil =>
      obtain ⟨-, rfl⟩ := Program.eval_done_iff.mp h
      exact ⟨[], (List.append_nil _).symm, .nil⟩
  | cons file rest ih =>
      rw [seedTickets] at h
      cases hparse : parse file with
      | error e =>
          rw [hparse] at h
          cases (Program.eval_done_iff.mp h).1
      | ok t =>
          rw [hparse] at h
          dsimp only at h
          rw [tickets_cons hparse]
          split_ifs at h with hmem
          · rw [List.filter_cons_of_neg (by simpa using hmem)]
            exact ih h
          · rw [List.filter_cons_of_pos (by simpa using hmem)]
            obtain ⟨seeded, s₁, hseeded, hnext⟩ := Program.eval_bind_iff.mp h
            cases seeded with
            | none => cases (Program.eval_done_iff.mp hnext).1
            | some _ =>
                obtain ⟨issue, hdescribes, rfl⟩ := eval_seedTicket hdry hseeded
                obtain ⟨new, hnew, hall⟩ := ih hnext
                refine ⟨issue :: new, ?_, .cons hdescribes hall⟩
                rw [hnew, List.append_assoc]
                rfl

/-- With every ticket known, and in a dry run, the loop does nothing. -/
theorem seedTickets_idle
    (h : ∀ title ∈ titles rest, title ∈ known.map Prod.fst ∨ args.dryRun = true) :
    ∃ result, seedTickets args known rest = .done result := by
  induction rest with
  | nil => exact ⟨_, rfl⟩
  | cons file rest ih =>
      rw [seedTickets]
      cases hparse : parse file with
      | error e => exact ⟨_, rfl⟩
      | ok t =>
          have htitles := titles_cons hparse rest
          rw [htitles] at h
          obtain ⟨hhead, hrest⟩ := List.forall_mem_cons.mp h
          dsimp only
          split_ifs with hmem
          · exact ih hrest
          · rw [seedTicket_of_dryRun (hhead.resolve_left hmem), Program.done_bind]
            exact ih hrest

end Tickets

/-! ## The steps of `main` -/

section Main

variable {args : SeedArguments} {files : List TicketFile} {s₀ s s' : Tracker} {dryRun : Bool}

theorem effect_labelList (names : List String) (s' : Tracker)
    (h : GhEffect s .labelList names s') : s' = s ∧ Listing 200 s.labels names := by
  cases h with
  | labelList hlisting => exact ⟨rfl, hlisting⟩

theorem effect_milestoneList (titles : List String) (s' : Tracker)
    (h : GhEffect s .milestoneList titles s') : s' = s ∧ Listing 100 s.milestones titles := by
  cases h with
  | milestoneList hlisting => exact ⟨rfl, hlisting⟩

theorem effect_issueList (known : List (String × Int)) (s' : Tracker)
    (h : GhEffect s .issueList known s') :
    s' = s ∧ Listing 500 (s.issues.map fun issue => (issue.title, issue.number)) known := by
  cases h with
  | issueList hlisting => exact ⟨rfl, hlisting⟩

/-- What comes before the issues leaves these alone. -/
def Prepares (files : List TicketFile) (s s' : Tracker) : Prop :=
  Grows files s s' ∧ s'.issues = s.issues

theorem Prepares.refl (files : List TicketFile) (s : Tracker) : Prepares files s s :=
  ⟨.refl _ _, rfl⟩

theorem Prepares.trans {s'' : Tracker} (h : Prepares files s s') (h' : Prepares files s' s'') :
    Prepares files s s'' :=
  ⟨h.1.trans h'.1, h'.2.trans h.2⟩

theorem prepares_createLabel {label : String × String × String} (hlabel : label ∈ labels)
    (h : Program.Reaches GhExec s (createLabel dryRun label) s') : Prepares files s s' := by
  rcases reaches_run h with rfl | ⟨-, result, heffect⟩
  · exact .refl _ _
  · cases heffect with
    | labelCreate color description hnew =>
        have hlabels := Extends.snoc (List.mem_map_of_mem (f := Prod.fst) hlabel) hnew
        exact ⟨⟨hlabels, .refl _ _, .refl _ _, List.prefix_rfl⟩, rfl⟩

theorem prepares_createMilestone {milestone : String × String}
    (hmilestone : milestone ∈ milestones)
    (h : Program.Reaches GhExec s (createMilestone dryRun milestone) s') :
    Prepares files s s' := by
  rcases reaches_run h with rfl | ⟨-, result, heffect⟩
  · exact .refl _ _
  · cases heffect with
    | milestoneCreate description hnew =>
        have htitles := Extends.snoc (List.mem_map_of_mem (f := Prod.fst) hmilestone) hnew
        exact ⟨⟨.refl _ _, htitles, .refl _ _, List.prefix_rfl⟩, rfl⟩

theorem prepares_ensureLabels (h : Program.Reaches GhExec s (ensureLabels dryRun) s') :
    Prepares files s s' := by
  rcases reaches_read effect_labelList rfl h with rfl | ⟨existing, -, hrest⟩
  · exact .refl _ _
  · exact reaches_ensureEach (Prepares.refl files) (fun _ _ _ => Prepares.trans)
      (fun _ hlabel _ _ => prepares_createLabel hlabel) hrest

theorem prepares_ensureMilestones
    (h : Program.Reaches GhExec s (ensureMilestones dryRun) s') : Prepares files s s' := by
  rcases reaches_read effect_milestoneList rfl h with rfl | ⟨existing, -, hrest⟩
  · exact .refl _ _
  · exact reaches_ensureEach (Prepares.refl files) (fun _ _ _ => Prepares.trans)
      (fun _ hmilestone _ _ => prepares_createMilestone hmilestone) hrest

/-- Afterwards every label is there. -/
theorem eval_ensureLabels (h : Program.Eval GhExec s (ensureLabels false) (.ok ()) s') :
    ∀ name ∈ labelNames, name ∈ s'.labels := by
  have hprepared : Prepares [] s s' := prepares_ensureLabels h.reaches
  obtain ⟨existing, hlisting, hrest⟩ := eval_read effect_labelList rfl h
  have hkeep : ∀ label ∈ labels, ∀ s s',
      Program.Reaches GhExec s (createLabel false label) s' → s.labels ⊆ s'.labels := by
    intro label hlabel s s' hreaches
    have hcreated : Prepares [] s s' := prepares_createLabel hlabel hreaches
    exact hcreated.1.labels.subset
  have hcreate : ∀ label ∈ labels, ∀ s s',
      Program.Eval GhExec s (createLabel false label) (some ()) s' → label.1 ∈ s'.labels := by
    intro label _ s s' hcreated
    cases eval_run hcreated with
    | labelCreate => exact List.mem_append_right _ List.mem_cons_self
  intro name hname
  obtain ⟨label, hlabel, rfl⟩ := List.mem_map.mp hname
  rcases eval_ensureEach Tracker.labels hkeep hcreate hrest label hlabel with hexisting | hcreated
  · exact hprepared.1.labels.subset (hlisting.1 _ hexisting)
  · exact hcreated

/-- Afterwards every milestone is there. -/
theorem eval_ensureMilestones
    (h : Program.Eval GhExec s (ensureMilestones false) (.ok ()) s') :
    ∀ title ∈ milestoneTitles, title ∈ s'.milestones := by
  have hprepared : Prepares [] s s' := prepares_ensureMilestones h.reaches
  obtain ⟨existing, hlisting, hrest⟩ := eval_read effect_milestoneList rfl h
  have hkeep : ∀ milestone ∈ milestones, ∀ s s',
      Program.Reaches GhExec s (createMilestone false milestone) s' →
        s.milestones ⊆ s'.milestones := by
    intro milestone hmilestone s s' hreaches
    have hcreated : Prepares [] s s' := prepares_createMilestone hmilestone hreaches
    exact hcreated.1.milestones.subset
  have hcreate : ∀ milestone ∈ milestones, ∀ s s',
      Program.Eval GhExec s (createMilestone false milestone) (some ()) s' →
        milestone.1 ∈ s'.milestones := by
    intro milestone _ s s' hcreated
    cases eval_run hcreated with
    | milestoneCreate => exact List.mem_append_right _ List.mem_cons_self
  intro title htitle
  obtain ⟨milestone, hmilestone, rfl⟩ := List.mem_map.mp htitle
  rcases eval_ensureEach Tracker.milestones hkeep hcreate hrest milestone hmilestone with
    hexisting | hcreated
  · exact hprepared.1.milestones.subset (hlisting.1 _ hexisting)
  · exact hcreated

theorem grows_seedIssues (hlimits : WithinLimits files s₀) (hgrows : Grows files s₀ s)
    (hnodup : (titles files).Nodup)
    (h : Program.Reaches GhExec s (seedIssues files args) s') : Grows files s s' := by
  rcases reaches_read effect_issueList rfl h with rfl | ⟨known, hlisting, hrest⟩
  · exact .refl _ _
  · refine grows_seedTickets (List.Subset.refl _) hnodup (fun title _ hthere => ?_) hrest
    exact (hlimits.listed_issues hgrows hlisting).mpr hthere

theorem reaches_andThen {first second : Gh (Except SeedError Unit)}
    (h : Program.Reaches GhExec s (andThen first second) s') :
    Program.Reaches GhExec s first s' ∨
      ∃ s₁, Program.Eval GhExec s first (.ok ()) s₁ ∧ Program.Reaches GhExec s₁ second s' := by
  rcases Program.reaches_bind_iff.mp h with hcut | ⟨result, s₁, hfirst, hnext⟩
  · exact Or.inl hcut
  · cases result with
    | error e =>
        obtain rfl := Program.reaches_done_iff.mp hnext
        exact Or.inl hfirst.reaches
    | ok _ => exact Or.inr ⟨s₁, hfirst, hnext⟩

theorem eval_andThen {first second : Gh (Except SeedError Unit)}
    (h : Program.Eval GhExec s (andThen first second) (.ok ()) s') :
    ∃ s₁, Program.Eval GhExec s first (.ok ()) s₁ ∧
      Program.Eval GhExec s₁ second (.ok ()) s' := by
  obtain ⟨result, s₁, hfirst, hnext⟩ := Program.eval_bind_iff.mp h
  cases result with
  | error e => cases (Program.eval_done_iff.mp hnext).1
  | ok _ => exact ⟨s₁, hfirst, hnext⟩

/-- The script, cut off anywhere. -/
theorem grows_main (hlimits : WithinLimits files s₀) (hgrows : Grows files s₀ s)
    (hnodup : (titles files).Nodup)
    (h : Program.Reaches GhExec s (main files args) s') : Grows files s s' := by
  rcases reaches_andThen h with hlabels | ⟨s₁, hlabels, hrest⟩
  · exact (prepares_ensureLabels hlabels).1
  · have hstep : Grows files s s₁ := (prepares_ensureLabels hlabels.reaches).1
    rcases reaches_andThen hrest with hmilestones | ⟨s₂, hmilestones, hissues⟩
    · exact hstep.trans (prepares_ensureMilestones hmilestones).1
    · have hsteps := hstep.trans (prepares_ensureMilestones hmilestones.reaches).1
      exact hsteps.trans (grows_seedIssues hlimits (hgrows.trans hsteps) hnodup hissues)

/-- A script that succeeds adds the issues that were missing, in the order of the tickets. -/
theorem eval_main (hlimits : WithinLimits files s₀) (hgrows : Grows files s₀ s)
    (hnodup : (titles files).Nodup) (hdry : args.dryRun = false)
    (h : Program.Eval GhExec s (main files args) (.ok ()) s') :
    Seeded files s' ∧ ∃ new, s'.issues = s.issues ++ new ∧
      List.Forall₂ Describes ((tickets files).filter fun t => t.title ∉ s.titles) new := by
  have hgrown := grows_main hlimits hgrows hnodup h.reaches
  obtain ⟨s₁, hlabels, hrest⟩ := eval_andThen h
  obtain ⟨s₂, hmilestones, hissues⟩ := eval_andThen hrest
  rw [hdry] at hlabels hmilestones
  have hfirst : Prepares files s s₁ := prepares_ensureLabels hlabels.reaches
  have hsecond : Prepares files s₁ s₂ := prepares_ensureMilestones hmilestones.reaches
  have hprepared := hfirst.trans hsecond
  have hgrows₂ := hgrows.trans hprepared.1
  have hthird := grows_seedIssues hlimits hgrows₂ hnodup hissues.reaches
  obtain ⟨known, hlisting, hloop⟩ := eval_read effect_issueList rfl hissues
  have hknown : ∀ {title : String}, title ∈ known.map Prod.fst ↔ title ∈ s.titles := by
    intro title
    rw [hlimits.listed_issues hgrows₂ hlisting, Tracker.titles, hprepared.2]
    rfl
  obtain ⟨new, hnew, hall⟩ := eval_seedTickets hdry hloop
  rw [hprepared.2] at hnew
  simp only [hknown] at hall
  refine ⟨⟨?_, ?_, ?_⟩, new, hnew, hall⟩
  · intro name hname
    exact hthird.labels.subset (hsecond.1.labels.subset (eval_ensureLabels hlabels name hname))
  · intro title htitle
    exact hthird.milestones.subset (eval_ensureMilestones hmilestones title htitle)
  · intro title htitle
    by_cases hthere : title ∈ s.titles
    · exact hgrown.titles.subset hthere
    · obtain ⟨t, ht, rfl⟩ := List.mem_map.mp htitle
      -- the ticket was missing, so that one of the new issues is its own
      have hmissing : t ∈ (tickets files).filter fun t => t.title ∉ s.titles :=
        List.mem_filter.mpr ⟨ht, decide_eq_true hthere⟩
      obtain ⟨i, hi, rfl⟩ := List.getElem_of_mem hmissing
      have hi' : i < new.length := hall.length_eq ▸ hi
      have hdescribes := hall.get hi hi'
      rw [Tracker.titles, hnew, List.map_append]
      refine List.mem_append_right _ (List.mem_map.mpr ⟨new[i], List.getElem_mem hi', ?_⟩)
      exact hdescribes.title

/-- With everything there, and in a dry run, nothing happens. -/
theorem main_idle (hlimits : WithinLimits files s₀) (hgrows : Grows files s₀ s)
    (hidle : args.dryRun = true ∨ Seeded files s)
    (h : Program.Reaches GhExec s (main files args) s') : s' = s := by
  have hlabels : ∀ {s' : Tracker},
      Program.Reaches GhExec s (ensureLabels args.dryRun) s' → s' = s := by
    intro s' hreaches
    rcases reaches_read effect_labelList rfl hreaches with rfl | ⟨existing, hlisting, hrest⟩
    · rfl
    · dsimp only at hrest
      rw [ensureEach_idle] at hrest
      · exact Program.reaches_done_iff.mp hrest
      · intro label hlabel
        rcases hidle with hdry | hseeded
        · refine Or.inr ?_
          rw [createLabel, run, hdry]
          rfl
        · have hname := hseeded.labels _ (List.mem_map_of_mem hlabel)
          exact Or.inl (hlimits.listed_labels hgrows hlisting hname)
  have hmilestones : ∀ {s' : Tracker},
      Program.Reaches GhExec s (ensureMilestones args.dryRun) s' → s' = s := by
    intro s' hreaches
    rcases reaches_read effect_milestoneList rfl hreaches with rfl | ⟨existing, hlisting, hrest⟩
    · rfl
    · dsimp only at hrest
      rw [ensureEach_idle] at hrest
      · exact Program.reaches_done_iff.mp hrest
      · intro milestone hmilestone
        rcases hidle with hdry | hseeded
        · refine Or.inr ?_
          rw [createMilestone, run, hdry]
          rfl
        · have htitle := hseeded.milestones _ (List.mem_map_of_mem hmilestone)
          exact Or.inl (hlimits.listed_milestones hgrows hlisting htitle)
  have hissues : Program.Reaches GhExec s (seedIssues files args) s' → s' = s := by
    intro hreaches
    rcases reaches_read effect_issueList rfl hreaches with rfl | ⟨known, hlisting, hrest⟩
    · rfl
    · obtain ⟨result, hdone⟩ : ∃ result, seedTickets args known files = .done result := by
        refine seedTickets_idle fun title htitle => ?_
        rcases hidle with hdry | hseeded
        · exact Or.inr hdry
        · have hthere := hseeded.titles title htitle
          exact Or.inl ((hlimits.listed_issues hgrows hlisting).mpr hthere)
      dsimp only at hrest
      rw [hdone] at hrest
      exact Program.reaches_done_iff.mp hrest
  rcases reaches_andThen h with hcut | ⟨s₁, hfirst, hrest⟩
  · exact hlabels hcut
  · obtain rfl := hlabels hfirst.reaches
    rcases reaches_andThen hrest with hcut | ⟨s₂, hsecond, hlast⟩
    · exact hmilestones hcut
    · obtain rfl := hmilestones hsecond.reaches
      exact hissues hlast

end Main

end ProjectsApi.Seeding
