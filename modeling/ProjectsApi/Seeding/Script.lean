import ProjectsApi.Foundation.Program
import ProjectsApi.Seeding.Tickets

/-!
# The seeding script

`seed_issues.py` creates what the tracker of the repository lacks: labels, milestones, and an
issue for every ticket file.
-/

namespace ProjectsApi.Seeding

open Foundation

/-! ## The tracker -/

structure Issue where
  number : Int
  title : String
  body : String
  milestone : String
  labels : List String
  closed : Bool
  deriving DecidableEq

/-- An issue after `gh issue close`. -/
def Issue.closeAt (number : Int) (issue : Issue) : Issue :=
  if issue.number = number then { issue with closed := true } else issue

/-- Labels, milestones and issues of the repository. -/
structure Tracker where
  labels : List String
  milestones : List String
  issues : List Issue
  deriving DecidableEq

/-- The titles of the issues. -/
def Tracker.titles (s : Tracker) : List String := s.issues.map Issue.title

/-- The commands of `gh` that the script runs. -/
inductive GhOp where
  | labelList
  | labelCreate (name color description : String)
  | milestoneList
  | milestoneCreate (title description : String)
  | issueList
  | issueCreate (title body milestone : String) (labels : List String)
  | issueClose (number : Int) (comment : String)

/-- What the script reads from the output of a command; of the URL of a new issue, its number. -/
abbrev GhOp.Result : GhOp → Type
  | .labelList => List String
  | .labelCreate _ _ _ => Unit
  | .milestoneList => List String
  | .milestoneCreate _ _ => Unit
  | .issueList => List (String × Int)
  | .issueCreate _ _ _ _ => Int
  | .issueClose _ _ => Unit

/-- A command fails or has a result. -/
abbrev GhOp.Ans (op : GhOp) : Type := Option op.Result

abbrev Gh : Type → Type := Program GhOp GhOp.Ans

/-- What `--limit` lets through: everything, unless there is more. -/
def Listing {α : Type} (limit : Nat) (entries listed : List α) : Prop :=
  (∀ x ∈ listed, x ∈ entries) ∧ (entries.length ≤ limit → ∀ x ∈ entries, x ∈ listed)

/-- The effect of a command that does what it is for. -/
inductive GhEffect : Tracker → (op : GhOp) → op.Result → Tracker → Prop where
  | labelList {s : Tracker} {names : List String} (h : Listing 200 s.labels names) :
      GhEffect s .labelList names s
  | labelCreate {s : Tracker} {name : String} (color description : String)
      (h : name ∉ s.labels) :
      GhEffect s (.labelCreate name color description) () { s with labels := s.labels ++ [name] }
  | milestoneList {s : Tracker} {titles : List String} (h : Listing 100 s.milestones titles) :
      GhEffect s .milestoneList titles s
  | milestoneCreate {s : Tracker} {title : String} (description : String)
      (h : title ∉ s.milestones) :
      GhEffect s (.milestoneCreate title description) ()
        { s with milestones := s.milestones ++ [title] }
  | issueList {s : Tracker} {entries : List (String × Int)}
      (h : Listing 500 (s.issues.map fun issue => (issue.title, issue.number)) entries) :
      GhEffect s .issueList entries s
  | issueCreate {s : Tracker} {number : Int} {title body milestone : String}
      {labels : List String} (hpositive : 0 < number)
      (hfresh : ∀ issue ∈ s.issues, issue.number ≠ number) (hmilestone : milestone ∈ s.milestones)
      (hlabels : ∀ label ∈ labels, label ∈ s.labels) :
      GhEffect s (.issueCreate title body milestone labels) number
        { s with issues := s.issues ++ [{
            number := number, title := title, body := body, milestone := milestone
            labels := labels, closed := false }] }
  | issueClose (s : Tracker) (number : Int) (comment : String) :
      GhEffect s (.issueClose number comment) ()
        { s with issues := s.issues.map (Issue.closeAt number) }

/-- A command may also fail, before or after it has its effect. -/
inductive GhExec : Tracker → (op : GhOp) → op.Ans → Tracker → Prop where
  | failed (s : Tracker) (op : GhOp) : GhExec s op none s
  | lost {s s' : Tracker} {op : GhOp} {result : op.Result} (h : GhEffect s op result s') :
      GhExec s op none s'
  | answered {s s' : Tracker} {op : GhOp} {result : op.Result} (h : GhEffect s op result s') :
      GhExec s op (some result) s'

/-! ## The script -/

/-- `LABELS`: the name, the colour and the description. -/
def labels : List (String × String × String) :=
  [("type:feature", "1D76DB", "User-facing behaviour"),
    ("type:infra", "5319E7", "Terraform / AWS"),
    ("type:docs", "0E8A16", "Documentation and ADRs"),
    ("type:test", "FBCA04", "Tests and verification"),
    ("type:chore", "C5DEF5", "Tooling, CI, housekeeping"),
    ("pillar:security", "B60205", "Well-Architected: security"),
    ("pillar:reliability", "D93F0B", "Well-Architected: reliability"),
    ("pillar:performance", "E99695", "Well-Architected: performance efficiency"),
    ("pillar:cost", "F9D0C4", "Well-Architected: cost optimisation"),
    ("pillar:operations", "BFD4F2", "Well-Architected: operational excellence"),
    ("slice:S0", "EDEDED", "Slice 0: Foundation"),
    ("slice:S1", "EDEDED", "Slice 1: Create project"),
    ("slice:S2", "EDEDED", "Slice 2: Read projects"),
    ("slice:S3", "EDEDED", "Slice 3: Operate"),
    ("slice:S4", "EDEDED", "Slice 4: Lifecycle"),
    ("status:blocked", "000000", "Cannot proceed; see the issue for what unblocks it")]

/-- `MILESTONES`: the title and the description. -/
def milestones : List (String × String) :=
  [("S0 Foundation", "Deployed, monitored GET /health behind API Gateway."),
    ("S1 Create project",
      "API-key holder can create a project: 201, or 409 if the name is taken."),
    ("S2 Read projects", "Owners can fetch and list their projects."),
    ("S3 Operate", "On-call can see health, correlate requests, get paged and roll back."),
    ("S4 Lifecycle", "Delete, async provisioning skeleton, production environment.")]

/-- The options of the command line. -/
structure SeedArguments where
  doneSha : Option String
  dryRun : Bool

/-- `run(cmd, dry_run=dry_run)`: a dry run only prints the command, and goes on with what it
makes of no output. -/
def run (dryRun : Bool) (op : GhOp) (skipped : op.Result) : Gh op.Ans :=
  if dryRun then .done (some skipped) else .perform op

/-- The loop of `ensure_labels` and of `ensure_milestones`. -/
def ensureEach {α : Type} (name : α → String) (create : α → Gh (Option Unit))
    (existing : List String) : List α → Gh (Except SeedError Unit)
  | [] => .done (.ok ())
  | item :: items =>
      if name item ∈ existing then ensureEach name create existing items
      else do
        match ← create item with
        | none => return .error .calledProcess
        | some () => ensureEach name create existing items

def createLabel (dryRun : Bool) (label : String × String × String) : Gh (Option Unit) :=
  run dryRun (.labelCreate label.1 label.2.1 label.2.2) ()

def createMilestone (dryRun : Bool) (milestone : String × String) : Gh (Option Unit) :=
  run dryRun (.milestoneCreate milestone.1 milestone.2) ()

/-- `ensure_labels` -/
def ensureLabels (dryRun : Bool) : Gh (Except SeedError Unit) :=
  .call .labelList fun
    | none => .done (.error .calledProcess)
    | some existing => ensureEach Prod.fst (createLabel dryRun) existing labels

/-- `ensure_milestones` -/
def ensureMilestones (dryRun : Bool) : Gh (Except SeedError Unit) :=
  .call .milestoneList fun
    | none => .done (.error .calledProcess)
    | some existing => ensureEach Prod.fst (createMilestone dryRun) existing milestones

/-- The text of the new issue. -/
def issueBody (t : Ticket) : String :=
  t.body ++ "\n\n---\n_Seed: `docs/tickets/" ++ t.name ++ "`_\n"

/-- The comment with which an issue is closed. -/
def doneNote (args : SeedArguments) : String :=
  match args.doneSha.filter fun sha => sha ≠ "" with
  | some sha => "Implemented in " ++ sha ++ "."
  | none => "Implemented in the initial commit."

/-- The new issue of a ticket that is done is closed; a dry run has none to close. -/
def closeDone (args : SeedArguments) (t : Ticket) (number : Int) : Gh (Option Unit) :=
  if t.status = "done" ∧ 0 < number then
    run args.dryRun (.issueClose number (doneNote args)) ()
  else .done (some ())

/-- An issue for a ticket. -/
def seedTicket (args : SeedArguments) (t : Ticket) : Gh (Option Unit) := do
  match ← run args.dryRun (.issueCreate t.title (issueBody t) t.milestone t.labels) (-1 : Int) with
  | none => return none
  | some number => closeDone args t number

/-- The loop of `main` over the ticket files. -/
def seedTickets (args : SeedArguments) (known : List (String × Int)) :
    List TicketFile → Gh (Except SeedError Unit)
  | [] => .done (.ok ())
  | file :: files =>
      match parse file with
      | .error e => .done (.error e)
      | .ok t =>
          if t.title ∈ known.map Prod.fst then seedTickets args known files
          else do
            match ← seedTicket args t with
            | none => return .error .calledProcess
            | some () => seedTickets args known files

/-- `existing_issues` and the loop. -/
def seedIssues (files : List TicketFile) (args : SeedArguments) : Gh (Except SeedError Unit) :=
  .call .issueList fun
    | none => .done (.error .calledProcess)
    | some known => seedTickets args known files

/-- The second step follows the first unless that ends with an error. -/
def andThen (first second : Gh (Except SeedError Unit)) : Gh (Except SeedError Unit) := do
  match ← first with
  | .error e => return .error e
  | .ok () => second

/-- `main` -/
def main (files : List TicketFile) (args : SeedArguments) : Gh (Except SeedError Unit) :=
  andThen (ensureLabels args.dryRun)
    (andThen (ensureMilestones args.dryRun) (seedIssues files args))

end ProjectsApi.Seeding
