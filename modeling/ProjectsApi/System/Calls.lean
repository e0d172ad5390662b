import ProjectsApi.Api.Walk
import ProjectsApi.Foundation.ThreadPool
import ProjectsApi.Registry.Operations

/-!
# The system

Any number of clients of the repository and of invocations of the record handler
run as threads over one table.  Every operation they perform has one of a few
shapes (`ServiceOp`), and on a table that encodes a registry each of these acts as
`RegistryExec` says.  So every table the system reaches from the empty one encodes
a registry.
-/

namespace ProjectsApi

open Foundation Dynamo Program

/-! ## The shapes of operations -/

/-- The operations that neither write nor provision nor warn. -/
inductive Quiet : Op → Prop where
  | read (projectId : String) : Quiet (.getItem (recordKey projectId))
  | query (request : QueryRequest) : Quiet (.query request)
  | now : Quiet .now
  | uuid4 : Quiet .uuid4
  | log {entry : LogEntry} (hlevel : entry.level ≠ .warning) : Quiet (.log entry)
  | addMetric (name : String) : Quiet (.addMetric name)

variable [CaseTables]

/-- The operations the code performs. -/
inductive ServiceOp : Op → Prop where
  | read (projectId : String) : ServiceOp (.getItem (recordKey projectId))
  | create (project : Project) : ServiceOp (.transactWriteItems (createActions project))
  | delete (projectId name ownerId : String) :
      ServiceOp (.transactWriteItems (deleteActions projectId name ownerId))
  | transition (tr : Transition) (projectId : String) (now : Datetime) :
      ServiceOp (.updateItem (tr.request projectId now))
  | query (request : QueryRequest) : ServiceOp (.query request)
  | provision (request : ProvisionRequest) : ServiceOp (.provision request)
  | now : ServiceOp .now
  | uuid4 : ServiceOp .uuid4
  | log (entry : LogEntry) : ServiceOp (.log entry)
  | addMetric (name : String) : ServiceOp (.addMetric name)

theorem Quiet.serviceOp {op : Op} (h : Quiet op) : ServiceOp op := by
  cases h with
  | read projectId => exact .read projectId
  | query request => exact .query request
  | now => exact .now
  | uuid4 => exact .uuid4
  | log => exact .log _
  | addMetric name => exact .addMetric name

/-! ## The operations of each method -/

section Reads

omit [CaseTables]

variable [DatetimeParser]

theorem allOps_get (projectId : String) : (ProjectRepository.get projectId).AllOps Quiet := by
  refine ⟨.read projectId, fun answer => ?_⟩
  rcases answer with _ | _ | item
  · trivial
  · trivial
  · simp only [bind_done]
    split_ifs <;> trivial

theorem allOps_listByOwner (ownerId : String) (limit : Nat) (cursor : Option CursorKey) :
    (ProjectRepository.listByOwner ownerId limit cursor).AllOps Quiet := by
  refine ⟨.query _, fun answer => ?_⟩
  cases answer with
  | error e =>
      simp only [bind_done]
      split_ifs <;> trivial
  | ok output => trivial

theorem allOps_listProjects (ownerId : String) (limit : Nat) (nextToken : Option String) :
    (listProjects ownerId limit nextToken).AllOps Quiet := by
  unfold listProjects
  cases decodeNextToken nextToken ownerId with
  | error exn => trivial
  | ok cursor =>
      refine (allOps_listByOwner ownerId limit cursor).bind fun result => ?_
      cases result with
      | error exn => trivial
      | ok page =>
          refine ⟨.log (by simp), fun _ => ?_⟩
          simp only [bind_done]
          cases encodeLastKey page.2 <;> trivial

theorem allOps_walkFrom (ownerId : String) (limits : List Nat) (nextToken : Option String) :
    (walkFrom ownerId limits nextToken).AllOps Quiet := by
  induction limits generalizing nextToken with
  | nil => trivial
  | cons limit limits ih =>
      refine (allOps_listProjects ownerId limit nextToken).bind fun result => ?_
      split
      · trivial
      · trivial
      · exact (ih _).bind fun _ => trivial
      · trivial

end Reads

theorem allOps_create (project : Project) :
    (ProjectRepository.create project).AllOps ServiceOp := by
  refine ⟨.create project, fun answer => ?_⟩
  cases answer <;> trivial

theorem allOps_transition (tr : Transition) (projectId : String) :
    (tr.run projectId).AllOps ServiceOp := by
  refine ⟨.now, fun now => ⟨.transition tr projectId now, fun answer => ?_⟩⟩
  cases answer with
  | ok => trivial
  | error e =>
      simp only [bind_done]
      split_ifs <;> trivial

theorem allOps_recordFailure (request : ProvisionRequest) (text : String) :
    (recordFailure request text).AllOps ServiceOp := by
  refine ⟨.log _, fun _ => ⟨.addMetric _, fun _ => ?_⟩⟩
  refine (allOps_transition (.fail text) request.projectId).bind fun result => ?_
  rcases result with exn | _ | _
  · trivial
  · exact ⟨.log _, fun _ => trivial⟩
  · trivial

theorem allOps_recordResult (request : ProvisionRequest) (result : ProvisionResult) :
    (recordResult request result).AllOps ServiceOp := by
  refine (allOps_transition (.complete result) request.projectId).bind fun moved => ?_
  rcases moved with exn | _ | _
  · trivial
  · exact ⟨.log _, fun _ => trivial⟩
  · exact ⟨.addMetric _, fun _ => ⟨.log _, fun _ => trivial⟩⟩

theorem allOps_provisionProject (image : Item) (projectId : String) (type : ProjectType) :
    (provisionProject image projectId type).AllOps ServiceOp := by
  unfold provisionProject
  split
  · trivial
  · trivial
  · refine ⟨.provision _, fun outcome => ?_⟩
    cases outcome with
    | result result => exact allOps_recordResult _ _
    | raised text => exact allOps_recordFailure _ _

theorem allOps_recordHandler (record : StreamRecord) :
    (ProjectsApi.recordHandler record).AllOps ServiceOp := by
  have hskip : ∀ fields, (do
      Action.log (skipEntry fields)
      return .ok () : Action (Except Exn Unit)).AllOps ServiceOp :=
    fun fields => ⟨.log _, fun _ => trivial⟩
  unfold ProjectsApi.recordHandler
  split_ifs
  · exact hskip _
  · split
    · exact hskip _
    · split_ifs
      · exact hskip _
      · exact hskip _
      · exact hskip _
      · unfold handleProject
        split
        · trivial
        · trivial
        · split
          · trivial
          · refine (allOps_transition .begin _).bind fun moved => ?_
            rcases moved with exn | _ | _
            · trivial
            · exact ⟨.log _, fun _ => trivial⟩
            · exact allOps_provisionProject _ _ _

variable [DatetimeParser]

theorem allOps_delete (projectId ownerId : String) :
    (ProjectRepository.delete projectId ownerId).AllOps ServiceOp := by
  refine ((allOps_get projectId).mono fun _ => Quiet.serviceOp).bind fun result => ?_
  cases result with
  | error exn => trivial
  | ok project =>
      dsimp only
      split_ifs
      · trivial
      · refine ⟨.delete _ _ _, fun answer => ?_⟩
        cases answer with
        | ok => trivial
        | error e =>
            simp only [bind_done, ProjectRepository.deleteError]
            split_ifs
            · trivial
            · exact ⟨.log _, fun _ => trivial⟩
            · trivial
            · trivial

/-! ## Calls -/

/-- The calls the system is made of. -/
inductive Call where
  | create (project : Project)
  | get (projectId : String)
  | delete (projectId ownerId : String)
  | listByOwner (ownerId : String) (limit : Nat) (cursor : Option CursorKey)
  | walk (ownerId : String) (limits : List Nat)
  | transition (tr : Transition) (projectId : String)
  | recordHandler (record : StreamRecord)

/-- What a call returns. -/
inductive Value where
  | unit
  | bool (value : Bool)
  | project (project : Project)
  | page (page : ProjectRepository.Page)
  | walk (walk : Walk)
  deriving DecidableEq

/-- What a call ends with. -/
abbrev Result : Type := Except Exn Value

/-- The program of a call. -/
def Call.body : Call → Action Result
  | create project => (Except.map Value.project) <$> ProjectRepository.create project
  | get projectId => (Except.map Value.project) <$> ProjectRepository.get projectId
  | delete projectId ownerId =>
      (Except.map fun _ => Value.unit) <$> ProjectRepository.delete projectId ownerId
  | listByOwner ownerId limit cursor =>
      (Except.map Value.page) <$> ProjectRepository.listByOwner ownerId limit cursor
  | walk ownerId limits => (Except.map Value.walk) <$> ProjectsApi.walk ownerId limits
  | transition tr projectId => (Except.map Value.bool) <$> tr.run projectId
  | recordHandler record => (Except.map fun _ => Value.unit) <$> ProjectsApi.recordHandler record

/-- The machine of the system. -/
def system (svc : Service) : Machine Table Op Op.Ans Call Result where
  exec := svc.Exec
  body := Call.body

abbrev SystemWorld : Type := World Table Op Op.Ans Call Result

abbrev SystemLabel : Type := Label Op Op.Ans Call Result

/-- Runs of the system. -/
abbrev SystemRun (svc : Service) : SystemWorld → List SystemLabel → SystemWorld → Prop :=
  Run (Step (system svc))

/-- Every call performs service operations only. -/
theorem Call.allOps (c : Call) : c.body.AllOps ServiceOp := by
  cases c with
  | create project => exact (allOps_create project).map _
  | get projectId => exact ((allOps_get projectId).mono fun _ => Quiet.serviceOp).map _
  | delete projectId ownerId => exact (allOps_delete projectId ownerId).map _
  | listByOwner ownerId limit cursor =>
      exact ((allOps_listByOwner ownerId limit cursor).mono fun _ => Quiet.serviceOp).map _
  | walk ownerId limits =>
      exact ((allOps_walkFrom ownerId limits none).mono fun _ => Quiet.serviceOp).map _
  | transition tr projectId => exact (allOps_transition tr projectId).map _
  | recordHandler record => exact (allOps_recordHandler record).map _

end ProjectsApi
