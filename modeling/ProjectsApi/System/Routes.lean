import ProjectsApi.Api.Routes
import ProjectsApi.System.Sequential

/-!
# The routes step by step

Each route as its operations, with functions of their answers in between, and what the
application makes of a route that has ended.
-/

namespace ProjectsApi

open Foundation Dynamo Program

section Eval

variable {svc : Service} {t t' : Table}

/-! ## The application around a route -/

/-- The response to a request whose route has ended. -/
def endResponse (context : RequestContext) : Except Exn HttpResponse → HttpResponse
  | .ok response => response
  | .error exn => errorResponse context exn

theorem endResponse_withoutRequestId {context context' : RequestContext}
    (hpath : context.path = context'.path) (ended : Except Exn HttpResponse) :
    (endResponse context ended).withoutRequestId =
      (endResponse context' ended).withoutRequestId := by
  cases ended with
  | ok response => rfl
  | error exn => exact errorResponse_withoutRequestId hpath exn


theorem eval_log_iff {α : Type} {entry : LogEntry} {next : Unit → Action α} {value : α} :
    Eval svc.Exec t (.call (.log entry) next) value t' ↔ Eval svc.Exec t (next ()) value t' := by
  rw [eval_call_iff]
  constructor
  · rintro ⟨answer, t₁, hexec, hnext⟩
    cases hexec
    exact hnext
  · intro hnext
    exact ⟨(), t, .log entry, hnext⟩

theorem eval_addMetric_iff {α : Type} {name : String} {next : Unit → Action α} {value : α} :
    Eval svc.Exec t (.call (.addMetric name) next) value t' ↔
      Eval svc.Exec t (next ()) value t' := by
  rw [eval_call_iff]
  constructor
  · rintro ⟨answer, t₁, hexec, hnext⟩
    cases hexec
    exact hnext
  · intro hnext
    exact ⟨(), t, .addMetric name, hnext⟩

/-- The handlers log and count only. -/
theorem eval_handleException_iff {context : RequestContext} {exn : Exn} {r : HttpResponse} :
    Eval svc.Exec t (handleException context exn) r t' ↔
      r = errorResponse context exn ∧ t' = t := by
  cases exn <;> simp [handleException, perform_bind, eval_log_iff, eval_addMetric_iff]

theorem eval_respond_iff {context : RequestContext} {route : Action (Except Exn HttpResponse)}
    {r : HttpResponse} :
    Eval svc.Exec t (respond context route) r t' ↔
      ∃ ended, Eval svc.Exec t route ended t' ∧ r = endResponse context ended := by
  rw [respond, eval_bind_iff]
  constructor
  · rintro ⟨ended, t₁, hroute, hrest⟩
    cases ended with
    | ok response =>
        obtain ⟨hr, rfl⟩ := eval_done_iff.mp hrest
        exact ⟨_, hroute, hr⟩
    | error exn =>
        obtain ⟨hr, rfl⟩ := eval_handleException_iff.mp hrest
        exact ⟨_, hroute, hr⟩
  · rintro ⟨ended, hroute, rfl⟩
    refine ⟨ended, t', hroute, ?_⟩
    cases ended with
    | ok response => exact .done _ _
    | error exn => exact eval_handleException_iff.mpr ⟨rfl, rfl⟩

/-! ## The steps of the routes -/

section Steps

variable {ownerId id : String} {ended : Except Exn HttpResponse}

/-! ### Reading a project -/

section Get

variable [DatetimeParser]

/-- What `get_project` makes of the project it has read. -/
def getResponse (projectId ownerId : String) : Except Exn Project → Except Exn HttpResponse
  | .error exn => .error exn
  | .ok project =>
      if project.ownerId ≠ ownerId then .error (.projectNotFound projectId)
      else .ok { status := 200, body := .project project }

theorem getProject_eq (hid : isValidProjectId id = true) : getProject id ownerId =
    .call (.getItem (recordKey id)) fun answer =>
      .done (getResponse id ownerId (ProjectRepository.getValue id answer)) := by
  rw [getProject, hid, ProjectRepository.get_eq]
  simp only [Bool.not_true, Bool.false_eq_true, if_false, call_bind]
  congr 1
  funext answer
  rw [done_bind]
  cases ProjectRepository.getValue id answer with
  | error exn => rfl
  | ok project =>
      dsimp only [getResponse]
      split_ifs <;> rfl

end Get

/-! ### Deleting a project -/

section Delete

/-- The exception `delete` raises when its transaction fails. -/
def deleteExn (projectId : String) (e : ClientError) : Exn :=
  if isTransactionCanceled e ∧ e.cancellationReasons[0]? = some "ConditionalCheckFailed" then
    .projectNotFound projectId
  else .clientError e

/-- How `delete_project` ends when the repository has. -/
def deleteResponse (projectId : String) :
    Except Exn Unit → Action (Except Exn HttpResponse)
  | .error exn => .done (.error exn)
  | .ok () => do
      Action.addMetric "ProjectsDeleted"
      Action.log { level := .info
                   message := "project deleted"
                   fields := [("project_id", .str projectId)] }
      return .ok { status := 204, body := .empty }

theorem eval_deleteResponse_iff {result : Except Exn Unit} :
    Eval svc.Exec t (deleteResponse id result) ended t' ↔
      ended = result.map (fun _ => { status := 204, body := .empty }) ∧ t' = t := by
  cases result with
  | error exn => exact eval_done_iff
  | ok =>
      simp only [deleteResponse, perform_bind, eval_addMetric_iff, eval_log_iff, pure_eq_done,
        eval_done_iff]
      rfl

variable [CaseTables]

theorem eval_deleteError_iff {name : String} {e : ClientError} {r : Except Exn Unit} :
    Eval svc.Exec t (ProjectRepository.deleteError id name e) r t' ↔
      r = .error (deleteExn id e) ∧ t' = t := by
  unfold ProjectRepository.deleteError deleteExn
  by_cases hcanceled : isTransactionCanceled e = true
  · by_cases hrecord : e.cancellationReasons[0]? = some "ConditionalCheckFailed"
    · simp [hcanceled, hrecord]
    · -- the reservation decides about the log line only
      by_cases hreservation : e.cancellationReasons[1]? = some "ConditionalCheckFailed"
      · simp [hcanceled, hrecord, hreservation, eval_log_iff]
      · simp [hcanceled, hrecord, hreservation]
  · simp [hcanceled]

theorem deleteProject_eq [DatetimeParser] (hid : isValidProjectId id = true) :
    deleteProject id ownerId =
      .call (.getItem (recordKey id)) fun answer =>
        ProjectRepository.deleteRead id ownerId (ProjectRepository.getValue id answer) >>=
          fun result => deleteResponse id result := by
  rw [deleteProject, hid, ProjectRepository.delete_eq]
  simp only [Bool.not_true, Bool.false_eq_true, if_false, call_bind]
  rfl

end Delete

/-! ### Listing projects -/

section List

variable [DatetimeParser]

/-- What `list_projects` makes of the answer to its query. -/
def listResponse (cursor : Option CursorKey) :
    Except ClientError QueryOutput → Except Exn HttpResponse
  | .error e =>
      if cursor.isSome && e.code == "ValidationException" then .error .invalidCursor
      else .error (.clientError e)
  | .ok output =>
      match output.items.mapM toProject with
      | .error exn => .error exn
      | .ok projects =>
          match encodeLastKey output.lastEvaluatedKey with
          | none => .error (.valueError "surrogates not allowed")
          | some token => .ok { status := 200, body := .page projects token }

/-- What `list_projects` does with the answer to its query. -/
def listNext (cursor : Option CursorKey) (answer : Except ClientError QueryOutput) :
    Action (Except Exn HttpResponse) :=
  match answer with
  | .error _ => .done (listResponse cursor answer)
  | .ok output =>
      match output.items.mapM toProject with
      | .error _ => .done (listResponse cursor answer)
      | .ok projects =>
          .call (.log { level := .debug
                        message := "projects listed"
                        fields := [("count", .int projects.length),
                          ("has_more", .bool output.lastEvaluatedKey.isSome)] })
            fun _ => .done (listResponse cursor answer)

theorem listProjects_eq {limit : Nat} {cursor : Option CursorKey} {nextToken : Option String}
    (htoken : decodeNextToken nextToken ownerId = .ok cursor) :
    listProjects ownerId limit nextToken =
      .call (.query (ProjectRepository.listRequest ownerId limit cursor)) (listNext cursor) := by
  rw [listProjects, htoken]
  simp only [ProjectRepository.listByOwner, perform_bind, call_bind]
  congr 1
  funext answer
  cases answer with
  | error e =>
      rw [listNext, listResponse]
      dsimp only
      split_ifs <;> rfl
  | ok output =>
      dsimp only
      rw [listNext, listResponse, pure_eq_done, done_bind]
      cases hitems : output.items.mapM toProject with
      | error exn => rfl
      | ok projects =>
          -- the log line stands between the page and its token
          refine congrArg (Program.call _) (funext fun _ => ?_)
          cases encodeLastKey output.lastEvaluatedKey <;> rfl

theorem eval_listNext_iff {cursor : Option CursorKey} {answer : Except ClientError QueryOutput} :
    Eval svc.Exec t (listNext cursor answer) ended t' ↔
      ended = listResponse cursor answer ∧ t' = t := by
  rw [listNext.eq_def]
  split
  · exact eval_done_iff
  · split
    · exact eval_done_iff
    · rw [eval_log_iff]
      exact eval_done_iff

end List

end Steps

end Eval

end ProjectsApi
