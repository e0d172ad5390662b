import ProjectsApi.Api.Errors
import ProjectsApi.Api.Pagination
import ProjectsApi.Repository.Projects

/-!
# The project routes

The four routes of `routes/projects.py`.  A route ends with a response or raises;
`respond` adds what the application does with a raised exception.
-/

namespace ProjectsApi

open Foundation Dynamo ProjectsApi.Action

/-- The exception handlers around a route. -/
def respond (request : RequestContext) (route : Action (Except Exn HttpResponse)) :
    Action HttpResponse := do
  match ← route with
  | .ok response => return response
  | .error exn => handleException request exn

/-- Create a project from a validated body. -/
def createProject [CaseTables] (name : String) (type : ProjectType) (ownerId : String) :
    Action (Except Exn HttpResponse) := do
  let now ← Action.now
  let uuid ← uuid4
  let project := Project.new name type ownerId now uuid
  match ← ProjectRepository.create project with
  | .error exn => return .error exn
  | .ok _ =>
      addMetric "ProjectsCreated"
      log { level := .info
            message := "project created"
            fields := [("project_id", .str project.projectId),
              ("type", .str project.type.value)] }
      return .ok { status := 201
                   body := .project project
                   headers := [("Location", "/v1/projects/" ++ project.projectId)] }

/-- The cursor of a page request. -/
def decodeNextToken (nextToken : Option String) (ownerId : String) :
    Except Exn (Option CursorKey) :=
  match nextToken with
  | none => .ok none
  | some token => (decodeCursor token ownerId).map some

/-- The token of a page's last key; `none` is an exception of the encoder. -/
def encodeLastKey : Option CursorKey → Option (Option String)
  | none => some none
  | some key => (encodeCursor key).map some

/-- List the caller's projects, newest first, one page at a time. -/
def listProjects [DatetimeParser] (ownerId : String) (limit : Nat)
    (nextToken : Option String) : Action (Except Exn HttpResponse) := do
  match decodeNextToken nextToken ownerId with
  | .error exn => return .error exn
  | .ok cursor =>
      match ← ProjectRepository.listByOwner ownerId limit cursor with
      | .error exn => return .error exn
      | .ok (projects, lastKey) =>
          log { level := .debug
                message := "projects listed"
                fields := [("count", .int projects.length),
                  ("has_more", .bool lastKey.isSome)] }
          match encodeLastKey lastKey with
          | none => return .error (.valueError "surrogates not allowed")
          | some token => return .ok { status := 200, body := .page projects token }

/-- Return one of the caller's projects. -/
def getProject [DatetimeParser] (projectId ownerId : String) :
    Action (Except Exn HttpResponse) := do
  if !isValidProjectId projectId then return .error (.projectNotFound projectId)
  else
    match ← ProjectRepository.get projectId with
    | .error exn => return .error exn
    | .ok project =>
        if project.ownerId ≠ ownerId then return .error (.projectNotFound projectId)
        else return .ok { status := 200, body := .project project }

/-- Delete one of the caller's projects and release its name for reuse. -/
def deleteProject [CaseTables] [DatetimeParser] (projectId ownerId : String) :
    Action (Except Exn HttpResponse) := do
  if !isValidProjectId projectId then return .error (.projectNotFound projectId)
  else
    match ← ProjectRepository.delete projectId ownerId with
    | .error exn => return .error exn
    | .ok () =>
        addMetric "ProjectsDeleted"
        log { level := .info
              message := "project deleted"
              fields := [("project_id", .str projectId)] }
        return .ok { status := 204, body := .empty }

end ProjectsApi
