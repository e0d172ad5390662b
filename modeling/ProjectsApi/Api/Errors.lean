import ProjectsApi.Repository.Items

/-!
# Problem responses

The handlers of `errors.py`: every exception of a route becomes a problem document
whose status repeats the HTTP status.  `requestId` is the one member that differs
between two answers to the same request.
-/

namespace ProjectsApi

open Foundation Dynamo ProjectsApi.Action

/-- What the handlers read of the request. -/
structure RequestContext where
  path : String
  requestId : String

/-- RFC 7807 problem details, the body of a non-2xx response. -/
structure Problem where
  type : String
  title : String
  status : Nat
  detail : String
  instancePath : String
  requestId : String
  deriving DecidableEq

/-- The bodies of the project routes. -/
inductive Body where
  | empty
  | project (project : Project)
  | page (items : List Project) (nextToken : Option String)
  | problem (problem : Problem)
  deriving DecidableEq

structure HttpResponse where
  status : Nat
  body : Body
  headers : List (String × String) := []
  deriving DecidableEq

def typeBase : String := "https://projects-api.example/problems/"

def requestIdHeader : String := "X-Request-Id"

/-- `problem()` -/
def problem (request : RequestContext) (statusCode : Nat) (title detail problemType : String) :
    HttpResponse where
  status := statusCode
  body := .problem
    { type := typeBase ++ problemType
      title := title
      status := statusCode
      detail := detail
      instancePath := request.path
      requestId := request.requestId }
  headers := [(requestIdHeader, request.requestId)]

/-- `str(exc)` of the domain exceptions. -/
def Exn.text : Exn → String
  | .projectNameTaken name => "A project named '" ++ name ++ "' already exists."
  | .projectNotFound projectId => "Project '" ++ projectId ++ "' was not found."
  | .invalidCursor => "nextToken is invalid or expired."
  | .clientError e => e.text
  | .keyError key => "'" ++ key ++ "'"
  | .valueError value => "'" ++ value ++ "' is not a valid ProjectType"
  | .validationError field => "1 validation error for Project\n" ++ field

/-- The response the registered handlers make of an exception. -/
def errorResponse (request : RequestContext) (exn : Exn) : HttpResponse :=
  match exn with
  | .invalidCursor => problem request 400 "Invalid request" exn.text "invalid-cursor"
  | .projectNameTaken _ =>
      problem request 409 "Project name already exists" exn.text "project-name-taken"
  | .projectNotFound _ => problem request 404 "Project not found" exn.text "project-not-found"
  | _ => problem request 500 "Internal server error"
      "An unexpected error occurred. Quote the requestId when reporting it." "internal"

/-- The registered handlers. -/
def handleException (request : RequestContext) (exn : Exn) : Action HttpResponse := do
  match exn with
  | .projectNameTaken _ => addMetric "ProjectNameConflicts"
  | .projectNotFound _ => pure ()
  | .invalidCursor => pure ()
  | _ => log { level := .exception, message := "Unhandled error" }
  return errorResponse request exn

/-! ## Responses up to the request id -/

/-- A problem with its request id blanked. -/
def Problem.withoutRequestId (p : Problem) : Problem := { p with requestId := "" }

def Body.withoutRequestId : Body → Body
  | .problem p => .problem p.withoutRequestId
  | body => body

/-- A response with its request id blanked, in the header and in the body. -/
def HttpResponse.withoutRequestId (r : HttpResponse) : HttpResponse where
  status := r.status
  body := r.body.withoutRequestId
  headers := r.headers.map fun header =>
    if header.1 = requestIdHeader then (header.1, "") else header

/-- Two problems that differ in the request at most by its id are one. -/
theorem errorResponse_withoutRequestId {request request' : RequestContext}
    (hpath : request.path = request'.path) (exn : Exn) :
    (errorResponse request exn).withoutRequestId =
      (errorResponse request' exn).withoutRequestId := by
  cases exn <;> simp [errorResponse, problem, HttpResponse.withoutRequestId,
    Body.withoutRequestId, Problem.withoutRequestId, hpath]

end ProjectsApi
