import ProjectsApi.Http.Asgi

/-!
# Exception handlers

`problem()` and the handlers that `register_error_handlers` puts around the routes.  A problem
gets its request id from `request_id`, once for the body and for the header; before that it reads
`request.url.path`, which may raise.
-/

namespace ProjectsApi.Http

open Foundation Foundation.Json Dynamo

/-! ## Rendering -/

/-- The members of a problem document, in the order of the source. -/
def problemMembers (p : Problem) : Members :=
  [(codePoints "type", .string (codePoints p.type)),
    (codePoints "title", .string (codePoints p.title)),
    (codePoints "status", .number (codePoints (toString p.status))),
    (codePoints "detail", .string (codePoints p.detail)),
    (codePoints "instance", .string (codePoints p.instancePath)),
    (codePoints "requestId", .string (codePoints p.requestId))]

def problemContentType : String := "application/problem+json"

/-- `content-type` of a body. -/
def contentType : Body → List (String × String)
  | .empty => []
  | .problem _ => [("content-type", problemContentType)]
  | _ => [("content-type", "application/json")]

/-- A response as it is sent: header names in lower case, further members added to a problem. -/
def render (r : HttpResponse) (extra : Members) : Response where
  status := r.status
  headers := r.headers.map (fun header => (header.1.toLower, header.2)) ++ contentType r.body
  content :=
    match r.body with
    | .empty => .empty
    | .problem p => .problem (dictUpdate (problemMembers p) extra)
    | body => .entity body

/-- The messages that a response is sent as. -/
def Response.messages (response : Response) : List Message :=
  [.start response.status response.headers, .body response.content]

/-- `await response(scope, receive, send)` -/
def Response.respond (response : Response) : Asgi Unit := do
  Asgi.send (.start response.status response.headers)
  Asgi.send (.body response.content)

/-! ## Handlers -/

/-- The exceptions that end a request. -/
inductive Raised where
  /-- an exception of a route -/
  | route (exn : Exn)
  /-- `RequestValidationError` -/
  | validation (errors : List FieldError)
  /-- `HTTPException` -/
  | http (statusCode : Nat) (detail : String)
  /-- any other exception, by its text -/
  | other (text : String)

/-- An ASGI application: it returns or raises. -/
abbrev App : Type := Asgi (Except Raised Unit)

section Problem

variable [RequestUrl]

/-- `problem()` -/
def problem (scope : Scope) (statusCode : Nat) (title detail problemType : String)
    (extra : Members) : Asgi (Except Raised Response) :=
  match scope.urlPath with
  | .error text => return .error (.other text)
  | .ok path => do
      let rid ← Asgi.requestId
      return .ok (render
        (ProjectsApi.problem ⟨path, rid.text⟩ statusCode title detail problemType) extra)

/-- The entry of a failing field: its path without the word `body`, and the message. -/
def fieldProblem (e : FieldError) : Json :=
  .object [(codePoints "field",
      .string (codePoints
        (".".intercalate ((e.loc.filter fun p => p ≠ .name "body").map LocPart.str)))),
    (codePoints "message", .string (codePoints e.msg))]

/-- `_TITLES.get(status, "Error")` -/
def titleOf (statusCode : Nat) : String :=
  (([(400, "Bad request"), (401, "Unauthorized"), (403, "Forbidden"), (404, "Not found"),
    (405, "Method not allowed"), (409, "Conflict"), (413, "Payload too large"),
    (415, "Unsupported media type"), (429, "Too many requests")] :
      List (Nat × String)).lookup statusCode).getD "Error"

def unhandledEntry : LogEntry := { level := .exception, message := "Unhandled error" }

/-- `_unhandled` -/
def unhandled (scope : Scope) : Asgi (Except Raised Response) := do
  Asgi.log unhandledEntry
  problem scope 500 "Internal server error"
    "An unexpected error occurred. Quote the requestId when reporting it." "internal" []

/-- The registered handler of an exception; every exception without one is `_unhandled`. -/
def handler? (scope : Scope) : Raised → Option (Asgi (Except Raised Response))
  | .validation errors =>
      some (problem scope 400 "Invalid request" "One or more fields failed validation."
        "validation" [(codePoints "errors", .array (errors.map fieldProblem))])
  | .route .invalidCursor =>
      some (problem scope 400 "Invalid request" Exn.invalidCursor.text "invalid-cursor" [])
  | .route (.projectNameTaken name) =>
      some (do
        Asgi.ofAction (Action.addMetric "ProjectNameConflicts")
        problem scope 409 "Project name already exists" (Exn.projectNameTaken name).text
          "project-name-taken" [])
  | .route (.projectNotFound projectId) =>
      some (problem scope 404 "Project not found" (Exn.projectNotFound projectId).text
        "project-not-found" [])
  | .http statusCode detail =>
      some (problem scope statusCode (titleOf statusCode) detail
        ("http-" ++ toString statusCode) [])
  | .route _ => none
  | .other _ => none

end Problem

end ProjectsApi.Http
