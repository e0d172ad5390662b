import ProjectsApi.Api.Routes
import ProjectsApi.Http.Correlation

/-!
# The application

`create_app`: the routes behind the exception handlers, behind the middleware, behind the
server-error handler.  How the framework matches paths and reads arguments is left open; what
the application answers, in every way in which a request can end, is not.
-/

namespace ProjectsApi.Http

open Foundation Foundation.Json Dynamo

/-! ## Routing -/

/-- The methods of an endpoint; the framework's own routes answer `HEAD` as well. -/
def Endpoint.methods : Endpoint → List String
  | .health => ["GET"]
  | .createProject => ["POST"]
  | .listProjects => ["GET"]
  | .getProject => ["GET"]
  | .deleteProject => ["DELETE"]
  | .openapi => ["GET", "HEAD"]
  | .docs => ["GET", "HEAD"]
  | .oauth2Redirect => ["GET", "HEAD"]

/-- The endpoints that depend on `current_user`. -/
def Endpoint.identified : Endpoint → Bool
  | .createProject => true
  | .listProjects => true
  | .getProject => true
  | .deleteProject => true
  | _ => false

/-- The registered routes, in order. -/
def registered (isLocal : Bool) : List Endpoint :=
  .openapi :: (if isLocal then [.docs, .oauth2Redirect] else []) ++
    [.health, .createProject, .listProjects, .getProject, .deleteProject]

/-- What the application takes from the framework. -/
structure Framework where
  /-- a path matches the path of a route -/
  pathMatches : Endpoint → String → Bool
  /-- the path with a trailing slash added or removed -/
  slashVariant : String → String
  /-- the URL of the path with the slash changed; an error is the text of an exception -/
  redirectUrl : Scope → Except String String
  /-- `app.openapi()`; an error is the text of an exception -/
  openapi : Except String Members
  serverError : ServerErrorMiddleware

/-- Where the router sends a request. -/
inductive Routing where
  | endpoint (endpoint : Endpoint)
  | methodNotAllowed
  | redirect
  | notFound
  deriving DecidableEq

/-- The router, with its default `redirect_slashes`: the first route that matches the path and
the method; 405 if only paths match; a redirect if a path matches with the slash changed. -/
def Framework.routing (F : Framework) (isLocal : Bool) (method path : String) : Routing :=
  let candidates := (registered isLocal).filter fun e => F.pathMatches e path
  match candidates.find? fun e => e.methods.contains method with
  | some e => .endpoint e
  | none =>
      if candidates ≠ [] then .methodNotAllowed
      else if (registered isLocal).any fun e => F.pathMatches e (F.slashVariant path) then
        .redirect
      else .notFound

/-- Only with its trailing slash changed does the path match a route. -/
def SlashOnly (F : Framework) (isLocal : Bool) (path : String) : Prop :=
  (∀ e ∈ registered isLocal, F.pathMatches e path = false) ∧
    ∃ e ∈ registered isLocal, F.pathMatches e (F.slashVariant path) = true

theorem routing_eq_redirect_iff (F : Framework) (isLocal : Bool) (method path : String) :
    F.routing isLocal method path = .redirect ↔ SlashOnly F isLocal path := by
  have hcandidates : (registered isLocal).filter (fun e => F.pathMatches e path) = [] ↔
      ∀ e ∈ registered isLocal, F.pathMatches e path = false := by
    simp [List.filter_eq_nil_iff]
  rw [Framework.routing, SlashOnly, ← hcandidates]
  cases hfind : ((registered isLocal).filter fun e => F.pathMatches e path).find?
      fun e => e.methods.contains method with
  | some e =>
      have hne : (registered isLocal).filter (fun e => F.pathMatches e path) ≠ [] :=
        List.ne_nil_of_mem (List.mem_of_find?_eq_some hfind)
      simp [hne]
  | none =>
      by_cases hnone : (registered isLocal).filter (fun e => F.pathMatches e path) = []
      · by_cases hvariant : (registered isLocal).any fun e => F.pathMatches e (F.slashVariant path)
        · simp only [hnone, hvariant]
          simpa using hvariant
        · simp only [hnone, hvariant]
          simpa using hvariant
      · simp [hnone]

/-- The router answers with a redirect. -/
def Redirected (F : Framework) (isLocal : Bool) (scope : Scope) : Prop :=
  SlashOnly F isLocal scope.path ∧ ∃ url, F.redirectUrl scope = .ok url

/-! ## Endpoints -/

/-- `current_user` -/
def currentUser (isLocal : Bool) (scope : Scope) : Except Raised String :=
  match (scope.event.bind GatewayEvent.apiKeyId).filter fun keyId => keyId ≠ "" with
  | some keyId => .ok keyId
  | none =>
      match scope.identityHeader.filter fun header => isLocal && header ≠ "" with
      | some header => .ok header
      | none => .error (.http 401 "Missing caller identity.")

/-- A JSON response. -/
def jsonResponse (value : Json) : Response where
  status := 200
  headers := [("content-type", "application/json")]
  content := .json value

def htmlResponse : Response where
  status := 200
  headers := [("content-type", "text/html; charset=utf-8")]
  content := .page

/-- `health` -/
def healthResponse : Response :=
  jsonResponse (.object [(codePoints "status", .string (codePoints "ok")),
    (codePoints "version", .string (codePoints "0.1.0"))])

/-- The answer of the router to a path with the wrong trailing slash. -/
def redirectResponse (url : String) : Response where
  status := 307
  headers := [("location", url)]
  content := .empty

section Endpoints

variable [CaseTables] [DatetimeParser]

/-- A route of the projects, for its caller. -/
def ofRoute (isLocal : Bool) (scope : Scope)
    (route : String → Action (Except Exn HttpResponse)) : Asgi (Except Raised Response) :=
  match currentUser isLocal scope with
  | .error raised => return .error raised
  | .ok ownerId => do
      match ← Asgi.ofAction (route ownerId) with
      | .error exn => return .error (.route exn)
      | .ok response => return .ok (render response [])

/-- The call of an endpoint with the arguments that were read for it. -/
def Endpoint.run (F : Framework) (isLocal : Bool) (scope : Scope) :
    (endpoint : Endpoint) → endpoint.Arguments → Asgi (Except Raised Response)
  | .health, _ => return .ok healthResponse
  | .createProject, body => ofRoute isLocal scope (ProjectsApi.createProject body.name body.type)
  | .listProjects, query => ofRoute isLocal scope fun ownerId =>
      ProjectsApi.listProjects ownerId query.limit query.nextToken
  | .getProject, projectId => ofRoute isLocal scope (ProjectsApi.getProject projectId)
  | .deleteProject, projectId => ofRoute isLocal scope (ProjectsApi.deleteProject projectId)
  | .openapi, _ =>
      match F.openapi with
      | .error text => return .error (.other text)
      | .ok document => return .ok (jsonResponse (.object document))
  | .docs, _ => return .ok htmlResponse
  | .oauth2Redirect, _ => return .ok htmlResponse

/-- The exception of a rejected request; arguments are checked after the dependencies. -/
def Rejection.raised (isLocal : Bool) (scope : Scope) (endpoint : Endpoint) : Rejection → Raised
  | .undecodable errors => .validation errors
  | .unreadable detail => .http 400 detail
  | .failed text => .other text
  | .invalid errors =>
      match currentUser isLocal scope with
      | .error raised => if endpoint.identified then raised else .validation errors
      | .ok _ => .validation errors

/-- A matched request: the framework reads the arguments, calls the endpoint and serialises
what it returns; it may fail before and after the call. -/
def callEndpoint (F : Framework) (isLocal : Bool) (scope : Scope) (endpoint : Endpoint) :
    Asgi (Except Raised Response) := do
  match ← Asgi.bind endpoint with
  | .error rejection => return .error (rejection.raised isLocal scope endpoint)
  | .ok arguments =>
      match ← endpoint.run F isLocal scope arguments with
      | .error raised => return .error raised
      | .ok response =>
          match ← Asgi.proceed with
          | some text => return .error (.other text)
          | none => return .ok response

/-- The router: a response, or an exception. -/
def router (F : Framework) (isLocal : Bool) (scope : Scope) : Asgi (Except Raised Response) :=
  match F.routing isLocal scope.method scope.path with
  | .endpoint endpoint => callEndpoint F isLocal scope endpoint
  | .methodNotAllowed => return .error (.http 405 "Method Not Allowed")
  | .redirect =>
      match F.redirectUrl scope with
      | .error text => return .error (.other text)
      | .ok url => return .ok (redirectResponse url)
  | .notFound => return .error (.http 404 "Not Found")

variable [RequestUrl]

/-- The exception handlers: the response of the registered handler replaces the exception, and so
does an exception of the handler, for which there is no other one. -/
def exceptionMiddleware (scope : Scope) (routed : Asgi (Except Raised Response)) : App := do
  match ← routed with
  | .ok response =>
      response.respond
      return .ok ()
  | .error raised =>
      match handler? scope raised with
      | none => return .error raised
      | some handler =>
          match ← handler with
          | .error raised' => return .error raised'
          | .ok response =>
              response.respond
              return .ok ()

/-- What the middleware wraps. -/
def routes (F : Framework) (isLocal : Bool) (scope : Scope) : App :=
  exceptionMiddleware scope (router F isLocal scope)

/-- `create_app` -/
def createApp (F : Framework) (isLocal : Bool) (scope : Scope) : App :=
  application F.serverError scope (routes F isLocal scope)

end Endpoints

/-! ## How an endpoint ends -/

/-- A status that a problem document can have. -/
def IsErrorStatus (status : Nat) : Prop := 400 ≤ status ∧ status ≤ 599

/-- The exceptions of `HTTPException` have an error status. -/
def Raised.HasErrorStatus : Raised → Prop
  | .http statusCode _ => IsErrorStatus statusCode
  | _ => True

/-- A successful response without a problem document or a request id, or an exception whose
status is an error. -/
def Regular : Except Raised Response → Prop
  | .ok response => 200 ≤ response.status ∧ response.status < 300 ∧
      requestIdKey ∉ response.headers.map Prod.fst ∧ ∀ members, response.content ≠ .problem members
  | .error raised => raised.HasErrorStatus

/-- The responses of the project routes. -/
def IsRouteResponse : Except Exn HttpResponse → Prop
  | .ok response => 200 ≤ response.status ∧ response.status < 300 ∧
      (∀ p, response.body ≠ .problem p) ∧ ∀ header ∈ response.headers, header.1 = "Location"
  | .error _ => True

theorem createProject_ends [CaseTables] (name : String) (type : ProjectType) (ownerId : String) :
    (ProjectsApi.createProject name type ownerId).Ends IsRouteResponse := by
  unfold ProjectsApi.createProject
  simp only [Program.perform_bind, Program.ends_call]
  intro now uuid
  refine Program.Ends.bind ((Program.ends_true _).mono fun created _ => ?_)
  cases created with
  | error exn => exact trivial
  | ok value =>
      intro _ _
      simp [IsRouteResponse]

theorem listProjects_ends [DatetimeParser] (ownerId : String) (limit : Nat)
    (nextToken : Option String) :
    (ProjectsApi.listProjects ownerId limit nextToken).Ends IsRouteResponse := by
  unfold ProjectsApi.listProjects
  cases decodeNextToken nextToken ownerId with
  | error exn => exact trivial
  | ok cursor =>
      refine Program.Ends.bind ((Program.ends_true _).mono fun listed _ => ?_)
      cases listed with
      | error exn => exact trivial
      | ok page =>
          intro _
          dsimp only
          cases encodeLastKey page.2 with
          | none => exact trivial
          | some token => simp [IsRouteResponse]

theorem getProject_ends [DatetimeParser] (projectId ownerId : String) :
    (ProjectsApi.getProject projectId ownerId).Ends IsRouteResponse := by
  unfold ProjectsApi.getProject
  split_ifs
  · exact trivial
  · refine Program.Ends.bind ((Program.ends_true _).mono fun found _ => ?_)
    cases found with
    | error exn => exact trivial
    | ok project =>
        dsimp only
        split_ifs
        · exact trivial
        · simp [IsRouteResponse]

theorem deleteProject_ends [CaseTables] [DatetimeParser] (projectId ownerId : String) :
    (ProjectsApi.deleteProject projectId ownerId).Ends IsRouteResponse := by
  unfold ProjectsApi.deleteProject
  split_ifs
  · exact trivial
  · refine Program.Ends.bind ((Program.ends_true _).mono fun deleted _ => ?_)
    cases deleted with
    | error exn => exact trivial
    | ok value =>
        intro _ _
        simp [IsRouteResponse]

theorem render_regular {response : HttpResponse} (h : IsRouteResponse (.ok response)) :
    Regular (.ok (render response [])) := by
  obtain ⟨hge, hlt, hbody, hheaders⟩ := h
  have hlocation : "Location".toLower ≠ requestIdKey := by decide +kernel
  refine ⟨hge, hlt, ?_, ?_⟩
  · intro hmem
    rw [render, List.map_append, List.mem_append] at hmem
    rcases hmem with hmem | hmem
    · obtain ⟨header, hheader, hkey⟩ := List.mem_map.mp (List.map_map ▸ hmem)
      change header.1.toLower = requestIdKey at hkey
      rw [hheaders header hheader] at hkey
      exact hlocation hkey
    · cases hbodyCase : response.body <;> simp [contentType, hbodyCase, requestIdKey] at hmem
  · intro members hcontent
    cases hbodyCase : response.body with
    | problem p => exact hbody p hbodyCase
    | empty => simp [render, hbodyCase] at hcontent
    | project project => simp [render, hbodyCase] at hcontent
    | page items nextToken => simp [render, hbodyCase] at hcontent

theorem currentUser_hasErrorStatus {isLocal : Bool} {scope : Scope} {raised : Raised}
    (h : currentUser isLocal scope = .error raised) : raised.HasErrorStatus := by
  unfold currentUser at h
  split at h
  · cases h
  · split at h
    · cases h
    · cases h
      simp [Raised.HasErrorStatus, IsErrorStatus]

theorem ofRoute_ends (isLocal : Bool) (scope : Scope)
    {route : String → Action (Except Exn HttpResponse)}
    (hroute : ∀ ownerId, (route ownerId).Ends IsRouteResponse) :
    (ofRoute isLocal scope route).Ends Regular := by
  unfold ofRoute
  cases huser : currentUser isLocal scope with
  | error raised => exact currentUser_hasErrorStatus huser
  | ok ownerId =>
      refine Program.Ends.bind ((hroute ownerId).embed.mono fun ended hended => ?_)
      cases ended with
      | error exn => exact trivial
      | ok response => exact render_regular hended

theorem run_ends [CaseTables] [DatetimeParser] (F : Framework) (isLocal : Bool) (scope : Scope)
    (endpoint : Endpoint) (arguments : endpoint.Arguments) :
    (endpoint.run F isLocal scope arguments).Ends Regular := by
  cases endpoint with
  | health => simp [Endpoint.run, healthResponse, jsonResponse, Regular, requestIdKey]
  | createProject => exact ofRoute_ends isLocal scope (createProject_ends _ _)
  | listProjects => exact ofRoute_ends isLocal scope fun _ => listProjects_ends _ _ _
  | getProject => exact ofRoute_ends isLocal scope (getProject_ends _)
  | deleteProject => exact ofRoute_ends isLocal scope (deleteProject_ends _)
  | openapi =>
      unfold Endpoint.run
      cases F.openapi with
      | error text => exact trivial
      | ok document => simp [jsonResponse, Regular, requestIdKey]
  | docs => simp [Endpoint.run, htmlResponse, Regular, requestIdKey]
  | oauth2Redirect => simp [Endpoint.run, htmlResponse, Regular, requestIdKey]

theorem Rejection.raised_hasErrorStatus (isLocal : Bool) (scope : Scope) (endpoint : Endpoint)
    (rejection : Rejection) : (rejection.raised isLocal scope endpoint).HasErrorStatus := by
  cases rejection with
  | undecodable errors => exact trivial
  | unreadable detail => simp [raised, Raised.HasErrorStatus, IsErrorStatus]
  | failed text => exact trivial
  | invalid errors =>
      unfold raised
      cases huser : currentUser isLocal scope with
      | ok ownerId => exact trivial
      | error e =>
          dsimp only
          split_ifs
          · exact currentUser_hasErrorStatus huser
          · exact trivial

/-- Unless the router redirects, it answers with success or raises an error. -/
theorem router_ends [CaseTables] [DatetimeParser] {F : Framework} {isLocal : Bool} {scope : Scope}
    (h : ¬ Redirected F isLocal scope) : (router F isLocal scope).Ends Regular := by
  unfold router
  cases hrouting : F.routing isLocal scope.method scope.path with
  | redirect =>
      dsimp only
      cases hurl : F.redirectUrl scope with
      | error text => exact trivial
      | ok url => exact absurd ⟨(routing_eq_redirect_iff ..).mp hrouting, url, hurl⟩ h
  | methodNotAllowed => simp [Regular, Raised.HasErrorStatus, IsErrorStatus]
  | notFound => simp [Regular, Raised.HasErrorStatus, IsErrorStatus]
  | endpoint endpoint =>
      simp only [callEndpoint, Program.perform_bind, Program.ends_call]
      intro bound
      cases bound with
      | error rejection => exact rejection.raised_hasErrorStatus isLocal scope endpoint
      | ok arguments =>
          refine Program.Ends.bind ((run_ends F isLocal scope endpoint arguments).mono ?_)
          intro ended hended
          cases ended with
          | error raised => exact hended
          | ok response =>
              intro proceeded
              cases proceeded with
              | some text => exact trivial
              | none => exact hended

theorem router_redirected [CaseTables] [DatetimeParser] {F : Framework} {isLocal : Bool}
    {scope : Scope} (h : Redirected F isLocal scope) :
    ∃ url, router F isLocal scope = .done (.ok (redirectResponse url)) := by
  obtain ⟨hslash, url, hurl⟩ := h
  refine ⟨url, ?_⟩
  rw [router, (routing_eq_redirect_iff F isLocal scope.method scope.path).mpr hslash]
  dsimp only
  rw [hurl]
  rfl

/-- No response of the router sets a request id or is a problem document. -/
theorem router_plain [CaseTables] [DatetimeParser] (F : Framework) (isLocal : Bool)
    (scope : Scope) :
    (router F isLocal scope).Ends fun ended => ∀ response, ended = .ok response →
      requestIdKey ∉ response.headers.map Prod.fst ∧
        ∀ members, response.content ≠ .problem members := by
  by_cases hredirected : Redirected F isLocal scope
  · obtain ⟨url, hrouter⟩ := router_redirected hredirected
    rw [hrouter, Program.ends_done]
    intro response hresponse
    obtain rfl := (Except.ok.inj hresponse).symm
    refine ⟨by simp [redirectResponse, requestIdKey], ?_⟩
    intro members hcontent
    cases hcontent
  · refine (router_ends hredirected).mono ?_
    intro ended hregular response hresponse
    subst hresponse
    exact hregular.2.2

/-! ## What the routes do besides -/

/-- An operation of the service that logs no completed request. -/
def LogsNoRequest : Op → Prop
  | .log entry => entry.message ≠ "request completed"
  | _ => True

/-- An operation that sends nothing and logs no completed request. -/
def Unseen : AsgiOp → Prop
  | .send _ => False
  | .effect op => LogsNoRequest op
  | _ => True

theorem create_logs [CaseTables] (project : Project) :
    (ProjectRepository.create project).AllOps LogsNoRequest := by
  refine ⟨trivial, fun answer => ?_⟩
  cases answer <;> trivial

theorem get_logs [DatetimeParser] (projectId : String) :
    (ProjectRepository.get projectId).AllOps LogsNoRequest := by
  refine ⟨trivial, fun answer => ?_⟩
  rcases answer with _ | _ | item
  · trivial
  · trivial
  · simp only [Program.bind_done]
    split_ifs <;> trivial

theorem listByOwner_logs [DatetimeParser] (ownerId : String) (limit : Nat)
    (cursor : Option CursorKey) :
    (ProjectRepository.listByOwner ownerId limit cursor).AllOps LogsNoRequest := by
  refine ⟨trivial, fun answer => ?_⟩
  cases answer with
  | error e =>
      simp only [Program.bind_done]
      split_ifs <;> trivial
  | ok output => trivial

theorem delete_logs [CaseTables] [DatetimeParser] (projectId ownerId : String) :
    (ProjectRepository.delete projectId ownerId).AllOps LogsNoRequest := by
  refine (get_logs projectId).bind fun found => ?_
  cases found with
  | error exn => trivial
  | ok project =>
      dsimp only
      split_ifs
      · trivial
      · refine ⟨trivial, fun answer => ?_⟩
        cases answer with
        | ok value => trivial
        | error e =>
            simp only [Program.bind_done, ProjectRepository.deleteError]
            split_ifs
            · trivial
            · exact ⟨by simp [LogsNoRequest, ProjectRepository.mismatchEntry], fun _ => trivial⟩
            · trivial
            · trivial

theorem createProject_logs [CaseTables] (name : String) (type : ProjectType) (ownerId : String) :
    (ProjectsApi.createProject name type ownerId).AllOps LogsNoRequest := by
  refine ⟨trivial, fun now => ⟨trivial, fun uuid => ?_⟩⟩
  refine (create_logs _).bind fun created => ?_
  cases created with
  | error exn => trivial
  | ok value => exact ⟨trivial, fun _ => ⟨by simp [LogsNoRequest], fun _ => trivial⟩⟩

theorem listProjects_logs [DatetimeParser] (ownerId : String) (limit : Nat)
    (nextToken : Option String) :
    (ProjectsApi.listProjects ownerId limit nextToken).AllOps LogsNoRequest := by
  unfold ProjectsApi.listProjects
  cases decodeNextToken nextToken ownerId with
  | error exn => trivial
  | ok cursor =>
      refine (listByOwner_logs ownerId limit cursor).bind fun listed => ?_
      cases listed with
      | error exn => trivial
      | ok page =>
          refine ⟨by simp [LogsNoRequest], fun _ => ?_⟩
          simp only [Program.bind_done]
          cases encodeLastKey page.2 <;> trivial

theorem getProject_logs [DatetimeParser] (projectId ownerId : String) :
    (ProjectsApi.getProject projectId ownerId).AllOps LogsNoRequest := by
  unfold ProjectsApi.getProject
  split_ifs
  · trivial
  · refine (get_logs projectId).bind fun found => ?_
    cases found with
    | error exn => trivial
    | ok project =>
        dsimp only
        split_ifs <;> trivial

theorem deleteProject_logs [CaseTables] [DatetimeParser] (projectId ownerId : String) :
    (ProjectsApi.deleteProject projectId ownerId).AllOps LogsNoRequest := by
  unfold ProjectsApi.deleteProject
  split_ifs
  · trivial
  · refine (delete_logs projectId ownerId).bind fun deleted => ?_
    cases deleted with
    | error exn => trivial
    | ok value => exact ⟨trivial, fun _ => ⟨by simp [LogsNoRequest], fun _ => trivial⟩⟩

theorem ofRoute_allOps {P : AsgiOp → Prop} (hP : ∀ op, LogsNoRequest op → P (.effect op))
    (isLocal : Bool) (scope : Scope) {route : String → Action (Except Exn HttpResponse)}
    (hroute : ∀ ownerId, (route ownerId).AllOps LogsNoRequest) :
    (ofRoute isLocal scope route).AllOps P := by
  unfold ofRoute
  cases currentUser isLocal scope with
  | error raised => trivial
  | ok ownerId =>
      have hembedded : (Asgi.ofAction (route ownerId)).AllOps P :=
        Program.AllOps.embed hP (hroute ownerId)
      refine hembedded.bind fun ended => ?_
      cases ended <;> trivial

/-- An endpoint only calls the service. -/
theorem run_allOps [CaseTables] [DatetimeParser] {P : AsgiOp → Prop}
    (hP : ∀ op, LogsNoRequest op → P (.effect op)) (F : Framework) (isLocal : Bool)
    (scope : Scope) (endpoint : Endpoint) (arguments : endpoint.Arguments) :
    (endpoint.run F isLocal scope arguments).AllOps P := by
  cases endpoint with
  | health => trivial
  | createProject => exact ofRoute_allOps hP isLocal scope (createProject_logs _ _)
  | listProjects => exact ofRoute_allOps hP isLocal scope fun _ => listProjects_logs _ _ _
  | getProject => exact ofRoute_allOps hP isLocal scope (getProject_logs _)
  | deleteProject => exact ofRoute_allOps hP isLocal scope (deleteProject_logs _)
  | openapi =>
      unfold Endpoint.run
      cases F.openapi <;> trivial
  | docs => trivial
  | oauth2Redirect => trivial

/-- The router itself sends nothing. -/
theorem router_unseen [CaseTables] [DatetimeParser] (F : Framework) (isLocal : Bool)
    (scope : Scope) : (router F isLocal scope).AllOps Unseen := by
  unfold router
  cases F.routing isLocal scope.method scope.path with
  | redirect =>
      dsimp only
      cases F.redirectUrl scope <;> trivial
  | methodNotAllowed => trivial
  | notFound => trivial
  | endpoint endpoint =>
      refine ⟨trivial, fun bound => ?_⟩
      cases bound with
      | error rejection => trivial
      | ok arguments =>
          have hrun : (endpoint.run F isLocal scope arguments).AllOps Unseen :=
            run_allOps (fun _ hop => hop) F isLocal scope endpoint arguments
          refine hrun.bind fun ended => ?_
          cases ended with
          | error raised => trivial
          | ok response =>
              refine ⟨trivial, fun proceeded => ?_⟩
              cases proceeded <;> trivial

/-- A handler asks for the request id and counts. -/
def HandlerOp : AsgiOp → Prop
  | .requestId => True
  | .effect (.addMetric _) => True
  | _ => False

theorem handler_allOps [RequestUrl] {scope : Scope} {raised : Raised}
    {handler : Asgi (Except Raised Response)} (hhandler : handler? scope raised = some handler) :
    handler.AllOps HandlerOp := by
  cases raised with
  | route exn =>
      cases exn <;> simp only [handler?, Option.some.injEq, reduceCtorEq] at hhandler
      all_goals subst hhandler
      · exact ⟨trivial, fun _ => problem_allOps trivial ..⟩
      · exact problem_allOps trivial ..
      · exact problem_allOps trivial ..
  | validation errors =>
      obtain rfl := Option.some.inj hhandler
      exact problem_allOps trivial ..
  | http statusCode detail =>
      obtain rfl := Option.some.inj hhandler
      exact problem_allOps trivial ..
  | other text => cases hhandler

theorem HandlerOp.unseen {op : AsgiOp} (h : HandlerOp op) : Unseen op := by
  match op, h with
  | .requestId, _ => trivial
  | .effect (.addMetric name), _ => trivial

/-- An operation of the handlers: it reads no arguments and logs no completed request. -/
def AsgiOp.Plain : AsgiOp → Prop
  | .bind _ => False
  | .effect op => LogsNoRequest op
  | _ => True

theorem HandlerOp.plain {op : AsgiOp} (h : HandlerOp op) : op.Plain := by
  match op, h with
  | .requestId, _ => trivial
  | .effect (.addMetric name), _ => trivial

theorem respond_plain (response : Response) : response.respond.AllOps AsgiOp.Plain :=
  ⟨trivial, fun _ => ⟨trivial, fun _ => trivial⟩⟩

/-! ## Runs of the routes -/

theorem sends_eq_nil {ops : List ((op : AsgiOp) × op.Ans)} (h : ∀ x ∈ ops, Unseen x.1) :
    sends ops = [] := by
  rw [sends, List.filterMap_eq_nil_iff]
  intro x hx
  obtain ⟨op, answer⟩ := x
  cases op with
  | send message => exact absurd (h _ hx) id
  | _ => rfl

theorem sends_append (first second : List ((op : AsgiOp) × op.Ans)) :
    sends (first ++ second) = sends first ++ sends second := List.filterMap_append

/-! ## Answers to exceptions -/

/-- The response to rejected arguments. -/
def validationResponse (path : String) (errors : List FieldError) (rid : RequestId) : Response :=
  problemOf path 400 "Invalid request" "One or more fields failed validation." "validation"
    [(codePoints "errors", .array (errors.map fieldProblem))] rid

/-- The response to an exception: the problem of its handler, or the one of `_unhandled`. -/
def Raised.answer (path : String) (rid : RequestId) : Raised → Response
  | .validation errors => validationResponse path errors rid
  | .http statusCode detail =>
      problemOf path statusCode (titleOf statusCode) detail ("http-" ++ toString statusCode) [] rid
  | .route .invalidCursor =>
      problemOf path 400 "Invalid request" Exn.invalidCursor.text "invalid-cursor" [] rid
  | .route (.projectNameTaken name) =>
      problemOf path 409 "Project name already exists" (Exn.projectNameTaken name).text
        "project-name-taken" [] rid
  | .route (.projectNotFound projectId) =>
      problemOf path 404 "Project not found" (Exn.projectNotFound projectId).text
        "project-not-found" [] rid
  | .route _ => unhandledResponse path rid
  | .other _ => unhandledResponse path rid

/-- The status of the response to an exception. -/
def Raised.status : Raised → Nat
  | .validation _ => 400
  | .http statusCode _ => statusCode
  | .route .invalidCursor => 400
  | .route (.projectNameTaken _) => 409
  | .route (.projectNotFound _) => 404
  | .route _ => 500
  | .other _ => 500

/-- The further members of a problem: none, or the list of failing fields. -/
def IsProblemExtra (extra : Members) : Prop :=
  extra = [] ∨ ∃ errors : List FieldError,
    extra = [(codePoints "errors", .array (errors.map fieldProblem))]

/-- Every answer is a problem with the status of the exception. -/
theorem Raised.exists_answer_eq (raised : Raised) :
    ∃ title detail problemType extra, IsProblemExtra extra ∧ ∀ path rid,
      raised.answer path rid =
        problemOf path raised.status title detail problemType extra rid := by
  cases raised with
  | validation errors => exact ⟨_, _, _, _, Or.inr ⟨errors, rfl⟩, fun path rid => rfl⟩
  | http statusCode detail => exact ⟨_, _, _, _, Or.inl rfl, fun path rid => rfl⟩
  | route exn => cases exn <;> exact ⟨_, _, _, _, Or.inl rfl, fun path rid => rfl⟩
  | other text => exact ⟨_, _, _, _, Or.inl rfl, fun path rid => rfl⟩

section Runs

variable [RequestUrl] {svc : Service} {scope : Scope}

/-- An exception without a handler is answered by `_unhandled`. -/
theorem answer_of_unhandled {raised : Raised} (h : handler? scope raised = none) (path : String)
    (rid : RequestId) : raised.answer path rid = unhandledResponse path rid := by
  cases raised with
  | route exn => cases exn <;> first | rfl | cases h
  | validation errors => cases h
  | http statusCode detail => cases h
  | other text => rfl

/-- A registered handler answers, if the URL can be read. -/
theorem traced_handler {raised : Raised} {handler : Asgi (Except Raised Response)}
    (hhandler : handler? scope raised = some handler) {w w' : World}
    {ops : List ((op : AsgiOp) × op.Ans)} {ended : Except Raised Response}
    (h : handler.Traced (Exec svc scope) w ops ended w') :
    (∃ path rid, scope.urlPath = .ok path ∧ ⟨.requestId, rid⟩ ∈ ops ∧
        ended = .ok (raised.answer path rid)) ∨
      ∃ text, scope.urlPath = .error text ∧ ended = .error (.other text) := by
  -- the metric of a taken name comes before its problem
  have hproblem : ∃ ops' w₁, (∀ x ∈ ops', x ∈ ops) ∧
      ∃ statusCode title detail problemType extra,
        (problem scope statusCode title detail problemType extra).Traced (Exec svc scope) w₁ ops'
          ended w' ∧
        ∀ path rid, raised.answer path rid =
          problemOf path statusCode title detail problemType extra rid := by
    cases raised with
    | route exn =>
        cases exn <;> simp only [handler?, Option.some.injEq, reduceCtorEq] at hhandler
        all_goals subst hhandler
        · obtain ⟨answer, w₁, rest, rfl, -, hproblem⟩ := Program.traced_call_iff.mp h
          exact ⟨rest, w₁, fun x hx => List.mem_cons_of_mem _ hx, _, _, _, _, _, hproblem,
            fun _ _ => rfl⟩
        · exact ⟨ops, w, fun x hx => hx, _, _, _, _, _, h, fun _ _ => rfl⟩
        · exact ⟨ops, w, fun x hx => hx, _, _, _, _, _, h, fun _ _ => rfl⟩
    | validation errors =>
        obtain rfl := Option.some.inj hhandler
        exact ⟨ops, w, fun x hx => hx, _, _, _, _, _, h, fun _ _ => rfl⟩
    | http statusCode detail =>
        obtain rfl := Option.some.inj hhandler
        exact ⟨ops, w, fun x hx => hx, _, _, _, _, _, h, fun _ _ => rfl⟩
    | other text => cases hhandler
  obtain ⟨ops', w₁, hops, statusCode, title, detail, problemType, extra, hrun, hanswer⟩ := hproblem
  obtain ⟨path, rid, hurl, rfl, rfl, -⟩ | ⟨text, hurl, -, rfl, -⟩ := traced_problem hrun
  · exact Or.inl ⟨path, rid, hurl, hops _ List.mem_cons_self, by rw [hanswer]⟩
  · exact Or.inr ⟨text, hurl, rfl⟩

/-- How the handlers end, by the result of the router: with its response, with the answer to its
exception, with the exception, or with another one. -/
inductive RoutesEnd (scope : Scope) (ops : List ((op : AsgiOp) × op.Ans)) :
    Except Raised Response → Except Raised Unit → Prop where
  | responded {response : Response} (hsends : sends ops = response.messages) :
      RoutesEnd scope ops (.ok response) (.ok ())
  | handled {raised : Raised} {path : String} {rid : RequestId} (hurl : scope.urlPath = .ok path)
      (hrid : ⟨.requestId, rid⟩ ∈ ops) (hsends : sends ops = (raised.answer path rid).messages) :
      RoutesEnd scope ops (.error raised) (.ok ())
  | raised {raised : Raised} (hhandler : handler? scope raised = none) (hsends : sends ops = []) :
      RoutesEnd scope ops (.error raised) (.error raised)
  | unanswered {raised : Raised} {text : String} (hurl : scope.urlPath = .error text)
      (hsends : sends ops = []) : RoutesEnd scope ops (.error raised) (.error (.other text))

/-- Operations that send nothing do not count. -/
theorem RoutesEnd.append {first second : List ((op : AsgiOp) × op.Ans)}
    {routed : Except Raised Response} {result : Except Raised Unit} (hfirst : sends first = [])
    (h : RoutesEnd scope second routed result) :
    RoutesEnd scope (first ++ second) routed result := by
  have hsends : sends (first ++ second) = sends second := by
    rw [sends_append, hfirst, List.nil_append]
  cases h with
  | responded h => exact .responded (hsends.trans h)
  | handled hurl hrid h => exact .handled hurl (List.mem_append_right _ hrid) (hsends.trans h)
  | raised hhandler h => exact .raised hhandler (hsends.trans h)
  | unanswered hurl h => exact .unanswered hurl (hsends.trans h)

/-- What the handlers make of the result of the router. -/
theorem traced_exceptionMiddleware {routed : Except Raised Response} {w w' : World}
    {ops : List ((op : AsgiOp) × op.Ans)} {result : Except Raised Unit}
    (h : (exceptionMiddleware scope (.done routed)).Traced (Exec svc scope) w ops result w') :
    RoutesEnd scope ops routed result ∧ ∀ x ∈ ops, x.1.Plain := by
  simp only [exceptionMiddleware, Program.done_bind] at h
  cases routed with
  | ok response =>
      obtain ⟨value, w₁, first, last, rfl, hrespond, hdone⟩ := Program.traced_bind_iff.mp h
      obtain ⟨rfl, rfl, rfl⟩ := Program.traced_done_iff.mp hdone
      obtain ⟨hsends, -⟩ := Response.traced_respond hrespond
      rw [List.append_nil]
      exact ⟨.responded hsends, (respond_plain response).of_traced hrespond⟩
  | error raised =>
      cases hhandler : handler? scope raised with
      | none =>
          simp only [hhandler] at h
          obtain ⟨rfl, rfl, rfl⟩ := Program.traced_done_iff.mp h
          exact ⟨.raised hhandler rfl, by simp⟩
      | some handler =>
          simp only [hhandler] at h
          obtain ⟨ended, w₁, first, second, rfl, hhandled, hrest⟩ := Program.traced_bind_iff.mp h
          have hops := (handler_allOps hhandler).of_traced hhandled
          have hnone : sends first = [] := sends_eq_nil fun x hx => (hops x hx).unseen
          obtain ⟨path, rid, hurl, hrid, rfl⟩ | ⟨text, hurl, rfl⟩ :=
            traced_handler hhandler hhandled
          · obtain ⟨value, w₂, third, last, rfl, hrespond, hdone⟩ :=
              Program.traced_bind_iff.mp hrest
            obtain ⟨rfl, rfl, rfl⟩ := Program.traced_done_iff.mp hdone
            obtain ⟨hsends, -⟩ := Response.traced_respond hrespond
            rw [List.append_nil]
            refine ⟨.handled hurl (List.mem_append_left _ hrid) ?_, ?_⟩
            · rw [sends_append, hnone, hsends, List.nil_append]
            · intro x hx
              rcases List.mem_append.mp hx with hx | hx
              · exact (hops x hx).plain
              · exact (respond_plain _).of_traced hrespond x hx
          · obtain ⟨rfl, rfl, rfl⟩ := Program.traced_done_iff.mp hrest
            rw [List.append_nil]
            exact ⟨.unanswered hurl hnone, fun x hx => (hops x hx).plain⟩

variable [CaseTables] [DatetimeParser] {F : Framework} {isLocal : Bool}

/-- A run of the routes in terms of the run of the router. -/
theorem traced_routes {w w' : World} {ops : List ((op : AsgiOp) × op.Ans)}
    {result : Except Raised Unit}
    (h : (routes F isLocal scope).Traced (Exec svc scope) w ops result w') :
    ∃ routed first w₁, (router F isLocal scope).Traced (Exec svc scope) w first routed w₁ ∧
      RoutesEnd scope ops routed result ∧
      (∀ endpoint bound, ⟨.bind endpoint, bound⟩ ∈ ops → ⟨.bind endpoint, bound⟩ ∈ first) ∧
      ∀ entry, ⟨.effect (.log entry), ()⟩ ∈ ops → entry.message ≠ "request completed" := by
  obtain ⟨routed, w₁, first, second, rfl, hrouter, hrest⟩ := Program.traced_bind_iff.mp h
  have hunseen := (router_unseen F isLocal scope).of_traced hrouter
  obtain ⟨hend, hplain⟩ := traced_exceptionMiddleware hrest
  refine ⟨routed, first, w₁, hrouter, hend.append (sends_eq_nil hunseen), ?_, ?_⟩
  · intro endpoint bound hbind
    rcases List.mem_append.mp hbind with hbind | hbind
    · exact hbind
    · exact absurd (hplain _ hbind) id
  · intro entry hentry
    rcases List.mem_append.mp hentry with hentry | hentry
    · exact hunseen _ hentry
    · exact hplain _ hentry

/-- The routes are an application as the middleware expects it. -/
theorem wrappedApp_routes (F : Framework) (isLocal : Bool) (svc : Service) (scope : Scope) :
    WrappedApp svc scope (routes F isLocal scope) := by
  intro w w' ops result h
  obtain ⟨routed, first, w₁, hrouter, hend, -, hquiet⟩ := traced_routes h
  refine ⟨hquiet, ?_⟩
  cases hend with
  | @responded response hsends =>
      obtain ⟨hkey, hcontent⟩ := (router_plain F isLocal scope).of_traced hrouter response rfl
      refine Or.inr ⟨_, _, _, hsends, ?_, Or.inl ⟨hkey, ?_⟩⟩
      · intro m hm
        rw [List.mem_singleton.mp hm]
        exact id
      · intro members hmem
        exact hcontent members (Message.body.inj (List.mem_singleton.mp hmem)).symm
  | @handled raised path rid hurl hrid hsends =>
      obtain ⟨title, detail, problemType, extra, hextra, hanswer⟩ := raised.exists_answer_eq
      rw [hanswer] at hsends
      refine Or.inr ⟨_, _, _, hsends, ?_, Or.inr ⟨path, title, detail, problemType, extra, rid, ?_,
        hrid, rfl, ?_⟩⟩
      · intro m hm
        rw [List.mem_singleton.mp hm]
        exact id
      · rcases hextra with rfl | ⟨errors, rfl⟩ <;> rfl
      · intro members hmem
        exact (Message.body.inj (List.mem_singleton.mp hmem)).symm
  | raised hhandler hsends => exact Or.inl ⟨_, rfl, hsends⟩
  | unanswered hurl hsends => exact Or.inl ⟨_, rfl, hsends⟩

omit [CaseTables] [DatetimeParser] [RequestUrl] in
/-- Behind the middleware a problem stays as it is. -/
theorem map_withRequestId_answer (raised : Raised) (path : String) (rid rid' : RequestId) :
    (raised.answer path rid).messages.map (withRequestId rid') =
      (raised.answer path rid).messages := by
  obtain ⟨title, detail, problemType, extra, -, hanswer⟩ := raised.exists_answer_eq
  rw [hanswer]
  simp only [Response.messages, List.map_cons, List.map_nil, withRequestId, problemOf_headers]
  rfl

/-- What the client gets for the result of the router: an exception is answered if the URL of the
request can be read. -/
def Answers (scope : Scope) (rid : RequestId) (sent : List Message) :
    Except Raised Response → Prop
  | .ok response => sent = response.messages.map (withRequestId rid)
  | .error raised =>
      (∃ path rid', scope.urlPath = .ok path ∧ sent = (raised.answer path rid').messages) ∨
        (¬ scope.HasUrl ∧ sent = [])

/-- A request in terms of the run of its router. -/
theorem traced_createApp (hhttp : scope.type = .http) {t : Table} {w : World}
    {ops : List ((op : AsgiOp) × op.Ans)} {result : Except Raised Unit}
    (h : (createApp F isLocal scope).Traced (Exec svc scope) (World.fresh t) ops result w) :
    ∃ routed rid w₁ w₂ first, Answers scope rid w.sent routed ∧
      (router F isLocal scope).Traced (Exec svc scope) w₁ first routed w₂ ∧
      ∀ endpoint bound, ⟨.bind endpoint, bound⟩ ∈ ops → ⟨.bind endpoint, bound⟩ ∈ first := by
  obtain ⟨uuid, route, inner, ended, w₁, after, hinner, -, hbinds, hdelivered, -⟩ :=
    traced_application hhttp F.serverError h
  obtain ⟨routed, first, w₂, hrouter, hend, hfirst, -⟩ := traced_routes hinner
  refine ⟨routed, resolve scope uuid, _, w₂, first, ?_, hrouter,
    fun endpoint bound hbind => hfirst endpoint bound (hbinds endpoint bound hbind)⟩
  -- an exception for which nothing was sent is answered outside, if at all
  have hnothing : ∀ {raised : Raised}, sends inner = [] → ended ≠ .ok () →
      (∀ path rid, scope.urlPath = .ok path →
        raised.answer path rid = unhandledResponse path rid) →
      Answers scope (resolve scope uuid) w.sent (.error raised) := by
    intro raised hsends hne hanswer
    generalize hgot : w.sent = sent at hdelivered
    rw [hsends] at hdelivered
    cases hdelivered with
    | passed hended =>
        rcases hended with hok | ⟨m, hm, -⟩
        · exact absurd hok hne
        · cases hm
    | @unhandled path _ hurl =>
        exact Or.inl ⟨path, resolve scope uuid, hurl, by rw [hanswer _ _ hurl]; rfl⟩
    | @unanswered text _ hurl =>
        exact Or.inr ⟨Scope.not_hasUrl_iff.mpr ⟨text, hurl⟩, rfl⟩
  -- what was sent without an exception is passed on
  have hpassed : ended = .ok () →
      w.sent = (sends inner).map (withRequestId (resolve scope uuid)) := by
    rintro rfl
    generalize hgot : w.sent = sent at hdelivered
    cases hdelivered with
    | passed => rfl
    | unhandled _ hraised => cases hraised
    | unanswered _ hraised => cases hraised
  cases hend with
  | responded hsends =>
      rw [hsends] at hpassed
      exact hpassed rfl
  | @handled raised path rid hurl hrid hsends =>
      rw [hsends, map_withRequestId_answer] at hpassed
      exact Or.inl ⟨path, rid, hurl, hpassed rfl⟩
  | raised hhandler hsends =>
      exact hnothing hsends (by simp) fun path rid _ => answer_of_unhandled hhandler path rid
  | @unanswered raised text hurl hsends =>
      refine hnothing hsends (by simp) fun path rid hpath => ?_
      rw [hurl] at hpath
      cases hpath

omit [RequestUrl] in
/-- The arguments of a matched request are read, and once. -/
theorem bind_once {endpoint : Endpoint}
    (hrouting : F.routing isLocal scope.method scope.path = .endpoint endpoint) {w w' : World}
    {ops : List ((op : AsgiOp) × op.Ans)} {routed : Except Raised Response}
    (h : (router F isLocal scope).Traced (Exec svc scope) w ops routed w') :
    ∃ bound, ∀ bound', ⟨.bind endpoint, bound'⟩ ∈ ops → bound' = bound := by
  rw [router, hrouting] at h
  obtain ⟨bound, w₁, rest, rfl, -, hrest⟩ := Program.traced_call_iff.mp h
  have hunbound : ∀ x ∈ rest, x.1.Unbound := by
    refine Program.AllOps.of_traced ?_ hrest
    cases bound with
    | error rejection => trivial
    | ok arguments =>
        have hrun : (endpoint.run F isLocal scope arguments).AllOps AsgiOp.Unbound :=
          run_allOps (fun _ _ => trivial) F isLocal scope endpoint arguments
        refine hrun.bind fun ended => ?_
        cases ended with
        | error raised => trivial
        | ok response =>
            refine ⟨trivial, fun proceeded => ?_⟩
            cases proceeded <;> trivial
  refine ⟨bound, fun bound' hmem => ?_⟩
  rcases List.mem_cons.mp hmem with heq | hmem
  · cases heq
    rfl
  · exact absurd (hunbound _ hmem) id

theorem exists_bind {endpoint : Endpoint} (hhttp : scope.type = .http)
    (hrouting : F.routing isLocal scope.method scope.path = .endpoint endpoint) {w w' : World}
    {ops : List ((op : AsgiOp) × op.Ans)} {result : Except Raised Unit}
    (h : (createApp F isLocal scope).Traced (Exec svc scope) w ops result w') :
    ∃ bound, ⟨.bind endpoint, bound⟩ ∈ ops := by
  have hmiddleware : ∀ {ops : List ((op : AsgiOp) × op.Ans)} {ended : Except Raised Unit}
      {w'' : World}, (requestContextMiddleware scope (routes F isLocal scope)).Traced
        (Exec svc scope) w ops ended w'' → ∃ bound, ⟨.bind endpoint, bound⟩ ∈ ops := by
    intro ops ended w'' hrun
    rw [requestContextMiddleware, if_neg (not_not.mpr hhttp), routes, router, hrouting] at hrun
    simp only [Program.perform_bind] at hrun
    obtain ⟨rid, w₁, rest, rfl, -, hrest⟩ := Program.traced_call_iff.mp hrun
    obtain ⟨ended, w₂, passed, last, rfl, hpassed, -⟩ := Program.traced_bind_iff.mp hrest
    obtain ⟨bound, w₃, rest', rfl, -, -⟩ := Program.traced_call_iff.mp hpassed
    exact ⟨bound, List.mem_cons_of_mem _ (List.mem_append_left _ List.mem_cons_self)⟩
  obtain ⟨hrun, -⟩ | ⟨raised, first, second, w₁, rfl, hrun, -⟩ :=
    F.serverError.traced_call_iff.mp h
  · exact hmiddleware hrun
  · obtain ⟨bound, hbound⟩ := hmiddleware hrun
    exact ⟨bound, List.mem_append_left _ hbound⟩

end Runs

/-! ## The schema of problems -/

section Main

variable [CaseTables] [DatetimeParser] [RequestUrl] {F : Framework} {isLocal : Bool}
  {svc : Service} {scope : Scope}

end Main

/-! ## A framework -/

/-- The paths of the routes; a project id is one segment. -/
def pathMatches : Endpoint → String → Bool
  | .health, path => path == "/health"
  | .createProject, path => path == "/v1/projects"
  | .listProjects, path => path == "/v1/projects"
  | .getProject, path => isProjectPath path
  | .deleteProject, path => isProjectPath path
  | .openapi, path => path == "/v1/openapi.json"
  | .docs, path => path == "/v1/docs"
  | .oauth2Redirect, path => path == "/docs/oauth2-redirect"
where
  isProjectPath (path : String) : Bool :=
    let segment := path.toList.drop "/v1/projects/".length
    "/v1/projects/".toList.isPrefixOf path.toList && !segment.isEmpty && !segment.contains '/'

/-- The path without its trailing slashes, or with one. -/
def slashVariant (path : String) : String :=
  if path.toList.getLast? = some '/' then String.ofList (path.toList.rdropWhile (· == '/'))
  else String.ofList (path.toList ++ ['/'])

def framework : Framework where
  pathMatches := pathMatches
  slashVariant := slashVariant
  redirectUrl scope :=
    match utf8Decode scope.address.query with
    | none => .error "invalid start byte"
    | some _ => .ok ("http://localhost:8000" ++ slashVariant scope.path)
  openapi := .error "not generated"
  serverError := serverErrorMiddleware

/-! ## Three requests -/

section Instance

open scoped Sample

end Instance

end ProjectsApi.Http
