import ProjectsApi.Http.Handlers

/-!
# One id and one log line per request

`RequestContextMiddleware` stands between the server and the routes, and the server-error
handler stands outside it.  Whatever the wrapped application does, the id that the middleware
resolves at first is the one the client, the problem body and the log get.
-/

namespace ProjectsApi.Http

open Foundation Foundation.Json Dynamo

/-! ## The middleware -/

/-- `MutableHeaders.setdefault` -/
def setDefault (headers : List (String × String)) (key value : String) :
    List (String × String) :=
  if headers.any (fun header => header.1 == key) then headers else headers ++ [(key, value)]

def requestIdKey : String := "x-request-id"

/-- What `send_with_request_id` sends for a message. -/
def withRequestId (rid : RequestId) : Message → Message
  | .start status headers => .start status (setDefault headers requestIdKey rid.text)
  | message => message

/-- `send_with_request_id`: its state is the variable `status`. -/
def sendWithRequestId (rid : RequestId) : Program.Wrapper AsgiOp AsgiOp.Ans Nat where
  op _
    | .send message => .send (withRequestId rid message)
    | op => op
  back _
    | .send _ => fun answer => answer
    | .requestId => fun answer => answer
    | .route => fun answer => answer
    | .bind _ => fun answer => answer
    | .proceed => fun answer => answer
    | .effect _ => fun answer => answer
  next status
    | .send (.start status' _) => status'
    | _ => status

/-- `_owner_id` -/
def ownerId? (scope : Scope) : LogValue :=
  match (scope.event.bind GatewayEvent.apiKeyId).filter (fun keyId => keyId ≠ "") with
  | some keyId => .str keyId
  | none => .none

/-- The log line of a request; its duration is left out. -/
def completedEntry (scope : Scope) (route : Option String) (status : Nat) (rid : RequestId) :
    LogEntry where
  level := .info
  message := "request completed"
  fields :=
    [("route", .str ((route.filter (fun pathFormat => pathFormat ≠ "")).getD scope.path)),
      ("method", .str scope.method), ("status", .int status), ("owner_id", ownerId? scope),
      ("request_id", .str rid.text)]

/-- `RequestContextMiddleware.__call__` -/
def requestContextMiddleware (scope : Scope) (app : App) : App :=
  if scope.type ≠ .http then app
  else do
    let rid ← Asgi.requestId
    let (status, result) ← app.wrap (sendWithRequestId rid) 500
    let route ← Asgi.route
    Asgi.log (completedEntry scope route status rid)
    return result

/-! ## The server-error handler -/

/-- The messages that a run sent, in order. -/
def sends (ops : List ((op : AsgiOp) × op.Ans)) : List Message :=
  ops.filterMap fun
    | ⟨.send message, _⟩ => some message
    | _ => none

/-- A response was started. -/
def Started (messages : List Message) : Prop := ∃ m ∈ messages, m.IsStart

/-- The response of a handler is sent, and the exception is raised again; an exception of the
handler takes its place. -/
def answerWith (handler : Raised → Asgi (Except Raised Response)) (raised : Raised) : App := do
  match ← handler raised with
  | .error raised' => return .error raised'
  | .ok response =>
      response.respond
      return .error raised

/-- The outermost handler, as Starlette documents it: an exception that comes before a response
was started is answered by the handler, and every exception is raised again. -/
structure ServerErrorMiddleware where
  call : (handler : Raised → Asgi (Except Raised Response)) → App → App
  traced_call_iff : ∀ {svc : Service} {scope : Scope}
    {handler : Raised → Asgi (Except Raised Response)} {app : App} {w w' : World}
    {ops : List ((op : AsgiOp) × op.Ans)} {result : Except Raised Unit},
    (call handler app).Traced (Exec svc scope) w ops result w' ↔
      (app.Traced (Exec svc scope) w ops result w' ∧ (result = .ok () ∨ Started (sends ops))) ∨
      ∃ raised first second w₁, ops = first ++ second ∧
        app.Traced (Exec svc scope) w first (.error raised) w₁ ∧ ¬ Started (sends first) ∧
        (answerWith handler raised).Traced (Exec svc scope) w₁ second result w'

/-- The application as the server calls it. -/
def application [RequestUrl] (outer : ServerErrorMiddleware) (scope : Scope) (app : App) : App :=
  outer.call (fun _ => unhandled scope) (requestContextMiddleware scope app)

/-! ## A server-error handler -/

/-- `http.response.start` is sent. -/
def AsgiOp.starts : AsgiOp → Bool
  | .send message => decide message.IsStart
  | _ => false

/-- A handler that remembers whether a response was started. -/
def answerErrors (handler : Raised → Asgi (Except Raised Response)) :
    (started : Bool) → App → App
  | _, .done (.ok ()) => .done (.ok ())
  | true, .done (.error raised) => .done (.error raised)
  | false, .done (.error raised) => answerWith handler raised
  | started, .call op next =>
      .call op fun answer => answerErrors handler (started || op.starts) (next answer)

theorem started_sends_cons {op : AsgiOp} {answer : op.Ans}
    {ops : List ((op : AsgiOp) × op.Ans)} :
    Started (sends (⟨op, answer⟩ :: ops)) ↔ op.starts = true ∨ Started (sends ops) := by
  cases op with
  | send message => simp [sends, Started, AsgiOp.starts]
  | _ => simp [sends, Started, AsgiOp.starts]

theorem traced_answerErrors_iff {svc : Service} {scope : Scope}
    {handler : Raised → Asgi (Except Raised Response)} {app : App} {started : Bool}
    {w w' : World} {ops : List ((op : AsgiOp) × op.Ans)} {result : Except Raised Unit} :
    (answerErrors handler started app).Traced (Exec svc scope) w ops result w' ↔
      (app.Traced (Exec svc scope) w ops result w' ∧
        (result = .ok () ∨ started = true ∨ Started (sends ops))) ∨
      ∃ raised first second w₁, ops = first ++ second ∧
        app.Traced (Exec svc scope) w first (.error raised) w₁ ∧
        (started = false ∧ ¬ Started (sends first)) ∧
        (answerWith handler raised).Traced (Exec svc scope) w₁ second result w' := by
  have hnone : ¬ Started (sends []) := by simp [Started, sends]
  -- on the program of the application; `started` is what the wrapper knows at each of its steps
  induction app generalizing started w ops with
  | done value =>
      match value, started with
      | .ok (), _ =>
          simp only [answerErrors, Program.traced_done_iff]
          constructor
          · intro h
            exact Or.inl ⟨h, Or.inl h.2.1⟩
          · intro h
            obtain ⟨h, -⟩ | ⟨raised, first, second, w₁, -, ⟨-, hraised, -⟩, -⟩ := h
            · exact h
            · cases hraised
      | .error raised, true =>
          simp only [answerErrors, Program.traced_done_iff]
          constructor
          · intro h
            exact Or.inl ⟨h, Or.inr (Or.inl trivial)⟩
          · intro h
            obtain ⟨h, -⟩ | ⟨raised', first, second, w₁, -, -, ⟨hfalse, -⟩, -⟩ := h
            · exact h
            · cases hfalse
      -- the one case in which the handler runs
      | .error raised, false =>
          simp only [answerErrors, Program.traced_done_iff]
          constructor
          · intro h
            exact Or.inr ⟨raised, [], ops, w, rfl, ⟨rfl, rfl, rfl⟩, ⟨trivial, hnone⟩, h⟩
          · intro h
            obtain ⟨⟨rfl, rfl, rfl⟩, hok | hfalse | hstarted⟩ |
              ⟨raised', first, second, w₁, rfl, ⟨rfl, heq, rfl⟩, -, hhandler⟩ := h
            · cases hok
            · cases hfalse
            · exact absurd hstarted hnone
            · cases heq
              exact hhandler
  | call op next ih =>
      simp only [answerErrors, Program.traced_call_iff]
      constructor
      · intro h
        obtain ⟨answer, w₁, rest, rfl, hexec, hnext⟩ := h
        obtain ⟨hrun, hended⟩ | ⟨raised, first, second, w₂, rfl, hrun, hnot, hhandler⟩ :=
          (ih answer).mp hnext
        · refine Or.inl ⟨⟨answer, w₁, rest, rfl, hexec, hrun⟩, ?_⟩
          rw [started_sends_cons]
          rw [Bool.or_eq_true] at hended
          tauto
        · refine Or.inr ⟨raised, ⟨op, answer⟩ :: first, second, w₂, rfl,
            ⟨answer, w₁, first, rfl, hexec, hrun⟩, ?_, hhandler⟩
          rw [started_sends_cons]
          rw [Bool.or_eq_false_iff] at hnot
          simp [hnot.1.1, hnot.1.2, hnot.2]
      · intro h
        obtain ⟨⟨answer, w₁, rest, rfl, hexec, hrun⟩, hended⟩ |
          ⟨raised, first, second, w₂, rfl, ⟨answer, w₁, rest, rfl, hexec, hrun⟩, hnot,
            hhandler⟩ := h
        · refine ⟨answer, w₁, rest, rfl, hexec, (ih answer).mpr (Or.inl ⟨hrun, ?_⟩)⟩
          rw [started_sends_cons] at hended
          rw [Bool.or_eq_true]
          tauto
        · refine ⟨answer, w₁, rest ++ second, rfl, hexec,
            (ih answer).mpr (Or.inr ⟨raised, rest, second, w₂, rfl, hrun, ?_, hhandler⟩)⟩
          rw [started_sends_cons] at hnot
          rw [Bool.or_eq_false_iff]
          simp only [not_or, Bool.not_eq_true] at hnot
          exact ⟨⟨hnot.1, hnot.2.1⟩, hnot.2.2⟩

def serverErrorMiddleware : ServerErrorMiddleware where
  call handler app := answerErrors handler false app
  traced_call_iff := by
    intro svc scope handler app w w' ops result
    rw [traced_answerErrors_iff]
    simp

/-! ## Runs behind the middleware -/

section Run

variable {svc : Service} {scope : Scope} {α : Type}

theorem traced_sent {p : Asgi α} {w w' : World} {value : α}
    {ops : List ((op : AsgiOp) × op.Ans)} (h : p.Traced (Exec svc scope) w ops value w') :
    w'.sent = w.sent ++ sends ops := by
  induction h with
  | done w value => simp [sends]
  | call hexec hnext ih =>
      rw [ih]
      cases hexec <;> simp [sends]

/-- The status of the last response started, 500 before the first. -/
def lastStatus (messages : List Message) : Nat :=
  messages.foldl (fun status m => match m with
    | .start status' _ => status'
    | _ => status) 500

/-- The environment behind the middleware: the messages sent have passed through it, and its
variable holds the last status. -/
def Behind (rid : RequestId) (status : Nat) (w v : World) : Prop :=
  status = lastStatus w.sent ∧ v = { w with sent := w.sent.map (withRequestId rid) }

/-- One operation behind the middleware. -/
theorem Behind.step {rid : RequestId} {status : Nat} {w v v' : World} {op : AsgiOp}
    {answer : ((sendWithRequestId rid).op status op).Ans} (h : Behind rid status w v)
    (hexec : Exec svc scope v ((sendWithRequestId rid).op status op) answer v') :
    ∃ w', Exec svc scope w op ((sendWithRequestId rid).back status op answer) w' ∧
      Behind rid ((sendWithRequestId rid).next status op) w' v' := by
  obtain ⟨rfl, rfl⟩ := h
  cases op with
  | requestId =>
      cases hexec with
      | requestId uuid => exact ⟨_, .requestId uuid, rfl, rfl⟩
  | send message =>
      cases hexec with
      | send _ =>
          refine ⟨_, .send message, ?_, ?_⟩
          · cases message <;> simp [sendWithRequestId, lastStatus]
          · simp
  | route =>
      cases hexec with
      | route => exact ⟨_, .route _, rfl, rfl⟩
  | bind endpoint =>
      cases hexec with
      | bind => exact ⟨_, .bind endpoint _, rfl, rfl⟩
  | proceed =>
      cases hexec with
      | proceed => exact ⟨_, .proceed _, rfl, rfl⟩
  | effect op =>
      cases hexec with
      | effect hservice => exact ⟨_, .effect hservice, rfl, rfl⟩

/-- Each operation of the application can be performed behind the middleware. -/
theorem Behind.perform {rid : RequestId} {status : Nat} {w w' v : World} {op : AsgiOp}
    {answer : op.Ans} (h : Behind rid status w v) (hexec : Exec svc scope w op answer w') :
    ∃ answer' v', Exec svc scope v ((sendWithRequestId rid).op status op) answer' v' ∧
      (sendWithRequestId rid).back status op answer' = answer ∧
      Behind rid ((sendWithRequestId rid).next status op) w' v' := by
  obtain ⟨rfl, rfl⟩ := h
  cases hexec with
  | requestId uuid => exact ⟨_, _, .requestId uuid, rfl, rfl, rfl⟩
  | send message =>
      refine ⟨_, _, .send (withRequestId rid message), rfl, ?_, ?_⟩
      · cases message <;> simp [sendWithRequestId, lastStatus]
      · simp
  | route pathFormat => exact ⟨_, _, .route pathFormat, rfl, rfl, rfl⟩
  | bind endpoint bound => exact ⟨_, _, .bind endpoint bound, rfl, rfl, rfl⟩
  | proceed proceeded => exact ⟨_, _, .proceed proceeded, rfl, rfl, rfl⟩
  | effect hservice => exact ⟨_, _, .effect hservice, rfl, rfl, rfl⟩

/-- The arguments that the framework reads are passed on as they are. -/
theorem sendWithRequestId_bind {rid : RequestId} {status : Nat} {endpoint : Endpoint}
    {answer : Except Rejection endpoint.Arguments} {op : AsgiOp}
    {answer' : ((sendWithRequestId rid).op status op).Ans}
    {inner : List ((op : AsgiOp) × op.Ans)}
    (heq : (⟨.bind endpoint, answer⟩ : (op : AsgiOp) × op.Ans) =
      ⟨(sendWithRequestId rid).op status op, answer'⟩)
    (h : ⟨op, (sendWithRequestId rid).back status op answer'⟩ ∈ inner) :
    ⟨.bind endpoint, answer⟩ ∈ inner := by
  cases op with
  | bind endpoint' =>
      cases heq
      exact h
  | _ => cases heq

/-- What the middleware does around the application: it stashes the id, passes the messages on
and logs one line. -/
theorem traced_middleware (hhttp : scope.type = .http) {app : App} {t : Table} {w : World}
    {ops : List ((op : AsgiOp) × op.Ans)} {result : Except Raised Unit}
    (h : (requestContextMiddleware scope app).Traced (Exec svc scope) (World.fresh t) ops
      result w) :
    ∃ uuid route inner w₁,
      app.Traced (Exec svc scope) { World.fresh t with stash := some (resolve scope uuid) } inner
        result w₁ ∧
      w.stash = some (resolve scope uuid) ∧
      w.sent = w₁.sent.map (withRequestId (resolve scope uuid)) ∧
      w.lines = w₁.lines ++
        [completedEntry scope route (lastStatus w₁.sent) (resolve scope uuid)] ∧
      (∀ x, ⟨.requestId, x⟩ ∈ ops → x = resolve scope uuid) ∧
      ∀ endpoint answer, ⟨.bind endpoint, answer⟩ ∈ ops → ⟨.bind endpoint, answer⟩ ∈ inner := by
  rw [requestContextMiddleware, if_neg (not_not.mpr hhttp)] at h
  simp only [Program.perform_bind] at h
  obtain ⟨rid, v₁, rest, rfl, hresolve, hrest⟩ := Program.traced_call_iff.mp h
  cases hresolve with
  | requestId uuid =>
      -- the id is stashed before the application does anything
      obtain ⟨hstash, hids⟩ : w.stash = some (resolve scope uuid) ∧
          ∀ x, ⟨.requestId, x⟩ ∈ rest → x = resolve scope uuid := traced_stashed rfl hrest
      -- then the wrapped application runs, then the route is read and the line is logged
      obtain ⟨⟨status, result'⟩, v₂, passed, last, rfl, hpassed, hlast⟩ :=
        Program.traced_bind_iff.mp hrest
      obtain ⟨route, v₃, logs, rfl, hroute, hlogs⟩ := Program.traced_call_iff.mp hlast
      obtain ⟨answer, v₄, ends, rfl, hlog, hend⟩ := Program.traced_call_iff.mp hlogs
      obtain ⟨rfl, rfl, rfl⟩ := Program.traced_done_iff.mp hend
      have hbehind : Behind (resolve scope uuid) 500
          { World.fresh t with stash := some (resolve scope uuid) }
          { World.fresh t with stash := some (resolve scope uuid) } := ⟨rfl, rfl⟩
      obtain ⟨inner, w₁, hinner, ⟨rfl, rfl⟩, hops⟩ :=
        Program.Traced.of_wrap (fun hR hstep => hR.step hstep) hbehind hpassed
      cases hroute with
      | route =>
          cases hlog with
          | effect hservice =>
              refine ⟨uuid, route, inner, w₁, hinner, hstash, rfl, rfl, ?_, ?_⟩
              · intro x hx
                rcases List.mem_cons.mp hx with hx | hx
                · cases hx
                  rfl
                · exact hids x hx
              · intro endpoint answer hbind
                have hmem : ⟨.bind endpoint, answer⟩ ∈ passed := by simpa using hbind
                obtain ⟨status, op, answer', heq, hinnerMem⟩ := hops _ hmem
                exact sendWithRequestId_bind heq hinnerMem

/-- Every run of the application is one behind the middleware. -/
theorem exists_traced_middleware (hhttp : scope.type = .http) {app : App} {t : Table}
    {uuid : Uuid4} {inner : List ((op : AsgiOp) × op.Ans)} {ended : Except Raised Unit}
    {w₁ : World}
    (h : app.Traced (Exec svc scope) { World.fresh t with stash := some (resolve scope uuid) }
      inner ended w₁) :
    ∃ ops w, (requestContextMiddleware scope app).Traced (Exec svc scope) (World.fresh t) ops
        ended w ∧ w.sent = (sends inner).map (withRequestId (resolve scope uuid)) := by
  have hbehind : Behind (resolve scope uuid) 500
      { World.fresh t with stash := some (resolve scope uuid) }
      { World.fresh t with stash := some (resolve scope uuid) } := ⟨rfl, rfl⟩
  obtain ⟨outer, status, v, houter, -, rfl⟩ :=
    Program.Traced.wrap (fun hR hexec => hR.perform hexec) hbehind h
  have hsent : w₁.sent = sends inner := by simpa [World.fresh] using traced_sent h
  rw [requestContextMiddleware, if_neg (not_not.mpr hhttp)]
  simp only [Program.perform_bind]
  refine ⟨_, _, .call (.requestId uuid) (Program.traced_bind_iff.mpr ⟨_, _, _, _, rfl, houter,
    .call (.route none) (.call (.effect (.log _)) (.done _ _))⟩), ?_⟩
  show w₁.sent.map _ = _
  rw [hsent]

/-! ## Answers of `problem()` -/

theorem Response.traced_respond {response : Response} {w w' : World}
    {ops : List ((op : AsgiOp) × op.Ans)} {value : Unit}
    (h : response.respond.Traced (Exec svc scope) w ops value w') :
    sends ops = response.messages ∧ (∀ x, ⟨.requestId, x⟩ ∉ ops) ∧
      (∀ entry, ⟨.effect (.log entry), ()⟩ ∉ ops) ∧
      w' = { w with sent := w.sent ++ response.messages } := by
  simp only [respond, Program.perform_bind] at h
  obtain ⟨_, w₁, rest, rfl, hstart, hrest⟩ := Program.traced_call_iff.mp h
  obtain ⟨_, w₂, rest', rfl, hbody, hdone⟩ := Program.traced_call_iff.mp hrest
  obtain ⟨rfl, -, rfl⟩ := Program.traced_done_iff.mp hdone
  cases hstart with
  | send =>
      cases hbody with
      | send => exact ⟨rfl, by simp, by simp, by simp [messages]⟩

/-- The response of `problem()` that carries a request id. -/
def problemOf (path : String) (statusCode : Nat) (title detail problemType : String)
    (extra : Members) (rid : RequestId) : Response :=
  render (ProjectsApi.problem ⟨path, rid.text⟩ statusCode title detail problemType) extra

section Url

variable [RequestUrl] {path text : String} {statusCode : Nat} {title detail problemType : String}
  {extra : Members}

theorem problem_of_ok (h : scope.urlPath = .ok path) :
    problem scope statusCode title detail problemType extra = (Asgi.requestId >>= fun rid =>
      .done (.ok (problemOf path statusCode title detail problemType extra rid))) := by
  rw [problem, h]
  rfl

theorem problem_of_error (h : scope.urlPath = .error text) :
    problem scope statusCode title detail problemType extra = .done (.error (.other text)) := by
  rw [problem, h]
  rfl

/-- A problem gets its id from `request_id`, unless there is no URL. -/
theorem traced_problem {w w' : World} {ops : List ((op : AsgiOp) × op.Ans)}
    {ended : Except Raised Response}
    (h : (problem scope statusCode title detail problemType extra).Traced (Exec svc scope) w ops
      ended w') :
    (∃ path rid, scope.urlPath = .ok path ∧ ops = [⟨.requestId, rid⟩] ∧
        ended = .ok (problemOf path statusCode title detail problemType extra rid) ∧
        w' = { w with stash := some rid }) ∨
      ∃ text, scope.urlPath = .error text ∧ ops = [] ∧ ended = .error (.other text) ∧ w' = w := by
  cases hurl : scope.urlPath with
  | ok path =>
      rw [problem_of_ok hurl] at h
      obtain ⟨rid, w₁, rest, rfl, hid, hdone⟩ := Program.traced_call_iff.mp h
      obtain ⟨rfl, rfl, rfl⟩ := Program.traced_done_iff.mp hdone
      cases hid with
      | requestId uuid => exact Or.inl ⟨path, _, rfl, rfl, rfl, rfl⟩
  | error text =>
      rw [problem_of_error hurl] at h
      obtain ⟨rfl, rfl, rfl⟩ := Program.traced_done_iff.mp h
      exact Or.inr ⟨text, rfl, rfl, rfl, rfl⟩

end Url

/-- A problem response carries its id in one header, and in its body. -/
theorem problemOf_headers (path : String) (statusCode : Nat) (title detail problemType : String)
    (extra : Members) (rid : RequestId) :
    (problemOf path statusCode title detail problemType extra rid).headers =
      [(requestIdKey, rid.text), ("content-type", problemContentType)] := by
  have hkey : requestIdHeader.toLower = requestIdKey := by decide +kernel
  simp [problemOf, render, ProjectsApi.problem, contentType, hkey]

theorem problemOf_content (path : String) (statusCode : Nat) (title detail problemType : String)
    {extra : Members} (hextra : extra.lookup (codePoints "requestId") = none) (rid : RequestId) :
    ∃ members, (problemOf path statusCode title detail problemType extra rid).content =
        .problem members ∧
      members.lookup (codePoints "requestId") = some (.string (codePoints rid.text)) := by
  refine ⟨_, rfl, ?_⟩
  rw [lookup_dictUpdate_of_none hextra, problemMembers]
  simp only [lookup_cons_eq]
  rw [if_neg (by decide), if_neg (by decide), if_neg (by decide), if_neg (by decide),
    if_neg (by decide), if_pos trivial]

/-- The response of `_unhandled`. -/
def unhandledResponse (path : String) (rid : RequestId) : Response :=
  problemOf path 500 "Internal server error"
    "An unexpected error occurred. Quote the requestId when reporting it." "internal" [] rid

/-- It has the request id once in its headers, and in its body. -/
theorem unhandledResponse_single (path : String) (id : RequestId) :
    (unhandledResponse path id).headers.filter (fun header => header.1 == requestIdKey) =
        [(requestIdKey, id.text)] ∧
      ∀ members, (unhandledResponse path id).content = .problem members →
        members.lookup (codePoints "requestId") = some (.string (codePoints id.text)) := by
  obtain ⟨members', hcontent, hlookup⟩ := problemOf_content path 500 "Internal server error"
    "An unexpected error occurred. Quote the requestId when reporting it." "internal"
    (show ([] : Members).lookup (codePoints "requestId") = none from rfl) id
  constructor
  · rw [unhandledResponse, problemOf_headers]
    rfl
  · intro members hmembers
    rw [Content.problem.inj (hmembers.symm.trans hcontent)]
    exact hlookup

/-- What `_unhandled` does with an exception: it logs, and answers if the URL can be read. -/
theorem traced_unhandled [RequestUrl] {raised : Raised} {w w' : World}
    {ops : List ((op : AsgiOp) × op.Ans)} {result : Except Raised Unit} {id : RequestId}
    (hstash : w.stash = some id)
    (h : (answerWith (fun _ => unhandled scope) raised).Traced (Exec svc scope) w ops result w') :
    w'.lines = w.lines ++ [unhandledEntry] ∧ (∀ x, ⟨.requestId, x⟩ ∈ ops → x = id) ∧
      ((∃ path, scope.urlPath = .ok path ∧ result = .error raised ∧
          w'.sent = w.sent ++ (unhandledResponse path id).messages) ∨
        ∃ text, scope.urlPath = .error text ∧ result = .error (.other text) ∧
          w'.sent = w.sent) := by
  have hids := (traced_stashed hstash h).2
  obtain ⟨ended, w₁, first, second, rfl, hfirst, hsecond⟩ := Program.traced_bind_iff.mp h
  simp only [unhandled, Program.perform_bind] at hfirst
  obtain ⟨answer, w₂, rest, rfl, hlog, hproblem⟩ := Program.traced_call_iff.mp hfirst
  cases hlog with
  | effect hservice =>
      cases hservice
      obtain ⟨path, rid, hurl, rfl, rfl, rfl⟩ | ⟨text, hurl, rfl, rfl, rfl⟩ :=
        traced_problem hproblem
      · obtain ⟨value, w₃, third, last, rfl, hrespond, hdone⟩ := Program.traced_bind_iff.mp hsecond
        obtain ⟨rfl, rfl, rfl⟩ := Program.traced_done_iff.mp hdone
        obtain ⟨-, -, -, rfl⟩ := Response.traced_respond hrespond
        obtain rfl := hids rid (by simp)
        exact ⟨rfl, hids, Or.inl ⟨path, hurl, rfl, rfl⟩⟩
      · obtain ⟨rfl, rfl, rfl⟩ := Program.traced_done_iff.mp hsecond
        exact ⟨rfl, hids, Or.inr ⟨text, hurl, rfl, rfl⟩⟩

/-- Without a URL it sends nothing. -/
theorem exists_traced_unhandled [RequestUrl] (svc : Service) {text : String}
    (h : scope.urlPath = .error text) (raised : Raised) (w : World) :
    ∃ ops w', (answerWith (fun _ => unhandled scope) raised).Traced (Exec svc scope) w ops
      (.error (.other text)) w' ∧ w'.sent = w.sent := by
  unfold answerWith unhandled
  rw [problem_of_error h]
  exact ⟨_, _, .call (.effect (.log _)) (.done _ _), rfl⟩

end Run

/-! ## The wrapped application -/

/-- A response sets `X-Request-Id`, and has a problem document as its body, only as a response
of `problem()`. -/
def IdFromProblem (ops : List ((op : AsgiOp) × op.Ans)) (status : Nat)
    (headers : List (String × String)) (rest : List Message) : Prop :=
  (requestIdKey ∉ headers.map Prod.fst ∧ ∀ members, .body (.problem members) ∉ rest) ∨
    ∃ path title detail problemType extra x,
      extra.lookup (codePoints "requestId") = none ∧ ⟨.requestId, x⟩ ∈ ops ∧
      headers = (problemOf path status title detail problemType extra x).headers ∧
      ∀ members, .body (.problem members) ∈ rest →
        (problemOf path status title detail problemType extra x).content = .problem members

/-- What a run of the wrapped application may do: it raises before it sends anything, or it
starts one response, sends further messages and returns or raises. -/
structure Behaves (ops : List ((op : AsgiOp) × op.Ans)) (result : Except Raised Unit) :
    Prop where
  quiet : ∀ entry, ⟨.effect (.log entry), ()⟩ ∈ ops → entry.message ≠ "request completed"
  response : (∃ raised, result = .error raised ∧ sends ops = []) ∨
    ∃ status headers rest, sends ops = .start status headers :: rest ∧
      (∀ m ∈ rest, ¬ m.IsStart) ∧ IdFromProblem ops status headers rest

theorem Behaves.sends_eq_nil {ops : List ((op : AsgiOp) × op.Ans)}
    {result : Except Raised Unit} (h : Behaves ops result) (hnot : ¬ Started (sends ops)) :
    sends ops = [] := by
  obtain ⟨_, -, hnone⟩ | ⟨status, headers, rest, hsends, -, -⟩ := h.response
  · exact hnone
  · refine absurd ⟨.start status headers, ?_, trivial⟩ hnot
    rw [hsends]
    exact List.mem_cons_self

/-- Every run of the application is one of these. -/
def WrappedApp (svc : Service) (scope : Scope) (app : App) : Prop :=
  ∀ {w w' : World} {ops : List ((op : AsgiOp) × op.Ans)} {result : Except Raised Unit},
    app.Traced (Exec svc scope) w ops result w' → Behaves ops result

/-- Where the id of a request comes from. -/
structure Resolved (scope : Scope) (id : RequestId) : Prop where
  gateway : ∀ gatewayId, scope.gatewayId? = some gatewayId → id = gatewayId
  lambda : scope.gatewayId? = none → ∀ lambdaId, scope.lambdaId? = some lambdaId → id = lambdaId
  client : scope.gatewayId? = none → scope.lambdaId? = none →
    (∃ header, scope.requestIdHeader = some header ∧ id = header.strip ∧ id.Usable) ∨
      ((∀ header, scope.requestIdHeader = some header → ¬ header.strip.Usable) ∧
        ∃ uuid, id = uuidText uuid)

theorem resolved_resolve (scope : Scope) (uuid : Uuid4) : Resolved scope (resolve scope uuid) where
  gateway gatewayId h := by
    rw [resolve, h]
  lambda hgateway lambdaId h := by
    rw [resolve, hgateway, h]
  client hgateway hlambda := by
    rw [resolve, hgateway, hlambda]
    dsimp only
    cases hclient : scope.clientId? with
    | none =>
        refine Or.inr ⟨?_, uuid, rfl⟩
        intro header hheader
        rw [Scope.clientId?, hheader] at hclient
        simpa using hclient
    | some candidate =>
        rw [Scope.clientId?, Option.filter_eq_some_iff] at hclient
        obtain ⟨hcandidate, husable⟩ := hclient
        obtain ⟨header, hheader, rfl⟩ := Option.map_eq_some_iff.mp hcandidate
        exact Or.inl ⟨header, hheader, rfl, by simpa using husable⟩

/-- The log lines of completed requests. -/
def completedLines (lines : List LogEntry) : List LogEntry :=
  lines.filter fun entry => entry.message == "request completed"

theorem completedLines_append (lines lines' : List LogEntry) :
    completedLines (lines ++ lines') = completedLines lines ++ completedLines lines' :=
  List.filter_append ..

theorem started_map_withRequestId {rid : RequestId} {messages : List Message} :
    Started (messages.map (withRequestId rid)) ↔ Started messages := by
  have hstart : ∀ m, (withRequestId rid m).IsStart ↔ m.IsStart := by
    intro m
    cases m <;> exact Iff.rfl
  simp only [Started, List.mem_map]
  constructor
  · intro h
    obtain ⟨_, ⟨m, hm, rfl⟩, hs⟩ := h
    exact ⟨m, hm, (hstart m).mp hs⟩
  · intro h
    obtain ⟨m, hm, hs⟩ := h
    exact ⟨_, ⟨m, hm, rfl⟩, (hstart m).mpr hs⟩

/-- An operation other than the framework reading arguments. -/
def AsgiOp.Unbound : AsgiOp → Prop
  | .bind _ => False
  | _ => True

theorem problem_allOps [RequestUrl] {P : AsgiOp → Prop} (hP : P .requestId) (scope : Scope)
    (statusCode : Nat) (title detail problemType : String) (extra : Members) :
    (problem scope statusCode title detail problemType extra).AllOps P := by
  unfold problem
  cases scope.urlPath with
  | error text => trivial
  | ok path => exact ⟨hP, fun _ => trivial⟩

/-- `_unhandled` logs, asks for the request id and sends. -/
theorem unhandled_allOps [RequestUrl] {P : AsgiOp → Prop} (hid : P .requestId)
    (hlog : P (.effect (.log unhandledEntry))) (hsend : ∀ message, P (.send message))
    (scope : Scope) (raised : Raised) :
    (answerWith (fun _ => unhandled scope) raised).AllOps P := by
  have hunhandled : (unhandled scope).AllOps P := ⟨hlog, fun _ => problem_allOps hid ..⟩
  refine hunhandled.bind fun ended => ?_
  cases ended with
  | error raised' => trivial
  | ok response => exact ⟨hsend _, fun _ => ⟨hsend _, fun _ => trivial⟩⟩

section Application

variable [RequestUrl] {svc : Service} {scope : Scope} {app : App} {t : Table} {w : World}
  {result : Except Raised Unit}

/-- What becomes of the messages and of the end of a wrapped application: what the client gets,
what is logged after the line of the request, and how the request ends. -/
inductive Delivered (scope : Scope) (id : RequestId) (messages : List Message)
    (ended : Except Raised Unit) : List Message → List LogEntry → Except Raised Unit → Prop where
  | passed (hended : ended = .ok () ∨ Started messages) :
      Delivered scope id messages ended (messages.map (withRequestId id)) [] ended
  /-- an exception before the response is answered outside of the middleware -/
  | unhandled {path : String} {raised : Raised} (hurl : scope.urlPath = .ok path)
      (hraised : ended = .error raised) (hnot : ¬ Started messages) :
      Delivered scope id messages ended
        (messages.map (withRequestId id) ++ (unhandledResponse path id).messages)
        [unhandledEntry] ended
  /-- `_unhandled` raises as well -/
  | unanswered {text : String} {raised : Raised} (hurl : scope.urlPath = .error text)
      (hraised : ended = .error raised) (hnot : ¬ Started messages) :
      Delivered scope id messages ended (messages.map (withRequestId id)) [unhandledEntry]
        (.error (.other text))

/-- A request in terms of the wrapped application's own run. -/
theorem traced_application (hhttp : scope.type = .http) (outer : ServerErrorMiddleware)
    {ops : List ((op : AsgiOp) × op.Ans)}
    (h : (application outer scope app).Traced (Exec svc scope) (World.fresh t) ops result w) :
    ∃ uuid route inner ended w₁ after,
      app.Traced (Exec svc scope) { World.fresh t with stash := some (resolve scope uuid) } inner
        ended w₁ ∧
      (∀ x, ⟨.requestId, x⟩ ∈ ops → x = resolve scope uuid) ∧
      (∀ endpoint answer, ⟨.bind endpoint, answer⟩ ∈ ops →
        ⟨.bind endpoint, answer⟩ ∈ inner) ∧
      Delivered scope (resolve scope uuid) (sends inner) ended w.sent after result ∧
      w.lines = w₁.lines ++
        completedEntry scope route (lastStatus (sends inner)) (resolve scope uuid) :: after := by
  obtain ⟨hrun, hended⟩ | ⟨raised, first, second, wm, rfl, hrun, hnot, hhandler⟩ :=
    outer.traced_call_iff.mp h
  · -- nothing happens outside of the middleware
    obtain ⟨uuid, route, inner, w₁, hinner, -, hsent, hlines, hids, hbinds⟩ :=
      traced_middleware hhttp hrun
    have hinnerSent : w₁.sent = sends inner := by simpa [World.fresh] using traced_sent hinner
    have houterSent : w.sent = sends ops := by simpa [World.fresh] using traced_sent hrun
    rw [hinnerSent] at hsent hlines
    refine ⟨uuid, route, inner, result, w₁, [], hinner, hids, hbinds, ?_, hlines⟩
    rw [hsent]
    refine .passed ?_
    rwa [← houterSent, hsent, started_map_withRequestId] at hended
  · -- `_unhandled` runs after the middleware has logged its line, under the stashed id
    obtain ⟨uuid, route, inner, w₁, hinner, hstash, hsent, hlines, hids, hbinds⟩ :=
      traced_middleware hhttp hrun
    have hinnerSent : w₁.sent = sends inner := by simpa [World.fresh] using traced_sent hinner
    have houterSent : wm.sent = sends first := by simpa [World.fresh] using traced_sent hrun
    rw [hinnerSent] at hsent hlines
    rw [← houterSent, hsent, started_map_withRequestId] at hnot
    obtain ⟨hlines', hids', hcases⟩ := traced_unhandled hstash hhandler
    refine ⟨uuid, route, inner, .error raised, w₁, [unhandledEntry], hinner, ?_, ?_, ?_, ?_⟩
    · intro x hx
      rcases List.mem_append.mp hx with hx | hx
      · exact hids x hx
      · exact hids' x hx
    -- `_unhandled` is no endpoint, so it binds no argument
    · intro endpoint answer hbind
      have hunbound : ∀ x ∈ second, x.1.Unbound :=
        (unhandled_allOps trivial trivial (fun _ => trivial) scope raised).of_traced hhandler
      rcases List.mem_append.mp hbind with hbind | hbind
      · exact hbinds endpoint answer hbind
      · exact absurd (hunbound _ hbind) id
    · obtain ⟨path, hurl, rfl, hsent'⟩ | ⟨text, hurl, rfl, hsent'⟩ := hcases
      · rw [hsent', hsent]
        exact .unhandled hurl rfl hnot
      · rw [hsent', hsent]
        exact .unanswered hurl rfl hnot
    · rw [hlines', hlines, List.append_assoc]
      rfl

/-- Without a URL an exception before the response stays unanswered. -/
theorem exists_unanswered (hhttp : scope.type = .http) (outer : ServerErrorMiddleware)
    (hurl : ¬ scope.HasUrl) {uuid : Uuid4} {inner : List ((op : AsgiOp) × op.Ans)}
    {raised : Raised} {w₁ : World}
    (h : app.Traced (Exec svc scope) { World.fresh t with stash := some (resolve scope uuid) }
      inner (.error raised) w₁) (hnone : sends inner = []) :
    ∃ ops result w, (application outer scope app).Traced (Exec svc scope) (World.fresh t) ops
      result w ∧ w.sent = [] := by
  obtain ⟨text, htext⟩ := Scope.not_hasUrl_iff.mp hurl
  obtain ⟨first, w₂, hrun, hsent⟩ := exists_traced_middleware hhttp h
  obtain ⟨second, w, hhandler, hkept⟩ := exists_traced_unhandled svc htext raised w₂
  have hfirst : w₂.sent = sends first := by simpa [World.fresh] using traced_sent hrun
  rw [hnone] at hsent
  refine ⟨_, _, w, outer.traced_call_iff.mpr (Or.inr ⟨raised, first, second, w₂, rfl, hrun, ?_,
    hhandler⟩), hkept.trans hsent⟩
  rw [← hfirst, hsent]
  simp [Started]

end Application

/-! ## The main result -/

theorem map_withRequestId_eq (rid : RequestId) {messages : List Message}
    (h : ∀ m ∈ messages, ¬ m.IsStart) : messages.map (withRequestId rid) = messages := by
  have hid : ∀ m ∈ messages, withRequestId rid m = id m := by
    intro m hm
    cases m with
    | start status headers => exact absurd trivial (h _ hm)
    | body content => rfl
    | other type => rfl
  rw [List.map_congr_left hid, List.map_id]

theorem lastStatus_start_cons (status : Nat) (headers : List (String × String))
    {rest : List Message} (h : ∀ m ∈ rest, ¬ m.IsStart) :
    lastStatus (.start status headers :: rest) = status := by
  rw [lastStatus, List.foldl_cons]
  dsimp only
  induction rest with
  | nil => rfl
  | cons m rest ih =>
      rw [List.foldl_cons]
      cases m with
      | start status' headers' => exact absurd trivial (h _ List.mem_cons_self)
      | body content => exact ih fun m hm => h m (List.mem_cons_of_mem _ hm)
      | other type => exact ih fun m hm => h m (List.mem_cons_of_mem _ hm)

/-- A header that was missing is there once. -/
theorem filter_setDefault {headers : List (String × String)} {key : String}
    (h : key ∉ headers.map Prod.fst) (value : String) :
    (setDefault headers key value).filter (fun header => header.1 == key) = [(key, value)] := by
  have hnone : ∀ header ∈ headers, (header.1 == key) = false := by
    intro header hheader
    refine beq_eq_false_iff_ne.mpr fun heq => h ?_
    exact heq ▸ List.mem_map_of_mem hheader
  have hany : headers.any (fun header => header.1 == key) = false := by
    rw [List.any_eq_false]
    intro header hheader
    simp [hnone header hheader]
  have hfilter : headers.filter (fun header => header.1 == key) = [] := by
    rw [List.filter_eq_nil_iff]
    intro header hheader
    simp [hnone header hheader]
  rw [setDefault, hany, if_neg (by decide), List.filter_append, hfilter]
  simp

theorem completedLines_loggedBy {op : Op}
    (h : ∀ entry, op = .log entry → entry.message ≠ "request completed") (lines : List LogEntry) :
    completedLines (lines ++ loggedBy op) = completedLines lines := by
  cases op with
  | log entry =>
      have hmessage := h entry rfl
      simp [completedLines, loggedBy, hmessage]
  | _ => simp [completedLines, loggedBy]

/-- One operation that is no log line of a completed request. -/
theorem Exec.completedLines {svc : Service} {scope : Scope} {w w' : World} {op : AsgiOp}
    {answer : op.Ans} (h : Exec svc scope w op answer w')
    (hquiet : ∀ entry, op = .effect (.log entry) → entry.message ≠ "request completed") :
    completedLines w'.lines = completedLines w.lines := by
  cases h with
  | effect hservice =>
      refine completedLines_loggedBy ?_ w.lines
      intro entry hentry
      exact hquiet entry (by rw [hentry])
  | _ => rfl

/-- Behind the middleware a response has one request id, and so has its problem document. -/
theorem IdFromProblem.single {ops : List ((op : AsgiOp) × op.Ans)} {status : Nat}
    {headers : List (String × String)} {rest : List Message} {id : RequestId}
    (h : IdFromProblem ops status headers rest)
    (hids : ∀ x, ⟨.requestId, x⟩ ∈ ops → x = id) :
    (setDefault headers requestIdKey id.text).filter (fun header => header.1 == requestIdKey) =
        [(requestIdKey, id.text)] ∧
      ∀ members, .body (.problem members) ∈ rest →
        members.lookup (codePoints "requestId") = some (.string (codePoints id.text)) := by
  obtain ⟨hmissing, hbody⟩ |
    ⟨path, title, detail, problemType, extra, x, hextra, hx, rfl, hbody⟩ := h
  · exact ⟨filter_setDefault hmissing id.text, fun members hmem => absurd hmem (hbody members)⟩
  · obtain rfl := hids x hx
    obtain ⟨members, hmembers, hlookup⟩ :=
      problemOf_content path status title detail problemType hextra x
    refine ⟨by rw [problemOf_headers]; rfl, ?_⟩
    intro members' hmem
    have heq := (hbody members' hmem).symm.trans hmembers
    rw [Content.problem.inj heq]
    exact hlookup

/-- A run that logs other lines only. -/
theorem traced_completedLines {svc : Service} {scope : Scope} {α : Type} {p : Asgi α}
    {w w' : World} {ops : List ((op : AsgiOp) × op.Ans)} {value : α}
    (h : p.Traced (Exec svc scope) w ops value w')
    (hquiet : ∀ entry, ⟨.effect (.log entry), ()⟩ ∈ ops → entry.message ≠ "request completed") :
    completedLines w'.lines = completedLines w.lines := by
  induction h with
  | done w value => rfl
  | call hexec hnext ih =>
      rw [ih fun entry hentry => hquiet entry (List.mem_cons_of_mem _ hentry)]
      refine hexec.completedLines ?_
      intro entry hop
      subst hop
      exact hquiet entry List.mem_cons_self

section Main

variable [RequestUrl] {svc : Service} {scope : Scope} {app : App} {t : Table}

/-- A response with one request id, which is the id of a problem body, of the one log line and of
every call of `request_id`; the logged status is the one the client gets, and nothing else is
changed on the way. -/
structure Correlated (svc : Service) (scope : Scope) (app : App) (t : Table)
    (ops : List ((op : AsgiOp) × op.Ans)) (result : Except Raised Unit) (w : World)
    (id : RequestId) (status : Nat) (headers : List (String × String)) (rest : List Message) :
    Prop where
  resolved : Resolved scope id
  agreed : ∀ x, ⟨.requestId, x⟩ ∈ ops → x = id
  sent : w.sent = .start status headers :: rest
  once : ∀ m ∈ rest, ¬ m.IsStart
  header : headers.filter (fun header => header.1 == "x-request-id") = [("x-request-id", id.text)]
  body : ∀ members, .body (.problem members) ∈ rest →
    members.lookup (codePoints "requestId") = some (.string (codePoints id.text))
  logged : ∃ route, w.lines.filter (fun entry => entry.message == "request completed") =
    [{ level := .info
       message := "request completed"
       fields := [("route", .str route), ("method", .str scope.method), ("status", .int status),
         ("owner_id", ownerId? scope), ("request_id", .str id.text)] }]
  passed : ∃ inner w₁,
    app.Traced (Exec svc scope) { World.fresh t with stash := some id } inner result w₁ ∧
    ((∃ headers₀, sends inner = .start status headers₀ :: rest ∧
        headers = setDefault headers₀ "x-request-id" id.text) ∨
      ((∃ raised, result = .error raised) ∧ sends inner = [] ∧ status = 500 ∧
        ∃ path, scope.urlPath = .ok path ∧ w.sent = (unhandledResponse path id).messages))

/-- The client gets such a response. -/
def OneRequestId (svc : Service) (scope : Scope) (app : App) (t : Table)
    (ops : List ((op : AsgiOp) × op.Ans)) (result : Except Raised Unit) (w : World) : Prop :=
  ∃ id status headers rest, Correlated svc scope app t ops result w id status headers rest

/-- The wrapped application can raise before it has started a response. -/
def RaisesFirst (svc : Service) (scope : Scope) (app : App) (t : Table) : Prop :=
  ∃ uuid inner raised w₁,
    app.Traced (Exec svc scope) { World.fresh t with stash := some (resolve scope uuid) } inner
      (.error raised) w₁ ∧ sends inner = []

/-- The middleware logs one line for a request. -/
theorem traced_logged (hhttp : scope.type = .http) (outer : ServerErrorMiddleware)
    (happ : WrappedApp svc scope app) {w : World} {ops : List ((op : AsgiOp) × op.Ans)}
    {result : Except Raised Unit}
    (h : (application outer scope app).Traced (Exec svc scope) (World.fresh t) ops result w) :
    ∃ uuid route inner ended w₁ after,
      app.Traced (Exec svc scope) { World.fresh t with stash := some (resolve scope uuid) } inner
        ended w₁ ∧
      (∀ x, ⟨.requestId, x⟩ ∈ ops → x = resolve scope uuid) ∧
      Delivered scope (resolve scope uuid) (sends inner) ended w.sent after result ∧
      completedLines w.lines =
        [completedEntry scope route (lastStatus (sends inner)) (resolve scope uuid)] := by
  obtain ⟨uuid, route, inner, ended, w₁, after, hinner, hids, -, hdelivered, hlines⟩ :=
    traced_application hhttp outer h
  have hquiet : completedLines w₁.lines = [] := traced_completedLines hinner (happ hinner).quiet
  have hafter : completedLines after = [] := by
    generalize w.sent = sent at hdelivered
    cases hdelivered <;> rfl
  refine ⟨uuid, route, inner, ended, w₁, after, hinner, hids, hdelivered, ?_⟩
  rw [hlines, completedLines_append, hquiet]
  show [_] ++ completedLines after = _
  rw [hafter]
  rfl

/-- A run of a request has one id, or its exception stays unanswered. -/
theorem oneRequestId_or_unanswered (outer : ServerErrorMiddleware) (hhttp : scope.type = .http)
    (happ : WrappedApp svc scope app) {w : World} {ops : List ((op : AsgiOp) × op.Ans)}
    {result : Except Raised Unit}
    (h : (application outer scope app).Traced (Exec svc scope) (World.fresh t) ops result w) :
    OneRequestId svc scope app t ops result w ∨
      (¬ scope.HasUrl ∧ RaisesFirst svc scope app t ∧ w.sent = []) := by
  obtain ⟨uuid, route, inner, ended, w₁, after, hinner, hids, hdelivered, hlogged⟩ :=
    traced_logged hhttp outer happ h
  have hbehaves := happ hinner
  generalize hgot : w.sent = sent at hdelivered
  cases hdelivered with
  | passed hended =>
      -- the client gets the response of the wrapped application
      refine Or.inl ?_
      obtain ⟨raised, rfl, hnone⟩ | ⟨status, headers, rest, hsends, hrest, hid⟩ :=
        hbehaves.response
      · -- an exception before the response is not passed on as it is
        rw [hnone] at hended
        rcases hended with hok | ⟨m, hm, -⟩
        · cases hok
        · cases hm
      · obtain ⟨hheader, hbody⟩ := hid.single (traced_stashed rfl hinner).2
        rw [hsends, lastStatus_start_cons status headers hrest] at hlogged
        refine ⟨resolve scope uuid, status, _, rest, resolved_resolve scope uuid, hids, ?_,
          hrest, hheader, hbody, ⟨_, hlogged⟩, inner, w₁, hinner,
          Or.inl ⟨headers, hsends, rfl⟩⟩
        rw [hgot, hsends, List.map_cons, map_withRequestId_eq _ hrest]
        rfl
  | @unhandled path raised hurl hraised hnot =>
      -- nothing was sent, so the response of `_unhandled` is the only one
      refine Or.inl ?_
      have hnone : sends inner = [] := hbehaves.sends_eq_nil hnot
      have hsent : (sends inner).map (withRequestId (resolve scope uuid)) ++
          (unhandledResponse path (resolve scope uuid)).messages =
            (unhandledResponse path (resolve scope uuid)).messages := by
        rw [hnone]
        rfl
      rw [hsent] at hgot
      obtain ⟨hheader, hbody⟩ := unhandledResponse_single path (resolve scope uuid)
      rw [hnone] at hlogged
      refine ⟨resolve scope uuid, 500, _, _, resolved_resolve scope uuid, hids, hgot, ?_, hheader,
        ?_, ⟨_, hlogged⟩, inner, w₁, hinner, Or.inr ⟨⟨raised, hraised⟩, hnone, rfl, path, hurl,
          hgot⟩⟩
      · intro m hm
        rw [List.mem_singleton.mp hm]
        exact id
      · intro members hmem
        exact hbody members (Message.body.inj (List.mem_singleton.mp hmem)).symm
  | @unanswered text raised hurl hraised hnot =>
      have hnone : sends inner = [] := hbehaves.sends_eq_nil hnot
      subst hraised
      refine Or.inr ⟨Scope.not_hasUrl_iff.mpr ⟨text, hurl⟩, ⟨uuid, inner, raised, w₁, hinner,
        hnone⟩, ?_⟩
      rw [hnone]
      rfl

theorem not_oneRequestId {ops : List ((op : AsgiOp) × op.Ans)} {result : Except Raised Unit}
    {w : World} (h : w.sent = []) : ¬ OneRequestId svc scope app t ops result w := by
  rintro ⟨id, status, headers, rest, hcorrelated⟩
  have hsent := hcorrelated.sent
  rw [h] at hsent
  cases hsent

/-- Around every application whose responses set `X-Request-Id` only through `problem()`, every
request has one id and one truthful log line: exactly if its URL can be read, or the application
always starts a response.  A request without the id is one that gets no response. -/
theorem one_request_id_iff (outer : ServerErrorMiddleware) (hhttp : scope.type = .http)
    (happ : WrappedApp svc scope app) :
    ((∀ ops result w,
        (application outer scope app).Traced (Exec svc scope) (World.fresh t) ops result w →
          OneRequestId svc scope app t ops result w) ↔
      scope.HasUrl ∨ ¬ RaisesFirst svc scope app t) ∧
    ∀ ops result w,
      (application outer scope app).Traced (Exec svc scope) (World.fresh t) ops result w →
        OneRequestId svc scope app t ops result w ∨ (¬ scope.HasUrl ∧ w.sent = []) := by
  refine ⟨⟨?_, ?_⟩, ?_⟩
  · intro h
    by_contra hnot
    obtain ⟨hurl, hraises⟩ := not_or.mp hnot
    obtain ⟨uuid, inner, raised, w₁, hinner, hnone⟩ := not_not.mp hraises
    obtain ⟨ops, result, w, hrun, hsent⟩ := exists_unanswered hhttp outer hurl hinner hnone
    exact not_oneRequestId hsent (h ops result w hrun)
  · intro hcondition ops result w hrun
    obtain hone | ⟨hurl, hraises, -⟩ := oneRequestId_or_unanswered outer hhttp happ hrun
    · exact hone
    · exact absurd hcondition (by tauto)
  · intro ops result w hrun
    obtain hone | ⟨hurl, -, hsent⟩ := oneRequestId_or_unanswered outer hhttp happ hrun
    · exact Or.inl hone
    · exact Or.inr ⟨hurl, hsent⟩

end Main

/-! ## An application that raises at once -/

section Instance

open scoped Sample

/-- A request to a local server, without any request id. -/
def localScope : Scope where
  type := .http
  method := "GET"
  path := "/health"
  address := ⟨"http", some ("127.0.0.1", some 8000), some "localhost:8000", []⟩
  event := none
  awsRequestId := none
  requestIdHeader := none
  identityHeader := none

/-- A service that is not called. -/
def idleService : Service := Service.reliable (fun _ _ _ => False) (fun _ => .raised "")

def raisingApp : App := .done (.error (.other "boom"))

theorem wrappedApp_raisingApp (scope : Scope) : WrappedApp idleService scope raisingApp := by
  intro w w' ops result h
  obtain ⟨rfl, rfl, rfl⟩ := Program.traced_done_iff.mp h
  exact ⟨by simp, Or.inl ⟨_, rfl, rfl⟩⟩

theorem one_request_id_of_exception :
    ∃ ops w, (application serverErrorMiddleware localScope raisingApp).Traced
        (Exec idleService localScope) (World.fresh ∅) ops (.error (.other "boom")) w ∧
      OneRequestId idleService localScope raisingApp ∅ ops (.error (.other "boom")) w := by
  have hrun : ∃ ops w, (application serverErrorMiddleware localScope raisingApp).Traced
      (Exec idleService localScope) (World.fresh ∅) ops (.error (.other "boom")) w :=
    ⟨_, _, .call (.requestId (Uuid4.repeated 'a' (by decide))) (.call (.route none)
      (.call (.effect (.log _)) (.call (.effect (.log _))
        (.call (.requestId (Uuid4.repeated 'b' (by decide))) (.call (.send _) (.call (.send _)
          (.done _ _)))))))⟩
  obtain ⟨ops, w, hrun⟩ := hrun
  obtain ⟨hiff, -⟩ := one_request_id_iff (t := ∅) serverErrorMiddleware rfl
    (wrappedApp_raisingApp localScope)
  exact ⟨ops, w, hrun, hiff.mpr (Or.inl ⟨_, rfl⟩) ops _ w hrun⟩

/-- The query string `x=\xff` is no UTF-8. -/
def brokenScope : Scope :=
  { localScope with address := { localScope.address with query := [0x78, 0x3D, 0xFF] } }

/-- Its exception stays unanswered. -/
theorem broken_url_unanswered :
    WrappedApp idleService brokenScope raisingApp ∧
      ∃ ops result w, (application serverErrorMiddleware brokenScope raisingApp).Traced
          (Exec idleService brokenScope) (World.fresh ∅) ops result w ∧
        w.sent = [] ∧ ¬ OneRequestId idleService brokenScope raisingApp ∅ ops result w := by
  have hurl : brokenScope.urlPath = .error "invalid start byte" := by rfl
  refine ⟨wrappedApp_raisingApp brokenScope, ?_⟩
  have hraises : raisingApp.Traced (Exec idleService brokenScope)
      { World.fresh ∅ with
        stash := some (resolve brokenScope (Uuid4.repeated 'a' (by decide))) } []
      (.error (.other "boom")) _ := .done _ _
  obtain ⟨ops, result, w, hrun, hsent⟩ := exists_unanswered rfl serverErrorMiddleware
    (Scope.not_hasUrl_iff.mpr ⟨_, hurl⟩) hraises rfl
  exact ⟨ops, result, w, hrun, hsent, not_oneRequestId hsent⟩

end Instance

end ProjectsApi.Http
