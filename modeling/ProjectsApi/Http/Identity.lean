import ProjectsApi.Http.Validation
import ProjectsApi.System.Isolation

/-!
# For whom a request acts

`current_user` takes the owner from the gateway, or from a header on a local server.  Whatever
the path, the arguments, the service and the framework do, a request reads and writes the table
in the name of that owner only (`identity_governs_table`).  Without an owner its arguments do
not count (`unidentified_refused`), and the header cannot stand in for the gateway
(`identity_header_ignored`).
-/

namespace ProjectsApi.Http

open Foundation Foundation.Json Dynamo

/-- The owner for whom a request acts. -/
def caller? (isLocal : Bool) (scope : Scope) : Option String :=
  (currentUser isLocal scope).toOption

theorem caller?_of_ok {isLocal : Bool} {scope : Scope} {ownerId : String}
    (h : currentUser isLocal scope = .ok ownerId) : caller? isLocal scope = some ownerId := by
  rw [caller?, h]
  rfl

/-! ## Operations in the name of an owner -/

/-- An operation that does not concern the table. -/
def Tableless : Op → Prop
  | .now => True
  | .uuid4 => True
  | .log _ => True
  | .addMetric _ => True
  | _ => False

/-- The operations that a request may perform for its owner. -/
inductive ActsFor [CaseTables] (owner? : Option String) : Op → Prop where
  | besides {op : Op} (hop : Tableless op) : ActsFor owner? op
  | read (projectId : String) (howner : owner?.isSome = true) :
      ActsFor owner? (.getItem (recordKey projectId))
  | list (limit : Nat) (cursor : Option CursorKey) {ownerId : String}
      (howner : owner? = some ownerId) :
      ActsFor owner? (.query (ProjectRepository.listRequest ownerId limit cursor))
  | create (p : Project) (howner : owner? = some p.ownerId) :
      ActsFor owner? (.transactWriteItems (createActions p))
  | delete (projectId name : String) {ownerId : String} (howner : owner? = some ownerId) :
      ActsFor owner? (.transactWriteItems (deleteActions projectId name ownerId))

section Routes

variable [CaseTables] [DatetimeParser]

theorem get_actsFor (projectId ownerId : String) :
    (ProjectRepository.get projectId).AllOps (ActsFor (some ownerId)) := by
  refine ⟨.read projectId rfl, fun answer => ?_⟩
  rcases answer with _ | _ | item
  · trivial
  · trivial
  · simp only [Program.bind_done]
    split_ifs <;> trivial

omit [DatetimeParser] in
theorem createProject_actsFor (name : String) (type : ProjectType) (ownerId : String) :
    (ProjectsApi.createProject name type ownerId).AllOps (ActsFor (some ownerId)) := by
  refine ⟨.besides trivial, fun now => ⟨.besides trivial, fun uuid => ?_⟩⟩
  refine ⟨.create _ rfl, fun answer => ?_⟩
  cases answer with
  | error e => trivial
  | ok value => exact ⟨.besides trivial, fun _ => ⟨.besides trivial, fun _ => trivial⟩⟩

theorem listProjects_actsFor (ownerId : String) (limit : Nat) (nextToken : Option String) :
    (ProjectsApi.listProjects ownerId limit nextToken).AllOps (ActsFor (some ownerId)) := by
  unfold ProjectsApi.listProjects
  cases decodeNextToken nextToken ownerId with
  | error exn => trivial
  | ok cursor =>
      have hlist : (ProjectRepository.listByOwner ownerId limit cursor).AllOps
          (ActsFor (some ownerId)) := by
        refine ⟨.list limit cursor rfl, fun answer => ?_⟩
        cases answer with
        | error e =>
            simp only [Program.bind_done]
            split_ifs <;> trivial
        | ok output => trivial
      refine hlist.bind fun listed => ?_
      cases listed with
      | error exn => trivial
      | ok page =>
          refine ⟨.besides trivial, fun _ => ?_⟩
          simp only [Program.bind_done]
          cases encodeLastKey page.2 <;> trivial

theorem getProject_actsFor (projectId ownerId : String) :
    (ProjectsApi.getProject projectId ownerId).AllOps (ActsFor (some ownerId)) := by
  unfold ProjectsApi.getProject
  split_ifs
  · trivial
  · refine (get_actsFor projectId ownerId).bind fun found => ?_
    cases found with
    | error exn => trivial
    | ok project =>
        dsimp only
        split_ifs <;> trivial

theorem delete_actsFor (projectId ownerId : String) :
    (ProjectRepository.delete projectId ownerId).AllOps (ActsFor (some ownerId)) := by
  refine (get_actsFor projectId ownerId).bind fun found => ?_
  cases found with
  | error exn => trivial
  | ok project =>
      dsimp only
      split_ifs
      · trivial
      · refine ⟨.delete projectId project.name rfl, fun answer => ?_⟩
        cases answer with
        | ok value => trivial
        | error e =>
            simp only [Program.bind_done, ProjectRepository.deleteError]
            split_ifs
            · trivial
            · exact ⟨.besides trivial, fun _ => trivial⟩
            · trivial
            · trivial

theorem deleteProject_actsFor (projectId ownerId : String) :
    (ProjectsApi.deleteProject projectId ownerId).AllOps (ActsFor (some ownerId)) := by
  unfold ProjectsApi.deleteProject
  split_ifs
  · trivial
  · refine (delete_actsFor projectId ownerId).bind fun deleted => ?_
    cases deleted with
    | error exn => trivial
    | ok value => exact ⟨.besides trivial, fun _ => ⟨.besides trivial, fun _ => trivial⟩⟩

end Routes

/-! ## Operations of a request -/

/-- What a request does to the service is done for an owner. -/
def AsgiOp.For [CaseTables] (owner? : Option String) : AsgiOp → Prop
  | .effect op => ActsFor owner? op
  | _ => True

section Request

variable [CaseTables] [DatetimeParser]

omit [DatetimeParser] in
theorem ofRoute_for (isLocal : Bool) (scope : Scope)
    {route : String → Action (Except Exn HttpResponse)}
    (hroute : ∀ ownerId, (route ownerId).AllOps (ActsFor (some ownerId))) :
    (ofRoute isLocal scope route).AllOps (AsgiOp.For (caller? isLocal scope)) := by
  unfold ofRoute
  cases huser : currentUser isLocal scope with
  | error raised => trivial
  | ok ownerId =>
      rw [caller?_of_ok huser]
      have heffect : ∀ op, ActsFor (some ownerId) op → (AsgiOp.effect op).For (some ownerId) :=
        fun op hop => hop
      have hembedded : (Asgi.ofAction (route ownerId)).AllOps (AsgiOp.For (some ownerId)) :=
        Program.AllOps.embed heffect (hroute ownerId)
      refine hembedded.bind fun ended => ?_
      cases ended <;> trivial

theorem run_for (F : Framework) (isLocal : Bool) (scope : Scope) (endpoint : Endpoint)
    (arguments : endpoint.Arguments) :
    (endpoint.run F isLocal scope arguments).AllOps (AsgiOp.For (caller? isLocal scope)) := by
  cases endpoint with
  | health => trivial
  | createProject => exact ofRoute_for isLocal scope (createProject_actsFor _ _)
  | listProjects => exact ofRoute_for isLocal scope fun _ => listProjects_actsFor _ _ _
  | getProject => exact ofRoute_for isLocal scope (getProject_actsFor _)
  | deleteProject => exact ofRoute_for isLocal scope (deleteProject_actsFor _)
  | openapi =>
      unfold Endpoint.run
      cases F.openapi <;> trivial
  | docs => trivial
  | oauth2Redirect => trivial

theorem router_for (F : Framework) (isLocal : Bool) (scope : Scope) :
    (router F isLocal scope).AllOps (AsgiOp.For (caller? isLocal scope)) := by
  unfold router
  cases F.routing isLocal scope.method scope.path with
  | redirect =>
      dsimp only
      cases F.redirectUrl scope <;> trivial
  | methodNotAllowed => trivial
  | notFound => trivial
  | endpoint endpoint =>
      refine ⟨trivial, fun bound => ?_⟩
      cases bound with
      | error rejection => trivial
      | ok arguments =>
          refine (run_for F isLocal scope endpoint arguments).bind fun ended => ?_
          cases ended with
          | error raised => trivial
          | ok response =>
              refine ⟨trivial, fun proceeded => ?_⟩
              cases proceeded <;> trivial

omit [DatetimeParser]

variable {owner? : Option String}

theorem HandlerOp.for {op : AsgiOp} (h : HandlerOp op) : op.For owner? := by
  match op, h with
  | .requestId, _ => trivial
  | .effect (.addMetric name), _ => exact .besides trivial

theorem respond_for (response : Response) : response.respond.AllOps (AsgiOp.For owner?) :=
  ⟨trivial, fun _ => ⟨trivial, fun _ => trivial⟩⟩

theorem exceptionMiddleware_for [RequestUrl] {scope : Scope}
    {routed : Asgi (Except Raised Response)} (h : routed.AllOps (AsgiOp.For owner?)) :
    (exceptionMiddleware scope routed).AllOps (AsgiOp.For owner?) := by
  refine h.bind fun ended => ?_
  cases ended with
  | ok response => exact (respond_for response).bind fun _ => trivial
  | error raised =>
      dsimp only
      cases hhandler : handler? scope raised with
      | none => trivial
      | some handler =>
          have hops : handler.AllOps (AsgiOp.For owner?) :=
            (handler_allOps hhandler).mono fun _ => HandlerOp.for
          refine hops.bind fun handled => ?_
          cases handled with
          | error raised' => trivial
          | ok response => exact (respond_for response).bind fun _ => trivial

/-- The middleware sends other messages, and nothing else. -/
theorem sendWithRequestId_for (rid : RequestId) (status : Nat) (op : AsgiOp)
    (h : op.For owner?) : ((sendWithRequestId rid).op status op).For owner? := by
  cases op with
  | effect op => exact h
  | _ => trivial

theorem requestContextMiddleware_for (scope : Scope) {app : App}
    (h : app.AllOps (AsgiOp.For owner?)) :
    (requestContextMiddleware scope app).AllOps (AsgiOp.For owner?) := by
  unfold requestContextMiddleware
  split_ifs
  · exact h
  · refine ⟨trivial, fun rid => ?_⟩
    refine (Program.AllOps.wrap (sendWithRequestId_for rid) h 500).bind fun ended => ?_
    exact ⟨trivial, fun route => ⟨.besides trivial, fun _ => trivial⟩⟩

/-- Neither does the handler around the middleware do anything else. -/
theorem application_for [RequestUrl] (outer : ServerErrorMiddleware) {scope : Scope} {app : App}
    (happ : app.AllOps (AsgiOp.For owner?)) {svc : Service} {w w' : World}
    {ops : List ((op : AsgiOp) × op.Ans)} {result : Except Raised Unit}
    (h : (application outer scope app).Traced (Exec svc scope) w ops result w') :
    ∀ x ∈ ops, x.1.For owner? := by
  have hmiddleware := requestContextMiddleware_for scope happ
  obtain ⟨hrun, -⟩ | ⟨raised, first, second, w₁, rfl, hrun, -, hhandler⟩ :=
    outer.traced_call_iff.mp h
  · exact hmiddleware.of_traced hrun
  · have hunhandled : (answerWith (fun _ => unhandled scope) raised).AllOps
        (AsgiOp.For owner?) :=
      unhandled_allOps trivial (.besides trivial) (fun _ => trivial) scope raised
    intro x hx
    rcases List.mem_append.mp hx with hx | hx
    · exact hmiddleware.of_traced hrun x hx
    · exact hunhandled.of_traced hhandler x hx

end Request

/-! ## The table -/

/-- What a request of an owner leaves of the table: the records of all others, and every record
if there is no owner. -/
structure ServedFor [CaseTables] (owner? : Option String) (R : Projects) (t t' : Table) :
    Prop where
  encoded : ∃ R', Represents R' t' ∧ ∀ id e, some e.project.ownerId ≠ owner? →
    (R'.find? id = some e ↔ R.find? id = some e)
  untouched : owner? = none → t' = t

section Table

variable [CaseTables] {owner? : Option String} {R R' : Projects} {t t₁ t₂ : Table}

theorem ServedFor.refl (h : Represents R t) : ServedFor owner? R t t where
  encoded := ⟨R, h, fun _ _ _ => Iff.rfl⟩
  untouched _ := rfl

/-- A new project belongs to the owner, and so does a project that is struck. -/
theorem ActsFor.others {svc : Service} {op : Op} {answer : op.Ans} (hop : ActsFor owner? op)
    (h : Represents R t) (hexec : svc.Exec t op answer t₁) :
    ∃ R', Represents R' t₁ ∧ ∀ id e, some e.project.ownerId ≠ owner? →
      (R'.find? id = some e ↔ R.find? id = some e) := by
  have hsame : ¬ Service.Writes op → ∃ R', Represents R' t₁ ∧
      ∀ id e, some e.project.ownerId ≠ owner? → (R'.find? id = some e ↔ R.find? id = some e) := by
    intro hreads
    obtain rfl := hexec.eq_of_not_writes hreads
    exact ⟨R, h, fun _ _ _ => Iff.rfl⟩
  cases hop with
  | @besides op hop =>
      refine hsame ?_
      cases op <;> first | exact id | exact absurd hop id
  | read projectId howner => exact hsame id
  | list limit cursor howner => exact hsame id
  | create p howner =>
      obtain ⟨R', hwrote, h'⟩ := h.exec_create hexec
      refine ⟨R', h', ?_⟩
      intro id e hother
      obtain ⟨-, rfl⟩ | ⟨-, hid, hname, rfl⟩ := hwrote.create_cases
      · exact Iff.rfl
      · rw [Registry.find?_add]
        by_cases hp : id = p.projectId
        · -- the id was free, and the record under it now is the owner's
          have hnew : some ({ project := p } : Entry) ≠ some e := by
            intro heq
            obtain rfl := Option.some.inj heq
            exact hother howner.symm
          rw [if_pos hp, hp, hid]
          exact iff_of_false hnew (by simp)
        · rw [if_neg hp]
  | delete projectId name howner =>
      obtain ⟨R', hwrote, h'⟩ := h.exec_delete hexec
      refine ⟨R', h', ?_⟩
      intro id e hother
      obtain ⟨-, rfl⟩ | ⟨-, ⟨struck, hstruck, hstruckOwner⟩, -, rfl⟩ := hwrote.delete_cases
      · exact Iff.rfl
      · rw [Registry.find?_remove]
        by_cases hid : id = projectId
        · -- the record that is struck was the owner's
          have hold : R.find? id ≠ some e := by
            intro he
            rw [hid, hstruck] at he
            obtain rfl := Option.some.inj he
            rw [hstruckOwner] at hother
            exact hother howner.symm
          rw [if_pos hid]
          exact iff_of_false (by simp) hold
        · rw [if_neg hid]

theorem ActsFor.untouched {svc : Service} {op : Op} {answer : op.Ans} (hop : ActsFor none op)
    (hexec : svc.Exec t op answer t₁) : t₁ = t := by
  refine hexec.eq_of_not_writes ?_
  intro hwrites
  cases hop with
  | @besides op hop => cases op <;> first | exact hop | exact hwrites
  | read projectId howner => cases howner
  | list limit cursor howner => cases howner
  | create p howner => cases howner
  | delete projectId name howner => cases howner

/-- One operation of a request. -/
theorem ServedFor.step {svc : Service} {op : Op} {answer : op.Ans} (hop : ActsFor owner? op)
    (h : ServedFor owner? R t t₁) (hexec : svc.Exec t₁ op answer t₂) :
    ServedFor owner? R t t₂ where
  encoded := by
    obtain ⟨R₁, h₁, hothers⟩ := h.encoded
    obtain ⟨R₂, h₂, hothers'⟩ := hop.others h₁ hexec
    exact ⟨R₂, h₂, fun id e hother => (hothers' id e hother).trans (hothers id e hother)⟩
  untouched hnone := by
    subst hnone
    exact (hop.untouched hexec).trans (h.untouched rfl)

/-- The operations of a request, one after the other. -/
theorem ServedFor.of_traced {svc : Service} {scope : Scope} {α : Type} {p : Asgi α}
    {w w' : World} {value : α} {ops : List ((op : AsgiOp) × op.Ans)} (hrep : Represents R w.table)
    (h : p.Traced (Exec svc scope) w ops value w') (hops : ∀ x ∈ ops, x.1.For owner?) :
    ServedFor owner? R w.table w'.table := by
  refine Program.Traced.invariant (I := fun v => ServedFor owner? R w.table v.table) ?_ h hops
    (.refl hrep)
  intro w₁ op answer w₂ hop hexec hserved
  cases hexec with
  | effect hservice => exact hserved.step hop hservice
  | _ => exact hserved

/-- The items of the others are the same before and after a request. -/
theorem ServedFor.keepsOthers {ownerId : String} (h : ServedFor (some ownerId) R t t₁)
    (hrep : Represents R t) : KeepsOthers ownerId t t₁ ∧ KeepsOthers ownerId t₁ t := by
  obtain ⟨R', hrep', hothers⟩ := h.encoded
  have hiff : ∀ id e, e.project.ownerId ≠ ownerId →
      (R'.find? id = some e ↔ R.find? id = some e) :=
    fun id e hother => hothers id e fun heq => hother (Option.some.inj heq)
  constructor
  · exact hrep.keepsOthers hrep' fun id e hother => (hiff id e hother).mpr
  · exact hrep'.keepsOthers hrep fun id e hother => (hiff id e hother).mp

end Table

/-! ## Requests without an owner -/

/-- What is raised for a request without an owner, by what came of reading its arguments. -/
def refused {α : Type} : Except Rejection α → Raised
  | .error (.undecodable errors) => .validation errors
  | .error (.unreadable detail) => .http 400 detail
  | .error (.failed text) => .other text
  | _ => .http 401 "Missing caller identity."

/-- The response to it. -/
def refusal {α : Type} (path : String) (bound : Except Rejection α) (rid : RequestId) :
    Response :=
  match bound with
  | .error (.undecodable errors) => validationResponse path errors rid
  | .error (.unreadable detail) => problemOf path 400 "Bad request" detail "http-400" [] rid
  | .error (.failed _) => unhandledResponse path rid
  | _ => problemOf path 401 "Unauthorized" "Missing caller identity." "http-401" [] rid

section Refused

variable [CaseTables] [DatetimeParser] {F : Framework} {isLocal : Bool} {svc : Service}
  {scope : Scope} {endpoint : Endpoint}

omit [CaseTables] [DatetimeParser] in
theorem currentUser_of_none (h : caller? isLocal scope = none) :
    currentUser isLocal scope = .error (.http 401 "Missing caller identity.") := by
  unfold caller? at h
  unfold currentUser at h ⊢
  split at h
  · cases h
  · split at h
    · cases h
    · rfl

/-- Without an owner no endpoint that needs one is reached. -/
theorem run_of_none (hidentified : endpoint.identified = true)
    (hcaller : caller? isLocal scope = none) (arguments : endpoint.Arguments) :
    endpoint.run F isLocal scope arguments =
      .done (.error (.http 401 "Missing caller identity.")) := by
  have huser := currentUser_of_none hcaller
  cases endpoint with
  | createProject | listProjects | getProject | deleteProject =>
      simp only [Endpoint.run, ofRoute, huser]
      rfl
  | health | openapi | docs | oauth2Redirect => cases hidentified

omit [CaseTables] [DatetimeParser] in
/-- Wrong arguments are reported to a known caller only. -/
theorem raised_of_none (hidentified : endpoint.identified = true)
    (hcaller : caller? isLocal scope = none) (errors : List FieldError) :
    (Rejection.invalid errors).raised isLocal scope endpoint =
      .http 401 "Missing caller identity." := by
  rw [Rejection.raised, currentUser_of_none hcaller]
  exact if_pos hidentified

/-- The arguments are read once, and then the request is refused. -/
theorem router_unidentified (hrouting : F.routing isLocal scope.method scope.path =
      .endpoint endpoint) (hidentified : endpoint.identified = true)
    (hcaller : caller? isLocal scope = none) {w w' : World}
    {ops : List ((op : AsgiOp) × op.Ans)} {result : Except Raised Response}
    (h : (router F isLocal scope).Traced (Exec svc scope) w ops result w') :
    ∃ bound, ops = [⟨.bind endpoint, bound⟩] ∧ result = .error (refused bound) := by
  rw [router, hrouting] at h
  obtain ⟨bound, w₁, rest, rfl, -, hrest⟩ := Program.traced_call_iff.mp h
  refine ⟨bound, ?_⟩
  cases bound with
  | ok arguments =>
      simp only [run_of_none hidentified hcaller, Program.bind_done] at hrest
      obtain ⟨rfl, rfl, -⟩ := Program.traced_done_iff.mp hrest
      exact ⟨rfl, rfl⟩
  | error rejection =>
      obtain ⟨rfl, rfl, -⟩ := Program.traced_done_iff.mp hrest
      refine ⟨rfl, congrArg _ ?_⟩
      cases rejection with
      | invalid errors => exact raised_of_none hidentified hcaller errors
      | undecodable errors => rfl
      | unreadable detail => rfl
      | failed text => rfl

omit [CaseTables] [DatetimeParser] in
/-- The refusal answers the exception. -/
theorem answer_refused {α : Type} (bound : Except Rejection α) (path : String) (rid : RequestId) :
    (refused bound).answer path rid = refusal path bound rid := by
  have hunauthorized : titleOf 401 = "Unauthorized" := by decide
  have hbad : titleOf 400 = "Bad request" := by decide
  rcases bound with rejection | arguments
  · cases rejection with
    | failed text => rfl
    | undecodable errors => rfl
    | unreadable detail =>
        show problemOf path 400 (titleOf 400) detail _ [] rid = _
        rw [hbad]
        rfl
    | invalid errors =>
        show problemOf path 401 (titleOf 401) _ _ [] rid = _
        rw [hunauthorized]
        rfl
  · show problemOf path 401 (titleOf 401) _ _ [] rid = _
    rw [hunauthorized]
    rfl

/-- The client gets the refusal, if the URL can be read. -/
theorem sent_unidentified [RequestUrl] (hhttp : scope.type = .http)
    (hrouting : F.routing isLocal scope.method scope.path = .endpoint endpoint)
    (hidentified : endpoint.identified = true) (hcaller : caller? isLocal scope = none)
    {t : Table} {w : World} {ops : List ((op : AsgiOp) × op.Ans)} {result : Except Raised Unit}
    (h : (createApp F isLocal scope).Traced (Exec svc scope) (World.fresh t) ops result w) :
    ∃ bound, ⟨.bind endpoint, bound⟩ ∈ ops ∧
      (∀ bound', ⟨.bind endpoint, bound'⟩ ∈ ops → bound' = bound) ∧
      ((∃ path rid, scope.urlPath = .ok path ∧ w.sent = (refusal path bound rid).messages) ∨
        (¬ scope.HasUrl ∧ w.sent = [])) := by
  obtain ⟨routed, rid, w₁, w₂, first, hanswers, hrouter, hbinds⟩ := traced_createApp hhttp h
  obtain ⟨bound, rfl, rfl⟩ := router_unidentified hrouting hidentified hcaller hrouter
  have hbound : ∀ bound', ⟨.bind endpoint, bound'⟩ ∈ ops → bound' = bound := by
    intro bound' hmem
    cases List.mem_singleton.mp (hbinds _ _ hmem)
    rfl
  obtain ⟨read, hread⟩ := exists_bind hhttp hrouting h
  refine ⟨bound, hbound read hread ▸ hread, hbound, ?_⟩
  obtain ⟨path, rid', hurl, hsent⟩ | hnothing := hanswers
  · rw [answer_refused] at hsent
    exact Or.inl ⟨path, rid', hurl, hsent⟩
  · exact Or.inr hnothing

end Refused

/-! ## The header of a local server -/

/-- The owner that the gateway names. -/
def gatewayOwner? (scope : Scope) : Option String :=
  (scope.event.bind GatewayEvent.apiKeyId).filter fun keyId => keyId ≠ ""

/-- The request with another header `x-api-key-id`. -/
def Scope.withIdentityHeader (scope : Scope) (header : Option String) : Scope :=
  { scope with identityHeader := header }

section Header

variable {isLocal : Bool} {scope : Scope}

/-- The gateway's key, or else the header of a local server. -/
theorem currentUser_eq (isLocal : Bool) (scope : Scope) :
    currentUser isLocal scope =
      (((gatewayOwner? scope).or (scope.identityHeader.filter fun header =>
        isLocal && header ≠ "")).map Except.ok).getD
          (.error (.http 401 "Missing caller identity.")) := by
  unfold currentUser gatewayOwner?
  cases (scope.event.bind GatewayEvent.apiKeyId).filter fun keyId => keyId ≠ "" with
  | some keyId => rfl
  | none =>
      cases scope.identityHeader.filter fun header => isLocal && header ≠ "" with
      | some header => rfl
      | none => rfl

/-- The header counts on a local server only, and there without the gateway only. -/
theorem currentUser_withIdentityHeader (header : Option String)
    (h : isLocal = true → (gatewayOwner? scope).isSome = true) :
    currentUser isLocal (scope.withIdentityHeader header) = currentUser isLocal scope := by
  have hgateway : gatewayOwner? (scope.withIdentityHeader header) = gatewayOwner? scope := rfl
  rw [currentUser_eq, currentUser_eq, hgateway]
  cases isLocal with
  | false => simp
  | true =>
      obtain ⟨keyId, hkey⟩ := Option.isSome_iff_exists.mp (h rfl)
      rw [hkey, Option.some_or, Option.some_or]

/-- Outside a local server, the owner in the log line is the caller. -/
theorem ownerId?_eq (scope : Scope) :
    ownerId? scope = ((caller? false scope).map LogValue.str).getD .none := by
  unfold ownerId? caller? currentUser
  cases (scope.event.bind GatewayEvent.apiKeyId).filter fun keyId => keyId ≠ "" with
  | some keyId => rfl
  | none => simp [Except.toOption]

variable [CaseTables] [DatetimeParser] [RequestUrl]

/-- The application for the request with another header. -/
theorem createApp_withIdentityHeader (F : Framework) (header : Option String)
    (hredirect : F.redirectUrl (scope.withIdentityHeader header) = F.redirectUrl scope)
    (h : isLocal = true → (gatewayOwner? scope).isSome = true) :
    createApp F isLocal (scope.withIdentityHeader header) = createApp F isLocal scope := by
  have huser := currentUser_withIdentityHeader header h
  have hrun : ∀ (endpoint : Endpoint) (arguments : endpoint.Arguments),
      endpoint.run F isLocal (scope.withIdentityHeader header) arguments =
        endpoint.run F isLocal scope arguments := by
    intro endpoint arguments
    cases endpoint <;> simp only [Endpoint.run, ofRoute, huser]
  have hraised : ∀ (endpoint : Endpoint) (rejection : Rejection),
      rejection.raised isLocal (scope.withIdentityHeader header) endpoint =
        rejection.raised isLocal scope endpoint := by
    intro endpoint rejection
    cases rejection <;> simp only [Rejection.raised, huser]
  have hrouter : router F isLocal (scope.withIdentityHeader header) = router F isLocal scope := by
    unfold router callEndpoint redirectResponse
    simp only [hrun, hraised, hredirect]
    rfl
  unfold createApp routes
  rw [hrouter]
  rfl

omit [CaseTables] [DatetimeParser] [RequestUrl] in
/-- No operation reads the header. -/
theorem exec_withIdentityHeader (svc : Service) (header : Option String) :
    Exec svc (scope.withIdentityHeader header) = Exec svc scope := by
  have himp : ∀ (scope : Scope) (header : Option String) {w w' : World} {op : AsgiOp}
      {answer : op.Ans}, Exec svc (scope.withIdentityHeader header) w op answer w' →
        Exec svc scope w op answer w' := by
    intro scope header w w' op answer hexec
    cases hexec with
    | requestId uuid => exact .requestId uuid
    | send message => exact .send message
    | route pathFormat => exact .route pathFormat
    | bind endpoint bound => exact .bind endpoint bound
    | proceed proceeded => exact .proceed proceeded
    | effect hservice => exact .effect hservice
  funext w op answer w'
  exact propext ⟨himp scope header, himp (scope.withIdentityHeader header) scope.identityHeader⟩

end Header

/-! ## Main results -/

section Main

variable [CaseTables] [DatetimeParser] [RequestUrl] (F : Framework) {isLocal : Bool}
  {svc : Service} {scope : Scope} {w : World} {ops : List ((op : AsgiOp) × op.Ans)}
  {result : Except Raised Unit}

/-- Every operation of a request on the table is one for the caller, so that the items of all
others are the same before and after it, and the table is if there is no caller.  Outside a local
server the one log line of the request names the caller as the owner. -/
theorem identity_governs_table {R : Projects} {t : Table} (hrep : Represents R t)
    (h : (createApp F isLocal scope).Traced (Exec svc scope) (World.fresh t) ops result w) :
    (∀ op answer, ⟨.effect op, answer⟩ ∈ ops → ActsFor (caller? isLocal scope) op) ∧
      (caller? isLocal scope = none → w.table = t) ∧
      (∀ ownerId, caller? isLocal scope = some ownerId →
        KeepsOthers ownerId t w.table ∧ KeepsOthers ownerId w.table t) ∧
      (isLocal = false → scope.type = .http → ∃ entry,
        w.lines.filter (fun entry => entry.message == "request completed") = [entry] ∧
          entry.fields.lookup "owner_id" =
            some (((caller? isLocal scope).map LogValue.str).getD .none)) := by
  have hops : ∀ x ∈ ops, x.1.For (caller? isLocal scope) :=
    application_for F.serverError (exceptionMiddleware_for (router_for F isLocal scope)) h
  have hserved : ServedFor (caller? isLocal scope) R t w.table := .of_traced hrep h hops
  refine ⟨fun op answer hop => hops _ hop, hserved.untouched, ?_, ?_⟩
  · intro ownerId hcaller
    rw [hcaller] at hserved
    exact hserved.keepsOthers hrep
  · rintro rfl hhttp
    obtain ⟨uuid, route, inner, ended, w₁, after, -, -, -, hlogged⟩ :=
      traced_logged hhttp F.serverError (wrappedApp_routes F false svc scope) h
    exact ⟨_, hlogged, congrArg some (ownerId?_eq scope)⟩

/-- A request without a caller is refused by an endpoint that needs one: with 401, whether its
arguments are valid or not, unless the body could not be read or the framework failed.  There is a
response if the URL can be read. -/
theorem unidentified_refused {endpoint : Endpoint} (hhttp : scope.type = .http)
    (hrouting : F.routing isLocal scope.method scope.path = .endpoint endpoint)
    (hidentified : endpoint.identified = true) (hcaller : caller? isLocal scope = none)
    {t : Table}
    (h : (createApp F isLocal scope).Traced (Exec svc scope) (World.fresh t) ops result w) :
    w.table = t ∧ ∃ bound, ⟨.bind endpoint, bound⟩ ∈ ops ∧
      (∀ bound', ⟨.bind endpoint, bound'⟩ ∈ ops → bound' = bound) ∧
      ((∃ path rid, scope.urlPath = .ok path ∧ w.sent = (refusal path bound rid).messages) ∨
        (¬ scope.HasUrl ∧ w.sent = [])) := by
  refine ⟨?_, sent_unidentified hhttp hrouting hidentified hcaller h⟩
  have hops : ∀ x ∈ ops, x.1.For none := by
    rw [← hcaller]
    exact application_for F.serverError (exceptionMiddleware_for (router_for F isLocal scope)) h
  refine Program.Traced.invariant (I := fun v => v.table = t) ?_ h hops rfl
  intro w₁ op answer w₂ hop hexec htable
  cases hexec with
  | effect hservice => exact (ActsFor.untouched hop hservice).trans htable
  | _ => exact htable

/-- Outside a local server, and behind a gateway that names an owner, a request runs as it does
with any other header `x-api-key-id`. -/
theorem identity_header_ignored (header : Option String)
    (hredirect : F.redirectUrl (scope.withIdentityHeader header) = F.redirectUrl scope)
    (hgateway : isLocal = true → (gatewayOwner? scope).isSome = true) {w' : World} :
    (createApp F isLocal (scope.withIdentityHeader header)).Traced
        (Exec svc (scope.withIdentityHeader header)) w ops result w' ↔
      (createApp F isLocal scope).Traced (Exec svc scope) w ops result w' := by
  rw [createApp_withIdentityHeader F header hredirect hgateway, exec_withIdentityHeader]

end Main

/-! ## A list request without an owner -/

section Instance

open scoped Sample

/-- `GET /v1/projects` -/
def listScope : Scope := { localScope with path := "/v1/projects" }

theorem routing_listScope : framework.routing false listScope.method listScope.path =
    .endpoint .listProjects := by
  decide +kernel

/-- Its arguments are invalid, but nobody is told. -/
theorem exists_run_listScope :
    ∃ ops w, (createApp framework false listScope).Traced (Exec idleService listScope)
        (World.fresh ∅) ops (.ok ()) w ∧
      ⟨.bind .listProjects, .error (.invalid [])⟩ ∈ ops := by
  rw [createApp, routes, router, routing_listScope]
  exact ⟨_, _, .call (.requestId (Uuid4.repeated 'a' (by decide)))
    (.call (.bind .listProjects (.error (.invalid [])))
      (.call (.requestId (Uuid4.repeated 'a' (by decide))) (.call (.send _) (.call (.send _)
        (.call (.route none) (.call (.effect (.log _)) (.done _ _))))))),
    List.mem_cons_of_mem _ List.mem_cons_self⟩

theorem unidentified_list_refused :
    ∃ ops w, (createApp framework false listScope).Traced (Exec idleService listScope)
        (World.fresh ∅) ops (.ok ()) w ∧
      ∃ headers content, w.sent = [.start 401 headers, .body content] := by
  obtain ⟨ops, w, hrun, hbind⟩ := exists_run_listScope
  obtain ⟨-, bound, -, hbound, ⟨path, rid, -, hsent⟩ | ⟨hurl, -⟩⟩ :=
    unidentified_refused framework rfl routing_listScope rfl rfl hrun
  · obtain rfl := hbound _ hbind
    exact ⟨ops, w, hrun, _, _, hsent⟩
  · exact absurd ⟨_, rfl⟩ hurl

theorem unidentified_list_untouched :
    ∃ ops w, (createApp framework false listScope).Traced (Exec idleService listScope)
        (World.fresh ∅) ops (.ok ()) w ∧ w.table = ∅ ∧
      ∀ request answer, ⟨.effect (.query request), answer⟩ ∉ ops := by
  obtain ⟨ops, w, hrun, -⟩ := exists_run_listScope
  obtain ⟨hops, htable, -⟩ := identity_governs_table framework .empty hrun
  refine ⟨ops, w, hrun, htable rfl, ?_⟩
  intro request answer hquery
  cases hops _ _ hquery with
  | besides hop => exact hop
  | list limit cursor howner => cases howner

/-- A header instead of the gateway changes nothing. -/
theorem spoofed_list_refused :
    ∃ ops w, (createApp framework false (listScope.withIdentityHeader (some "key-alice"))).Traced
        (Exec idleService (listScope.withIdentityHeader (some "key-alice")))
        (World.fresh ∅) ops (.ok ()) w ∧
      ⟨.bind .listProjects, .error (.invalid [])⟩ ∈ ops := by
  obtain ⟨ops, w, hrun, hbind⟩ := exists_run_listScope
  exact ⟨ops, w, (identity_header_ignored framework (some "key-alice") rfl (by simp)).mpr hrun,
    hbind⟩

end Instance

end ProjectsApi.Http
