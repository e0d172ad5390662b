import ProjectsApi.Http.Identity
import ProjectsApi.OpenApi.Document

/-!
# The document and the wire

What the served document says about an operation is what the application does: every response
to a request for it has a status that the operation declares, with the content that it declares
for that status, and the operations that waive the key are those that need no caller
(`responses_documented`).  The 401 of `current_user` is the one response that no route declares.
-/

namespace ProjectsApi.Http

open Foundation Foundation.Json Dynamo

/-! ## The responses of an endpoint -/

/-- The operation of the document that describes an endpoint: its path and its method. -/
def Endpoint.operation? : Endpoint → Option (String × String)
  | .health => some ("/health", "get")
  | .createProject => some ("/v1/projects", "post")
  | .listProjects => some ("/v1/projects", "get")
  | .getProject => some ("/v1/projects/{project_id}", "get")
  | .deleteProject => some ("/v1/projects/{project_id}", "delete")
  | _ => none

/-- `status_code` of a route. -/
def Endpoint.status : Endpoint → Nat
  | .createProject => 201
  | .deleteProject => 204
  | _ => 200

/-- The content of a success. -/
def Endpoint.contentType : Endpoint → Option String
  | .deleteProject => none
  | _ => some "application/json"

/-- `responses` of a route. -/
def Endpoint.responses : Endpoint → List Nat
  | .createProject => [400, 409]
  | .listProjects => [400]
  | .getProject => [404]
  | .deleteProject => [404]
  | _ => []

/-- The endpoints with arguments that may be invalid; an id in the path is any text. -/
def Endpoint.validates : Endpoint → Bool
  | .createProject => true
  | .listProjects => true
  | _ => false

/-- The result of an endpoint is the success that its route declares, an error that it
declares, or unexpected. -/
def EndsAs (endpoint : Endpoint) : Except Raised Response → Prop
  | .ok response => response.status = endpoint.status ∧
      response.headers.lookup "content-type" = endpoint.contentType
  | .error raised => raised.status ∈ 500 :: endpoint.responses

/-- The result of a route, as the application sees it. -/
def rendered : Except Exn HttpResponse → Except Raised Response
  | .ok response => .ok (render response [])
  | .error exn => .error (.route exn)

/-! ### What the repository raises -/

/-- An error is one with a status of the list, or unexpected. -/
def Fails {α : Type} (codes : List Nat) (x : Except Exn α) : Prop :=
  ∀ exn, x = .error exn → (Raised.route exn).status ∈ 500 :: codes

section Fails

variable {α β : Type} {codes : List Nat}

theorem fails_ok (value : α) : Fails codes (.ok value) := by
  intro exn h
  cases h

theorem fails_error {exn : Exn} (h : (Raised.route exn).status ∈ 500 :: codes) :
    Fails codes (.error exn : Except Exn α) := by
  intro exn' heq
  rwa [← Except.error.inj heq]

theorem Fails.bind {x : Except Exn α} {f : α → Except Exn β} (hx : Fails codes x)
    (hf : ∀ a, Fails codes (f a)) : Fails codes (x >>= f) := by
  cases x with
  | error exn => exact fails_error (hx exn rfl)
  | ok a => exact hf a

theorem fails_stringField (item : Item) (name : String) :
    Fails codes (stringField item name) := by
  unfold stringField
  split
  · exact fails_error List.mem_cons_self
  · exact fails_ok _
  · exact fails_error List.mem_cons_self

theorem fails_validated (field : String) (value : Option α) :
    Fails codes (validated field value) := by
  cases value with
  | none => exact fails_error List.mem_cons_self
  | some value => exact fails_ok value

/-- A record that cannot be read is unexpected. -/
theorem fails_toProject [DatetimeParser] (item : Item) : Fails codes (toProject item) := by
  unfold toProject
  iterate 7 refine (fails_stringField item _).bind fun _ => ?_
  iterate 4 refine (fails_validated _ _).bind fun _ => ?_
  exact fails_ok _

theorem fails_mapM_toProject [DatetimeParser] (items : List Item) :
    Fails codes (items.mapM toProject) := by
  induction items with
  | nil => exact fails_ok _
  | cons item items ih =>
      rw [List.mapM_cons]
      exact (fails_toProject item).bind fun _ => ih.bind fun _ => fails_ok _

end Fails

section Repository

variable [CaseTables] [DatetimeParser]

omit [DatetimeParser] in
theorem create_fails (project : Project) :
    (ProjectRepository.create project).Ends (Fails [409]) := by
  intro answer
  cases answer with
  | ok value => exact fails_ok _
  | error e =>
      refine fails_error ?_
      unfold ProjectRepository.createError
      split
      · split
        · split <;> simp [Raised.status]
        · split <;> simp [Raised.status]
      · exact List.mem_cons_self

omit [CaseTables] in
theorem get_fails (projectId : String) : (ProjectRepository.get projectId).Ends (Fails [404]) := by
  intro answer
  rcases answer with e | _ | item
  · exact fails_error List.mem_cons_self
  · exact fails_error (by simp [Raised.status])
  · simp only [Program.bind_done]
    split_ifs
    · exact fails_error (by simp [Raised.status])
    · exact fails_toProject item

omit [CaseTables] in
theorem listByOwner_fails (ownerId : String) (limit : Nat) (cursor : Option CursorKey) :
    (ProjectRepository.listByOwner ownerId limit cursor).Ends (Fails [400]) := by
  intro answer
  cases answer with
  | error e =>
      simp only [Program.bind_done]
      split_ifs
      · exact fails_error (by simp [Raised.status])
      · exact fails_error List.mem_cons_self
  | ok output =>
      have hprojects : Fails [400] (output.items.mapM toProject) := fails_mapM_toProject _
      show Fails [400] ((output.items.mapM toProject).map _)
      cases hread : output.items.mapM toProject with
      | error exn => exact fails_error (hprojects exn hread)
      | ok projects => exact fails_ok _

theorem delete_fails (projectId ownerId : String) :
    (ProjectRepository.delete projectId ownerId).Ends (Fails [404]) := by
  refine Program.Ends.bind ((get_fails projectId).mono fun found hfound => ?_)
  cases found with
  | error exn => exact fails_error (hfound exn rfl)
  | ok project =>
      dsimp only
      split_ifs
      · exact fails_error (by simp [Raised.status])
      · intro answer
        cases answer with
        | ok value => exact fails_ok _
        | error e =>
            simp only [Program.bind_done, ProjectRepository.deleteError]
            split_ifs
            · exact fails_error (by simp [Raised.status])
            · exact fun _ => fails_error List.mem_cons_self
            · exact fails_error List.mem_cons_self
            · exact fails_error List.mem_cons_self

end Repository

/-! ### The routes -/

/-- A token is refused in one way only. -/
theorem decodeNextToken_error {nextToken : Option String} {ownerId : String} {exn : Exn}
    (h : decodeNextToken nextToken ownerId = .error exn) : exn = .invalidCursor := by
  cases nextToken with
  | none => cases h
  | some token =>
      rw [decodeNextToken] at h
      cases hdecode : decodeCursor token ownerId with
      | error exn' =>
          rw [hdecode] at h
          exact (Except.error.inj h).symm.trans (decodeCursor_error hdecode)
      | ok key =>
          rw [hdecode] at h
          cases h

section Routes

variable [CaseTables] [DatetimeParser]

omit [DatetimeParser] in
theorem createProject_endsAs (name : String) (type : ProjectType) (ownerId : String) :
    (ProjectsApi.createProject name type ownerId).Ends
      fun ended => EndsAs .createProject (rendered ended) := by
  unfold ProjectsApi.createProject
  simp only [Program.perform_bind, Program.ends_call]
  intro now uuid
  refine Program.Ends.bind ((create_fails _).mono fun created hcreated => ?_)
  cases created with
  | error exn =>
      rcases List.mem_cons.mp (hcreated exn rfl) with hstatus | hstatus
      · exact List.mem_cons.mpr (Or.inl hstatus)
      · exact List.mem_cons_of_mem _ (List.mem_cons_of_mem _ hstatus)
  | ok value =>
      have hlocation : ("content-type" == "Location".toLower) = false := by decide +kernel
      intro _ _
      refine ⟨rfl, ?_⟩
      simp [render, contentType, Endpoint.contentType, List.lookup_cons, hlocation]

omit [CaseTables] in
theorem listProjects_endsAs (ownerId : String) (limit : Nat) (nextToken : Option String) :
    (ProjectsApi.listProjects ownerId limit nextToken).Ends
      fun ended => EndsAs .listProjects (rendered ended) := by
  unfold ProjectsApi.listProjects
  cases hcursor : decodeNextToken nextToken ownerId with
  | error exn =>
      obtain rfl := decodeNextToken_error hcursor
      exact List.mem_cons_of_mem _ List.mem_cons_self
  | ok cursor =>
      refine Program.Ends.bind ((listByOwner_fails _ _ _).mono fun listed hlisted => ?_)
      cases listed with
      | error exn => exact hlisted exn rfl
      | ok page =>
          intro _
          dsimp only
          cases encodeLastKey page.2 with
          | none => exact List.mem_cons_self
          | some token => exact ⟨rfl, rfl⟩

omit [CaseTables] in
theorem getProject_endsAs (projectId ownerId : String) :
    (ProjectsApi.getProject projectId ownerId).Ends
      fun ended => EndsAs .getProject (rendered ended) := by
  unfold ProjectsApi.getProject
  split_ifs
  · exact List.mem_cons_of_mem _ List.mem_cons_self
  · refine Program.Ends.bind ((get_fails projectId).mono fun found hfound => ?_)
    cases found with
    | error exn => exact hfound exn rfl
    | ok project =>
        dsimp only
        split_ifs
        · exact List.mem_cons_of_mem _ List.mem_cons_self
        · exact ⟨rfl, rfl⟩

theorem deleteProject_endsAs (projectId ownerId : String) :
    (ProjectsApi.deleteProject projectId ownerId).Ends
      fun ended => EndsAs .deleteProject (rendered ended) := by
  unfold ProjectsApi.deleteProject
  split_ifs
  · exact List.mem_cons_of_mem _ List.mem_cons_self
  · refine Program.Ends.bind ((delete_fails projectId ownerId).mono fun deleted hdeleted => ?_)
    cases deleted with
    | error exn => exact hdeleted exn rfl
    | ok value => exact fun _ _ => ⟨rfl, rfl⟩

omit [CaseTables] [DatetimeParser] in
theorem ofRoute_endsAs {endpoint : Endpoint} {isLocal : Bool} {scope : Scope} {ownerId : String}
    (huser : currentUser isLocal scope = .ok ownerId)
    {route : String → Action (Except Exn HttpResponse)}
    (hroute : (route ownerId).Ends fun ended => EndsAs endpoint (rendered ended)) :
    (ofRoute isLocal scope route).Ends (EndsAs endpoint) := by
  unfold ofRoute
  rw [huser]
  refine Program.Ends.bind (hroute.embed.mono fun ended hended => ?_)
  cases ended with
  | error exn => exact hended
  | ok response => exact hended

variable {F : Framework} {isLocal : Bool} {scope : Scope} {endpoint : Endpoint}

omit [CaseTables] [DatetimeParser] in
theorem exists_currentUser (h : (caller? isLocal scope).isSome = true) :
    ∃ ownerId, currentUser isLocal scope = .ok ownerId := by
  unfold caller? at h
  cases huser : currentUser isLocal scope with
  | error raised =>
      rw [huser] at h
      cases h
  | ok ownerId => exact ⟨ownerId, rfl⟩

theorem run_endsAs (hoperation : endpoint.operation?.isSome = true)
    (hcaller : endpoint.identified = true → (caller? isLocal scope).isSome = true)
    (arguments : endpoint.Arguments) :
    (endpoint.run F isLocal scope arguments).Ends (EndsAs endpoint) := by
  have huser := fun hidentified => exists_currentUser (hcaller hidentified)
  cases endpoint with
  | health => exact ⟨rfl, rfl⟩
  | createProject =>
      obtain ⟨ownerId, huser⟩ := huser rfl
      exact ofRoute_endsAs huser (createProject_endsAs _ _ _)
  | listProjects =>
      obtain ⟨ownerId, huser⟩ := huser rfl
      exact ofRoute_endsAs huser (listProjects_endsAs _ _ _)
  | getProject =>
      obtain ⟨ownerId, huser⟩ := huser rfl
      exact ofRoute_endsAs huser (getProject_endsAs _ _)
  | deleteProject =>
      obtain ⟨ownerId, huser⟩ := huser rfl
      exact ofRoute_endsAs huser (deleteProject_endsAs _ _)
  | openapi | docs | oauth2Redirect => cases hoperation

omit [CaseTables] [DatetimeParser] in
/-- A route whose arguments may be invalid declares the 400. -/
theorem mem_responses_of_validates (h : endpoint.validates = true) :
    400 ∈ 500 :: endpoint.responses := by
  revert h
  cases endpoint <;> decide

omit [CaseTables] [DatetimeParser] in
/-- What is refused before the caller counts gets an error that the route declares. -/
theorem refused_endsAs (α : Type) {rejection : Rejection}
    (hreads : endpoint.validates = false → ∃ text, rejection = .failed text)
    (hinvalid : ∀ errors, rejection ≠ .invalid errors) :
    EndsAs endpoint (.error (refused (.error rejection : Except Rejection α))) := by
  cases hvalidates : endpoint.validates with
  | false =>
      obtain ⟨text, rfl⟩ := hreads hvalidates
      exact List.mem_cons_self
  | true =>
      cases rejection with
      | undecodable errors => exact mem_responses_of_validates hvalidates
      | unreadable detail => exact mem_responses_of_validates hvalidates
      | failed text => exact List.mem_cons_self
      | invalid errors => exact absurd rfl (hinvalid errors)

omit [CaseTables] [DatetimeParser] in
/-- A rejected request gets an error that the route declares, if it is rejected for its
arguments. -/
theorem raised_endsAs {rejection : Rejection}
    (hcaller : endpoint.identified = true → (caller? isLocal scope).isSome = true)
    (hreads : endpoint.validates = false → ∃ text, rejection = .failed text) :
    EndsAs endpoint (.error (rejection.raised isLocal scope endpoint)) := by
  cases rejection with
  | undecodable errors => exact refused_endsAs Unit hreads fun _ h => by cases h
  | unreadable detail => exact refused_endsAs Unit hreads fun _ h => by cases h
  | failed text => exact List.mem_cons_self
  | invalid errors =>
      have hvalidates : endpoint.validates = true := by
        by_contra hfalse
        obtain ⟨text, htext⟩ := hreads (Bool.not_eq_true _ ▸ hfalse)
        cases htext
      have hvalidation : (Rejection.invalid errors).raised isLocal scope endpoint =
          .validation errors := by
        unfold Rejection.raised
        cases huser : currentUser isLocal scope with
        | ok ownerId => rfl
        | error raised =>
            refine if_neg fun hidentified => ?_
            obtain ⟨ownerId, hok⟩ := exists_currentUser (hcaller hidentified)
            rw [huser] at hok
            cases hok
      rw [hvalidation]
      exact mem_responses_of_validates hvalidates

/-- The router's result for a request that has a caller, if it needs one. -/
theorem traced_router_endsAs {svc : Service}
    (hrouting : F.routing isLocal scope.method scope.path = .endpoint endpoint)
    (hoperation : endpoint.operation?.isSome = true)
    (hcaller : endpoint.identified = true → (caller? isLocal scope).isSome = true) {w w' : World}
    {ops : List ((op : AsgiOp) × op.Ans)} {routed : Except Raised Response}
    (h : (router F isLocal scope).Traced (Exec svc scope) w ops routed w')
    (hreads : endpoint.validates = false → ∀ rejection,
      ⟨.bind endpoint, .error rejection⟩ ∈ ops → ∃ text, rejection = .failed text) :
    EndsAs endpoint routed := by
  rw [router, hrouting] at h
  obtain ⟨bound, w₁, rest, rfl, -, hrest⟩ := Program.traced_call_iff.mp h
  cases bound with
  | error rejection =>
      obtain ⟨-, rfl, -⟩ := Program.traced_done_iff.mp hrest
      exact raised_endsAs hcaller fun hvalidates => hreads hvalidates rejection List.mem_cons_self
  | ok arguments =>
      simp only [Program.bind_done] at hrest
      obtain ⟨ended, w₂, first, second, rfl, hrun, hended⟩ := Program.traced_bind_iff.mp hrest
      have hends := (run_endsAs hoperation hcaller arguments).of_traced hrun
      cases ended with
      | error raised =>
          obtain ⟨-, rfl, -⟩ := Program.traced_done_iff.mp hended
          exact hends
      | ok response =>
          obtain ⟨proceeded, w₃, last, -, -, hlast⟩ := Program.traced_call_iff.mp hended
          cases proceeded with
          | some text =>
              obtain ⟨-, rfl, -⟩ := Program.traced_done_iff.mp hlast
              exact List.mem_cons_self
          | none =>
              obtain ⟨-, rfl, -⟩ := Program.traced_done_iff.mp hlast
              exact hends

/-- Without a caller it may also be the 401 of `current_user`. -/
theorem traced_router_unidentified {svc : Service}
    (hrouting : F.routing isLocal scope.method scope.path = .endpoint endpoint)
    (hidentified : endpoint.identified = true) (hcaller : caller? isLocal scope = none)
    {w w' : World} {ops : List ((op : AsgiOp) × op.Ans)} {routed : Except Raised Response}
    (h : (router F isLocal scope).Traced (Exec svc scope) w ops routed w')
    (hreads : endpoint.validates = false → ∀ rejection,
      ⟨.bind endpoint, .error rejection⟩ ∈ ops → ∃ text, rejection = .failed text) :
    EndsAs endpoint routed ∨ ∃ raised, routed = .error raised ∧ raised.status = 401 := by
  obtain ⟨bound, rfl, rfl⟩ := router_unidentified hrouting hidentified hcaller h
  rcases bound with rejection | arguments
  · by_cases hinvalid : ∃ errors, rejection = .invalid errors
    · obtain ⟨errors, rfl⟩ := hinvalid
      exact Or.inr ⟨_, rfl, rfl⟩
    · have hreads' := fun hvalidates => hreads hvalidates rejection List.mem_cons_self
      exact Or.inl (refused_endsAs _ hreads' fun errors heq => hinvalid ⟨errors, heq⟩)
  · exact Or.inr ⟨_, rfl, rfl⟩

end Routes

/-! ## What is sent -/

/-- The client gets a response with a status and a content type. -/
def Sends (sent : List Message) (status : Nat) (contentType : Option String) : Prop :=
  ∃ headers content, sent = [.start status headers, .body content] ∧
    headers.lookup "content-type" = contentType

theorem lookup_setDefault (headers : List (String × String)) (value : String) :
    (setDefault headers requestIdKey value).lookup "content-type" =
      headers.lookup "content-type" := by
  unfold setDefault
  split_ifs
  · rfl
  · rw [List.lookup_append, List.lookup_cons]
    simp [requestIdKey]

theorem sends_of_answers [RequestUrl] {scope : Scope} {rid : RequestId} {sent : List Message}
    {routed : Except Raised Response} (h : Answers scope rid sent routed) :
    match routed with
    | .ok response => Sends sent response.status (response.headers.lookup "content-type")
    | .error raised =>
        Sends sent raised.status (some problemContentType) ∨ (¬ scope.HasUrl ∧ sent = []) := by
  cases routed with
  | ok response => exact ⟨_, _, h, lookup_setDefault _ _⟩
  | error raised =>
      obtain ⟨path, rid', -, hsent⟩ | hnothing := h
      · obtain ⟨title, detail, problemType, extra, -, hanswer⟩ := raised.exists_answer_eq
        rw [hanswer] at hsent
        refine Or.inl ⟨_, _, hsent, ?_⟩
        rw [problemOf_headers]
        rfl
      · exact Or.inr hnothing

/-! ## What the document declares -/

/-- An operation of a document declares a status, with the content or with none. -/
def Declared (document : Json) (operation : Place) (status : Nat) (contentType : Option String) :
    Prop :=
  ∃ response, at? (operation ++ placeOf ["responses", toString status]) document =
      some (.object response) ∧
    match contentType with
    | none => response.lookup (codePoints "content") = none
    | some contentType => ∃ content,
        response.lookup (codePoints "content") = some (.object content) ∧
          dictHas content (codePoints contentType) = true

/-- The framework describes every route by an operation, with the success and the errors that
the route declares. -/
def DescribesRoutes (schema : Members) : Prop :=
  ∀ endpoint : Endpoint, ∀ path method, endpoint.operation? = some (path, method) →
    ∃ operation, IsOperation (.object schema) (codePoints path) (codePoints method) operation ∧
      Declared (.object operation) [] endpoint.status endpoint.contentType ∧
      ∀ status ∈ endpoint.responses,
        (at? (placeOf ["responses", toString status]) (.object operation)).isSome = true

section Declared

/-- What is read behind a key is read from a dictionary. -/
theorem at?_cons_eq_some {key : CodePoints} {place : Place} {value found : Json}
    (h : at? (key :: place) value = some found) :
    ∃ members next, value = .object members ∧ members.lookup key = some next ∧
      at? place next = some found := by
  cases value with
  | object members =>
      obtain ⟨next, hlookup, hnext⟩ := Option.bind_eq_some_iff.mp h
      exact ⟨members, next, rfl, hlookup, hnext⟩
  | _ => cases h

variable {ids : CodePoints → CodePoints → Option CodePoints} {path method : CodePoints}
  {operation : Members} {hasExamples : Prop} {document : Json}

/-- A response with content is declared with it. -/
theorem declared_of_content {place : Place} {status : Nat} (contentType : String)
    (rest : Place) {found : Json}
    (h : at? (place ++ placeOf ["responses", toString status] ++
      codePoints "content" :: codePoints contentType :: rest) document = some found) :
    Declared document place status (some contentType) := by
  rw [at?_append] at h
  obtain ⟨response, hresponse, hcontent⟩ := Option.bind_eq_some_iff.mp h
  obtain ⟨members, next, rfl, hlookup, hnext⟩ := at?_cons_eq_some hcontent
  obtain ⟨content, inner, rfl, hinner, -⟩ := at?_cons_eq_some hnext
  refine ⟨members, hresponse, content, hlookup, ?_⟩
  rw [dictHas, hinner]
  rfl

/-- An operation that declares a response has a dictionary of them. -/
theorem exists_declaredResponses {status : Nat} {contentType : Option String}
    (h : Declared (.object operation) [] status contentType) :
    ∃ declared, declaredResponses? operation = some declared ∧
      ∀ code, (at? [codePoints "responses", code] (.object operation)).isSome = true →
        dictHas declared code = true := by
  obtain ⟨response, hresponse, -⟩ := h
  obtain ⟨members, next, heq, hlookup, hnext⟩ := at?_cons_eq_some hresponse
  obtain rfl := Json.object.inj heq
  obtain ⟨declared, -, rfl, -⟩ := at?_cons_eq_some hnext
  refine ⟨declared, ?_, ?_⟩
  · rw [declaredResponses?, hlookup]
  · intro code hsome
    rw [at?_cons_object, hlookup, Option.bind_some, at?_cons_object, Option.isSome_bind] at hsome
    rw [dictHas]
    exact Option.isSome_of_any hsome

/-- A declared error, and every default, is declared as a problem. -/
theorem declared_problem (h : PublishedOperation ids path method operation hasExamples document)
    {declared : Members} (hdeclared : declaredResponses? operation = some declared) {status : Nat}
    (herror : isSuccess (codePoints (toString status)) = false)
    (hcode : codePoints (toString status) ≠ codePoints "422" ∧
        dictHas declared (codePoints (toString status)) = true ∨
      codePoints (toString status) = codePoints "500") :
    Declared document (operationPlace path method) status (some problemContentType) := by
  have hthere : (at? (operationPlace path method ++
      [codePoints "responses", codePoints (toString status)]) document).isSome = true :=
    (h.codes declared hdeclared _).mpr (hcode.imp_right Or.inl)
  obtain ⟨response, hresponse⟩ := Option.isSome_iff_exists.mp hthere
  have hcontent := h.problems _ response herror hresponse
  apply declared_of_content problemContentType []
  rw [show operationPlace path method ++ placeOf ["responses", toString status] ++
      [codePoints "content", codePoints problemContentType] =
    (operationPlace path method ++ [codePoints "responses", codePoints (toString status),
      codePoints "content"]) ++ [codePoints problemContentType] by simp [placeOf],
    at?_append_of_eq hcontent]
  rfl

/-- The success that a route declares stays declared. -/
theorem declared_success (h : PublishedOperation ids path method operation hasExamples document)
    (hexamples : hasExamples → HasExamples (operationPlace path method) document)
    {endpoint : Endpoint}
    (hdeclared : Declared (.object operation) [] endpoint.status endpoint.contentType) :
    Declared document (operationPlace path method) endpoint.status endpoint.contentType := by
  have hsuccess : isSuccess (codePoints (toString endpoint.status)) = true := by
    cases endpoint <;> decide +kernel
  have hkept : (hasExamples → ∀ p ∈ examplePlaces,
      Apart p [codePoints "responses", codePoints (toString endpoint.status)]) →
      Declared document (operationPlace path method) endpoint.status endpoint.contentType := by
    intro hapart
    obtain ⟨response, hresponse, hcontent⟩ := hdeclared
    refine ⟨response, ?_, hcontent⟩
    exact (h.successes (codePoints (toString endpoint.status)) [] hsuccess hapart).trans hresponse
  cases endpoint with
  | createProject =>
      by_cases hhas : hasExamples
      · exact declared_of_content "application/json" [codePoints "example"]
          (hexamples hhas).project
      · exact hkept fun hhas' => absurd hhas' hhas
  | _ => exact hkept fun _ => by decide +kernel

end Declared

/-! ## Main result -/

theorem isPublicOperation_eq {endpoint : Endpoint} {path method : String}
    (h : endpoint.operation? = some (path, method)) :
    isPublicOperation (codePoints path) (codePoints method) = !endpoint.identified := by
  cases endpoint <;> first
    | cases h; decide
    | cases h

section Main

variable [CaseTables] [DatetimeParser] [TitleTables] [RequestUrl] {F : Framework}
  {isLocal : Bool} {svc : Service} {scope : Scope} {routes : List RouteContext} {schema : Members}
  {document : Json} {endpoint : Endpoint} {path method : String}

omit [DatetimeParser] in
/-- The result of an endpoint is declared, or stays unanswered. -/
theorem declared_of_endsAs {created : Option (CodePoints × CodePoints)} {operation : Members}
    (hpublished : PublishedOperation (operationIds routes) (codePoints path) (codePoints method)
      operation (created = some (codePoints path, codePoints method)) document)
    (hexamples : ExamplesContract (operationIds routes) schema created document)
    (hsuccess : Declared (.object operation) [] endpoint.status endpoint.contentType)
    (herrors : ∀ status ∈ endpoint.responses,
      (at? (placeOf ["responses", toString status]) (.object operation)).isSome = true)
    {routed : Except Raised Response} (h : EndsAs endpoint routed) {rid : RequestId}
    {sent : List Message} (hanswers : Answers scope rid sent routed) :
    (∃ status contentType, Sends sent status contentType ∧
      Declared document (operationPlace (codePoints path) (codePoints method)) status
        contentType) ∨
      (¬ scope.HasUrl ∧ sent = []) := by
  have hsends := sends_of_answers hanswers
  cases routed with
  | ok response =>
      refine Or.inl ⟨_, _, hsends, ?_⟩
      obtain ⟨hstatus, hcontentType⟩ := h
      rw [hstatus, hcontentType]
      exact declared_success hpublished
        (fun hcreated => (hexamples.examples _ _ hcreated).1) hsuccess
  | error raised =>
      refine hsends.imp_left fun hsends => ⟨_, _, hsends, ?_⟩
      obtain ⟨declared, hdeclared, hhas⟩ := exists_declaredResponses hsuccess
      have hmem : raised.status ∈ 500 :: endpoint.responses := h
      have hcodes : ∀ endpoint : Endpoint, ∀ status ∈ 500 :: endpoint.responses,
          isSuccess (codePoints (toString status)) = false ∧
            codePoints (toString status) ≠ codePoints "422" := by
        intro endpoint
        cases endpoint <;> decide +kernel
      obtain ⟨herror, hne⟩ := hcodes endpoint raised.status hmem
      refine declared_problem hpublished hdeclared herror ?_
      rcases List.mem_cons.mp hmem with hdefault | hdeclared'
      · rw [hdefault]
        exact Or.inr (by decide +kernel)
      · exact Or.inl ⟨hne, hhas _ (herrors _ hdeclared')⟩

/-- Every response to a request for an operation of the served document is one that the
operation declares, by its status and its content, unless it is the 401 for a request without a
caller; and the key is waived for the operations that need no caller.  A request without a URL may
stay without a response. -/
theorem responses_documented (problem : ModelJsonSchema)
    (hgenerated : IsGeneratedDocument (operationIds routes) schema)
    (hroutes : DescribesRoutes schema)
    (hbuild : buildOpenapi problem routes schema = some document)
    (hoperation : endpoint.operation? = some (path, method)) (hhttp : scope.type = .http)
    (hrouting : F.routing isLocal scope.method scope.path = .endpoint endpoint) {t : Table}
    {w : World} {ops : List ((op : AsgiOp) × op.Ans)} {result : Except Raised Unit}
    (h : (createApp F isLocal scope).Traced (Exec svc scope) (World.fresh t) ops result w)
    (hreads : endpoint.validates = false → ∀ rejection,
      ⟨.bind endpoint, .error rejection⟩ ∈ ops → ∃ text, rejection = .failed text) :
    (at? (operationPlace (codePoints path) (codePoints method) ++ placeOf ["security"]) document =
        some (.array []) ↔ endpoint.identified = false) ∧
      ((∃ status contentType, Sends w.sent status contentType ∧
        (Declared document (operationPlace (codePoints path) (codePoints method)) status
            contentType ∨
          endpoint.identified = true ∧ caller? isLocal scope = none ∧ status = 401)) ∨
        (¬ scope.HasUrl ∧ w.sent = [])) := by
  obtain ⟨schema', created, document', hprocess, hbuild', hagree, hexamples⟩ :=
    exists_buildOpenapi hgenerated problem
  obtain rfl := Option.some.inj (hbuild'.symm.trans hbuild)
  obtain ⟨operation, hdescribed, hsuccess, herrors⟩ := hroutes endpoint path method hoperation
  have hpublished := hgenerated.published hprocess hagree hexamples hdescribed
  constructor
  · rw [hpublished.security, isPublicOperation_eq hoperation]
    cases endpoint.identified <;> simp
  · obtain ⟨routed, rid, w₁, w₂, first, hanswers, hrouter, hbinds⟩ := traced_createApp hhttp h
    -- the arguments that the router gets are those of the request
    have hreads' : endpoint.validates = false → ∀ rejection,
        ⟨.bind endpoint, .error rejection⟩ ∈ first → ∃ text, rejection = .failed text := by
      intro hvalidates rejection hmem
      obtain ⟨bound, honce⟩ := bind_once hrouting hrouter
      obtain ⟨bound', hbound'⟩ := exists_bind hhttp hrouting h
      have heq : bound' = .error rejection :=
        (honce bound' (hbinds _ _ hbound')).trans (honce _ hmem).symm
      exact hreads hvalidates rejection (heq ▸ hbound')
    have hsome : endpoint.operation?.isSome = true := by
      rw [hoperation]
      rfl
    have hdeclared := fun hends : EndsAs endpoint routed =>
      declared_of_endsAs hpublished hexamples hsuccess herrors hends hanswers
    by_cases hcaller : endpoint.identified = true ∧ caller? isLocal scope = none
    · rcases traced_router_unidentified hrouting hcaller.1 hcaller.2 hrouter hreads' with
        hends | ⟨raised, rfl, hstatus⟩
      · refine (hdeclared hends).imp_left ?_
        rintro ⟨status, contentType, hsends, hdeclared⟩
        exact ⟨status, contentType, hsends, Or.inl hdeclared⟩
      · exact (sends_of_answers hanswers).imp_left fun hsends =>
          ⟨_, _, hsends, Or.inr ⟨hcaller.1, hcaller.2, hstatus⟩⟩
    · have hidentified : endpoint.identified = true → (caller? isLocal scope).isSome = true := by
        intro hidentified
        rw [Option.isSome_iff_ne_none]
        exact fun hnone => hcaller ⟨hidentified, hnone⟩
      refine (hdeclared
        (traced_router_endsAs hrouting hsome hidentified hrouter hreads')).imp_left ?_
      rintro ⟨status, contentType, hsends, hdeclared⟩
      exact ⟨status, contentType, hsends, Or.inl hdeclared⟩

end Main

/-! ## A list request with wrong arguments -/

section Instance

open scoped Sample

local instance documentTitleTables : TitleTables := .ascii

/-- The operation of a route with its success and its errors. -/
def describedOperation (endpoint : Endpoint) : Members :=
  [(codePoints "operationId", .string (codePoints "generated")),
    (codePoints "requestBody", objectOf [("content", objectOf [("application/json",
      objectOf [])])]),
    (codePoints "responses", objectOf ((toString endpoint.status,
      objectOf (endpoint.contentType.toList.map fun contentType =>
        ("content", objectOf [(contentType, objectOf [])]))) ::
      endpoint.responses.map fun status => (toString status, objectOf [])))]

def describedPaths : Members :=
  [(codePoints "/health", objectOf [("get", .object (describedOperation .health))]),
    (codePoints "/v1/projects", objectOf [("post", .object (describedOperation .createProject)),
      ("get", .object (describedOperation .listProjects))]),
    (codePoints "/v1/projects/{project_id}", objectOf [
      ("get", .object (describedOperation .getProject)),
      ("delete", .object (describedOperation .deleteProject))])]

/-- The document of the five routes. -/
def describedDocument : Members := [(codePoints "paths", .object describedPaths)]

def describedRoutes : List RouteContext :=
  [serviceRoute "/health" "health" "GET", serviceRoute "/v1/projects" "create_project" "POST",
    serviceRoute "/v1/projects" "list_projects" "GET",
    serviceRoute "/v1/projects/{project_id}" "get_project" "GET",
    serviceRoute "/v1/projects/{project_id}" "delete_project" "DELETE"]

theorem isBaseOperation_describedOperation (endpoint : Endpoint) :
    IsBaseOperation (describedOperation endpoint) := by
  refine ⟨by rfl, by rfl, _, rfl, ?_⟩
  intro m hm
  rw [List.mem_map] at hm
  obtain ⟨response, hresponse, rfl⟩ := hm
  rcases List.mem_cons.mp hresponse with rfl | hresponse
  · exact ⟨_, rfl⟩
  · obtain ⟨status, -, rfl⟩ := List.mem_map.mp hresponse
    exact ⟨_, rfl⟩

theorem describesRoutes_describedDocument : DescribesRoutes describedDocument := by
  intro endpoint path method hoperation
  have hplace : at? (operationPlace (codePoints path) (codePoints method))
      (.object describedDocument) = some (.object (describedOperation endpoint)) := by
    cases endpoint <;> cases hoperation <;> rfl
  have hmethod : codePoints method ∈ httpMethods := by
    cases endpoint <;> cases hoperation <;> decide
  refine ⟨_, ⟨hmethod, hplace⟩, ?_, ?_⟩
  · cases endpoint with
    | deleteProject => exact ⟨[], rfl, rfl⟩
    | openapi | docs | oauth2Redirect => cases hoperation
    | _ => exact ⟨_, rfl, _, rfl, by decide +kernel⟩
  · cases endpoint <;> decide +kernel

/-- Its operations are those of the routes. -/
theorem exists_endpoint_of_mem {path method : CodePoints} {pathItem : Members} {value : Json}
    (hitem : (path, .object pathItem) ∈ describedPaths) (hmem : (method, value) ∈ pathItem) :
    ∃ endpoint : Endpoint, value = .object (describedOperation endpoint) ∧
      ∃ p m, endpoint.operation? = some (p, m) ∧ path = codePoints p ∧ method = codePoints m := by
  simp only [describedPaths, List.mem_cons, List.not_mem_nil, or_false] at hitem
  rcases hitem with hitem | hitem | hitem
  all_goals
    obtain ⟨rfl, heq⟩ := Prod.mk.inj hitem
    obtain rfl := Json.object.inj heq
    simp only [List.map_cons, List.map_nil, List.mem_cons, List.not_mem_nil, or_false] at hmem
  · obtain ⟨rfl, rfl⟩ := Prod.mk.inj hmem
    exact ⟨.health, rfl, _, _, rfl, rfl, rfl⟩
  · rcases hmem with hmem | hmem
    · obtain ⟨rfl, rfl⟩ := Prod.mk.inj hmem
      exact ⟨.createProject, rfl, _, _, rfl, rfl, rfl⟩
    · obtain ⟨rfl, rfl⟩ := Prod.mk.inj hmem
      exact ⟨.listProjects, rfl, _, _, rfl, rfl, rfl⟩
  · rcases hmem with hmem | hmem
    · obtain ⟨rfl, rfl⟩ := Prod.mk.inj hmem
      exact ⟨.getProject, rfl, _, _, rfl, rfl, rfl⟩
    · obtain ⟨rfl, rfl⟩ := Prod.mk.inj hmem
      exact ⟨.deleteProject, rfl, _, _, rfl, rfl, rfl⟩

theorem isGeneratedDocument_describedDocument :
    IsGeneratedDocument (operationIds describedRoutes) describedDocument := by
  have hpaths : describedDocument.lookup (codePoints "paths") = some (.object describedPaths) := by
    rfl
  have hobjects : ∀ m ∈ describedPaths, ∃ pathItem, m.2 = .object pathItem := by
    intro m hm
    simp only [describedPaths, List.mem_cons, List.not_mem_nil, or_false] at hm
    rcases hm with rfl | rfl | rfl <;> exact ⟨_, rfl⟩
  refine ⟨⟨⟨_, hpaths, ?_⟩, [], [], rfl, rfl⟩, ?_, ?_⟩
  · rintro ⟨path, item⟩ hm
    obtain ⟨pathItem, rfl⟩ := hobjects _ hm
    refine ⟨pathItem, rfl, fun n hn _ => ?_⟩
    have hn' : (n.1, n.2) ∈ pathItem := hn
    obtain ⟨endpoint, hvalue, -⟩ := exists_endpoint_of_mem hm hn'
    exact ⟨_, hvalue, isBaseOperation_describedOperation endpoint⟩
  · intro paths hlookup
    obtain rfl := Json.object.inj (Option.some.inj (hpaths.symm.trans hlookup))
    refine ⟨by decide +kernel, fun path pathItem hmem => ?_⟩
    simp only [describedPaths, List.mem_cons, List.not_mem_nil, or_false] at hmem
    rcases hmem with hmem | hmem | hmem
    all_goals
      obtain ⟨-, heq⟩ := Prod.mk.inj hmem
      obtain rfl := Json.object.inj heq
      decide +kernel
  · intro path method operation hoperation hid
    obtain ⟨pathItem, hitem, hmem⟩ := hoperation.exists_mem hpaths
    obtain ⟨endpoint, heq, p, m, hplace, rfl, rfl⟩ := exists_endpoint_of_mem hitem hmem
    obtain rfl := Json.object.inj heq
    by_cases hcreate : endpoint = .createProject
    · subst hcreate
      exact ⟨⟨_, rfl⟩, ⟨_, rfl⟩, ⟨_, rfl⟩⟩
    · -- the ids of the other operations are different ones
      have hother : ∃ id, operationIds describedRoutes (codePoints p) (codePoints m) = some id ∧
          id ≠ codePoints "createProject" := by
        cases endpoint with
        | createProject => exact absurd rfl hcreate
        | openapi | docs | oauth2Redirect => cases hplace
        | health =>
            cases hplace
            exact ⟨codePoints "getHealth", by decide +kernel, by decide⟩
        | listProjects =>
            cases hplace
            exact ⟨codePoints "listProjects", by decide +kernel, by decide⟩
        | getProject =>
            cases hplace
            exact ⟨codePoints "getProject", by decide +kernel, by decide⟩
        | deleteProject =>
            cases hplace
            exact ⟨codePoints "deleteProject", by decide +kernel, by decide⟩
      obtain ⟨id, hids, hne⟩ := hother
      rw [operationIdOf, hids] at hid
      exact absurd (Json.string.inj (Option.some.inj hid)) hne

/-- `GET /v1/projects` on a local server, for a caller. -/
def callerScope : Scope := listScope.withIdentityHeader (some "key-alice")

theorem routing_callerScope : framework.routing true callerScope.method callerScope.path =
    .endpoint .listProjects := by
  decide +kernel

/-- The 400 for wrong arguments is documented. -/
theorem responses_documented_of_invalid_list :
    ∃ document ops w status contentType,
      buildOpenapi problemModelJsonSchema describedRoutes describedDocument = some document ∧
      (createApp framework true callerScope).Traced (Exec idleService callerScope)
        (World.fresh ∅) ops (.ok ()) w ∧
      Sends w.sent status contentType ∧
      Declared document (operationPlace (codePoints "/v1/projects") (codePoints "get")) status
        contentType := by
  obtain ⟨-, -, document, -, hbuild, -⟩ :=
    exists_buildOpenapi isGeneratedDocument_describedDocument problemModelJsonSchema
  obtain ⟨ops, w, hrun⟩ : ∃ ops w, (createApp framework true callerScope).Traced
      (Exec idleService callerScope) (World.fresh ∅) ops (.ok ()) w := by
    rw [createApp, routes, router, routing_callerScope]
    exact ⟨_, _, .call (.requestId (Uuid4.repeated 'a' (by decide)))
      (.call (.bind .listProjects (.error (.invalid [])))
        (.call (.requestId (Uuid4.repeated 'a' (by decide))) (.call (.send _) (.call (.send _)
          (.call (.route none) (.call (.effect (.log _)) (.done _ _)))))))⟩
  obtain ⟨-, ⟨status, contentType, hsends, hdeclared | ⟨-, hnone, -⟩⟩ | ⟨hurl, -⟩⟩ :=
    responses_documented problemModelJsonSchema isGeneratedDocument_describedDocument
      describesRoutes_describedDocument hbuild rfl rfl routing_callerScope hrun
      fun hvalidates => absurd hvalidates (by decide)
  · exact ⟨document, ops, w, status, contentType, hbuild, hrun, hsends, hdeclared⟩
  · exact absurd hnone (by decide +kernel)
  · exact absurd ⟨_, rfl⟩ hurl

end Instance

end ProjectsApi.Http
