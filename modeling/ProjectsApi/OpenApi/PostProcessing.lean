import ProjectsApi.OpenApi.References

/-!
# Post-processing of the OpenAPI document

`build_openapi` up to the end of its loop: the problem schema, the security scheme, and one
step for each operation, which replaces the error responses.  A step keeps everything else of
its operation, and doing it twice is doing it once.
-/

namespace ProjectsApi

open Foundation Foundation.Json

/-! ## Error responses -/

/-- `application/problem+json` with the schema `Problem`. -/
def problemContent : Json :=
  objectOf [("application/problem+json", objectOf [("schema", refTo "Problem")])]

/-- `{"description": description}` -/
def describedResponse (code description : String) : CodePoints × Json :=
  (codePoints code, objectOf [("description", .string (codePoints description))])

/-- Responses the platform produces for secured operations even though no route declares them. -/
def gatewayResponses : Members :=
  [describedResponse "403" "Missing or invalid API key (rejected by API Gateway).",
    describedResponse "429" "Throttled by the usage plan; retry with back-off."]

def commonResponses : Members :=
  [describedResponse "500" "Unexpected error. Quote `requestId` when reporting it."]

def defaultResponses (isPublic : Bool) : Members :=
  if isPublic then commonResponses else gatewayResponses ++ commonResponses

/-- `code.startswith("2")` -/
def isSuccess (code : CodePoints) : Bool := code.head? == some 0x32

/-- Give a response the problem content unless its code is a success. -/
def withProblemContent (response : CodePoints × Json) : Option (CodePoints × Json) :=
  if isSuccess response.1 then some response
  else
    match response.2 with
    | .object members =>
        some (response.1, .object (dictInsert members (codePoints "content", problemContent)))
    | _ => none

/-- `operation.setdefault("responses", {})`, a dictionary. -/
def declaredResponses? (operation : Members) : Option Members :=
  match operation.lookup (codePoints "responses") with
  | none => some []
  | some (.object responses) => some responses
  | some _ => none

/-- The responses without the 422, with the defaults that are missing. -/
def completedResponses (isPublic : Bool) (responses : Members) : Members :=
  (defaultResponses isPublic).foldl dictSetDefault (dictPop responses (codePoints "422"))

/-- Make every non-2xx response problem+json and drop FastAPI's 422; `none` is a `TypeError`. -/
def problemResponses (operation : Members) (isPublic : Bool) : Option Members := do
  let responses ← declaredResponses? operation
  let responses ← (completedResponses isPublic responses).mapM withProblemContent
  return dictInsert operation (codePoints "responses", .object (sortMembers responses))

/-! ## The loop -/

def httpMethods : List CodePoints :=
  ["get", "put", "post", "delete", "options", "head", "patch", "trace"].map codePoints

/-- Operations that must not require the API key. -/
def isPublicOperation (path method : CodePoints) : Bool :=
  path == codePoints "/health" && method == codePoints "get"

section Loop

variable (operationIds : CodePoints → CodePoints → Option CodePoints)

/-- The body of the loop; `none` is a `KeyError` or a `TypeError`. -/
def postProcessOperation (path method : CodePoints) (operation : Members) : Option Members := do
  let operationId ← operation.lookup (codePoints "operationId")
  let operation := dictInsert operation (codePoints "operationId",
    ((operationIds path method).map Json.string).getD operationId)
  let isPublic := isPublicOperation path method
  let operation :=
    if isPublic then dictInsert operation (codePoints "security", .array []) else operation
  problemResponses operation isPublic

def postProcessMember (path : CodePoints) (m : CodePoints × Json) : Option (CodePoints × Json) :=
  if m.1 ∈ httpMethods then
    match m.2 with
    | .object operation =>
        (postProcessOperation operationIds path m.1 operation).map fun operation =>
          (m.1, .object operation)
    | _ => none
  else some m

def postProcessPath (m : CodePoints × Json) : Option (CodePoints × Json) :=
  match m.2 with
  | .object pathItem =>
      (pathItem.mapM (postProcessMember operationIds m.1)).map fun pathItem =>
        (m.1, .object pathItem)
  | _ => none

end Loop

/-! ## The document -/

/-- `dict.setdefault(key, {})`, a dictionary. -/
def subDict? (members : Members) (key : CodePoints) : Option Members :=
  match members.lookup key with
  | none => some []
  | some (.object members) => some members
  | some _ => none

/-- `Problem.model_json_schema(ref_template="#/components/schemas/{model}")`: whatever it
references has its definition under `$defs`. -/
structure ModelJsonSchema where
  members : Members
  defs : Members
  has_defs : subDict? members (codePoints "$defs") = some defs
  defined : ∀ name ∈ memberReferences members, dictHas defs name = true

/-- `_add_problem_schema` -/
def addProblemSchema (problem : ModelJsonSchema) (schemas : Members) : Members :=
  dictInsert (dictUpdate schemas problem.defs)
    (codePoints "Problem", .object (dictPop problem.members (codePoints "$defs")))

def securityScheme : Json :=
  objectOf [("type", .string (codePoints "apiKey")), ("in", .string (codePoints "header")),
    ("name", .string (codePoints "x-api-key")),
    ("description", .string (codePoints "API Gateway API key attached to a usage plan."))]

/-- `[{"ApiKeyAuth": []}]` -/
def globalSecurity : Json := .array [objectOf [("ApiKeyAuth", .array [])]]

/-- The components with the problem schema and the security scheme. -/
def contractComponents (problem : ModelJsonSchema) (components schemas : Members) : Members :=
  dictInsert (dictInsert components (codePoints "schemas",
    .object (addProblemSchema problem schemas))) (codePoints "securitySchemes",
      objectOf [("ApiKeyAuth", securityScheme)])

/-- `build_openapi` after `get_openapi`, up to the end of its loop. -/
def postProcess (problem : ModelJsonSchema)
    (operationIds : CodePoints → CodePoints → Option CodePoints) (schema : Members) :
    Option Members := do
  let components ← subDict? schema (codePoints "components")
  let schemas ← subDict? components (codePoints "schemas")
  let schema := dictInsert schema (codePoints "components",
    .object (contractComponents problem components schemas))
  let schema := dictInsert schema (codePoints "security", globalSecurity)
  match schema.lookup (codePoints "paths") with
  | some (.object paths) => do
      let paths ← paths.mapM (postProcessPath operationIds)
      return dictInsert schema (codePoints "paths", .object paths)
  | _ => none

/-! ## The contract of an operation -/

/-- What the error responses of an operation become, and what stays of its responses. -/
structure ResponsesContract (isPublic : Bool) (responses responses' : Members) : Prop where
  /-- There is no 422, and nothing but the declared responses, 500 and, with a key, 403 and
  429. -/
  codes : ∀ code, dictHas responses' code = true ↔
    code ≠ codePoints "422" ∧ dictHas responses code = true ∨ code = codePoints "500" ∨
      isPublic = false ∧ (code = codePoints "403" ∨ code = codePoints "429")
  /-- Every response that is no success is a problem. -/
  problems : ∀ m ∈ responses', isSuccess m.1 = false →
    ∃ response, m.2 = .object response ∧ response.lookup (codePoints "content") =
      some (objectOf [("application/problem+json", objectOf [("schema", objectOf [("$ref",
        .string (codePoints "#/components/schemas/Problem"))])])])
  /-- Successes stay as they were. -/
  successes : ∀ code, isSuccess code = true → responses'.lookup code = responses.lookup code
  /-- Of a declared response, everything but the content stays. -/
  declared : ∀ code, code ≠ codePoints "422" → ∀ response,
    responses.lookup code = some (.object response) →
      ∃ response', responses'.lookup code = some (.object response') ∧
        ∀ key, key ≠ codePoints "content" → response'.lookup key = response.lookup key

/-- An operation with its responses in order, given those that it declared. -/
structure OperationContract (isPublic : Bool) (operation operation' : Members) : Prop where
  responses : ∃ declared responses', declaredResponses? operation = some declared ∧
    operation'.lookup (codePoints "responses") = some (.object responses') ∧
    ResponsesContract isPublic declared responses'
  /-- The key requirement is inherited, or waived. -/
  security : operation'.lookup (codePoints "security") =
    if isPublic then some (.array []) else none
  others : ∀ key, key ∉ ["responses", "operationId", "security"].map codePoints →
    operation'.lookup key = operation.lookup key
  /-- A second pass changes nothing. -/
  idempotent : problemResponses operation' isPublic = some operation'

/-! ### Responses -/

theorem withProblemContent_fst {m n : CodePoints × Json} (h : withProblemContent m = some n) :
    n.1 = m.1 := by
  unfold withProblemContent at h
  split_ifs at h
  · rw [Option.some.inj h]
  · split at h
    · rw [← Option.some.inj h]
    · cases h

/-- What was given the problem content keeps it. -/
theorem withProblemContent_again {m n : CodePoints × Json} (h : withProblemContent m = some n) :
    withProblemContent n = some n := by
  unfold withProblemContent at h
  split_ifs at h with hsuccess
  · obtain rfl := Option.some.inj h
    rw [withProblemContent, if_pos hsuccess]
  · split at h
    · obtain rfl := Option.some.inj h
      simp only [withProblemContent, hsuccess, if_false, dictInsert_dictInsert, Bool.false_eq_true]
    · cases h

theorem isSuccess_defaultResponses {isPublic : Bool} {m : CodePoints × Json}
    (h : m ∈ defaultResponses isPublic) : isSuccess m.1 = false := by
  have hcodes : ∀ isPublic, ∀ code ∈ (defaultResponses isPublic).map Prod.fst,
      isSuccess code = false := by decide +kernel
  exact hcodes isPublic m.1 (List.mem_map_of_mem h)

theorem dictHas_defaultResponses {isPublic : Bool} {code : CodePoints} :
    dictHas (defaultResponses isPublic) code = true ↔ code = codePoints "500" ∨
      isPublic = false ∧ (code = codePoints "403" ∨ code = codePoints "429") := by
  have hkeys : (defaultResponses isPublic).map Prod.fst =
      if isPublic then [codePoints "500"]
      else [codePoints "403", codePoints "429", codePoints "500"] := by
    cases isPublic <;> rfl
  have hkey : (∃ value, (code, value) ∈ defaultResponses isPublic) ↔
      code ∈ (defaultResponses isPublic).map Prod.fst := by
    simp
  rw [dictHas_iff, hkey, hkeys]
  cases isPublic
  · simp only [Bool.false_eq_true, if_false, List.mem_cons, List.not_mem_nil, or_false,
      true_and]
    tauto
  · simp

theorem problemContent_eq : problemContent = objectOf [("application/problem+json",
    objectOf [("schema", objectOf [("$ref",
      .string (codePoints "#/components/schemas/Problem"))])])] := by
  have href : schemaRef (codePoints "Problem") = codePoints "#/components/schemas/Problem" := by
    decide +kernel
  rw [problemContent, refTo, href]

theorem lookup_completedResponses (isPublic : Bool) (responses : Members) (code : CodePoints) :
    (completedResponses isPublic responses).lookup code =
      (if code = codePoints "422" then none else responses.lookup code).or
        ((defaultResponses isPublic).lookup code) := by
  rw [completedResponses, lookup_foldl_dictSetDefault, lookup_dictPop]

theorem lookup_defaultResponses_of_isSuccess {isPublic : Bool} {code : CodePoints}
    (h : isSuccess code = true) : (defaultResponses isPublic).lookup code = none := by
  refine Option.eq_none_iff_forall_ne_some.mpr fun value hvalue => ?_
  have hfalse := isSuccess_defaultResponses (mem_of_lookup hvalue)
  rw [h] at hfalse
  cases hfalse

/-- The error responses after one pass. -/
theorem responsesContract_of_mapM {isPublic : Bool} {responses processed : Members}
    (h : (completedResponses isPublic responses).mapM withProblemContent = some processed) :
    ResponsesContract isPublic responses (sortMembers processed) := by
  have hlookup : ∀ code, (sortMembers processed).lookup code =
      ((completedResponses isPublic responses).lookup code).bind fun value =>
        (withProblemContent (code, value)).map Prod.snd := by
    intro code
    rw [lookup_sortMembers, lookup_mapM withProblemContent_fst h]
  -- codes, problem contents, successes, and all other members of the responses
  constructor
  · intro code
    rw [dictHas_sortMembers, dictHas_mapM withProblemContent_fst h, dictHas,
      lookup_completedResponses, Option.isSome_or, Bool.or_eq_true, ← dictHas_defaultResponses,
      dictHas, dictHas]
    by_cases hcode : code = codePoints "422" <;> simp [hcode]
  · intro m hm hsuccess
    obtain ⟨n, -, hn⟩ := exists_of_mem_mapM h (mem_sortMembers.mp hm)
    have hkey := withProblemContent_fst hn
    unfold withProblemContent at hn
    rw [← hkey, if_neg (by simp [hsuccess])] at hn
    split at hn
    · rename_i members _
      rw [← Option.some.inj hn]
      exact ⟨_, rfl, by rw [lookup_dictInsert, if_pos rfl, problemContent_eq]⟩
    · cases hn
  · intro code hsuccess
    have hcode : code ≠ codePoints "422" := by
      rintro rfl
      cases hsuccess
    rw [hlookup, lookup_completedResponses, if_neg hcode,
      lookup_defaultResponses_of_isSuccess hsuccess, Option.or_none]
    cases responses.lookup code with
    | none => rfl
    | some value => simp [withProblemContent, hsuccess]
  · intro code hcode response hresponse
    rw [hlookup, lookup_completedResponses, if_neg hcode, hresponse, Option.some_or,
      Option.bind_some]
    cases hsuccess : isSuccess code with
    | true => exact ⟨response, by simp [withProblemContent, hsuccess], fun _ _ => rfl⟩
    | false =>
        refine ⟨dictInsert response (codePoints "content", problemContent),
          by simp [withProblemContent, hsuccess], fun key hkey => ?_⟩
        rw [lookup_dictInsert, if_neg hkey]

/-- Responses that have been through a pass stay. -/
theorem completedResponses_of_contract {isPublic : Bool} {responses responses' : Members}
    (h : ResponsesContract isPublic responses responses') :
    completedResponses isPublic responses' = responses' := by
  have hno422 : dictHas responses' (codePoints "422") = false := by
    have hdefaults : codePoints "422" ≠ codePoints "500" ∧ codePoints "422" ≠ codePoints "403" ∧
        codePoints "422" ≠ codePoints "429" := by decide
    rw [← Bool.not_eq_true, h.codes]
    tauto
  rw [completedResponses, dictPop_of_not_has hno422]
  refine foldl_dictSetDefault_of_has fun m hm => ?_
  have hdefault : dictHas (defaultResponses isPublic) m.1 = true := dictHas_iff.mpr ⟨m.2, hm⟩
  exact (h.codes m.1).mpr (Or.inr (dictHas_defaultResponses.mp hdefault))

theorem problemResponses_idempotent {operation operation' : Members} {isPublic : Bool}
    (h : problemResponses operation isPublic = some operation') :
    problemResponses operation' isPublic = some operation' := by
  obtain ⟨responses, -, h⟩ := Option.bind_eq_some_iff.mp h
  obtain ⟨processed, hprocessed, h⟩ := Option.bind_eq_some_iff.mp h
  obtain rfl := Option.some.inj h
  have hdeclared : declaredResponses? (dictInsert operation (codePoints "responses",
      .object (sortMembers processed))) = some (sortMembers processed) := by
    rw [declaredResponses?, lookup_dictInsert, if_pos rfl]
  have hstable :
      (sortMembers processed).mapM withProblemContent = some (sortMembers processed) := by
    rw [mapM_eq_some_iff, List.forall₂_same]
    intro m hm
    obtain ⟨n, -, hn⟩ := exists_of_mem_mapM hprocessed (mem_sortMembers.mp hm)
    exact withProblemContent_again hn
  -- the second pass finds the declared responses of the first, each of them processed
  rw [problemResponses, hdeclared, Option.bind_eq_bind, Option.bind_some,
    completedResponses_of_contract (responsesContract_of_mapM hprocessed), hstable,
    Option.bind_some, sortMembers_sortMembers, dictInsert_dictInsert]
  rfl

/-! ### Operations -/

/-- An operation as the framework generates it: with an id, without a security requirement of
its own, its responses dictionaries. -/
structure IsBaseOperation (operation : Members) : Prop where
  operationId : dictHas operation (codePoints "operationId") = true
  security : operation.lookup (codePoints "security") = none
  responses : ∃ responses, declaredResponses? operation = some responses ∧
    ∀ m ∈ responses, ∃ response, m.2 = .object response

theorem exists_completed_mapM (isPublic : Bool) {responses : Members}
    (h : ∀ m ∈ responses, ∃ response, m.2 = .object response) :
    ∃ processed, (completedResponses isPublic responses).mapM withProblemContent =
      some processed := by
  refine exists_mapM fun m hm => ?_
  have hobject : ∃ response, m.2 = .object response := by
    obtain hm | hm := mem_foldl_dictSetDefault hm
    · exact h m (mem_dictPop.mp hm).1
    -- the defaults are dictionaries too
    · have hdefaults : ∀ isPublic, ∀ m ∈ defaultResponses isPublic,
          ∃ response, m.2 = Json.object response := by
        intro isPublic m hm
        cases isPublic
        · simp only [defaultResponses, gatewayResponses, commonResponses, describedResponse] at hm
          simp only [Bool.false_eq_true, if_false, List.cons_append, List.nil_append,
            List.mem_cons, List.not_mem_nil, or_false] at hm
          obtain rfl | rfl | rfl := hm <;> exact ⟨_, rfl⟩
        · obtain rfl := List.mem_singleton.mp hm
          exact ⟨_, rfl⟩
      exact hdefaults isPublic m hm
  obtain ⟨code, value⟩ := m
  obtain ⟨response, rfl⟩ := hobject
  unfold withProblemContent
  split_ifs <;> exact ⟨_, rfl⟩

section Loop

variable (operationIds : CodePoints → CodePoints → Option CodePoints)

/-- One operation of the loop. -/
theorem postProcessOperation_contract (path method : CodePoints) {operation : Members}
    (h : IsBaseOperation operation) :
    ∃ operation', postProcessOperation operationIds path method operation = some operation' ∧
      OperationContract (isPublicOperation path method) operation operation' := by
  obtain ⟨operationId, hid⟩ := Option.isSome_iff_exists.mp h.operationId
  obtain ⟨responses, hresponses, hobjects⟩ := h.responses
  -- the operation as `_problem_responses` receives it
  obtain ⟨prepared, hprepared⟩ : ∃ prepared, prepared =
      (if isPublicOperation path method then
        dictInsert (dictInsert operation (codePoints "operationId",
          ((operationIds path method).map Json.string).getD operationId))
          (codePoints "security", .array [])
      else dictInsert operation (codePoints "operationId",
        ((operationIds path method).map Json.string).getD operationId)) := ⟨_, rfl⟩
  have hlookup : ∀ key, key ≠ codePoints "operationId" → prepared.lookup key =
      if isPublicOperation path method ∧ key = codePoints "security" then some (.array [])
      else operation.lookup key := by
    intro key hkey
    rw [hprepared]
    by_cases hpublic : isPublicOperation path method = true
    · simp [hpublic, lookup_dictInsert, hkey]
    · simp [hpublic, lookup_dictInsert, hkey]
  have hdeclared : declaredResponses? prepared = some responses := by
    rw [declaredResponses?, hlookup _ (by decide), if_neg (fun hpublic =>
      absurd hpublic.2 (by decide)), ← hresponses, declaredResponses?]
  obtain ⟨processed, hprocessed⟩ := exists_completed_mapM (isPublicOperation path method) hobjects
  have hresult : problemResponses prepared (isPublicOperation path method) =
      some (dictInsert prepared (codePoints "responses", .object (sortMembers processed))) := by
    rw [problemResponses, hdeclared, Option.bind_eq_bind, Option.bind_some, hprocessed]
    rfl
  -- its responses are replaced, and what remains is as prepared
  refine ⟨dictInsert prepared (codePoints "responses", .object (sortMembers processed)), ?_, ?_⟩
  · rw [postProcessOperation, hid, ← hresult, hprepared]
    rfl
  · refine ⟨⟨responses, sortMembers processed, hresponses, ?_,
      responsesContract_of_mapM hprocessed⟩, ?_, ?_, problemResponses_idempotent hresult⟩
    · rw [lookup_dictInsert, if_pos rfl]
    · rw [lookup_dictInsert, if_neg (by decide), hlookup _ (by decide), h.security]
      simp
    · intro key hkey
      simp only [List.map_cons, List.map_nil, List.mem_cons, List.not_mem_nil, or_false,
        not_or] at hkey
      obtain ⟨hresponses, hid, hsecurity⟩ := hkey
      rw [lookup_dictInsert, if_neg hresponses, hlookup key hid, if_neg fun h => hsecurity h.2]

/-- A member of a path item: an operation of the contract, or as it was. -/
def MemberContract (path : CodePoints) (m m' : CodePoints × Json) : Prop :=
  m'.1 = m.1 ∧
    if m.1 ∈ httpMethods then
      ∃ operation operation', m.2 = .object operation ∧ m'.2 = .object operation' ∧
        OperationContract (isPublicOperation path m.1) operation operation'
    else m'.2 = m.2

/-- A path with its item, member by member. -/
def PathContract (m m' : CodePoints × Json) : Prop :=
  m'.1 = m.1 ∧ ∃ pathItem pathItem', m.2 = .object pathItem ∧ m'.2 = .object pathItem' ∧
    List.Forall₂ (MemberContract m.1) pathItem pathItem'

/-- A path item as the framework generates it. -/
def IsBasePath (m : CodePoints × Json) : Prop :=
  ∃ pathItem, m.2 = .object pathItem ∧ ∀ n ∈ pathItem, n.1 ∈ httpMethods →
    ∃ operation, n.2 = .object operation ∧ IsBaseOperation operation

theorem postProcessMember_contract (path : CodePoints) {m : CodePoints × Json}
    (h : m.1 ∈ httpMethods → ∃ operation, m.2 = .object operation ∧ IsBaseOperation operation) :
    ∃ m', postProcessMember operationIds path m = some m' ∧ MemberContract path m m' := by
  obtain ⟨method, value⟩ := m
  by_cases hmethod : method ∈ httpMethods
  · obtain ⟨operation, rfl, hbase⟩ := h hmethod
    obtain ⟨operation', hprocessed, hcontract⟩ :=
      postProcessOperation_contract operationIds path method hbase
    refine ⟨(method, .object operation'), by simp [postProcessMember, hmethod, hprocessed], rfl, ?_⟩
    rw [if_pos hmethod]
    exact ⟨operation, operation', rfl, rfl, hcontract⟩
  · refine ⟨(method, value), by simp [postProcessMember, hmethod], rfl, ?_⟩
    rw [if_neg hmethod]

theorem postProcessPath_contract {m : CodePoints × Json} (h : IsBasePath m) :
    ∃ m', postProcessPath operationIds m = some m' ∧ PathContract m m' := by
  obtain ⟨path, value⟩ := m
  obtain ⟨pathItem, rfl, hmembers⟩ := h
  obtain ⟨pathItem', hmap, hall⟩ := exists_mapM_forall₂
    fun n hn => postProcessMember_contract operationIds path (hmembers n hn)
  exact ⟨(path, .object pathItem'), by simp [postProcessPath, hmap], rfl, pathItem, pathItem',
    rfl, rfl, hall⟩

end Loop

/-! ## The contract of the document -/

/-- A document as the framework generates it. -/
structure IsBaseDocument (schema : Members) : Prop where
  paths : ∃ paths, schema.lookup (codePoints "paths") = some (.object paths) ∧
    ∀ m ∈ paths, IsBasePath m
  components : ∃ components schemas, subDict? schema (codePoints "components") = some components ∧
    subDict? components (codePoints "schemas") = some schemas

/-- The document after the loop. -/
structure DocumentContract (problem : ModelJsonSchema) (schema schema' : Members) : Prop where
  paths : ∃ paths paths', schema.lookup (codePoints "paths") = some (.object paths) ∧
    schema'.lookup (codePoints "paths") = some (.object paths') ∧
    List.Forall₂ PathContract paths paths'
  /-- The key is required globally. -/
  security : schema'.lookup (codePoints "security") =
    some (.array [objectOf [("ApiKeyAuth", .array [])]])
  /-- `Problem` is there, with everything that it or one of its definitions references. -/
  schemas : ∃ components schemas,
    schema'.lookup (codePoints "components") = some (.object components) ∧
    components.lookup (codePoints "securitySchemes") = some (objectOf [("ApiKeyAuth",
      objectOf [("type", .string (codePoints "apiKey")), ("in", .string (codePoints "header")),
        ("name", .string (codePoints "x-api-key")),
        ("description", .string (codePoints "API Gateway API key attached to a usage plan."))])]) ∧
    components.lookup (codePoints "schemas") = some (.object schemas) ∧
    schemas.lookup (codePoints "Problem") =
      some (.object (dictPop problem.members (codePoints "$defs"))) ∧
    ∀ name ∈ memberReferences problem.members, dictHas schemas name = true

theorem dictHas_addProblemSchema (problem : ModelJsonSchema) (schemas : Members)
    {name : CodePoints} (h : name ∈ memberReferences problem.members) :
    dictHas (addProblemSchema problem schemas) name = true := by
  rw [addProblemSchema, dictHas_dictInsert, dictHas_dictUpdate, problem.defined name h]
  simp

/-- The post-processing establishes the error and security contract on every document. -/
theorem post_processing_contract (problem : ModelJsonSchema)
    (operationIds : CodePoints → CodePoints → Option CodePoints) {schema : Members}
    (h : IsBaseDocument schema) :
    ∃ schema', postProcess problem operationIds schema = some schema' ∧
      DocumentContract problem schema schema' := by
  obtain ⟨paths, hpaths, hbase⟩ := h.paths
  obtain ⟨components, schemas, hcomponents, hschemas⟩ := h.components
  obtain ⟨paths', hmap, hall⟩ := exists_mapM_forall₂
    fun m hm => postProcessPath_contract operationIds (hbase m hm)
  -- the three members that change have different names
  have hnames : codePoints "paths" ≠ codePoints "security" ∧
      codePoints "paths" ≠ codePoints "components" ∧
      codePoints "security" ≠ codePoints "paths" ∧ codePoints "components" ≠ codePoints "paths" ∧
      codePoints "components" ≠ codePoints "security" ∧
      codePoints "schemas" ≠ codePoints "securitySchemes" := by decide
  obtain ⟨hps, hpc, hsp, hcp, hcs, hss⟩ := hnames
  refine ⟨dictInsert (dictInsert (dictInsert schema (codePoints "components",
    .object (contractComponents problem components schemas))) (codePoints "security",
      globalSecurity)) (codePoints "paths", .object paths'), ?_, ?_⟩
  · rw [postProcess, hcomponents, Option.bind_eq_bind, Option.bind_some, hschemas,
      Option.bind_some]
    simp only [lookup_dictInsert, hps, hpc, if_false, hpaths, hmap, Option.bind_some]
    rfl
  · refine ⟨⟨paths, paths', hpaths, ?_, hall⟩, ?_, ?_⟩
    · simp [lookup_dictInsert]
    · simp [lookup_dictInsert, hsp, globalSecurity]
    · refine ⟨contractComponents problem components schemas, addProblemSchema problem schemas,
        ?_, ?_, ?_, ?_, fun name hname => dictHas_addProblemSchema problem schemas hname⟩
      · simp [lookup_dictInsert, hcp, hcs]
      · simp [contractComponents, lookup_dictInsert, securityScheme]
      · simp [contractComponents, lookup_dictInsert, hss]
      · simp [addProblemSchema, lookup_dictInsert]

section Sample

/-- The schema of `Problem`, as far as its references go. -/
def problemModelJsonSchema : ModelJsonSchema where
  members := [(codePoints "$defs", objectOf [("ProblemFieldError", objectOf [("type",
      .string (codePoints "object"))])]),
    (codePoints "properties", objectOf [("errors", objectOf [("items",
      refTo "ProblemFieldError")])])]
  defs := [(codePoints "ProblemFieldError", objectOf [("type", .string (codePoints "object"))])]
  has_defs := rfl
  defined := by decide +kernel

/-- `GET /health` as the framework generates it. -/
def healthOperation : Members :=
  [(codePoints "operationId", .string (codePoints "health_health_get")),
    (codePoints "responses", objectOf [("422", objectOf []), ("200", objectOf [])])]

/-- `POST /v1/projects`, which needs the key and declares an error. -/
def securedOperation : Members :=
  [(codePoints "operationId", .string (codePoints "create_project_v1_projects_post")),
    (codePoints "responses", objectOf [("201", objectOf []), ("422", objectOf []),
      ("409", objectOf [("description", .string (codePoints "The name is taken."))])])]

/-- A document of both operations; one path item has a summary. -/
def baseDocument : Members :=
  [(codePoints "paths", objectOf [
    ("/health", objectOf [("summary", .string (codePoints "Health")),
      ("get", .object healthOperation)]),
    ("/v1/projects", objectOf [("post", .object securedOperation)])])]

theorem isBaseOperation_healthOperation : IsBaseOperation healthOperation := by
  refine ⟨by decide +kernel, by rfl, _, rfl, ?_⟩
  intro m hm
  simp only [List.map_cons, List.map_nil, List.mem_cons, List.not_mem_nil, or_false] at hm
  obtain rfl | rfl := hm <;> exact ⟨_, rfl⟩

theorem isBaseOperation_securedOperation : IsBaseOperation securedOperation := by
  refine ⟨by decide +kernel, by rfl, _, rfl, ?_⟩
  intro m hm
  simp only [List.map_cons, List.map_nil, List.mem_cons, List.not_mem_nil, or_false] at hm
  obtain rfl | rfl | rfl := hm <;> exact ⟨_, rfl⟩

theorem post_processing_baseDocument :
    ∃ schema', postProcess problemModelJsonSchema (fun _ _ => none) baseDocument = some schema' ∧
      DocumentContract problemModelJsonSchema baseDocument schema' := by
  refine post_processing_contract problemModelJsonSchema (fun _ _ => none) ?_
  refine ⟨⟨_, rfl, ?_⟩, [], [], rfl, rfl⟩
  intro m hm
  simp only [List.map_cons, List.map_nil, List.mem_cons, List.not_mem_nil, or_false] at hm
  obtain rfl | rfl := hm
  · refine ⟨_, rfl, fun n hn hmethod => ?_⟩
    simp only [List.map_cons, List.map_nil, List.mem_cons, List.not_mem_nil, or_false] at hn
    obtain rfl | rfl := hn
    · exact absurd hmethod (by decide +kernel)
    · exact ⟨_, rfl, isBaseOperation_healthOperation⟩
  · refine ⟨_, rfl, fun n hn _ => ?_⟩
    obtain rfl := List.mem_singleton.mp hn
    exact ⟨_, rfl, isBaseOperation_securedOperation⟩

end Sample

end ProjectsApi
