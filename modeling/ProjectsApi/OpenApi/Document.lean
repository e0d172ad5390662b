import ProjectsApi.Foundation.JsonPath
import ProjectsApi.OpenApi.OperationIds

/-!
# The document that is served

`build_openapi` as a whole: the post-processing of every operation, the examples of
`createProject`, and the removal of the framework's schemas.  The last two steps change a few
places only, so that what the post-processing established is what the document says
(`served_document`).
-/

namespace ProjectsApi

open Foundation Foundation.Json

/-! ## Examples -/

/-- The place of an operation. -/
def operationPlace (path method : CodePoints) : Place := [codePoints "paths", path, method]

/-- A place, by the texts of its keys. -/
def placeOf (keys : List String) : Place := keys.map codePoints

def exampleProjectId : String := "prj_9f1c2b3a4d5e6f708192a3b4c5d6e7f8"

/-- `_EXAMPLE_PROJECT` -/
def exampleProject : Json :=
  objectOf [("projectId", .string (codePoints exampleProjectId)),
    ("name", .string (codePoints "my-first-agent")), ("type", .string (codePoints "agent")),
    ("status", .string (codePoints "CREATED")), ("ownerId", .string (codePoints "a1b2c3d4e5")),
    ("createdAt", .string (codePoints "2026-01-15T09:30:00Z")),
    ("updatedAt", .string (codePoints "2026-01-15T09:30:00Z"))]

def exampleRequest : Json :=
  objectOf [("name", .string (codePoints "my-first-agent")), ("type", .string (codePoints "agent"))]

def createdDescription : Json :=
  .string (codePoints "Project created. `Location` points at the new resource.")

def createdHeaders : Json :=
  objectOf [("Location", objectOf [
    ("description", .string (codePoints "Path of the created project.")),
    ("schema", objectOf [("type", .string (codePoints "string"))]),
    ("example", .string (codePoints ("/v1/projects/" ++ exampleProjectId)))])]

/-- `operation.get("operationId") == operation_id` -/
def hasOperationId (operationId : CodePoints) (operation : Members) : Bool :=
  match operation.lookup (codePoints "operationId") with
  | some (.string id) => id == operationId
  | _ => false

/-- `method in _HTTP_METHODS` -/
def isHttpMethod (method : CodePoints) : Bool := httpMethods.contains method

@[simp] theorem isHttpMethod_iff {method : CodePoints} :
    isHttpMethod method = true ↔ method ∈ httpMethods := List.contains_iff_mem

/-- The method of a path item whose operation has the id; `none` if an operation is no
dictionary. -/
def findMethod? (operationId : CodePoints) : Members → Option (Option CodePoints)
  | [] => some none
  | (method, value) :: pathItem =>
      if isHttpMethod method then
        match value with
        | .object operation =>
            if hasOperationId operationId operation then some (some method)
            else findMethod? operationId pathItem
        | _ => none
      else findMethod? operationId pathItem

/-- `_find_operation`: where the operation is; `none` is an `AttributeError`. -/
def findOperation? (operationId : CodePoints) :
    Members → Option (Option (CodePoints × CodePoints))
  | [] => some none
  | (path, .object pathItem) :: paths =>
      match findMethod? operationId pathItem with
      | none => none
      | some (some method) => some (some (path, method))
      | some none => findOperation? operationId paths
  | _ :: _ => none

/-- `schema["paths"]`, a dictionary. -/
def paths? (schema : Json) : Option Members :=
  match at? [codePoints "paths"] schema with
  | some (.object paths) => some paths
  | _ => none

/-- The assignments of the examples to an operation; `none` is a `KeyError`. -/
def assignExamples (operation : Place) (schema : Json) : Option Json := do
  let schema ← assign? (operation ++ placeOf ["requestBody", "content", "application/json"])
    (codePoints "example") exampleRequest schema
  let schema ← assign? (operation ++ placeOf ["responses", "201"]) (codePoints "description")
    createdDescription schema
  let schema ← assign? (operation ++ placeOf ["responses", "201"]) (codePoints "headers")
    createdHeaders schema
  assign? (operation ++ placeOf ["responses", "201", "content", "application/json"])
    (codePoints "example") exampleProject schema

/-- `_add_create_project_examples` -/
def addCreateProjectExamples (schema : Json) : Option Json := do
  match ← findOperation? (codePoints "createProject") (← paths? schema) with
  | none => return schema
  | some (path, method) => assignExamples (operationPlace path method) schema

/-- `build_openapi`, from the document that the framework generates. -/
def buildOpenapi [CaseTables] [TitleTables] (problem : ModelJsonSchema)
    (routes : List RouteContext) (schema : Members) : Option Json := do
  let schema ← postProcess problem (operationIds routes) schema
  let schema ← addCreateProjectExamples (.object schema)
  dropUnreferenced schema validationSchemaNames

/-! ### What the assignments change -/

/-- The places of the examples in an operation. -/
def examplePlaces : List Place :=
  [placeOf ["requestBody", "content", "application/json", "example"],
    placeOf ["responses", "201", "description"], placeOf ["responses", "201", "headers"],
    placeOf ["responses", "201", "content", "application/json", "example"]]

/-- An operation as the framework generates it for a body and a response of JSON. -/
structure HasExamplePlaces (operation : Json) : Prop where
  request : ∃ members,
    at? (placeOf ["requestBody", "content", "application/json"]) operation = some (.object members)
  created : ∃ members, at? (placeOf ["responses", "201"]) operation = some (.object members)
  content : ∃ members,
    at? (placeOf ["responses", "201", "content", "application/json"]) operation =
      some (.object members)

/-- The examples of an operation. -/
structure HasExamples (operation : Place) (schema : Json) : Prop where
  request : at? (operation ++ placeOf ["requestBody", "content", "application/json", "example"])
    schema = some exampleRequest
  description : at? (operation ++ placeOf ["responses", "201", "description"]) schema =
    some createdDescription
  headers : at? (operation ++ placeOf ["responses", "201", "headers"]) schema =
    some createdHeaders
  project : at? (operation ++
    placeOf ["responses", "201", "content", "application/json", "example"]) schema =
      some exampleProject

section Examples

variable {operation : Place} {schema schema' : Json}

/-- An assignment in an operation is read back, and leaves other places of it alone. -/
theorem at?_assignIn {keys : List String} {key : String} {new : Json}
    (h : assign? (operation ++ placeOf keys) (codePoints key) new schema = some schema') :
    at? (operation ++ placeOf (keys ++ [key])) schema' = some new ∧
      AgreeApart [operation ++ placeOf (keys ++ [key])] schema schema' ∧
      ∀ q, Apart (placeOf (keys ++ [key])) (placeOf q) →
        at? (operation ++ placeOf q) schema' = at? (operation ++ placeOf q) schema := by
  have hplace : operation ++ placeOf (keys ++ [key]) =
      (operation ++ placeOf keys) ++ [codePoints key] := by
    rw [List.append_assoc, placeOf, placeOf, List.map_append]
    rfl
  refine ⟨?_, ?_, ?_⟩
  · rw [hplace]
    exact at?_assign? h []
  · rw [hplace]
    exact .of_assign? h
  · intro q hq
    refine at?_assign?_of_apart h ?_
    rw [← hplace]
    exact apart_append_left_iff.mpr hq

/-- The four assignments succeed on an operation that has their places, and they are all that
changes. -/
theorem exists_assignExamples {found : Json} (hfound : at? operation schema = some found)
    (h : HasExamplePlaces found) :
    ∃ schema', assignExamples operation schema = some schema' ∧
      AgreeApart (examplePlaces.map (operation ++ ·)) schema schema' ∧
      HasExamples operation schema' := by
  obtain ⟨request, hrequest⟩ := h.request
  obtain ⟨created, hcreated⟩ := h.created
  obtain ⟨content, hcontent⟩ := h.content
  rw [← at?_append_of_eq hfound] at hrequest hcreated hcontent
  -- each assignment leaves the places of the others as they are
  obtain ⟨s₁, h₁, -⟩ := exists_assign? hrequest (codePoints "example") exampleRequest
  obtain ⟨hread₁, hagree₁, hkept₁⟩ := at?_assignIn h₁
  obtain ⟨s₂, h₂, hcreated₂⟩ := exists_assign?
    ((hkept₁ ["responses", "201"] (by decide +kernel)).trans hcreated)
    (codePoints "description") createdDescription
  obtain ⟨hread₂, hagree₂, hkept₂⟩ := at?_assignIn h₂
  obtain ⟨s₃, h₃, -⟩ := exists_assign? hcreated₂ (codePoints "headers") createdHeaders
  obtain ⟨hread₃, hagree₃, hkept₃⟩ := at?_assignIn h₃
  have hcontent₃ : at? (operation ++ placeOf ["responses", "201", "content", "application/json"])
      s₃ = some (.object content) := by
    rw [hkept₃ _ (by decide +kernel), hkept₂ _ (by decide +kernel), hkept₁ _ (by decide +kernel)]
    exact hcontent
  obtain ⟨s₄, h₄, -⟩ := exists_assign? hcontent₃ (codePoints "example") exampleProject
  obtain ⟨hread₄, hagree₄, hkept₄⟩ := at?_assignIn h₄
  refine ⟨s₄, ?_, ?_, ?_⟩
  · simp only [assignExamples, h₁, h₂, h₃, h₄, Option.bind_eq_bind, Option.bind_some]
  · exact ((hagree₁.trans hagree₂).trans hagree₃).trans hagree₄
  · constructor
    · exact (hkept₄ _ (by decide +kernel)).trans ((hkept₃ _ (by decide +kernel)).trans
        ((hkept₂ _ (by decide +kernel)).trans hread₁))
    · exact (hkept₄ _ (by decide +kernel)).trans ((hkept₃ _ (by decide +kernel)).trans hread₂)
    · exact (hkept₄ _ (by decide +kernel)).trans hread₃
    · exact hread₄

end Examples

/-! ### What the removal changes -/

section Drop

variable {schema schema' : Json} {schemas : Members} {names : List CodePoints}

def schemasPlace : Place := placeOf ["components", "schemas"]

theorem modify?_withSchemas (h : componentSchemas? schema = some schemas) (schemas' : Members) :
    modify? (fun _ => some (.object schemas')) schemasPlace schema =
      some (withSchemas schema schemas') := by
  obtain ⟨members, components, hcomponents, hschemas⟩ := componentSchemas?_eq_some h
  obtain ⟨rfl, hlookup⟩ := components?_eq_some hcomponents
  rw [withSchemas, hcomponents]
  simp only [schemasPlace, placeOf, List.map_cons, List.map_nil, modify?, hlookup, hschemas,
    Option.bind_some, Option.map_some]

theorem at?_schemasPlace (h : componentSchemas? schema = some schemas) :
    at? schemasPlace schema = some (.object schemas) := by
  obtain ⟨members, components, hcomponents, hschemas⟩ := componentSchemas?_eq_some h
  obtain ⟨rfl, hlookup⟩ := components?_eq_some hcomponents
  simp [schemasPlace, placeOf, hlookup, hschemas]

/-- A schema that is not named stays as it is. -/
theorem lookup_schemasAfter {name : CodePoints} (hname : name ∉ names) :
    (schemasAfter schema schemas names).lookup name = schemas.lookup name := by
  rw [schemasAfter, lookup_restoreMentioned _ (nodup_popNamed names schemas),
    (lookup_popNamed names schemas name).1, (lookup_popNamed names schemas name).2]
  simp [hname]

/-- `_drop_unreferenced` changes nothing but the named schemas. -/
theorem agreeApart_dropUnreferenced (h : componentSchemas? schema = some schemas)
    (hnames : names ≠ []) (hdrop : dropUnreferenced schema names = some schema') :
    AgreeApart (names.map fun name => schemasPlace ++ [name]) schema schema' := by
  rw [dropUnreferenced_eq h] at hdrop
  obtain rfl := Option.some.inj hdrop
  have hmodify := modify?_withSchemas h (schemasAfter schema schemas names)
  intro q hq
  have hnamed : ∀ name ∈ names, Apart (schemasPlace ++ [name]) q :=
    fun name hname => hq _ (List.mem_map_of_mem hname)
  by_cases hinside : schemasPlace <+: q
  · obtain ⟨r, rfl⟩ := hinside
    obtain ⟨old, new, -, hnew, hplace⟩ := at?_modify? hmodify
    obtain rfl := Option.some.inj hnew
    rw [at?_append_of_eq hplace, at?_append_of_eq (at?_schemasPlace h)]
    obtain ⟨first, hfirst⟩ := List.exists_mem_of_ne_nil names hnames
    cases r with
    | nil =>
        rw [List.append_nil] at hnamed
        exact absurd (List.prefix_append ..) (hnamed first hfirst).2
    | cons key r =>
        have hkey : key ∉ names := by
          intro hmem
          refine (hnamed key hmem).1 ?_
          rw [List.prefix_append_right_inj]
          simp
        rw [at?_cons_object, at?_cons_object, lookup_schemasAfter hkey]
  · refine at?_modify?_of_apart hmodify ⟨hinside, ?_⟩
    intro habove
    obtain ⟨first, hfirst⟩ := List.exists_mem_of_ne_nil names hnames
    exact (hnamed first hfirst).2 (habove.trans (List.prefix_append schemasPlace [first]))

end Drop

/-! ### The operation that gets the examples -/

section Find

variable {operationId : CodePoints}

/-- A member of a path item that is an operation with the id. -/
def isNamedOperation (operationId : CodePoints) (m : CodePoints × Json) : Bool :=
  isHttpMethod m.1 &&
    match m.2 with
    | .object operation => hasOperationId operationId operation
    | _ => false

/-- Where every operation is a dictionary, the search is a search for the first one. -/
theorem findMethod?_eq {pathItem : Members}
    (h : ∀ m ∈ pathItem, m.1 ∈ httpMethods → ∃ operation, m.2 = .object operation) :
    findMethod? operationId pathItem =
      some ((pathItem.find? (isNamedOperation operationId)).map Prod.fst) := by
  induction pathItem with
  | nil => rfl
  | cons m pathItem ih =>
      rw [List.forall_mem_cons] at h
      obtain ⟨method, value⟩ := m
      by_cases hmethod : method ∈ httpMethods
      · obtain ⟨operation, hvalue⟩ := h.1 hmethod
        obtain rfl : value = .object operation := hvalue
        cases hid : hasOperationId operationId operation with
        | true => simp [findMethod?, isNamedOperation, hmethod, hid]
        | false => simp [findMethod?, isNamedOperation, hmethod, hid, ih h.2]
      · simp [findMethod?, isNamedOperation, hmethod, ih h.2]

/-- The first operation of a path that has the id. -/
def namedOperation? (operationId : CodePoints) (m : CodePoints × Json) :
    Option (CodePoints × CodePoints) :=
  match m.2 with
  | .object pathItem => (pathItem.find? (isNamedOperation operationId)).map fun n => (m.1, n.1)
  | _ => none

/-- A path whose item has dictionaries as its operations. -/
def IsPath (m : CodePoints × Json) : Prop :=
  ∃ pathItem, m.2 = .object pathItem ∧
    ∀ n ∈ pathItem, n.1 ∈ httpMethods → ∃ operation, n.2 = .object operation

theorem findOperation?_eq {paths : Members} (h : ∀ m ∈ paths, IsPath m) :
    findOperation? operationId paths = some (paths.findSome? (namedOperation? operationId)) := by
  induction paths with
  | nil => rfl
  | cons m paths ih =>
      rw [List.forall_mem_cons] at h
      obtain ⟨path, value⟩ := m
      obtain ⟨pathItem, hvalue, hitem⟩ := h.1
      obtain rfl : value = .object pathItem := hvalue
      rw [findOperation?, findMethod?_eq hitem, List.findSome?_cons]
      cases hfind : pathItem.find? (isNamedOperation operationId) with
      | none => simp [namedOperation?, hfind, ih h.2]
      | some n => simp [namedOperation?, hfind]

/-- What is found is an operation with the id. -/
theorem namedOperation?_eq_some {m : CodePoints × Json} {path method : CodePoints}
    (h : namedOperation? operationId m = some (path, method)) :
    m.1 = path ∧ ∃ pathItem operation, m.2 = .object pathItem ∧
      (method, .object operation) ∈ pathItem ∧ method ∈ httpMethods ∧
        hasOperationId operationId operation = true := by
  unfold namedOperation? at h
  cases hitem : m.2 with
  | object pathItem =>
      rw [hitem] at h
      obtain ⟨n, hn, hpair⟩ := Option.map_eq_some_iff.mp h
      obtain ⟨rfl, rfl⟩ := Prod.mk.inj hpair
      have hmem := List.mem_of_find?_eq_some hn
      have hnamed := List.find?_some hn
      rw [isNamedOperation, Bool.and_eq_true, isHttpMethod_iff] at hnamed
      refine ⟨rfl, pathItem, ?_⟩
      cases hoperation : n.2 with
      | object operation =>
          rw [hoperation] at hnamed
          exact ⟨operation, rfl, hoperation ▸ hmem, hnamed⟩
      | _ =>
          rw [hoperation] at hnamed
          cases hnamed.2
  | _ =>
      rw [hitem] at h
      cases h

/-- The operations of a document are dictionaries, and its paths and their members distinct. -/
structure IsPathTable (paths : Members) : Prop where
  items : ∀ m ∈ paths, IsPath m
  distinct : DistinctKeys paths
  distinct_methods : ∀ path pathItem, (path, .object pathItem) ∈ paths → DistinctKeys pathItem

theorem at?_operationPlace {schema : Json} {paths : Members}
    (h : at? [codePoints "paths"] schema = some (.object paths)) (path method : CodePoints) :
    at? (operationPlace path method) schema = at? [path, method] (.object paths) :=
  at?_append_of_eq h [path, method]

/-- The search ends with an operation that has the id, unless there is none. -/
theorem exists_findOperation? (operationId : CodePoints) {schema : Json} {paths : Members}
    (hpaths : at? [codePoints "paths"] schema = some (.object paths)) (h : IsPathTable paths) :
    ∃ created, findOperation? operationId paths = some created ∧
      (created = none → ∀ path method operation, method ∈ httpMethods →
        at? (operationPlace path method) schema = some (.object operation) →
          hasOperationId operationId operation = false) ∧
      ∀ path method, created = some (path, method) → method ∈ httpMethods ∧
        ∃ operation, at? (operationPlace path method) schema = some (.object operation) ∧
          hasOperationId operationId operation = true := by
  refine ⟨_, findOperation?_eq h.items, ?_, ?_⟩
  · intro hnone path method operation hmethod hoperation
    rw [at?_operationPlace hpaths, at?_cons_object, Option.bind_eq_some_iff] at hoperation
    obtain ⟨item, hitem, hoperation⟩ := hoperation
    cases item with
    | object pathItem =>
        rw [at?_cons_object, Option.bind_eq_some_iff] at hoperation
        obtain ⟨value, hvalue, hoperation⟩ := hoperation
        obtain rfl := Option.some.inj hoperation
        have hpath := List.findSome?_eq_none_iff.mp hnone _ (mem_of_lookup hitem)
        have hfind : pathItem.find? (isNamedOperation operationId) = none := by
          simpa [namedOperation?] using hpath
        have hnot := List.find?_eq_none.mp hfind _ (mem_of_lookup hvalue)
        simpa [isNamedOperation, hmethod] using hnot
    | _ => cases hoperation
  · intro path method hcreated
    obtain ⟨m, hm, hnamed⟩ := List.exists_of_findSome?_eq_some hcreated
    obtain ⟨rfl, pathItem, operation, hitem, hoperation, hmethod, hid⟩ :=
      namedOperation?_eq_some hnamed
    obtain ⟨path, item⟩ := m
    obtain rfl : item = .object pathItem := hitem
    refine ⟨hmethod, operation, ?_, hid⟩
    rw [at?_operationPlace hpaths, at?_cons_object, h.distinct.lookup_of_mem hm,
      Option.bind_some, at?_cons_object, (h.distinct_methods path pathItem hm).lookup_of_mem
        hoperation]
    rfl

end Find

/-! ### What the post-processing leaves -/

section PostProcess

variable {problem : ModelJsonSchema} {ids : CodePoints → CodePoints → Option CodePoints}
  {schema schema' : Members}

theorem postProcessMember_fst {path : CodePoints} {m n : CodePoints × Json}
    (h : postProcessMember ids path m = some n) : n.1 = m.1 := by
  unfold postProcessMember at h
  split_ifs at h
  · split at h
    · obtain ⟨operation, -, rfl⟩ := Option.map_eq_some_iff.mp h
      rfl
    · cases h
  · rw [← Option.some.inj h]

theorem postProcessPath_fst {m n : CodePoints × Json} (h : postProcessPath ids m = some n) :
    n.1 = m.1 := by
  unfold postProcessPath at h
  split at h
  · obtain ⟨pathItem, -, rfl⟩ := Option.map_eq_some_iff.mp h
    rfl
  · cases h

theorem lookup_problemResponses {operation operation' : Members} {isPublic : Bool}
    (h : problemResponses operation isPublic = some operation') {key : CodePoints}
    (hkey : key ≠ codePoints "responses") : operation'.lookup key = operation.lookup key := by
  obtain ⟨declared, -, h⟩ := Option.bind_eq_some_iff.mp h
  obtain ⟨responses, -, h⟩ := Option.bind_eq_some_iff.mp h
  obtain rfl := Option.some.inj h
  rw [lookup_dictInsert, if_neg hkey]

/-- The id of an operation after the loop. -/
theorem lookup_operationId_postProcessOperation {path method : CodePoints}
    {operation operation' : Members}
    (h : postProcessOperation ids path method operation = some operation') :
    operation'.lookup (codePoints "operationId") =
      ((ids path method).map Json.string).or (operation.lookup (codePoints "operationId")) := by
  obtain ⟨operationId, hid, h⟩ := Option.bind_eq_some_iff.mp h
  have hsecurity : codePoints "operationId" ≠ codePoints "security" := by decide
  rw [lookup_problemResponses h (by decide), hid]
  split_ifs
  · rw [lookup_dictInsert, if_neg hsecurity, lookup_dictInsert, if_pos rfl]
    cases ids path method <;> rfl
  · rw [lookup_dictInsert, if_pos rfl]
    cases ids path method <;> rfl

/-- The document after the loop, by its parts. -/
def processedDocument (problem : ModelJsonSchema) (schema components schemas paths : Members) :
    Members :=
  dictInsert (dictInsert (dictInsert schema (codePoints "components",
    .object (contractComponents problem components schemas))) (codePoints "security",
      globalSecurity)) (codePoints "paths", .object paths)

theorem lookup_processedDocument (problem : ModelJsonSchema)
    (schema components schemas paths : Members) (key : CodePoints) :
    (processedDocument problem schema components schemas paths).lookup key =
      if key = codePoints "paths" then some (.object paths)
      else if key = codePoints "security" then some globalSecurity
      else if key = codePoints "components" then
        some (.object (contractComponents problem components schemas))
      else schema.lookup key := by
  rw [processedDocument, lookup_dictInsert, lookup_dictInsert, lookup_dictInsert]

theorem at?_components (problem : ModelJsonSchema) (schema components schemas paths : Members)
    (place : Place) :
    at? (codePoints "components" :: place)
      (.object (processedDocument problem schema components schemas paths)) =
        at? place (.object (contractComponents problem components schemas)) := by
  rw [at?_cons_object, lookup_processedDocument, if_neg (by decide), if_neg (by decide),
    if_pos rfl]
  rfl

theorem at?_schemas (problem : ModelJsonSchema) (schema components schemas paths : Members)
    (place : Place) :
    at? (schemasPlace ++ place)
      (.object (processedDocument problem schema components schemas paths)) =
        at? place (.object (addProblemSchema problem schemas)) := by
  rw [schemasPlace, placeOf, List.map_cons, List.cons_append, at?_components, List.map_cons,
    List.cons_append, at?_cons_object, contractComponents, lookup_dictInsert,
    if_neg (by decide), lookup_dictInsert, if_pos rfl]
  rfl

/-- What `postProcess` makes of a document. -/
theorem postProcess_eq_some_iff : postProcess problem ids schema = some schema' ↔
    ∃ components schemas paths paths',
      subDict? schema (codePoints "components") = some components ∧
      subDict? components (codePoints "schemas") = some schemas ∧
      schema.lookup (codePoints "paths") = some (.object paths) ∧
      paths.mapM (postProcessPath ids) = some paths' ∧
      schema' = processedDocument problem schema components schemas paths' := by
  have hpaths : ∀ components schemas, (dictInsert (dictInsert schema (codePoints "components",
      .object (contractComponents problem components schemas))) (codePoints "security",
        globalSecurity)).lookup (codePoints "paths") = schema.lookup (codePoints "paths") := by
    intro components schemas
    rw [lookup_dictInsert, if_neg (by decide), lookup_dictInsert, if_neg (by decide)]
  constructor
  · intro h
    obtain ⟨components, hcomponents, h⟩ := Option.bind_eq_some_iff.mp h
    obtain ⟨schemas, hschemas, h⟩ := Option.bind_eq_some_iff.mp h
    dsimp only at h
    rw [hpaths] at h
    split at h
    · rename_i paths hlookup
      obtain ⟨paths', hmap, h⟩ := Option.bind_eq_some_iff.mp h
      exact ⟨components, schemas, paths, paths', hcomponents, hschemas, hlookup, hmap,
        (Option.some.inj h).symm⟩
    · cases h
  · intro h
    obtain ⟨components, schemas, paths, paths', hcomponents, hschemas, hlookup, hmap, rfl⟩ := h
    simp only [postProcess, hcomponents, hschemas, Option.bind_eq_bind, Option.bind_some, hpaths,
      hlookup, hmap]
    rfl

theorem at?_paths {paths : Members}
    (h : schema.lookup (codePoints "paths") = some (.object paths)) :
    at? [codePoints "paths"] (.object schema) = some (.object paths) := by
  rw [at?_cons_object, h]
  rfl

/-- A member of a path item after the loop. -/
theorem at?_postProcess (h : postProcess problem ids schema = some schema')
    (path method : CodePoints) :
    at? (operationPlace path method) (.object schema') =
      (at? (operationPlace path method) (.object schema)).bind fun value =>
        (postProcessMember ids path (method, value)).map Prod.snd := by
  obtain ⟨components, schemas, paths, paths', -, -, hpaths, hmap, rfl⟩ :=
    postProcess_eq_some_iff.mp h
  have hpaths' := at?_paths ((lookup_processedDocument problem schema components schemas paths'
    (codePoints "paths")).trans (if_pos rfl))
  rw [at?_operationPlace (at?_paths hpaths), at?_operationPlace hpaths', at?_cons_object,
    at?_cons_object, lookup_mapM postProcessPath_fst hmap]
  cases hitem : paths.lookup path with
  | none => rfl
  | some item =>
      obtain ⟨n, hn⟩ := exists_mapM_of_mem hmap (mem_of_lookup hitem)
      cases item with
      | object pathItem =>
          obtain ⟨pathItem', hitems, rfl⟩ := Option.map_eq_some_iff.mp hn
          rw [Option.bind_some, hn, Option.map_some, Option.bind_some, Option.bind_some,
            at?_cons_object, at?_cons_object, lookup_mapM postProcessMember_fst hitems]
          cases pathItem.lookup method with
          | none => rfl
          | some value =>
              simp only [Option.bind_some, at?_nil]
              cases postProcessMember ids path (method, value) <;> rfl
      | _ => cases hn

/-- An operation after the loop is one before it. -/
theorem exists_of_at?_postProcess (h : postProcess problem ids schema = some schema')
    {path method : CodePoints} {operation' : Members} (hmethod : method ∈ httpMethods)
    (hoperation' : at? (operationPlace path method) (.object schema') =
      some (.object operation')) :
    ∃ operation, at? (operationPlace path method) (.object schema) = some (.object operation) ∧
      postProcessOperation ids path method operation = some operation' := by
  rw [at?_postProcess h, Option.bind_eq_some_iff] at hoperation'
  obtain ⟨value, hvalue, hmember⟩ := hoperation'
  rw [postProcessMember, if_pos hmethod] at hmember
  cases value with
  | object operation =>
      refine ⟨operation, hvalue, ?_⟩
      dsimp only at hmember
      cases hstep : postProcessOperation ids path method operation with
      | none =>
          rw [hstep] at hmember
          cases hmember
      | some processed =>
          rw [hstep] at hmember
          exact congrArg some (Json.object.inj (Option.some.inj hmember))
  | _ => cases hmember

end PostProcess

/-! ## The document -/

/-- The id of an operation in the document. -/
def operationIdOf (ids : CodePoints → CodePoints → Option CodePoints) (path method : CodePoints)
    (operation : Members) : Option Json :=
  ((ids path method).map Json.string).or (operation.lookup (codePoints "operationId"))

/-- An operation of a document. -/
def IsOperation (schema : Json) (path method : CodePoints) (operation : Members) : Prop :=
  method ∈ httpMethods ∧ at? (operationPlace path method) schema = some (.object operation)

/-- A document as the framework generates it for the routes of the service. -/
structure IsGeneratedDocument (ids : CodePoints → CodePoints → Option CodePoints)
    (schema : Members) : Prop extends IsBaseDocument schema where
  distinct : ∀ paths, schema.lookup (codePoints "paths") = some (.object paths) →
    DistinctKeys paths ∧ ∀ path pathItem, (path, .object pathItem) ∈ paths → DistinctKeys pathItem
  /-- `createProject` has a body and a response of JSON. -/
  examples : ∀ path method operation, IsOperation (.object schema) path method operation →
    operationIdOf ids path method operation = some (.string (codePoints "createProject")) →
      HasExamplePlaces (.object operation)

/-- What the document says about an operation that the framework generated; the examples are
put into one of the operations. -/
structure PublishedOperation (ids : CodePoints → CodePoints → Option CodePoints)
    (path method : CodePoints) (operation : Members) (hasExamples : Prop) (document : Json) :
    Prop where
  operationId : at? (operationPlace path method ++ placeOf ["operationId"]) document =
    operationIdOf ids path method operation
  /-- The key requirement is inherited, or waived. -/
  security : at? (operationPlace path method ++ placeOf ["security"]) document =
    if isPublicOperation path method then some (.array []) else none
  /-- Every response that is no success is a problem. -/
  problems : ∀ code response, isSuccess code = false →
    at? (operationPlace path method ++ [codePoints "responses", code]) document =
      some response →
    at? (operationPlace path method ++ [codePoints "responses", code, codePoints "content"])
      document = some (objectOf [("application/problem+json", objectOf [("schema",
        objectOf [("$ref", .string (codePoints "#/components/schemas/Problem"))])])])
  /-- Of a declared error, everything but the content stays. -/
  errors : ∀ code response, isSuccess code = false → code ≠ codePoints "422" →
    at? [codePoints "responses", code] (.object operation) = some (.object response) →
    ∀ key place, key ≠ codePoints "content" →
      at? (operationPlace path method ++ codePoints "responses" :: code :: key :: place) document =
        at? (codePoints "responses" :: code :: key :: place) (.object operation)
  /-- There is no 422, and nothing but the declared responses, 500 and, with a key, 403 and
  429. -/
  codes : ∀ declared, declaredResponses? operation = some declared → ∀ code,
    (at? (operationPlace path method ++ [codePoints "responses", code]) document).isSome = true ↔
      code ≠ codePoints "422" ∧ dictHas declared code = true ∨ code = codePoints "500" ∨
        isPublicOperation path method = false ∧
          (code = codePoints "403" ∨ code = codePoints "429")
  /-- The successes are as they were, but for the examples. -/
  successes : ∀ code place, isSuccess code = true →
    (hasExamples → ∀ p ∈ examplePlaces, Apart p (codePoints "responses" :: code :: place)) →
    at? (operationPlace path method ++ codePoints "responses" :: code :: place) document =
      at? (codePoints "responses" :: code :: place) (.object operation)
  /-- And so is everything else. -/
  others : ∀ key place, key ∉ ["responses", "operationId", "security"].map codePoints →
    (hasExamples → ∀ p ∈ examplePlaces, Apart p (key :: place)) →
    at? (operationPlace path method ++ key :: place) document =
      at? (key :: place) (.object operation)

/-- Which operation has the examples: one with the id `createProject`, if there is one. -/
structure ExamplesContract (ids : CodePoints → CodePoints → Option CodePoints) (schema : Members)
    (created : Option (CodePoints × CodePoints)) (document : Json) : Prop where
  examples : ∀ path method, created = some (path, method) →
    HasExamples (operationPlace path method) document ∧
      ∃ operation, IsOperation (.object schema) path method operation ∧
        operationIdOf ids path method operation = some (.string (codePoints "createProject"))
  noExamples : created = none → ∀ path method operation,
    IsOperation (.object schema) path method operation →
      operationIdOf ids path method operation ≠ some (.string (codePoints "createProject"))

/-- The document of a service, in terms of the one that the framework generated. -/
structure ServedDocument (problem : ModelJsonSchema)
    (ids : CodePoints → CodePoints → Option CodePoints) (schema : Members)
    (created : Option (CodePoints × CodePoints)) (document : Json) : Prop
    extends ExamplesContract ids schema created document where
  operations : ∀ path method operation, IsOperation (.object schema) path method operation →
    PublishedOperation ids path method operation (created = some (path, method)) document
  /-- The key is required globally. -/
  security : at? [codePoints "security"] document =
    some (.array [objectOf [("ApiKeyAuth", .array [])]])
  securityScheme : at? (placeOf ["components", "securitySchemes", "ApiKeyAuth"]) document =
    some (objectOf [("type", .string (codePoints "apiKey")),
      ("in", .string (codePoints "header")), ("name", .string (codePoints "x-api-key")),
      ("description", .string (codePoints "API Gateway API key attached to a usage plan."))])
  problemSchema : at? (schemasPlace ++ [codePoints "Problem"]) document =
    some (.object (dictPop problem.members (codePoints "$defs")))
  /-- The schemas of the framework stay, but for its own ones and those of the problem. -/
  schemas : ∀ name place, name ∉ validationSchemaNames → name ≠ codePoints "Problem" →
    dictHas problem.defs name = false →
      at? (schemasPlace ++ name :: place) document =
        at? (schemasPlace ++ name :: place) (.object schema)
  others : ∀ key place, key ∉ ["paths", "components", "security"].map codePoints →
    at? (key :: place) document = at? (key :: place) (.object schema)

section Served

variable {problem : ModelJsonSchema} {ids : CodePoints → CodePoints → Option CodePoints}
  {schema schema' : Members}

/-- The loop succeeds on a document of the framework. -/
theorem IsBaseDocument.exists_postProcess (h : IsBaseDocument schema) (problem : ModelJsonSchema)
    (ids : CodePoints → CodePoints → Option CodePoints) :
    ∃ schema', postProcess problem ids schema = some schema' := by
  obtain ⟨paths, hpaths, hbase⟩ := h.paths
  obtain ⟨components, schemas, hcomponents, hschemas⟩ := h.components
  obtain ⟨paths', hmap⟩ := exists_mapM (f := postProcessPath ids) fun m hm => by
    obtain ⟨m', hm', -⟩ := postProcessPath_contract ids (hbase m hm)
    exact ⟨m', hm'⟩
  exact ⟨_, postProcess_eq_some_iff.mpr
    ⟨components, schemas, paths, paths', hcomponents, hschemas, hpaths, hmap, rfl⟩⟩

/-- The paths after the loop are such that an operation can be found in them. -/
theorem IsGeneratedDocument.isPathTable (h : IsGeneratedDocument ids schema)
    {paths paths' : Members} (hpaths : schema.lookup (codePoints "paths") = some (.object paths))
    (hmap : paths.mapM (postProcessPath ids) = some paths') : IsPathTable paths' := by
  obtain ⟨hdistinct, hmethods⟩ := h.distinct paths hpaths
  refine ⟨?_, hdistinct.mapM postProcessPath_fst hmap, ?_⟩
  · intro n hn
    obtain ⟨⟨path, item⟩, -, hstep⟩ := exists_of_mem_mapM hmap hn
    cases item with
    | object pathItem =>
        obtain ⟨pathItem', hitems, rfl⟩ := Option.map_eq_some_iff.mp hstep
        refine ⟨pathItem', rfl, fun n hn hmethod => ?_⟩
        obtain ⟨m, -, hm⟩ := exists_of_mem_mapM hitems hn
        rw [postProcessMember, if_pos (postProcessMember_fst hm ▸ hmethod)] at hm
        split at hm
        · obtain ⟨operation', -, rfl⟩ := Option.map_eq_some_iff.mp hm
          exact ⟨operation', rfl⟩
        · cases hm
    | _ => cases hstep
  · intro path pathItem' hmem
    obtain ⟨⟨path', item⟩, hm, hstep⟩ := exists_of_mem_mapM hmap hmem
    cases item with
    | object pathItem =>
        obtain ⟨pathItem'', hitems, heq⟩ := Option.map_eq_some_iff.mp hstep
        cases heq
        exact (hmethods path' pathItem hm).mapM postProcessMember_fst hitems
    | _ => cases hstep

/-- An operation is a member of its path item. -/
theorem IsOperation.exists_mem {paths : Members} {path method : CodePoints} {operation : Members}
    (h : IsOperation (.object schema) path method operation)
    (hpaths : schema.lookup (codePoints "paths") = some (.object paths)) :
    ∃ pathItem, (path, .object pathItem) ∈ paths ∧ (method, .object operation) ∈ pathItem := by
  obtain ⟨-, hplace⟩ := h
  rw [at?_operationPlace (at?_paths hpaths), at?_cons_object, Option.bind_eq_some_iff] at hplace
  obtain ⟨item, hitem, hplace⟩ := hplace
  cases item with
  | object pathItem =>
      rw [at?_cons_object, Option.bind_eq_some_iff] at hplace
      obtain ⟨value, hvalue, hplace⟩ := hplace
      obtain rfl := Option.some.inj hplace
      exact ⟨pathItem, mem_of_lookup hitem, mem_of_lookup hvalue⟩
  | _ => cases hplace

/-- The operations of a document of the framework are such. -/
theorem IsBaseDocument.isBaseOperation (h : IsBaseDocument schema) {path method : CodePoints}
    {operation : Members} (hoperation : IsOperation (.object schema) path method operation) :
    IsBaseOperation operation := by
  obtain ⟨paths, hpaths, hbase⟩ := h.paths
  obtain ⟨pathItem, hitem, hmem⟩ := hoperation.exists_mem hpaths
  obtain ⟨pathItem', heq, hmembers⟩ := hbase _ hitem
  obtain rfl := Json.object.inj heq
  obtain ⟨operation', heq, hbase⟩ := hmembers _ hmem hoperation.1
  obtain rfl := Json.object.inj heq
  exact hbase

/-- The examples of a response are all in the one with the code 201. -/
theorem apart_responses {code : CodePoints} (hcode : code ≠ codePoints "201") (place : Place) :
    ∀ p ∈ examplePlaces, Apart p (codePoints "responses" :: code :: place) := by
  have hbody : codePoints "requestBody" ≠ codePoints "responses" := by decide
  simp only [examplePlaces, placeOf, List.map_cons, List.map_nil, List.forall_mem_cons]
  refine ⟨apart_cons_cons_of_ne hbody _ _, ?_, ?_, ?_, by simp⟩
  all_goals
    refine (apart_append_left_iff (p := [codePoints "responses"])).mpr ?_
    exact apart_cons_cons_of_ne hcode.symm _ _

theorem at?_responses {operation responses : Members}
    (h : operation.lookup (codePoints "responses") = some (.object responses)) (code : CodePoints)
    (place : Place) : at? (codePoints "responses" :: code :: place) (.object operation) =
      (responses.lookup code).bind (at? place) := by
  rw [at?_cons_object, h]
  rfl

/-- A missing dictionary is as good as an empty one. -/
theorem at?_subDict? {members found : Members} {key : CodePoints}
    (h : subDict? members key = some found) (k : CodePoints) (place : Place) :
    at? (key :: k :: place) (.object members) = (found.lookup k).bind (at? place) := by
  unfold subDict? at h
  rw [at?_cons_object]
  split at h
  · rename_i hlookup
    obtain rfl := Option.some.inj h
    rw [hlookup]
    rfl
  · rename_i responses hlookup
    obtain rfl := Option.some.inj h
    rw [hlookup]
    rfl
  · cases h

theorem at?_declaredResponses {operation declared : Members}
    (h : declaredResponses? operation = some declared) (code : CodePoints) (place : Place) :
    at? (codePoints "responses" :: code :: place) (.object operation) =
      (declared.lookup code).bind (at? place) :=
  at?_subDict? h code place

section Operation

variable {path method : CodePoints} {operation operation' : Members} {hasExamples : Prop}
  {document : Json}

/-- Of an operation after the loop, the document says what the contract says. -/
theorem OperationContract.published
    (hcontract : OperationContract (isPublicOperation path method) operation operation')
    (hid : operation'.lookup (codePoints "operationId") = operationIdOf ids path method operation)
    (hagree : ∀ place, (hasExamples → ∀ p ∈ examplePlaces, Apart p place) →
      at? (operationPlace path method ++ place) document = at? place (.object operation'))
    (hplaces : hasExamples → HasExamplePlaces (.object operation))
    (hexamples : hasExamples → HasExamples (operationPlace path method) document) :
    PublishedOperation ids path method operation hasExamples document := by
  obtain ⟨declared, responses', hdeclared, hresponses', hcodes⟩ := hcontract.responses
  have hlookup : ∀ key, at? [key] (.object operation') = operation'.lookup key := by
    intro key
    rw [at?_cons_object]
    cases operation'.lookup key <;> rfl
  have hresponse : ∀ code, (hasExamples → code ≠ codePoints "201") →
      at? (operationPlace path method ++ [codePoints "responses", code]) document =
        responses'.lookup code := by
    intro code hcode
    rw [hagree _ fun hhas => apart_responses (hcode hhas) [], at?_responses hresponses']
    cases responses'.lookup code <;> rfl
  have hother : ∀ code, isSuccess code = false → code ≠ codePoints "201" := by
    rintro code hcode rfl
    rw [show isSuccess (codePoints "201") = true by decide] at hcode
    cases hcode
  constructor
  case operationId =>
    rw [hagree _ fun _ => by decide +kernel, ← hid]
    exact hlookup _
  case security =>
    rw [hagree _ fun _ => by decide +kernel, ← hcontract.security]
    exact hlookup _
  case problems =>
    intro code response hcode hfound
    rw [hresponse code fun _ => hother code hcode] at hfound
    obtain ⟨members, rfl, hcontent⟩ := hcodes.problems _ (mem_of_lookup hfound) hcode
    rw [hagree _ fun _ => apart_responses (hother code hcode) [codePoints "content"],
      at?_responses hresponses', hfound, Option.bind_some, at?_cons_object, hcontent]
    rfl
  case errors =>
    intro code response hcode hne hfound key place hkey
    have hlookup := (at?_declaredResponses hdeclared code []).symm.trans hfound
    obtain ⟨value, hvalue, heq⟩ := Option.bind_eq_some_iff.mp hlookup
    obtain rfl := Option.some.inj heq
    obtain ⟨response', hresponse', hrest⟩ := hcodes.declared code hne response hvalue
    rw [hagree _ fun _ => apart_responses (hother code hcode) (key :: place),
      at?_responses hresponses', hresponse', at?_declaredResponses hdeclared, hvalue,
      Option.bind_some, Option.bind_some, at?_cons_object, at?_cons_object, hrest key hkey]
  case codes =>
    intro declared' hdeclared' code
    obtain rfl := Option.some.inj (hdeclared.symm.trans hdeclared')
    by_cases hcode : hasExamples ∧ code = codePoints "201"
    · -- the response with the examples
      obtain ⟨hhas, rfl⟩ := hcode
      obtain ⟨members, hcreated⟩ := (hplaces hhas).created
      have hplace : at? [codePoints "responses", codePoints "201"] (.object operation) =
          some (.object members) := hcreated
      rw [at?_declaredResponses hdeclared, Option.bind_eq_some_iff] at hplace
      obtain ⟨response, hresponse, -⟩ := hplace
      have hfound := (hexamples hhas).description
      rw [show operationPlace path method ++ placeOf ["responses", "201", "description"] =
        (operationPlace path method ++ [codePoints "responses", codePoints "201"]) ++
          [codePoints "description"] from rfl, at?_append, Option.bind_eq_some_iff] at hfound
      obtain ⟨found, hfound, -⟩ := hfound
      have hdeclares : dictHas declared (codePoints "201") = true := by
        rw [dictHas, hresponse]
        rfl
      have hcode : codePoints "201" ≠ codePoints "422" := by decide
      rw [hfound, hdeclares]
      exact ⟨fun _ => Or.inl ⟨hcode, rfl⟩, fun _ => rfl⟩
    · rw [hresponse code fun hhas heq => hcode ⟨hhas, heq⟩]
      exact hcodes.codes code
  case successes =>
    intro code place hcode hapart
    rw [hagree _ hapart, at?_responses hresponses', hcodes.successes code hcode,
      at?_declaredResponses hdeclared]
  case others =>
    intro key place hkey hapart
    rw [hagree _ hapart, at?_cons_object, at?_cons_object, hcontract.others key hkey]

/-- The places of the examples are there after the loop if they were there before. -/
theorem OperationContract.hasExamplePlaces
    (hcontract : OperationContract (isPublicOperation path method) operation operation')
    (h : HasExamplePlaces (.object operation)) : HasExamplePlaces (.object operation') := by
  obtain ⟨declared, responses', hdeclared, hresponses', hcodes⟩ := hcontract.responses
  have hcreated : ∀ place, at? (codePoints "responses" :: codePoints "201" :: place)
      (.object operation') =
        at? (codePoints "responses" :: codePoints "201" :: place) (.object operation) := by
    intro place
    rw [at?_responses hresponses', hcodes.successes _ (by decide),
      at?_declaredResponses hdeclared]
  constructor
  · obtain ⟨request, hrequest⟩ := h.request
    refine ⟨request, ?_⟩
    rw [← hrequest, placeOf, List.map_cons, at?_cons_object, at?_cons_object,
      hcontract.others _ (by decide)]
  · obtain ⟨created, h⟩ := h.created
    exact ⟨created, (hcreated []).trans h⟩
  · obtain ⟨content, h⟩ := h.content
    exact ⟨content, (hcreated _).trans h⟩

end Operation

/-! ### The later changes -/

/-- Where the examples are put. -/
def exampleChanges : Option (CodePoints × CodePoints) → List Place
  | none => []
  | some (path, method) => examplePlaces.map (operationPlace path method ++ ·)

/-- What changes after the loop. -/
def laterChanges (created : Option (CodePoints × CodePoints)) : List Place :=
  exampleChanges created ++ validationSchemaNames.map fun name => schemasPlace ++ [name]

variable {created : Option (CodePoints × CodePoints)}

theorem exists_of_mem_laterChanges {p : Place} (h : p ∈ laterChanges created) :
    (∃ path method, created = some (path, method) ∧
      ∃ q ∈ examplePlaces, p = operationPlace path method ++ q) ∨
    ∃ name ∈ validationSchemaNames, p = schemasPlace ++ [name] := by
  rcases List.mem_append.mp h with h | h
  · cases created with
    | none => cases h
    | some place =>
        obtain ⟨path, method⟩ := place
        obtain ⟨q, hq, rfl⟩ := List.mem_map.mp h
        exact Or.inl ⟨path, method, rfl, q, hq, rfl⟩
  · obtain ⟨name, hname, rfl⟩ := List.mem_map.mp h
    exact Or.inr ⟨name, hname, rfl⟩

/-- The changes are in the paths and in the components. -/
theorem apart_laterChanges {key : CodePoints} (hpaths : key ≠ codePoints "paths")
    (hcomponents : key ≠ codePoints "components") (place : Place) :
    ∀ p ∈ laterChanges created, Apart p (key :: place) := by
  intro p hp
  rcases exists_of_mem_laterChanges hp with ⟨path, method, -, q, -, rfl⟩ | ⟨name, -, rfl⟩
  · exact apart_cons_cons_of_ne hpaths.symm _ _
  · exact apart_cons_cons_of_ne hcomponents.symm _ _

/-- In the components, the changes are the named schemas. -/
theorem apart_laterChanges_components {place : Place}
    (h : ∀ name ∈ validationSchemaNames, Apart (schemasPlace ++ [name])
      (codePoints "components" :: place)) :
    ∀ p ∈ laterChanges created, Apart p (codePoints "components" :: place) := by
  intro p hp
  rcases exists_of_mem_laterChanges hp with ⟨path, method, -, q, -, rfl⟩ | ⟨name, hname, rfl⟩
  · exact apart_cons_cons_of_ne (by decide) _ _
  · exact h name hname

theorem apart_laterChanges_schemas {name : CodePoints} (h : name ∉ validationSchemaNames)
    (place : Place) :
    ∀ p ∈ laterChanges created, Apart p (schemasPlace ++ name :: place) := by
  refine apart_laterChanges_components fun name' hname' => ?_
  refine (apart_append_left_iff (p := schemasPlace)).mpr (apart_cons_cons_of_ne ?_ [] place)
  rintro rfl
  exact h hname'

/-- In an operation, the changes are the examples. -/
theorem apart_laterChanges_operation {path method : CodePoints} {place : Place}
    (h : created = some (path, method) → ∀ p ∈ examplePlaces, Apart p place) :
    ∀ p ∈ laterChanges created, Apart p (operationPlace path method ++ place) := by
  intro p hp
  rcases exists_of_mem_laterChanges hp with ⟨path', method', hcreated, q, hq, rfl⟩ |
    ⟨name, -, rfl⟩
  · by_cases hsame : path' = path ∧ method' = method
    · obtain ⟨rfl, rfl⟩ := hsame
      exact apart_append_left_iff.mpr (h hcreated q hq)
    · refine Apart.append ?_ q place
      constructor <;> intro hinside
      · simp only [operationPlace, List.cons_prefix_cons] at hinside
        exact hsame ⟨hinside.2.1, hinside.2.2.1⟩
      · simp only [operationPlace, List.cons_prefix_cons] at hinside
        exact hsame ⟨hinside.2.1.symm, hinside.2.2.1.symm⟩
  · exact apart_cons_cons_of_ne (by decide) _ _

theorem hasOperationId_iff {id : CodePoints} {operation : Members} :
    hasOperationId id operation = true ↔
      operation.lookup (codePoints "operationId") = some (.string id) := by
  unfold hasOperationId
  split
  · rename_i id' hlookup
    rw [hlookup, beq_iff_eq]
    simp
  · rename_i hlookup
    constructor
    · intro h
      cases h
    · intro h
      exact absurd h (hlookup id)

/-- An operation of the framework's document is in the document after the loop. -/
theorem IsBaseDocument.exists_processed (h : IsBaseDocument schema)
    (hprocess : postProcess problem ids schema = some schema') {path method : CodePoints}
    {operation : Members} (hoperation : IsOperation (.object schema) path method operation) :
    ∃ operation', at? (operationPlace path method) (.object schema') = some (.object operation') ∧
      OperationContract (isPublicOperation path method) operation operation' ∧
      operation'.lookup (codePoints "operationId") = operationIdOf ids path method operation := by
  obtain ⟨operation', hstep, hcontract⟩ :=
    postProcessOperation_contract ids path method (h.isBaseOperation hoperation)
  refine ⟨operation', ?_, hcontract, lookup_operationId_postProcessOperation hstep⟩
  rw [at?_postProcess hprocess, hoperation.2, Option.bind_some, postProcessMember,
    if_pos hoperation.1]
  dsimp only
  rw [hstep]
  rfl

/-- The examples can be added to the document after the loop. -/
theorem IsGeneratedDocument.exists_addExamples (h : IsGeneratedDocument ids schema)
    (hprocess : postProcess problem ids schema = some schema') :
    ∃ created document, addCreateProjectExamples (.object schema') = some document ∧
      AgreeApart (exampleChanges created) (.object schema') document ∧
      ExamplesContract ids schema created document := by
  obtain ⟨components, schemas, paths, paths', -, -, hpaths, hmap, hschema'⟩ :=
    postProcess_eq_some_iff.mp hprocess
  have hpaths' : at? [codePoints "paths"] (.object schema') = some (.object paths') := by
    rw [hschema']
    exact at?_paths ((lookup_processedDocument ..).trans (if_pos rfl))
  have htable : paths? (.object schema') = some paths' := by
    rw [paths?, hpaths']
  obtain ⟨created, hfind, hnone, hsome⟩ := exists_findOperation? (codePoints "createProject")
    hpaths' (h.isPathTable hpaths hmap)
  cases created with
  | none =>
      refine ⟨none, .object schema', ?_, fun _ _ => rfl, ?_, ?_⟩
      · rw [addCreateProjectExamples, htable, Option.bind_eq_bind, Option.bind_some, hfind]
        rfl
      · intro path method hcreated
        cases hcreated
      · intro _ path method operation hoperation hid
        obtain ⟨operation', hplace, -, hid'⟩ := h.exists_processed hprocess hoperation
        have hnot := hnone rfl path method operation' hoperation.1 hplace
        rw [hasOperationId_iff.mpr (hid'.trans hid)] at hnot
        cases hnot
  | some place =>
      obtain ⟨path, method⟩ := place
      obtain ⟨hmethod, operation', hplace, hid⟩ := hsome path method rfl
      obtain ⟨operation, hoperation, -⟩ := exists_of_at?_postProcess hprocess hmethod hplace
      obtain ⟨operation'', hplace', hcontract, hid'⟩ :=
        h.exists_processed hprocess ⟨hmethod, hoperation⟩
      obtain rfl := Json.object.inj (Option.some.inj (hplace.symm.trans hplace'))
      rw [hasOperationId_iff, hid'] at hid
      have hplaces := h.examples path method operation ⟨hmethod, hoperation⟩ hid
      obtain ⟨document, hassign, hagree, hexamples⟩ :=
        exists_assignExamples hplace (hcontract.hasExamplePlaces hplaces)
      refine ⟨some (path, method), document, ?_, hagree, ?_, ?_⟩
      · rw [addCreateProjectExamples, htable, Option.bind_eq_bind, Option.bind_some, hfind]
        exact hassign
      · intro path' method' hcreated
        obtain ⟨rfl, rfl⟩ := Prod.mk.inj (Option.some.inj hcreated)
        exact ⟨hexamples, operation, ⟨hmethod, hoperation⟩, hid⟩
      · intro hcreated
        cases hcreated

/-- The examples are not among the schemas that are dropped. -/
theorem ExamplesContract.mono {document document' : Json}
    (h : ExamplesContract ids schema created document)
    (hagree : AgreeApart (validationSchemaNames.map fun name => schemasPlace ++ [name])
      document document') : ExamplesContract ids schema created document' := by
  refine ⟨?_, h.noExamples⟩
  intro path method hcreated
  obtain ⟨hexamples, hoperation⟩ := h.examples path method hcreated
  have hread : ∀ place, at? (operationPlace path method ++ place) document' =
      at? (operationPlace path method ++ place) document := by
    intro place
    refine hagree _ fun p hp => ?_
    obtain ⟨name, -, rfl⟩ := List.mem_map.mp hp
    exact apart_cons_cons_of_ne (by decide) _ _
  refine ⟨⟨?_, ?_, ?_, ?_⟩, hoperation⟩
  · exact (hread _).trans hexamples.request
  · exact (hread _).trans hexamples.description
  · exact (hread _).trans hexamples.headers
  · exact (hread _).trans hexamples.project

theorem componentSchemas?_of_at? {document : Json} {schemas : Members}
    (h : at? schemasPlace document = some (.object schemas)) :
    componentSchemas? document = some schemas := by
  cases document with
  | object members =>
      obtain ⟨components, hcomponents, h⟩ := Option.bind_eq_some_iff.mp h
      cases components with
      | object components =>
          obtain ⟨found, hfound, h⟩ := Option.bind_eq_some_iff.mp h
          obtain rfl := Option.some.inj h
          rw [componentSchemas?, components?, hcomponents, Option.bind_some, hfound]
      | _ => cases h
  | _ => cases h

/-- The document before the schemas are dropped. -/
theorem IsGeneratedDocument.exists_beforeDrop (h : IsGeneratedDocument ids schema)
    (problem : ModelJsonSchema) :
    ∃ schema' created document components schemas,
      postProcess problem ids schema = some schema' ∧
      addCreateProjectExamples (.object schema') = some document ∧
      subDict? schema (codePoints "components") = some components ∧
      subDict? components (codePoints "schemas") = some schemas ∧
      componentSchemas? document = some (addProblemSchema problem schemas) ∧
      AgreeApart (exampleChanges created) (.object schema') document ∧
      ExamplesContract ids schema created document := by
  obtain ⟨schema', hprocess⟩ := h.exists_postProcess problem ids
  obtain ⟨created, document, hexamples, hagree, hcontract⟩ := h.exists_addExamples hprocess
  obtain ⟨components, schemas, paths, paths', hcomponents, hschemas, -, -, hschema'⟩ :=
    postProcess_eq_some_iff.mp hprocess
  refine ⟨schema', created, document, components, schemas, hprocess, hexamples, hcomponents,
    hschemas, ?_, hagree, hcontract⟩
  -- none of the examples is among the schemas
  have hschemas' : at? schemasPlace (.object schema') =
      some (.object (addProblemSchema problem schemas)) := by
    rw [hschema', ← List.append_nil schemasPlace, at?_schemas]
    rfl
  refine componentSchemas?_of_at? ((hagree _ fun p hp => ?_).trans hschemas')
  cases created with
  | none => cases hp
  | some place =>
      obtain ⟨q, -, rfl⟩ := List.mem_map.mp hp
      exact apart_cons_cons_of_ne (by decide) _ _

/-- The whole document in terms of what follows the loop. -/
theorem exists_buildOpenapi [CaseTables] [TitleTables] {routes : List RouteContext}
    (h : IsGeneratedDocument (operationIds routes) schema) (problem : ModelJsonSchema) :
    ∃ schema' created document, postProcess problem (operationIds routes) schema = some schema' ∧
      buildOpenapi problem routes schema = some document ∧
      AgreeApart (laterChanges created) (.object schema') document ∧
      ExamplesContract (operationIds routes) schema created document := by
  obtain ⟨schema', created, document, components, schemas, hprocess, hexamples, -, -, hschemas,
    hagree, hcontract⟩ := h.exists_beforeDrop problem
  have hdrop : dropUnreferenced document validationSchemaNames = some _ :=
    dropUnreferenced_eq hschemas
  have hdropped := agreeApart_dropUnreferenced hschemas (by simp [validationSchemaNames]) hdrop
  refine ⟨schema', created, _, hprocess, ?_, hagree.trans hdropped, hcontract.mono hdropped⟩
  rw [buildOpenapi, hprocess, Option.bind_eq_bind, Option.bind_some, hexamples,
    Option.bind_eq_bind, Option.bind_some, hdrop]

/-- An operation of the served document. -/
theorem IsGeneratedDocument.published (h : IsGeneratedDocument ids schema) {document : Json}
    (hprocess : postProcess problem ids schema = some schema')
    (hagree : AgreeApart (laterChanges created) (.object schema') document)
    (hexamples : ExamplesContract ids schema created document) {path method : CodePoints}
    {operation : Members} (hoperation : IsOperation (.object schema) path method operation) :
    PublishedOperation ids path method operation (created = some (path, method)) document := by
  obtain ⟨operation', hplace, hcontract, hid⟩ := h.exists_processed hprocess hoperation
  refine hcontract.published hid (fun place hapart => ?_) (fun hcreated => ?_)
    fun hcreated => (hexamples.examples path method hcreated).1
  · rw [hagree _ (apart_laterChanges_operation hapart), at?_append_of_eq hplace]
  · obtain ⟨-, operation'', hoperation'', hid''⟩ := hexamples.examples path method hcreated
    obtain rfl := Json.object.inj (Option.some.inj (hoperation.2.symm.trans hoperation''.2))
    exact h.examples path method operation hoperation hid''

/-- The served document says of every operation what the service does: its readable id, its
security, its errors as problems; everything that the framework says besides is kept. -/
theorem served_document [CaseTables] [TitleTables] (problem : ModelJsonSchema)
    {routes : List RouteContext} (h : IsGeneratedDocument (operationIds routes) schema) :
    ∃ document created, buildOpenapi problem routes schema = some document ∧
      ServedDocument problem (operationIds routes) schema created document := by
  obtain ⟨schema', created, document, hprocess, hbuild, hagree, hexamples⟩ :=
    exists_buildOpenapi h problem
  obtain ⟨components, schemas, paths, paths', hcomponents, hschemas, -, -, hschema'⟩ :=
    postProcess_eq_some_iff.mp hprocess
  refine ⟨document, created, hbuild, hexamples, ?_, ?_, ?_, ?_, ?_, ?_⟩
  · exact fun path method operation => h.published hprocess hagree hexamples
  · rw [hagree _ (apart_laterChanges (by decide) (by decide) []), at?_cons_object, hschema',
      lookup_processedDocument, if_neg (by decide), if_pos rfl]
    rfl
  · rw [placeOf, List.map_cons, hagree _ (apart_laterChanges_components (by decide +kernel)),
      hschema', at?_components, contractComponents, List.map_cons, at?_cons_object,
      lookup_dictInsert, if_pos rfl]
    rfl
  · have hname : codePoints "Problem" ∉ validationSchemaNames := by decide +kernel
    rw [hagree _ (apart_laterChanges_schemas hname []), hschema', at?_schemas, at?_cons_object,
      addProblemSchema, lookup_dictInsert, if_pos rfl]
    rfl
  · intro name place hname hproblem hdefs
    have hnone : problem.defs.lookup name = none := by
      rw [← Option.not_isSome_iff_eq_none, ← dictHas, hdefs]
      simp
    -- the schema is found in the components of the framework, if it is there
    rw [hagree _ (apart_laterChanges_schemas hname place), hschema', at?_schemas, at?_cons_object,
      addProblemSchema, lookup_dictInsert, if_neg hproblem, lookup_dictUpdate_of_none hnone,
      ← at?_subDict? hschemas, show schemasPlace ++ name :: place =
        codePoints "components" :: codePoints "schemas" :: name :: place from rfl,
      at?_subDict? hcomponents, at?_cons_object]
  · intro key place hkey
    simp only [List.map_cons, List.map_nil, List.mem_cons, List.not_mem_nil, or_false,
      not_or] at hkey
    obtain ⟨hpaths, hcomponents, hsecurity⟩ := hkey
    rw [hagree _ (apart_laterChanges hpaths hcomponents place), at?_cons_object, hschema',
      lookup_processedDocument, if_neg hpaths, if_neg hsecurity, if_neg hcomponents,
      at?_cons_object]

/-! ## Distinct ids -/

/-- The routes of an application: functions with snake-case names and no ids of their own, one
for each operation. -/
structure HasSnakeNames [CaseTables] (routes : List RouteContext) : Prop where
  snake : ∀ route ∈ routes, IsSnake route.name
  derived : ∀ route ∈ routes, route.operationId = none
  one : ∀ route ∈ routes, ∀ other ∈ routes, ∀ path method, route.Serves path method →
    other.Serves path method → other.name = route.name

section Ids

variable [CaseTables] [TitleTables] {routes : List RouteContext} {document : Json}
  {path method : CodePoints} {operation : Members} {route : RouteContext}

omit [CaseTables] in
theorem id_of_derived (h : route.operationId = none) : route.id = nameOperationId route.name := by
  rw [RouteContext.id, h]
  rfl

/-- The id of an operation is that of its function's name. -/
theorem HasSnakeNames.operationIdOf (h : HasSnakeNames routes) (hroute : route ∈ routes)
    (hserves : route.Serves path method) (operation : Members) :
    operationIdOf (operationIds routes) path method operation =
      some (.string (codePoints (nameOperationId route.name))) := by
  have hsame : ∀ other ∈ routes, other.Serves path method → other.id = route.id := by
    intro other hother hserves'
    rw [id_of_derived (h.derived other hother), id_of_derived (h.derived route hroute),
      h.one route hroute other hother path method hserves hserves']
  rw [ProjectsApi.operationIdOf, operationIds_eq hroute hserves hsame,
    id_of_derived (h.derived route hroute)]
  rfl

/-- The ids of the served document are readable, and operations share one only if their
functions share a name, or one of them has the name that another one's id is written for. -/
theorem operation_ids_distinct_iff (problem : ModelJsonSchema)
    (h : IsGeneratedDocument (operationIds routes) schema)
    (hbuild : buildOpenapi problem routes schema = some document) (hnames : HasSnakeNames routes)
    (hroute : route ∈ routes) (hserves : route.Serves path method)
    (hoperation : IsOperation (.object schema) path method operation) :
    (∃ id c cs, at? (operationPlace path method ++ placeOf ["operationId"]) document =
        some (.string (codePoints id)) ∧ id.toList = c :: cs ∧ c.isLower = true ∧
          ∀ d ∈ cs, d.isAlphanum = true) ∧
      ∀ route' ∈ routes, ∀ path' method' operation', route'.Serves path' method' →
        IsOperation (.object schema) path' method' operation' →
          (at? (operationPlace path method ++ placeOf ["operationId"]) document =
              at? (operationPlace path' method' ++ placeOf ["operationId"]) document ↔
            route.name = route'.name ∨ (route.name = "health" ∧ route'.name = "get_health") ∨
              (route.name = "get_health" ∧ route'.name = "health")) := by
  obtain ⟨schema', created, document', hprocess, hbuild', hagree, hexamples⟩ :=
    exists_buildOpenapi h problem
  obtain rfl := Option.some.inj (hbuild'.symm.trans hbuild)
  have hid : ∀ {route : RouteContext} {path method : CodePoints} {operation : Members},
      route ∈ routes → route.Serves path method →
      IsOperation (.object schema) path method operation →
        at? (operationPlace path method ++ placeOf ["operationId"]) document' =
          some (.string (codePoints (nameOperationId route.name))) := by
    intro route path method operation hroute hserves hoperation
    rw [(h.published hprocess hagree hexamples hoperation).operationId,
      hnames.operationIdOf hroute hserves]
  constructor
  · obtain ⟨c, cs, hchars, hlower, hrest⟩ := nameOperationId_readable (hnames.snake route hroute)
    exact ⟨_, c, cs, hid hroute hserves hoperation, hchars, hlower, hrest⟩
  · intro route' hroute' path' method' operation' hserves' hoperation'
    rw [hid hroute hserves hoperation, hid hroute' hserves' hoperation', Option.some_inj,
      Json.string.injEq, codePoints_inj]
    exact nameOperationId_eq_iff (hnames.snake route hroute) (hnames.snake route' hroute')

end Ids

end Served

section Sample

local instance asciiCaseTables : CaseTables := .ascii

local instance asciiTitleTables : TitleTables := .ascii

/-- An operation with a body and two responses of JSON. -/
def generatedOperation (id code : String) : Members :=
  [(codePoints "operationId", .string (codePoints id)),
    (codePoints "requestBody", objectOf [("content", objectOf [("application/json",
      objectOf [])])]),
    (codePoints "responses", objectOf [(code, objectOf [("content", objectOf [("application/json",
      objectOf [])])]), ("422", objectOf [])])]

/-- The document of two routes. -/
def serviceDocument : Members :=
  [(codePoints "paths", objectOf [
    ("/health", objectOf [("get", .object (generatedOperation "health_health_get" "200"))]),
    ("/v1/projects", objectOf [("post", .object
      (generatedOperation "create_project_v1_projects_post" "201"))])])]

def serviceRoute (path name method : String) : RouteContext where
  isApiRoute := true
  includeInSchema := true
  contextPath := some path
  pathFormat := ""
  operationId := none
  name := name
  methods := [method]

def serviceRoutes : List RouteContext :=
  [serviceRoute "/health" "health" "GET", serviceRoute "/v1/projects" "create_project" "POST"]

theorem isBaseOperation_generatedOperation (id code : String) :
    IsBaseOperation (generatedOperation id code) := by
  refine ⟨by rfl, by rfl, _, rfl, ?_⟩
  intro m hm
  simp only [List.map_cons, List.map_nil, List.mem_cons, List.not_mem_nil, or_false] at hm
  rcases hm with rfl | rfl
  · exact ⟨_, rfl⟩
  · exact ⟨_, rfl⟩

theorem isGeneratedDocument_serviceDocument :
    IsGeneratedDocument (operationIds serviceRoutes) serviceDocument := by
  have hpaths : serviceDocument.lookup (codePoints "paths") = some (objectOf [
    ("/health", objectOf [("get", .object (generatedOperation "health_health_get" "200"))]),
    ("/v1/projects", objectOf [("post", .object
      (generatedOperation "create_project_v1_projects_post" "201"))])]) := by rfl
  refine ⟨⟨⟨_, hpaths, ?_⟩, [], [], rfl, rfl⟩, ?_, ?_⟩
  · intro m hm
    simp only [List.map_cons, List.map_nil, List.mem_cons, List.not_mem_nil, or_false] at hm
    rcases hm with rfl | rfl
    all_goals
      refine ⟨_, rfl, fun n hn _ => ?_⟩
      obtain rfl := List.mem_singleton.mp hn
      exact ⟨_, rfl, isBaseOperation_generatedOperation _ _⟩
  · intro paths hlookup
    obtain rfl := Json.object.inj (Option.some.inj (hpaths.symm.trans hlookup))
    refine ⟨by decide +kernel, fun path pathItem hmem => ?_⟩
    simp only [List.map_cons, List.map_nil, List.mem_cons, List.not_mem_nil, or_false] at hmem
    rcases hmem with hmem | hmem
    all_goals
      obtain ⟨-, heq⟩ := Prod.mk.inj hmem
      obtain rfl := Json.object.inj heq
      exact List.nodup_singleton _
  · intro path method operation hoperation hid
    obtain ⟨pathItem, hitem, hmem⟩ := hoperation.exists_mem hpaths
    simp only [List.map_cons, List.map_nil, List.mem_cons, List.not_mem_nil, or_false] at hitem
    rcases hitem with hitem | hitem
    · obtain ⟨rfl, heq⟩ := Prod.mk.inj hitem
      obtain rfl := Json.object.inj heq
      obtain ⟨rfl, -⟩ := Prod.mk.inj (List.mem_singleton.mp hmem)
      have hother : operationIds serviceRoutes (codePoints "/health") (codePoints "get") =
        some (codePoints "getHealth") := by decide +kernel
      rw [operationIdOf, hother] at hid
      exact absurd hid (by simp)
    · obtain ⟨rfl, heq⟩ := Prod.mk.inj hitem
      obtain rfl := Json.object.inj heq
      obtain ⟨-, heq⟩ := Prod.mk.inj (List.mem_singleton.mp hmem)
      obtain rfl := Json.object.inj heq
      exact ⟨⟨_, rfl⟩, ⟨_, rfl⟩, ⟨_, rfl⟩⟩

theorem served_document_serviceDocument :
    ∃ document created,
      buildOpenapi problemModelJsonSchema serviceRoutes serviceDocument = some document ∧
        ServedDocument problemModelJsonSchema (operationIds serviceRoutes) serviceDocument created
          document :=
  served_document problemModelJsonSchema isGeneratedDocument_serviceDocument

theorem hasSnakeNames_serviceRoutes : HasSnakeNames serviceRoutes := by
  refine ⟨by decide +kernel, by decide +kernel, ?_⟩
  intro route hroute other hother path method hserves hserves'
  simp only [serviceRoutes, List.mem_cons, List.not_mem_nil, or_false] at hroute hother
  rcases hroute with rfl | rfl <;> rcases hother with rfl | rfl
  · rfl
  · exact absurd (hserves.2.1.symm.trans hserves'.2.1) (by decide)
  · exact absurd (hserves'.2.1.symm.trans hserves.2.1) (by decide)
  · rfl

theorem operation_ids_distinct_serviceDocument :
    ∃ document,
      buildOpenapi problemModelJsonSchema serviceRoutes serviceDocument = some document ∧
      at? (operationPlace (codePoints "/health") (codePoints "get") ++
        placeOf ["operationId"]) document ≠
      at? (operationPlace (codePoints "/v1/projects") (codePoints "post") ++
        placeOf ["operationId"]) document := by
  obtain ⟨-, -, document, -, hbuild, -⟩ :=
    exists_buildOpenapi isGeneratedDocument_serviceDocument problemModelJsonSchema
  refine ⟨document, hbuild, ?_⟩
  have hget : codePoints "get" ∈ httpMethods := by decide
  have hpost : codePoints "post" ∈ httpMethods := by decide
  have hiff := (operation_ids_distinct_iff problemModelJsonSchema
    isGeneratedDocument_serviceDocument hbuild hasSnakeNames_serviceRoutes List.mem_cons_self
    ⟨rfl, rfl, "GET", List.mem_cons_self, by decide +kernel⟩ ⟨hget, rfl⟩).2 _
    (List.mem_cons_of_mem _ List.mem_cons_self) _ (codePoints "post") _
    ⟨rfl, rfl, "POST", List.mem_cons_self, by decide +kernel⟩ ⟨hpost, rfl⟩
  exact fun heq => absurd (hiff.mp heq) (by decide)

end Sample
end ProjectsApi
