import ProjectsApi.Foundation.JsonLeaves
import ProjectsApi.OpenApi.Document

/-!
# The references of the served document

`_drop_unreferenced` goes by the text of the document, and it comes last: what the steps before
it take out and put in decides what it finds.  If the framework mentions the schemas of its 422
response in 422 responses and by themselves only, they are gone from the served document, and
everything that the document references is there (`served_references_resolve`).
-/

namespace ProjectsApi

open Foundation Foundation.Json

/-! ## References as leaves -/

/-- What the leaf references, if it references a schema, satisfies `R`. -/
def RefersWithin (R : CodePoints → Prop) : Leaf → Prop
  | .string (some key) text =>
      ∀ name, key = codePoints "$ref" → text = schemaRef name → R name
  | _ => True

section Refers

variable {R : CodePoints → Prop}

theorem refTarget?_schemaRef (name : CodePoints) :
    refTarget? (codePoints "$ref") (.string (schemaRef name)) = some name := by
  have hbegins : schemasPath.isPrefixOf (schemaRef name) = true := by
    rw [List.isPrefixOf_iff_prefix]
    exact List.prefix_append schemasPath name
  rw [refTarget?, if_pos ⟨rfl, hbegins⟩, schemaRef, List.drop_left]

mutual

/-- Every reference of a value is one of its leaves, and there are no others; a string is a
reference if its key says so. -/
theorem allLeaves_refersWithin : (value : Json) → {key? : Option CodePoints} →
    (∀ text name, value = .string text → key? = some (codePoints "$ref") →
      text = schemaRef name → R name) →
    (∀ name ∈ references value, R name) → AllLeaves (RefersWithin R) key? value
  | .null, _, _, _ => trivial
  | .bool _, _, _, _ => trivial
  | .number _, _, _, _ => trivial
  | .string _, none, _, _ => trivial
  | .string text, some _, hself, _ => fun name hkey htext =>
      hself text name rfl (congrArg some hkey) htext
  | .array elements, _, _, h => allElements_refersWithin elements h
  | .object members, _, _, h => allMembers_refersWithin members h

theorem allElements_refersWithin : (elements : List Json) →
    (∀ name ∈ elementReferences elements, R name) → AllElements (RefersWithin R) elements
  | [], _ => trivial
  | element :: elements, h => by
      constructor
      · refine allLeaves_refersWithin element (fun _ _ _ hkey => ?_) fun name hname => ?_
        · cases hkey
        · exact h name (List.mem_append_left _ hname)
      · exact allElements_refersWithin elements fun name hname =>
          h name (List.mem_append_right _ hname)

theorem allMembers_refersWithin : (members : List (CodePoints × Json)) →
    (∀ name ∈ memberReferences members, R name) → AllMembers (RefersWithin R) members
  | [], _ => trivial
  | (key, value) :: members, h => by
      refine ⟨⟨trivial, ?_⟩, ?_⟩
      · refine allLeaves_refersWithin value (fun text name hvalue hkey htext => ?_)
          fun name hname => ?_
        · refine h name (List.mem_append_left _ (List.mem_append_left _ ?_))
          rw [hvalue, Option.some.inj hkey, htext, refTarget?_schemaRef]
          exact List.mem_singleton_self name
        · exact h name (List.mem_append_left _ (List.mem_append_right _ hname))
      · exact allMembers_refersWithin members fun name hname =>
          h name (List.mem_append_right _ hname)

end

mutual

theorem of_mem_references : (value : Json) → {key? : Option CodePoints} →
    AllLeaves (RefersWithin R) key? value → ∀ name ∈ references value, R name
  | .array elements, _, h, name, hname => of_mem_elementReferences elements h name hname
  | .object members, _, h, name, hname => of_mem_memberReferences members h name hname

theorem of_mem_elementReferences : (elements : List Json) →
    AllElements (RefersWithin R) elements → ∀ name ∈ elementReferences elements, R name
  | element :: elements, h, name, hname => by
      rcases List.mem_append.mp hname with hname | hname
      · exact of_mem_references element h.1 name hname
      · exact of_mem_elementReferences elements h.2 name hname

theorem of_mem_memberReferences : (members : List (CodePoints × Json)) →
    AllMembers (RefersWithin R) members → ∀ name ∈ memberReferences members, R name
  | (key, value) :: members, h, name, hname => by
      rcases List.mem_append.mp hname with hname | hname
      · rcases List.mem_append.mp hname with hname | hname
        · obtain ⟨rfl, rfl⟩ := refTarget?_eq_some (Option.mem_toList.mp hname)
          exact h.1.2 name rfl rfl
        · exact of_mem_references value h.1.2 name hname
      · exact of_mem_memberReferences members h.2 name hname

end

end Refers

/-! ## What the framework says besides -/

/-- A dictionary with other values under some keys. -/
def mapKeys (p : CodePoints → Bool) (f : Json → Json) : Json → Json
  | .object members => .object (members.map fun m => if p m.1 then (m.1, f m.2) else m)
  | value => value

/-- A dictionary without some keys. -/
def withoutKeys (keys : List CodePoints) : Json → Json
  | .object members => .object (members.filter fun m => !keys.contains m.1)
  | value => value

/-- The operations of a document without their 422 responses. -/
def without422 : Json → Json :=
  mapKeys (· == codePoints "paths") <| mapKeys (fun _ => true) <| mapKeys isHttpMethod <|
    mapKeys (· == codePoints "responses") <| withoutKeys [codePoints "422"]

/-- The document without the schemas of the 422 responses. -/
def withoutValidationSchemas : Json → Json :=
  mapKeys (· == codePoints "components") <| mapKeys (· == codePoints "schemas") <|
    withoutKeys validationSchemaNames

def withoutValidation (schema : Json) : Json := without422 (withoutValidationSchemas schema)

section Without

variable {P : Leaf → Prop} {p : CodePoints → Bool} {f : Json → Json} {members : Members}
  {key? : Option CodePoints}

theorem memberLeaves_of_mapKeys (h : AllLeaves P key? (mapKeys p f (.object members)))
    {m : CodePoints × Json} (hm : m ∈ members) :
    MemberLeaves P (if p m.1 then (m.1, f m.2) else m) :=
  allMembers_iff.mp h _ (List.mem_map.mpr ⟨m, hm, rfl⟩)

/-- A member under another key is as it is. -/
theorem memberLeaves_of_mapKeys_of_not (h : AllLeaves P key? (mapKeys p f (.object members)))
    {m : CodePoints × Json} (hm : m ∈ members) (hp : p m.1 = false) : MemberLeaves P m := by
  have hleaves := memberLeaves_of_mapKeys h hm
  rwa [hp, if_neg (by simp)] at hleaves

theorem allLeaves_of_mapKeys (h : AllLeaves P key? (mapKeys p f (.object members)))
    {key : CodePoints} {value : Json} (hm : (key, value) ∈ members) (hp : p key = true) :
    AllLeaves P (some key) (f value) := by
  have hleaves := memberLeaves_of_mapKeys h hm
  rw [if_pos hp] at hleaves
  exact hleaves.2

theorem memberLeaves_of_withoutKeys {keys : List CodePoints}
    (h : AllLeaves P key? (withoutKeys keys (.object members))) {m : CodePoints × Json}
    (hm : m ∈ members) (hkey : m.1 ∉ keys) : MemberLeaves P m := by
  refine allMembers_iff.mp h m (List.mem_filter.mpr ⟨hm, ?_⟩)
  simpa using hkey

/-- What the document of the framework says besides, by its parts. -/
theorem withoutValidation_parts {schema : Members}
    (h : AllLeaves P none (withoutValidation (.object schema))) {m : CodePoints × Json}
    (hm : m ∈ schema) :
    (m.1 ≠ codePoints "paths" → m.1 ≠ codePoints "components" → MemberLeaves P m) ∧
    (m.1 = codePoints "paths" → AllLeaves P (some m.1) (mapKeys (fun _ => true)
      (mapKeys isHttpMethod (mapKeys (· == codePoints "responses")
        (withoutKeys [codePoints "422"]))) m.2)) ∧
    (m.1 = codePoints "components" → AllLeaves P (some m.1)
      (mapKeys (· == codePoints "schemas") (withoutKeys validationSchemaNames) m.2)) := by
  have hne : codePoints "components" ≠ codePoints "paths" := by decide
  -- the inner change is that of the components
  obtain ⟨g, hg⟩ : ∃ g,
      g = mapKeys (· == codePoints "schemas") (withoutKeys validationSchemaNames) := ⟨_, rfl⟩
  have h : AllLeaves P none (mapKeys (· == codePoints "paths") (mapKeys (fun _ => true)
      (mapKeys isHttpMethod (mapKeys (· == codePoints "responses")
        (withoutKeys [codePoints "422"])))) (.object (schema.map fun m =>
          if m.1 == codePoints "components" then (m.1, g m.2) else m))) := by
    rw [hg]
    exact h
  rw [← hg]
  refine ⟨fun hpaths hcomponents => ?_, fun hpaths => ?_, fun hcomponents => ?_⟩
  · refine memberLeaves_of_mapKeys_of_not h (List.mem_map.mpr ⟨m, hm, ?_⟩) (by simpa using hpaths)
    simp [hcomponents]
  · refine allLeaves_of_mapKeys h (List.mem_map.mpr ⟨m, hm, ?_⟩) (by simpa using hpaths)
    rw [if_neg (by simp [hpaths])]
  · have hmem : (m.1, g m.2) ∈ schema.map fun m =>
        if m.1 == codePoints "components" then (m.1, g m.2) else m :=
      List.mem_map.mpr ⟨m, hm, by simp [hcomponents]⟩
    exact (memberLeaves_of_mapKeys_of_not h hmem (by simp [hcomponents])).2

/-- A dictionary with a member is there. -/
theorem mem_of_subDict? {found : Members} {key : CodePoints} (h : subDict? members key = some found)
    {m : CodePoints × Json} (hm : m ∈ found) : (key, .object found) ∈ members := by
  unfold subDict? at h
  split at h
  · rw [← Option.some.inj h] at hm
    cases hm
  · rename_i found' hlookup
    rw [← Option.some.inj h]
    exact mem_of_lookup hlookup
  · cases h

end Without

/-! ## What the steps put in -/

/-- The members that the steps insert; of some of them only the key is new. -/
def additions : Members :=
  ["paths", "responses", "components", "schemas", "Problem"].map
      (fun key => (codePoints key, .null)) ++
    [(codePoints "content", problemContent), (codePoints "security", .array []),
      (codePoints "security", globalSecurity),
      (codePoints "securitySchemes", objectOf [("ApiKeyAuth", securityScheme)]),
      (codePoints "example", exampleRequest), (codePoints "description", createdDescription),
      (codePoints "headers", createdHeaders), (codePoints "example", exampleProject)] ++
    defaultResponses false

/-- Everything that the steps insert has the property. -/
structure Admits (P : Leaf → Prop) (problem : ModelJsonSchema)
    (ids : CodePoints → CodePoints → Option CodePoints) : Prop where
  inserted : AllMembers P additions
  problem : AllMembers P problem.members
  ids : ∀ path method id, ids path method = some id →
    MemberLeaves P (codePoints "operationId", .string id)

section Steps

variable {P : Leaf → Prop} {problem : ModelJsonSchema}
  {ids : CodePoints → CodePoints → Option CodePoints}

theorem Admits.added (h : Admits P problem ids) {m : CodePoints × Json} (hm : m ∈ additions) :
    MemberLeaves P m :=
  allMembers_iff.mp h.inserted m hm

theorem Admits.of_defaultResponses (h : Admits P problem ids) (isPublic : Bool) :
    AllMembers P (defaultResponses isPublic) := by
  have hsub : ∀ m ∈ defaultResponses isPublic, m ∈ defaultResponses false := by
    cases isPublic with
    | false => exact fun m hm => hm
    | true => exact fun m hm => List.mem_append_right _ hm
  rw [allMembers_iff]
  exact fun m hm => h.added (List.mem_append_right _ (hsub m hm))

theorem Admits.of_withProblemContent (h : Admits P problem ids) {m n : CodePoints × Json}
    (hm : MemberLeaves P m) (hstep : withProblemContent m = some n) : MemberLeaves P n := by
  unfold withProblemContent at hstep
  split_ifs at hstep
  · rw [← Option.some.inj hstep]
    exact hm
  · split at hstep
    · rename_i members hvalue
      rw [← Option.some.inj hstep]
      have hleaves := hm.2
      rw [hvalue] at hleaves
      exact ⟨hm.1, AllMembers.dictInsert hleaves (h.added (by simp [additions]))⟩
    · cases hstep

/-- Of the responses, all but the 422 stay. -/
theorem Admits.of_problemResponses (h : Admits P problem ids) {operation operation' : Members}
    {isPublic : Bool}
    (hothers : ∀ m ∈ operation, m.1 ≠ codePoints "responses" → MemberLeaves P m)
    (hresponses : ∀ declared, operation.lookup (codePoints "responses") = some (.object declared) →
      AllMembers P (dictPop declared (codePoints "422")))
    (hstep : problemResponses operation isPublic = some operation') : AllMembers P operation' := by
  obtain ⟨declared, hdeclared, hstep⟩ := Option.bind_eq_some_iff.mp hstep
  obtain ⟨processed, hprocessed, hstep⟩ := Option.bind_eq_some_iff.mp hstep
  obtain rfl := Option.some.inj hstep
  have hpopped : AllMembers P (dictPop declared (codePoints "422")) := by
    unfold declaredResponses? at hdeclared
    split at hdeclared
    · obtain rfl := Option.some.inj hdeclared
      trivial
    · rename_i responses hlookup
      obtain rfl := Option.some.inj hdeclared
      exact hresponses _ hlookup
    · cases hdeclared
  have hcompleted := hpopped.dictSetDefaults (h.of_defaultResponses isPublic)
  have hprocessed' : AllMembers P processed := allMembers_mapM hprocessed fun m hm n hn =>
    h.of_withProblemContent (allMembers_iff.mp hcompleted m hm) hn
  rw [allMembers_iff]
  intro n hn
  rcases mem_dictInsert.mp hn with rfl | ⟨hn, hkey⟩
  · exact ⟨(h.added (m := (codePoints "responses", .null)) (by simp [additions])).1,
      hprocessed'.sortMembers⟩
  · exact hothers n hn hkey

theorem Admits.of_postProcessOperation (h : Admits P problem ids) {path method : CodePoints}
    {operation operation' : Members} {key? : Option CodePoints}
    (hbase : AllLeaves P key? (mapKeys (· == codePoints "responses")
      (withoutKeys [codePoints "422"]) (.object operation)))
    (hstep : postProcessOperation ids path method operation = some operation') :
    AllMembers P operation' := by
  have hothers : ∀ m ∈ operation, m.1 ≠ codePoints "responses" → MemberLeaves P m :=
    fun m hm hkey => memberLeaves_of_mapKeys_of_not hbase hm (by simpa using hkey)
  obtain ⟨operationId, hid, hstep⟩ := Option.bind_eq_some_iff.mp hstep
  have hresponses : codePoints "responses" ≠ codePoints "operationId" ∧
      codePoints "responses" ≠ codePoints "security" := by decide
  have hoperationId : MemberLeaves P (codePoints "operationId",
      ((ids path method).map Json.string).getD operationId) := by
    cases hfound : ids path method with
    | some id => exact h.ids path method id hfound
    | none => exact hothers _ (mem_of_lookup hid) hresponses.1.symm
  refine h.of_problemResponses ?_ ?_ hstep
  · intro m hm hkey
    split_ifs at hm
    · rcases mem_dictInsert.mp hm with rfl | ⟨hm, -⟩
      · exact h.added (by simp [additions])
      · rcases mem_dictInsert.mp hm with rfl | ⟨hm, -⟩
        · exact hoperationId
        · exact hothers m hm hkey
    · rcases mem_dictInsert.mp hm with rfl | ⟨hm, -⟩
      · exact hoperationId
      · exact hothers m hm hkey
  · intro declared hlookup
    have hlookup' : operation.lookup (codePoints "responses") = some (.object declared) := by
      rw [← hlookup]
      split_ifs
      · rw [lookup_dictInsert, if_neg hresponses.2, lookup_dictInsert, if_neg hresponses.1]
      · rw [lookup_dictInsert, if_neg hresponses.1]
    have hleaves := allLeaves_of_mapKeys hbase (mem_of_lookup hlookup') (by simp)
    rw [allMembers_iff]
    intro m hm
    obtain ⟨hm, hne⟩ := mem_dictPop.mp hm
    exact memberLeaves_of_withoutKeys hleaves hm (by simpa using hne)

/-- The paths after the loop. -/
theorem Admits.of_paths (h : Admits P problem ids) {paths paths' : Members}
    {key? : Option CodePoints}
    (hbase : AllLeaves P key? (mapKeys (fun _ => true) (mapKeys isHttpMethod
      (mapKeys (· == codePoints "responses") (withoutKeys [codePoints "422"]))) (.object paths)))
    (hmap : paths.mapM (postProcessPath ids) = some paths') : AllMembers P paths' := by
  refine allMembers_mapM hmap fun m hm n hstep => ?_
  have hleaves := memberLeaves_of_mapKeys hbase hm
  rw [if_pos rfl] at hleaves
  obtain ⟨path, item⟩ := m
  cases item with
  | object pathItem =>
      obtain ⟨pathItem', hitems, rfl⟩ := Option.map_eq_some_iff.mp hstep
      refine ⟨hleaves.1, allMembers_mapM hitems fun m hm n hstep => ?_⟩
      have hmember := memberLeaves_of_mapKeys hleaves.2 hm
      unfold postProcessMember at hstep
      split_ifs at hstep with hmethod
      · rw [if_pos (isHttpMethod_iff.mpr hmethod)] at hmember
        split at hstep
        · rename_i operation hvalue
          obtain ⟨operation', hprocessed, rfl⟩ := Option.map_eq_some_iff.mp hstep
          rw [hvalue] at hmember
          exact ⟨hmember.1, h.of_postProcessOperation hmember.2 hprocessed⟩
        · cases hstep
      · rw [if_neg (by simpa using hmethod)] at hmember
        exact Option.some.inj hstep ▸ hmember
  | _ => cases hstep

theorem Admits.key (h : Admits P problem ids) {key : CodePoints}
    (hkey : key ∈ additions.map Prod.fst) : P (.key key) := by
  obtain ⟨m, hm, rfl⟩ := List.mem_map.mp hkey
  exact (h.added hm).1

/-! ### Examples -/

/-- A document whose paths have the property, and which is else what the loop left. -/
def InPaths (P : Leaf → Prop) (schema' : Members) (document : Json) : Prop :=
  ∃ members, document = .object members ∧
    (∀ paths, (codePoints "paths", paths) ∈ members →
      AllLeaves P (some (codePoints "paths")) paths) ∧
    ∀ m ∈ members, m.1 ≠ codePoints "paths" → m ∈ schema'

theorem InPaths.assign? {schema' : Members} {document document' : Json}
    (h : InPaths P schema' document) {place : Place} {key : CodePoints} {new : Json}
    (hassign : assign? (codePoints "paths" :: place) key new document = some document')
    (hnew : MemberLeaves P (key, new)) : InPaths P schema' document' := by
  obtain ⟨members, rfl, hpaths, hothers⟩ := h
  obtain ⟨paths, hlookup, hassign⟩ := Option.bind_eq_some_iff.mp hassign
  obtain ⟨paths', hpaths', rfl⟩ := Option.map_eq_some_iff.mp hassign
  have hleaves : AllLeaves P (some (codePoints "paths")) paths' :=
    (hpaths paths (mem_of_lookup hlookup)).assign? hpaths' hnew
  refine ⟨_, rfl, ?_, ?_⟩
  · intro v hv
    rcases mem_dictInsert.mp hv with heq | ⟨-, hne⟩
    · rw [(Prod.mk.inj heq).2]
      exact hleaves
    · exact absurd rfl hne
  · intro n hn hne
    rcases mem_dictInsert.mp hn with rfl | ⟨hn, -⟩
    · exact absurd rfl hne
    · exact hothers n hn hne

theorem Admits.inPaths_assignExamples (h : Admits P problem ids) {schema' : Members}
    {document document' : Json} {path method : CodePoints} (hin : InPaths P schema' document)
    (hassign : assignExamples (operationPlace path method) document = some document') :
    InPaths P schema' document' := by
  obtain ⟨s₁, h₁, hassign⟩ := Option.bind_eq_some_iff.mp hassign
  obtain ⟨s₂, h₂, hassign⟩ := Option.bind_eq_some_iff.mp hassign
  obtain ⟨s₃, h₃, h₄⟩ := Option.bind_eq_some_iff.mp hassign
  have hin₁ := hin.assign? h₁ (h.added (by simp [additions]))
  have hin₂ := hin₁.assign? h₂ (h.added (by simp [additions]))
  have hin₃ := hin₂.assign? h₃ (h.added (by simp [additions]))
  exact hin₃.assign? h₄ (h.added (by simp [additions]))

theorem Admits.inPaths_addCreateProjectExamples (h : Admits P problem ids) {schema' : Members}
    {document document' : Json} (hin : InPaths P schema' document)
    (hadd : addCreateProjectExamples document = some document') : InPaths P schema' document' := by
  obtain ⟨paths, -, hadd⟩ := Option.bind_eq_some_iff.mp hadd
  obtain ⟨found, -, hadd⟩ := Option.bind_eq_some_iff.mp hadd
  cases found with
  | none => exact Option.some.inj hadd ▸ hin
  | some place => exact h.inPaths_assignExamples hin hadd

/-! ### The whole document -/

theorem Admits.of_addProblemSchema (h : Admits P problem ids) {schemas : Members}
    (hschemas : ∀ m ∈ schemas, m.1 ∉ validationSchemaNames → MemberLeaves P m)
    {m : CodePoints × Json} (hm : m ∈ addProblemSchema problem schemas)
    (hname : m.1 ∉ validationSchemaNames) : MemberLeaves P m := by
  rcases mem_dictInsert.mp hm with rfl | ⟨hm, -⟩
  · exact ⟨h.key (show codePoints "Problem" ∈ _ by decide +kernel), h.problem.dictPop _⟩
  · rcases mem_dictUpdate hm with hm | hm
    · exact hschemas m hm hname
    · have hdefs := allMembers_iff.mp h.problem _ (mem_of_subDict? problem.has_defs hm)
      exact allMembers_iff.mp hdefs.2 m hm

theorem mem_processedDocument {schema components schemas paths : Members}
    {m : CodePoints × Json}
    (h : m ∈ processedDocument problem schema components schemas paths) :
    m = (codePoints "paths", .object paths) ∨ m = (codePoints "security", globalSecurity) ∨
      m = (codePoints "components", .object (contractComponents problem components schemas)) ∨
        m ∈ schema ∧ m.1 ≠ codePoints "paths" ∧ m.1 ≠ codePoints "components" := by
  rcases mem_dictInsert.mp h with h | ⟨h, hpaths⟩
  · exact Or.inl h
  · rcases mem_dictInsert.mp h with h | ⟨h, -⟩
    · exact Or.inr (Or.inl h)
    · rcases mem_dictInsert.mp h with h | ⟨h, hcomponents⟩
      · exact Or.inr (Or.inr (Or.inl h))
      · exact Or.inr (Or.inr (Or.inr ⟨h, hpaths, hcomponents⟩))

/-- The document before the schemas are dropped, with some of its schemas. -/
theorem Admits.allLeaves_withSchemas (h : Admits P problem ids)
    {schema components schemas paths paths' : Members} {document : Json}
    (hbase : AllLeaves P none (withoutValidation (.object schema)))
    (hcomponents : subDict? schema (codePoints "components") = some components)
    (hschemas : subDict? components (codePoints "schemas") = some schemas)
    (hpaths : schema.lookup (codePoints "paths") = some (.object paths))
    (hmap : paths.mapM (postProcessPath ids) = some paths')
    (hdocument : addCreateProjectExamples
      (.object (processedDocument problem schema components schemas paths')) = some document)
    (hfound : componentSchemas? document = some (addProblemSchema problem schemas))
    {kept : Members} (hkept : ∀ m ∈ kept, m ∈ addProblemSchema problem schemas ∧
      m.1 ∉ validationSchemaNames) : AllLeaves P none (withSchemas document kept) := by
  have hin : InPaths P (processedDocument problem schema components schemas paths') document := by
    refine h.inPaths_addCreateProjectExamples ⟨_, rfl, fun v hv => ?_, fun m hm _ => hm⟩ hdocument
    rcases mem_dictInsert.mp hv with heq | ⟨-, hne⟩
    · rw [(Prod.mk.inj heq).2]
      exact h.of_paths ((withoutValidation_parts hbase (mem_of_lookup hpaths)).2.1 rfl) hmap
    · exact absurd rfl hne
  obtain ⟨members, components', hcomponents', -⟩ := componentSchemas?_eq_some hfound
  obtain ⟨rfl, hlookup⟩ := components?_eq_some hcomponents'
  obtain ⟨members', heq, hpathsLeaves, hothers⟩ := hin
  obtain rfl := Json.object.inj heq
  -- the components are those of the loop
  have hcontract : components' = contractComponents problem components schemas := by
    have hmem := hothers _ (mem_of_lookup hlookup) (show codePoints "components" ≠ _ by decide)
    rcases mem_processedDocument hmem with heq | heq | heq | ⟨-, -, hne⟩
    · exact absurd (Prod.mk.inj heq).1 (by decide)
    · exact absurd (Prod.mk.inj heq).1 (by decide)
    · exact Json.object.inj (Prod.mk.inj heq).2
    · exact absurd rfl hne
  have hcomponentsLeaves : ∀ m ∈ components, m.1 ≠ codePoints "schemas" → MemberLeaves P m := by
    intro m hm hne
    have hleaves := (withoutValidation_parts hbase (mem_of_subDict? hcomponents hm)).2.2 rfl
    exact memberLeaves_of_mapKeys_of_not hleaves hm (by simpa using hne)
  have hschemasLeaves : ∀ m ∈ schemas, m.1 ∉ validationSchemaNames → MemberLeaves P m := by
    intro m hm hname
    have hmem := mem_of_subDict? hschemas hm
    have hleaves := (withoutValidation_parts hbase (mem_of_subDict? hcomponents hmem)).2.2 rfl
    exact memberLeaves_of_withoutKeys (allLeaves_of_mapKeys hleaves hmem (by simp)) hm hname
  rw [withSchemas, hcomponents']
  show AllMembers P _
  rw [allMembers_iff]
  intro n hn
  rcases mem_dictInsert.mp hn with rfl | ⟨hn, hne⟩
  · refine ⟨h.key (show codePoints "components" ∈ _ by decide +kernel), allMembers_iff.mpr ?_⟩
    intro m hm
    rcases mem_dictInsert.mp hm with rfl | ⟨hm, hschemasKey⟩
    · refine ⟨h.key (show codePoints "schemas" ∈ _ by decide +kernel), allMembers_iff.mpr ?_⟩
      exact fun m hm => h.of_addProblemSchema hschemasLeaves (hkept m hm).1 (hkept m hm).2
    · rw [hcontract] at hm
      rcases mem_dictInsert.mp hm with rfl | ⟨hm, -⟩
      · exact h.added (by simp [additions])
      · rcases mem_dictInsert.mp hm with rfl | ⟨hm, -⟩
        · exact absurd rfl hschemasKey
        · exact hcomponentsLeaves m hm hschemasKey
  · by_cases hkey : n.1 = codePoints "paths"
    · obtain ⟨key, value⟩ := n
      obtain rfl : key = codePoints "paths" := hkey
      exact ⟨h.key (show codePoints "paths" ∈ _ by decide +kernel), hpathsLeaves value hn⟩
    · rcases mem_processedDocument (hothers n hn hkey) with rfl | rfl | rfl | ⟨hn, -, -⟩
      · exact absurd rfl hkey
      · exact h.added (by simp [additions])
      · exact absurd rfl hne
      · exact (withoutValidation_parts hbase hn).1 hkey hne

end Steps

/-! ## The served document -/

/-- The leaf does not end with a reference to a schema of the 422 response. -/
def Unrelated (leaf : Leaf) : Prop :=
  ∀ name ∈ validationSchemaNames, leaf.NotAtEnd (schemaRef name)

instance : DecidablePred Unrelated := fun _ => inferInstanceAs (Decidable (∀ _ ∈ _, _))

/-- A document of the framework that mentions the schemas of its 422 response in 422 responses
and by themselves only; what else it references is there. -/
structure IsFrameworkDocument (problem : ModelJsonSchema)
    (ids : CodePoints → CodePoints → Option CodePoints) (schema : Members) : Prop
    extends IsGeneratedDocument ids schema where
  unrelated : AllLeaves Unrelated none (withoutValidation (.object schema))
  unrelated_problem : AllMembers Unrelated problem.members
  unrelated_ids : ∀ path method id, ids path method = some id →
    Unrelated (.string (some (codePoints "operationId")) id)
  resolves : ∀ name ∈ references (withoutValidation (.object schema)),
    hasSchema (.object schema) name = true

section Served

variable {problem : ModelJsonSchema} {ids : CodePoints → CodePoints → Option CodePoints}
  {schema components schemas : Members}

/-- What a document has by its schemas, it has by the dictionary that the steps work on. -/
theorem dictHas_of_hasSchema
    (hcomponents : subDict? schema (codePoints "components") = some components)
    (hschemas : subDict? components (codePoints "schemas") = some schemas) {name : CodePoints}
    (h : hasSchema (.object schema) name = true) : dictHas schemas name = true := by
  rw [hasSchema, Option.any_eq_true] at h
  obtain ⟨schemas', hfound, hhas⟩ := h
  obtain ⟨members, components', hparts, hlookup'⟩ := componentSchemas?_eq_some hfound
  obtain ⟨heq, hlookup⟩ := components?_eq_some hparts
  obtain rfl := Json.object.inj heq
  rw [subDict?, hlookup] at hcomponents
  obtain rfl := Option.some.inj hcomponents
  rw [subDict?, hlookup'] at hschemas
  obtain rfl := Option.some.inj hschemas
  exact hhas

/-- A popped dictionary has none of the names. -/
theorem not_mem_of_mem_popNamed {names : List CodePoints} {m : CodePoints × Json}
    (h : m ∈ (popNamed names schemas).2) : m.1 ∉ names := by
  intro hname
  have hhas : dictHas (popNamed names schemas).2 m.1 = true := dictHas_iff.mpr ⟨m.2, h⟩
  rw [dictHas, (lookup_popNamed names schemas m.1).2, if_pos hname] at hhas
  cases hhas

/-- The leaves of the framework's document and of what is put in: unrelated, and with references
that resolve. -/
theorem IsFrameworkDocument.leaves (h : IsFrameworkDocument problem ids schema)
    (hcomponents : subDict? schema (codePoints "components") = some components)
    (hschemas : subDict? components (codePoints "schemas") = some schemas) :
    Admits (fun leaf => Unrelated leaf ∧
      RefersWithin (fun name => dictHas (addProblemSchema problem schemas) name = true) leaf)
        problem ids ∧
    AllLeaves (fun leaf => Unrelated leaf ∧
      RefersWithin (fun name => dictHas (addProblemSchema problem schemas) name = true) leaf)
        none (withoutValidation (.object schema)) := by
  refine ⟨⟨?_, ?_, ?_⟩, ?_⟩
  · have hunrelated : AllMembers Unrelated additions := by decide +kernel
    have hreferences : memberReferences additions = [codePoints "Problem"] := by decide +kernel
    refine AllMembers.map₂ (fun _ => And.intro) _ hunrelated (allMembers_refersWithin _ ?_)
    rw [hreferences]
    simp [addProblemSchema]
  · exact AllMembers.map₂ (fun _ => And.intro) _ h.unrelated_problem
      (allMembers_refersWithin _ fun name hname => dictHas_addProblemSchema problem schemas hname)
  · intro path method id hid
    have hkey : Unrelated (.key (codePoints "operationId")) := by decide +kernel
    refine ⟨⟨hkey, trivial⟩, h.unrelated_ids path method id hid, ?_⟩
    intro name heq
    exact absurd heq (show codePoints "operationId" ≠ codePoints "$ref" by decide)
  · refine AllLeaves.map₂ (fun _ => And.intro) _ h.unrelated
      (allLeaves_refersWithin _ (fun _ _ _ hkey => ?_) fun name hname => ?_)
    · cases hkey
    · rw [addProblemSchema, dictHas_dictInsert, dictHas_dictUpdate,
        dictHas_of_hasSchema hcomponents hschemas (h.resolves name hname)]
      simp

/-- An unrelated leaf does not reference the schemas of the 422 response. -/
theorem refersWithin_of_unrelated {R : CodePoints → Prop} {leaf : Leaf}
    (hunrelated : Unrelated leaf) (h : RefersWithin R leaf) :
    RefersWithin (fun name => R name ∧ name ∉ validationSchemaNames) leaf := by
  cases leaf with
  | string key? text =>
      cases key? with
      | none => trivial
      | some key =>
          rintro name hkey rfl
          exact ⟨h name hkey rfl, fun hname => hunrelated name hname List.suffix_rfl⟩
  | _ => trivial

/-- In a document of unrelated leaves nothing is mentioned. -/
theorem mentions_eq_false {document : Json} (h : AllLeaves Unrelated none document)
    {name : CodePoints} (hname : name ∈ validationSchemaNames) :
    mentions (dumpsSpaced document) name = false := by
  have hchars : ∀ name ∈ validationSchemaNames, ∀ c ∈ name, isComponentNameChar c = true := by
    decide +kernel
  have hleaves : AllLeaves (Leaf.Unquoted (schemaRef name)) none document :=
    AllLeaves.map₂ (fun _ hunrelated _ => (hunrelated name hname).unquoted) document h h
  exact decide_eq_false
    (silent_dumpsSpaced (isMark_schemaRef (hchars name hname)) document hleaves).absent

/-- In the served document the schemas of the 422 response are gone, and every reference
resolves. -/
theorem served_references_resolve [CaseTables] [TitleTables] {routes : List RouteContext}
    (h : IsFrameworkDocument problem (operationIds routes) schema) :
    ∃ document, buildOpenapi problem routes schema = some document ∧
      (∀ name ∈ validationSchemaNames, hasSchema document name = false) ∧
      ∀ name ∈ references document, hasSchema document name = true := by
  obtain ⟨schema', created, document, components, schemas, hprocess, hexamples, hcomponents,
    hschemas, hfound, -, -⟩ := h.exists_beforeDrop problem
  obtain ⟨components', schemas', paths, paths', hcomponents', hschemas', hpaths, hmap, rfl⟩ :=
    postProcess_eq_some_iff.mp hprocess
  obtain rfl := Option.some.inj (hcomponents.symm.trans hcomponents')
  obtain rfl := Option.some.inj (hschemas.symm.trans hschemas')
  obtain ⟨hadmits, hbase⟩ := h.leaves hcomponents hschemas
  -- the text that is searched mentions neither schema
  have houtside := hadmits.allLeaves_withSchemas hbase hcomponents hschemas hpaths hmap hexamples
    hfound fun m hm => ⟨mem_popNamed.2 hm, not_mem_of_mem_popNamed hm⟩
  have hmentions : ∀ name ∈ validationSchemaNames, mentions (dumpsSpaced (outside document
      (addProblemSchema problem schemas) validationSchemaNames)) name = false :=
    fun name hname => mentions_eq_false
      (AllLeaves.map₂ (fun _ hleaf _ => hleaf.1) _ houtside houtside) hname
  -- so that what is left of the schemas is left in the end
  have hkept : ∀ m ∈ schemasAfter document (addProblemSchema problem schemas)
      validationSchemaNames, m ∈ addProblemSchema problem schemas ∧
        m.1 ∉ validationSchemaNames := by
    intro m hm
    rcases mem_restoreMentioned hm with hm | ⟨hm, hmentioned⟩
    · exact ⟨mem_popNamed.2 hm, not_mem_of_mem_popNamed hm⟩
    · rw [hmentions m.1 (mem_popNamed.1 hm).1] at hmentioned
      cases hmentioned
  have hafter := hadmits.allLeaves_withSchemas hbase hcomponents hschemas hpaths hmap hexamples
    hfound hkept
  have hhas := hasSchema_eq (componentSchemas?_withSchemas hfound
    (schemasAfter document (addProblemSchema problem schemas) validationSchemaNames))
  refine ⟨withSchemas document
    (schemasAfter document (addProblemSchema problem schemas) validationSchemaNames), ?_,
    fun name hname => ?_, fun name hname => ?_⟩
  · rw [buildOpenapi, hprocess, Option.bind_eq_bind, Option.bind_some, hexamples,
      Option.bind_eq_bind, Option.bind_some]
    exact dropUnreferenced_eq hfound
  · rw [hhas, dictHas_schemasAfter, hmentions name hname]
    simp [hname]
  · have hleaf : dictHas (addProblemSchema problem schemas) name = true ∧
        name ∉ validationSchemaNames :=
      of_mem_references
        (R := fun name => dictHas (addProblemSchema problem schemas) name = true ∧
          name ∉ validationSchemaNames) _
        (AllLeaves.map₂ (fun _ hleaf _ => refersWithin_of_unrelated hleaf.1 hleaf.2) _ hafter
          hafter) name hname
    rw [hhas, dictHas_schemasAfter, hleaf.1]
    simp [hleaf.2]

end Served

section Sample

local instance asciiCases : CaseTables := .ascii

local instance asciiTitles : TitleTables := .ascii

/-- A response of JSON with a schema. -/
def jsonContent (name : String) : Json :=
  objectOf [("content", objectOf [("application/json", objectOf [("schema", refTo name)])])]

def createOperation : Members :=
  [(codePoints "operationId", .string (codePoints "create_project_v1_projects_post")),
    (codePoints "requestBody", jsonContent "CreateProjectRequest"),
    (codePoints "responses", objectOf [("201", jsonContent "ProjectResponse"),
      ("422", jsonContent "HTTPValidationError")])]

/-- The schemas of the models and of the 422 response. -/
def frameworkSchemas : Members :=
  [(codePoints "CreateProjectRequest", objectOf []), (codePoints "ProjectResponse", objectOf [])] ++
    validationSchemas

/-- `POST /v1/projects` as the framework generates it. -/
def frameworkDocument : Members :=
  [(codePoints "paths", objectOf [("/v1/projects", objectOf [("post", .object createOperation)])]),
    (codePoints "components", objectOf [("schemas", .object frameworkSchemas)])]

def createRoutes : List RouteContext := [serviceRoute "/v1/projects" "create_project" "POST"]

theorem isFrameworkDocument_frameworkDocument :
    IsFrameworkDocument problemModelJsonSchema (operationIds createRoutes) frameworkDocument := by
  have hpaths : frameworkDocument.lookup (codePoints "paths") =
      some (objectOf [("/v1/projects", objectOf [("post", .object createOperation)])]) := by rfl
  have hbase : IsBaseOperation createOperation := by
    refine ⟨by rfl, by rfl, _, rfl, ?_⟩
    intro m hm
    simp only [List.map_cons, List.map_nil, List.mem_cons, List.not_mem_nil, or_false] at hm
    rcases hm with rfl | rfl
    · exact ⟨_, rfl⟩
    · exact ⟨_, rfl⟩
  refine ⟨⟨⟨⟨_, hpaths, ?_⟩, _, _, rfl, rfl⟩, ?_, ?_⟩, ?_, ?_, ?_, ?_⟩
  · intro m hm
    obtain rfl := List.mem_singleton.mp hm
    refine ⟨_, rfl, fun n hn _ => ?_⟩
    obtain rfl := List.mem_singleton.mp hn
    exact ⟨_, rfl, hbase⟩
  · intro paths hlookup
    obtain rfl := Json.object.inj (Option.some.inj (hpaths.symm.trans hlookup))
    refine ⟨List.nodup_singleton _, fun path pathItem hmem => ?_⟩
    obtain ⟨-, heq⟩ := Prod.mk.inj (List.mem_singleton.mp hmem)
    obtain rfl := Json.object.inj heq
    exact List.nodup_singleton _
  · intro path method operation hoperation hid
    obtain ⟨pathItem, hitem, hmem⟩ := hoperation.exists_mem hpaths
    obtain ⟨rfl, heq⟩ := Prod.mk.inj (List.mem_singleton.mp hitem)
    obtain rfl := Json.object.inj heq
    obtain ⟨-, heq⟩ := Prod.mk.inj (List.mem_singleton.mp hmem)
    obtain rfl := Json.object.inj heq
    exact ⟨⟨_, rfl⟩, ⟨_, rfl⟩, ⟨_, rfl⟩⟩
  · decide +kernel
  · decide +kernel
  · intro path method id hid
    obtain ⟨route, hroute, -, rfl⟩ := exists_route_of_operationIds hid
    obtain rfl := List.mem_singleton.mp hroute
    decide +kernel
  · decide +kernel

theorem served_references_frameworkDocument :
    ∃ document, buildOpenapi problemModelJsonSchema createRoutes frameworkDocument = some document ∧
      (∀ name ∈ validationSchemaNames, hasSchema document name = false) ∧
      ∀ name ∈ references document, hasSchema document name = true :=
  served_references_resolve isFrameworkDocument_frameworkDocument

end Sample

end ProjectsApi
