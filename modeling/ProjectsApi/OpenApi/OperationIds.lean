import ProjectsApi.Domain.Validation
import ProjectsApi.Foundation.Words
import ProjectsApi.OpenApi.PostProcessing

/-!
# Operation ids

The generated client calls an operation by its `operationId`, which is the name of the route's
function in lower camel case.  The way back is to put an underscore before each capital, so
functions with snake-case names never share an id, except with the one name that is written
down by hand (`routeOperationId_eq_iff`).
-/

namespace ProjectsApi

open Foundation Foundation.Json

/-! ## Lower camel case -/

/-- `str.capitalize` of ASCII. -/
def asciiCapitalize (text : String) : String :=
  match text.toList with
  | [] => ""
  | c :: cs => String.ofList (c.toUpper :: cs.map Char.toLower)

/-- `str.capitalize`. -/
class TitleTables where
  capitalize : String → String
  capitalize_ascii : ∀ text : String, (∀ c ∈ text.toList, c.toNat < 128) →
    capitalize text = asciiCapitalize text

/-- Capitals of ASCII letters only. -/
abbrev TitleTables.ascii : TitleTables where
  capitalize := asciiCapitalize
  capitalize_ascii _ _ := rfl

/-- `snake.split("_")` -/
def snakeWords (snake : String) : List String := (snake.toList.splitOn '_').map String.ofList

/-- `_lower_camel` -/
def lowerCamel [TitleTables] (snake : String) : String :=
  match snakeWords snake with
  | [] => ""
  | head :: rest => head ++ String.join (rest.map TitleTables.capitalize)

/-- A word of a snake-case name: a lower-case letter, then lower-case letters and digits. -/
def isSnakeWord : List Char → Bool
  | [] => false
  | c :: cs => c.isLower && cs.all fun d => d.isLower || d.isDigit

/-- A snake-case name. -/
def IsSnake (name : String) : Prop :=
  (name.toList.splitOn '_').all isSnakeWord = true

instance (name : String) : Decidable (IsSnake name) := inferInstanceAs (Decidable (_ = _))

/-- The way back: an underscore and the small letter for each capital. -/
def snakeOf (camel : List Char) : List Char :=
  camel.flatMap fun c => if c.isUpper then ['_', c.toLower] else [c]

theorem snakeOf_append (cs ds : List Char) : snakeOf (cs ++ ds) = snakeOf cs ++ snakeOf ds :=
  List.flatMap_append

/-! ### Characters -/

/-- Small letters and digits are no capitals, and neither is an underscore. -/
theorem word_char_facts {c : Char} (h : c.isLower = true ∨ c.isDigit = true) :
    c.toNat < 128 ∧ c.isUpper = false ∧ c.toLower = c ∧ c ≠ '_' ∧ c.isAlphanum = true := by
  have halphanum : c.isAlphanum = true := by
    show (c.isUpper || c.isLower || c.isDigit) = true
    rcases h with h | h <;> simp [h]
  have hc := toNat_lt_of_isAlphanum halphanum
  have hfacts := forall_ascii (p := fun c => c.isLower = true ∨ c.isDigit = true →
    c.isUpper = false ∧ c.toLower = c ∧ c ≠ '_') (by decide +kernel) hc h
  exact ⟨hc, hfacts.1, hfacts.2.1, hfacts.2.2, halphanum⟩

/-- The capital of a small letter. -/
theorem capital_facts {c : Char} (h : c.isLower = true) :
    c.toUpper.isUpper = true ∧ c.toUpper.toLower = c ∧ c.toUpper.isAlphanum = true :=
  forall_ascii (p := fun c => c.isLower = true →
    c.toUpper.isUpper = true ∧ c.toUpper.toLower = c ∧ c.toUpper.isAlphanum = true)
    (by decide +kernel) (word_char_facts (Or.inl h)).1 h

theorem forall_of_isSnakeWord {w : List Char} (h : isSnakeWord w = true) :
    ∀ c ∈ w, c.isLower = true ∨ c.isDigit = true := by
  cases w with
  | nil => cases h
  | cons c cs =>
      rw [isSnakeWord, Bool.and_eq_true, List.all_eq_true] at h
      intro d hd
      rcases List.mem_cons.mp hd with rfl | hd
      · exact Or.inl h.1
      · simpa using h.2 d hd

/-! ### The way back -/

theorem snakeOf_eq_self {cs : List Char} (h : ∀ c ∈ cs, c.isLower = true ∨ c.isDigit = true) :
    snakeOf cs = cs := by
  induction cs with
  | nil => rfl
  | cons c cs ih =>
      rw [List.forall_mem_cons] at h
      have hsmall := (word_char_facts h.1).2.1
      rw [snakeOf, List.flatMap_cons, hsmall, if_neg (by simp), ← snakeOf, ih h.2]
      rfl

section Camel

variable [TitleTables]

/-- A capitalised word is the word with the capital of its first letter. -/
theorem toList_capitalize {c : Char} {cs : List Char} (h : isSnakeWord (c :: cs) = true) :
    (TitleTables.capitalize (String.ofList (c :: cs))).toList = c.toUpper :: cs := by
  have hchars := forall_of_isSnakeWord h
  have hsmall : cs.map Char.toLower = cs := by
    refine (List.map_congr_left fun d hd => ?_).trans (List.map_id cs)
    exact (word_char_facts (hchars d (List.mem_cons_of_mem c hd))).2.2.1
  rw [TitleTables.capitalize_ascii, asciiCapitalize, String.toList_ofList]
  · dsimp only
    rw [String.toList_ofList, hsmall]
  · intro d hd
    rw [String.toList_ofList] at hd
    exact (word_char_facts (hchars d hd)).1

theorem snakeOf_capitalize {w : List Char} (h : isSnakeWord w = true) :
    snakeOf (TitleTables.capitalize (String.ofList w)).toList = '_' :: w := by
  cases w with
  | nil => cases h
  | cons c cs =>
      rw [toList_capitalize h, snakeOf, List.flatMap_cons, ← snakeOf,
        snakeOf_eq_self fun d hd => forall_of_isSnakeWord h d (List.mem_cons_of_mem c hd)]
      have hfirst : c.isLower = true := (Bool.and_eq_true _ _ ▸ h).1
      rw [(capital_facts hfirst).1, (capital_facts hfirst).2.1]
      rfl

/-- The words of a name, capitalised from the second on. -/
theorem toList_lowerCamel {name : String} {head : List Char} {rest : List (List Char)}
    (h : name.toList.splitOn '_' = head :: rest) :
    (lowerCamel name).toList =
      head ++ rest.flatMap fun w => (TitleTables.capitalize (String.ofList w)).toList := by
  rw [lowerCamel, snakeWords, h, List.map_cons]
  dsimp only
  rw [String.toList_append, String.toList_ofList, String.toList_join, List.map_map,
    List.flatMap_map]
  rfl

/-- Nothing is lost in camel case. -/
theorem snakeOf_lowerCamel {name : String} (h : IsSnake name) :
    snakeOf (lowerCamel name).toList = name.toList := by
  have hjoin : joinWords '_' (name.toList.splitOn '_') = name.toList :=
    List.intercalate_splitOn '_'
  obtain ⟨head, rest, hwords⟩ := List.exists_cons_of_ne_nil (List.splitOn_ne_nil '_' name.toList)
  rw [IsSnake, hwords, List.all_cons, Bool.and_eq_true, List.all_eq_true] at h
  have hrest : snakeOf (rest.flatMap fun w =>
      (TitleTables.capitalize (String.ofList w)).toList) = rest.flatMap fun w => '_' :: w := by
    rw [snakeOf, List.flatMap_assoc]
    exact List.flatMap_congr fun w hw => snakeOf_capitalize (h.2 w hw)
  rw [toList_lowerCamel hwords, snakeOf_append, snakeOf_eq_self (forall_of_isSnakeWord h.1),
    hrest, ← joinWords_cons, ← hwords, hjoin]

theorem lowerCamel_inj {a b : String} (ha : IsSnake a) (hb : IsSnake b) :
    lowerCamel a = lowerCamel b ↔ a = b := by
  constructor
  · intro h
    rw [← String.toList_inj, ← snakeOf_lowerCamel ha, ← snakeOf_lowerCamel hb, h]
  · rintro rfl
    rfl

/-- Camel case is one identifier of letters and digits, without an underscore. -/
theorem lowerCamel_readable {name : String} (h : IsSnake name) :
    ∃ c cs, (lowerCamel name).toList = c :: cs ∧ c.isLower = true ∧
      ∀ d ∈ cs, d.isAlphanum = true := by
  obtain ⟨head, rest, hwords⟩ := List.exists_cons_of_ne_nil (List.splitOn_ne_nil '_' name.toList)
  rw [IsSnake, hwords, List.all_cons, Bool.and_eq_true, List.all_eq_true] at h
  obtain ⟨hhead, hrest⟩ := h
  cases head with
  | nil => cases hhead
  | cons c cs =>
      refine ⟨c, _, toList_lowerCamel hwords, (Bool.and_eq_true _ _ ▸ hhead).1, ?_⟩
      intro d hd
      rcases List.mem_append.mp hd with hd | hd
      · exact (word_char_facts
          (forall_of_isSnakeWord hhead d (List.mem_cons_of_mem c hd))).2.2.2.2
      · obtain ⟨w, hw, hd⟩ := List.mem_flatMap.mp hd
        have hword := hrest w hw
        cases w with
        | nil => cases hword
        | cons e es =>
            rw [toList_capitalize hword] at hd
            rcases List.mem_cons.mp hd with rfl | hd
            · exact (capital_facts (Bool.and_eq_true _ _ ▸ hword).1).2.2
            · exact (word_char_facts
                (forall_of_isSnakeWord hword d (List.mem_cons_of_mem e hd))).2.2.2.2

end Camel

/-! ## Ids of functions -/

/-- `OPERATION_IDS` -/
def operationIdNames : List (String × String) := [("health", "getHealth")]

theorem isSnake_get_health : IsSnake "get_health" := by decide

section Names

variable [TitleTables]

/-- The id of a route function's name. -/
def nameOperationId (name : String) : String :=
  (operationIdNames.lookup name).getD (lowerCamel name)

/-- The id that is written down is the camel case of another name. -/
theorem nameOperationId_health : nameOperationId "health" = lowerCamel "get_health" := by
  have hascii : "health".toList.all (fun c => c.toNat < 128) = true := by decide
  have hcapital : TitleTables.capitalize "health" = "Health" := by
    rw [TitleTables.capitalize_ascii "health" fun c hc =>
      of_decide_eq_true (List.all_eq_true.mp hascii c hc)]
    decide
  rw [lowerCamel, show snakeWords "get_health" = ["get", "health"] by decide]
  simp [hcapital, nameOperationId, operationIdNames]

/-- The id of any other name is its camel case. -/
theorem nameOperationId_of_ne {name : String} (h : name ≠ "health") :
    nameOperationId name = lowerCamel name := by
  have hlookup : operationIdNames.lookup name = none := by
    rw [List.lookup_eq_none_iff]
    simpa [operationIdNames] using h
  rw [nameOperationId, hlookup]
  rfl

/-- Functions share an id if they have one name, or are the one function whose id is written
down and the one that has this id by its own name. -/
theorem nameOperationId_eq_iff {a b : String} (ha : IsSnake a) (hb : IsSnake b) :
    nameOperationId a = nameOperationId b ↔
      a = b ∨ (a = "health" ∧ b = "get_health") ∨ (a = "get_health" ∧ b = "health") := by
  by_cases hah : a = "health"
  · by_cases hbh : b = "health"
    · simp [hah, hbh]
    · rw [hah, nameOperationId_health, nameOperationId_of_ne hbh,
        lowerCamel_inj isSnake_get_health hb]
      simp [Ne.symm hbh, eq_comm]
  · by_cases hbh : b = "health"
    · rw [hbh, nameOperationId_health, nameOperationId_of_ne hah,
        lowerCamel_inj ha isSnake_get_health]
      simp [hah]
    · rw [nameOperationId_of_ne hah, nameOperationId_of_ne hbh, lowerCamel_inj ha hb]
      simp [hah, hbh]

/-- The id of a function is one identifier. -/
theorem nameOperationId_readable {name : String} (h : IsSnake name) :
    ∃ c cs, (nameOperationId name).toList = c :: cs ∧ c.isLower = true ∧
      ∀ d ∈ cs, d.isAlphanum = true := by
  by_cases hhealth : name = "health"
  · rw [hhealth, nameOperationId_health]
    exact lowerCamel_readable isSnake_get_health
  · rw [nameOperationId_of_ne hhealth]
    exact lowerCamel_readable h

end Names

/-! ## Routes -/

/-- A route as `iter_route_contexts` yields it. -/
structure RouteContext where
  /-- `isinstance(route, APIRoute)` -/
  isApiRoute : Bool
  includeInSchema : Bool
  /-- `context.path_format`, with the prefixes of the routers -/
  contextPath : Option String
  /-- `route.path_format` -/
  pathFormat : String
  operationId : Option String
  name : String
  methods : List String

/-- The routes that the document describes. -/
def RouteContext.documented (route : RouteContext) : Bool :=
  route.isApiRoute && route.includeInSchema

/-- `context.path_format or route.path_format` -/
def RouteContext.path (route : RouteContext) : String :=
  (route.contextPath.filter fun path => path ≠ "").getD route.pathFormat

section Routes

variable [CaseTables] [TitleTables]

/-- `route.operation_id or OPERATION_IDS.get(route.name) or _lower_camel(route.name)` -/
def RouteContext.id (route : RouteContext) : String :=
  (route.operationId.filter fun id => id ≠ "").getD (nameOperationId route.name)

/-- The assignments `ids[(path, method.lower())] = operation_id`, in order. -/
def idAssignments (routes : List RouteContext) : List ((CodePoints × CodePoints) × CodePoints) :=
  (routes.filter RouteContext.documented).flatMap fun route =>
    route.methods.map fun method =>
      ((codePoints route.path, codePoints (CaseTables.lower method)), codePoints route.id)

/-- `_operation_ids`: of two assignments to one key, the later one counts. -/
def operationIds (routes : List RouteContext) (path method : CodePoints) : Option CodePoints :=
  (idAssignments routes).reverse.lookup (path, method)

/-- A route that has a path and a method of the document. -/
def RouteContext.Serves (route : RouteContext) (path method : CodePoints) : Prop :=
  route.documented = true ∧ path = codePoints route.path ∧
    ∃ m ∈ route.methods, method = codePoints (CaseTables.lower m)

/-- The assignments to a key are those of the routes that serve it. -/
theorem mem_idAssignments {routes : List RouteContext} {path method id : CodePoints} :
    ((path, method), id) ∈ idAssignments routes ↔
      ∃ route ∈ routes, route.Serves path method ∧ id = codePoints route.id := by
  simp only [idAssignments, List.mem_flatMap, List.mem_filter, List.mem_map, Prod.mk.injEq]
  constructor
  · intro h
    obtain ⟨route, ⟨hroute, hdocumented⟩, m, hm, ⟨rfl, rfl⟩, rfl⟩ := h
    exact ⟨route, hroute, ⟨hdocumented, rfl, m, hm, rfl⟩, rfl⟩
  · intro h
    obtain ⟨route, hroute, ⟨hdocumented, rfl, m, hm, rfl⟩, rfl⟩ := h
    exact ⟨route, ⟨hroute, hdocumented⟩, m, hm, ⟨rfl, rfl⟩, rfl⟩

/-- An id is that of a route that serves the operation. -/
theorem exists_route_of_operationIds {routes : List RouteContext} {path method id : CodePoints}
    (h : operationIds routes path method = some id) :
    ∃ route ∈ routes, route.Serves path method ∧ id = codePoints route.id := by
  obtain ⟨before, after, hsplit, -⟩ := List.lookup_eq_some_iff.mp h
  refine mem_idAssignments.mp (List.mem_reverse.mp ?_)
  rw [hsplit]
  simp

/-- Where every route that serves a key has the same function, the key has the function's id. -/
theorem operationIds_eq {routes : List RouteContext} {path method : CodePoints}
    {route : RouteContext} (hroute : route ∈ routes) (hserves : route.Serves path method)
    (hsame : ∀ other ∈ routes, other.Serves path method → other.id = route.id) :
    operationIds routes path method = some (codePoints route.id) := by
  have hmem : ((path, method), codePoints route.id) ∈ (idAssignments routes).reverse :=
    List.mem_reverse.mpr (mem_idAssignments.mpr ⟨route, hroute, hserves, rfl⟩)
  cases hfound : operationIds routes path method with
  | none =>
      rw [operationIds, List.lookup_eq_none_iff] at hfound
      exact absurd (hfound _ hmem) (by simp)
  | some id =>
      obtain ⟨other, hother, hserves', rfl⟩ := exists_route_of_operationIds hfound
      rw [hsame other hother hserves']

end Routes

end ProjectsApi
