import Mathlib.Data.List.Infix
import Mathlib.Logic.Relation
import ProjectsApi.Foundation.JsonLeaves

/-!
# References to component schemas

`_drop_unreferenced` takes the named schemas out of an OpenAPI document and puts one back if
the text of the rest mentions it.  It looks at that text once, before any schema is back, so a
schema that only a restored schema references is lost, and one is kept whose reference is only
spelled there (`drop_unreferenced_iff`).
-/

namespace ProjectsApi

open Foundation Foundation.Json

/-! ## References -/

/-- `#/components/schemas/` -/
def schemasPath : CodePoints := codePoints "#/components/schemas/"

/-- The reference to the schema of a name. -/
def schemaRef (name : CodePoints) : CodePoints := schemasPath ++ name

/-- The schema that the member `$ref` of an object names. -/
def refTarget? (key : CodePoints) : Json → Option CodePoints
  | .string value =>
      if key = codePoints "$ref" ∧ schemasPath.isPrefixOf value then
        some (value.drop schemasPath.length)
      else none
  | _ => none

mutual

/-- The names of the component schemas that a document references. -/
def references : Json → List CodePoints
  | .null => []
  | .bool _ => []
  | .number _ => []
  | .string _ => []
  | .array elements => elementReferences elements
  | .object members => memberReferences members

def elementReferences : List Json → List CodePoints
  | [] => []
  | element :: elements => references element ++ elementReferences elements

def memberReferences : List (CodePoints × Json) → List CodePoints
  | [] => []
  | (key, value) :: members =>
      ((refTarget? key value).toList ++ references value) ++ memberReferences members

end

theorem mem_memberReferences {members : Members} {name : CodePoints} :
    name ∈ memberReferences members ↔
      ∃ m ∈ members, refTarget? m.1 m.2 = some name ∨ name ∈ references m.2 := by
  induction members with
  | nil => simp [memberReferences]
  | cons m members ih =>
      rw [memberReferences, List.mem_append, List.mem_append, ih, Option.mem_toList]
      simp

theorem refTarget?_eq_some {key : CodePoints} {value : Json} {name : CodePoints}
    (h : refTarget? key value = some name) :
    key = codePoints "$ref" ∧ value = .string (schemaRef name) := by
  unfold refTarget? at h
  split at h
  · rename_i text
    split_ifs at h with href
    obtain rfl := Option.some.inj h
    refine ⟨href.1, ?_⟩
    rw [schemaRef, List.prefix_iff_eq_append.mp (List.isPrefixOf_iff_prefix.mp href.2)]
  · cases h

mutual

/-- A reference is one of the strings of the document. -/
theorem schemaRef_mem_strings : (value : Json) → ∀ name ∈ references value,
    schemaRef name ∈ strings value
  | .array elements, name, h => schemaRef_mem_elementStrings elements name h
  | .object members, name, h => schemaRef_mem_memberStrings members name h

theorem schemaRef_mem_elementStrings : (elements : List Json) →
    ∀ name ∈ elementReferences elements, schemaRef name ∈ elementStrings elements
  | element :: elements, name, h => by
      obtain h | h := List.mem_append.mp h
      · exact List.mem_append_left _ (schemaRef_mem_strings element name h)
      · exact List.mem_append_right _ (schemaRef_mem_elementStrings elements name h)

theorem schemaRef_mem_memberStrings : (members : List (CodePoints × Json)) →
    ∀ name ∈ memberReferences members, schemaRef name ∈ memberStrings members
  | (key, value) :: members, name, h => by
      obtain h | h := List.mem_append.mp h
      · refine List.mem_append_left _ ?_
        obtain h | h := List.mem_append.mp h
        · obtain ⟨-, rfl⟩ := refTarget?_eq_some (Option.mem_toList.mp h)
          exact List.mem_cons_of_mem _ (List.mem_singleton_self _)
        · exact List.mem_cons_of_mem _ (schemaRef_mem_strings value name h)
      · exact List.mem_append_right _ (schemaRef_mem_memberStrings members name h)

end

/-! ## The document -/

/-- `schema["components"]`, a dictionary. -/
def components? : Json → Option (Members × Members)
  | .object members =>
      match members.lookup (codePoints "components") with
      | some (.object components) => some (members, components)
      | _ => none
  | _ => none

/-- `schema["components"]["schemas"]`, a dictionary. -/
def componentSchemas? (schema : Json) : Option Members :=
  (components? schema).bind fun found =>
    match found.2.lookup (codePoints "schemas") with
    | some (.object schemas) => some schemas
    | _ => none

/-- The document after its dictionary of schemas has become `schemas`. -/
def withSchemas (schema : Json) (schemas : Members) : Json :=
  match components? schema with
  | some (members, components) =>
      .object (dictInsert members (codePoints "components",
        .object (dictInsert components (codePoints "schemas", .object schemas))))
  | none => schema

/-- `{name: schemas.pop(name) for name in names if name in schemas}`, and what is left. -/
def popNamed : List CodePoints → Members → Members × Members
  | [], schemas => ([], schemas)
  | name :: names, schemas =>
      match schemas.lookup name with
      | some definition =>
          let rest := popNamed names (dictPop schemas name)
          ((name, definition) :: rest.1, rest.2)
      | none => popNamed names schemas

/-- `f'"#/components/schemas/{name}"' in dumped` -/
def mentions (dumped : CodePoints) (name : CodePoints) : Bool :=
  0x22 :: (schemaRef name ++ [0x22]) <:+: dumped

/-- Put back the removed schemas that the text mentions. -/
def restoreMentioned (dumped : CodePoints) : Members → Members → Members
  | schemas, [] => schemas
  | schemas, (name, definition) :: removed =>
      restoreMentioned dumped
        (if mentions dumped name then dictInsert schemas (name, definition) else schemas) removed

/-- `_drop_unreferenced`; `none` is a `KeyError`. -/
def dropUnreferenced (schema : Json) (names : List CodePoints) : Option Json :=
  (componentSchemas? schema).map fun schemas =>
    let popped := popNamed names schemas
    let dumped := dumpsSpaced (withSchemas schema popped.2)
    withSchemas schema (restoreMentioned dumped popped.2 popped.1)

/-! ## Dictionaries of schemas -/

theorem lookup_popNamed (names : List CodePoints) (schemas : Members) (key : CodePoints) :
    (popNamed names schemas).1.lookup key = (if key ∈ names then schemas.lookup key else none) ∧
      (popNamed names schemas).2.lookup key =
        if key ∈ names then none else schemas.lookup key := by
  induction names generalizing schemas with
  | nil => simp [popNamed]
  | cons name names ih =>
      rw [popNamed]
      cases hname : schemas.lookup name with
      | none =>
          obtain ⟨hremoved, hleft⟩ := ih schemas
          dsimp only
          rw [hremoved, hleft]
          -- `pop` with the default leaves the dictionary as it is
          by_cases hkey : key = name
          · simp [hkey, hname]
          · simp [hkey]
      | some definition =>
          obtain ⟨hremoved, hleft⟩ := ih (dictPop schemas name)
          dsimp only
          rw [lookup_cons_eq, hremoved, hleft, lookup_dictPop]
          by_cases hkey : key = name
          · simp [hkey, hname]
          · simp [hkey]

theorem mem_popNamed {names : List CodePoints} {schemas : Members} {m : CodePoints × Json} :
    (m ∈ (popNamed names schemas).1 → m.1 ∈ names ∧ schemas.lookup m.1 = some m.2) ∧
      (m ∈ (popNamed names schemas).2 → m ∈ schemas) := by
  induction names generalizing schemas with
  | nil => simp [popNamed]
  | cons name names ih =>
      rw [popNamed]
      cases hname : schemas.lookup name with
      | none => exact ⟨fun h => ⟨List.mem_cons_of_mem _ (ih.1 h).1, (ih.1 h).2⟩, ih.2⟩
      | some definition =>
          constructor
          · intro h
            obtain rfl | h := List.mem_cons.mp h
            · exact ⟨List.mem_cons_self, hname⟩
            · obtain ⟨hmem, hlookup⟩ := ih.1 h
              rw [lookup_dictPop] at hlookup
              split_ifs at hlookup
              exact ⟨List.mem_cons_of_mem _ hmem, hlookup⟩
          · intro h
            exact (mem_dictPop.mp (ih.2 h)).1

theorem nodup_popNamed (names : List CodePoints) (schemas : Members) :
    ((popNamed names schemas).1.map Prod.fst).Nodup := by
  induction names generalizing schemas with
  | nil => exact List.nodup_nil
  | cons name names ih =>
      rw [popNamed]
      cases hname : schemas.lookup name with
      | none => exact ih schemas
      | some definition =>
          -- a name is popped once, since it is gone afterwards
          refine List.nodup_cons.mpr ⟨?_, ih _⟩
          intro h
          obtain ⟨m, hm, hkey⟩ := List.mem_map.mp h
          have hlookup := (mem_popNamed.1 hm).2
          rw [hkey, lookup_dictPop, if_pos rfl] at hlookup
          cases hlookup

theorem lookup_restoreMentioned (dumped : CodePoints) {removed : Members}
    (hremoved : (removed.map Prod.fst).Nodup) (schemas : Members) (key : CodePoints) :
    (restoreMentioned dumped schemas removed).lookup key =
      if mentions dumped key then (removed.lookup key).or (schemas.lookup key)
      else schemas.lookup key := by
  induction removed generalizing schemas with
  | nil => simp [restoreMentioned]
  | cons m removed ih =>
      obtain ⟨name, definition⟩ := m
      obtain ⟨hfresh, hremoved⟩ := List.nodup_cons.mp hremoved
      rw [restoreMentioned, ih hremoved, lookup_cons_eq]
      -- names are removed once, so no later entry restores this one
      by_cases hkey : key = name
      · subst hkey
        have hnone : removed.lookup key = none := by
          refine Option.eq_none_iff_forall_ne_some.mpr fun value hvalue => hfresh ?_
          exact List.mem_map.mpr ⟨(key, value), mem_of_lookup hvalue, rfl⟩
        cases hmentions : mentions dumped key <;> simp [hnone, lookup_dictInsert]
      · split_ifs <;> simp [hkey, lookup_dictInsert]

theorem mem_restoreMentioned {dumped : CodePoints} {schemas removed : Members}
    {m : CodePoints × Json} (h : m ∈ restoreMentioned dumped schemas removed) :
    m ∈ schemas ∨ m ∈ removed ∧ mentions dumped m.1 = true := by
  induction removed generalizing schemas with
  | nil => exact Or.inl h
  | cons n removed ih =>
      obtain ⟨name, definition⟩ := n
      rw [restoreMentioned] at h
      obtain h | ⟨h, hmentions⟩ := ih h
      · split_ifs at h with hmentions
        · obtain rfl | ⟨h, -⟩ := mem_dictInsert.mp h
          · exact Or.inr ⟨List.mem_cons_self, hmentions⟩
          · exact Or.inl h
        · exact Or.inl h
      · exact Or.inr ⟨List.mem_cons_of_mem _ h, hmentions⟩

/-! ## The references of a document with other schemas -/

theorem components?_eq_some {schema : Json} {members components : Members}
    (h : components? schema = some (members, components)) : schema = .object members ∧
      members.lookup (codePoints "components") = some (.object components) := by
  unfold components? at h
  split at h
  · rename_i members'
    split at h
    · rename_i components' hlookup
      obtain ⟨rfl, rfl⟩ := Prod.mk.inj (Option.some.inj h)
      exact ⟨rfl, hlookup⟩
    · cases h
  · cases h

/-- A document with schemas, taken apart. -/
theorem componentSchemas?_eq_some {schema : Json} {schemas : Members}
    (h : componentSchemas? schema = some schemas) :
    ∃ members components, components? schema = some (members, components) ∧
      components.lookup (codePoints "schemas") = some (.object schemas) := by
  obtain ⟨⟨members, components⟩, hcomponents, h⟩ := Option.bind_eq_some_iff.mp h
  refine ⟨members, components, hcomponents, ?_⟩
  dsimp only at h
  split at h
  · rename_i schemas' hlookup
    rw [hlookup, Option.some.inj h]
  · cases h

theorem componentSchemas?_withSchemas {schema : Json} {schemas : Members}
    (h : componentSchemas? schema = some schemas) (schemas' : Members) :
    componentSchemas? (withSchemas schema schemas') = some schemas' := by
  obtain ⟨members, components, hcomponents, -⟩ := componentSchemas?_eq_some h
  rw [withSchemas, hcomponents]
  simp [componentSchemas?, components?, lookup_dictInsert]

theorem mem_memberReferences_dictInsert {members : Members} {key : CodePoints} {value : Members}
    {name : CodePoints} :
    name ∈ memberReferences (dictInsert members (key, .object value)) ↔
      name ∈ memberReferences (dictPop members key) ∨ name ∈ memberReferences value := by
  rw [mem_memberReferences, mem_memberReferences]
  constructor
  · intro h
    obtain ⟨m, hm, href⟩ := h
    obtain rfl | hm := mem_dictInsert.mp hm
    · obtain href | href := href
      · cases href
      · exact Or.inr href
    · exact Or.inl ⟨m, mem_dictPop.mpr hm, href⟩
  · intro h
    obtain ⟨m, hm, href⟩ | h := h
    · exact ⟨m, mem_dictInsert.mpr (Or.inr (mem_dictPop.mp hm)), href⟩
    · exact ⟨_, mem_dictInsert.mpr (Or.inl rfl), Or.inr h⟩

/-- The references of a document are those outside its schemas and those of the schemas. -/
theorem mem_references_withSchemas {schema : Json} {schemas : Members}
    (h : componentSchemas? schema = some schemas) (schemas' : Members) (name : CodePoints) :
    name ∈ references (withSchemas schema schemas') ↔
      name ∈ references (withSchemas schema []) ∨ name ∈ memberReferences schemas' := by
  obtain ⟨members, components, hcomponents, -⟩ := componentSchemas?_eq_some h
  simp only [withSchemas, hcomponents, references, mem_memberReferences_dictInsert,
    memberReferences, List.not_mem_nil, or_false]
  exact or_assoc.symm

theorem memberReferences_of_lookup {members : Members} {key name : CodePoints} {value : Json}
    (h : members.lookup key = some value) (hname : name ∈ references value) :
    name ∈ memberReferences members :=
  mem_memberReferences.mpr ⟨_, mem_of_lookup h, Or.inr hname⟩

/-- Whatever the schemas of a document and the rest of it reference, the document references. -/
theorem references_withSchemas_subset {schema : Json} {schemas : Members}
    (h : componentSchemas? schema = some schemas) {name : CodePoints}
    (hname : name ∈ references (withSchemas schema schemas)) : name ∈ references schema := by
  obtain ⟨members, components, hcomponents, hschemas⟩ := componentSchemas?_eq_some h
  obtain ⟨rfl, hlookup⟩ := components?_eq_some hcomponents
  have hpop : ∀ {members : Members} {key : CodePoints},
      name ∈ memberReferences (dictPop members key) → name ∈ memberReferences members := by
    intro members key hmem
    obtain ⟨m, hm, href⟩ := mem_memberReferences.mp hmem
    exact mem_memberReferences.mpr ⟨m, (mem_dictPop.mp hm).1, href⟩
  simp only [withSchemas, hcomponents, references, mem_memberReferences_dictInsert] at hname
  obtain hname | hname | hname := hname
  · exact hpop hname
  · exact memberReferences_of_lookup hlookup (hpop hname)
  · exact memberReferences_of_lookup hlookup (memberReferences_of_lookup hschemas hname)

/-! ## Dangling references -/

/-- The characters of a component name: letters, digits, `.`, `-` and `_`. -/
def isComponentNameChar (c : Nat) : Bool :=
  (0x41 ≤ c && c ≤ 0x5A) || (0x61 ≤ c && c ≤ 0x7A) || (0x30 ≤ c && c ≤ 0x39) ||
    c == 0x2E || c == 0x2D || c == 0x5F

/-- An OpenAPI document with the given component schemas: its numbers are numbers, the names of the
schemas are component names, and every reference to a schema resolves. -/
structure IsOpenApiDocument (schema : Json) (schemas : Members) : Prop where
  has_schemas : componentSchemas? schema = some schemas
  numbers : AllLeaves Leaf.Numeral none schema
  names : ∀ m ∈ schemas, ∀ c ∈ m.1, isComponentNameChar c = true
  resolves : ∀ name ∈ references schema, dictHas schemas name = true

/-- The schema of one name references another. -/
def RefersTo (schemas : Members) (name other : CodePoints) : Prop :=
  ∃ definition, schemas.lookup name = some definition ∧ other ∈ references definition

/-- The document without the named schemas. -/
def outside (schema : Json) (schemas : Members) (names : List CodePoints) : Json :=
  withSchemas schema (popNamed names schemas).2

/-- A schema can be reached through references from outside the named ones. -/
def ReachableFromOutside (schema : Json) (schemas : Members) (names : List CodePoints)
    (name : CodePoints) : Prop :=
  ∃ start ∈ references (outside schema schemas names),
    Relation.ReflTransGen (RefersTo schemas) start name

/-- The document has a component schema of the name. -/
def hasSchema (schema : Json) (name : CodePoints) : Bool :=
  (componentSchemas? schema).any fun schemas => dictHas schemas name

/-- Every reference of the resulting document resolves, and of the named schemas exactly the
unreachable ones are gone. -/
structure DropsExactly (schema : Json) (schemas : Members) (names : List CodePoints)
    (result : Json) : Prop where
  resolves : ∀ name ∈ references result, hasSchema result name = true
  removed_iff : ∀ name ∈ names, hasSchema schema name = true →
    (hasSchema result name = false ↔ ¬ ReachableFromOutside schema schemas names name)

/-- A key or a string of a document spells the reference to a schema: it is the reference, or ends
with a quotation mark and the reference. -/
def Spelled (document : Json) (name : CodePoints) : Prop :=
  ∃ text ∈ strings document, text = schemaRef name ∨ 0x22 :: schemaRef name <:+ text

/-- What is spelled of the named schemas outside of them: if one is not referenced there, it can be
reached in another way, and with each every one that it references is spelled there. -/
structure SpelledExactly (schema : Json) (schemas : Members) (names : List CodePoints) : Prop where
  stray : ∀ name ∈ names, dictHas schemas name = true →
    Spelled (outside schema schemas names) name → name ∉ references (outside schema schemas names) →
      ReachableFromOutside schema schemas names name
  closed : ∀ name ∈ names, ∀ other ∈ names, RefersTo schemas name other →
    Spelled (outside schema schemas names) name → Spelled (outside schema schemas names) other

theorem escape_of_isComponentNameChar {text : CodePoints}
    (h : ∀ c ∈ text, isComponentNameChar c = true) : escape text = text := by
  induction text with
  | nil => rfl
  | cons c text ih =>
      rw [List.forall_mem_cons] at h
      -- letters, digits, `.`, `-` and `_` are written as they are
      have hc : escapeChar c = [c] := by
        simp only [isComponentNameChar, Bool.or_eq_true, Bool.and_eq_true, decide_eq_true_eq,
          beq_iff_eq] at h
        have hshort : shortEscape c = none := by
          unfold shortEscape
          split_ifs <;> first | rfl | omega
        have hprint : 0x20 ≤ c ∧ c ≤ 0x7E := by omega
        rw [escapeChar, hshort]
        exact if_pos hprint
      rw [escape] at ih
      rw [escape, List.flatMap_cons, hc, ih h.2, List.singleton_append]

theorem isMark_schemaRef {name : CodePoints} (h : ∀ c ∈ name, isComponentNameChar c = true) :
    IsMark (schemaRef name) := by
  have hpath : ∀ c ∈ schemasPath, c ≠ 0x22 ∧ c ≠ 0x5C := by decide +kernel
  have hnot : ∀ c ∈ schemaRef name, c ≠ 0x22 ∧ c ≠ 0x5C := by
    intro c hc
    rcases List.mem_append.mp hc with hc | hc
    · exact hpath c hc
    · have hchar := h c hc
      constructor <;>
        · rintro rfl
          exact absurd hchar (by decide)
  exact ⟨⟨_, rfl⟩, fun hmem => (hnot _ hmem).1 rfl, fun hmem => (hnot _ hmem).2 rfl⟩

theorem escape_schemaRef {name : CodePoints} (h : ∀ c ∈ name, isComponentNameChar c = true) :
    escape (schemaRef name) = schemaRef name := by
  have hpath : escape schemasPath = schemasPath := by decide +kernel
  rw [schemaRef, escape, List.flatMap_append, ← escape, ← escape, hpath,
    escape_of_isComponentNameChar h]

/-- The text of a document mentions a schema exactly if the document spells its reference. -/
theorem mentions_dumpsSpaced_iff {document : Json} (hnumbers : AllLeaves Leaf.Numeral none document)
    {name : CodePoints} (hname : ∀ c ∈ name, isComponentNameChar c = true) :
    mentions (dumpsSpaced document) name = true ↔ Spelled document name := by
  rw [mentions, decide_eq_true_eq]
  exact quoted_infix_dumpsSpaced_iff (isMark_schemaRef hname) (escape_schemaRef hname) hnumbers

/-- What a document references it spells. -/
theorem spelled_of_mem_references {document : Json} {name : CodePoints}
    (h : name ∈ references document) : Spelled document name :=
  ⟨_, schemaRef_mem_strings document name h, Or.inl rfl⟩

section Drop

variable {schema : Json} {schemas : Members} {names : List CodePoints}

/-- The schemas of the resulting document. -/
def schemasAfter (schema : Json) (schemas : Members) (names : List CodePoints) : Members :=
  restoreMentioned (dumpsSpaced (outside schema schemas names)) (popNamed names schemas).2
    (popNamed names schemas).1

theorem dropUnreferenced_eq (h : componentSchemas? schema = some schemas) :
    dropUnreferenced schema names =
      some (withSchemas schema (schemasAfter schema schemas names)) := by
  rw [dropUnreferenced, h]
  rfl

theorem hasSchema_eq (h : componentSchemas? schema = some schemas) (name : CodePoints) :
    hasSchema schema name = dictHas schemas name := by
  rw [hasSchema, h]
  rfl

/-- A named schema stays if the text mentions it; the others stay. -/
theorem dictHas_schemasAfter (name : CodePoints) :
    dictHas (schemasAfter schema schemas names) name =
      (dictHas schemas name && (decide (name ∉ names) ||
        mentions (dumpsSpaced (outside schema schemas names)) name)) := by
  rw [dictHas, schemasAfter, lookup_restoreMentioned _ (nodup_popNamed names schemas),
    (lookup_popNamed names schemas name).1, (lookup_popNamed names schemas name).2, dictHas]
  by_cases hname : name ∈ names
  · cases mentions (dumpsSpaced (outside schema schemas names)) name <;> simp [hname]
  · simp [hname]

/-- The numbers outside the named schemas are numbers of the document. -/
theorem numbers_outside (h : componentSchemas? schema = some schemas)
    (hnumbers : AllLeaves Leaf.Numeral none schema) :
    AllLeaves Leaf.Numeral none (outside schema schemas names) := by
  obtain ⟨members, components, hcomponents, hschemas⟩ := componentSchemas?_eq_some h
  obtain ⟨rfl, hlookup⟩ := components?_eq_some hcomponents
  have hinner : AllMembers Leaf.Numeral components := AllMembers.of_lookup hnumbers hlookup
  have hleft : AllMembers Leaf.Numeral (popNamed names schemas).2 := by
    have hall : AllMembers Leaf.Numeral schemas := hinner.of_lookup hschemas
    rw [allMembers_iff] at hall ⊢
    exact fun m hm => hall m (mem_popNamed.2 hm)
  rw [outside, withSchemas, hcomponents]
  exact AllMembers.dictInsert hnumbers ⟨trivial, hinner.dictInsert ⟨trivial, hleft⟩⟩

/-- What is outside the named schemas is part of the document. -/
theorem references_outside_subset (h : componentSchemas? schema = some schemas)
    {name : CodePoints} (hname : name ∈ references (outside schema schemas names)) :
    name ∈ references schema := by
  refine references_withSchemas_subset h ?_
  rw [outside, mem_references_withSchemas h] at hname
  rw [mem_references_withSchemas h]
  obtain hname | hname := hname
  · exact Or.inl hname
  · obtain ⟨m, hm, href⟩ := mem_memberReferences.mp hname
    exact Or.inr (mem_memberReferences.mpr ⟨m, mem_popNamed.2 hm, href⟩)

theorem IsOpenApiDocument.names_of_dictHas (h : IsOpenApiDocument schema schemas)
    {name : CodePoints} (hhas : dictHas schemas name = true) :
    ∀ c ∈ name, isComponentNameChar c = true := by
  obtain ⟨definition, hmem⟩ := dictHas_iff.mp hhas
  exact h.names _ hmem

theorem IsOpenApiDocument.dictHas_of_refersTo (h : IsOpenApiDocument schema schemas)
    {name other : CodePoints} (hrefers : RefersTo schemas name other) :
    dictHas schemas other = true := by
  obtain ⟨definition, hlookup, href⟩ := hrefers
  refine h.resolves other (references_withSchemas_subset h.has_schemas ?_)
  rw [mem_references_withSchemas h.has_schemas]
  exact Or.inr (memberReferences_of_lookup hlookup href)

/-- A reference from a schema that is not named is one from outside. -/
theorem mem_references_outside_of_refersTo (h : componentSchemas? schema = some schemas)
    {name other : CodePoints} (hname : name ∉ names) (hrefers : RefersTo schemas name other) :
    other ∈ references (outside schema schemas names) := by
  obtain ⟨definition, hlookup, href⟩ := hrefers
  have hleft : (popNamed names schemas).2.lookup name = some definition := by
    rw [(lookup_popNamed names schemas name).2, if_neg hname, hlookup]
  rw [outside, mem_references_withSchemas h]
  exact Or.inr (memberReferences_of_lookup hleft href)

/-- Whether a schema of the document is put back. -/
theorem IsOpenApiDocument.mentions_iff (h : IsOpenApiDocument schema schemas) {name : CodePoints}
    (hhas : dictHas schemas name = true) :
    mentions (dumpsSpaced (outside schema schemas names)) name = true ↔
      Spelled (outside schema schemas names) name :=
  mentions_dumpsSpaced_iff (numbers_outside h.has_schemas h.numbers) (h.names_of_dictHas hhas)

/-- The schemas of the result: those that are not named, and those that are spelled. -/
theorem IsOpenApiDocument.dictHas_schemasAfter_iff (h : IsOpenApiDocument schema schemas)
    (names : List CodePoints) (name : CodePoints) :
    dictHas (schemasAfter schema schemas names) name = true ↔
      dictHas schemas name = true ∧
        (name ∉ names ∨ Spelled (outside schema schemas names) name) := by
  rw [dictHas_schemasAfter, Bool.and_eq_true, Bool.or_eq_true, decide_eq_true_eq]
  constructor
  · rintro ⟨hhas, hkept⟩
    exact ⟨hhas, hkept.imp_right (h.mentions_iff hhas).mp⟩
  · rintro ⟨hhas, hkept⟩
    exact ⟨hhas, hkept.imp_right (h.mentions_iff hhas).mpr⟩

/-- Under the condition a named schema that is spelled is reachable. -/
theorem SpelledExactly.reachable_of_spelled (hexact : SpelledExactly schema schemas names)
    {name : CodePoints} (hname : name ∈ names) (hpresent : dictHas schemas name = true)
    (hspelled : Spelled (outside schema schemas names) name) :
    ReachableFromOutside schema schemas names name := by
  by_cases href : name ∈ references (outside schema schemas names)
  · exact ⟨name, href, .refl⟩
  · exact hexact.stray name hname hpresent hspelled href

/-- Under the condition every reachable named schema is spelled. -/
theorem SpelledExactly.spelled_of_reachable (hexact : SpelledExactly schema schemas names)
    (h : IsOpenApiDocument schema schemas) {name : CodePoints} (hname : name ∈ names)
    (hreach : ReachableFromOutside schema schemas names name) :
    Spelled (outside schema schemas names) name := by
  obtain ⟨start, hstart, hpath⟩ := hreach
  -- along the path of references from outside
  induction hpath with
  | refl => exact spelled_of_mem_references hstart
  | @tail middle last hpath hrefers ih =>
      by_cases hmiddle : middle ∈ names
      · exact hexact.closed middle hmiddle last hname hrefers (ih hmiddle)
      · exact spelled_of_mem_references
          (mem_references_outside_of_refersTo h.has_schemas hmiddle hrefers)

/-- Under the condition every reference of the result resolves. -/
theorem SpelledExactly.resolves_schemasAfter (hexact : SpelledExactly schema schemas names)
    (h : IsOpenApiDocument schema schemas) {name : CodePoints}
    (hname : name ∈ references (withSchemas schema (schemasAfter schema schemas names))) :
    dictHas (schemasAfter schema schemas names) name = true := by
  have hhas := h.has_schemas
  have houtside : name ∈ references (outside schema schemas names) →
      dictHas (schemasAfter schema schemas names) name = true :=
    fun hmem => (h.dictHas_schemasAfter_iff names name).mpr
      ⟨h.resolves name (references_outside_subset hhas hmem),
        Or.inr (spelled_of_mem_references hmem)⟩
  rw [mem_references_withSchemas hhas] at hname
  obtain hname | hname := hname
  · refine houtside ?_
    rw [outside, mem_references_withSchemas hhas]
    exact Or.inl hname
  · obtain ⟨m, hm, href⟩ := mem_memberReferences.mp hname
    obtain hm | ⟨hm, hmentions⟩ := mem_restoreMentioned hm
    · refine houtside ?_
      rw [outside, mem_references_withSchemas hhas]
      exact Or.inr (mem_memberReferences.mpr ⟨m, hm, href⟩)
    · -- the reference of a restored schema; a component is not called `$ref`
      obtain ⟨hnamed, hlookup⟩ := mem_popNamed.1 hm
      have hpresent : dictHas schemas m.1 = true := by simp [dictHas, hlookup]
      obtain href | href := href
      · have hkey := (refTarget?_eq_some href).1
        have hchars := h.names _ (mem_of_lookup hlookup)
        rw [hkey] at hchars
        exact absurd (hchars 0x24 (by decide)) (by decide)
      · have hrefers : RefersTo schemas m.1 name := ⟨m.2, hlookup, href⟩
        refine (h.dictHas_schemasAfter_iff names name).mpr ⟨h.dictHas_of_refersTo hrefers, ?_⟩
        by_cases hnamed' : name ∈ names
        · exact Or.inr (hexact.closed m.1 hnamed name hnamed' hrefers
            ((h.mentions_iff hpresent).mp hmentions))
        · exact Or.inl hnamed'

/-- If references are spelled outside of the named schemas only as references, the condition is
about the references alone. -/
theorem spelledExactly_iff (hstray : ∀ name ∈ names,
      Spelled (outside schema schemas names) name →
        name ∈ references (outside schema schemas names)) :
    SpelledExactly schema schemas names ↔
      ∀ name ∈ names, ∀ other ∈ names, RefersTo schemas name other →
        name ∈ references (outside schema schemas names) →
          other ∈ references (outside schema schemas names) := by
  have hiff : ∀ name ∈ names, Spelled (outside schema schemas names) name ↔
      name ∈ references (outside schema schemas names) :=
    fun name hname => ⟨hstray name hname, spelled_of_mem_references⟩
  constructor
  · intro hexact name hname other hother hrefers href
    exact (hiff other hother).mp
      (hexact.closed name hname other hother hrefers ((hiff name hname).mpr href))
  · intro hclosed
    constructor
    · intro name hname _ hspelled hnot
      exact absurd (hstray name hname hspelled) hnot
    · intro name hname other hother hrefers hspelled
      exact (hiff other hother).mpr
        (hclosed name hname other hother hrefers ((hiff name hname).mp hspelled))

/-- `_drop_unreferenced` leaves no dangling reference, and removes exactly the unreachable schemas
among the named ones, if and only if every reference that is spelled in the rest of the document
without being one is to a reachable schema, and no named schema that is spelled there references
one that is not. -/
theorem drop_unreferenced_iff (h : IsOpenApiDocument schema schemas) (names : List CodePoints) :
    ∃ result, dropUnreferenced schema names = some result ∧
      (DropsExactly schema schemas names result ↔ SpelledExactly schema schemas names) := by
  have hhas := h.has_schemas
  have hresult :=
    hasSchema_eq (componentSchemas?_withSchemas hhas (schemasAfter schema schemas names))
  -- a named schema is missing from the result exactly if it is not spelled
  have hmissing : ∀ name ∈ names, dictHas schemas name = true →
      (dictHas (schemasAfter schema schemas names) name = false ↔
        ¬ Spelled (outside schema schemas names) name) := by
    intro name hname hpresent
    rw [← Bool.not_eq_true, h.dictHas_schemasAfter_iff names name]
    simp [hname, hpresent]
  refine ⟨_, dropUnreferenced_eq hhas, ?_, ?_⟩
  · intro hdrops
    have hreachable : ∀ name ∈ names, dictHas schemas name = true →
        (Spelled (outside schema schemas names) name ↔
          ReachableFromOutside schema schemas names name) := by
      intro name hname hpresent
      have hiff := hdrops.removed_iff name hname ((hasSchema_eq hhas name).trans hpresent)
      rw [hresult, hmissing name hname hpresent] at hiff
      exact not_iff_not.mp hiff
    constructor
    · exact fun name hname hpresent hspelled _ => (hreachable name hname hpresent).mp hspelled
    · intro name hname other hother hrefers hspelled
      have hpresent : dictHas schemas name = true := by
        obtain ⟨definition, hlookup, -⟩ := hrefers
        simp [dictHas, hlookup]
      obtain ⟨start, hstart, hpath⟩ := (hreachable name hname hpresent).mp hspelled
      exact (hreachable other hother (h.dictHas_of_refersTo hrefers)).mpr
        ⟨start, hstart, hpath.tail hrefers⟩
  · intro hexact
    constructor
    · intro name hname
      rw [hresult]
      exact hexact.resolves_schemasAfter h hname
    · intro name hname hpresent
      rw [hasSchema_eq hhas] at hpresent
      rw [hresult, hmissing name hname hpresent]
      exact not_congr ⟨hexact.reachable_of_spelled hname hpresent,
        hexact.spelled_of_reachable h hname⟩

end Drop

/-! ## A schema that only a restored one references -/

section Sample

/-- An object from its members. -/
def objectOf (members : List (String × Json)) : Json :=
  .object (members.map fun m => (codePoints m.1, m.2))

/-- `{"$ref": "#/components/schemas/" + name}` -/
def refTo (name : String) : Json := objectOf [("$ref", .string (schemaRef (codePoints name)))]

def validationSchemaNames : List CodePoints :=
  [codePoints "HTTPValidationError", codePoints "ValidationError"]

/-- The schemas of the framework's 422 response: the first references the second. -/
def validationSchemas : Members :=
  [(codePoints "HTTPValidationError", objectOf [("items", refTo "ValidationError")]),
    (codePoints "ValidationError", objectOf [("type", .string (codePoints "object"))])]

/-- A document with an operation that answers with `HTTPValidationError`. -/
def validationDocument : Json :=
  objectOf [("paths", objectOf [("/v1/checks", objectOf [("post", objectOf [("responses",
      objectOf [("200", objectOf [("content", objectOf [("application/json",
        objectOf [("schema", refTo "HTTPValidationError")])])])])])])]),
    ("components", objectOf [("schemas", .object validationSchemas)])]

theorem isOpenApiDocument_validationDocument :
    IsOpenApiDocument validationDocument validationSchemas where
  has_schemas := rfl
  numbers := by decide +kernel
  names := by
    have hnames : ∀ name ∈ validationSchemas.map Prod.fst, ∀ c ∈ name,
        isComponentNameChar c = true := by decide +kernel
    exact fun m hm => hnames m.1 (List.mem_map_of_mem hm)
  resolves := by decide +kernel

/-- The reference of the restored schema dangles. -/
theorem restored_reference_dangles :
    IsOpenApiDocument validationDocument validationSchemas ∧
      ∃ result, dropUnreferenced validationDocument validationSchemaNames = some result ∧
        codePoints "ValidationError" ∈ references result ∧
        hasSchema result (codePoints "ValidationError") = false ∧
        ¬ DropsExactly validationDocument validationSchemas validationSchemaNames result := by
  have hdrop : (dropUnreferenced validationDocument validationSchemaNames).map (fun result =>
      (decide (codePoints "ValidationError" ∈ references result),
        hasSchema result (codePoints "ValidationError"))) = some (true, false) := by decide +kernel
  obtain ⟨result, hresult, hpair⟩ := Option.map_eq_some_iff.mp hdrop
  obtain ⟨href, hhas⟩ := Prod.mk.inj hpair
  have href := of_decide_eq_true href
  refine ⟨isOpenApiDocument_validationDocument, result, hresult, href, hhas, fun hdrops => ?_⟩
  have hresolves := hdrops.resolves _ href
  rw [hhas] at hresolves
  cases hresolves

/-- The document with a second operation, which answers with `ValidationError`. -/
def checkedDocument : Json :=
  objectOf [("paths", objectOf [("/v1/checks", objectOf [
      ("post", objectOf [("responses", objectOf [("200", refTo "HTTPValidationError")])]),
      ("get", objectOf [("responses", objectOf [("200", refTo "ValidationError")])])])]),
    ("components", objectOf [("schemas", .object validationSchemas)])]

/-- Both schemas are kept. -/
theorem drop_unreferenced_checkedDocument :
    ∃ result, dropUnreferenced checkedDocument validationSchemaNames = some result ∧
      DropsExactly checkedDocument validationSchemas validationSchemaNames result := by
  have hdocument : IsOpenApiDocument checkedDocument validationSchemas :=
    { isOpenApiDocument_validationDocument with
      has_schemas := rfl
      numbers := by decide +kernel
      resolves := by decide +kernel }
  have hreferences : ∀ name ∈ validationSchemaNames,
      name ∈ references (outside checkedDocument validationSchemas validationSchemaNames) := by
    decide +kernel
  obtain ⟨result, hresult, hiff⟩ := drop_unreferenced_iff hdocument validationSchemaNames
  refine ⟨result, hresult, hiff.mpr ((spelledExactly_iff ?_).mpr ?_)⟩
  · exact fun name hname _ => hreferences name hname
  · exact fun name _ other hother _ _ => hreferences other hother

end Sample

end ProjectsApi
