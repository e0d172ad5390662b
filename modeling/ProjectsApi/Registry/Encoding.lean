import ProjectsApi.Foundation.Registry
import ProjectsApi.Provisioner.Transition

/-!
# The registry a table encodes

What the service keeps is a registry of projects: each under its own id, no two
with one name key.  `Represents R t` says that the table `t` is exactly the
encoding of the registry `R`: a record and a reservation for each project, and
nothing else.
-/

namespace ProjectsApi

open Foundation Dynamo

/-- A stored project, with what the provisioner has recorded about it. -/
@[ext] structure Entry where
  project : Project
  endpoint : Option String := none
  failureReason : Option String := none
  deriving DecidableEq

/-- Projects by id, with distinct name keys. -/
abbrev Projects [CaseTables] : Type :=
  Registry (fun e : Entry => e.project.projectId) (fun e : Entry => nameKey e.project.name)

theorem Projects.projectId_eq [CaseTables] {R : Projects} {id : String} {e : Entry}
    (h : R.find? id = some e) : e.project.projectId = id :=
  R.keyed id e h

/-! ## Items of an entry -/

/-- An attribute that may be missing. -/
def optionalAttribute (name : String) (value : Option String) :
    List (String × AttributeValue) :=
  match value with
  | some value => [(name, .S value)]
  | none => []

/-- The record item of an entry. -/
def recordItem [CaseTables] (e : Entry) : Item :=
  Item.ofList (projectAttributes e.project ++ (optionalAttribute "endpoint" e.endpoint ++
    optionalAttribute "failureReason" e.failureReason))

section Lookups

variable [CaseTables] (e : Entry) (p : Project)

theorem recordItem_of_project : recordItem { project := p } = projectItem p := by
  simp [recordItem, projectItem, optionalAttribute]

theorem lookup_recordItem (name : String) :
    (recordItem e).lookup name = ((projectAttributes e.project).lookup name).or
      (if name = "endpoint" then e.endpoint.map .S
        else if name = "failureReason" then e.failureReason.map .S else none) := by
  rw [recordItem, Item.lookup_ofList, List.lookup_append, List.lookup_append]
  congr 1
  by_cases hendpoint : name = "endpoint"
  · subst hendpoint
    cases e.endpoint <;> cases e.failureReason <;> simp [optionalAttribute]
  · by_cases hreason : name = "failureReason"
    · subst hreason
      cases e.endpoint <;> cases e.failureReason <;> simp [optionalAttribute, List.lookup_cons]
    · cases e.endpoint <;> cases e.failureReason <;>
        simp [optionalAttribute, hendpoint, hreason]

@[simp] theorem recordItem_pk :
    (recordItem e).lookup "PK" = some (.S (projectPk e.project.projectId)) := by
  simp [lookup_recordItem, projectAttributes]

@[simp] theorem recordItem_sk : (recordItem e).lookup "SK" = some (.S "META") := by
  simp [lookup_recordItem, projectAttributes, List.lookup_cons]

@[simp] theorem recordItem_entity : (recordItem e).lookup "entity" = some (.S "PROJECT") := by
  simp [lookup_recordItem, projectAttributes, List.lookup_cons]

@[simp] theorem recordItem_projectId :
    (recordItem e).lookup "projectId" = some (.S e.project.projectId) := by
  simp [lookup_recordItem, projectAttributes, List.lookup_cons]

@[simp] theorem recordItem_name :
    (recordItem e).lookup "name" = some (.S e.project.name) := by
  simp [lookup_recordItem, projectAttributes, List.lookup_cons]

@[simp] theorem recordItem_nameKey :
    (recordItem e).lookup "nameKey" = some (.S (nameKey e.project.name)) := by
  simp [lookup_recordItem, projectAttributes, List.lookup_cons]

@[simp] theorem recordItem_type :
    (recordItem e).lookup "type" = some (.S e.project.type.value) := by
  simp [lookup_recordItem, projectAttributes, List.lookup_cons]

@[simp] theorem recordItem_status :
    (recordItem e).lookup "status" = some (.S e.project.status.value) := by
  simp [lookup_recordItem, projectAttributes, List.lookup_cons]

@[simp] theorem recordItem_ownerId :
    (recordItem e).lookup "ownerId" = some (.S e.project.ownerId) := by
  simp [lookup_recordItem, projectAttributes, List.lookup_cons]

@[simp] theorem recordItem_createdAt :
    (recordItem e).lookup "createdAt" = some (.S e.project.createdAt.isoformat) := by
  simp [lookup_recordItem, projectAttributes, List.lookup_cons]

@[simp] theorem recordItem_updatedAt :
    (recordItem e).lookup "updatedAt" = some (.S e.project.updatedAt.isoformat) := by
  simp [lookup_recordItem, projectAttributes, List.lookup_cons]

@[simp] theorem recordItem_gsi1pk :
    (recordItem e).lookup "GSI1PK" = some (.S (ownerGsi1pk e.project.ownerId)) := by
  simp [lookup_recordItem, projectAttributes, List.lookup_cons]

@[simp] theorem recordItem_gsi1sk :
    (recordItem e).lookup "GSI1SK" = some (.S (gsi1sk e.project)) := by
  simp [lookup_recordItem, projectAttributes, List.lookup_cons]

@[simp] theorem recordItem_endpoint :
    (recordItem e).lookup "endpoint" = e.endpoint.map .S := by
  simp [lookup_recordItem, projectAttributes, List.lookup_cons]

@[simp] theorem recordItem_failureReason :
    (recordItem e).lookup "failureReason" = e.failureReason.map .S := by
  simp [lookup_recordItem, projectAttributes, List.lookup_cons]

theorem recordItem_ne_empty : recordItem e ≠ ∅ := by
  intro h
  have hpk := recordItem_pk e
  simp [h] at hpk

/-- A record is read back as its project. -/
theorem toProject_recordItem [DatetimeParser] : toProject (recordItem e) = .ok e.project :=
  toProject_of_lookups (by simp) (by simp) (by simp) (by simp) (by simp) (by simp) (by simp)

/-- A record tells its project. -/
theorem project_eq_of_recordItem_eq [DatetimeParser] {e e' : Entry}
    (h : recordItem e = recordItem e') : e.project = e'.project := by
  have hread := congrArg toProject h
  rw [toProject_recordItem, toProject_recordItem] at hread
  exact Except.ok.inj hread

@[simp] theorem reservationItem_pk :
    (reservationItem p).lookup "PK" = some (.S (namePk p.name)) := by
  simp [reservationItem, Item.lookup_ofList]

@[simp] theorem reservationItem_sk :
    (reservationItem p).lookup "SK" = some (.S "RESERVATION") := by
  simp [reservationItem, Item.lookup_ofList, List.lookup_cons]

@[simp] theorem reservationItem_projectId :
    (reservationItem p).lookup "projectId" = some (.S p.projectId) := by
  simp [reservationItem, Item.lookup_ofList, List.lookup_cons]

@[simp] theorem reservationItem_ownerId :
    (reservationItem p).lookup "ownerId" = some (.S p.ownerId) := by
  simp [reservationItem, Item.lookup_ofList, List.lookup_cons]

@[simp] theorem reservationItem_createdAt :
    (reservationItem p).lookup "createdAt" = some (.S p.createdAt.isoformat) := by
  simp [reservationItem, Item.lookup_ofList, List.lookup_cons]

@[simp] theorem reservationItem_gsi1pk : (reservationItem p).lookup "GSI1PK" = none := by
  simp [reservationItem, Item.lookup_ofList, List.lookup_cons]

@[simp] theorem key?_recordItem :
    Item.key? (recordItem e) = some (recordKey e.project.projectId) := by
  simp [Item.key?, recordKey]

@[simp] theorem key?_projectItem : Item.key? (projectItem p) = some (recordKey p.projectId) := by
  rw [← recordItem_of_project, key?_recordItem]

@[simp] theorem key?_reservationItem :
    Item.key? (reservationItem p) = some (reservationKey p.name) := by
  simp [Item.key?, reservationKey]

end Lookups

/-! ## Whose transaction it is -/

/-- The transaction of `create` tells its project's id. -/
theorem projectId_of_createActions [CaseTables] {p p' : Project}
    (h : createActions p = createActions p') : p.projectId = p'.projectId := by
  simp only [createActions, List.cons.injEq, TransactItem.mk.injEq, Write.put.injEq, and_true]
    at h
  have hid := congrArg (fun item => item.lookup "projectId") h.2
  simpa [← recordItem_of_project] using hid

/-- It tells the project. -/
theorem project_of_createActions [CaseTables] [DatetimeParser] {p p' : Project}
    (h : createActions p = createActions p') : p = p' := by
  simp only [createActions, List.cons.injEq, TransactItem.mk.injEq, Write.put.injEq, and_true]
    at h
  have hitem := h.2
  rw [← recordItem_of_project, ← recordItem_of_project] at hitem
  exact project_eq_of_recordItem_eq hitem

theorem createActions_ne_deleteActions [CaseTables] (p : Project)
    (projectId name ownerId : String) :
    createActions p ≠ deleteActions projectId name ownerId := by
  simp [createActions, deleteActions]

theorem projectId_of_request {tr tr' : Transition} {id id' : String} {now now' : Datetime}
    (h : tr.request id now = tr'.request id' now') : id = id' :=
  recordKey_inj.mp (congrArg UpdateItemRequest.key h)

/-- The update of a transition tells the status it expects. -/
theorem expected_of_request {tr tr' : Transition} {id id' : String} {now now' : Datetime}
    (h : tr.request id now = tr'.request id' now') : tr.expected = tr'.expected := by
  have hvalues := congrArg (fun request => request.attributes.values.lookup ":expected") h
  have hvalue : some (AttributeValue.S tr.expected.value) =
      some (AttributeValue.S tr'.expected.value) := hvalues
  rw [Option.some_inj, AttributeValue.S.injEq] at hvalue
  exact ProjectStatus.value_injective hvalue

/-- The update of a transition tells the status it leads to. -/
theorem target_of_request {tr tr' : Transition} {id id' : String} {now now' : Datetime}
    (h : tr.request id now = tr'.request id' now') : tr.target = tr'.target := by
  have hvalues := congrArg (fun request => request.attributes.values.lookup ":target") h
  have hvalue : some (AttributeValue.S tr.target.value) =
      some (AttributeValue.S tr'.target.value) := hvalues
  rw [Option.some_inj, AttributeValue.S.injEq] at hvalue
  exact ProjectStatus.value_injective hvalue

/-! ## Tables and registries -/

/-- The table is exactly the encoding of the registry. -/
structure Represents [CaseTables] (R : Projects) (t : Table) : Prop where
  record : ∀ id, t.lookup (recordKey id) = (R.find? id).map recordItem
  reservation : ∀ (name : String) (item : Item), t.lookup (reservationKey name) = some item ↔
    ∃ id e, R.find? id = some e ∧ nameKey e.project.name = nameKey name ∧
      item = reservationItem e.project
  keys : ∀ key item, t.lookup key = some item →
    (∃ id, key = recordKey id) ∨ ∃ name, key = reservationKey name

namespace Represents

variable [CaseTables] {R : Projects} {t : Table}

/-- The empty table encodes the empty registry. -/
theorem empty : Represents Registry.empty (∅ : Table) where
  record id := rfl
  reservation name item := by simp
  keys key item h := by simp at h

theorem record_eq_some (h : Represents R t) {id : String} {item : Item} :
    t.lookup (recordKey id) = some item ↔ ∃ e, R.find? id = some e ∧ item = recordItem e := by
  rw [h.record, Option.map_eq_some_iff]
  exact ⟨fun ⟨e, he, hitem⟩ => ⟨e, he, hitem.symm⟩, fun ⟨e, he, hitem⟩ => ⟨e, he, hitem.symm⟩⟩

/-- A name is reserved in the table exactly when it is taken in the registry. -/
theorem reserved_iff (h : Represents R t) (name : String) :
    (t.lookup (reservationKey name)).isSome = true ↔ R.Taken (nameKey name) := by
  rw [Option.isSome_iff_exists]
  constructor
  · rintro ⟨item, hitem⟩
    obtain ⟨id, e, he, hname, -⟩ := (h.reservation name item).mp hitem
    exact ⟨id, e, he, hname⟩
  · rintro ⟨id, e, he, hname⟩
    exact ⟨_, (h.reservation name _).mpr ⟨id, e, he, hname, rfl⟩⟩

end Represents

end ProjectsApi
