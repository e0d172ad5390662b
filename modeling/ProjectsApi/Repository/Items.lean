import Mathlib.Data.List.Infix
import ProjectsApi.Service.Operations

/-!
# The layout of a project in the table

A project is two items: its record under `PROJECT#<id>` and the reservation of its
name under `NAME#<nameKey>`.  This module has their keys, the items `create`
writes, the actions of the two transactions, and `_to_project`, which reads a
record back.
-/

namespace ProjectsApi

open Foundation Dynamo

/-- The exceptions the code raises or lets through. -/
inductive Exn where
  | projectNameTaken (name : String)
  | projectNotFound (projectId : String)
  | invalidCursor
  | clientError (error : ClientError)
  | keyError (key : String)
  | valueError (value : String)
  | validationError (field : String)
  deriving DecidableEq

/-- How pydantic reads a `datetime` field: an ISO 8601 text with an offset is read
as the instant it denotes. -/
class DatetimeParser where
  parse : String → Option Datetime
  parse_isoformat : ∀ d : Datetime, parse d.isoformat = some d

/-- A parser of the one layout the service writes. -/
abbrev DatetimeParser.iso : DatetimeParser where
  parse := Datetime.parseIsoformat
  parse_isoformat := Datetime.parseIsoformat_isoformat

namespace Sample

/-- The tables and the parser of the runs on samples. -/
scoped instance caseTables : CaseTables := .ascii

scoped instance datetimeParser : DatetimeParser := .iso

end Sample

/-! ## Keys -/

def projectPk (projectId : String) : String := "PROJECT#" ++ projectId

def namePk [CaseTables] (name : String) : String := "NAME#" ++ nameKey name

def ownerGsi1pk (ownerId : String) : String := "OWNER#" ++ ownerId

def projectGsi1skPrefix : String := "PROJECT#"

/-- The primary key of a project record. -/
def recordKey (projectId : String) : Key := ⟨projectPk projectId, "META"⟩

/-- The primary key of the reservation of a name. -/
def reservationKey [CaseTables] (name : String) : Key := ⟨namePk name, "RESERVATION"⟩

theorem projectPk_injective : Function.Injective projectPk := by
  intro a b h
  have htext := congrArg String.toList h
  simp only [projectPk, String.toList_append] at htext
  exact String.toList_inj.mp (List.append_cancel_left htext)

theorem ownerGsi1pk_injective : Function.Injective ownerGsi1pk := by
  intro a b h
  have htext := congrArg String.toList h
  simp only [ownerGsi1pk, String.toList_append] at htext
  exact String.toList_inj.mp (List.append_cancel_left htext)

@[simp] theorem recordKey_inj {a b : String} : recordKey a = recordKey b ↔ a = b := by
  constructor
  · intro h
    exact projectPk_injective (congrArg Key.pk h)
  · rintro rfl
    rfl

@[simp] theorem reservationKey_inj [CaseTables] {a b : String} :
    reservationKey a = reservationKey b ↔ nameKey a = nameKey b := by
  constructor
  · intro h
    have htext := congrArg (String.toList ∘ Key.pk) h
    simp only [reservationKey, namePk, Function.comp_apply, String.toList_append] at htext
    exact String.toList_inj.mp (List.append_cancel_left htext)
  · intro h
    simp [reservationKey, namePk, h]

@[simp] theorem recordKey_ne_reservationKey [CaseTables] (projectId name : String) :
    recordKey projectId ≠ reservationKey name := by
  intro h
  exact absurd (congrArg Key.sk h) (by decide : "META" ≠ "RESERVATION")

@[simp] theorem reservationKey_ne_recordKey [CaseTables] (projectId name : String) :
    reservationKey name ≠ recordKey projectId :=
  (recordKey_ne_reservationKey projectId name).symm

/-! ## Items -/

/-- `GSI1SK` of a project: creation time, then id. -/
def gsi1sk (p : Project) : String :=
  projectGsi1skPrefix ++ p.createdAt.isoformat ++ "#" ++ p.projectId

/-- The attributes `create` writes into the project record. -/
def projectAttributes [CaseTables] (p : Project) : List (String × AttributeValue) :=
  [("PK", .S (projectPk p.projectId)),
    ("SK", .S "META"),
    ("entity", .S "PROJECT"),
    ("projectId", .S p.projectId),
    ("name", .S p.name),
    ("nameKey", .S (nameKey p.name)),
    ("type", .S p.type.value),
    ("status", .S p.status.value),
    ("ownerId", .S p.ownerId),
    ("createdAt", .S p.createdAt.isoformat),
    ("updatedAt", .S p.updatedAt.isoformat),
    ("GSI1PK", .S (ownerGsi1pk p.ownerId)),
    ("GSI1SK", .S (gsi1sk p))]

def projectItem [CaseTables] (p : Project) : Item :=
  Item.ofList (projectAttributes p)

def reservationItem [CaseTables] (p : Project) : Item :=
  Item.ofList
    [("PK", .S (namePk p.name)),
      ("SK", .S "RESERVATION"),
      ("entity", .S "NAME_RESERVATION"),
      ("projectId", .S p.projectId),
      ("ownerId", .S p.ownerId),
      ("createdAt", .S p.createdAt.isoformat)]

/-! ## Transactions -/

/-- The transaction of `create`: index 0 is the reservation. -/
def createActions [CaseTables] (p : Project) : List TransactItem :=
  [{ write := .put (reservationItem p), condition := .attributeNotExists "PK" },
    { write := .put (projectItem p), condition := .attributeNotExists "PK" }]

/-- The transaction of `delete`: index 0 is the record. -/
def deleteActions [CaseTables] (projectId name ownerId : String) : List TransactItem :=
  [{ write := .delete (recordKey projectId)
     condition := .and (.attributeExists "PK") (.equals "ownerId" ":owner")
     attributes := { values := [(":owner", .S ownerId)] } },
    { write := .delete (reservationKey name)
      condition := .equals "projectId" ":id"
      attributes := { values := [(":id", .S projectId)] } }]

/-! ## Reading a record -/

/-- `item[name]["S"]` -/
def stringField (item : Item) (name : String) : Except Exn String :=
  match item.lookup name with
  | none => .error (.keyError name)
  | some (.S value) => .ok value
  | some (.other _) => .error (.keyError "S")

/-- The value pydantic makes of a text, or its error naming the field. -/
def validated {α : Type} (field : String) (value : Option α) : Except Exn α :=
  match value with
  | some value => .ok value
  | none => .error (.validationError field)

/-- `_to_project` -/
def toProject [DatetimeParser] (item : Item) : Except Exn Project := do
  let projectId ← stringField item "projectId"
  let name ← stringField item "name"
  let type ← stringField item "type"
  let status ← stringField item "status"
  let ownerId ← stringField item "ownerId"
  let createdAt ← stringField item "createdAt"
  let updatedAt ← stringField item "updatedAt"
  return {
    projectId := projectId
    name := name
    type := ← validated "type" (ProjectType.ofValue? type)
    status := ← validated "status" (ProjectStatus.ofValue? status)
    ownerId := ownerId
    createdAt := ← validated "createdAt" (DatetimeParser.parse createdAt)
    updatedAt := ← validated "updatedAt" (DatetimeParser.parse updatedAt)
  }

/-- An item that carries a project's texts is read as that project, whatever else it
carries. -/
theorem toProject_of_lookups [DatetimeParser] {item : Item} {p : Project}
    (hid : item.lookup "projectId" = some (.S p.projectId))
    (hname : item.lookup "name" = some (.S p.name))
    (htype : item.lookup "type" = some (.S p.type.value))
    (hstatus : item.lookup "status" = some (.S p.status.value))
    (howner : item.lookup "ownerId" = some (.S p.ownerId))
    (hcreated : item.lookup "createdAt" = some (.S p.createdAt.isoformat))
    (hupdated : item.lookup "updatedAt" = some (.S p.updatedAt.isoformat)) :
    toProject item = .ok p := by
  simp only [toProject, stringField, hid, hname, htype, hstatus, howner, hcreated, hupdated]
  simp [validated, bind, Except.bind, pure, Except.pure, DatetimeParser.parse_isoformat]

end ProjectsApi
