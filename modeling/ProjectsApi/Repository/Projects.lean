import ProjectsApi.Repository.Items

/-!
# ProjectRepository

The four methods of the repository as programs over the operations of the
service, each with the mapping of client errors to exceptions that it performs.
-/

namespace ProjectsApi

open Foundation Dynamo ProjectsApi.Action

/-- `exc.response["Error"]["Code"] == "TransactionCanceledException"` -/
def isTransactionCanceled (e : ClientError) : Bool :=
  e.code == "TransactionCanceledException"

/-- `needle in text` -/
def containsText (text needle : String) : Bool :=
  decide (needle.toList <:+: text.toList)

namespace ProjectRepository

/-! ## Writes -/

/-- The exception `create` raises when its transaction fails.  Index 0 is the name
reservation; without reasons the text of the error decides. -/
def createError (name : String) (e : ClientError) : Exn :=
  if isTransactionCanceled e then
    match e.cancellationReasons with
    | reason :: _ =>
        if reason = "ConditionalCheckFailed" then .projectNameTaken name else .clientError e
    | [] =>
        if containsText e.text "ConditionalCheckFailed" then .projectNameTaken name
        else .clientError e
  else .clientError e

/-- Atomically write the project and its name reservation. -/
def create [CaseTables] (project : Project) : Action (Except Exn Project) := do
  match ← transactWriteItems (createActions project) with
  | .ok () => return .ok project
  | .error e => return .error (createError project.name e)

/-- Read one record, consistently. -/
def get [DatetimeParser] (projectId : String) : Action (Except Exn Project) := do
  match ← getItem (recordKey projectId) with
  | .error e => return .error (.clientError e)
  | .ok none => return .error (.projectNotFound projectId)
  | .ok (some item) =>
      if item = ∅ then return .error (.projectNotFound projectId)
      else return toProject item

/-- The line `delete` logs when the reservation is not the project's own. -/
def mismatchEntry [CaseTables] (projectId name : String) : LogEntry where
  level := .error
  message := "name reservation does not point at the project being deleted"
  fields := [("project_id", .str projectId), ("record_key", .str (recordKey projectId).pk),
    ("reservation_key", .str (reservationKey name).pk)]

/-- How `delete` ends when its transaction fails. -/
def deleteError [CaseTables] (projectId name : String) (e : ClientError) :
    Action (Except Exn Unit) := do
  if isTransactionCanceled e then
    -- index 0 is the record: it vanished or changed owner since the read
    if e.cancellationReasons[0]? = some "ConditionalCheckFailed" then
      return .error (.projectNotFound projectId)
    -- index 1 is the reservation
    else if e.cancellationReasons[1]? = some "ConditionalCheckFailed" then
      log (mismatchEntry projectId name)
      return .error (.clientError e)
    else return .error (.clientError e)
  else return .error (.clientError e)

/-- Delete a project and release its name reservation in one transaction. -/
def delete [CaseTables] [DatetimeParser] (projectId ownerId : String) :
    Action (Except Exn Unit) := do
  match ← get projectId with
  | .error exn => return .error exn
  | .ok project =>
      if project.ownerId ≠ ownerId then return .error (.projectNotFound projectId)
      else
        match ← transactWriteItems
            (deleteActions projectId project.name ownerId) with
        | .ok () => return .ok ()
        | .error e => deleteError projectId project.name e

/-! ## Reads -/

/-- One page of the owner's projects and the key to continue from. -/
abbrev Page : Type := List Project × Option CursorKey

/-- The query of one page. -/
def listRequest (ownerId : String) (limit : Nat) (cursor : Option CursorKey) :
    QueryRequest where
  gsi1pk := ownerGsi1pk ownerId
  beginsWith := projectGsi1skPrefix
  limit := limit
  exclusiveStartKey := cursor

/-- One page of the owner's projects, newest first, from `GSI1`. -/
def listByOwner [DatetimeParser] (ownerId : String) (limit : Nat)
    (cursor : Option CursorKey) : Action (Except Exn Page) := do
  match ← query (listRequest ownerId limit cursor) with
  | .error e =>
      if cursor.isSome && e.code == "ValidationException" then return .error .invalidCursor
      else return .error (.clientError e)
  | .ok output =>
      return (output.items.mapM toProject).map fun projects =>
        (projects, output.lastEvaluatedKey)

end ProjectRepository

end ProjectsApi
