import ProjectsApi.Repository.Items

/-!
# The provisioner

`ProjectStatusStore`, whose three transitions are one conditional update with
different statuses and extra attributes, and `record_handler`, which takes one
stream record through them.
-/

namespace ProjectsApi

open Foundation Dynamo ProjectsApi.Action

/-! ## Status transitions -/

/-- The update of one transition.  The extra attributes, sorted by name, get the
placeholders `#x0`, `:x0`, `#x1`, ... -/
def transitionRequest (projectId : String) (expected target : ProjectStatus)
    (extra : List (String × AttributeValue)) (now : Datetime) : UpdateItemRequest :=
  let extra := (extra.insertionSort fun a b => a.1 ≤ b.1).zipIdx
  { key := recordKey projectId
    updates := [("#s", ":target"), ("#u", ":now")] ++
      extra.map fun x => ("#x" ++ toString x.2, ":x" ++ toString x.2)
    condition := .equals "#s" ":expected"
    attributes := {
      names := [("#s", "status"), ("#u", "updatedAt")] ++
        extra.map fun x => ("#x" ++ toString x.2, x.1.1)
      values := [(":expected", .S expected.value), (":target", .S target.value),
        (":now", .S now.isoformat)] ++ extra.map fun x => (":x" ++ toString x.2, x.1.2) } }

namespace ProjectStatusStore

/-- `_transition`: whether the record was in the expected status and was moved. -/
def transition (projectId : String) (expected target : ProjectStatus)
    (extra : List (String × AttributeValue)) : Action (Except Exn Bool) := do
  let now ← Action.now
  match ← updateItem (transitionRequest projectId expected target extra now) with
  | .ok () => return .ok true
  | .error e =>
      if e.code = "ConditionalCheckFailedException" then return .ok false
      else return .error (.clientError e)

/-- CREATED -> PROVISIONING. False if the record is no longer CREATED. -/
def begin (projectId : String) : Action (Except Exn Bool) :=
  transition projectId .created .provisioning []

/-- What `complete` stores beside the status: the endpoint, when there is one. -/
def completeExtra (result : ProvisionResult) : List (String × AttributeValue) :=
  match result.endpoint with
  | some endpoint => if endpoint = "" then [] else [("endpoint", .S endpoint)]
  | none => []

/-- PROVISIONING -> READY, storing the endpoint when there is one. -/
def complete (projectId : String) (result : ProvisionResult) : Action (Except Exn Bool) :=
  transition projectId .provisioning .ready (completeExtra result)

def maxFailureReasonLength : Nat := 500

/-- `reason[:MAX_FAILURE_REASON_LENGTH] or "unknown error"` -/
def boundedReason (reason : String) : String :=
  let bounded := String.ofList (reason.toList.take maxFailureReasonLength)
  if bounded = "" then "unknown error" else bounded

/-- What `fail` stores beside the status. -/
def failExtra (reason : String) : List (String × AttributeValue) :=
  [("failureReason", .S (boundedReason reason))]

/-- PROVISIONING -> FAILED with a bounded `failureReason`. -/
def fail (projectId reason : String) : Action (Except Exn Bool) :=
  transition projectId .provisioning .failed (failExtra reason)

end ProjectStatusStore

/-! ## The record handler -/

/-- A stream record: the members of the raw event that the handler reads. -/
structure StreamRecord where
  eventName : Option String
  newImage : Option Item

/-- `str(value)` of a deserialised attribute value. -/
def attributeText : AttributeValue → String
  | .S value => value
  | .other text => text

/-- `str(image[name])` -/
def imageText (image : Item) (name : String) : Except Exn String :=
  match image.lookup name with
  | some value => .ok (attributeText value)
  | none => .error (.keyError name)

/-! ### Log lines -/

/-- What a log line shows of an attribute that may be missing. -/
def logAttribute (image : Item) (name : String) : LogValue :=
  match image.lookup name with
  | some value => .str (attributeText value)
  | none => .none

def logOption (text : Option String) : LogValue :=
  match text with
  | some text => .str text
  | none => .none

def skipEntry (fields : List (String × LogValue)) : LogEntry where
  level := .debug
  message := "skipping record"
  fields := fields

def alreadyHandledEntry (projectId : String) : LogEntry where
  level := .info
  message := "project already handled; skipping"
  fields := [("project_id", .str projectId)]

def provisioningFailedEntry (request : ProvisionRequest) : LogEntry where
  level := .exception
  message := "provisioning failed"
  fields := [("project_id", .str request.projectId), ("type", .str request.type.value)]

def provisionedEntry (request : ProvisionRequest) (result : ProvisionResult) : LogEntry where
  level := .info
  message := "project provisioned"
  fields := [("project_id", .str request.projectId), ("type", .str request.type.value),
    ("endpoint", logOption result.endpoint), ("details", .dict result.details)]

/-- The warning that the outcome of provisioning could not be recorded. -/
def notRecordedEntry (target : ProjectStatus) (projectId : String) : LogEntry where
  level := .warning
  message := "status changed during provisioning; " ++ target.value ++ " not recorded"
  fields := [("project_id", .str projectId)]

/-! ### The handler -/

/-- What the handler does once `provision` has raised: record FAILED. -/
def recordFailure (request : ProvisionRequest) (text : String) :
    Action (Except Exn Unit) := do
  log (provisioningFailedEntry request)
  addMetric "ProjectsProvisioningFailed"
  match ← ProjectStatusStore.fail request.projectId text with
  | .error exn => return .error exn
  | .ok true => return .ok ()
  | .ok false =>
      log (notRecordedEntry .failed request.projectId)
      return .ok ()

/-- What the handler does once `provision` has returned: record READY. -/
def recordResult (request : ProvisionRequest) (result : ProvisionResult) :
    Action (Except Exn Unit) := do
  match ← ProjectStatusStore.complete request.projectId result with
  | .error exn => return .error exn
  | .ok true =>
      addMetric "ProjectsProvisioned"
      log (provisionedEntry request result)
      return .ok ()
  | .ok false =>
      log (notRecordedEntry .ready request.projectId)
      return .ok ()

/-- What the handler does once it has moved the project to PROVISIONING. -/
def provisionProject (image : Item) (projectId : String) (type : ProjectType) :
    Action (Except Exn Unit) := do
  match imageText image "name", imageText image "ownerId" with
  | .error exn, _ => return .error exn
  | _, .error exn => return .error exn
  | .ok name, .ok ownerId =>
      let request : ProvisionRequest :=
        { projectId := projectId, name := name, type := type, ownerId := ownerId }
      match ← provision request with
      | .raised text => recordFailure request text
      | .result result => recordResult request result

/-- The handler on the image of a project in status CREATED. -/
def handleProject (image : Item) : Action (Except Exn Unit) := do
  match imageText image "projectId", imageText image "type" with
  | .error exn, _ => return .error exn
  | _, .error exn => return .error exn
  | .ok projectId, .ok typeText =>
      match ProjectType.ofValue? typeText with
      | none => return .error (.valueError typeText)
      | some type =>
          match ← ProjectStatusStore.begin projectId with
          | .error exn => return .error exn
          | .ok false =>
              log (alreadyHandledEntry projectId)
              return .ok ()
          | .ok true => provisionProject image projectId type

/-- Process one stream record.  Raising marks the record failed for the batch response. -/
def recordHandler (record : StreamRecord) : Action (Except Exn Unit) := do
  if record.eventName ≠ some "INSERT" then
    log (skipEntry [("reason", .str "not an INSERT"), ("event_name", logOption record.eventName)])
    return .ok ()
  else
    match record.newImage with
    | none =>
        log (skipEntry [("reason", .str "no NewImage")])
        return .ok ()
    | some image =>
        if image = ∅ then
          log (skipEntry [("reason", .str "no NewImage")])
          return .ok ()
        else if image.lookup "entity" ≠ some (.S "PROJECT") then
          log (skipEntry [("reason", .str "not a project"),
            ("entity", logAttribute image "entity")])
          return .ok ()
        else if image.lookup "status" ≠ some (.S ProjectStatus.created.value) then
          log (skipEntry [("reason", .str "not CREATED"),
            ("status", logAttribute image "status")])
          return .ok ()
        else handleProject image

end ProjectsApi
