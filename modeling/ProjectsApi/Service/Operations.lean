import ProjectsApi.Domain.Models
import ProjectsApi.Dynamo.Table
import ProjectsApi.Foundation.Program
import ProjectsApi.Foundation.Unicode

/-!
# What the code asks of the outside

The effects of the API and the provisioner, as operations with typed answers:
four DynamoDB requests, the call of a provisioner, the clock, random ids, the log
and the metrics.  `Service` collects the behaviour of the outside that is not fixed by
the table: the errors a request may fail with, the pages a query answers with and
the outcome of provisioning.  `Service.Exec` is the effect of one operation.
-/

namespace ProjectsApi

open Foundation Dynamo

/-! ## Requests and answers -/

/-- The key of a record in the index and in the table, its four attributes being
strings.  A client can send any text, so these are code points. -/
@[ext] structure CursorKey where
  pk : CodePoints
  sk : CodePoints
  gsi1pk : CodePoints
  gsi1sk : CodePoints
  deriving DecidableEq

/-- A `Query` of `GSI1` in descending order, with the key condition
`GSI1PK = :pk AND begins_with(GSI1SK, :prefix)`. -/
structure QueryRequest where
  gsi1pk : String
  beginsWith : String
  limit : Nat
  exclusiveStartKey : Option CursorKey
  deriving DecidableEq

/-- One page of a query. -/
structure QueryOutput where
  items : List Item
  lastEvaluatedKey : Option CursorKey

/-- What the provisioner needs to know about the project; taken from the stream image. -/
structure ProvisionRequest where
  projectId : String
  name : String
  type : ProjectType
  ownerId : String
  deriving DecidableEq

/-- Outcome of a successful provisioning run. -/
structure ProvisionResult where
  endpoint : Option String := none
  details : List (String × String) := []
  deriving DecidableEq

/-- What a call of `Provisioner.provision` ends with: it returns a result, or raises
an exception, of which the handler uses the text. -/
inductive ProvisionOutcome where
  | result (result : ProvisionResult)
  | raised (text : String)
  deriving DecidableEq

inductive LogLevel where
  | debug
  | info
  | warning
  | error
  | exception
  deriving DecidableEq

inductive LogValue where
  | none
  | bool (value : Bool)
  | int (value : Nat)
  | str (value : String)
  | dict (value : List (String × String))
  deriving DecidableEq

/-- A structured log line. -/
structure LogEntry where
  level : LogLevel
  message : String
  fields : List (String × LogValue) := []
  deriving DecidableEq

/-! ## Operations -/

/-- The effects of the code. -/
inductive Op where
  | getItem (key : Key)
  | transactWriteItems (actions : List TransactItem)
  | updateItem (request : UpdateItemRequest)
  | query (request : QueryRequest)
  | provision (request : ProvisionRequest)
  | now
  | uuid4
  | log (entry : LogEntry)
  | addMetric (name : String)

/-- The answer to an operation; an error is the `ClientError` raised by the client. -/
abbrev Op.Ans : Op → Type
  | .getItem _ => Except ClientError (Option Item)
  | .transactWriteItems _ => Except ClientError Unit
  | .updateItem _ => Except ClientError Unit
  | .query _ => Except ClientError QueryOutput
  | .provision _ => ProvisionOutcome
  | .now => Datetime
  | .uuid4 => Uuid4
  | .log _ => Unit
  | .addMetric _ => Unit

/-- The code as programs over these operations. -/
abbrev Action (α : Type) : Type := Program Op Op.Ans α

namespace Action

abbrev getItem (key : Key) : Action (Except ClientError (Option Item)) :=
  Program.perform (Op.getItem key)

abbrev transactWriteItems (actions : List TransactItem) : Action (Except ClientError Unit) :=
  Program.perform (Op.transactWriteItems actions)

abbrev updateItem (request : UpdateItemRequest) : Action (Except ClientError Unit) :=
  Program.perform (Op.updateItem request)

abbrev query (request : QueryRequest) : Action (Except ClientError QueryOutput) :=
  Program.perform (Op.query request)

abbrev provision (request : ProvisionRequest) : Action ProvisionOutcome :=
  Program.perform (Op.provision request)

/-- `datetime.now(UTC).replace(microsecond=0)` -/
abbrev now : Action Datetime :=
  Program.perform Op.now

abbrev uuid4 : Action Uuid4 :=
  Program.perform Op.uuid4

abbrev log (entry : LogEntry) : Action Unit :=
  Program.perform (Op.log entry)

/-- Add one to a counter. -/
abbrev addMetric (name : String) : Action Unit :=
  Program.perform (Op.addMetric name)

end Action

/-! ## The outside -/

/-- A way a request fails: the error its client raises, and whether its writes were
applied nevertheless. -/
structure Fault where
  error : ClientError
  applied : Bool

/-- The behaviour of the outside that the table does not fix. -/
structure Service where
  /-- Errors of reads. -/
  readFault : ClientError → Prop
  /-- Failures of `TransactWriteItems`. -/
  transactFault : Fault → Prop
  /-- Failures of `UpdateItem`. -/
  updateFault : Fault → Prop
  /-- The answers to a query of the items of one index partition. -/
  query : Finset Item → QueryRequest → Except ClientError QueryOutput → Prop
  /-- The outcomes of a provisioning request. -/
  provision : ProvisionRequest → ProvisionOutcome → Prop

namespace Service

/-- The items a query can see. -/
def visible (t : Table) (request : QueryRequest) : Finset Item :=
  indexPartition t "GSI1PK" "GSI1SK" request.gsi1pk request.beginsWith

/-- The table after a write that failed. -/
def afterFault (fault : Fault) (t t' : Table) : Table :=
  if fault.applied then t' else t

/-- One operation of the code: its answer, and the table before and after it.  All
reads are consistent; writes are those of `Dynamo`. -/
inductive Exec (svc : Service) (t : Table) : (op : Op) → op.Ans → Table → Prop where
  | getItem (key : Key) :
      Exec svc t (.getItem key) (.ok (t.lookup key)) t
  | getItemFault (key : Key) {e : ClientError} (hfault : svc.readFault e) :
      Exec svc t (.getItem key) (.error e) t
  | transactWriteItems (actions : List TransactItem) :
      Exec svc t (.transactWriteItems actions) (Dynamo.transactWriteItems actions t).1
        (Dynamo.transactWriteItems actions t).2
  | transactFault (actions : List TransactItem) {fault : Fault}
      (hfault : svc.transactFault fault) :
      Exec svc t (.transactWriteItems actions) (.error fault.error)
        (afterFault fault t (Dynamo.transactWriteItems actions t).2)
  | updateItem (request : UpdateItemRequest) :
      Exec svc t (.updateItem request) (Dynamo.updateItem request t).1
        (Dynamo.updateItem request t).2
  | updateFault (request : UpdateItemRequest) {fault : Fault}
      (hfault : svc.updateFault fault) :
      Exec svc t (.updateItem request) (.error fault.error)
        (afterFault fault t (Dynamo.updateItem request t).2)
  | query (request : QueryRequest) {answer : Except ClientError QueryOutput}
      (hanswer : svc.query (visible t request) request answer) :
      Exec svc t (.query request) answer t
  | provision (request : ProvisionRequest) {outcome : ProvisionOutcome}
      (houtcome : svc.provision request outcome) :
      Exec svc t (.provision request) outcome t
  | now (reading : Datetime) : Exec svc t .now reading t
  | uuid4 (drawn : Uuid4) : Exec svc t .uuid4 drawn t
  | log (entry : LogEntry) : Exec svc t (.log entry) () t
  | addMetric (name : String) : Exec svc t (.addMetric name) () t

/-- No request fails but for the reasons the table gives. -/
structure Faultless (svc : Service) : Prop where
  read : ∀ e, ¬ svc.readFault e
  transact : ∀ fault, ¬ svc.transactFault fault
  update : ∀ fault, ¬ svc.updateFault fault

/-- Writes fail without effect, and not with the error of a failed condition. -/
structure Transient (svc : Service) : Prop where
  transact : ∀ fault, svc.transactFault fault →
    fault.applied = false ∧ fault.error.code ≠ "TransactionCanceledException"
  update : ∀ fault, svc.updateFault fault →
    fault.applied = false ∧ fault.error.code ≠ "ConditionalCheckFailedException"

/-- A service without faults whose provisioners compute their outcome. -/
def reliable (query : Finset Item → QueryRequest → Except ClientError QueryOutput → Prop)
    (outcome : ProvisionRequest → ProvisionOutcome) : Service where
  readFault _ := False
  transactFault _ := False
  updateFault _ := False
  query := query
  provision request result := result = outcome request

theorem reliable_faultless
    (query : Finset Item → QueryRequest → Except ClientError QueryOutput → Prop)
    (outcome : ProvisionRequest → ProvisionOutcome) : (reliable query outcome).Faultless where
  read _ h := h
  transact _ h := h
  update _ h := h

theorem Faultless.transient {svc : Service} (h : svc.Faultless) : svc.Transient where
  transact fault hfault := absurd hfault (h.transact fault)
  update fault hfault := absurd hfault (h.update fault)

variable {svc : Service} {t t' : Table}

/-- What a read answers without faults. -/
theorem Faultless.exec_getItem (h : svc.Faultless) {key : Key}
    {answer : Except ClientError (Option Item)}
    (hexec : svc.Exec t (.getItem key) answer t') :
    answer = .ok (t.lookup key) ∧ t' = t := by
  cases hexec with
  | getItem => exact ⟨rfl, rfl⟩
  | getItemFault _ hfault => exact absurd hfault (h.read _)

theorem Faultless.exec_transactWriteItems (h : svc.Faultless) {actions : List TransactItem}
    {answer : Except ClientError Unit}
    (hexec : svc.Exec t (.transactWriteItems actions) answer t') :
    (answer, t') = Dynamo.transactWriteItems actions t := by
  cases hexec with
  | transactWriteItems => rfl
  | transactFault _ hfault => exact absurd hfault (h.transact _)

theorem Faultless.exec_updateItem (h : svc.Faultless) {request : UpdateItemRequest}
    {answer : Except ClientError Unit}
    (hexec : svc.Exec t (.updateItem request) answer t') :
    (answer, t') = Dynamo.updateItem request t := by
  cases hexec with
  | updateItem => rfl
  | updateFault _ hfault => exact absurd hfault (h.update _)

/-- A write answered as the table says. -/
theorem Exec.of_transactWriteItems {actions : List TransactItem} {answer : Except ClientError Unit}
    (h : Dynamo.transactWriteItems actions t = (answer, t')) :
    svc.Exec t (.transactWriteItems actions) answer t' := by
  have hexec : svc.Exec t (.transactWriteItems actions)
      (Dynamo.transactWriteItems actions t).1 (Dynamo.transactWriteItems actions t).2 :=
    .transactWriteItems actions
  rwa [h] at hexec

theorem Exec.of_updateItem {request : UpdateItemRequest} {answer : Except ClientError Unit}
    (h : Dynamo.updateItem request t = (answer, t')) :
    svc.Exec t (.updateItem request) answer t' := by
  have hexec : svc.Exec t (.updateItem request) (Dynamo.updateItem request t).1
      (Dynamo.updateItem request t).2 :=
    .updateItem request
  rwa [h] at hexec

/-- The operations that write the table. -/
def Writes : Op → Prop
  | .transactWriteItems _ => True
  | .updateItem _ => True
  | _ => False

/-- Every other operation leaves the table alone. -/
theorem Exec.eq_of_not_writes {op : Op} {answer : op.Ans} (hop : ¬ Writes op)
    (hexec : svc.Exec t op answer t') : t' = t := by
  cases hexec <;> first | rfl | exact absurd trivial hop

/-- The table after a transaction is the one before it or the one it asks for. -/
theorem Exec.transact_cases {actions : List TransactItem} {answer : Except ClientError Unit}
    (hexec : svc.Exec t (.transactWriteItems actions) answer t') :
    t' = t ∨ t' = (Dynamo.transactWriteItems actions t).2 := by
  cases hexec with
  | transactWriteItems => exact Or.inr rfl
  | @transactFault _ fault _ =>
      rcases Bool.eq_false_or_eq_true fault.applied with h | h
      · exact Or.inr (by simp [afterFault, h])
      · exact Or.inl (by simp [afterFault, h])

theorem Exec.update_cases {request : UpdateItemRequest} {answer : Except ClientError Unit}
    (hexec : svc.Exec t (.updateItem request) answer t') :
    t' = t ∨ t' = (Dynamo.updateItem request t).2 := by
  cases hexec with
  | updateItem => exact Or.inr rfl
  | @updateFault _ fault _ =>
      rcases Bool.eq_false_or_eq_true fault.applied with h | h
      · exact Or.inr (by simp [afterFault, h])
      · exact Or.inl (by simp [afterFault, h])

end Service

end ProjectsApi
