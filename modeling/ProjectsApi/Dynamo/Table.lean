import Mathlib.Data.Finmap
import ProjectsApi.Dynamo.Expression

/-!
# Conditional writes on one table

A table maps primary keys to items.  Its write requests are conditional and
atomic: `updateItem` tests one condition and then sets attributes of one item,
creating it if it is missing; `transactWriteItems` tests the condition of each
action against the table as it is, and applies all actions or none.  A refused
request answers with the error the service documents and leaves the table alone.
-/

namespace Dynamo

/-- A primary key. -/
@[ext] structure Key where
  pk : String
  sk : String
  deriving DecidableEq

/-- A table: primary keys to items. -/
abbrev Table : Type := Finmap fun _ : Key => Item

/-- An error response, `botocore`'s `ClientError`.  `cancellationReasons` are the
codes of a cancelled transaction's actions, in order. -/
structure ClientError where
  code : String
  message : String
  operation : String
  cancellationReasons : List String := []
  deriving DecidableEq

namespace ClientError

/-- `str(exc)`. -/
def text (e : ClientError) : String :=
  s!"An error occurred ({e.code}) when calling the {e.operation} operation: {e.message}"

/-- An `UpdateItem` refused because its condition is false. -/
def conditionalCheckFailed : ClientError where
  code := "ConditionalCheckFailedException"
  message := "The conditional request failed"
  operation := "UpdateItem"

/-- A cancelled transaction. -/
def transactionCanceled (reasons : List String) : ClientError where
  code := "TransactionCanceledException"
  message := "Transaction cancelled, please refer cancellation reasons for specific reasons [" ++
    ", ".intercalate reasons ++ "]"
  operation := "TransactWriteItems"
  cancellationReasons := reasons

/-- A malformed request. -/
def validation (operation : String) : ClientError where
  code := "ValidationException"
  message := "One or more parameter values were invalid"
  operation := operation

end ClientError

/-! ## UpdateItem -/

/-- An `UpdateItem` request.  `updates` are the assignments of its update
expression `SET path = operand, ...`. -/
structure UpdateItemRequest where
  key : Key
  updates : List (String × String)
  condition : Condition
  attributes : ExpressionAttributes

namespace UpdateItemRequest

/-- The aliases the request uses. -/
def usedNames (r : UpdateItemRequest) : List String :=
  (r.updates.map Prod.fst ++ r.condition.paths).filter isAlias

/-- The value placeholders the request uses. -/
def usedValues (r : UpdateItemRequest) : List String :=
  r.updates.map Prod.snd ++ r.condition.operands

/-- The service accepts a request whose placeholders are exactly the defined
ones, none defined twice, and which assigns no attribute twice. -/
structure WellFormed (r : UpdateItemRequest) : Prop where
  names_nodup : (r.attributes.names.map Prod.fst).Nodup
  values_nodup : (r.attributes.values.map Prod.fst).Nodup
  names_defined : ∀ path ∈ r.usedNames, path ∈ r.attributes.names.map Prod.fst
  names_used : ∀ path ∈ r.attributes.names.map Prod.fst, path ∈ r.usedNames
  values_defined : ∀ operand ∈ r.usedValues, operand ∈ r.attributes.values.map Prod.fst
  values_used : ∀ operand ∈ r.attributes.values.map Prod.fst, operand ∈ r.usedValues
  targets_nodup : (r.updates.map fun u => r.attributes.resolve u.1).Nodup

theorem wellFormed_iff (r : UpdateItemRequest) :
    r.WellFormed ↔
      (r.attributes.names.map Prod.fst).Nodup ∧
      (r.attributes.values.map Prod.fst).Nodup ∧
      (∀ path ∈ r.usedNames, path ∈ r.attributes.names.map Prod.fst) ∧
      (∀ path ∈ r.attributes.names.map Prod.fst, path ∈ r.usedNames) ∧
      (∀ operand ∈ r.usedValues, operand ∈ r.attributes.values.map Prod.fst) ∧
      (∀ operand ∈ r.attributes.values.map Prod.fst, operand ∈ r.usedValues) ∧
      (r.updates.map fun u => r.attributes.resolve u.1).Nodup :=
  ⟨fun ⟨a, b, c, d, e, f, g⟩ => ⟨a, b, c, d, e, f, g⟩,
    fun ⟨a, b, c, d, e, f, g⟩ => ⟨a, b, c, d, e, f, g⟩⟩

instance (r : UpdateItemRequest) : Decidable r.WellFormed :=
  decidable_of_iff' _ r.wellFormed_iff

/-- One assignment of the update expression. -/
def assign (r : UpdateItemRequest) (item : Item) (update : String × String) : Item :=
  match r.attributes.resolve update.1, r.attributes.values.lookup update.2 with
  | some name, some value => item.insert name value
  | _, _ => item

/-- The item after the update; a missing item starts with its key alone. -/
def apply (r : UpdateItemRequest) (item : Option Item) : Item :=
  r.updates.foldl r.assign
    (item.getD (Item.ofList [("PK", .S r.key.pk), ("SK", .S r.key.sk)]))

/-- The condition, evaluated on the stored item. -/
def conditionHolds (r : UpdateItemRequest) (t : Table) : Bool :=
  r.condition.holds r.attributes (t.lookup r.key)

end UpdateItemRequest

/-- The response to an `UpdateItem` request and the table after it. -/
def updateItem (r : UpdateItemRequest) (t : Table) : Except ClientError Unit × Table :=
  if ¬ r.WellFormed then (.error (.validation "UpdateItem"), t)
  else if r.conditionHolds t then (.ok (), t.insert r.key (r.apply (t.lookup r.key)))
  else (.error .conditionalCheckFailed, t)

theorem updateItem_of_holds {r : UpdateItemRequest} {t : Table} (hr : r.WellFormed)
    (h : r.conditionHolds t = true) :
    updateItem r t = (.ok (), t.insert r.key (r.apply (t.lookup r.key))) := by
  simp [updateItem, hr, h]

theorem updateItem_of_not_holds {r : UpdateItemRequest} {t : Table} (hr : r.WellFormed)
    (h : r.conditionHolds t = false) :
    updateItem r t = (.error .conditionalCheckFailed, t) := by
  simp [updateItem, hr, h]

/-! ## TransactWriteItems -/

/-- What an action of a transaction writes. -/
inductive Write where
  | put (item : Item)
  | delete (key : Key)

/-- The primary key an item carries. -/
def Item.key? (item : Item) : Option Key :=
  match item.lookup "PK", item.lookup "SK" with
  | some (.S pk), some (.S sk) => some ⟨pk, sk⟩
  | _, _ => none

namespace Write

/-- The key an action writes at. -/
def key? : Write → Option Key
  | put item => Item.key? item
  | delete key => some key

def apply (t : Table) : Write → Table
  | put item =>
      match Item.key? item with
      | some key => t.insert key item
      | none => t
  | delete key => t.erase key

end Write

/-- One conditional action of a transaction. -/
structure TransactItem where
  write : Write
  condition : Condition
  attributes : ExpressionAttributes := {}

namespace TransactItem

/-- The service accepts an action that names its key and defines the
placeholders of its condition. -/
def wellFormed (action : TransactItem) : Bool :=
  action.write.key?.isSome &&
    action.condition.operands.all fun operand =>
      (action.attributes.values.lookup operand).isSome

/-- The condition, evaluated on the item stored at the action's key. -/
def holds (t : Table) (action : TransactItem) : Bool :=
  action.condition.holds action.attributes (action.write.key?.bind t.lookup)

/-- The cancellation reason of an action. -/
def reason (t : Table) (action : TransactItem) : String :=
  if action.holds t then "None" else "ConditionalCheckFailed"

end TransactItem

/-- The response to a `TransactWriteItems` request and the table after it. -/
def transactWriteItems (actions : List TransactItem) (t : Table) :
    Except ClientError Unit × Table :=
  if !actions.all TransactItem.wellFormed then
    (.error (.validation "TransactWriteItems"), t)
  else if actions.all (TransactItem.holds t) then
    (.ok (), actions.foldl (fun t action => action.write.apply t) t)
  else (.error (.transactionCanceled (actions.map (TransactItem.reason t))), t)

section Transaction

variable {actions : List TransactItem} {t : Table}

/-- The answer is decided by which of the conditions hold. -/
theorem transactWriteItems_of_verdicts {verdicts : List Bool}
    (hw : actions.all TransactItem.wellFormed = true)
    (h : actions.map (TransactItem.holds t) = verdicts) :
    transactWriteItems actions t =
      if verdicts.all id then (.ok (), actions.foldl (fun t action => action.write.apply t) t)
      else (.error (.transactionCanceled (verdicts.map fun holds =>
        if holds then "None" else "ConditionalCheckFailed")), t) := by
  have hall : actions.all (TransactItem.holds t) = verdicts.all id := by
    rw [← h, List.all_map]
    rfl
  have hreasons : actions.map (TransactItem.reason t) =
      verdicts.map fun holds => if holds then "None" else "ConditionalCheckFailed" := by
    rw [← h, List.map_map]
    rfl
  rw [transactWriteItems, hw, hall, hreasons]
  rfl

end Transaction

/-! ## Index partitions -/

/-- What a query of a secondary index with hash attribute `hash` and range
attribute `range` can see: the items whose hash attribute is `value` and whose
range attribute begins with `leading`. -/
def indexPartition (t : Table) (hash range value leading : String) : Finset Item :=
  (t.entries.map Sigma.snd).toFinset.filter fun item =>
    Item.string? item hash = some value ∧
      (Item.string? item range).any (fun position =>
        leading.toList.isPrefixOf position.toList) = true

theorem mem_indexPartition {t : Table} {hash range value leading : String} {item : Item} :
    item ∈ indexPartition t hash range value leading ↔
      (∃ key, t.lookup key = some item) ∧ Item.string? item hash = some value ∧
        ∃ position, Item.string? item range = some position ∧
          leading.toList <+: position.toList := by
  have hstored : (∃ a ∈ t.entries, a.snd = item) ↔ ∃ key, t.lookup key = some item := by
    constructor
    · rintro ⟨⟨key, stored⟩, hmem, rfl⟩
      exact ⟨key, Finmap.lookup_eq_some_iff.mpr hmem⟩
    · rintro ⟨key, hlookup⟩
      exact ⟨⟨key, item⟩, Finmap.lookup_eq_some_iff.mp hlookup, rfl⟩
  simp only [indexPartition, Finset.mem_filter, Multiset.mem_toFinset, Multiset.mem_map,
    hstored, Option.any_eq_true, List.isPrefixOf_iff_prefix]

end Dynamo
