import ProjectsApi.Foundation.FiniteMap

/-!
# Items and expressions

An item is a finite map from attribute names to typed values.  Requests speak
about items through expressions, in which a name may be an alias (`#s`) and a
value is always a placeholder (`:owner`), both defined beside the expression.
Only the operators in use by clients of this model are covered.
-/

namespace Dynamo

open Foundation

/-- A typed attribute value.  Strings are kept apart from every other type, of
which only the text of the deserialised value is kept. -/
inductive AttributeValue where
  | S (value : String)
  | other (text : String)
  deriving DecidableEq, Repr

@[simp] theorem AttributeValue.S_beq (a b : String) :
    (AttributeValue.S a == AttributeValue.S b) = decide (a = b) := by
  rw [beq_eq_decide, decide_eq_decide, AttributeValue.S.injEq]

/-- An item: attribute names to values. -/
abbrev Item : Type := Finmap fun _ : String => AttributeValue

namespace Item

/-- The item with the listed attributes; of a repeated name the first counts. -/
def ofList (attributes : List (String × AttributeValue)) : Item :=
  attributes.foldr (fun attr item => item.insert attr.1 attr.2) ∅

@[simp] theorem lookup_ofList_nil (name : String) : (ofList []).lookup name = none := rfl

theorem lookup_ofList_cons (name : String) (attr : String × AttributeValue)
    (attributes : List (String × AttributeValue)) :
    (ofList (attr :: attributes)).lookup name =
      if name = attr.1 then some attr.2 else (ofList attributes).lookup name :=
  lookup_insert_eq _ _ _ _

/-- An item of a list is the list looked up from the left. -/
theorem lookup_ofList (name : String) (attributes : List (String × AttributeValue)) :
    (ofList attributes).lookup name = attributes.lookup name := by
  induction attributes with
  | nil => rfl
  | cons attr attributes ih =>
      rw [lookup_ofList_cons, ih]
      obtain ⟨name', value⟩ := attr
      by_cases h : name = name'
      · simp [h]
      · have hne : (name == name') = false := by simpa using h
        simp [h, List.lookup_cons, hne]

/-- `item[name]["S"]`, where the attribute is there and is a string. -/
def string? (item : Item) (name : String) : Option String :=
  match item.lookup name with
  | some (.S value) => some value
  | _ => none

theorem string?_eq_some_iff {item : Item} {name value : String} :
    string? item name = some value ↔ item.lookup name = some (.S value) := by
  unfold string?
  cases item.lookup name with
  | none => simp
  | some stored => cases stored <;> simp

end Item

/-! ## Names and values of an expression -/

/-- `ExpressionAttributeNames` and `ExpressionAttributeValues`. -/
structure ExpressionAttributes where
  names : List (String × String) := []
  values : List (String × AttributeValue) := []

/-- Whether a path of an expression is an alias. -/
def isAlias (path : String) : Bool :=
  path.toList.head? == some '#'

namespace ExpressionAttributes

variable (ctx : ExpressionAttributes)

/-- The attribute a path of an expression denotes. -/
def resolve (path : String) : Option String :=
  if isAlias path then ctx.names.lookup path else some path

/-- The value an expression reads at a path of a possibly missing item. -/
def read (item : Option Item) (path : String) : Option AttributeValue :=
  (ctx.resolve path).bind fun name => item.bind fun attributes => attributes.lookup name

end ExpressionAttributes

/-! ## Conditions -/

/-- A `ConditionExpression`. -/
inductive Condition where
  | attributeExists (path : String)
  | attributeNotExists (path : String)
  | equals (path operand : String)
  | and (left right : Condition)
  deriving DecidableEq, Repr

namespace Condition

/-- The paths a condition mentions. -/
def paths : Condition → List String
  | attributeExists path => [path]
  | attributeNotExists path => [path]
  | equals path _ => [path]
  | and left right => left.paths ++ right.paths

/-- The value placeholders a condition mentions. -/
def operands : Condition → List String
  | attributeExists _ => []
  | attributeNotExists _ => []
  | equals _ operand => [operand]
  | and left right => left.operands ++ right.operands

/-- Evaluation on the stored item; of a missing item every attribute is missing,
and a comparison with a missing attribute is false. -/
def holds (ctx : ExpressionAttributes) (item : Option Item) : Condition → Bool
  | attributeExists path => (ctx.read item path).isSome
  | attributeNotExists path => (ctx.read item path).isNone
  | equals path operand =>
      match ctx.read item path, ctx.values.lookup operand with
      | some stored, some value => stored == value
      | _, _ => false
  | and left right => left.holds ctx item && right.holds ctx item

end Condition

end Dynamo
